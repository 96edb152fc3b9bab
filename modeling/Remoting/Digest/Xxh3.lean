/-! The 64-bit XXH3 digest with seed zero and the standard secret. Inputs fall into five classes
of length; each class reads the secret at places of its own. -/

namespace Remoting

namespace Xxh3

def prime32₁ : UInt64 := 0x9E3779B1
def prime32₂ : UInt64 := 0x85EBCA77
def prime32₃ : UInt64 := 0xC2B2AE3D
def prime64₁ : UInt64 := 0x9E3779B185EBCA87
def prime64₂ : UInt64 := 0xC2B2AE3D27D4EB4F
def prime64₃ : UInt64 := 0x165667B19E3779F9
def prime64₄ : UInt64 := 0x85EBCA77C2B2AE63
def prime64₅ : UInt64 := 0x27D4EB2F165667C5
def mixer₁ : UInt64 := 0x165667919E3779F9
def mixer₂ : UInt64 := 0x9FB21C651E98DF25

/-- The standard secret of 192 bytes. -/
def secret : ByteArray := ⟨#[
  0xb8, 0xfe, 0x6c, 0x39, 0x23, 0xa4, 0x4b, 0xbe, 0x7c, 0x01, 0x81, 0x2c, 0xf7, 0x21, 0xad, 0x1c,
  0xde, 0xd4, 0x6d, 0xe9, 0x83, 0x90, 0x97, 0xdb, 0x72, 0x40, 0xa4, 0xa4, 0xb7, 0xb3, 0x67, 0x1f,
  0xcb, 0x79, 0xe6, 0x4e, 0xcc, 0xc0, 0xe5, 0x78, 0x82, 0x5a, 0xd0, 0x7d, 0xcc, 0xff, 0x72, 0x21,
  0xb8, 0x08, 0x46, 0x74, 0xf7, 0x43, 0x24, 0x8e, 0xe0, 0x35, 0x90, 0xe6, 0x81, 0x3a, 0x26, 0x4c,
  0x3c, 0x28, 0x52, 0xbb, 0x91, 0xc3, 0x00, 0xcb, 0x88, 0xd0, 0x65, 0x8b, 0x1b, 0x53, 0x2e, 0xa3,
  0x71, 0x64, 0x48, 0x97, 0xa2, 0x0d, 0xf9, 0x4e, 0x38, 0x19, 0xef, 0x46, 0xa9, 0xde, 0xac, 0xd8,
  0xa8, 0xfa, 0x76, 0x3f, 0xe3, 0x9c, 0x34, 0x3f, 0xf9, 0xdc, 0xbb, 0xc7, 0xc7, 0x0b, 0x4f, 0x1d,
  0x8a, 0x51, 0xe0, 0x4b, 0xcd, 0xb4, 0x59, 0x31, 0xc8, 0x9f, 0x7e, 0xc9, 0xd9, 0x78, 0x73, 0x64,
  0xea, 0xc5, 0xac, 0x83, 0x34, 0xd3, 0xeb, 0xc3, 0xc5, 0x81, 0xa0, 0xff, 0xfa, 0x13, 0x63, 0xeb,
  0x17, 0x0d, 0xdd, 0x51, 0xb7, 0xf0, 0xda, 0x49, 0xd3, 0x16, 0x55, 0x26, 0x29, 0xd4, 0x68, 0x9e,
  0x2b, 0x16, 0xbe, 0x58, 0x7d, 0x47, 0xa1, 0xfc, 0x8f, 0xf8, 0xb8, 0xd1, 0x7a, 0xd0, 0x31, 0xce,
  0x45, 0xcb, 0x3a, 0x8f, 0x95, 0x16, 0x04, 0x28, 0xaf, 0xd7, 0xfb, 0xca, 0xbb, 0x4b, 0x40, 0x7e]⟩

/-- The byte at a place; past the end there are zeros. -/
def byteAt (bytes : ByteArray) (place : Nat) : UInt64 :=
  match bytes[place]? with
  | some byte => byte.toUInt64
  | none => 0

def word (bytes : ByteArray) (place width : Nat) : UInt64 :=
  (List.range width).foldr (fun i acc => (acc <<< 8) ||| byteAt bytes (place + i)) 0

def word32 (bytes : ByteArray) (place : Nat) : UInt64 := word bytes place 4

def word64 (bytes : ByteArray) (place : Nat) : UInt64 := word bytes place 8

def rotateLeft (x : UInt64) (n : UInt64) : UInt64 := (x <<< n) ||| (x >>> (64 - n))

def reverseBytes (x : UInt64) : UInt64 :=
  (List.range 8).foldl (fun acc i => (acc <<< 8) ||| ((x >>> (8 * i.toUInt64)) &&& (0xFF : UInt64))) 0

def foldedProduct (x y : UInt64) : UInt64 :=
  let product := x.toNat * y.toNat
  UInt64.ofNat product ^^^ UInt64.ofNat (product >>> 64)

def avalanche (h : UInt64) : UInt64 :=
  let h := h ^^^ (h >>> 37)
  let h := h * mixer₁
  h ^^^ (h >>> 32)

def shortAvalanche (h : UInt64) : UInt64 :=
  let h := (h ^^^ (h >>> 33)) * prime64₂
  let h := (h ^^^ (h >>> 29)) * prime64₃
  h ^^^ (h >>> 32)

def upTo3 (input : ByteArray) : UInt64 :=
  let size := input.size
  let first := word input 0 1
  let middle := word input (size / 2) 1
  let last := word input (size - 1) 1
  let combined := (first <<< 16) ||| (middle <<< 24) ||| last ||| (size.toUInt64 <<< 8)
  shortAvalanche (combined ^^^ (word32 secret 0 ^^^ word32 secret 4))

def upTo8 (input : ByteArray) : UInt64 :=
  let size := input.size.toUInt64
  let keyed := (word32 input (input.size - 4) + (word32 input 0 <<< 32))
    ^^^ (word64 secret 8 ^^^ word64 secret 16)
  let h := keyed ^^^ rotateLeft keyed 49 ^^^ rotateLeft keyed 24
  let h := h * mixer₂
  let h := h ^^^ ((h >>> 35) + size)
  let h := h * mixer₂
  h ^^^ (h >>> 28)

def upTo16 (input : ByteArray) : UInt64 :=
  let low := word64 input 0 ^^^ (word64 secret 24 ^^^ word64 secret 32)
  let high := word64 input (input.size - 8) ^^^ (word64 secret 40 ^^^ word64 secret 48)
  avalanche (input.size.toUInt64 + reverseBytes low + high + foldedProduct low high)

def mix16 (input : ByteArray) (place key : Nat) : UInt64 :=
  foldedProduct (word64 input place ^^^ word64 secret key)
    (word64 input (place + 8) ^^^ word64 secret (key + 8))

/-- Pairs of pieces from both ends inwards: one pair more for every started 32 bytes. -/
def upTo128 (input : ByteArray) : UInt64 :=
  let size := input.size
  let pairs := (size + 31) / 32
  avalanche ((List.range pairs).foldl
    (fun acc i => acc + mix16 input (16 * i) (32 * i) + mix16 input (size - 16 * (i + 1)) (32 * i + 16))
    (size.toUInt64 * prime64₁))

def upTo240 (input : ByteArray) : UInt64 :=
  let size := input.size
  let start := (List.range 8).foldl (fun acc i => acc + mix16 input (16 * i) (16 * i))
    (size.toUInt64 * prime64₁)
  let rest := (List.range (size / 16 - 8)).foldl
    (fun acc i => acc + mix16 input (16 * (i + 8)) (16 * i + 3)) (avalanche start)
  avalanche (rest + mix16 input (size - 16) 119)

abbrev Lanes := Array UInt64

def startLanes : Lanes :=
  #[prime32₃, prime64₁, prime64₂, prime64₃, prime64₄, prime32₂, prime64₅, prime32₁]

/-- One stripe of 64 bytes: a lane takes the product of the halves of its keyed word, and its
neighbour takes the word itself. -/
def addStripe (input : ByteArray) (lanes : Lanes) (place key : Nat) : Lanes :=
  (List.range 8).foldl
    (fun lanes i =>
      let value := word64 input (place + 8 * i)
      let keyed := value ^^^ word64 secret (key + 8 * i)
      let neighbour := if i % 2 = 0 then i + 1 else i - 1
      (lanes.modify neighbour (· + value)).modify i
        fun lane => lane + (keyed &&& (0xFFFFFFFF : UInt64)) * (keyed >>> (32 : UInt64)))
    lanes

def scramble (lanes : Lanes) : Lanes :=
  lanes.mapIdx fun i (lane : UInt64) => (lane ^^^ (lane >>> 47) ^^^ word64 secret (128 + 8 * i)) * prime32₁

def addStripes (input : ByteArray) (lanes : Lanes) (place count : Nat) : Lanes :=
  (List.range count).foldl (fun lanes i => addStripe input lanes (place + 64 * i) (8 * i)) lanes

/-- Blocks of sixteen stripes, each but the last followed by a scramble, and the last 64 bytes. -/
def long (input : ByteArray) : UInt64 :=
  let size := input.size
  let blocks := (size - 1) / 1024
  let lanes := (List.range blocks).foldl
    (fun lanes b => scramble (addStripes input lanes (1024 * b) 16)) startLanes
  let lanes := addStripes input lanes (1024 * blocks) ((size - 1 - 1024 * blocks) / 64)
  let lanes := addStripe input lanes (size - 64) 121
  avalanche ((List.range 4).foldl
    (fun acc i => acc + foldedProduct
      (lanes[2 * i]?.getD 0 ^^^ word64 secret (11 + 16 * i))
      (lanes[2 * i + 1]?.getD 0 ^^^ word64 secret (19 + 16 * i)))
    (size.toUInt64 * prime64₁))

def digest (input : ByteArray) : UInt64 :=
  if input.size = 0 then shortAvalanche (word64 secret 56 ^^^ word64 secret 64)
  else if input.size ≤ 3 then upTo3 input
  else if input.size ≤ 8 then upTo8 input
  else if input.size ≤ 16 then upTo16 input
  else if input.size ≤ 128 then upTo128 input
  else if input.size ≤ 240 then upTo240 input
  else long input

end Xxh3

end Remoting
