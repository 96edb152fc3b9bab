import Remoting.Wire.Error

/-! Reading from the front of the bytes that are left. A failed read leaves what it had not yet
consumed, so the place of a failure can be told. -/

namespace Remoting

abbrev Reader := EStateM DecodeError Bytes

/-- Whether a declared length must be able to fit into the bytes left. `relaxed` is for the last
field of a payload, whose end the envelope has fixed; every single read is checked in any case. -/
inductive Bounds
  | strict | relaxed
deriving DecidableEq, Repr

/-- The largest length that a prefix can declare. -/
def maxLength : Nat := 0x7FFFFFFF

/-- The prefix that stands for null. -/
def nullLength : Nat := 0xFFFFFFFF

namespace Reader

def start (payload : Bytes) (offset : Nat) : Except DecodeError Bytes :=
  if offset > payload.length then .error (.offsetOutOfRange offset payload.length)
  else .ok (payload.drop offset)

/-- The next `n` bytes, all or none. -/
def take (n : Nat) : Reader Bytes := fun left =>
  if Bytes.holds n left then .ok (left.take n) (left.drop n)
  else .error (.truncated n left.length) left

def byte : Reader UInt8
  | [] => .error (.truncated 1 0) []
  | b :: left => .ok b left

def number (width : Nat) : Reader Nat := do
  return ofLittleEndian (← take width)

def word : Reader UInt16 := do
  return UInt16.ofNat (← number 2)

/-- Fails unless `size` bytes could be left for something that declared `declared` parts. -/
def expect (declared size : Nat) : Reader Unit := fun left =>
  if Bytes.holds size left then .ok () left
  else .error (.lengthBeyondInput declared left.length) left

/-- A length prefix; nothing for null. Under strict bounds that many parts of `minSize` bytes must
fit into what is left. -/
def length? (bounds : Bounds) (minSize : Nat) : Reader (Option Nat) := do
  let declared ← number 4
  if declared = nullLength then return none
  if declared > maxLength then throw (.invalidLength ((declared : Int) - 0x100000000))
  if bounds = .strict then expect declared (declared * minSize)
  return some declared

/-- A run of bytes behind its length; nothing for null. -/
def blob? (bounds : Bounds) : Reader (Option Bytes) := do
  match ← length? bounds 1 with
  | none => return none
  | some n => return some (← take n)

def text : Reader String := do
  match ← blob? .strict with
  | none => throw (.invalidLength (-1))
  | some bytes =>
    match textOfBytes? bytes with
    | none => throw .invalidUtf8
    | some s => return s

/-- As many readings in a row as asked for, in front of those already there in reverse. -/
def manyOnto {α : Type} (read : Reader α) : Nat → List α → Reader (List α)
  | 0, done => return done.reverse
  | n + 1, done => do
    let next ← read
    manyOnto read n (next :: done)

def many {α : Type} (read : Reader α) (n : Nat) : Reader (List α) :=
  manyOnto read n []

def exhausted : Reader Unit
  | [] => .ok () []
  | left => .error (.trailingBytes left.length) left

theorem take_append (bytes left : Bytes) : take bytes.length (bytes ++ left) = .ok bytes left := by
  simp [take, Bytes.holds_iff]

end Reader

end Remoting
