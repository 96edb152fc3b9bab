import Remoting.Member.Registry
import Remoting.Wire.Witness
import Remoting.Codec.Identity

/-! Codecs: for each type how large a value is, how it is written and how it is read. A codec is
made of the codecs of the types inside its own, so every function on codecs goes by their
structure. -/

namespace Remoting

/-- A codec from outside the catalogue. The sizes that it tells are any machine words, and it writes
a value as a sequence of so many pieces. -/
structure CustomCodec where
  type : WireType
  fixedSize : Option UInt64 := none
  minSize : UInt64 := fixedSize.getD 0
  size : Value → Except EncodeError UInt64
  pieceCount : Value → Nat
  piece : Value → Nat → Bytes
  decode : Bounds → Reader Value

inductive Codec
  | unit
  | bool
  | number (type : NumberType)
  | text
  | blob
  | witness
  | member (kind : MemberKind) (registry : Registry)
  | array (element : Codec)
  | nullable (inner : Codec)
  | custom (codec : CustomCodec)

/-- How many elements an array may have if none of them takes a byte. -/
def maxZeroWidth : Nat := 0x10000

namespace Codec

/-- The codec of a primitive type. -/
def primitive? : WireType → Option Codec
  | .unit => some unit
  | .bool => some bool
  | .number type => some (number type)
  | _ => none

/-- The codecs that are not made of others and need no registry, by their types. -/
def leaves : List (WireType × Codec) :=
  (.unit :: .bool :: NumberType.all.map .number).filterMap
      (fun type => (primitive? type).map fun codec => (type, codec))
    ++ [(.text, text), (.blob, blob), (.witness, witness)]

def leaf? (type : WireType) : Option Codec :=
  (leaves.find? fun leaf => leaf.1 == type).map (·.2)

def ofType (registry : Registry) : WireType → Except CodecError Codec
  | .array element => (ofType registry element).map array
  | .nullable inner => (ofType registry inner).map nullable
  | .member .any => .error (.unsupportedMemberKind .any)
  | .member kind => .ok (member kind registry)
  | .generic index => .error (.openGeneric index)
  | .pending result => .error (.pendingType (.pending result))
  | leaf =>
    match leaf? leaf with
    | some codec => .ok codec
    | none => .error (.unsupported leaf)

@[simp] theorem ofType_number (registry : Registry) (type : NumberType) :
    ofType registry (.number type) = .ok (number type) := by
  cases type <;> rfl

def type : Codec → WireType
  | unit => .unit
  | bool => .bool
  | number type => .number type
  | text => .text
  | blob => .blob
  | witness => .witness
  | member kind _ => .member kind
  | array element => .array element.type
  | nullable inner => .nullable inner.type
  | custom codec => codec.type

/-- The size that all values share, for the types of which they do. -/
def fixedSize : Codec → Option Nat
  | unit => some 0
  | bool => some 1
  | number type => some type.width
  | custom codec => codec.fixedSize.map UInt64.toNat
  | _ => none

def minSize : Codec → Nat
  | unit => 0
  | bool => 1
  | number type => type.width
  | text | blob | array _ => 4
  | witness | member _ _ | nullable _ => 1
  | custom codec => codec.minSize.toNat

def mismatch (codec : Codec) (value : Value) : EncodeError :=
  .typeMismatch codec.type value.kind

/-- Whether an array of so many elements exceeds what is allowed for elements without bytes. -/
def exceedsZeroWidth (element : Codec) (count : Nat) : Bool :=
  element.fixedSize == some 0 && maxZeroWidth < count

/-- The size of an array of so many elements behind a header. Elements of a fixed size are still
looked at, since one of another type has no size. -/
def arraySize {σ : Type} [Add σ] [Mul σ] (header count : σ) (size : Value → Except EncodeError σ)
    (fixed : Option σ) (items : List Value) : Except EncodeError σ :=
  (totalSize size header items).map fun sum =>
    match fixed with
    | some width => header + width * count
    | none => sum

/-- The size of a value, as a number without a bound. -/
def size : Codec → Value → Except EncodeError Nat
  | unit, .unit => .ok 0
  | bool, .bool _ => .ok 1
  | number type, .number t bits =>
    if t = type then .ok type.width else .error ((number type).mismatch (.number t bits))
  | text, .null => .ok 4
  | text, .text s => .ok (4 + s.utf8ByteSize)
  | blob, .null => .ok 4
  | blob, .blob bytes => .ok (4 + bytes.length)
  | witness, .null => .ok 1
  | witness, .witness type => type.witnessSize
  | member _ _, .null => .ok 1
  | member kind registry, .member handle =>
    if handle.member.kind = kind then handle.identity.size.map (1 + ·)
    else .error ((member kind registry).mismatch (.member handle))
  | array _, .null => .ok 4
  | array element, .array items =>
    if element.exceedsZeroWidth items.length then
      .error (.tooManyZeroWidth items.length maxZeroWidth)
    else arraySize 4 items.length element.size element.fixedSize items
  | nullable _, .null => .ok 1
  | nullable inner, value => (inner.size value).map (1 + ·)
  | custom codec, value => (codec.size value).map UInt64.toNat
  | codec, value => .error (codec.mismatch value)

/-- The size of a value as it is calculated, in machine words. Sums and products wrap around, which
can be told only where the sizes of codecs from outside go into them. -/
def wordSize : Codec → Value → Except EncodeError UInt64
  | array element, .array items =>
    if element.exceedsZeroWidth items.length then
      .error (.tooManyZeroWidth items.length maxZeroWidth)
    else
      arraySize 4 (UInt64.ofNat items.length) element.wordSize
        (element.fixedSize.map UInt64.ofNat) items
  | nullable _, .null => .ok 1
  | nullable inner, value => (inner.wordSize value).map (1 + ·)
  | custom codec, value => codec.size value
  | codec, value => (codec.size value).map UInt64.ofNat

/-- The tag in place of a witness that is null. -/
def nullWitness : UInt8 := 0xFF

def encode : Codec → Value → Writer Unit
  | unit, .unit => pure ()
  | bool, .bool b => Writer.byte (if b then 1 else 0)
  | number type, .number t bits =>
    if t = type then Writer.put (littleEndian type.width bits.toNat)
    else throw ((number type).mismatch (.number t bits))
  | text, .null => Writer.blob none
  | text, .text s => Writer.blob (some (textBytes s))
  | blob, .null => Writer.blob none
  | blob, .blob bytes => Writer.blob (some bytes)
  | witness, .null => Writer.byte nullWitness
  | witness, .witness type => Writer.witness type
  | member _ _, .null => Writer.byte 0
  | member kind registry, .member handle =>
    if handle.member.kind = kind then do
      Writer.byte 1
      Writer.identity handle.identity
    else throw ((member kind registry).mismatch (.member handle))
  | array _, .null => Writer.length none
  | array element, .array items =>
    if element.exceedsZeroWidth items.length then
      throw (.tooManyZeroWidth items.length maxZeroWidth)
    else do
      Writer.length (some items.length)
      Writer.each element.encode items
  | nullable _, .null => Writer.byte 0
  | nullable inner, value => do
    Writer.byte 1
    inner.encode value
  | custom codec, value => Writer.pieces (codec.piece value) 0 (codec.pieceCount value)
  | codec, value => throw (codec.mismatch value)

/-- Reads a value. The bounds are those of the outermost length; everything inside a value is
read under strict bounds. -/
def decode : Codec → Bounds → Reader Value
  | unit, _ => return .unit
  | bool, _ => do
    match ← Reader.byte with
    | 0 => return .bool false
    | 1 => return .bool true
    | other => throw (.invalidBool other)
  | number type, _ => do
    return .number type (BitVec.ofNat _ (← Reader.number type.width))
  | text, bounds => do
    match ← Reader.blob? bounds with
    | none => return .null
    | some bytes =>
      match textOfBytes? bytes with
      | none => throw .invalidUtf8
      | some s => return .text s
  | blob, bounds => do
    match ← Reader.blob? bounds with
    | none => return .null
    | some bytes => return .blob bytes
  | witness, _ => do
    let tag ← Reader.byte
    if tag = nullWitness then return .null
    return .witness (← Reader.witnessAfter maxWitnessDepth tag)
  | member kind registry, _ => do
    if ← Reader.presence then
      return .member (← Reader.handle registry (← Reader.identity kind))
    return .null
  | array element, bounds => do
    match ← Reader.length? bounds element.minSize with
    | none => return .null
    | some count =>
      if element.exceedsZeroWidth count then throw (.tooManyZeroWidth count maxZeroWidth)
      return .array (← Reader.many (element.decode .strict) count)
  | nullable inner, bounds => do
    if ← Reader.presence then inner.decode bounds else return .null
  | custom codec, bounds => codec.decode bounds

def ofOpen (registry : Registry) (arguments : List WireType) (type : WireType) :
    Except CodecError Codec :=
  match type.substitute arguments with
  | some closed => ofType registry closed
  | none => .error (.openGeneric (type.placeholder?.getD 0))

def ofTypes (registry : Registry) (types : List WireType) : Except CodecError (List Codec) :=
  types.mapM (ofType registry)

end Codec

end Remoting
