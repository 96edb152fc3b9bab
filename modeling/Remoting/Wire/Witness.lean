import Remoting.Types.Tag
import Remoting.Wire.Writer

/-! Types as bytes. A witness is the tag of the type, then the witness of what an array, nullable or
pending type is made of, the index of a placeholder, or the kind of a member. -/

namespace Remoting

/-- How many layers of types a witness may have. -/
def maxWitnessDepth : Nat := 32

namespace WireType

/-- The layers of a type: one for what is not made of another. -/
def depth : WireType → Nat
  | array inner | nullable inner | pending inner => 1 + inner.depth
  | _ => 1

def witnessBytes : WireType → Bytes
  | array element => TypeTag.array.byte :: element.witnessBytes
  | nullable inner => TypeTag.nullable.byte :: inner.witnessBytes
  | pending result => TypeTag.pending.byte :: result.witnessBytes
  | generic index => TypeTag.generic.byte :: littleEndian 2 index.toNat
  | member kind => [TypeTag.member.byte, kind.byte]
  | leaf => [leaf.tag.byte]

def witnessLength : WireType → Nat
  | array inner | nullable inner | pending inner => 1 + inner.witnessLength
  | generic _ => 3
  | member _ => 2
  | _ => 1

/-- The size of a witness, if it is not too deep to be read back. -/
def witnessSize (type : WireType) : Except EncodeError Nat :=
  if type.depth > maxWitnessDepth then .error (.witnessTooDeep maxWitnessDepth)
  else .ok type.witnessLength

theorem length_witnessBytes (type : WireType) : type.witnessBytes.length = type.witnessLength := by
  induction type <;> simp_all [witnessBytes, witnessLength, Nat.add_comm]

end WireType

namespace Writer

def witnessLayers : WireType → Writer Unit
  | .array inner => do
    byte TypeTag.array.byte
    witnessLayers inner
  | .nullable inner => do
    byte TypeTag.nullable.byte
    witnessLayers inner
  | .pending inner => do
    byte TypeTag.pending.byte
    witnessLayers inner
  | .generic index => do
    byte TypeTag.generic.byte
    word index
  | .member kind => do
    byte TypeTag.member.byte
    byte kind.byte
  | leaf => byte leaf.tag.byte

/-- A witness. One that no reader would accept is not begun. -/
def witness (type : WireType) : Writer Unit :=
  if type.depth > maxWitnessDepth then throw (.witnessTooDeep maxWitnessDepth)
  else witnessLayers type

end Writer

namespace Reader

/-- What follows the tag of a witness, with a number of layers still allowed. -/
def witnessAfter : (layers : Nat) → (tag : UInt8) → Reader WireType
  | 0, _ => throw (.witnessTooDeep maxWitnessDepth)
  | layers + 1, tag => do
    match TypeTag.ofByte? tag with
    | none => throw (.unknownTypeTag tag)
    | some .unit => return .unit
    | some .bool => return .bool
    | some (.number type) => return .number type
    | some .text => return .text
    | some .blob => return .blob
    | some .witness => return .witness
    | some .array => return .array (← witnessAfter layers (← byte))
    | some .nullable => return .nullable (← witnessAfter layers (← byte))
    | some .pending => return .pending (← witnessAfter layers (← byte))
    | some .generic => return .generic (← word)
    | some .member =>
      let b ← byte
      match MemberKind.ofByte? b with
      | none => throw (.unknownMemberKind b)
      | some kind => return .member kind

def witness : Reader WireType := do
  witnessAfter maxWitnessDepth (← byte)

end Reader

end Remoting
