import Remoting.Types.Basic

/-! The byte that names the outermost constructor of a type. -/

namespace Remoting

inductive TypeTag
  | unit
  | bool
  | number (type : NumberType)
  | text
  | blob
  | array
  | nullable
  | witness
  | member
  | generic
  | pending
deriving DecidableEq, Repr

namespace TypeTag

def name : TypeTag → String
  | unit => "Unit"
  | bool => "Bool"
  | number type => type.name.capitalize
  | text => "String"
  | blob => "Bytes"
  | array => "Array"
  | nullable => "Nullable"
  | witness => "Type"
  | member => "Member"
  | generic => "Generic"
  | pending => "Pending"

def byte : TypeTag → UInt8
  | unit => 0
  | bool => 1
  | number .i8 => 2
  | number .i16 => 3
  | number .i32 => 4
  | number .i64 => 5
  | number .u8 => 6
  | number .u16 => 7
  | number .u32 => 8
  | number .u64 => 9
  | number .f32 => 10
  | number .f64 => 11
  | text => 12
  | blob => 13
  | array => 14
  | nullable => 15
  | witness => 16
  | member => 17
  | generic => 18
  | pending => 19

def ofByte? : UInt8 → Option TypeTag
  | 0 => some unit
  | 1 => some bool
  | 2 => some (number .i8)
  | 3 => some (number .i16)
  | 4 => some (number .i32)
  | 5 => some (number .i64)
  | 6 => some (number .u8)
  | 7 => some (number .u16)
  | 8 => some (number .u32)
  | 9 => some (number .u64)
  | 10 => some (number .f32)
  | 11 => some (number .f64)
  | 12 => some text
  | 13 => some blob
  | 14 => some array
  | 15 => some nullable
  | 16 => some witness
  | 17 => some member
  | 18 => some generic
  | 19 => some pending
  | _ => none

@[simp] theorem ofByte?_byte (tag : TypeTag) : ofByte? tag.byte = some tag := by
  cases tag with
  | number type => cases type <;> rfl
  | _ => rfl

theorem ofByte?_eq_some {byte : UInt8} {tag : TypeTag} (h : ofByte? byte = some tag) :
    byte = tag.byte := by
  unfold ofByte? at h
  split at h <;> cases h <;> rfl

end TypeTag

def WireType.tag : WireType → TypeTag
  | unit => .unit
  | bool => .bool
  | number type => .number type
  | text => .text
  | blob => .blob
  | array _ => .array
  | nullable _ => .nullable
  | witness => .witness
  | member _ => .member
  | generic _ => .generic
  | pending _ => .pending

end Remoting
