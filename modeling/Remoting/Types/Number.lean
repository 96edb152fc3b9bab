/-! The numeric types and their values, which are bit patterns: integers in two's complement, or
floating-point numbers in the binary interchange formats. -/

namespace Remoting

inductive NumberType
  | i8 | i16 | i32 | i64 | u8 | u16 | u32 | u64 | f32 | f64
deriving DecidableEq, Repr

namespace NumberType

def width : NumberType → Nat
  | i8 | u8 => 1
  | i16 | u16 => 2
  | i32 | u32 | f32 => 4
  | i64 | u64 | f64 => 8

def name : NumberType → String
  | i8 => "i8"
  | i16 => "i16"
  | i32 => "i32"
  | i64 => "i64"
  | u8 => "u8"
  | u16 => "u16"
  | u32 => "u32"
  | u64 => "u64"
  | f32 => "f32"
  | f64 => "f64"

def all : List NumberType := [i8, i16, i32, i64, u8, u16, u32, u64, f32, f64]

def ofName? (name : String) : Option NumberType := all.find? (·.name == name)

abbrev Bits (type : NumberType) := BitVec (8 * type.width)

def fractionBits? : NumberType → Option Nat
  | f32 => some 23
  | f64 => some 52
  | _ => none

end NumberType

/-- Equality of floating-point numbers: both zeros are one number, and what is not a number equals
nothing. -/
def floatEq (width fraction x y : Nat) : Bool :=
  let magnitude := fun (n : Nat) => n % (1 <<< (width - 1))
  let infinity := (1 <<< (width - 1)) - (1 <<< fraction)
  magnitude x ≤ infinity && magnitude y ≤ infinity
    && (x == y || (magnitude x == 0 && magnitude y == 0))

def NumberType.same (type : NumberType) (x y : type.Bits) : Bool :=
  match type.fractionBits? with
  | none => x == y
  | some fraction => floatEq (8 * type.width) fraction x.toNat y.toNat

end Remoting
