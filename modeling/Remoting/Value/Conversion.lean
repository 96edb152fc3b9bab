import Remoting.Value.Basic

/-! Reading what a value holds, for who knows of what kind it should be. -/

namespace Remoting

structure ValueTypeError where
  expected : ValueKind
  found : ValueKind
deriving DecidableEq, Repr

def ValueTypeError.message (error : ValueTypeError) : String :=
  "expected a " ++ error.expected.name ++ " value, found " ++ error.found.name

namespace Value

def asNumber (type : NumberType) : Value → Except ValueTypeError type.Bits
  | number t bits => if h : t = type then .ok (h ▸ bits) else .error ⟨.number type, .number t⟩
  | other => .error ⟨.number type, other.kind⟩

def asText : Value → Except ValueTypeError String
  | text s => .ok s
  | other => .error ⟨.text, other.kind⟩

def ofKind (kind : ValueKind) (value : Value) : Except ValueTypeError Value :=
  if value.kind = kind then .ok value else .error ⟨kind, value.kind⟩

end Value

end Remoting
