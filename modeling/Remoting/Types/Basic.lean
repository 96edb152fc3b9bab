import Remoting.Types.Number

/-! The types of parameters, results and generic arguments. -/

namespace Remoting

/-- The categories of members; `any` stands for all of them and is nobody's own. -/
inductive MemberKind
  | method | field | property | constructor | event | any
deriving DecidableEq, Repr

namespace MemberKind

def name : MemberKind → String
  | method => "Method"
  | field => "Field"
  | property => "Property"
  | constructor => "Constructor"
  | event => "Event"
  | any => "Any"

def ofName? (name : String) : Option MemberKind :=
  [method, field, property, constructor, event, any].find? (·.name == name)

def byte : MemberKind → UInt8
  | method => 0
  | field => 1
  | property => 2
  | constructor => 3
  | event => 4
  | any => 255

def ofByte? : UInt8 → Option MemberKind
  | 0 => some method
  | 1 => some field
  | 2 => some property
  | 3 => some constructor
  | 4 => some event
  | 255 => some any
  | _ => none

/-- Callable members are told apart by parameter list and generic arity besides their name. -/
def isCallable : MemberKind → Bool
  | method | constructor => true
  | _ => false

@[simp] theorem ofByte?_byte (kind : MemberKind) : ofByte? kind.byte = some kind := by
  cases kind <;> rfl

theorem ofByte?_eq_some {byte : UInt8} {kind : MemberKind} (h : ofByte? byte = some kind) :
    byte = kind.byte := by
  unfold ofByte? at h
  split at h <;> cases h <;> rfl

end MemberKind

/-- The type of a value on the wire. `generic` is the placeholder of a parameter of the enclosing
generic method, and `pending` marks a result that arrives later; neither has values. The values of
`witness` are types themselves. -/
inductive WireType
  | unit
  | bool
  | number (type : NumberType)
  | text
  | blob
  | array (element : WireType)
  | nullable (inner : WireType)
  | witness
  | member (kind : MemberKind)
  | generic (index : UInt16)
  | pending (result : WireType)
deriving DecidableEq, Repr, Inhabited

namespace WireType

def ofName? : String → Option WireType
  | "unit" => some unit
  | "bool" => some bool
  | "string" => some text
  | "bytes" => some blob
  | "type" => some witness
  | name => (NumberType.ofName? name).map number

def display : WireType → String
  | unit => "unit"
  | bool => "bool"
  | number type => type.name
  | text => "string"
  | blob => "bytes"
  | array element => "array<" ++ element.display ++ ">"
  | nullable inner => "nullable<" ++ inner.display ++ ">"
  | witness => "type"
  | member kind => "member<" ++ kind.name ++ ">"
  | generic index => "T" ++ Nat.repr index.toNat
  | pending result => "pending<" ++ result.display ++ ">"

def isPrimitive : WireType → Bool
  | unit | bool | number _ => true
  | _ => false

/-- Whether null is a value of the type by itself. -/
def isReference : WireType → Bool
  | text | blob | array _ | witness | member _ => true
  | _ => false

/-- The placeholder in the type; a type has room for one. -/
def placeholder? : WireType → Option UInt16
  | generic index => some index
  | array inner | nullable inner | pending inner => inner.placeholder?
  | _ => none

def isClosed : WireType → Bool
  | generic _ => false
  | array inner | nullable inner | pending inner => inner.isClosed
  | _ => true

/-- Whether a pending marker occurs among the layers of arrays and nullables, at the top
included. -/
def containsPending : WireType → Bool
  | pending _ => true
  | array inner | nullable inner => inner.containsPending
  | _ => false

/-- The type with its placeholder replaced by the argument at that index, if there is one. -/
def substitute (arguments : List WireType) : WireType → Option WireType
  | generic index => arguments[index.toNat]?
  | array inner => (inner.substitute arguments).map array
  | nullable inner => (inner.substitute arguments).map nullable
  | pending inner => (inner.substitute arguments).map pending
  | leaf => some leaf

theorem isClosed_iff_placeholder? {type : WireType} :
    type.isClosed = true ↔ type.placeholder? = none := by
  induction type <;> simp_all [isClosed, placeholder?]

theorem substitute_eq_none_iff {type : WireType} {arguments : List WireType} :
    type.substitute arguments = none ↔
      ∃ index, type.placeholder? = some index ∧ arguments.length ≤ index.toNat := by
  induction type <;> simp_all [placeholder?, substitute]

end WireType

end Remoting
