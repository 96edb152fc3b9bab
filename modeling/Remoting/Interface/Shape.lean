import Remoting.Types.Basic

/-! The declared shape of a service interface, before anything about it has been checked. -/

namespace Remoting

/-- How a parameter travels: to the callee, to the callee and back, or back only. -/
inductive PassingMode
  | byValue | byRef | out
deriving DecidableEq, Repr

namespace PassingMode

def name : PassingMode → String
  | byValue => "Val"
  | byRef => "Ref"
  | out => "Out"

def isRequest : PassingMode → Bool
  | byValue | byRef => true
  | out => false

def isResponse : PassingMode → Bool
  | byValue => false
  | byRef | out => true

theorem isResponse_iff {mode : PassingMode} : mode.isResponse = true ↔ mode ≠ .byValue := by
  cases mode <;> decide

/-- Every parameter travels one way or the other. -/
theorem isRequest_or_isResponse (mode : PassingMode) :
    mode.isRequest = true ∨ mode.isResponse = true := by
  cases mode <;> decide

end PassingMode

structure ParameterShape where
  name : String
  type : WireType
  mode : PassingMode
deriving DecidableEq, Repr

/-- A method. A result type with a pending marker makes it asynchronous. -/
structure MethodShape where
  name : String
  result : WireType
  generics : List String := []
  parameters : List ParameterShape := []
deriving DecidableEq, Repr

mutual

inductive InterfaceShape
  | mk (id : String) (methods : List MethodShape) (properties : List PropertyShape)

inductive PropertyShape
  | value (name : String) (type : WireType) (hasSetter : Bool)
  | service (name : String) (shape : InterfaceShape) (hasSetter : Bool)

end

namespace InterfaceShape

def id : InterfaceShape → String
  | mk id _ _ => id

def methods : InterfaceShape → List MethodShape
  | mk _ methods _ => methods

def properties : InterfaceShape → List PropertyShape
  | mk _ _ properties => properties

end InterfaceShape

namespace PropertyShape

def name : PropertyShape → String
  | value name _ _ => name
  | service name _ _ => name

def hasSetter : PropertyShape → Bool
  | value _ _ hasSetter => hasSetter
  | service _ _ hasSetter => hasSetter

end PropertyShape

end Remoting
