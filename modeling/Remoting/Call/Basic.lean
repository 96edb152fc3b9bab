import Remoting.Interface.Description
import Remoting.Value.Conversion

/-! Calls as implementations see them: one slot for each parameter, holding what was sent or, for
what is only sent back, null. -/

namespace Remoting

structure ImplementationError where
  message : String
deriving DecidableEq, Repr

structure MethodCall where
  method : MethodDescription
  /-- The generic arguments; none for a method that is not generic. -/
  typeArguments : List WireType
  slots : List Value

namespace MethodCall

def missing (call : MethodCall) (position : Nat) : ImplementationError :=
  ⟨call.method.name ++ " has no parameter at position " ++ Nat.repr position⟩

def arg (call : MethodCall) (position : Nat) : Except ImplementationError Value :=
  match call.slots[position]? with
  | some value => .ok value
  | none => .error (call.missing position)

def argAs {α : Type} (convert : Value → Except ValueTypeError α) (call : MethodCall)
    (position : Nat) : Except ImplementationError α :=
  match call.arg position with
  | .error error => .error error
  | .ok value =>
    match convert value with
    | .error error => .error ⟨error.message⟩
    | .ok converted => .ok converted

def set (call : MethodCall) (position : Nat) (value : Value) :
    Except ImplementationError MethodCall :=
  if position < call.slots.length then .ok { call with slots := call.slots.set position value }
  else .error (call.missing position)

/-- The call after some assignments in order. Those outside the slots change nothing. -/
def assign (call : MethodCall) : List (Nat × Value) → MethodCall
  | [] => call
  | (position, value) :: rest =>
    match call.set position value with
    | .ok assigned => assigned.assign rest
    | .error _ => call.assign rest

end MethodCall

end Remoting
