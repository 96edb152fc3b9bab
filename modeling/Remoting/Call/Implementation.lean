import Remoting.Call.Basic

/-! What stands behind a service: how it answers a call, and who stands behind its sub-services. -/

namespace Remoting

/-- A result that is there, or an operation with what it comes to when it is awaited. -/
inductive Reply
  | value (value : Value)
  | pending (outcome : Except ImplementationError Value)

structure Answer where
  reply : Reply
  assignments : List (Nat × Value) := []

/-- An implementation answers calls as a function of the call. The label tells whom a call has
reached. -/
structure Implementation where
  label : String
  subservice? : String → Option Implementation
  invoke : MethodCall → Except ImplementationError Answer

namespace Implementation

def descend : Implementation → List String → Except String Implementation
  | implementation, [] => .ok implementation
  | implementation, name :: chain =>
    match implementation.subservice? name with
    | none => .error name
    | some sub => sub.descend chain

end Implementation

/-- A call that reached an implementation, and whether a pending operation it gave was awaited. -/
structure Invocation where
  receiver : String
  call : MethodCall
  awaited : Bool

end Remoting
