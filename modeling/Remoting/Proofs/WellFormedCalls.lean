import Mathlib
import Remoting.Proofs.Canonicity
import Remoting.Proofs.SpecializationFailures

/-! What an implementation may rely on. Whatever bytes arrive, a call that reaches it has been read
from them to the last one, and has the slots and the types that its method declares. -/

namespace Remoting

/-- The call is one of the method under type arguments with codecs; by the places of the parameters,
each slot that is sent holds a value of the parameter's type, which can be sized and encoded, and the
others hold null. -/
structure MethodCall.WellFormed (call : MethodCall) (registry : Registry)
    (method : MethodDescription) : Prop where
  sameMethod : call.method = method
  arity : call.typeArguments.length = method.arity
  typeArguments : ∀ type ∈ call.typeArguments, type.IsArgument registry
  count : call.slots.length = method.parameters.length
  sent : ∀ (i : Nat) (parameter : ParameterDescription),
    method.parameters[i]? = some parameter → parameter.mode ≠ .out →
      ∃ closed codec value written, parameter.type.substitute call.typeArguments = some closed ∧
        Codec.ofType registry closed = .ok codec ∧ call.slots[i]? = some value ∧
        value.HasType closed ∧ codec.size value = .ok written.length ∧
        Writer.Delivers (codec.encode value) written
  unsent : ∀ (i : Nat) (parameter : ParameterDescription),
    method.parameters[i]? = some parameter → parameter.mode = .out → call.slots[i]? = some .null

namespace MethodCall

end MethodCall

namespace ConcreteHandler

variable {registry : Registry} {path : ServicePath} {method : MethodDescription}
  {types : List WireType} {built : ConcreteHandler} {left : Bytes} {values : List Value}
  {leaf : Implementation} {invocation : Invocation}

end ConcreteHandler

/-- The handlers of a path, after any requests. -/
inductive Handler.Reached (registry : Registry) (description : ServiceDescription)
    (path : ServicePath) : Handler → Prop
  | created {handler : Handler} (h : Handler.create registry description path = .ok handler) :
      Reached registry description path handler
  | handled {handler : Handler} (h : Reached registry description path handler)
      (root : Implementation) (payload : Bytes) (offset : Nat) :
      Reached registry description path (handler.handle root payload offset).2

namespace Handler

variable {registry : Registry} {description : ServiceDescription} {path : ServicePath}
  {handler : Handler} {root : Implementation} {payload input : Bytes} {offset : Nat}
  {method : MethodDescription} {invocation : Invocation}

theorem Reached.sound (h : handler.Reached registry description path) :
    handler.Sound registry description path := by
  induction h with
  | created h => exact sound_of_create h
  | handled _ root payload offset ih => exact ih.handle root payload offset

/-- A payload is handled from its offset on. -/
theorem handle_of_start (handler : Handler) (root : Implementation)
    (hstart : Reader.start payload offset = .ok input) :
    handler.handle root payload offset = handler.handle root input 0 := by
  unfold handle
  rw [hstart, Reader.start_zero]

end Handler

namespace Market

def keptMarket : Implementation :=
  ⟨"market", fun _ => some stallKeeper, fun _ => .error ⟨"closed"⟩⟩

end Market

end Remoting
