import Remoting.Call.Implementation

/-! Implementations that follow a script: for each method a plan of slots to fill and a reply. They
stand in for services where only the way of a call matters. -/

namespace Remoting

/-- What a plan ends with: a value or a failure, at once or pending, or what a slot holds. -/
inductive PlannedReply
  | value (value : Value)
  | pending (value : Value)
  | fail (message : String)
  | pendingFail (message : String)
  | slot (position : Nat)
  | pendingSlot (position : Nat)
  | slotOfKind (position : Nat) (kind : ValueKind)

structure Plan where
  assignments : List (Nat × Value)
  reply : Option PlannedReply

namespace Plan

/-- The assignments one by one; the first that has no slot fails. -/
def fill (call : MethodCall) : List (Nat × Value) → Except ImplementationError MethodCall
  | [] => .ok call
  | (position, value) :: rest =>
    match call.set position value with
    | .ok assigned => fill assigned rest
    | .error error => .error error

def replyOf (call : MethodCall) : PlannedReply → Except ImplementationError Reply
  | .value value => .ok (.value value)
  | .pending value => .ok (.pending (.ok value))
  | .fail message => .error ⟨message⟩
  | .pendingFail message => .ok (.pending (.error ⟨message⟩))
  | .slot position => (call.arg position).map .value
  | .pendingSlot position => (call.arg position).map fun value => .pending (.ok value)
  | .slotOfKind position kind => (call.argAs (Value.ofKind kind) position).map .value

def answer (plan : Plan) (call : MethodCall) : Except ImplementationError Answer := do
  let filled ← fill call plan.assignments
  match plan.reply with
  | none => throw ⟨"script has no method " ++ call.method.name⟩
  | some planned => return ⟨← replyOf filled planned, plan.assignments⟩

end Plan

namespace Implementation

def scripted (plans : List (String × Plan)) (subservices : List (String × Implementation)) :
    Implementation where
  label := "script"
  subservice? name := (subservices.find? fun sub => sub.1 == name).map (·.2)
  invoke call :=
    match plans.find? fun entry => entry.1 == call.method.name with
    | none => .error ⟨"script has no method " ++ call.method.name⟩
    | some (_, plan) => plan.answer call

def leafless : Implementation where
  label := "leafless"
  subservice? _ := none
  invoke _ := .ok ⟨.value .unit, []⟩

end Implementation

end Remoting
