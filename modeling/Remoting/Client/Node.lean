import Remoting.Client.Plan

/-! Nodes through which services are called. A node stands at one place of a service tree and has a
scope and a timeout; its children share these. -/

namespace Remoting

/-- The arguments of a call: type arguments, then the values of the parameters that are sent. -/
structure CallArguments where
  types : List WireType := []
  values : List Value := []

structure ProxyNode where
  service : CompiledService
  interface : String
  /-- The root service and the chain of sub-services. -/
  place : List String
  scope : Option String
  timeout : Nat

/-- What callers share: the specializations made so far, and the transport. -/
structure CallerState (σ : Type) where
  specializations : Specializations
  channel : σ

namespace CallerState

/-- An action on the specializations alone; nothing can be sent. -/
def locally {σ α : Type} (action : EStateM CallerError Specializations α) :
    EStateM CallerError (CallerState σ) α := fun state =>
  match action state.specializations with
  | .ok result specializations => .ok result { state with specializations }
  | .error error specializations => .error error { state with specializations }

def remotely {σ α : Type} (action : EStateM CallerError σ α) :
    EStateM CallerError (CallerState σ) α := fun state =>
  match action state.channel with
  | .ok result channel => .ok result { state with channel }
  | .error error channel => .error error { state with channel }

end CallerState

/-- An asynchronous call that has not been sent: a request that is ready, or a failure that is told
when the call is awaited. -/
inductive PendingCall
  | failed (error : CallerError)
  | ready (style : RemotingStyle) (plan : CallPlan) (request : Request)

def PendingCall.await {σ : Type} (processor : Processor σ) :
    PendingCall → EStateM CallerError σ Value
  | failed error => throw error
  | ready style plan request => do
    let payload ← processor.send .awaited request
    if style = .asyncValue then
      match plan.readResult payload with
      | .ok value => return value
      | .error error => throw (.decode error)
    return .unit

inductive CallReply
  | direct (reply : DirectReply)
  | pending (call : PendingCall)

structure PreparedCall where
  method : MethodDescription
  plan : CallPlan
  request : Request

namespace ProxyNode

def subservice? (node : ProxyNode) (name : String) : Option ProxyNode :=
  (node.service.subservice? name).map fun service =>
    { node with service, place := node.place ++ [name] }

def descend? : ProxyNode → List String → Option ProxyNode
  | node, [] => some node
  | node, name :: chain => (node.subservice? name).bind (descend? · chain)

def method (node : ProxyNode) (name : String) : Except CallerError CompiledMethod :=
  match node.service.method? name with
  | some method => .ok method
  | none => .error (.unknownMethod node.service.name name)

/-- Looks up, specializes and encodes. Specializations that are made on the way stay, whatever fails
afterwards. -/
def prepare (node : ProxyNode) (name : String) (arguments : CallArguments) :
    EStateM CallerError Specializations PreparedCall := do
  match node.method name with
  | .error error => throw error
  | .ok method =>
    let plan ← method.planFor node.place arguments.types
    match method.requestPayload plan arguments.types arguments.values with
    | .error error => throw error
    | .ok payload =>
      match ServicePath.ofMethod node.place name with
      | .error error => throw (.path error)
      | .ok path =>
        return ⟨method.description, plan, ⟨node.interface, path, node.scope, payload, node.timeout⟩⟩

def prepareStyled (node : ProxyNode) (expected : RemotingStyle → Bool) (name : String)
    (arguments : CallArguments) : EStateM CallerError Specializations PreparedCall := do
  match node.method name with
  | .error error => throw error
  | .ok method =>
    if expected method.description.style then node.prepare name arguments
    else throw (.remotingMismatch method.description.name method.description.style)

/-- What the payload of a response to a direct call says. A method without anything to return does
not look at it. -/
def directReply (prepared : PreparedCall) (payload : Bytes) : Except CallerError DirectReply :=
  if prepared.method.hasResponse then
    match prepared.plan.readDirect payload with
    | .ok reply => .ok reply
    | .error error => .error (.decode error)
  else .ok ⟨[], .unit⟩

def sendDirect {σ : Type} (processor : Processor σ) (prepared : PreparedCall) :
    EStateM CallerError (CallerState σ) DirectReply := do
  let payload ← CallerState.remotely (processor.send .blocking prepared.request)
  match directReply prepared payload with
  | .ok reply => return reply
  | .error error => throw error

def call {σ : Type} (processor : Processor σ) (node : ProxyNode) (name : String)
    (arguments : CallArguments) : EStateM CallerError (CallerState σ) DirectReply := do
  let prepared ← CallerState.locally (node.prepareStyled (· == .direct) name arguments)
  sendDirect processor prepared

def pendingOf (prepared : PreparedCall) : PendingCall :=
  .ready prepared.method.style prepared.plan prepared.request

/-- Begins a call of an asynchronous method. Nothing is sent before it is awaited, and every failure
is left to that moment. -/
def callAsync (node : ProxyNode) (name : String) (arguments : CallArguments)
    (specializations : Specializations) : PendingCall × Specializations :=
  match node.prepareStyled (· != .direct) name arguments specializations with
  | .ok prepared specializations => (pendingOf prepared, specializations)
  | .error error specializations => (.failed error, specializations)

/-- Calls a method whatever its style: at once if it is direct, else as far as a pending call. -/
def invoke {σ : Type} (processor : Processor σ) (node : ProxyNode) (name : String)
    (arguments : CallArguments) : EStateM CallerError (CallerState σ) CallReply := do
  let prepared ← CallerState.locally (node.prepare name arguments)
  if prepared.method.style = .direct then
    return .direct (← sendDirect processor prepared)
  return .pending (pendingOf prepared)

def specializationCount (node : ProxyNode) (name : String) (specializations : Specializations) :
    Nat :=
  match node.service.method? name with
  | none => 0
  | some _ => specializations.count node.place name

end ProxyNode

end Remoting
