import Remoting.Client.Builder

/-! Callers: a client together with its transport. Every call through a node goes on from the state
that the calls before it have left. -/

namespace Remoting

/-- A node, with the builder that it comes from and the root node that it stands below. -/
structure NodeHandle where
  builder : Nat
  root : Nat
  node : ProxyNode

namespace NodeHandle

def subservice? (handle : NodeHandle) (name : String) : Option NodeHandle :=
  (handle.node.subservice? name).map fun node => { handle with node }

end NodeHandle

structure Caller (σ : Type) where
  client : Client
  channel : σ

namespace Caller

variable {σ α : Type}

def builder? (caller : Caller σ) (slot : Nat) : Option ProxyBuilder :=
  caller.client.builders.entries[slot]?.map (·.2)

def putBuilder (caller : Caller σ) (slot : Nat) (builder : ProxyBuilder) : Caller σ :=
  { caller with
    client := { caller.client with builders := caller.client.builders.put slot builder } }

def proxy (caller : Caller σ) (description : ServiceDescription) (scope : Option String)
    (timeout : Nat) : Except CompileError NodeHandle × Caller σ :=
  match caller.client.builderFor description with
  | (.error error, client) => (.error error, { caller with client })
  | (.ok (slot, builder), client) =>
    let ((root, node), builder) := builder.build scope timeout
    (.ok ⟨slot, root, node⟩, { caller with client }.putBuilder slot builder)

def nodeCount (caller : Caller σ) (handle : NodeHandle) : Nat :=
  ((caller.builder? handle.builder).map (·.nodeCount)).getD 0

def onBuilder (caller : Caller σ) (slot : Nat)
    (action : EStateM CallerError (CallerState σ) α) : Except CallerError α × Caller σ :=
  match caller.builder? slot with
  | none => (.error .aborted, caller)
  | some builder =>
    let settle := fun (after : CallerState σ) =>
      { caller with channel := after.channel }.putBuilder slot
        { builder with specializations := after.specializations }
    match action ⟨builder.specializations, caller.channel⟩ with
    | .ok result after => (.ok result, settle after)
    | .error error after => (.error error, settle after)

def call (processor : Processor σ) (caller : Caller σ) (handle : NodeHandle) (name : String)
    (arguments : CallArguments) : Except CallerError DirectReply × Caller σ :=
  caller.onBuilder handle.builder (handle.node.call processor name arguments)

def invoke (processor : Processor σ) (caller : Caller σ) (handle : NodeHandle) (name : String)
    (arguments : CallArguments) : Except CallerError CallReply × Caller σ :=
  caller.onBuilder handle.builder (handle.node.invoke processor name arguments)

def callAsync (caller : Caller σ) (handle : NodeHandle) (name : String)
    (arguments : CallArguments) : PendingCall × Caller σ :=
  match caller.builder? handle.builder with
  | none => (.failed .aborted, caller)
  | some builder =>
    let (pending, specializations) :=
      handle.node.callAsync name arguments builder.specializations
    (pending, caller.putBuilder handle.builder { builder with specializations })

def await (processor : Processor σ) (caller : Caller σ) (pending : PendingCall) :
    Except CallerError Value × Caller σ :=
  match pending.await processor caller.channel with
  | .ok value channel => (.ok value, { caller with channel })
  | .error error channel => (.error error, { caller with channel })

def specializationCount (caller : Caller σ) (handle : NodeHandle) (name : String) : Nat :=
  match caller.builder? handle.builder with
  | none => 0
  | some builder => handle.node.specializationCount name builder.specializations

end Caller

end Remoting
