import Mathlib
import Remoting.Proofs.ClientSessions

/-! What a client keeps. A node is kept for each scope and timeout, and a specialization for each
tuple of type arguments that has been asked for, by whatever node; what is kept shows in no call. -/

namespace Remoting

namespace CompiledMethod

variable {registry : Registry} {description : ServiceDescription} {method : MethodDescription}
  {compiled : CompiledMethod} {specializations : Specializations} {place : List String}
  {arguments : List WireType}

end CompiledMethod

namespace ProxyNode

variable {registry : Registry} {description leaf : ServiceDescription} {chain : List String}
  {node : ProxyNode} {entry : Entry} {name : String} {arguments : CallArguments}
  {specializations : Specializations}

/-- A call of a generic method gets a plan. Nothing is said of its values. -/
def Specializes (node : ProxyNode) (registry : Registry) (entry : Entry) (name : String)
    (types : List WireType) : Prop :=
  ∃ method plan, node.Plans registry entry name types method plan ∧ method.isGeneric = true

end ProxyNode

namespace Session

variable {σ : Type} {registry : Registry} {description : ServiceDescription}
  {builder : ProxyBuilder} {processor : Processor σ} {session : Session σ}

/-- An operation is an attempt on a node at the end of a chain, and asks for a specialization. -/
def Specializes (registry : Registry) (session : Session σ) (operation : Operation)
    (chain : List String) (name : String) (types : List WireType) : Prop :=
  ∃ slot entry values node, operation = .attempt slot chain entry name ⟨types, values⟩ ∧
    session.builder.node? slot chain = some node ∧ node.Specializes registry entry name types

/-- The tuples that have been asked for in the course of a history, on whatever nodes. -/
def specializedTuples (registry : Registry) (processor : Processor σ) (builder : ProxyBuilder)
    (channel : σ) (history : List Operation) (chain : List String) (name : String) :
    Set (List WireType) :=
  {types | ∃ before operation behind, history = before ++ operation :: behind ∧
    (ofHistory processor builder channel before).Specializes registry operation chain name types}

/-- Two nodes of the market are built, and calls are attempted at the stalls below them: of a text,
of a truth value that is missing, of bytes but not in the style of the method, and of a text that is
still pending. -/
def marketHistory : List Operation :=
  [.build none 5, .build (some "fair") 5, .build none 5,
    .attempt 0 ["stall"] .call "Swap" ⟨[.text], [.text "fig"]⟩,
    .attempt 1 ["stall"] .invoke "Swap" ⟨[.bool], []⟩,
    .attempt 0 ["stall"] .callAsync "Swap" ⟨[.blob], [.blob []]⟩,
    .attempt 1 ["stall"] .invoke "Swap" ⟨[.pending .text], []⟩]

end Session

end Remoting
