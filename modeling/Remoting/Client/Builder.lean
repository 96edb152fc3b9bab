import Remoting.Client.Node

/-! From descriptions to nodes. A compiled service is kept by interface identity, and its nodes by
scope and timeout. -/

namespace Remoting

/-- Milliseconds, for a node built without a timeout. -/
def defaultTimeout : Nat := 30000

structure ProxyBuilder where
  service : CompiledService
  interface : String
  nodes : Table (Option String × Nat) ProxyNode
  specializations : Specializations

namespace ProxyBuilder

def compile (registry : Registry) (description : ServiceDescription) :
    Except CompileError ProxyBuilder := do
  let service ← description.compile registry
  return ⟨service, description.interface, .empty, .empty⟩

def build (builder : ProxyBuilder) (scope : Option String) (timeout : Nat) :
    (Nat × ProxyNode) × ProxyBuilder :=
  match builder.nodes.find? (scope, timeout) with
  | some found => (found, builder)
  | none =>
    let node : ProxyNode :=
      ⟨builder.service, builder.interface, [builder.service.name], scope, timeout⟩
    ((builder.nodes.size, node), { builder with nodes := builder.nodes.push (scope, timeout) node })

def nodeCount (builder : ProxyBuilder) : Nat := builder.nodes.size

end ProxyBuilder

structure Client where
  registry : Registry
  builders : Table String ProxyBuilder

namespace Client

def ofRegistry (registry : Registry) : Client := ⟨registry, .empty⟩

/-- The slot and the builder of a description's interface. The first description of an identity that
compiles stays. -/
def builderFor (client : Client) (description : ServiceDescription) :
    Except CompileError (Nat × ProxyBuilder) × Client :=
  match client.builders.find? description.interface with
  | some found => (.ok found, client)
  | none =>
    match ProxyBuilder.compile client.registry description with
    | .error error => (.error error, client)
    | .ok builder =>
      (.ok (client.builders.size, builder),
        { client with builders := client.builders.push description.interface builder })

end Client

end Remoting
