import Remoting.Client.Request
import Remoting.Server.Endpoint

/-! The transport that hands requests straight to an endpoint. -/

namespace Remoting

/-- The endpoint, and the invocations that requests have led to, in order. -/
structure Loopback where
  endpoint : Endpoint
  invocations : List Invocation

namespace Loopback

def ofRegistry (registry : Registry) : Loopback := ⟨.ofRegistry registry, []⟩

def serve (loopback : Loopback) (path : ServicePath) (scope : Option String)
    (payload : Option Bytes) : Response × Loopback :=
  let (served, endpoint) := loopback.endpoint.handle path scope payload
  (served.response, ⟨endpoint, loopback.invocations ++ served.invocation.toList⟩)

/-- Both ways of delivery are the same, and there is no timeout. -/
def processor : Processor Loopback where
  send _ request loopback :=
    let (response, loopback) := loopback.serve request.path request.scope request.payload
    match response.toResult with
    | .ok payload => .ok payload loopback
    | .error error => .error error loopback

end Loopback

end Remoting
