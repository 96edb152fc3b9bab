import Remoting.Client.Error
import Remoting.Server.Handler
import Remoting.Text.Lossy

/-! An endpoint: services registered by name, and the handlers of the paths asked for so far. -/

namespace Remoting

/-- A status, and the encoded result or, for any status but success, a message in UTF-8. -/
structure Response where
  status : ResultStatus
  payload : Bytes
deriving DecidableEq

namespace Response

def failure (status : ResultStatus) (message : String) : Response :=
  ⟨status, textBytes message⟩

def ofResult : Except DispatchError Bytes → Response
  | .ok payload => ⟨.success, payload⟩
  | .error error => failure error.status error.message

def toResult (response : Response) : Except CallerError Bytes :=
  if response.status = .success then .ok response.payload
  else .error (.remote response.status (lossyText response.payload))

end Response

/-- Who implements a root service, which may depend on the scope of the request. -/
structure RegisteredService where
  description : ServiceDescription
  resolver : Option String → Option Implementation

namespace RegisteredService

def singleton (description : ServiceDescription) (implementation : Implementation) :
    RegisteredService :=
  ⟨description, fun _ => some implementation⟩

/-- A service with an implementation for each scope in a list. No scope is the empty one. -/
def perScope (description : ServiceDescription) (roots : List (String × Implementation)) :
    RegisteredService :=
  ⟨description, fun scope => (roots.find? fun root => root.1 == scope.getD "").map (·.2)⟩

end RegisteredService

structure Endpoint where
  registry : Registry
  services : Table String RegisteredService
  handlers : Table ServicePath Handler

structure Served where
  response : Response
  invocation : Option Invocation

namespace Endpoint

def ofRegistry (registry : Registry) : Endpoint := ⟨registry, .empty, .empty⟩

def service? (endpoint : Endpoint) (name : String) : Option RegisteredService :=
  (endpoint.services.find? name).map (·.2)

def handlerCount (endpoint : Endpoint) : Nat := endpoint.handlers.size

/-- The endpoint with one more service, unless it has one of that name. -/
def register (endpoint : Endpoint) (service : RegisteredService) :
    Except DuplicateService Endpoint :=
  match endpoint.services.find? service.description.name with
  | some _ => .error ⟨service.description.name⟩
  | none =>
    .ok { endpoint with services := endpoint.services.push service.description.name service }

def unknownRoot (path : ServicePath) : DispatchError :=
  .routing ⟨path.format, .service, path.root⟩

/-- The slot and the handler of a path, made when it is first asked for. -/
def handler (endpoint : Endpoint) (path : ServicePath) :
    Except DispatchError (Nat × Handler) × Endpoint :=
  match endpoint.handlers.find? path with
  | some found => (.ok found, endpoint)
  | none =>
    match endpoint.service? path.root with
    | none => (.error (unknownRoot path), endpoint)
    | some service =>
      match Handler.create endpoint.registry service.description path with
      | .error error => (.error error, endpoint)
      | .ok created =>
        (.ok (endpoint.handlers.size, created),
          { endpoint with handlers := endpoint.handlers.push path created })

def unimplemented (path : ServicePath) (scope : Option String) : Response :=
  .failure .methodNotFound
    ("no implementation of " ++ path.root ++ " for scope " ++ quotedOption scope)

/-- Serves one request. A request without a payload has an empty one. -/
def handle (endpoint : Endpoint) (path : ServicePath) (scope : Option String)
    (payload : Option Bytes) : Served × Endpoint :=
  match endpoint.service? path.root with
  | none => (⟨.ofResult (.error (unknownRoot path)), none⟩, endpoint)
  | some service =>
    match endpoint.handler path with
    | (.error error, endpoint) => (⟨.ofResult (.error error), none⟩, endpoint)
    | (.ok (slot, handler), endpoint) =>
      match service.resolver scope with
      | none => (⟨unimplemented path scope, none⟩, endpoint)
      | some implementation =>
        let (outcome, handler) := handler.handle implementation (payload.getD []) 0
        (⟨.ofResult outcome.result, outcome.invocation⟩,
          { endpoint with handlers := endpoint.handlers.put slot handler })

end Endpoint

end Remoting
