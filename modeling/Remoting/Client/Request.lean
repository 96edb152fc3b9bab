import Remoting.Client.Error

/-! Requests and what carries them. -/

namespace Remoting

/-- All that a transport needs to know of one call. There is no payload where a call has neither
generic arguments nor bytes to send. -/
structure Request where
  interface : String
  path : ServicePath
  scope : Option String
  payload : Option Bytes
  timeout : Nat
deriving DecidableEq

inductive Delivery
  | blocking | awaited
deriving DecidableEq, Repr

/-- A transport with a state of its own. It answers a request with the payload of the response. -/
structure Processor (σ : Type) where
  send : Delivery → Request → EStateM CallerError σ Bytes

/-- A transport that answers from a list of responses and keeps what has been sent. Without a
response left it answers with an empty payload. -/
structure Recording where
  responses : List (Except CallerError Bytes)
  sent : List (Delivery × Request)

def Recording.processor : Processor Recording where
  send delivery request recording :=
    let sent := recording.sent ++ [(delivery, request)]
    match recording.responses with
    | [] => .ok [] ⟨[], sent⟩
    | .ok payload :: rest => .ok payload ⟨rest, sent⟩
    | .error error :: rest => .error error ⟨rest, sent⟩

end Remoting
