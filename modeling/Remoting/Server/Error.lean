import Remoting.Call.Status
import Remoting.Call.Implementation
import Remoting.Wire.Error

/-! Why a request is not answered with a result. -/

namespace Remoting

inductive DispatchError
  | routing (error : RoutingError)
  | codec (error : CodecError)
  | decode (error : DecodeError)
  | encode (error : EncodeError)
  | implementation (error : ImplementationError)
  | subserviceUnavailable (path name : String)
  | replyMismatch (method : String) (style : RemotingStyle)
deriving DecidableEq, Repr

namespace DispatchError

def message : DispatchError → String
  | routing error => error.message
  | codec error => error.message
  | decode error => "malformed request payload: " ++ error.message
  | encode error => "failed to encode the response: " ++ error.message
  | implementation error => error.message
  | subserviceUnavailable path name =>
    "implementation of " ++ path ++ " provides no sub-service " ++ quoted name
  | replyMismatch method style =>
    method ++ " is remoted as " ++ style.name
      ++ " but the implementation returned a pending operation"

def status : DispatchError → ResultStatus
  | routing _ => .methodNotFound
  | decode _ => .badRequest
  | implementation _ => .fail
  | codec _ | encode _ | subserviceUnavailable _ _ | replyMismatch _ _ => .systemError

end DispatchError

structure DuplicateService where
  name : String
deriving DecidableEq, Repr

def DuplicateService.message (error : DuplicateService) : String :=
  "a service named " ++ quoted error.name ++ " is already registered"

end Remoting
