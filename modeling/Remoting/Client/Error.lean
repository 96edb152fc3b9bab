import Remoting.Call.Status
import Remoting.Interface.Description
import Remoting.Wire.Error

/-! Why a call has no result on the caller's side, and why a service cannot be called at all. -/

namespace Remoting

inductive CallerError
  | remote (status : ResultStatus) (message : String)
  | encode (error : EncodeError)
  | decode (error : DecodeError)
  | codec (error : CodecError)
  | path (error : PathError)
  | argumentCount (method : String) (expected found : Nat)
  | genericArgumentCount (method : String) (expected found : Nat)
  | openTypeArgument (type : WireType)
  | unknownMethod (service method : String)
  | remotingMismatch (method : String) (style : RemotingStyle)
  | transport (message : String)
  | aborted
deriving DecidableEq, Repr

def CallerError.message : CallerError → String
  | remote status message => "remote call failed with " ++ status.name ++ ": " ++ message
  | encode error => "failed to encode the request: " ++ error.message
  | decode error => "failed to decode the response: " ++ error.message
  | codec error => error.message
  | path error => error.message
  | argumentCount method expected found =>
    method ++ " takes " ++ Nat.repr expected ++ " request argument(s), got " ++ Nat.repr found
  | genericArgumentCount method expected found =>
    method ++ " takes " ++ Nat.repr expected ++ " type argument(s), got " ++ Nat.repr found
  | openTypeArgument type => "type argument " ++ type.display ++ " is not a closed type"
  | unknownMethod service method => service ++ " has no method named " ++ quoted method
  | remotingMismatch method style => method ++ " is remoted as " ++ style.name
  | transport message => "transport error: " ++ message
  | aborted => "call aborted"

inductive CompileError
  | codec (method : String) (error : CodecError)
  | byRefOnAsync (method : String) (style : RemotingStyle)
deriving DecidableEq, Repr

def CompileError.message : CompileError → String
  | codec method error =>
    "no codec for a parameter or return type of " ++ method ++ ": " ++ error.message
  | byRefOnAsync method style =>
    method ++ " is remoted as " ++ style.name ++ " and cannot carry ref or out parameters"

end Remoting
