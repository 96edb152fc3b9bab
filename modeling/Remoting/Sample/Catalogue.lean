import Remoting.Call.Scripted
import Remoting.Sample.EchoService
import Remoting.Sample.MyService
import Remoting.Sample.SuperService

/-! The sample services by name, and what they can tell of the calls that reached them. -/

namespace Remoting.Sample

def shape? : String → Option InterfaceShape
  | "MyService" => some myServiceShape
  | "SuperService" => some superServiceShape
  | "Trivial" => some trivialShape
  | "EchoService" => some echoServiceShape
  | _ => none

def implementation? : String → Option Implementation
  | "MyService" => some myService
  | "SuperService" => some superService
  | "Trivial" => some trivial
  | "EchoService" => some echoService
  | "Leafless" => some .leafless
  | _ => none

def notifications (invocations : List Invocation) : Nat :=
  invocations.countP fun invocation =>
    invocation.receiver == myService.label && invocation.call.method.name == "Notify"
      && invocation.awaited

def doings (service : Implementation) (invocations : List Invocation) : Nat :=
  invocations.countP fun invocation =>
    invocation.receiver == service.label && invocation.call.method.name == "DoSomething"

end Remoting.Sample
