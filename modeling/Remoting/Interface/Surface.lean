import Remoting.Interface.Description
import Remoting.Member.Registry

/-! The members of a described service that codecs of members can carry: its methods, its
sub-services as properties, and those of the sub-services. -/

namespace Remoting

/-- A method as a member. Its arity is taken modulo 2^16. -/
def MethodDescription.member (interface : String) (method : MethodDescription) : Member :=
  .method interface method.name (method.parameters.map (·.type)) (UInt16.ofNat method.arity)

mutual

def ServiceDescription.surface : ServiceDescription → List Member
  | ⟨interface, _, methods, subservices⟩ =>
    methods.map (·.member interface) ++ surfaceBelow interface subservices
termination_by structural service => service

def surfaceBelow (interface : String) : List (String × ServiceDescription) → List Member
  | [] => []
  | (name, service) :: others =>
    .property interface name :: (service.surface ++ surfaceBelow interface others)
termination_by structural subservices => subservices

end

namespace Registry

def insertAll (registry : Registry) (members : List Member) : Registry :=
  members.foldl insert registry

def registerService (registry : Registry) (service : ServiceDescription) : Registry :=
  registry.insertAll service.surface

end Registry

end Remoting
