import Remoting.Text.Quoted

/-! What is wrong with a shape, and why a path leads nowhere. -/

namespace Remoting

inductive NameRole
  | service | subservice | method | genericParameter | parameter | property
deriving DecidableEq, Repr

def NameRole.text : NameRole → String
  | service => "service"
  | subservice => "sub-service"
  | method => "method"
  | genericParameter => "generic parameter"
  | parameter => "parameter"
  | property => "property"

/-- A method is given with the identity of its interface and a full stop in front. -/
inductive DescriptionError
  | invalidIdentifier (role : NameRole) (name : String)
  | propertySetter (interface property : String)
  | duplicateName (owner : String) (role : NameRole) (name : String)
  | byRefOnAsync (method parameter : String)
  | unknownGenericParameter (method : String) (index : UInt16) (declared : Nat)
  | misplacedPending (method : String)
  | recursiveSubservice (interface : String)
deriving DecidableEq, Repr

def DescriptionError.message : DescriptionError → String
  | invalidIdentifier role name =>
    role.text ++ " name " ++ quoted name ++ " is not a valid identifier"
  | propertySetter interface property =>
    "property " ++ interface ++ "." ++ property
      ++ " has a setter; only read-only properties are supported"
  | duplicateName owner role name =>
    owner ++ " declares more than one " ++ role.text ++ " named " ++ quoted name
  | byRefOnAsync method parameter =>
    method ++ " returns a pending operation but parameter " ++ quoted parameter
      ++ " is passed by ref or out"
  | unknownGenericParameter method index declared =>
    method ++ " references generic parameter T" ++ Nat.repr index.toNat ++ " but declares only "
      ++ Nat.repr declared
  | misplacedPending method =>
    method ++ " uses a pending type outside of its return position"
  | recursiveSubservice interface => interface ++ " contains itself as a sub-service"

structure RoutingError where
  path : String
  role : NameRole
  segment : String
deriving DecidableEq, Repr

def RoutingError.message (error : RoutingError) : String :=
  "invalid path " ++ error.path ++ ": no " ++ error.role.text ++ " named " ++ quoted error.segment

end Remoting
