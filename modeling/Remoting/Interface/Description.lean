import Remoting.Interface.Shape
import Remoting.Interface.Error
import Remoting.Text.Identifier
import Remoting.Text.NameSet
import Remoting.Path.Basic

/-! Descriptions: what is known about a service once its shape has been checked. Client and server
work from descriptions alone. -/

namespace Remoting

/-- How a result comes back: with the call, later without a value, or later with one. -/
inductive RemotingStyle
  | direct | asyncVoid | asyncValue
deriving DecidableEq, Repr

def RemotingStyle.name : RemotingStyle → String
  | direct => "Direct"
  | asyncVoid => "AsyncVoid"
  | asyncValue => "AsyncWithRetval"

/-- The style that a declared result type selects, and the type of the value that comes back. -/
def RemotingStyle.ofResult : WireType → RemotingStyle × WireType
  | .pending .unit => (asyncVoid, .unit)
  | .pending result => (asyncValue, result)
  | result => (direct, result)

structure ParameterDescription where
  name : String
  type : WireType
  mode : PassingMode
  position : Nat
deriving DecidableEq, Repr

structure MethodDescription where
  name : String
  /-- The type of the value that comes back, without a pending marker. -/
  result : WireType
  parameters : List ParameterDescription
  generics : List String
  style : RemotingStyle
deriving DecidableEq, Repr

namespace MethodDescription

def arity (method : MethodDescription) : Nat := method.generics.length

def isGeneric (method : MethodDescription) : Bool := !method.generics.isEmpty

def returnsValue (method : MethodDescription) : Bool := method.result != .unit

def requestParameters (method : MethodDescription) : List ParameterDescription :=
  method.parameters.filter (·.mode.isRequest)

def responseParameters (method : MethodDescription) : List ParameterDescription :=
  method.parameters.filter (·.mode.isResponse)

def hasResponse (method : MethodDescription) : Bool :=
  method.returnsValue || !method.responseParameters.isEmpty

end MethodDescription

structure ServiceDescription where
  interface : String
  name : String
  methods : List MethodDescription
  subservices : List (String × ServiceDescription)

namespace ServiceDescription

def method? (service : ServiceDescription) (name : String) : Option MethodDescription :=
  service.methods.find? fun method => method.name == name

def subservice? (service : ServiceDescription) (name : String) : Option ServiceDescription :=
  (service.subservices.find? fun sub => sub.1 == name).map (·.2)

def descend : ServiceDescription → List String → Except String ServiceDescription
  | service, [] => .ok service
  | service, name :: chain =>
    match service.subservice? name with
    | none => .error name
    | some sub => sub.descend chain

/-- The service and the method that a path leads to. The leftmost segment that names nothing is
reported. -/
def resolve (service : ServiceDescription) (path : ServicePath) :
    Except RoutingError (ServiceDescription × MethodDescription) :=
  if path.root ≠ service.name then .error ⟨path.format, .service, path.root⟩
  else match service.descend path.chain with
    | .error name => .error ⟨path.format, .subservice, name⟩
    | .ok leaf =>
      match leaf.method? path.method with
      | none => .error ⟨path.format, .method, path.method⟩
      | some method => .ok (leaf, method)

end ServiceDescription

def firstRepeated? (seen : NameSet) : List String → Option String
  | [] => none
  | name :: names =>
    if seen.contains name.toList then some name
    else firstRepeated? (seen.insert name.toList) names

def checkIdentifier (role : NameRole) (name : String) : Except DescriptionError Unit :=
  if isIdentifier name then .ok () else .error (.invalidIdentifier role name)

def checkIdentifiers (role : NameRole) : List String → Except DescriptionError Unit
  | [] => .ok ()
  | name :: names => do
    checkIdentifier role name
    checkIdentifiers role names

def checkDistinct (owner : String) (role : NameRole) (names : List String) :
    Except DescriptionError Unit :=
  match firstRepeated? .empty names with
  | none => .ok ()
  | some name => .error (.duplicateName owner role name)

/-- Types of parameters and results hold no pending marker, and placeholders of declared generic
parameters only. -/
def checkTypes (method : String) (declared : Nat) : List WireType → Except DescriptionError Unit
  | [] => .ok ()
  | type :: types =>
    if type.containsPending then .error (.misplacedPending method)
    else match type.placeholder? with
      | some index =>
        if declared ≤ index.toNat then .error (.unknownGenericParameter method index declared)
        else checkTypes method declared types
      | none => checkTypes method declared types

def MethodShape.describe (interface : String) (shape : MethodShape) :
    Except DescriptionError MethodDescription := do
  let qualified := interface ++ "." ++ shape.name
  let (style, result) := RemotingStyle.ofResult shape.result
  checkIdentifier .method shape.name
  checkIdentifiers .genericParameter shape.generics
  checkIdentifiers .parameter (shape.parameters.map (·.name))
  checkDistinct qualified .genericParameter shape.generics
  checkDistinct qualified .parameter (shape.parameters.map (·.name))
  checkTypes qualified shape.generics.length (shape.parameters.map (·.type) ++ [result])
  if style ≠ .direct then
    match shape.parameters.find? (·.mode.isResponse) with
    | some parameter => throw (.byRefOnAsync qualified parameter.name)
    | none => pure ()
  return {
    name := shape.name
    result := result
    parameters := shape.parameters.mapIdx fun position parameter =>
      ⟨parameter.name, parameter.type, parameter.mode, position⟩
    generics := shape.generics
    style := style }

def getter (property : String) (type : WireType) : MethodShape :=
  { name := "get_" ++ property, result := type }

mutual

/-- The description of a shape below the interfaces that enclose it, none of which may occur
again. -/
def InterfaceShape.describeWithin (enclosing : List String) :
    InterfaceShape → Except DescriptionError ServiceDescription
  | .mk id methods properties => do
    if id ∈ enclosing then throw (.recursiveSubservice id)
    let name := serviceName id
    checkIdentifier .service name
    let declared ← methods.mapM (·.describe id)
    let (getters, subservices) ← describeProperties id (id :: enclosing) properties
    let methods := declared ++ getters
    checkDistinct id .method (methods.map (·.name))
    checkDistinct id .subservice (subservices.map (·.1))
    return ⟨id, name, methods, subservices⟩
termination_by structural shape => shape

/-- The getters of the value properties and the descriptions of the others. -/
def describeProperties (interface : String) (enclosing : List String) :
    List PropertyShape →
      Except DescriptionError (List MethodDescription × List (String × ServiceDescription))
  | [] => .ok ([], [])
  | .value name type hasSetter :: properties => do
    if hasSetter then throw (.propertySetter interface name)
    checkIdentifier .property name
    let method ← (getter name type).describe interface
    let (getters, subservices) ← describeProperties interface enclosing properties
    return (method :: getters, subservices)
  | .service name shape hasSetter :: properties => do
    if hasSetter then throw (.propertySetter interface name)
    checkIdentifier .property name
    let service ← shape.describeWithin enclosing
    let (getters, subservices) ← describeProperties interface enclosing properties
    return (getters, (name, service) :: subservices)
termination_by structural properties => properties

end

def InterfaceShape.describe (shape : InterfaceShape) :
    Except DescriptionError ServiceDescription :=
  shape.describeWithin []

end Remoting
