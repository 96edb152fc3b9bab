import Remoting.Client.Request
import Remoting.Codec.Payload
import Remoting.Table

/-! How the methods of a service are called: the codecs of requests and responses. Those of a
generic method depend on the type arguments and are kept for each tuple of them. -/

namespace Remoting

structure DirectReply where
  parameters : List Value
  result : Value

/-- The codecs of one method with its generic arguments put in. The codec of a result comes behind
those of the parameters that are sent back. -/
structure CallPlan where
  request : List Codec
  response : List Codec
  returnsValue : Bool

namespace CallPlan

def build (registry : Registry) (method : MethodDescription) (arguments : List WireType) :
    Except CodecError CallPlan := do
  let codecFor := Codec.ofOpen registry arguments
  let request ← method.requestParameters.mapM fun parameter => codecFor parameter.type
  let response ← method.responseParameters.mapM fun parameter => codecFor parameter.type
  let result ← if method.returnsValue then (codecFor method.result).map ([·]) else .ok []
  return ⟨request, response ++ result, method.returnsValue⟩

def responseValues (plan : CallPlan) (payload : Bytes) : Except DecodeError (List Value) :=
  match decodeFields plan.response payload with
  | .ok values _ => .ok values
  | .error error _ => .error error

def readDirect (plan : CallPlan) (payload : Bytes) : Except DecodeError DirectReply := do
  let values ← plan.responseValues payload
  if plan.returnsValue then return ⟨values.dropLast, values.getLast?.getD .unit⟩
  return ⟨values, .unit⟩

def readResult (plan : CallPlan) (payload : Bytes) : Except DecodeError Value := do
  let values ← plan.responseValues payload
  return values.getLast?.getD .unit

end CallPlan

structure CompiledMethod where
  description : MethodDescription
  registry : Registry
  concrete : Option CallPlan

structure CompiledService where
  name : String
  methods : List CompiledMethod
  subservices : List (String × CompiledService)

namespace CompiledService

def method? (service : CompiledService) (name : String) : Option CompiledMethod :=
  service.methods.find? fun method => method.description.name == name

def subservice? (service : CompiledService) (name : String) : Option CompiledService :=
  (service.subservices.find? fun sub => sub.1 == name).map (·.2)

end CompiledService

/-- What a specialization belongs to: the place of the service in the tree, the method, and the type
arguments. -/
structure SpecializationKey where
  place : List String
  method : String
  arguments : List WireType
deriving DecidableEq

abbrev Specializations := Table SpecializationKey CallPlan

namespace Specializations

def count (specializations : Specializations) (place : List String) (method : String) : Nat :=
  (specializations.keys.filter fun key => key.place == place && key.method == method).length

end Specializations

namespace CompiledMethod

def compile (registry : Registry) (method : MethodDescription) :
    Except CompileError CompiledMethod := do
  if method.style ≠ .direct ∧ method.responseParameters ≠ [] then
    throw (.byRefOnAsync method.name method.style)
  if method.isGeneric then return ⟨method, registry, none⟩
  match CallPlan.build registry method [] with
  | .error error => throw (.codec method.name error)
  | .ok plan => return ⟨method, registry, some plan⟩

/-- The plan of a generic method for closed type arguments, each of which has a codec. It is kept
once it is built. -/
def specialize (method : CompiledMethod) (place : List String) (arguments : List WireType) :
    EStateM CallerError Specializations CallPlan := do
  let key : SpecializationKey := ⟨place, method.description.name, arguments⟩
  match (← get).find? key with
  | some (_, plan) => return plan
  | none =>
    match CallPlan.build method.registry method.description arguments with
    | .error error => throw (.codec error)
    | .ok plan =>
      modify (·.push key plan)
      return plan

def planFor (method : CompiledMethod) (place : List String) (arguments : List WireType) :
    EStateM CallerError Specializations CallPlan := do
  let expected := method.description.arity
  if arguments.length ≠ expected then
    throw (.genericArgumentCount method.description.name expected arguments.length)
  match method.concrete with
  | some plan => return plan
  | none =>
    match arguments.find? (!·.isClosed) with
    | some argument => throw (.openTypeArgument argument)
    | none =>
      match Codec.ofTypes method.registry arguments with
      | .error error => throw (.codec error)
      | .ok _ => method.specialize place arguments

/-- The payload of a request: the witnesses of the type arguments, then the values. -/
def requestPayload (method : CompiledMethod) (plan : CallPlan) (arguments : List WireType)
    (values : List Value) : Except CallerError (Option Bytes) :=
  if values.length ≠ plan.request.length then
    .error (.argumentCount method.description.name plan.request.length values.length)
  else
    let witnesses := arguments.map fun type => (Codec.witness, Value.witness type)
    match encodeFields (witnesses ++ plan.request.zip values) with
    | .error error => .error (.encode error)
    | .ok payload =>
      .ok (if payload.isEmpty && arguments.isEmpty then none else some payload)

end CompiledMethod

mutual

/-- The service with every method compiled, its own before those of its sub-services. -/
def ServiceDescription.compile (registry : Registry) :
    ServiceDescription → Except CompileError CompiledService
  | ⟨_, name, methods, subservices⟩ => do
    let methods ← methods.mapM (CompiledMethod.compile registry)
    let subservices ← compileAll registry subservices
    return ⟨name, methods, subservices⟩
termination_by structural service => service

def compileAll (registry : Registry) :
    List (String × ServiceDescription) → Except CompileError (List (String × CompiledService))
  | [] => .ok []
  | (name, service) :: others => do
    let compiled ← service.compile registry
    return (name, compiled) :: (← compileAll registry others)
termination_by structural subservices => subservices

end

end Remoting
