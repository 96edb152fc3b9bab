import Remoting.Server.Error
import Remoting.Codec.Payload
import Remoting.Table

/-! Handlers of requests, one for each path. A handler of a generic method reads the type arguments
from the front of the request and keeps a concrete handler for each tuple of them. -/

namespace Remoting

/-- What came of a request: the payload of the response or an error, and the invocation if it came
to one. -/
structure Outcome where
  result : Except DispatchError Bytes
  invocation : Option Invocation

/-- The handler of a method whose types are all known. The codecs of parameters come with the
positions of their slots. -/
structure ConcreteHandler where
  path : ServicePath
  method : MethodDescription
  typeArguments : List WireType
  request : List (Nat × Codec)
  response : List (Nat × Codec)
  result : Option Codec

namespace ConcreteHandler

def positioned (registry : Registry) (typeArguments : List WireType)
    (parameters : List ParameterDescription) : Except CodecError (List (Nat × Codec)) :=
  parameters.mapM fun parameter => do
    return (parameter.position, ← Codec.ofOpen registry typeArguments parameter.type)

def build (registry : Registry) (path : ServicePath) (method : MethodDescription)
    (typeArguments : List WireType) : Except CodecError ConcreteHandler := do
  let request ← positioned registry typeArguments method.requestParameters
  let response ← positioned registry typeArguments method.responseParameters
  let result ←
    if method.returnsValue then (Codec.ofOpen registry typeArguments method.result).map some
    else .ok none
  return { path, method, typeArguments, request, response, result }

/-- Slots with values put at positions; the others are null. -/
def fillSlots (count : Nat) (values : List (Nat × Value)) : List Value :=
  values.foldl (fun slots value => slots.set value.1 value.2) (List.replicate count .null)

def callOf (handler : ConcreteHandler) (values : List Value) : MethodCall where
  method := handler.method
  typeArguments := handler.typeArguments
  slots := fillSlots handler.method.parameters.length ((handler.request.map (·.1)).zip values)

def encodeResponse (fields : List Field) : Except DispatchError Bytes :=
  match encodeFields fields with
  | .ok payload => .ok payload
  | .error error => .error (.encode error)

/-- The response to a direct call: what the slots of parameters sent back hold, then the result. -/
def directResponse (handler : ConcreteHandler) (slots : List Value) (result : Value) :
    Except DispatchError Bytes :=
  encodeResponse
    (handler.response.map (fun entry => (entry.2, slots[entry.1]?.getD .null))
      ++ handler.result.toList.map fun codec => (codec, result))

def resultResponse (handler : ConcreteHandler) (result : Value) : Except DispatchError Bytes :=
  encodeResponse (handler.result.toList.map fun codec => (codec, result))

def awaitReply : Reply → Except DispatchError Value
  | .value value => .ok value
  | .pending (.ok value) => .ok value
  | .pending (.error error) => .error (.implementation error)

/-- The response to an answered call. Only an asynchronous method may answer with a pending
operation, and where there is no result to send its value is of no account. -/
def respond (handler : ConcreteHandler) (call : MethodCall) (answer : Answer) :
    Except DispatchError Bytes :=
  match handler.method.style, answer.reply with
  | .direct, .value result =>
    handler.directResponse (call.assign answer.assignments).slots result
  | .direct, .pending _ => .error (.replyMismatch handler.method.name .direct)
  | .asyncVoid, reply => (awaitReply reply).map fun _ => []
  | .asyncValue, reply => (awaitReply reply).bind handler.resultResponse

def awaits (handler : ConcreteHandler) : Reply → Bool
  | .value _ => false
  | .pending _ => handler.method.style != .direct

/-- Decodes the parameters from what is left of a request and invokes the implementation. -/
def execute (handler : ConcreteHandler) (leaf : Implementation) (left : Bytes) : Outcome :=
  match decodeFields (handler.request.map (·.2)) left with
  | .error error _ => ⟨.error (.decode error), none⟩
  | .ok values _ =>
    let call := handler.callOf values
    match leaf.invoke call with
    | .error error => ⟨.error (.implementation error), some ⟨leaf.label, call, false⟩⟩
    | .ok answer =>
      ⟨handler.respond call answer, some ⟨leaf.label, call, handler.awaits answer.reply⟩⟩

end ConcreteHandler

structure GenericHandler where
  path : ServicePath
  method : MethodDescription
  registry : Registry
  specializations : Table (List WireType) ConcreteHandler

/-- A concrete handler, its slot, and the generic handler that has it. -/
structure Specialized where
  slot : Nat
  handler : ConcreteHandler
  generic : GenericHandler

namespace GenericHandler

/-- A type argument: closed, and of a type that has a codec even where no parameter is of it. -/
def typeArgument (registry : Registry) : Reader WireType := do
  let type ← Reader.witness
  if !type.isClosed then throw (.invalidWitness type)
  match Codec.ofType registry type with
  | .error error => throw (.codec error)
  | .ok _ => return type

/-- The concrete handler for the type arguments at the front of a request. It is kept once it is
built; a failure keeps nothing. -/
def specialize (handler : GenericHandler) : Reader Specialized := do
  let typeArguments ← Reader.many (typeArgument handler.registry) handler.method.arity
  match handler.specializations.find? typeArguments with
  | some (slot, concrete) => return ⟨slot, concrete, handler⟩
  | none =>
    match ConcreteHandler.build handler.registry handler.path handler.method typeArguments with
    | .error error => throw (.codec error)
    | .ok concrete =>
      return ⟨handler.specializations.size, concrete,
        { handler with specializations := handler.specializations.push typeArguments concrete }⟩

end GenericHandler

inductive Handler
  | concrete (handler : ConcreteHandler)
  | generic (handler : GenericHandler)

namespace Handler

def path : Handler → ServicePath
  | concrete handler => handler.path
  | generic handler => handler.path

def create (registry : Registry) (service : ServiceDescription) (path : ServicePath) :
    Except DispatchError Handler :=
  match service.resolve path with
  | .error error => .error (.routing error)
  | .ok (_, method) =>
    if method.isGeneric then .ok (generic ⟨path, method, registry, .empty⟩)
    else match ConcreteHandler.build registry path method [] with
      | .error error => .error (.codec error)
      | .ok handler => .ok (concrete handler)

def leaf (path : ServicePath) (root : Implementation) : Except DispatchError Implementation :=
  match root.descend path.chain with
  | .ok leaf => .ok leaf
  | .error name => .error (.subserviceUnavailable path.format name)

def run (handler : ConcreteHandler) (root : Implementation) (left : Bytes) : Outcome :=
  match leaf handler.path root with
  | .error error => ⟨.error error, none⟩
  | .ok leaf => handler.execute leaf left

def handle (handler : Handler) (root : Implementation) (payload : Bytes) (offset : Nat) :
    Outcome × Handler :=
  match Reader.start payload offset with
  | .error error => (⟨.error (.decode error), none⟩, handler)
  | .ok left =>
    match handler with
    | concrete handler => (run handler root left, concrete handler)
    | generic handler =>
      match handler.specialize left with
      | .error error _ => (⟨.error (.decode error), none⟩, generic handler)
      | .ok specialized left =>
        (run specialized.handler root left, generic specialized.generic)

end Handler

end Remoting
