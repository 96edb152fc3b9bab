import Mathlib
import Remoting.Proofs.MethodCodecs
import Remoting.Proofs.TypeLayers

/-! The types of a method once its type arguments are put in. Which of them have codecs is the same
for every registry of members, so client and server cannot differ in it. -/

namespace Remoting

/-- Without layers that have no values: placeholders, pending results, and members of any kind at
all. -/
structure WireType.Encodable (type : WireType) : Prop where
  noPlaceholder : ∀ index, WireType.generic index ∉ type.layers
  noPending : ∀ result, WireType.pending result ∉ type.layers
  noAnyMember : WireType.member .any ∉ type.layers

namespace WireType

variable {registry : Registry} {type : WireType}

theorem exists_ofType_iff : (∃ codec, Codec.ofType registry type = .ok codec) ↔ type.Encodable := by
  induction type with
  | array inner ih | nullable inner ih =>
    simp only [Codec.ofType, except_map_eq_ok_iff]
    constructor
    · intro h
      obtain ⟨_, codec, hcodec, rfl⟩ := h
      have hinner := ih.mp ⟨codec, hcodec⟩
      exact ⟨by simpa [layers] using hinner.noPlaceholder, by simpa [layers] using hinner.noPending,
        by simpa [layers] using hinner.noAnyMember⟩
    · intro h
      obtain ⟨codec, hcodec⟩ := ih.mpr ⟨by simpa [layers] using h.noPlaceholder,
        by simpa [layers] using h.noPending, by simpa [layers] using h.noAnyMember⟩
      exact ⟨_, codec, hcodec, rfl⟩
  | generic index =>
    exact iff_of_false (by simp [Codec.ofType]) fun h => h.noPlaceholder index List.mem_cons_self
  | pending result _ =>
    exact iff_of_false (by simp [Codec.ofType]) fun h => h.noPending result List.mem_cons_self
  | member kind =>
    cases kind with
    | any => exact iff_of_false (by simp [Codec.ofType]) fun h => h.noAnyMember List.mem_cons_self
    | _ => exact iff_of_true ⟨_, rfl⟩ ⟨by simp [layers], by simp [layers], by simp [layers]⟩
  | number type =>
    exact iff_of_true ⟨_, Codec.ofType_number registry type⟩
      ⟨by simp [layers], by simp [layers], by simp [layers]⟩
  | _ => exact iff_of_true ⟨_, rfl⟩ ⟨by simp [layers], by simp [layers], by simp [layers]⟩

theorem Encodable.isClosed (h : type.Encodable) : type.isClosed = true := by
  rw [isClosed_iff_placeholder?, Option.eq_none_iff_forall_ne_some]
  intro index hindex
  exact h.noPlaceholder index (placeholder?_eq_some_iff.mp hindex)

theorem isArgument_iff (registry : Registry) : type.IsArgument registry ↔ type.Encodable :=
  ⟨fun h => exists_ofType_iff.mp h.2, fun h => ⟨h.isClosed, exists_ofType_iff.mpr h⟩⟩

end WireType

namespace Codec

variable {registry : Registry} {arguments types : List WireType} {type : WireType} {codec : Codec}
  {codecs : List Codec}

theorem exists_ofTypes_iff (registry : Registry) :
    (∃ codecs, ofTypes registry types = .ok codecs) ↔ ∀ type ∈ types, type.Encodable := by
  simp only [ofTypes, exists_mapM_iff, WireType.exists_ofType_iff]

theorem ofOpen_eq_ok_iff : ofOpen registry arguments type = .ok codec ↔
    ∃ closed, type.substitute arguments = some closed ∧ ofType registry closed = .ok codec := by
  unfold ofOpen
  cases type.substitute arguments with
  | none => exact iff_of_false nofun nofun
  | some closed => simp

theorem mapM_ofOpen_eq_ok_iff : types.mapM (ofOpen registry arguments) = .ok codecs ↔
    ∃ closed, types.mapM (·.substitute arguments) = some closed ∧
      ofTypes registry closed = .ok codecs := by
  induction types generalizing codecs with
  | nil => simp [ofTypes]
  | cons type types ih =>
    simp only [List.mapM_cons, except_bind_eq_ok_iff, ofOpen_eq_ok_iff, ih, Option.bind_eq_bind,
      Option.bind_eq_some_iff]
    constructor
    · intro h
      obtain ⟨codec, ⟨first, hfirst, hcodec⟩, others, ⟨rest, hrest, hothers⟩, h⟩ := h
      refine ⟨first :: rest, ⟨first, hfirst, rest, hrest, rfl⟩, ?_⟩
      rw [ofTypes, List.mapM_cons, except_bind_eq_ok_iff]
      exact ⟨codec, hcodec, except_bind_eq_ok_iff.mpr ⟨others, hothers, h⟩⟩
    · intro h
      obtain ⟨_, ⟨first, hfirst, rest, hrest, hclosed⟩, hcodecs⟩ := h
      cases hclosed
      rw [ofTypes, List.mapM_cons, except_bind_eq_ok_iff] at hcodecs
      obtain ⟨codec, hcodec, hcodecs⟩ := hcodecs
      obtain ⟨others, hothers, h⟩ := except_bind_eq_ok_iff.mp hcodecs
      exact ⟨codec, ⟨first, hfirst, hcodec⟩, others, ⟨rest, hrest, hothers⟩, h⟩

end Codec

/-- The codecs of the plan are those of a registry for closed types, one by one. -/
structure CallPlan.IsFor (plan : CallPlan) (registry : Registry)
    (request response : List WireType) : Prop where
  closed : ∀ type ∈ request ++ response, type.isClosed = true
  request : Codec.ofTypes registry request = .ok plan.request
  response : Codec.ofTypes registry response = .ok plan.response

namespace MethodDescription

def requestTypes (method : MethodDescription) : List WireType :=
  method.requestParameters.map (·.type)

/-- The types of what comes back, that of a result last. -/
def responseTypes (method : MethodDescription) : List WireType :=
  method.responseParameters.map (·.type) ++ if method.returnsValue then [method.result] else []

/-- The types of a method under its type arguments. -/
structure Becomes (method : MethodDescription) (arguments request response : List WireType) :
    Prop where
  request : method.requestTypes.mapM (·.substitute arguments) = some request
  response : method.responseTypes.mapM (·.substitute arguments) = some response

variable {registry : Registry} {method : MethodDescription} {arguments : List WireType}
  {request response : List Codec} {result : Option Codec}

theorem HasCodecs.isSome_result
    (h : method.HasCodecs registry arguments request response result) :
    result.isSome = method.returnsValue := by
  have hresult := h.result
  cases result with
  | none => exact hresult.symm
  | some codec => exact hresult.1.symm

theorem HasCodecs.mapM_request (h : method.HasCodecs registry arguments request response result) :
    method.requestTypes.mapM (Codec.ofOpen registry arguments) = .ok request :=
  mapM_eq_ok_iff.mpr (List.forall₂_map_left_iff.mpr h.request)

theorem HasCodecs.mapM_response (h : method.HasCodecs registry arguments request response result) :
    method.responseTypes.mapM (Codec.ofOpen registry arguments) =
      .ok (response ++ result.toList) := by
  refine mapM_eq_ok_iff.mpr (List.rel_append (List.forall₂_map_left_iff.mpr h.response) ?_)
  have hresult := h.result
  cases result with
  | none =>
    rw [if_neg (by simp [hresult])]
    exact .nil
  | some codec =>
    rw [if_pos hresult.1]
    exact .cons hresult.2 .nil

theorem exists_hasCodecs_of_mapM {response : List Codec}
    (hrequest : method.requestTypes.mapM (Codec.ofOpen registry arguments) = .ok request)
    (hresponse : method.responseTypes.mapM (Codec.ofOpen registry arguments) = .ok response) :
    ∃ parameters result, method.HasCodecs registry arguments request parameters result := by
  have hsent := List.forall₂_map_left_iff.mp (mapM_eq_ok_iff.mp hrequest)
  rw [responseTypes, List.mapM_append, except_bind_eq_ok_iff] at hresponse
  obtain ⟨parameters, hparameters, hresponse⟩ := hresponse
  have hback := List.forall₂_map_left_iff.mp (mapM_eq_ok_iff.mp hparameters)
  by_cases hreturns : method.returnsValue = true
  · rw [if_pos hreturns, except_bind_eq_ok_iff] at hresponse
    obtain ⟨_, hresult, _⟩ := hresponse
    cases mapM_eq_ok_iff.mp hresult with
    | cons hcodec _ => exact ⟨parameters, some _, hsent, hback, hreturns, hcodec⟩
  · exact ⟨parameters, none, hsent, hback, by simpa using hreturns⟩

end MethodDescription

namespace CallPlan

variable {registry : Registry} {method : MethodDescription} {arguments : List WireType}
  {plan : CallPlan}

/-- A plan is for the types of its method under the type arguments. -/
theorem isFor_of_build (h : CallPlan.build registry method arguments = .ok plan) :
    plan.returnsValue = method.returnsValue ∧ ∃ request response,
      method.Becomes arguments request response ∧ plan.IsFor registry request response := by
  obtain ⟨request, response, result, hcodecs, rfl⟩ := build_eq_ok_iff.mp h
  obtain ⟨sent, hsent, hrequest⟩ := Codec.mapM_ofOpen_eq_ok_iff.mp hcodecs.mapM_request
  obtain ⟨returned, hreturned, hresponse⟩ := Codec.mapM_ofOpen_eq_ok_iff.mp hcodecs.mapM_response
  have hencodable : ∀ type ∈ sent ++ returned, type.Encodable := List.forall_mem_append.mpr
    ⟨(Codec.exists_ofTypes_iff registry).mp ⟨_, hrequest⟩,
      (Codec.exists_ofTypes_iff registry).mp ⟨_, hresponse⟩⟩
  exact ⟨rfl, sent, returned, ⟨hsent, hreturned⟩,
    fun type hmem => (hencodable type hmem).isClosed, hrequest, hresponse⟩

/-- Whether there is a plan for type arguments is known from the types alone. -/
theorem exists_build_iff (registry : Registry) :
    (∃ plan, CallPlan.build registry method arguments = .ok plan) ↔ ∃ request response,
      method.Becomes arguments request response ∧ ∀ type ∈ request ++ response, type.Encodable := by
  simp only [List.forall_mem_append, ← Codec.exists_ofTypes_iff registry]
  constructor
  · intro h
    obtain ⟨plan, hplan⟩ := h
    obtain ⟨_, request, response, hbecomes, hfor⟩ := isFor_of_build hplan
    exact ⟨request, response, hbecomes, ⟨_, hfor.request⟩, ⟨_, hfor.response⟩⟩
  · intro h
    obtain ⟨request, response, hbecomes, ⟨sent, hsent⟩, ⟨returned, hreturned⟩⟩ := h
    obtain ⟨_, _, hcodecs⟩ := MethodDescription.exists_hasCodecs_of_mapM
      (Codec.mapM_ofOpen_eq_ok_iff.mpr ⟨request, hbecomes.request, hsent⟩)
      (Codec.mapM_ofOpen_eq_ok_iff.mpr ⟨response, hbecomes.response, hreturned⟩)
    exact ⟨_, build_eq_ok_iff.mpr ⟨_, _, _, hcodecs, rfl⟩⟩

end CallPlan

/-- The codecs of a handler as a client would keep them. -/
def ConcreteHandler.plan (handler : ConcreteHandler) : CallPlan :=
  ⟨handler.request.map (·.2), handler.response.map (·.2) ++ handler.result.toList,
    handler.result.isSome⟩

section Agreement

variable {client server : Registry} {method : MethodDescription} {arguments : List WireType}
  {path : ServicePath} {handler : ConcreteHandler} {plan : CallPlan}

theorem CallPlan.build_plan (h : ConcreteHandler.build server path method arguments = .ok handler) :
    CallPlan.build server method arguments = .ok handler.plan := by
  obtain ⟨request, response, result, hcodecs, rfl⟩ := ConcreteHandler.build_eq_ok_iff.mp h
  refine CallPlan.build_eq_ok_iff.mpr ⟨request, response, result, hcodecs, ?_⟩
  have hrequest : (method.requestParameters.map (·.position)).length = request.length := by
    rw [List.length_map, hcodecs.request.length_eq]
  have hresponse : (method.responseParameters.map (·.position)).length = response.length := by
    rw [List.length_map, hcodecs.response.length_eq]
  rw [ConcreteHandler.plan, List.map_snd_zip hrequest.ge, List.map_snd_zip hresponse.ge,
    hcodecs.isSome_result]

/-- Client and server have codecs for the same type arguments, whatever members each of them
knows. -/
theorem exists_client_plan_iff_exists_server_handler :
    (∃ plan, CallPlan.build client method arguments = .ok plan) ↔
      ∃ handler, ConcreteHandler.build server path method arguments = .ok handler := by
  rw [exists_handler_iff_exists_plan, CallPlan.exists_build_iff client,
    CallPlan.exists_build_iff server]

/-- The codecs of both sides are for the same closed types in the same order. -/
theorem plans_agree (hplan : CallPlan.build client method arguments = .ok plan)
    (hhandler : ConcreteHandler.build server path method arguments = .ok handler) :
    plan.returnsValue = handler.plan.returnsValue ∧ ∃ request response,
      method.Becomes arguments request response ∧ plan.IsFor client request response ∧
        handler.plan.IsFor server request response := by
  obtain ⟨hreturns, request, response, hbecomes, hfor⟩ := CallPlan.isFor_of_build hplan
  obtain ⟨hreturns', request', response', hbecomes', hfor'⟩ :=
    CallPlan.isFor_of_build (CallPlan.build_plan hhandler)
  obtain rfl : request = request' :=
    Option.some.inj (hbecomes.request.symm.trans hbecomes'.request)
  obtain rfl : response = response' :=
    Option.some.inj (hbecomes.response.symm.trans hbecomes'.response)
  exact ⟨hreturns.trans hreturns'.symm, request, response, hbecomes, hfor, hfor'⟩

end Agreement

end Remoting
