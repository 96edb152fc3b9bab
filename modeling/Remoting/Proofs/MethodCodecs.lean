import Mathlib
import Remoting.Client.Plan
import Remoting.Server.Handler
import Remoting.Proofs.Fallible

/-! The codecs of a method under type arguments. Client and server build theirs apart from each
other, and both build these. -/

namespace Remoting

/-- A closed type with a codec, which is what client and server take for a type argument. -/
def WireType.IsArgument (registry : Registry) (type : WireType) : Prop :=
  type.isClosed = true ∧ ∃ codec, Codec.ofType registry type = .ok codec

def argumentFields (types : List WireType) : List Field :=
  types.map fun type => (Codec.witness, Value.witness type)

structure MethodDescription.HasCodecs (registry : Registry) (arguments : List WireType)
    (method : MethodDescription) (request response : List Codec) (result : Option Codec) : Prop where
  request : List.Forall₂ (fun parameter codec =>
    Codec.ofOpen registry arguments parameter.type = .ok codec) method.requestParameters request
  response : List.Forall₂ (fun parameter codec =>
    Codec.ofOpen registry arguments parameter.type = .ok codec) method.responseParameters response
  result : match result with
    | some codec => method.returnsValue = true ∧
        Codec.ofOpen registry arguments method.result = .ok codec
    | none => method.returnsValue = false

theorem MethodDescription.arity_eq_zero {method : MethodDescription} (h : method.isGeneric = false) :
    method.arity = 0 := by
  simpa [isGeneric, arity] using h

theorem ofType_of_ofOpen {registry : Registry} {arguments : List WireType} {type : WireType}
    {codec : Codec} (h : Codec.ofOpen registry arguments type = .ok codec) :
    ∃ closed, Codec.ofType registry closed = .ok codec := by
  unfold Codec.ofOpen at h
  split at h
  · exact ⟨_, h⟩
  · cases h

theorem resultCodec_bind_eq_ok_iff {registry : Registry} {method : MethodDescription}
    {arguments : List WireType} {α β : Type} {wrap : Codec → α} {missing : α}
    {next : α → Except CodecError β} {built : β} :
    (if method.returnsValue then (Codec.ofOpen registry arguments method.result).map wrap >>= next
      else Except.ok missing >>= next) = .ok built ↔
      ∃ result : Option Codec, (match result with
        | some codec => method.returnsValue = true ∧
            Codec.ofOpen registry arguments method.result = .ok codec
        | none => method.returnsValue = false) ∧ next (result.elim missing wrap) = .ok built := by
  by_cases hreturns : method.returnsValue = true
  · rw [if_pos hreturns, except_bind_eq_ok_iff]
    constructor
    · intro h
      obtain ⟨_, hresult, h⟩ := h
      obtain ⟨codec, hcodec, rfl⟩ := except_map_eq_ok_iff.mp hresult
      exact ⟨some codec, ⟨hreturns, hcodec⟩, h⟩
    · intro h
      obtain ⟨result, hresult, h⟩ := h
      cases result with
      | none =>
        rw [hreturns] at hresult
        cases hresult
      | some codec => exact ⟨_, except_map_eq_ok_iff.mpr ⟨codec, hresult.2, rfl⟩, h⟩
  · rw [if_neg hreturns]
    constructor
    · intro h
      exact ⟨none, by simpa using hreturns, h⟩
    · intro h
      obtain ⟨result, hresult, h⟩ := h
      cases result with
      | none => exact h
      | some codec => exact absurd hresult.1 hreturns

theorem CallPlan.build_eq_ok_iff {registry : Registry} {method : MethodDescription}
    {arguments : List WireType} {plan : CallPlan} :
    CallPlan.build registry method arguments = .ok plan ↔ ∃ request response result,
      method.HasCodecs registry arguments request response result ∧
        plan = ⟨request, response ++ result.toList, method.returnsValue⟩ := by
  simp only [CallPlan.build, except_bind_eq_ok_iff, mapM_eq_ok_iff]
  constructor
  · intro h
    obtain ⟨request, hrequest, response, hresponse, h⟩ := h
    obtain ⟨result, hresult, h⟩ := resultCodec_bind_eq_ok_iff.mp h
    cases h
    refine ⟨request, response, result, ⟨hrequest, hresponse, hresult⟩, ?_⟩
    cases result <;> rfl
  · intro h
    obtain ⟨request, response, result, hcodecs, rfl⟩ := h
    refine ⟨request, hcodecs.request, response, hcodecs.response,
      resultCodec_bind_eq_ok_iff.mpr ⟨result, hcodecs.result, ?_⟩⟩
    cases result <;> rfl

theorem ConcreteHandler.positioned_eq_ok_iff {registry : Registry} {arguments : List WireType}
    {parameters : List ParameterDescription} {codecs : List (Nat × Codec)} :
    positioned registry arguments parameters = .ok codecs ↔ ∃ plain,
      List.Forall₂ (fun parameter codec => Codec.ofOpen registry arguments parameter.type = .ok codec)
        parameters plain ∧ codecs = (parameters.map (·.position)).zip plain := by
  induction parameters generalizing codecs with
  | nil =>
    constructor
    · intro h
      cases h
      exact ⟨[], .nil, rfl⟩
    · intro h
      obtain ⟨plain, hplain, rfl⟩ := h
      cases hplain
      rfl
  | cons parameter parameters ih =>
    simp only [positioned, List.mapM_cons, except_bind_eq_ok_iff] at ih ⊢
    constructor
    · intro h
      obtain ⟨_, ⟨codec, hcodec, hpair⟩, others, hothers, h⟩ := h
      cases hpair
      cases h
      obtain ⟨plain, hplain, rfl⟩ := ih.mp hothers
      exact ⟨codec :: plain, .cons hcodec hplain, rfl⟩
    · intro h
      obtain ⟨plain, hplain, rfl⟩ := h
      cases hplain with
      | cons hcodec hothers =>
        exact ⟨_, ⟨_, hcodec, rfl⟩, _, ih.mpr ⟨_, hothers, rfl⟩, rfl⟩

theorem ConcreteHandler.build_eq_ok_iff {registry : Registry} {path : ServicePath}
    {method : MethodDescription} {arguments : List WireType} {handler : ConcreteHandler} :
    ConcreteHandler.build registry path method arguments = .ok handler ↔ ∃ request response result,
      method.HasCodecs registry arguments request response result ∧
        handler = ⟨path, method, arguments, (method.requestParameters.map (·.position)).zip request,
          (method.responseParameters.map (·.position)).zip response, result⟩ := by
  simp only [ConcreteHandler.build, except_bind_eq_ok_iff, positioned_eq_ok_iff]
  constructor
  · intro h
    obtain ⟨_, ⟨request, hrequest, rfl⟩, _, ⟨response, hresponse, rfl⟩, h⟩ := h
    obtain ⟨result, hresult, h⟩ := resultCodec_bind_eq_ok_iff.mp h
    cases h
    refine ⟨request, response, result, ⟨hrequest, hresponse, hresult⟩, ?_⟩
    cases result <;> rfl
  · intro h
    obtain ⟨request, response, result, hcodecs, rfl⟩ := h
    refine ⟨_, ⟨request, hcodecs.request, rfl⟩, _, ⟨response, hcodecs.response, rfl⟩,
      resultCodec_bind_eq_ok_iff.mpr ⟨result, hcodecs.result, ?_⟩⟩
    cases result <;> rfl

/-- The client has a plan exactly where the server has a handler. -/
theorem exists_handler_iff_exists_plan {registry : Registry} {path : ServicePath}
    {method : MethodDescription} {arguments : List WireType} :
    (∃ handler, ConcreteHandler.build registry path method arguments = .ok handler) ↔
      ∃ plan, CallPlan.build registry method arguments = .ok plan := by
  simp only [ConcreteHandler.build_eq_ok_iff, CallPlan.build_eq_ok_iff]
  constructor
  · intro h
    obtain ⟨_, request, response, result, hcodecs, _⟩ := h
    exact ⟨_, request, response, result, hcodecs, rfl⟩
  · intro h
    obtain ⟨_, request, response, result, hcodecs, _⟩ := h
    exact ⟨_, request, response, result, hcodecs, rfl⟩

end Remoting
