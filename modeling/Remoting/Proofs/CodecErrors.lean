import Mathlib
import Remoting.Proofs.ClosedTypes
import Remoting.Proofs.DescribedMethods

/-! Why a method has no codecs. What a declaration may say and what a type argument may be leave one
cause of all: that a type mentions members of any kind. -/

namespace Remoting

namespace WireType

variable {registry : Registry} {type inner closed : WireType} {arguments : List WireType}
  {error : CodecError}

/-- A layer of a type that keeps it from having a codec, by the error that tells it. -/
inductive Lacks (type : WireType) : CodecError → Prop
  | placeholder {index : UInt16} (h : generic index ∈ type.layers) : Lacks type (.openGeneric index)
  | pending {result : WireType} (h : pending result ∈ type.layers) :
      Lacks type (.pendingType (.pending result))
  | anyMember (h : member .any ∈ type.layers) : Lacks type (.unsupportedMemberKind .any)

theorem Lacks.mono (h : inner.Lacks error) (hlayers : inner.layers ⊆ type.layers) :
    type.Lacks error := by
  cases h with
  | placeholder h => exact .placeholder (hlayers h)
  | pending h => exact .pending (hlayers h)
  | anyMember h => exact .anyMember (hlayers h)

theorem lacks_of_ofType_error (h : Codec.ofType registry type = .error error) :
    type.Lacks error := by
  induction type with
  | array inner ih | nullable inner ih =>
    have hinner := except_map_eq_error_iff.mp h
    exact (ih hinner).mono (List.subset_cons_self _ _)
  | generic index =>
    cases h
    exact .placeholder List.mem_cons_self
  | pending result _ =>
    cases h
    exact .pending List.mem_cons_self
  | member kind =>
    cases kind with
    | any =>
      cases h
      exact .anyMember List.mem_cons_self
    | _ => cases h
  | number type => simp at h
  | _ => cases h

/-- Type arguments with codecs bring no layer that has none. -/
theorem layers_substitute (hargs : ∀ argument ∈ arguments, argument.Encodable)
    (hpending : ∀ result, pending result ∉ type.layers)
    (h : type.substitute arguments = some closed) :
    (∀ index, generic index ∉ closed.layers) ∧ (∀ result, pending result ∉ closed.layers) ∧
      (member .any ∈ closed.layers ↔ member .any ∈ type.layers) := by
  induction type generalizing closed with
  | array inner ih | nullable inner ih =>
    obtain ⟨found, hfound, rfl⟩ := Option.map_eq_some_iff.mp h
    simpa [layers] using ih (fun result hmem => hpending result (List.mem_cons_of_mem _ hmem)) hfound
  | generic index =>
    have hargument := hargs closed (List.mem_of_getElem? h)
    exact ⟨hargument.noPlaceholder, hargument.noPending,
      iff_of_false hargument.noAnyMember (by simp [layers])⟩
  | pending result _ => exact absurd List.mem_cons_self (hpending result)
  | _ =>
    cases h
    simp [layers]

end WireType

namespace MethodDescription

/-- The types of the parameters, and that of the result. -/
def types (method : MethodDescription) : List WireType :=
  method.parameters.map (·.type) ++ [method.result]

/-- No type of a method mentions members of any kind. -/
def Covered (method : MethodDescription) : Prop :=
  ∀ type ∈ method.types, WireType.member .any ∉ type.layers

instance : DecidablePred Covered := fun method =>
  inferInstanceAs (Decidable (∀ type ∈ method.types, WireType.member .any ∉ type.layers))

theorem Checked.types {method : MethodDescription} (h : method.Checked) {type : WireType}
    (hmem : type ∈ method.types) : (∀ result, WireType.pending result ∉ type.layers) ∧
      ∀ index, WireType.generic index ∈ type.layers → index.toNat < method.arity := by
  obtain ⟨interface, shape, hshape⟩ := h
  obtain ⟨hwf, rfl⟩ := MethodShape.describe_eq_ok_iff.mp hshape
  obtain ⟨hparameters, hresult⟩ := List.forall_mem_append.mp hwf.placeholdersDeclared
  rcases List.mem_append.mp hmem with hmem | hmem
  · obtain ⟨parameter, hparameter, rfl⟩ := List.mem_map.mp hmem
    obtain ⟨i, hi, rfl⟩ := List.mem_mapIdx.mp hparameter
    have hdeclared : shape.parameters[i] ∈ shape.parameters := List.getElem_mem hi
    exact ⟨hwf.noPendingParameter _ hdeclared, hparameters _ (List.mem_map_of_mem hdeclared)⟩
  · rw [List.mem_singleton.mp hmem]
    refine ⟨WireType.pending_notMem_layers_awaited_iff.mpr hwf.pendingOutermost,
      fun index hlayer => ?_⟩
    exact hresult _ (List.mem_singleton.mpr rfl) index (WireType.generic_mem_layers_awaited.mp hlayer)

variable {registry : Registry} {method : MethodDescription} {arguments : List WireType}
  {type : WireType} {error : CodecError}

theorem length_nil_eq_arity (h : method.isGeneric = false) :
    ([] : List WireType).length = method.arity :=
  (arity_eq_zero h).symm

/-- The types of a method under type arguments with codecs, as many as it declares. -/
theorem Checked.exists_substitute (h : method.Checked) (hcount : arguments.length = method.arity)
    (hmem : type ∈ method.types) : ∃ closed, type.substitute arguments = some closed := by
  refine Option.ne_none_iff_exists'.mp fun hnone => ?_
  obtain ⟨index, hindex, hmissing⟩ := WireType.substitute_eq_none_iff.mp hnone
  have hdeclared := (h.types hmem).2 index (WireType.placeholder?_eq_some_iff.mp hindex)
  omega

theorem Checked.exists_ofOpen_iff (h : method.Checked) (hcount : arguments.length = method.arity)
    (hargs : ∀ argument ∈ arguments, argument.Encodable) (hmem : type ∈ method.types) :
    (∃ codec, Codec.ofOpen registry arguments type = .ok codec) ↔
      WireType.member .any ∉ type.layers := by
  obtain ⟨closed, hclosed⟩ := h.exists_substitute hcount hmem
  obtain ⟨hplaceholder, hpending, hany⟩ :=
    WireType.layers_substitute hargs (h.types hmem).1 hclosed
  simp only [Codec.ofOpen, hclosed, WireType.exists_ofType_iff, ← hany]
  exact ⟨fun hencodable => hencodable.noAnyMember, fun hnone => ⟨hplaceholder, hpending, hnone⟩⟩

theorem Checked.ofOpen_error (h : method.Checked) (hcount : arguments.length = method.arity)
    (hargs : ∀ argument ∈ arguments, argument.Encodable) (hmem : type ∈ method.types)
    (herror : Codec.ofOpen registry arguments type = .error error) :
    error = .unsupportedMemberKind .any := by
  obtain ⟨closed, hclosed⟩ := h.exists_substitute hcount hmem
  obtain ⟨hplaceholder, hpending, _⟩ := WireType.layers_substitute hargs (h.types hmem).1 hclosed
  simp only [Codec.ofOpen, hclosed] at herror
  cases WireType.lacks_of_ofType_error herror with
  | placeholder hlayer => exact absurd hlayer (hplaceholder _)
  | pending hlayer => exact absurd hlayer (hpending _)
  | anyMember => rfl

end MethodDescription

section Builders

variable {registry : Registry} {path : ServicePath} {method : MethodDescription}
  {arguments : List WireType} {error : CodecError}

theorem resultCodec_bind_eq_error {α β : Type} {wrap : Codec → α} {missing : α}
    {next : α → Except CodecError β} (hnext : ∀ found, next found ≠ .error error)
    (h : (if method.returnsValue then
        (Codec.ofOpen registry arguments method.result).map wrap >>= next
      else Except.ok missing >>= next) = .error error) :
    Codec.ofOpen registry arguments method.result = .error error := by
  split at h
  · rcases except_bind_eq_error_iff.mp h with h | ⟨found, _, h⟩
    · exact except_map_eq_error_iff.mp h
    · exact absurd h (hnext found)
  · exact absurd h (hnext missing)

theorem MethodDescription.type_mem_types {parameter : ParameterDescription}
    {p : ParameterDescription → Bool} (h : parameter ∈ method.parameters.filter p) :
    parameter.type ∈ method.types :=
  List.mem_append_left _ (List.mem_map_of_mem (List.mem_of_mem_filter h))

theorem CallPlan.ofOpen_error_of_build (h : CallPlan.build registry method arguments = .error error) :
    ∃ type ∈ method.types, Codec.ofOpen registry arguments type = .error error := by
  rcases except_bind_eq_error_iff.mp h with h | ⟨request, _, h⟩
  · obtain ⟨parameter, hmem, hparameter⟩ := exists_of_mapM_error h
    exact ⟨_, MethodDescription.type_mem_types hmem, hparameter⟩
  · rcases except_bind_eq_error_iff.mp h with h | ⟨response, _, h⟩
    · obtain ⟨parameter, hmem, hparameter⟩ := exists_of_mapM_error h
      exact ⟨_, MethodDescription.type_mem_types hmem, hparameter⟩
    · exact ⟨method.result, List.mem_append_right _ (List.mem_singleton.mpr rfl),
        resultCodec_bind_eq_error (fun _ h => by cases h) h⟩

theorem ConcreteHandler.ofOpen_error_of_positioned {p : ParameterDescription → Bool}
    (h : positioned registry arguments (method.parameters.filter p) = .error error) :
    ∃ type ∈ method.types, Codec.ofOpen registry arguments type = .error error := by
  obtain ⟨parameter, hmem, hparameter⟩ := exists_of_mapM_error h
  refine ⟨_, MethodDescription.type_mem_types hmem, ?_⟩
  rcases except_bind_eq_error_iff.mp hparameter with h | ⟨_, _, h⟩
  · exact h
  · cases h

theorem ConcreteHandler.ofOpen_error_of_build
    (h : ConcreteHandler.build registry path method arguments = .error error) :
    ∃ type ∈ method.types, Codec.ofOpen registry arguments type = .error error := by
  rcases except_bind_eq_error_iff.mp h with h | ⟨request, _, h⟩
  · exact ofOpen_error_of_positioned h
  · rcases except_bind_eq_error_iff.mp h with h | ⟨response, _, h⟩
    · exact ofOpen_error_of_positioned h
    · exact ⟨method.result, List.mem_append_right _ (List.mem_singleton.mpr rfl),
        resultCodec_bind_eq_error (fun _ h => by cases h) h⟩

/-- Every parameter travels one way or the other, so the codecs are for all types of a method; a
result that is not sent needs none, and its type has one. -/
theorem MethodDescription.HasCodecs.exists_ofOpen {request response : List Codec}
    {result : Option Codec} (h : method.HasCodecs registry arguments request response result)
    {type : WireType} (hmem : type ∈ method.types) :
    ∃ codec, Codec.ofOpen registry arguments type = .ok codec := by
  rcases List.mem_append.mp hmem with hmem | hmem
  · obtain ⟨parameter, hparameter, rfl⟩ := List.mem_map.mp hmem
    rcases parameter.mode.isRequest_or_isResponse with hmode | hmode
    · have hrequest : parameter ∈ method.requestParameters :=
        List.mem_filter.mpr ⟨hparameter, hmode⟩
      exact exists_mapM_iff.mp ⟨request, mapM_eq_ok_iff.mpr h.request⟩ parameter hrequest
    · have hresponse : parameter ∈ method.responseParameters :=
        List.mem_filter.mpr ⟨hparameter, hmode⟩
      exact exists_mapM_iff.mp ⟨response, mapM_eq_ok_iff.mpr h.response⟩ parameter hresponse
  · rw [List.mem_singleton.mp hmem]
    have hresult := h.result
    cases result with
    | some codec => exact ⟨codec, hresult.2⟩
    | none =>
      have hunit : method.result = .unit := by simpa [returnsValue] using hresult
      exact ⟨.unit, by rw [hunit]; rfl⟩

namespace MethodDescription.Checked

variable (hchecked : method.Checked) (hcount : arguments.length = method.arity)
  (hargs : ∀ argument ∈ arguments, argument.Encodable)

include hchecked hcount hargs

/-- The client has a plan for type arguments with codecs where the signature alone lets it. -/
theorem exists_plan_iff :
    (∃ plan, CallPlan.build registry method arguments = .ok plan) ↔ method.Covered := by
  constructor
  · rintro ⟨plan, hplan⟩ type hmem
    obtain ⟨_, _, _, hcodecs, _⟩ := CallPlan.build_eq_ok_iff.mp hplan
    exact (hchecked.exists_ofOpen_iff hcount hargs hmem).mp (hcodecs.exists_ofOpen hmem)
  · intro hcovered
    cases hplan : CallPlan.build registry method arguments with
    | ok plan => exact ⟨plan, rfl⟩
    | error error =>
      obtain ⟨type, hmem, herror⟩ := CallPlan.ofOpen_error_of_build hplan
      obtain ⟨codec, hcodec⟩ :=
        (hchecked.exists_ofOpen_iff hcount hargs hmem).mpr (hcovered type hmem)
      rw [herror] at hcodec
      cases hcodec

theorem exists_handler_iff :
    (∃ handler, ConcreteHandler.build registry path method arguments = .ok handler) ↔
      method.Covered := by
  rw [exists_handler_iff_exists_plan, hchecked.exists_plan_iff hcount hargs]

theorem plan_error (h : CallPlan.build registry method arguments = .error error) :
    error = .unsupportedMemberKind .any := by
  obtain ⟨type, hmem, herror⟩ := CallPlan.ofOpen_error_of_build h
  exact hchecked.ofOpen_error hcount hargs hmem herror

theorem handler_error (h : ConcreteHandler.build registry path method arguments = .error error) :
    error = .unsupportedMemberKind .any := by
  obtain ⟨type, hmem, herror⟩ := ConcreteHandler.ofOpen_error_of_build h
  exact hchecked.ofOpen_error hcount hargs hmem herror

end MethodDescription.Checked

end Builders

end Remoting
