import Mathlib
import Remoting.Proofs.ArgumentGates
import Remoting.Proofs.CodecErrors

/-! Which services have codecs throughout. Client and server find out apart, the one for a whole
description and the other path by path, and both by the signatures alone. -/

namespace Remoting

namespace ServiceDescription

variable {description place sub : ServiceDescription} {registry : Registry} {chain : List String}
  {name : String}

theorem WellNamed.subservice?_eq (h : description.WellNamed)
    (hmem : (name, sub) ∈ description.subservices) : description.subservice? name = some sub := by
  obtain ⟨found, hfound⟩ : ∃ found, description.subservice? name = some found := by
    refine Option.ne_none_iff_exists'.mp fun hnone => ?_
    exact subservice?_eq_none_iff.mp hnone _ hmem rfl
  obtain ⟨entry, hentry, rfl⟩ := Option.map_eq_some_iff.mp hfound
  have hname : entry.1 = name := by simpa using List.find?_some hentry
  obtain rfl := List.inj_on_of_nodup_map h.distinctSubservices
    (List.mem_of_find?_eq_some hentry) hmem hname
  exact hfound

/-- Every sub-service can be walked to. -/
theorem descend_cons (h : description.WellNamed) (hmem : (name, sub) ∈ description.subservices)
    (chain : List String) : description.descend (name :: chain) = sub.descend chain := by
  rw [descend, h.subservice?_eq hmem]

theorem Throughout.of_mem {P : ServiceDescription → Prop} (h : description.Throughout P)
    (hnamed : description.WellNamed) (hmem : (name, sub) ∈ description.subservices) :
    sub.Throughout P :=
  fun chain leaf hleaf => h (name :: chain) leaf ((descend_cons hnamed hmem chain).trans hleaf)

end ServiceDescription

/-- A method at the end of some chain that the client cannot compile. -/
def ServiceDescription.Fails (description : ServiceDescription) (registry : Registry)
    (error : CompileError) : Prop :=
  ∃ chain leaf, description.descend chain = .ok leaf ∧ ∃ method ∈ leaf.methods,
    CompiledMethod.compile registry method = .error error

mutual

theorem fails_of_compile (description : ServiceDescription) : ∀ {registry error},
    description.Throughout ServiceDescription.WellNamed →
      description.compile registry = .error error → description.Fails registry error := by
  intro registry error hnamed h
  cases description with
  | mk interface name methods subservices =>
    rcases except_bind_eq_error_iff.mp h with h | ⟨_, _, h⟩
    · exact ⟨[], _, rfl, exists_of_mapM_error h⟩
    rcases except_bind_eq_error_iff.mp h with h | ⟨_, _, h⟩
    -- Names of sub-services are distinct, so the one that failed is where its name leads to.
    · have hown := hnamed [] _ rfl
      obtain ⟨name, sub, hmem, chain, leaf, hleaf, hfails⟩ := fails_of_compileAll subservices
        (fun name sub hmem => hnamed.of_mem hown hmem) h
      have hwalk := ServiceDescription.descend_cons hown hmem chain
      exact ⟨name :: chain, leaf, hwalk.trans hleaf, hfails⟩
    · cases h
termination_by structural description

theorem fails_of_compileAll (subservices : List (String × ServiceDescription)) :
    ∀ {registry error},
      (∀ name sub, (name, sub) ∈ subservices → sub.Throughout ServiceDescription.WellNamed) →
      compileAll registry subservices = .error error →
        ∃ name sub, (name, sub) ∈ subservices ∧ sub.Fails registry error := by
  intro registry error hnamed h
  match subservices with
  | [] => cases h
  | (name, sub) :: others =>
    rcases except_bind_eq_error_iff.mp h with h | ⟨_, _, h⟩
    · have hsub := hnamed name sub List.mem_cons_self
      exact ⟨name, sub, List.mem_cons_self, fails_of_compile sub hsub h⟩
    rcases except_bind_eq_error_iff.mp h with h | ⟨_, _, h⟩
    · obtain ⟨found, other, hmem, hfails⟩ := fails_of_compileAll others
        (fun found other hmem => hnamed found other (List.mem_cons_of_mem _ hmem)) h
      exact ⟨found, other, List.mem_cons_of_mem _ hmem, hfails⟩
    · cases h
termination_by structural subservices

end

namespace CompiledMethod

variable {registry : Registry} {method : MethodDescription}

/-- The check of the style finds nothing, since it was made with the description. -/
theorem compile_of_checked (registry : Registry) (hchecked : method.Checked)
    (hgeneric : method.isGeneric = false) : CompiledMethod.compile registry method =
      match CallPlan.build registry method [] with
      | .error error => .error (.codec method.name error)
      | .ok plan => .ok ⟨method, registry, some plan⟩ := by
  have hvalid : ¬(method.style ≠ .direct ∧ method.responseParameters ≠ []) :=
    fun h => h.2 (hchecked.style.2.2 h.1)
  rw [compile, if_neg hvalid, if_neg (by simp [hgeneric])]
  cases CallPlan.build registry method [] <;> rfl

theorem exists_compile_iff (hchecked : method.Checked) :
    (∃ compiled, CompiledMethod.compile registry method = .ok compiled) ↔
      (method.isGeneric = false → method.Covered) := by
  cases hgeneric : method.isGeneric with
  | true => exact iff_of_true ⟨_, compile_generic registry hchecked hgeneric⟩ (by simp)
  | false =>
    have hplan : (∃ plan, CallPlan.build registry method [] = .ok plan) ↔ method.Covered :=
      hchecked.exists_plan_iff (MethodDescription.length_nil_eq_arity hgeneric) (List.forall_mem_nil _)
    simp only [compile_of_checked registry hchecked hgeneric, true_imp_iff, ← hplan]
    cases CallPlan.build registry method [] <;> simp

theorem compile_error (hchecked : method.Checked) {error : CompileError}
    (h : CompiledMethod.compile registry method = .error error) :
    method.isGeneric = false ∧ ¬method.Covered ∧
      error = .codec method.name (.unsupportedMemberKind .any) := by
  have hfailed : ¬(method.isGeneric = false → method.Covered) := by
    intro hcovered
    obtain ⟨compiled, hcompiled⟩ := (exists_compile_iff hchecked).mpr hcovered
    rw [h] at hcompiled
    cases hcompiled
  obtain ⟨hgeneric, huncovered⟩ := Classical.not_imp.mp hfailed
  rw [compile_of_checked registry hchecked hgeneric] at h
  refine ⟨hgeneric, huncovered, ?_⟩
  cases hplan : CallPlan.build registry method [] with
  | ok plan => simp [hplan] at h
  | error found =>
    rw [hplan] at h
    cases h
    rw [hchecked.plan_error (MethodDescription.length_nil_eq_arity hgeneric) (List.forall_mem_nil _) hplan]

end CompiledMethod

namespace ServiceDescription

variable {description leaf : ServiceDescription} {registry : Registry} {chain : List String}
  {compiled : CompiledService}

/-- With a service all of its sub-services are compiled. -/
theorem exists_compile_of_descend (h : description.compile registry = .ok compiled)
    (hleaf : description.descend chain = .ok leaf) :
    ∃ found, leaf.compile registry = .ok found := by
  induction chain generalizing description compiled with
  | nil =>
    cases hleaf
    exact ⟨compiled, h⟩
  | cons name chain ih =>
    have hrel := subservice?_rel h name
    rw [descend] at hleaf
    cases hsub : description.subservice? name with
    | none => simp [hsub] at hleaf
    | some sub =>
      rw [hsub] at hleaf hrel
      obtain ⟨service, _, hservice⟩ := exists_of_some_rel hrel
      exact ih hservice hleaf

/-- A service is compiled where each of its methods is, at any depth. -/
theorem exists_compile_iff (hnamed : description.Throughout WellNamed) :
    (∃ compiled, description.compile registry = .ok compiled) ↔
      description.Everywhere fun method =>
        ∃ compiled, CompiledMethod.compile registry method = .ok compiled := by
  constructor
  · rintro ⟨compiled, h⟩ chain leaf hleaf
    obtain ⟨found, hfound⟩ := exists_compile_of_descend h hleaf
    obtain ⟨_, hmethods, _⟩ := compile_eq_ok hfound
    exact exists_mapM_iff.mp ⟨_, mapM_eq_ok_iff.mpr hmethods⟩
  · intro hall
    cases h : description.compile registry with
    | ok compiled => exact ⟨compiled, rfl⟩
    | error error =>
      obtain ⟨chain, leaf, hleaf, method, hmem, hfails⟩ := fails_of_compile description hnamed h
      obtain ⟨compiled, hcompiled⟩ := hall chain leaf hleaf method hmem
      rw [hfails] at hcompiled
      cases hcompiled

/-- No method that is not generic mentions members of any kind. -/
def CoveredThroughout (description : ServiceDescription) : Prop :=
  description.Everywhere fun method => method.isGeneric = false → method.Covered

end ServiceDescription

section Builders

variable {registry : Registry} {description : ServiceDescription}

theorem ProxyBuilder.exists_compile_iff
    (hchecked : description.Everywhere MethodDescription.Checked)
    (hnamed : description.Throughout ServiceDescription.WellNamed) :
    (∃ builder, ProxyBuilder.compile registry description = .ok builder) ↔
      description.CoveredThroughout := by
  have hbuilder : (∃ builder, ProxyBuilder.compile registry description = .ok builder) ↔
      ∃ compiled, description.compile registry = .ok compiled := by
    unfold ProxyBuilder.compile
    cases description.compile registry with
    | ok compiled => exact iff_of_true ⟨_, rfl⟩ ⟨_, rfl⟩
    | error error => exact iff_of_false (by simp) (by simp)
  rw [hbuilder, ServiceDescription.exists_compile_iff hnamed]
  refine forall₃_congr fun chain leaf hleaf => forall₂_congr fun method hmem => ?_
  exact CompiledMethod.exists_compile_iff (hchecked chain leaf hleaf method hmem)

/-- A client fails to compile a service for a method whose own types have no codecs. -/
theorem ProxyBuilder.compile_error (hchecked : description.Everywhere MethodDescription.Checked)
    (hnamed : description.Throughout ServiceDescription.WellNamed) {error : CompileError}
    (h : ProxyBuilder.compile registry description = .error error) :
    ∃ chain leaf, description.descend chain = .ok leaf ∧ ∃ method ∈ leaf.methods,
      method.isGeneric = false ∧ ¬method.Covered ∧
        error = .codec method.name (.unsupportedMemberKind .any) := by
  have hcompile : description.compile registry = .error error := by
    rcases except_bind_eq_error_iff.mp h with h | ⟨_, _, h⟩
    · exact h
    · cases h
  obtain ⟨chain, leaf, hleaf, method, hmem, hfails⟩ := fails_of_compile description hnamed hcompile
  exact ⟨chain, leaf, hleaf, method, hmem,
    CompiledMethod.compile_error (hchecked chain leaf hleaf method hmem) hfails⟩

variable {path : ServicePath} {place : ServiceDescription} {method : MethodDescription}

theorem Handler.exists_create_iff_covered (hchecked : method.Checked)
    (hresolve : description.resolve path = .ok (place, method)) :
    (∃ handler, Handler.create registry description path = .ok handler) ↔
      (method.isGeneric = false → method.Covered) := by
  rw [Handler.exists_create_iff registry hresolve]
  refine imp_congr_right fun hgeneric => ?_
  have harity := MethodDescription.length_nil_eq_arity hgeneric
  exact hchecked.exists_handler_iff harity (List.forall_mem_nil _)

theorem Handler.codecError_of_create (hchecked : description.Everywhere MethodDescription.Checked)
    {error : CodecError} (h : Handler.create registry description path = .error (.codec error)) :
    error = .unsupportedMemberKind .any := by
  cases hresolve : description.resolve path with
  | error missing =>
    rw [Handler.create_of_unresolved registry hresolve] at h
    cases h
  | ok found =>
    obtain ⟨place, method⟩ := found
    obtain ⟨_, hplace, hmethod⟩ := ServiceDescription.resolve_eq_ok_iff.mp hresolve
    have hmethod := hchecked _ _ hplace method (List.mem_of_find?_eq_some hmethod)
    cases hgeneric : method.isGeneric with
    | true =>
      rw [Handler.create_of_generic registry hresolve hgeneric] at h
      cases h
    | false =>
      rw [Handler.create_of_concrete registry hresolve hgeneric] at h
      cases hbuild : ConcreteHandler.build registry path method [] with
      | ok handler => simp [hbuild] at h
      | error found =>
        rw [hbuild] at h
        cases h
        have harity := MethodDescription.length_nil_eq_arity hgeneric
        exact hmethod.handler_error harity (List.forall_mem_nil _) hbuild

end Builders

/-- Client and server have codecs for the same services and the same type arguments, and both find
nothing to lack one but members of any kind. -/
theorem codecs_lack_any_members_only {shape : InterfaceShape} {description : ServiceDescription}
    (hshape : shape.describe = .ok description) (client server : Registry) :
    ((∃ builder, ProxyBuilder.compile client description = .ok builder) ↔
      description.CoveredThroughout) ∧
    ((∀ chain place, description.descend chain = .ok place → ∀ method ∈ place.methods,
      ∃ path handler, ServicePath.ofMethod (description.name :: chain) method.name = .ok path ∧
        Handler.create server description path = .ok handler) ↔ description.CoveredThroughout) ∧
    (∀ error, ProxyBuilder.compile client description = .error error →
      ∃ chain place, description.descend chain = .ok place ∧ ∃ method ∈ place.methods,
        method.isGeneric = false ∧ ¬method.Covered ∧
          error = .codec method.name (.unsupportedMemberKind .any)) ∧
    (∀ path error, Handler.create server description path = .error (.codec error) →
      error = .unsupportedMemberKind .any) ∧
    description.Everywhere fun method => ∀ registry arguments, arguments.length = method.arity →
      (∀ type ∈ arguments, ∃ codec, Codec.ofType registry type = .ok codec) →
      ((∃ plan, CallPlan.build client method arguments = .ok plan) ↔ method.Covered) ∧
      (∀ path, (∃ handler, ConcreteHandler.build server path method arguments = .ok handler) ↔
        method.Covered) ∧
      (∀ error, CallPlan.build client method arguments = .error error →
        error = .unsupportedMemberKind .any) ∧
      ∀ path error, ConcreteHandler.build server path method arguments = .error error →
        error = .unsupportedMemberKind .any := by
  have hchecked := checked_of_describeWithin shape hshape
  have hnamed := wellNamed_of_describeWithin shape hshape
  refine ⟨ProxyBuilder.exists_compile_iff hchecked hnamed, ?_,
    fun error => ProxyBuilder.compile_error hchecked hnamed,
    fun path error => Handler.codecError_of_create hchecked, ?_⟩
  · refine forall₃_congr fun chain place hplace => forall₂_congr fun method hmem => ?_
    have hmethod := (hnamed chain place hplace).method?_eq hmem
    obtain ⟨path, hpath, hresolve, _⟩ := ServiceDescription.exists_path hnamed hplace hmethod
    have hcreate : (∃ handler, Handler.create server description path = .ok handler) ↔
        (method.isGeneric = false → method.Covered) :=
      Handler.exists_create_iff_covered (hchecked chain place hplace method hmem) hresolve
    refine Iff.trans ?_ hcreate
    constructor
    · rintro ⟨other, handler, hother, hcreated⟩
      rw [hpath] at hother
      cases hother
      exact ⟨handler, hcreated⟩
    · rintro ⟨handler, hcreated⟩
      exact ⟨path, handler, hpath, hcreated⟩
  · intro chain place hplace method hmem registry arguments hcount hcodecs
    have hmethod := hchecked chain place hplace method hmem
    have hargs : ∀ type ∈ arguments, type.Encodable := fun type htype =>
      WireType.exists_ofType_iff.mp (hcodecs type htype)
    exact ⟨hmethod.exists_plan_iff hcount hargs, fun path => hmethod.exists_handler_iff hcount hargs,
      fun error => hmethod.plan_error hcount hargs,
      fun path error => hmethod.handler_error hcount hargs⟩

namespace Archive

def lookup : MethodDescription :=
  ⟨"Lookup", .array (.member .any), [⟨"key", .generic 0, .byValue, 0⟩], ["T"], .direct⟩

def first : MethodDescription := ⟨"First", .member .any, [], [], .direct⟩

def index : ServiceDescription := ⟨"IIndex", "Index", [lookup, first], []⟩

/-- Two methods that give out members of any kind, one of them generic. -/
def shape : InterfaceShape :=
  .mk "IArchive" [] [.service "index" (.mk "IIndex"
    [⟨"Lookup", .array (.member .any), ["T"], [⟨"key", .generic 0, .byValue⟩]⟩,
      ⟨"First", .member .any, [], []⟩] []) false]

def description : ServiceDescription := ⟨"IArchive", "Archive", [], [("index", index)]⟩

/-- The archive has no codecs on either side, while those of the market are complete. -/
theorem index_lacks_codecs :
    (shape.describe = .ok description ∧
      (∀ builder, ProxyBuilder.compile .empty description ≠ .ok builder) ∧
      (∀ plan, CallPlan.build .empty lookup [.text] ≠ .ok plan) ∧
      ∀ path handler, ConcreteHandler.build .empty path lookup [.text] ≠ .ok handler) ∧
    Market.shape.describe = .ok Market.description ∧
      (∃ builder, ProxyBuilder.compile .empty Market.description = .ok builder) ∧
      ∃ path handler, ServicePath.ofMethod ["Market", "stall"] "Swap" = .ok path ∧
        Handler.create .empty Market.description path = .ok handler := by
  have hshape : shape.describe = .ok description := rfl
  have hmarket : Market.shape.describe = .ok Market.description := rfl
  have hplace : description.descend ["index"] = .ok index := rfl
  obtain ⟨hcompile, _, _, _, hgeneric⟩ := codecs_lack_any_members_only hshape .empty .empty
  obtain ⟨hcovered, hcreate, _⟩ := codecs_lack_any_members_only hmarket .empty .empty
  have hfirst : ¬first.Covered := by decide
  have huncovered : ¬description.CoveredThroughout := fun h =>
    hfirst (h ["index"] index hplace first (by decide) rfl)
  have hlookup : ¬lookup.Covered := by decide
  obtain ⟨hplan, hhandler, _⟩ := hgeneric ["index"] index hplace lookup (by decide) .empty [.text]
    rfl fun type hmem => by rw [List.mem_singleton.mp hmem]; exact ⟨.text, rfl⟩
  have hbuilt : ∃ builder, ProxyBuilder.compile .empty Market.description = .ok builder :=
    ⟨Market.builder, rfl⟩
  refine ⟨⟨hshape, fun builder h => huncovered (hcompile.mp ⟨builder, h⟩),
    fun plan h => hlookup (hplan.mp ⟨plan, h⟩),
    fun path handler h => hlookup ((hhandler path).mp ⟨handler, h⟩)⟩, hmarket, hbuilt, ?_⟩
  exact hcreate.mpr (hcovered.mp hbuilt) ["stall"] Market.stall rfl Market.swap (by decide)

end Archive

end Remoting
