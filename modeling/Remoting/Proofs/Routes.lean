import Mathlib
import Remoting.Proofs.DescribedNames
import Remoting.Proofs.LoopbackAgreement
import Remoting.Proofs.PathText

/-! The routes through a described service. The nodes of a client lead where the paths of the server
lead, and a path that leads nowhere is told from its first segment that names nothing. -/

namespace Remoting

section Maps

variable {α : Type} {entries : List (String × α)}

end Maps

namespace ServicePath

theorem ofMethod_eq_ok_iff {root name : String} {chain : List String} {path : ServicePath} :
    ofMethod (root :: chain) name = .ok path ↔
      path.root = root ∧ path.chain = chain ∧ path.method = name := by
  refine ⟨ofMethod_eq_ok, fun h => ?_⟩
  obtain ⟨rfl, rfl, rfl⟩ := h
  exact ofSegments_eq_ok_iff.mpr rfl

theorem exists_ofMethod {root name : String} {chain : List String}
    (h : ∀ segment ∈ root :: (chain ++ [name]), segment ≠ "") :
    ∃ path, ofMethod (root :: chain) name = .ok path :=
  ⟨⟨root, chain, name, h⟩, ofMethod_eq_ok_iff.mpr ⟨rfl, rfl, rfl⟩⟩

end ServicePath

namespace ServiceDescription

variable {description place : ServiceDescription} {path : ServicePath}

theorem subservice?_eq_none_iff {name : String} :
    description.subservice? name = none ↔ ∀ sub ∈ description.subservices, sub.1 ≠ name := by
  simp [subservice?]

theorem method?_eq_none_iff {name : String} :
    description.method? name = none ↔ ∀ method ∈ description.methods, method.name ≠ name := by
  simp [method?]

theorem resolve_eq_ok_iff {method : MethodDescription} :
    description.resolve path = .ok (place, method) ↔ path.root = description.name ∧
      description.descend path.chain = .ok place ∧ place.method? path.method = some method := by
  refine ⟨fun h => ?_, fun ⟨hroot, hplace, hmethod⟩ => resolve_eq_ok hroot hplace hmethod⟩
  unfold resolve at h
  split at h
  · cases h
  · rename_i hroot
    split at h
    · cases h
    · rename_i leaf hleaf
      split at h
      · cases h
      · rename_i found hfound
        cases h
        exact ⟨not_not.mp hroot, hleaf, hfound⟩

theorem WellNamed.method?_eq (h : place.WellNamed) {method : MethodDescription}
    (hmem : method ∈ place.methods) : place.method? method.name = some method := by
  obtain ⟨found, hfound⟩ : ∃ found, place.method? method.name = some found := by
    refine Option.ne_none_iff_exists'.mp fun hnone => ?_
    exact method?_eq_none_iff.mp hnone method hmem rfl
  have hlisted := List.mem_of_find?_eq_some hfound
  obtain rfl := List.inj_on_of_nodup_map h.distinctMethods hlisted hmem (name_of_method? hfound)
  exact hfound

/-- Every method of a described service has a path, whose segments are identifiers. -/
theorem exists_path (h : description.Throughout WellNamed) {chain : List String} {name : String}
    (hplace : description.descend chain = .ok place) {method : MethodDescription}
    (hmethod : place.method? name = some method) :
    ∃ path, ServicePath.ofMethod (description.name :: chain) name = .ok path ∧
      description.resolve path = .ok (place, method) ∧
      ∀ segment ∈ path.segments, isIdentifier segment = true := by
  have hidentifiers : ∀ segment ∈ description.name :: (chain ++ [name]),
      isIdentifier segment = true := by
    refine List.forall_mem_cons.mpr ⟨(h [] description rfl).name, fun segment hmem => ?_⟩
    rcases List.mem_append.mp hmem with hmem | hmem
    · exact isIdentifier_of_descend h hplace segment hmem
    · rw [List.mem_singleton.mp hmem]
      exact (h chain place hplace).method? hmethod
  obtain ⟨path, hpath⟩ := ServicePath.exists_ofMethod fun segment hmem =>
    ne_empty_of_isIdentifier (hidentifiers segment hmem)
  obtain ⟨hroot, rfl, rfl⟩ := ServicePath.ofMethod_eq_ok hpath
  refine ⟨path, hpath, resolve_eq_ok_iff.mpr ⟨hroot, hplace, hmethod⟩, fun segment hmem => ?_⟩
  rw [ServicePath.segments, hroot] at hmem
  exact hidentifiers segment hmem

end ServiceDescription

namespace CompiledMethod

variable {compiled : CompiledMethod} {place : List String} {arguments : List WireType}
  {specializations after : Specializations} {error : CallerError}

end CompiledMethod

section Nodes

variable {registry : Registry} {description leaf : ServiceDescription} {builder : ProxyBuilder}
  {node : ProxyNode} {chain : List String} {name : String}

end Nodes

end Remoting
