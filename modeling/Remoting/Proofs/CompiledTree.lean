import Mathlib
import Remoting.Client.Builder
import Remoting.Proofs.Fallible

/-! A compiled service has the shape of its description: what one finds below a chain of names, the
other finds there too. -/

namespace Remoting

theorem CompiledMethod.compile_eq_ok {registry : Registry} {method : MethodDescription}
    {compiled : CompiledMethod} (h : CompiledMethod.compile registry method = .ok compiled) :
    compiled.description = method ∧ compiled.registry = registry ∧
      (method.style ≠ .direct → method.responseParameters = []) ∧
      match compiled.concrete with
      | none => method.isGeneric = true
      | some plan => method.isGeneric = false ∧ CallPlan.build registry method [] = .ok plan := by
  simp only [CompiledMethod.compile, check_eq_ok_iff] at h
  obtain ⟨hresponse, h⟩ := h
  have hasync : method.style ≠ .direct → method.responseParameters = [] :=
    fun hstyle => not_not.mp fun hne => hresponse ⟨hstyle, hne⟩
  by_cases hgeneric : method.isGeneric = true
  · rw [if_pos hgeneric] at h
    cases h
    exact ⟨rfl, rfl, hasync, hgeneric⟩
  · rw [if_neg hgeneric] at h
    cases hplan : CallPlan.build registry method [] with
    | error error =>
      simp only [hplan] at h
      cases h
    | ok plan =>
      simp only [hplan] at h
      cases h
      exact ⟨rfl, rfl, hasync, by simpa using hgeneric, rfl⟩

theorem compileAll_eq_ok {registry : Registry} {subservices : List (String × ServiceDescription)}
    {compiled : List (String × CompiledService)} (h : compileAll registry subservices = .ok compiled) :
    List.Forall₂ (fun sub found => found.1 = sub.1 ∧ sub.2.compile registry = .ok found.2)
      subservices compiled := by
  induction subservices generalizing compiled with
  | nil =>
    cases h
    exact .nil
  | cons sub others ih =>
    simp only [compileAll, except_bind_eq_ok_iff] at h
    obtain ⟨service, hservice, rest, hrest, h⟩ := h
    cases h
    exact .cons ⟨rfl, hservice⟩ (ih hrest)

namespace ServiceDescription

variable {registry : Registry} {description : ServiceDescription} {compiled : CompiledService}

theorem compile_eq_ok (h : description.compile registry = .ok compiled) :
    compiled.name = description.name ∧
      List.Forall₂ (fun method found => CompiledMethod.compile registry method = .ok found)
        description.methods compiled.methods ∧
      List.Forall₂ (fun sub found => found.1 = sub.1 ∧ sub.2.compile registry = .ok found.2)
        description.subservices compiled.subservices := by
  cases description with
  | mk interface name methods subservices =>
    simp only [compile, except_bind_eq_ok_iff, mapM_eq_ok_iff] at h
    obtain ⟨_, hmethods, _, hsub, h⟩ := h
    cases h
    exact ⟨rfl, hmethods, compileAll_eq_ok hsub⟩

theorem method?_rel (h : description.compile registry = .ok compiled) (name : String) :
    Option.Rel (fun method found => CompiledMethod.compile registry method = .ok found)
      (description.method? name) (compiled.method? name) := by
  obtain ⟨_, hmethods, _⟩ := compile_eq_ok h
  refine find?_rel hmethods fun method found hfound => ?_
  rw [(CompiledMethod.compile_eq_ok hfound).1]

theorem subservice?_rel (h : description.compile registry = .ok compiled) (name : String) :
    Option.Rel (fun sub found => sub.compile registry = .ok found)
      (description.subservice? name) (compiled.subservice? name) := by
  obtain ⟨_, _, hsub⟩ := compile_eq_ok h
  have hrel := find?_rel (p := fun sub => sub.1 == name) (q := fun found => found.1 == name) hsub
    fun sub found hfound => by rw [hfound.1]
  unfold subservice? CompiledService.subservice?
  generalize description.subservices.find? _ = sub at hrel ⊢
  generalize compiled.subservices.find? _ = found at hrel ⊢
  cases hrel with
  | none => exact .none
  | some hfound => exact .some hfound.2

end ServiceDescription

/-- The node at the end of a chain is that of the service there; it keeps its root's scope and
timeout. -/
theorem ProxyNode.descend?_rel {registry : Registry} {description : ServiceDescription}
    {node : ProxyNode} (h : description.compile registry = .ok node.service) (chain : List String) :
    Option.Rel (fun leaf below => leaf.compile registry = .ok below.service ∧
        below = { node with service := below.service, place := node.place ++ chain })
      (description.descend chain).toOption (node.descend? chain) := by
  induction chain generalizing description node with
  | nil => exact .some ⟨h, by simp⟩
  | cons name chain ih =>
    have hrel := ServiceDescription.subservice?_rel h name
    simp only [ServiceDescription.descend, descend?, subservice?]
    generalize description.subservice? name = sub at hrel ⊢
    generalize node.service.subservice? name = compiled at hrel ⊢
    cases hrel with
    | none => exact .none
    | @some sub service hservice =>
      have hbelow := @ih sub { node with service, place := node.place ++ [name] } hservice
      simp only [List.append_assoc, List.singleton_append] at hbelow
      exact hbelow

end Remoting
