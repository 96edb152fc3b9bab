import Mathlib
import Remoting.Proofs.MemberResolution

/-! What a registry is after any registrations: the members that were registered, each once and in
the order in which they came first. What a query finds does not depend on that order. -/

namespace Remoting

namespace MemberIdentity

instance (identity : MemberIdentity) : DecidablePred identity.Describes := fun member =>
  decidable_of_iff (identity.designates member = true) designates_iff

/-- Without generic arguments an identity tells all that there is to a callable member. -/
theorem Describes.unique {identity : MemberIdentity} {member other : Member}
    (hcall : identity.kind.isCallable = true) (hplain : identity.arguments = [])
    (h : identity.Describes member) (hother : identity.Describes other) : other = member := by
  have hopen : ∀ found, identity.Describes found →
      found.arity = identity.arity ∧ found.parameters = identity.parameters := by
    intro found hfound
    obtain ⟨harity, hparameters⟩ := hfound.signature hcall
    rw [Member.parametersUnder, if_pos hplain, Option.some.injEq] at hparameters
    exact ⟨harity, hparameters⟩
  have hkind := h.kind.trans hother.kind.symm
  have hdeclaring := h.declaring.trans hother.declaring.symm
  have hname := h.name.trans hother.name.symm
  have harity := (hopen member h).1.trans (hopen other hother).1.symm
  have hparameters := (hopen member h).2.trans (hopen other hother).2.symm
  cases member
  cases other
  simp_all

end MemberIdentity

namespace Registry

variable {registry : Registry} {members others : List Member} {member : Member}
  {identity : MemberIdentity}

/-- A member has the slot at which it is found, or the next one if it is not. -/
theorem register_eq (registry : Registry) (member : Member) :
    registry.register member = (registry.members.idxOf member, registry.insert member) := by
  have hslot : (registry.register member).1 = registry.members.idxOf member := by
    by_cases hmem : member ∈ registry.members
    · obtain ⟨slot, hslot, hregister⟩ := register_of_mem hmem
      obtain ⟨hlt, rfl⟩ := List.getElem?_eq_some_iff.mp hslot
      rw [hregister, registry.nodup_members.idxOf_getElem slot hlt]
    · rw [(register_of_notMem hmem).1, ← length_members, List.idxOf_eq_length_iff.mpr hmem]
  rw [← hslot]
  rfl

theorem insert_of_mem (h : member ∈ registry.members) : registry.insert member = registry := by
  obtain ⟨_, _, hregister⟩ := register_of_mem h
  rw [insert, hregister]

theorem ofList_append_singleton (members : List Member) (member : Member) :
    ofList (members ++ [member]) = (ofList members).insert member := by
  simp [ofList]

theorem members_ofList (members : List Member) : (ofList members).members = members.eraseDups := by
  induction members using List.reverseRecOn with
  | nil => rfl
  | append_singleton members member ih =>
    rw [ofList_append_singleton, List.eraseDups_append]
    by_cases hmem : member ∈ members
    · have hregistered : member ∈ (ofList members).members := mem_ofList.mpr hmem
      rw [insert_of_mem hregistered, ih]
      simp [List.removeAll, hmem]
    · have hnew : member ∉ (ofList members).members := fun h => hmem (mem_ofList.mp h)
      rw [(register_of_notMem hnew).2, ih]
      simp [List.removeAll, hmem, List.eraseDups_cons]

theorem size_ofList (members : List Member) : (ofList members).size = members.toFinset.card := by
  have hsame : (ofList members).members.toFinset = members.toFinset := by
    ext member
    simp [mem_ofList]
  rw [← length_members, ← hsame, List.toFinset_card_of_nodup (nodup_members _)]

/-- A member keeps its slot, whatever is registered after it. -/
theorem register_again (before : List Member) (member : Member) (after : List Member) :
    (ofList (before ++ member :: after)).register member =
      (((ofList before).register member).1, ofList (before ++ member :: after)) := by
  have hmem : member ∈ (ofList (before ++ member :: after)).members :=
    mem_ofList.mpr (List.mem_append_right before List.mem_cons_self)
  rw [register_eq, register_eq, insert_of_mem hmem, members_ofList, members_ofList,
    List.eraseDups_append]
  by_cases hbefore : member ∈ before
  · rw [List.idxOf_append_of_mem (List.mem_eraseDups.mpr hbefore)]
  · have hnew : member ∉ before.eraseDups := fun h => hbefore (List.mem_eraseDups.mp h)
    have hfirst : (member :: after).removeAll before = member :: after.removeAll before := by
      simp [List.removeAll, hbefore]
    rw [List.idxOf_append_of_notMem hnew, hfirst, List.eraseDups_cons, List.idxOf_cons_self,
      List.idxOf_eq_length_iff.mpr hnew, Nat.add_zero]

/-- Of the members that were registered, those that a query is for. -/
def matching (members : List Member) (identity : MemberIdentity) : Finset Member :=
  members.toFinset.filter identity.Describes

theorem mem_matching : member ∈ matching members identity ↔
    member ∈ members ∧ identity.Describes member := by
  simp [matching]

theorem matching_eq_of_mem_iff (h : ∀ member, member ∈ others ↔ member ∈ members)
    (identity : MemberIdentity) : matching others identity = matching members identity := by
  ext member
  rw [mem_matching, mem_matching, h member]

theorem length_designated (members : List Member) (identity : MemberIdentity) :
    ((ofList members).designated identity).length = (matching members identity).card := by
  have hsame : ((ofList members).designated identity).toFinset = matching members identity := by
    ext member
    rw [List.mem_toFinset, mem_designated_iff, mem_ofList, mem_matching]
  have hnodup : ((ofList members).designated identity).Nodup := by
    rw [designated_eq]
    exact (nodup_members _).filter _
  rw [← hsame, List.toFinset_card_of_nodup hnodup]

theorem resolve_ofList_eq_ok_iff :
    (ofList members).resolve identity = .ok member ↔ matching members identity = {member} := by
  rw [resolve_eq_ok_iff, designated_eq_singleton_iff, Finset.eq_singleton_iff_unique_mem]
  simp only [mem_ofList, mem_matching, and_imp]

theorem resolve_ofList_eq_error_iff {error : DecodeError} :
    (ofList members).resolve identity = .error error ↔ (matching members identity).card ≠ 1 ∧
      error = .memberNotUnique identity.kind identity.declaring identity.name
        (matching members identity).card := by
  rw [← length_designated, resolve]
  split
  · rename_i found hfound
    simp [hfound]
  · rename_i hmany
    have hcount : ((ofList members).designated identity).length ≠ 1 := by
      intro hone
      obtain ⟨found, hfound⟩ := List.length_eq_one_iff.mp hone
      exact hmany found hfound
    rw [and_iff_right hcount, Except.error.injEq, eq_comm]

theorem resolve_eq_of_mem_iff (h : ∀ member, member ∈ others ↔ member ∈ members)
    (identity : MemberIdentity) :
    (ofList others).resolve identity = (ofList members).resolve identity := by
  have hsame := matching_eq_of_mem_iff h identity
  cases hresolve : (ofList members).resolve identity with
  | ok member => rw [resolve_ofList_eq_ok_iff, hsame, resolve_ofList_eq_ok_iff.mp hresolve]
  | error error =>
    rw [resolve_ofList_eq_error_iff, hsame]
    exact resolve_ofList_eq_error_iff.mp hresolve

theorem card_matching_le_one (members : List Member) (hcall : identity.kind.isCallable = true)
    (hplain : identity.arguments = []) : (matching members identity).card ≤ 1 := by
  rw [Finset.card_le_one]
  intro member hmember other hother
  exact (mem_matching.mp hother).2.unique hcall hplain (mem_matching.mp hmember).2

/-- A registry after any registrations is what the set of the members registered makes it. -/
theorem registry_is_the_set_of_its_members (members : List Member) :
    (ofList members).size = members.toFinset.card ∧
    (∀ declaring name, (ofList members).overloads declaring name =
      members.eraseDups.filter fun member => member.declaring == declaring && member.name == name) ∧
    (∀ before member after, members = before ++ member :: after →
      (ofList members).register member =
        (((ofList before).register member).1, ofList members) ∧
      (ofList members).members[((ofList before).register member).1]? = some member) ∧
    (∀ identity member, (ofList members).resolve identity = .ok member ↔
      matching members identity = {member}) ∧
    (∀ identity error, (ofList members).resolve identity = .error error ↔
      (matching members identity).card ≠ 1 ∧
        error = .memberNotUnique identity.kind identity.declaring identity.name
          (matching members identity).card) ∧
    (∀ others, (∀ member, member ∈ others ↔ member ∈ members) → ∀ identity,
      (ofList others).resolve identity = (ofList members).resolve identity) ∧
    ∀ identity, identity.kind.isCallable = true → identity.arguments = [] →
      (∃ member, (ofList members).resolve identity = .ok member) ∨
        (ofList members).resolve identity =
          .error (.memberNotUnique identity.kind identity.declaring identity.name 0) := by
  refine ⟨size_ofList members, fun declaring name => ?_, ?_, fun _ _ => resolve_ofList_eq_ok_iff,
    fun _ _ => resolve_ofList_eq_error_iff, fun _ => resolve_eq_of_mem_iff,
    fun identity hcall hplain => ?_⟩
  · rw [overloads_eq, members_ofList]
  · rintro before member after rfl
    have hagain := register_again before member after
    have hslot := congrArg Prod.fst hagain
    rw [register_eq] at hslot
    refine ⟨hagain, ?_⟩
    rw [← hslot]
    exact List.getElem?_idxOf (mem_ofList.mpr (List.mem_append_right before List.mem_cons_self))
  · cases hresolve : (ofList members).resolve identity with
    | ok member => exact .inl ⟨member, rfl⟩
    | error error =>
      obtain ⟨hone, rfl⟩ := resolve_ofList_eq_error_iff.mp hresolve
      have hle := card_matching_le_one members hcall hplain
      have hzero : (matching members identity).card = 0 := by omega
      exact .inr (by rw [hzero])

/-- The overloads, and the first of them once more. -/
def overloadsTwice : List Member := [Codec.openOverload, Codec.textOverload, Codec.openOverload]

/-- Under a text a query matches both overloads, in whatever order they came, and one without
arguments no more than one. -/
theorem overloads_registered_again :
    (ofList overloadsTwice).size = 2 ∧
    (ofList overloadsTwice).register Codec.textOverload = (1, ofList overloadsTwice) ∧
    (∀ identity, (ofList [Codec.textOverload, Codec.openOverload]).resolve identity =
      (ofList overloadsTwice).resolve identity) ∧
    (ofList overloadsTwice).resolve ⟨.method, "D", "f", 1, [.text], [.text]⟩ =
      .error (.memberNotUnique .method "D" "f" 2) ∧
    ((∃ member, (ofList overloadsTwice).resolve ⟨.method, "D", "f", 1, [], [.text]⟩ = .ok member) ∨
      (ofList overloadsTwice).resolve ⟨.method, "D", "f", 1, [], [.text]⟩ =
        .error (.memberNotUnique .method "D" "f" 0)) := by
  obtain ⟨hsize, _, hagain, _, herror, horder, hplain⟩ :=
    registry_is_the_set_of_its_members overloadsTwice
  refine ⟨hsize.trans (by decide), ?_, horder _ fun member => ?_, (herror _ _).mpr (by decide),
    hplain _ rfl rfl⟩
  · exact (hagain [Codec.openOverload] Codec.textOverload [Codec.openOverload] rfl).1
  · simp only [overloadsTwice, List.mem_cons, List.not_mem_nil, or_false]
    tauto

end Registry

end Remoting
