import Mathlib

/-! When fallible computations succeed: each of their parts does, one after the other. -/

namespace Remoting

variable {ε α β : Type}

theorem except_bind_eq_ok_iff {first : Except ε α} {next : α → Except ε β} {result : β} :
    first >>= next = .ok result ↔ ∃ found, first = .ok found ∧ next found = .ok result := by
  cases first with
  | error error => exact iff_of_false nofun nofun
  | ok found => exact ⟨fun h => ⟨found, rfl, h⟩, fun ⟨_, hf, h⟩ => by cases hf; exact h⟩

theorem except_map_eq_ok_iff {first : Except ε α} {f : α → β} {result : β} :
    first.map f = .ok result ↔ ∃ found, first = .ok found ∧ f found = result := by
  cases first with
  | error error => exact iff_of_false nofun nofun
  | ok found => simp [Except.map]

theorem except_bind_eq_error_iff {first : Except ε α} {next : α → Except ε β} {error : ε} :
    first >>= next = .error error ↔
      first = .error error ∨ ∃ found, first = .ok found ∧ next found = .error error := by
  cases first with
  | error other =>
    constructor
    · intro h
      cases h
      exact .inl rfl
    · rintro (h | ⟨_, h, _⟩)
      · cases h
        rfl
      · cases h
  | ok found =>
    constructor
    · exact fun h => .inr ⟨found, rfl, h⟩
    · rintro (h | ⟨_, hfound, h⟩)
      · cases h
      · cases hfound
        exact h

theorem except_map_eq_error_iff {first : Except ε α} {f : α → β} {error : ε} :
    first.map f = .error error ↔ first = .error error := by
  cases first <;> simp [Except.map]

theorem check_eq_ok_iff {bad : Prop} [Decidable bad] {error : ε} {after : α → Except ε β}
    {rest : Except ε β} {result : β} :
    (if bad then throw error >>= after else rest) = .ok result ↔ ¬bad ∧ rest = .ok result := by
  by_cases h : bad
  · rw [if_pos h]
    exact iff_of_false nofun fun hrest => hrest.1 h
  · rw [if_neg h]
    exact ⟨fun hrest => ⟨h, hrest⟩, fun hrest => hrest.2⟩

theorem mapM_eq_ok_iff {f : α → Except ε β} {items : List α} {results : List β} :
    items.mapM f = .ok results ↔
      List.Forall₂ (fun item result => f item = .ok result) items results := by
  induction items generalizing results with
  | nil => cases results <;> simp [pure, Except.pure]
  | cons item items ih =>
    rw [List.mapM_cons, except_bind_eq_ok_iff]
    constructor
    · intro h
      obtain ⟨result, hresult, h⟩ := h
      obtain ⟨others, hothers, h⟩ := except_bind_eq_ok_iff.mp h
      cases h
      exact .cons hresult (ih.mp hothers)
    · intro h
      cases h with
      | cons hresult hothers =>
        exact ⟨_, hresult, except_bind_eq_ok_iff.mpr ⟨_, ih.mpr hothers, rfl⟩⟩

theorem mapM_eq_some_iff {f : α → Option β} {items : List α} {results : List β} :
    items.mapM f = some results ↔
      List.Forall₂ (fun item result => f item = some result) items results := by
  induction items generalizing results with
  | nil => cases results <;> simp
  | cons item items ih =>
    simp only [List.mapM_cons, Option.bind_eq_bind, Option.bind_eq_some_iff, ih,
      List.forall₂_cons_left_iff]
    constructor
    · intro h
      obtain ⟨result, hresult, others, hothers, h⟩ := h
      exact ⟨result, others, hresult, hothers, (Option.some.inj h).symm⟩
    · intro h
      obtain ⟨result, others, hresult, hothers, rfl⟩ := h
      exact ⟨result, hresult, others, hothers, rfl⟩

theorem exists_mapM_iff {f : α → Except ε β} {items : List α} :
    (∃ results, items.mapM f = .ok results) ↔ ∀ item ∈ items, ∃ result, f item = .ok result := by
  simp only [mapM_eq_ok_iff]
  induction items with
  | nil => simp
  | cons item items ih =>
    simp only [List.forall₂_cons_left_iff, List.forall_mem_cons, ← ih]
    constructor
    · intro h
      obtain ⟨_, result, others, hresult, hothers, rfl⟩ := h
      exact ⟨⟨result, hresult⟩, others, hothers⟩
    · intro h
      obtain ⟨⟨result, hresult⟩, others, hothers⟩ := h
      exact ⟨_, result, others, hresult, hothers, rfl⟩

/-- A traversal that fails has failed at one of the items. -/
theorem exists_of_mapM_error {f : α → Except ε β} {items : List α} {error : ε}
    (h : items.mapM f = .error error) : ∃ item ∈ items, f item = .error error := by
  induction items with
  | nil => cases h
  | cons item items ih =>
    rw [List.mapM_cons, except_bind_eq_error_iff] at h
    rcases h with h | ⟨result, _, h⟩
    · exact ⟨item, List.mem_cons_self, h⟩
    · rcases except_bind_eq_error_iff.mp h with h | ⟨_, _, h⟩
      · obtain ⟨other, hmem, hother⟩ := ih h
        exact ⟨other, List.mem_cons_of_mem item hmem, hother⟩
      · cases h

theorem exists_of_mem_mapM {f : α → Except ε β} {items : List α} {results : List β} {result : β}
    (h : items.mapM f = .ok results) (hmem : result ∈ results) :
    ∃ item ∈ items, f item = .ok result := by
  obtain ⟨i, hi, rfl⟩ := List.mem_iff_getElem.mp hmem
  have hall := mapM_eq_ok_iff.mp h
  have hlen : i < items.length := hall.length_eq ▸ hi
  exact ⟨items[i], List.getElem_mem hlen, hall.get hlen hi⟩

theorem find?_rel {R : α → β → Prop} {p : α → Bool} {q : β → Bool} {items : List α}
    {others : List β} (h : List.Forall₂ R items others)
    (hpq : ∀ item other, R item other → p item = q other) :
    Option.Rel R (items.find? p) (others.find? q) := by
  induction h with
  | nil => exact .none
  | @cons item other items others hfirst _ ih =>
    have hsame := hpq item other hfirst
    cases hq : q other with
    | true =>
      rw [List.find?_cons_of_pos (hsame.trans hq), List.find?_cons_of_pos hq]
      exact .some hfirst
    | false =>
      rw [List.find?_cons_of_neg (by simp [hsame, hq]), List.find?_cons_of_neg (by simp [hq])]
      exact ih

theorem exists_of_rel_some {R : α → β → Prop} {found : Option α} {other : β}
    (h : Option.Rel R found (some other)) : ∃ item, found = some item ∧ R item other := by
  cases h with
  | some hitem => exact ⟨_, rfl, hitem⟩

theorem exists_of_some_rel {R : α → β → Prop} {item : α} {found : Option β}
    (h : Option.Rel R (some item) found) : ∃ other, found = some other ∧ R item other := by
  cases h with
  | some hother => exact ⟨_, rfl, hother⟩

theorem toOption_eq_some_iff {computed : Except ε α} {result : α} :
    computed.toOption = some result ↔ computed = .ok result := by
  cases computed <;> simp [Except.toOption]

end Remoting
