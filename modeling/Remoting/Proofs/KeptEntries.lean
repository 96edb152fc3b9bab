import Mathlib
import Remoting.Table

/-! Tables as they grow in the course of a history. No key has two slots and no slot two keys, so a
slot stands for its key and the size of a table is the number of its keys. -/

namespace Remoting

/-- What happened at some step of a history happened before its last step or at that step. -/
theorem exists_step_append_singleton_iff {α : Type} {history : List α} {last : α}
    {happens : List α → α → Prop} :
    (∃ before step behind, history ++ [last] = before ++ step :: behind ∧ happens before step) ↔
      (∃ before step behind, history = before ++ step :: behind ∧ happens before step) ∨
        happens history last := by
  constructor
  · rintro ⟨before, step, behind, hsplit, h⟩
    cases behind using List.reverseRecOn with
    | nil =>
      obtain ⟨rfl, hsame⟩ := List.append_inj' hsplit rfl
      cases hsame
      exact .inr h
    | append_singleton behind other =>
      rw [← List.cons_append, ← List.append_assoc] at hsplit
      obtain ⟨rfl, _⟩ := List.append_inj' hsplit rfl
      exact .inl ⟨before, step, behind, rfl, h⟩
  · rintro (⟨before, step, behind, rfl, h⟩ | h)
    · exact ⟨before, step, behind ++ [last], by simp, h⟩
    · exact ⟨history, last, [], rfl, h⟩

theorem not_exists_step_nil {α : Type} {happens : List α → α → Prop} :
    ¬∃ before step behind, [] = before ++ step :: behind ∧ happens before step := by
  rintro ⟨before, step, behind, hsplit, _⟩
  simp at hsplit

theorem ncard_setOf_mem {α : Type} {items : List α} (h : items.Nodup) :
    {item | item ∈ items}.ncard = items.length := by
  classical
  have hset : {item | item ∈ items} = (items.toFinset : Set α) := by
    ext item
    simp
  rw [hset, Set.ncard_coe_finset, List.toFinset_card_of_nodup h]

namespace Table

variable {κ α : Type} {table : Table κ α}

theorem exists_find?_of_mem_keys [DecidableEq κ] {key : κ} (h : key ∈ table.keys) :
    ∃ found, table.find? key = some found := by
  refine Option.ne_none_iff_exists'.mp fun hnone => ?_
  exact find?_eq_none_iff.mp hnone h

theorem mem_keys_of_find? [DecidableEq κ] {key : κ} {found : Nat × α}
    (h : table.find? key = some found) : key ∈ table.keys :=
  List.mem_map_of_mem (mem_of_find? h)

theorem nodup_keys_push [DecidableEq κ] {key : κ} (h : table.keys.Nodup)
    (hnone : table.find? key = none) (value : α) : (table.push key value).keys.Nodup := by
  rw [keys_push, ← List.concat_eq_append]
  exact h.concat (find?_eq_none_iff.mp hnone)

theorem size_eq_ncard (h : table.keys.Nodup) : table.size = {key | key ∈ table.keys}.ncard := by
  rw [ncard_setOf_mem h, size, keys, List.length_map]

end Table

end Remoting
