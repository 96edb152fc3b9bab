import Mathlib
import Remoting.Proofs.KeptEntries

/-! Tables that keep the first success of each key. What is made for a key that is known already is
not looked at, and a failure leaves nothing behind. -/

namespace Remoting

namespace Table

variable {κ ε α β : Type} [DecidableEq κ]

/-- What is found under a key or else has been made for it, and the table afterwards. -/
def keep (table : Table κ α) (key : κ) (made : Except ε α) :
    Except ε (Nat × α) × Table κ α :=
  match table.find? key with
  | some found => (.ok found, table)
  | none =>
    match made with
    | .error error => (.error error, table)
    | .ok value => (.ok (table.size, value), table.push key value)

/-- The table after attempts one after the other, each a key and what is made for it. -/
def keepAll (table : Table κ α) (attempts : List (κ × Except ε α)) : Table κ α :=
  attempts.foldl (fun table attempt => (table.keep attempt.1 attempt.2).2) table

/-- The first of the attempts at a key that is a success. -/
def firstSuccess (attempts : List (κ × Except ε α)) (key : κ) : Option α :=
  attempts.findSome? fun attempt => if attempt.1 = key then attempt.2.toOption else none

variable {table : Table κ α} {key other : κ} {made : Except ε α} {found : Nat × α}
  {attempts : List (κ × Except ε α)}

section Keep

theorem keep_of_find? (h : table.find? key = some found) (made : Except ε α) :
    table.keep key made = (.ok found, table) := by
  unfold keep
  rw [h]

theorem keep_error (h : table.find? key = none) (error : ε) :
    table.keep key (.error error) = (.error error, table) := by
  rw [keep, h]

theorem keep_ok (h : table.find? key = none) (value : α) :
    table.keep key (.ok value : Except ε α) =
      (.ok (table.size, value), table.push key value) := by
  rw [keep, h]

/-- A key is found, nothing can be made for it, or what has been made is added. -/
theorem keep_cases (table : Table κ α) (key : κ) (made : Except ε α) :
    (∃ found, table.find? key = some found ∧ table.keep key made = (.ok found, table)) ∨
      table.find? key = none ∧
        ((∃ error, made = .error error ∧ table.keep key made = (.error error, table)) ∨
          ∃ value, made = .ok value ∧
            table.keep key made = (.ok (table.size, value), table.push key value)) := by
  cases hfind : table.find? key with
  | some found => exact .inl ⟨found, rfl, keep_of_find? hfind made⟩
  | none =>
    refine .inr ⟨rfl, ?_⟩
    cases made with
    | error error => exact .inl ⟨error, rfl, keep_error hfind error⟩
    | ok value => exact .inr ⟨value, rfl, keep_ok hfind value⟩

/-- The table stays as it is, or what has been made for a new key is added. -/
theorem keep_table_cases (table : Table κ α) (key : κ) (made : Except ε α) :
    (table.keep key made).2 = table ∨
      table.find? key = none ∧ ∃ value, (table.keep key made).2 = table.push key value := by
  rcases table.keep_cases key made with ⟨_, _, hkeep⟩ | ⟨hnone, hmade⟩
  · exact .inl (congrArg Prod.snd hkeep)
  · rcases hmade with ⟨_, _, hkeep⟩ | ⟨value, _, hkeep⟩
    · exact .inl (congrArg Prod.snd hkeep)
    · exact .inr ⟨hnone, value, congrArg Prod.snd hkeep⟩

theorem keep_eq_error_iff {error : ε} :
    (table.keep key made).1 = .error error ↔ table.find? key = none ∧ made = .error error := by
  constructor
  · intro h
    rcases table.keep_cases key made with ⟨_, _, hkeep⟩ | ⟨hnone, hmade⟩
    · rw [hkeep] at h
      cases h
    · rcases hmade with ⟨_, rfl, hkeep⟩ | ⟨_, _, hkeep⟩ <;> rw [hkeep] at h <;> cases h
      exact ⟨hnone, rfl⟩
  · rintro ⟨hnone, rfl⟩
    rw [keep_error hnone]

theorem eq_of_keep_error {error : ε} (h : (table.keep key made).1 = .error error) :
    (table.keep key made).2 = table := by
  obtain ⟨hnone, rfl⟩ := keep_eq_error_iff.mp h
  rw [keep_error hnone]

theorem find?_keep_of_find? (h : table.find? other = some found) (key : κ) (made : Except ε α) :
    (table.keep key made).2.find? other = some found := by
  rcases table.keep_table_cases key made with hkeep | ⟨_, value, hkeep⟩ <;> rw [hkeep]
  · exact h
  · exact find?_push_of_find? h key value

theorem find?_keep_of_ne (h : other ≠ key) (made : Except ε α) :
    (table.keep key made).2.find? other = table.find? other := by
  rcases table.keep_table_cases key made with hkeep | ⟨_, value, hkeep⟩ <;> rw [hkeep]
  exact find?_push_of_ne h value

theorem nodup_keys_keep (h : table.keys.Nodup) (key : κ) (made : Except ε α) :
    (table.keep key made).2.keys.Nodup := by
  rcases table.keep_table_cases key made with hkeep | ⟨hnone, value, hkeep⟩ <;> rw [hkeep]
  · exact h
  · exact nodup_keys_push h hnone value

/-- The answer to an attempt is what is found under its key afterwards. -/
theorem find?_of_keep (h : (table.keep key made).1 = .ok found) :
    (table.keep key made).2.find? key = some found := by
  rcases table.keep_cases key made with ⟨_, hfind, hkeep⟩ | ⟨hnone, hmade⟩
  · rw [hkeep] at h ⊢
    cases h
    exact hfind
  · rcases hmade with ⟨_, _, hkeep⟩ | ⟨value, _, hkeep⟩ <;> rw [hkeep] at h ⊢ <;> cases h
    exact find?_push_self hnone value

/-- Where nothing was found under the key, there is now what has been made. -/
theorem map_find?_keep_self (table : Table κ α) (key : κ) (made : Except ε α) :
    ((table.keep key made).2.find? key).map (·.2) =
      ((table.find? key).map (·.2)).or made.toOption := by
  rcases table.keep_cases key made with ⟨_, hfind, hkeep⟩ | ⟨hnone, hmade⟩
  · rw [hkeep, hfind]
    rfl
  · rcases hmade with ⟨_, rfl, hkeep⟩ | ⟨value, rfl, hkeep⟩
    · rw [hkeep, hnone]
      rfl
    · rw [hkeep, hnone, find?_push_self hnone]
      rfl

theorem map_find?_keep (table : Table κ α) (key : κ) (made : Except ε α) (other : κ) :
    ((table.keep key made).2.find? other).map (·.2) =
      ((table.find? other).map (·.2)).or (if key = other then made.toOption else none) := by
  by_cases hkey : key = other
  · rw [if_pos hkey, ← hkey]
    exact table.map_find?_keep_self key made
  · rw [if_neg hkey, Option.or_none, find?_keep_of_ne (Ne.symm hkey)]

end Keep

section KeepAll

theorem keepAll_append (table : Table κ α) (attempts later : List (κ × Except ε α)) :
    table.keepAll (attempts ++ later) = (table.keepAll attempts).keepAll later :=
  List.foldl_append

theorem find?_keepAll_of_find? (h : table.find? key = some found)
    (attempts : List (κ × Except ε α)) : (table.keepAll attempts).find? key = some found := by
  induction attempts generalizing table with
  | nil => exact h
  | cons attempt attempts ih => exact ih (find?_keep_of_find? h attempt.1 attempt.2)

/-- A key stands for its first success. -/
theorem map_find?_keepAll (attempts : List (κ × Except ε α)) (key : κ) :
    ((empty.keepAll attempts).find? key).map (·.2) = firstSuccess attempts key := by
  induction attempts using List.reverseRecOn with
  | nil => rfl
  | append_singleton attempts attempt ih =>
    rw [keepAll_append, firstSuccess, List.findSome?_append, ← firstSuccess, ← ih,
      List.findSome?_singleton]
    exact map_find?_keep _ attempt.1 attempt.2 key

theorem nodup_keys_keepAll (attempts : List (κ × Except ε α)) :
    (empty.keepAll attempts : Table κ α).keys.Nodup := by
  induction attempts using List.reverseRecOn with
  | nil => exact List.nodup_nil
  | append_singleton attempts attempt ih =>
    rw [keepAll_append]
    exact nodup_keys_keep ih attempt.1 attempt.2

theorem mem_keys_keepAll :
    key ∈ (empty.keepAll attempts).keys ↔ ∃ value, (key, .ok value) ∈ attempts := by
  rw [← not_iff_not, ← find?_eq_none_iff, ← Option.map_eq_none_iff, map_find?_keepAll, firstSuccess,
    List.findSome?_eq_none_iff]
  constructor
  · rintro h ⟨value, hmem⟩
    simpa [Except.toOption] using h _ hmem
  · rintro h ⟨other, made⟩ hmem
    cases made with
    | error error => exact ite_self none
    | ok value =>
      refine if_neg fun hsame => h ⟨value, ?_⟩
      exact hsame ▸ hmem

theorem size_keepAll (attempts : List (κ × Except ε α)) :
    (empty.keepAll attempts).size = {key | ∃ value, (key, .ok value) ∈ attempts}.ncard := by
  rw [size_eq_ncard (nodup_keys_keepAll attempts)]
  exact congrArg Set.ncard (Set.ext fun key => mem_keys_keepAll)

end KeepAll

section Map

/-- The same table with its values seen otherwise. -/
def map (f : α → β) (table : Table κ α) : Table κ β :=
  ⟨table.entries.map fun entry => (entry.1, f entry.2)⟩

omit [DecidableEq κ] in
theorem size_map (f : α → β) (table : Table κ α) : (table.map f).size = table.size :=
  List.length_map _

omit [DecidableEq κ] in
theorem map_push (f : α → β) (table : Table κ α) (key : κ) (value : α) :
    (table.push key value).map f = (table.map f).push key (f value) := by
  simp [map, push]

omit [DecidableEq κ] in
/-- What is put into a slot does not show where it is not told from what was there. -/
theorem map_put {f : α → β} {slot : Nat} {former value : α}
    (h : table.entries[slot]?.map (·.2) = some former) (hsame : f value = f former) :
    (table.put slot value).map f = table.map f := by
  obtain ⟨entry, hentry, rfl⟩ := Option.map_eq_some_iff.mp h
  rw [map, map, put]
  refine congrArg _ (List.ext_getElem? fun i => ?_)
  rw [List.getElem?_map, List.getElem?_map, List.getElem?_modify]
  by_cases hi : slot = i
  · subst hi
    rw [hentry]
    simp [hsame]
  · simp [hi]

theorem find?_map (f : α → β) (table : Table κ α) (key : κ) :
    (table.map f).find? key = (table.find? key).map fun found => (found.1, f found.2) := by
  have hindex : (table.map f).entries.findIdx? (fun entry => decide (entry.1 = key)) =
      table.entries.findIdx? fun entry => decide (entry.1 = key) := by
    rw [map, List.findIdx?_map]
    rfl
  rw [find?, find?, hindex]
  cases table.entries.findIdx? fun entry => decide (entry.1 = key) with
  | none => rfl
  | some slot =>
    simp only [map, List.getElem?_map, Option.map_map]
    rfl

/-- Keeping does not look at the values. -/
theorem map_keep (f : α → β) (table : Table κ α) (key : κ) (made : Except ε α) :
    (table.map f).keep key (made.map f) =
      ((table.keep key made).1.map fun found => (found.1, f found.2),
        (table.keep key made).2.map f) := by
  rcases table.keep_cases key made with ⟨found, hfind, hkeep⟩ | ⟨hnone, hmade⟩
  · have hfind' : (table.map f).find? key = some (found.1, f found.2) := by
      rw [find?_map, hfind]
      rfl
    rw [hkeep, keep_of_find? hfind']
    rfl
  · have hnone' : (table.map f).find? key = none := by
      rw [find?_map, hnone]
      rfl
    rcases hmade with ⟨error, rfl, hkeep⟩ | ⟨value, rfl, hkeep⟩
    · rw [hkeep]
      exact keep_error hnone' error
    · rw [hkeep, map_push, ← size_map f table]
      exact keep_ok hnone' (f value)

end Map

end Table

end Remoting
