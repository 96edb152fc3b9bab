/-! Insertion-ordered tables in which the first entry of a key stays. They back every cache of
the library: an entry is known by its slot, and a slot never changes hands. -/

namespace Remoting

structure Table (κ α : Type) where
  entries : List (κ × α)
deriving Inhabited

namespace Table

variable {κ α : Type}

def empty : Table κ α := ⟨[]⟩

def size (table : Table κ α) : Nat := table.entries.length

def keys (table : Table κ α) : List κ := table.entries.map (·.1)

def find? [DecidableEq κ] (table : Table κ α) (key : κ) : Option (Nat × α) :=
  match table.entries.findIdx? (fun entry => entry.1 = key) with
  | none => none
  | some slot => table.entries[slot]?.map fun entry => (slot, entry.2)

/-- A new last entry; its slot is the former size. -/
def push (table : Table κ α) (key : κ) (value : α) : Table κ α :=
  ⟨table.entries ++ [(key, value)]⟩

/-- The value of a slot is replaced, its key stays. -/
def put (table : Table κ α) (slot : Nat) (value : α) : Table κ α :=
  ⟨table.entries.modify slot fun entry => (entry.1, value)⟩

@[simp] theorem size_empty : (empty : Table κ α).size = 0 := rfl

@[simp] theorem keys_push (table : Table κ α) (key : κ) (value : α) :
    (table.push key value).keys = table.keys ++ [key] := by
  simp [keys, push]

@[simp] theorem size_push (table : Table κ α) (key : κ) (value : α) :
    (table.push key value).size = table.size + 1 := by
  simp [size, push]

@[simp] theorem keys_put (table : Table κ α) (slot : Nat) (value : α) :
    (table.put slot value).keys = table.keys := by
  simp only [keys, put]
  apply List.ext_getElem (by simp)
  intro i _ _
  simp only [List.getElem_map, List.getElem_modify]
  split <;> rfl

@[simp] theorem size_put (table : Table κ α) (slot : Nat) (value : α) :
    (table.put slot value).size = table.size := by
  simp [size, put]

theorem find?_eq_none_iff [DecidableEq κ] {table : Table κ α} {key : κ} :
    table.find? key = none ↔ key ∉ table.keys := by
  unfold find? keys
  constructor
  · intro h hmem
    obtain ⟨entry, hentry, rfl⟩ := List.mem_map.mp hmem
    split at h
    · rename_i hnone
      have := List.findIdx?_eq_none_iff.mp hnone entry hentry
      simp at this
    · rename_i slot hslot
      obtain ⟨hlt, _⟩ := List.findIdx?_eq_some_iff_getElem.mp hslot
      simp [List.getElem?_eq_getElem hlt] at h
  · intro h
    have hnone : table.entries.findIdx? (fun entry => decide (entry.1 = key)) = none := by
      rw [List.findIdx?_eq_none_iff]
      intro entry hentry
      simp only [decide_eq_false_iff_not]
      rintro rfl
      exact h (List.mem_map.mpr ⟨entry, hentry, rfl⟩)
    simp [hnone]

theorem map_snd_find? [DecidableEq κ] (table : Table κ α) (key : κ) :
    (table.find? key).map (·.2) = (table.entries.find? fun entry => entry.1 = key).map (·.2) := by
  rw [List.find?_eq_bind_findIdx?_getElem?, find?]
  cases table.entries.findIdx? fun entry => decide (entry.1 = key) with
  | none => rfl
  | some slot => simp [Option.map_map, Function.comp_def]

theorem getElem?_of_find? [DecidableEq κ] {table : Table κ α} {key : κ} {slot : Nat} {value : α}
    (h : table.find? key = some (slot, value)) : table.entries[slot]? = some (key, value) := by
  unfold find? at h
  split at h
  · cases h
  · rename_i found hfound
    obtain ⟨hlt, hkey, _⟩ := List.findIdx?_eq_some_iff_getElem.mp hfound
    obtain ⟨entry, hentry, he⟩ := Option.map_eq_some_iff.mp h
    cases he
    rw [List.getElem?_eq_getElem hlt, Option.some.injEq] at hentry
    have hfirst : table.entries[slot].1 = key := by simpa using hkey
    rw [List.getElem?_eq_getElem hlt, ← hfirst, ← hentry]

theorem mem_of_find? [DecidableEq κ] {table : Table κ α} {key : κ} {slot : Nat} {value : α}
    (h : table.find? key = some (slot, value)) : (key, value) ∈ table.entries :=
  List.mem_of_getElem? (getElem?_of_find? h)

/-- Two entries of a table are in the same slot exactly if they are of the same key. -/
theorem slot_eq_iff [DecidableEq κ] {table : Table κ α} {key other : κ} {slot place : Nat}
    {value former : α} (h : table.find? key = some (slot, value))
    (h' : table.find? other = some (place, former)) : slot = place ↔ key = other := by
  constructor
  · rintro rfl
    have hsame := (getElem?_of_find? h).symm.trans (getElem?_of_find? h')
    exact congrArg Prod.fst (Option.some.inj hsame)
  · rintro rfl
    have hsame := h.symm.trans h'
    exact congrArg Prod.fst (Option.some.inj hsame)

theorem findIdx?_of_find? [DecidableEq κ] {table : Table κ α} {key : κ} {slot : Nat} {value : α}
    (h : table.find? key = some (slot, value)) :
    table.entries.findIdx? (fun entry => decide (entry.1 = key)) = some slot := by
  unfold find? at h
  split at h
  · cases h
  · rename_i place hplace
    obtain ⟨entry, _, he⟩ := Option.map_eq_some_iff.mp h
    cases he
    exact hplace

theorem find?_push_of_find? [DecidableEq κ] {table : Table κ α} {key : κ} {found : Nat × α}
    (h : table.find? key = some found) (other : κ) (value : α) :
    (table.push other value).find? key = some found := by
  obtain ⟨slot, former⟩ := found
  have hentry := getElem?_of_find? h
  obtain ⟨hlt, _⟩ := List.getElem?_eq_some_iff.mp hentry
  have hpush : (table.push other value).entries.findIdx? (fun entry => decide (entry.1 = key)) =
      some slot := by
    simp [push, List.findIdx?_append, findIdx?_of_find? h]
  simp only [find?, hpush]
  rw [push, List.getElem?_append_left hlt, hentry]
  rfl

theorem find?_push_self [DecidableEq κ] {table : Table κ α} {key : κ} (h : table.find? key = none)
    (value : α) : (table.push key value).find? key = some (table.size, value) := by
  have hnone : table.entries.findIdx? (fun entry => decide (entry.1 = key)) = none := by
    rw [List.findIdx?_eq_none_iff]
    intro entry hentry
    simp only [decide_eq_false_iff_not]
    rintro rfl
    exact find?_eq_none_iff.mp h (List.mem_map_of_mem hentry)
  simp [find?, push, List.findIdx?_append, hnone, size]

/-- A value put into a slot is found under the key of the slot, and no other key is affected. -/
theorem find?_put_of_find? [DecidableEq κ] {table : Table κ α} {key : κ} {slot : Nat} {value : α}
    (h : table.find? key = some (slot, value)) (place : Nat) (other : α) :
    (table.put place other).find? key = some (slot, if place = slot then other else value) := by
  obtain ⟨hlt, hkey, hbefore⟩ := List.findIdx?_eq_some_iff_getElem.mp (findIdx?_of_find? h)
  have hput : (table.put place other).entries.findIdx? (fun entry => decide (entry.1 = key)) =
      some slot := by
    rw [List.findIdx?_eq_some_iff_getElem]
    refine ⟨by simpa [put] using hlt, ?_, fun i hi => ?_⟩
    · simp only [put, List.getElem_modify]
      split <;> exact hkey
    · have hother := hbefore i hi
      simp only [put, List.getElem_modify]
      split <;> exact hother
  simp only [find?, hput]
  rw [put, List.getElem?_modify, getElem?_of_find? h]
  by_cases hplace : place = slot <;> simp [hplace]

theorem find?_put_eq_none_iff [DecidableEq κ] {table : Table κ α} {key : κ} {slot : Nat}
    {value : α} : (table.put slot value).find? key = none ↔ table.find? key = none := by
  rw [find?_eq_none_iff, keys_put, ← find?_eq_none_iff]

theorem find?_push_of_ne [DecidableEq κ] {table : Table κ α} {key other : κ} (h : other ≠ key)
    (value : α) : (table.push key value).find? other = table.find? other := by
  cases hfind : table.find? other with
  | some found => exact find?_push_of_find? hfind key value
  | none =>
    rw [find?_eq_none_iff] at hfind ⊢
    rw [keys_push, List.mem_append, List.mem_singleton, not_or]
    exact ⟨hfind, h⟩

theorem mem_push {table : Table κ α} {key : κ} {value : α} {entry : κ × α} :
    entry ∈ (table.push key value).entries ↔ entry ∈ table.entries ∨ entry = (key, value) := by
  simp [push]

theorem mem_of_mem_put {table : Table κ α} {slot : Nat} {value : α} {entry : κ × α}
    (h : entry ∈ (table.put slot value).entries) :
    entry ∈ table.entries ∨
      ∃ former, table.entries[slot]? = some (entry.1, former) ∧ entry.2 = value := by
  obtain ⟨i, hi, rfl⟩ := List.mem_iff_getElem.mp h
  have hlt : i < table.entries.length := by simpa [put] using hi
  by_cases hslot : slot = i
  · subst hslot
    right
    refine ⟨table.entries[slot].2, ?_, ?_⟩ <;> simp [put, hlt]
  · left
    have hsame : (table.put slot value).entries[i] = table.entries[i] := by
      simp [put, hslot]
    rw [hsame]
    exact List.getElem_mem hlt

section Buckets

variable [DecidableEq κ]

/-- The items under a key of a table of buckets. A key without a bucket has none. -/
def bucket (table : Table κ (List α)) (key : κ) : List α :=
  match table.find? key with
  | some (_, items) => items
  | none => []

/-- The table with an item put behind those of its key. -/
def addTo (table : Table κ (List α)) (key : κ) (item : α) : Table κ (List α) :=
  match table.find? key with
  | some (slot, items) => table.put slot (items ++ [item])
  | none => table.push key [item]

theorem mem_keys_of_mem_bucket {table : Table κ (List α)} {key : κ} {item : α}
    (h : item ∈ table.bucket key) : key ∈ table.keys := by
  unfold bucket at h
  split at h
  · rename_i found hfound
    exact List.mem_map_of_mem (mem_of_find? hfound)
  · cases h

theorem bucket_push {table : Table κ (List α)} {key : κ} (h : table.find? key = none)
    (items : List α) (other : κ) :
    (table.push key items).bucket other = if other = key then items else table.bucket other := by
  by_cases hother : other = key
  · subst hother
    rw [bucket, find?_push_self h, if_pos rfl]
  · rw [bucket, find?_push_of_ne hother, if_neg hother, bucket]

theorem bucket_put {table : Table κ (List α)} {key : κ} {slot : Nat} {former : List α}
    (h : table.find? key = some (slot, former)) (items : List α) (other : κ) :
    (table.put slot items).bucket other = if other = key then items else table.bucket other := by
  cases hfind : table.find? other with
  | none =>
    have hne : other ≠ key := by
      rintro rfl
      rw [hfind] at h
      cases h
    rw [bucket, find?_put_eq_none_iff.mpr hfind, if_neg hne, bucket, hfind]
  | some found =>
    obtain ⟨place, others⟩ := found
    have hslot : slot = place ↔ key = other := slot_eq_iff h hfind
    simp only [bucket, find?_put_of_find? hfind slot items, hfind, hslot, eq_comm]

theorem bucket_addTo (table : Table κ (List α)) (key : κ) (item : α) (other : κ) :
    (table.addTo key item).bucket other =
      table.bucket other ++ if other = key then [item] else [] := by
  unfold addTo
  split
  · rename_i slot items hkey
    rw [bucket_put hkey]
    by_cases hother : other = key
    · subst hother
      simp [bucket, hkey]
    · simp [hother]
  · rename_i hkey
    rw [bucket_push hkey]
    by_cases hother : other = key
    · subst hother
      simp [bucket, hkey]
    · simp [hother]

end Buckets

end Table

end Remoting
