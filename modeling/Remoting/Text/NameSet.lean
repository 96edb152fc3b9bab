/-! Sets of names. A set is the tree of the characters of its names, so that a name is looked up by
going through its own characters and not through the other names. -/

namespace Remoting

/-- The ways on from a place in a name: its end, or a character and the ways on behind it. -/
inductive NameSet
  | empty
  | stop (beside : NameSet)
  | letter (c : Char) (below beside : NameSet)

namespace NameSet

def behind? (c : Char) : List Char → Option (List Char)
  | [] => none
  | first :: rest => if first = c then some rest else none

def contains : NameSet → List Char → Bool
  | empty, _ => false
  | stop beside, name => name.isEmpty || beside.contains name
  | letter c below beside, name =>
    match behind? c name with
    | some rest => below.contains rest
    | none => beside.contains name

def single : List Char → NameSet
  | [] => stop empty
  | first :: rest => letter first (single rest) empty

def insert : NameSet → List Char → NameSet
  | empty, name => single name
  | stop beside, name => if name.isEmpty then stop beside else stop (beside.insert name)
  | letter c below beside, name =>
    match behind? c name with
    | some rest => letter c (below.insert rest) beside
    | none => letter c below (beside.insert name)

theorem behind?_eq_some_iff {c : Char} {name rest : List Char} :
    behind? c name = some rest ↔ name = c :: rest := by
  cases name with
  | nil => simp [behind?]
  | cons first others => by_cases hfirst : first = c <;> simp [behind?, hfirst]

theorem contains_single {name other : List Char} :
    (single name).contains other = true ↔ other = name := by
  induction name generalizing other with
  | nil => simp [single, contains]
  | cons first rest ih =>
    rw [single, contains]
    cases hbehind : behind? first other with
    | some others =>
      obtain rfl := behind?_eq_some_iff.mp hbehind
      simp [ih]
    | none =>
      refine iff_of_false nofun fun hother => ?_
      rw [behind?_eq_some_iff.mpr hother] at hbehind
      cases hbehind

theorem contains_insert {set : NameSet} {name other : List Char} :
    (set.insert name).contains other = true ↔ other = name ∨ set.contains other = true := by
  induction set generalizing name other with
  | empty => simp [insert, contains_single, contains]
  | stop beside ih =>
    by_cases hname : name = []
    · simp [insert, contains, hname]
    · simp only [insert, contains, List.isEmpty_iff, hname, if_false, Bool.or_eq_true, ih]
      exact or_left_comm
  | letter c below beside hbelow hbeside =>
    -- Both names are behind the character, or only one of them, or none.
    cases hname : behind? c name with
    | some rest =>
      obtain rfl := behind?_eq_some_iff.mp hname
      cases hother : behind? c other with
      | some others =>
        obtain rfl := behind?_eq_some_iff.mp hother
        simp [insert, contains, hname, hother, hbelow]
      | none =>
        have hne : other ≠ c :: rest := by
          rintro rfl
          rw [hname] at hother
          cases hother
        simp [insert, contains, hname, hother, hne]
    | none =>
      cases hother : behind? c other with
      | some others =>
        have hne : other ≠ name := by
          rintro rfl
          rw [hname] at hother
          cases hother
        simp [insert, contains, hname, hother, hne]
      | none => simp [insert, contains, hname, hother, hbeside]

end NameSet

end Remoting
