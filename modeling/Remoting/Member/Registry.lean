import Remoting.Table
import Remoting.Wire.Error

/-! The members that may travel. A registry is a set kept by declaring type and name, in the order of
first registration, and an identity is good for the one member that it designates. -/

namespace Remoting

/-- Buckets hold these members, each once, with the number of those before it. -/
structure Buckets.Hold (buckets : Table (String × String) (List (Member × Nat)))
    (members : List Member) : Prop where
  nodup : members.Nodup
  bucket : ∀ key, buckets.bucket key = members.zipIdx.filter fun entry => entry.1.key == key

namespace Buckets.Hold

variable {buckets : Table (String × String) (List (Member × Nat))} {members : List Member}
  {member : Member} {slot : Nat}

theorem mem_bucket_iff (h : Hold buckets members) {key : String × String} :
    (member, slot) ∈ buckets.bucket key ↔ members[slot]? = some member ∧ member.key = key := by
  rw [h.bucket, List.mem_filter, List.mem_zipIdx_iff_getElem?, beq_iff_eq]

theorem addTo (h : Hold buckets members) (hnew : member ∉ members) :
    Hold (buckets.addTo member.key (member, members.length)) (members ++ [member]) where
  nodup := by
    rw [List.nodup_append]
    refine ⟨h.nodup, List.pairwise_singleton _ _, fun other hother found hfound => ?_⟩
    rw [List.mem_singleton.mp hfound]
    rintro rfl
    exact hnew hother
  bucket key := by
    rw [Table.bucket_addTo, h.bucket, List.zipIdx_append, List.filter_append]
    by_cases hkey : key = member.key
    · simp [hkey]
    · simp [hkey, Ne.symm hkey]

end Buckets.Hold

/-- Members by declaring type and name, and the number of all of them. A member is known by its
slot, which is the number of those registered before it. -/
structure Registry where
  buckets : Table (String × String) (List (Member × Nat))
  size : Nat
  hold : ∃ members : List Member, Buckets.Hold buckets members ∧ members.length = size

namespace Registry

def empty : Registry := ⟨.empty, 0, [], ⟨.nil, fun _ => rfl⟩, rfl⟩

instance : Inhabited Registry := ⟨empty⟩

def overloads (registry : Registry) (declaring name : String) : List Member :=
  (registry.buckets.bucket (declaring, name)).map (·.1)

/-- The slot of a member, if it is registered. -/
def slot? (registry : Registry) (member : Member) : Option Nat :=
  ((registry.buckets.bucket member.key).find? (·.1 == member)).map (·.2)

/-- The member of a slot. -/
def at? (registry : Registry) (slot : Nat) : Option Member :=
  registry.buckets.keys.findSome? fun key =>
    ((registry.buckets.bucket key).find? (·.2 == slot)).map (·.1)

/-- The members in the order of their registration. -/
def members (registry : Registry) : List Member := (List.range registry.size).filterMap registry.at?

@[simp] theorem members_empty : empty.members = [] := rfl

theorem at?_eq_of_hold {registry : Registry} {members : List Member}
    (h : Buckets.Hold registry.buckets members) (slot : Nat) : registry.at? slot = members[slot]? := by
  cases hat : registry.at? slot with
  | some member =>
    obtain ⟨key, _, hfound⟩ := List.exists_of_findSome?_eq_some hat
    obtain ⟨entry, hentry, rfl⟩ := Option.map_eq_some_iff.mp hfound
    have hslot : entry.2 = slot := by simpa using List.find?_some hentry
    exact (hslot ▸ (h.mem_bucket_iff.mp (List.mem_of_find?_eq_some hentry)).1).symm
  | none =>
    refine (Option.eq_none_iff_forall_ne_some.mpr fun member hmember => ?_).symm
    have hbucket := h.mem_bucket_iff.mpr ⟨hmember, rfl⟩
    have hnone := List.findSome?_eq_none_iff.mp hat member.key (Table.mem_keys_of_mem_bucket hbucket)
    have hother := List.find?_eq_none.mp (Option.map_eq_none_iff.mp hnone) _ hbucket
    simp at hother

theorem filterMap_getElem?_range {α : Type} (items : List α) :
    (List.range items.length).filterMap (fun slot => items[slot]?) = items := by
  induction items with
  | nil => rfl
  | cons item items ih =>
    simpa [List.range_succ_eq_map, List.filterMap_map, Function.comp_def] using ih

theorem members_eq_of_hold {registry : Registry} {members : List Member}
    (h : Buckets.Hold registry.buckets members) (hsize : members.length = registry.size) :
    registry.members = members := by
  rw [Registry.members, ← hsize, funext (at?_eq_of_hold h)]
  exact filterMap_getElem?_range members

section Views

variable (registry : Registry)

/-- The buckets hold the members, and the number of them is kept beside. -/
theorem hold_members : Buckets.Hold registry.buckets registry.members ∧
    registry.members.length = registry.size := by
  obtain ⟨members, hhold, hsize⟩ := registry.hold
  rw [members_eq_of_hold hhold hsize]
  exact ⟨hhold, hsize⟩

theorem length_members : registry.members.length = registry.size := registry.hold_members.2

theorem nodup_members : registry.members.Nodup := registry.hold_members.1.nodup

theorem overloads_eq (declaring name : String) : registry.overloads declaring name =
    registry.members.filter fun member => member.declaring == declaring && member.name == name := by
  have hfst : registry.members = registry.members.zipIdx.map (·.1) := by simp
  rw [overloads, registry.hold_members.1.bucket, hfst, List.filter_map, ← hfst]
  rfl

theorem slot?_eq_some_iff {registry : Registry} {member : Member} {slot : Nat} :
    registry.slot? member = some slot ↔ registry.members[slot]? = some member := by
  have hhold := registry.hold_members.1
  constructor
  · intro h
    obtain ⟨⟨found, place⟩, hfound, rfl⟩ := Option.map_eq_some_iff.mp h
    have hsame : found = member := by simpa using List.find?_some hfound
    exact hsame ▸ (hhold.mem_bucket_iff.mp (List.mem_of_find?_eq_some hfound)).1
  · intro h
    have hbucket := hhold.mem_bucket_iff.mpr ⟨h, rfl⟩
    cases hfind : (registry.buckets.bucket member.key).find? (·.1 == member) with
    | none =>
      have hother := List.find?_eq_none.mp hfind _ hbucket
      simp at hother
    | some entry =>
      obtain ⟨found, place⟩ := entry
      have hsame : found = member := by simpa using List.find?_some hfind
      have hplace := (hhold.mem_bucket_iff.mp (List.mem_of_find?_eq_some hfind)).1
      obtain ⟨hlt, _⟩ := List.getElem?_eq_some_iff.mp hplace
      rw [slot?, hfind]
      exact congrArg some ((List.getElem?_inj hlt hhold.nodup).mp (by rw [hplace, hsame, h]))

theorem slot?_eq_none_iff {registry : Registry} {member : Member} :
    registry.slot? member = none ↔ member ∉ registry.members := by
  simp only [Option.eq_none_iff_forall_ne_some, ne_eq, slot?_eq_some_iff, List.mem_iff_getElem?,
    not_exists]

theorem hold_append {registry : Registry} {member : Member} (h : member ∉ registry.members) :
    Buckets.Hold (registry.buckets.addTo member.key (member, registry.size))
        (registry.members ++ [member]) ∧
      (registry.members ++ [member]).length = registry.size + 1 := by
  rw [← length_members]
  exact ⟨registry.hold_members.1.addTo h, List.length_append⟩

end Views

/-- The slot of a member, and the registry with it. A member that is already there keeps its
slot. -/
def register (registry : Registry) (member : Member) : Nat × Registry :=
  match h : registry.slot? member with
  | some slot => (slot, registry)
  | none =>
    (registry.size, {
      buckets := registry.buckets.addTo member.key (member, registry.size)
      size := registry.size + 1
      hold := ⟨registry.members ++ [member], hold_append (slot?_eq_none_iff.mp h)⟩ })

def insert (registry : Registry) (member : Member) : Registry :=
  (registry.register member).2

def ofList (members : List Member) : Registry :=
  members.foldl insert empty

/-- The overloads of the name that an identity tells which it is meant for. -/
def designated (registry : Registry) (identity : MemberIdentity) : List Member :=
  (registry.overloads identity.declaring identity.name).filter identity.picks

/-- The member that an identity designates, if it is the only one. -/
def resolve (registry : Registry) (identity : MemberIdentity) : Except DecodeError Member :=
  match registry.designated identity with
  | [member] => .ok member
  | others =>
    .error (.memberNotUnique identity.kind identity.declaring identity.name others.length)

/-- No member of another name is designated. -/
theorem designated_eq (registry : Registry) (identity : MemberIdentity) :
    registry.designated identity = registry.members.filter identity.designates := by
  rw [designated, overloads_eq, List.filter_filter]
  refine List.filter_congr fun member _ => ?_
  rw [MemberIdentity.designates, Bool.and_comm]

theorem register_of_mem {registry : Registry} {member : Member} (h : member ∈ registry.members) :
    ∃ slot, registry.members[slot]? = some member ∧ registry.register member = (slot, registry) := by
  unfold register
  split
  · rename_i slot hslot
    exact ⟨slot, slot?_eq_some_iff.mp hslot, rfl⟩
  · rename_i hnone
    exact absurd h (slot?_eq_none_iff.mp hnone)

theorem register_of_notMem {registry : Registry} {member : Member} (h : member ∉ registry.members) :
    (registry.register member).1 = registry.size ∧
      (registry.insert member).members = registry.members ++ [member] := by
  unfold insert register
  split
  · rename_i slot hslot
    exact absurd (List.mem_of_getElem? (slot?_eq_some_iff.mp hslot)) h
  · obtain ⟨hhold, hsize⟩ := hold_append h
    exact ⟨rfl, members_eq_of_hold hhold hsize⟩

theorem mem_insert {registry : Registry} {member other : Member} :
    other ∈ (registry.insert member).members ↔ other ∈ registry.members ∨ other = member := by
  by_cases h : member ∈ registry.members
  · obtain ⟨_, _, hregister⟩ := register_of_mem h
    rw [insert, hregister]
    exact ⟨Or.inl, fun hother => hother.elim id fun heq => heq ▸ h⟩
  · rw [(register_of_notMem h).2, List.mem_append, List.mem_singleton]

end Registry

end Remoting
