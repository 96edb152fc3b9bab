import Mathlib
import Remoting.Proofs.WireFormat

/-! Every decoder of the catalogue accepts exactly the spellings of its codec, under either bounds
and whatever follows. -/

namespace Remoting

namespace Format

def witnessAfter (layers : Nat) (b : UInt8) : Format WireType := fun type bytes =>
  type.depth ≤ layers ∧ b :: bytes = type.witnessBytes

theorem witnessAfter_iff {layers : Nat} {tag : TypeTag} {type : WireType} {bytes : Bytes} :
    witnessAfter layers tag.byte type bytes ↔
      type.tag = tag ∧ type.depth ≤ layers ∧ tag.byte :: bytes = type.witnessBytes := by
  refine ⟨fun h => ⟨?_, h⟩, fun h => h.2⟩
  have hb : tag.byte = type.tag.byte := by
    have h := h.2
    cases type <;> simp only [WireType.witnessBytes, List.cons.injEq] at h <;> exact h.1
  have ht := congrArg TypeTag.ofByte? hb
  rw [TypeTag.ofByte?_byte, TypeTag.ofByte?_byte, Option.some.injEq] at ht
  exact ht.symm

theorem not_witnessAfter {layers : Nat} {b : UInt8} {type : WireType} {bytes : Bytes}
    (hb : TypeTag.ofByte? b = .none) : ¬witnessAfter layers b type bytes := by
  intro h
  obtain ⟨_, h⟩ := h
  have ht : b = type.tag.byte := by
    cases type <;> simp only [WireType.witnessBytes, List.cons.injEq] at h <;> exact h.1
  rw [ht, TypeTag.ofByte?_byte] at hb
  cases hb

theorem witness_iff {layers : Nat} {type : WireType} {bytes : Bytes} :
    (∃ b back, bytes = b :: back ∧ witnessAfter layers b type back) ↔
      type.depth ≤ layers ∧ bytes = type.witnessBytes := by
  constructor
  · intro h
    obtain ⟨b, back, rfl, hd, hb⟩ := h
    exact ⟨hd, hb⟩
  · intro h
    obtain ⟨hd, rfl⟩ := h
    cases type <;> exact ⟨_, _, rfl, hd, rfl⟩

end Format

namespace Reader

namespace Accepts

/-- A type around another one: its tag is read already, the other's witness follows. -/
theorem wrapped {layers : Nat} {wrap : WireType → WireType}
    (h : ∀ b, Accepts (witnessAfter layers b) (Format.witnessAfter layers b)) :
    Accepts (Reader.byte >>= fun b => witnessAfter layers b >>= fun inner => Pure.pure (wrap inner))
      (fun type bytes => ∃ inner : WireType, type = wrap inner ∧ inner.depth ≤ layers ∧
        bytes = inner.witnessBytes) := by
  refine (byte.bind fun b => (h b).bind fun inner => pure (wrap inner)).congr fun type bytes => ?_
  constructor
  · intro h
    obtain ⟨b, _, _, rfl, ⟨inner, front, _, hf, ⟨rfl, rfl⟩, rfl⟩, rfl⟩ := h
    exact ⟨inner, rfl, Format.witness_iff.mp ⟨b, front, by simp, hf⟩⟩
  · intro h
    obtain ⟨inner, rfl, hi⟩ := h
    obtain ⟨b, back, rfl, hb⟩ := Format.witness_iff.mpr hi
    exact ⟨b, [b], back, rfl, ⟨inner, back, [], hb, ⟨rfl, rfl⟩, by simp⟩, rfl⟩

theorem memberKind (b : UInt8) : Accepts
    (match MemberKind.ofByte? b with
      | none => MonadExcept.throw (.unknownMemberKind b)
      | some kind => Pure.pure (WireType.member kind))
    (fun type bytes => ∃ kind, type = .member kind ∧ b = kind.byte ∧ bytes = []) := by
  cases hkind : MemberKind.ofByte? b with
  | none =>
    refine (throw _).congr fun type bytes => iff_of_false id ?_
    intro h
    obtain ⟨kind, _, rfl, _⟩ := h
    simp at hkind
  | some kind =>
    obtain rfl := MemberKind.ofByte?_eq_some hkind
    refine (pure (WireType.member kind)).congr fun type bytes => ?_
    constructor
    · intro h
      obtain ⟨rfl, rfl⟩ := h
      exact ⟨kind, rfl, rfl, rfl⟩
    · intro h
      obtain ⟨other, rfl, hb, rfl⟩ := h
      have ho := congrArg MemberKind.ofByte? hb
      simp only [MemberKind.ofByte?_byte, Option.some.injEq] at ho
      exact ⟨by rw [ho], rfl⟩

/-- The layers still allowed bound the depth of what is read. -/
theorem witnessAfter (layers : Nat) (b : UInt8) :
    Accepts (witnessAfter layers b) (Format.witnessAfter layers b) := by
  induction layers generalizing b with
  | zero =>
    refine (throw _).congr fun type bytes => iff_of_false id fun h => ?_
    have hd := h.1
    cases type <;> simp [WireType.depth] at hd
  | succ layers ih =>
    cases htag : TypeTag.ofByte? b with
    | none =>
      simp only [Reader.witnessAfter, htag]
      exact (throw _).congr fun type bytes => iff_of_false id (Format.not_witnessAfter htag)
    | some tag =>
      obtain rfl := TypeTag.ofByte?_eq_some htag
      simp only [Reader.witnessAfter, htag]
      cases tag with
      | array | nullable | pending =>
        refine (wrapped ih).congr fun type bytes => ?_
        rw [Format.witnessAfter_iff]
        cases type <;> simp [WireType.tag, WireType.depth, WireType.witnessBytes, Nat.add_comm 1]
      | generic =>
        refine (word.bind fun index => pure (WireType.generic index)).congr fun type bytes => ?_
        rw [Format.witnessAfter_iff]
        cases type <;> simp [WireType.tag, WireType.depth, WireType.witnessBytes, Format.andThen,
          Format.only]
      | member =>
        refine (byte.bind memberKind).congr fun type bytes => ?_
        rw [Format.witnessAfter_iff]
        cases type <;> simp [WireType.tag, WireType.depth, WireType.witnessBytes, Format.andThen]
      | _ =>
        refine (pure _).congr fun type bytes => ?_
        rw [Format.witnessAfter_iff]
        cases type <;>
          simp +contextual [WireType.tag, WireType.depth, WireType.witnessBytes, Format.only]

theorem witness : Accepts witness Format.witness := by
  refine (byte.bind (witnessAfter maxWitnessDepth)).congr fun type bytes => ?_
  rw [Format.witness, ← Format.witness_iff]
  constructor
  · intro h
    obtain ⟨b, _, back, rfl, hb, rfl⟩ := h
    exact ⟨b, back, rfl, hb⟩
  · intro h
    obtain ⟨b, back, rfl, hb⟩ := h
    exact ⟨b, [b], back, rfl, hb, rfl⟩

theorem witnesses : Accepts witnesses Format.witnesses := by
  have hsize : ∀ count types bytes, Format.repeated Format.witness count types bytes →
      count ≤ bytes.length := by
    intro count types bytes h
    have hone : ∀ type bytes, Format.witness type bytes → 1 ≤ bytes.length := by
      rintro type _ ⟨_, rfl⟩
      cases type <;> simp [WireType.witnessBytes]
    simpa using Format.repeated_length_ge hone h
  refine ((number 2).bind fun count =>
    (witness.many count).expect count (hsize count)).congr fun types bytes => ?_
  constructor
  · intro h
    obtain ⟨count, _, _, ⟨hlt, rfl⟩, hback, rfl⟩ := h
    obtain ⟨hall, hpieces⟩ := Format.repeated_witness.mp hback
    exact ⟨by omega, hall.2, by rw [hpieces, witnessesBytes, hall.1]⟩
  · intro h
    obtain ⟨hlt, hall, rfl⟩ := h
    exact ⟨types.length, _, _, ⟨by omega, rfl⟩, Format.repeated_witness.mpr ⟨⟨rfl, hall⟩, rfl⟩, rfl⟩

/-- A byte that says no or yes, and is nothing else. -/
theorem flag {α : Type} (no yes : α) (wrong : UInt8 → DecodeError) : Accepts
    (Reader.byte >>= fun b => match b with
      | 0 => Pure.pure no
      | 1 => Pure.pure yes
      | other => MonadExcept.throw (wrong other))
    (fun value bytes => ∃ found : Bool, value = (if found then yes else no) ∧
      bytes = [if found then 1 else 0]) := by
  have hflag : ∀ b : UInt8, Accepts
      (match b with
        | 0 => Pure.pure no
        | 1 => Pure.pure yes
        | other => MonadExcept.throw (wrong other))
      (fun value bytes => ∃ found : Bool, value = (if found then yes else no) ∧
        b = (if found then 1 else 0) ∧ bytes = []) := by
    intro b
    split
    · exact (pure no).congr fun value bytes => by simp [Format.only]
    · exact (pure yes).congr fun value bytes => by simp [Format.only]
    · rename_i hzero hone
      refine (throw _).congr fun value bytes => iff_of_false id ?_
      intro h
      obtain ⟨found, _, hb, _⟩ := h
      cases found
      · exact hzero hb
      · exact hone hb
  refine (byte.bind hflag).congr fun value bytes => ?_
  constructor
  · intro h
    obtain ⟨b, _, _, rfl, ⟨found, rfl, rfl, rfl⟩, rfl⟩ := h
    exact ⟨found, rfl, rfl⟩
  · intro h
    obtain ⟨found, rfl, rfl⟩ := h
    exact ⟨_, _, [], rfl, ⟨found, rfl, rfl, rfl⟩, rfl⟩

theorem presence : Accepts presence (fun found bytes => bytes = [if found then 1 else 0]) :=
  (flag false true .invalidPresenceFlag).congr fun found bytes => by cases found <;> simp

theorem identity (kind : MemberKind) : Accepts (identity kind) (fun found bytes =>
    found.kind = kind ∧ found.carried = found ∧ found.Portable ∧ bytes = found.bytes) := by
  by_cases hk : kind.isCallable = true
  · have hread := text.bind fun declaring => text.bind fun name => word.bind fun arity =>
      witnesses.bind fun arguments => witnesses.bind fun parameters =>
        pure (MemberIdentity.mk kind declaring name arity arguments parameters)
    simp only [Reader.identity, hk, if_true]
    refine hread.congr fun found bytes => ?_
    constructor
    · rintro ⟨declaring, _, _, ⟨hd, rfl⟩, ⟨name, _, _, ⟨hn, rfl⟩, ⟨arity, _, _, rfl, ⟨arguments, _, _,
        ⟨ha, hda, rfl⟩, ⟨parameters, _, _, ⟨hp, hdp, rfl⟩, ⟨rfl, rfl⟩, rfl⟩, rfl⟩, rfl⟩, rfl⟩, rfl⟩
      refine ⟨rfl, if_pos hk, ⟨hd, hn, fun _ => ⟨⟨ha, hda, rfl⟩, ⟨hp, hdp, rfl⟩⟩⟩, ?_⟩
      simp [MemberIdentity.bytes, MemberIdentity.signatureBytes, hk]
    · intro h
      obtain ⟨rfl, _, ⟨hd, hn, hs⟩, rfl⟩ := h
      obtain ⟨ha, hp⟩ := hs hk
      refine ⟨_, _, _, ⟨hd, rfl⟩, ⟨_, _, _, ⟨hn, rfl⟩, ⟨found.arity, _, _, rfl, ⟨_, _, _, ha, ⟨_, _, [],
        hp, ⟨rfl, rfl⟩, rfl⟩, rfl⟩, rfl⟩, rfl⟩, ?_⟩
      simp [MemberIdentity.bytes, MemberIdentity.signatureBytes, hk]
  · have hread := text.bind fun declaring => text.bind fun name =>
      pure (MemberIdentity.mk kind declaring name 0 [] [])
    simp only [Reader.identity, hk, Bool.false_eq_true, if_false]
    refine hread.congr fun found bytes => ?_
    constructor
    · intro h
      obtain ⟨declaring, _, _, ⟨hd, rfl⟩, ⟨name, _, _, ⟨hn, rfl⟩, ⟨rfl, rfl⟩, rfl⟩, rfl⟩ := h
      refine ⟨rfl, if_neg hk, ⟨hd, hn, fun h => absurd h hk⟩, ?_⟩
      simp [MemberIdentity.bytes, hk]
    · intro h
      obtain ⟨rfl, hc, ⟨hd, hn, _⟩, rfl⟩ := h
      rw [MemberIdentity.carried, if_neg hk] at hc
      refine ⟨_, _, _, ⟨hd, rfl⟩, ⟨_, _, [], ⟨hn, rfl⟩, ⟨hc.symm, rfl⟩, rfl⟩, ?_⟩
      simp [MemberIdentity.bytes, hk]

theorem handle (registry : Registry) (identity : MemberIdentity) :
    Accepts (handle registry identity) (fun found bytes =>
      registry.resolve identity = .ok found.member ∧ found.arguments = identity.arguments ∧
        bytes = []) := by
  have hext : ∀ {found other : MemberHandle}, found.member = other.member →
      found.arguments = other.arguments → found = other := by
    rintro ⟨_, _, _⟩ ⟨_, _, _⟩ rfl rfl
    rfl
  unfold Reader.handle
  cases hr : registry.resolve identity with
  | error error => exact (throw error).congr fun found bytes => iff_of_false id (by simp)
  | ok member =>
    by_cases he : identity.arguments.isEmpty = true
    · simp only [he, if_true]
      have hnil : identity.arguments = [] := List.isEmpty_iff.mp he
      refine (pure (MemberHandle.plain member)).congr fun found bytes => ?_
      constructor
      · intro h
        obtain ⟨rfl, rfl⟩ := h
        exact ⟨rfl, hnil.symm, rfl⟩
      · intro h
        obtain ⟨hm, ha, rfl⟩ := h
        exact ⟨hext (Except.ok.inj hm).symm (ha.trans hnil), rfl⟩
    · simp only [he, Bool.false_eq_true, if_false, MemberHandle.construct?]
      by_cases hlen : identity.arguments.length = member.arity.toNat
      · simp only [hlen, dite_true]
        refine (pure _).congr fun found bytes => ?_
        constructor
        · intro h
          obtain ⟨rfl, rfl⟩ := h
          exact ⟨rfl, rfl, rfl⟩
        · intro h
          obtain ⟨hm, ha, rfl⟩ := h
          exact ⟨hext (Except.ok.inj hm).symm ha, rfl⟩
      · simp only [hlen, dite_false]
        refine (throw _).congr fun found bytes => iff_of_false id ?_
        intro h
        obtain ⟨hm, ha, _⟩ := h
        rcases found.argumentCount with hnil | hcount
        · exact he (List.isEmpty_iff.mpr (ha.symm.trans hnil))
        · exact hlen (by rw [← ha, hcount, Except.ok.inj hm])

/-- The identity of a handle and the search for its member, one after the other. -/
theorem member (kind : MemberKind) (registry : Registry) :
    Accepts (Reader.identity kind >>= Reader.handle registry) (fun found bytes =>
      found.member.kind = kind ∧ registry.Recovers found ∧ found.identity.Portable ∧
        bytes = found.identity.bytes) := by
  refine ((identity kind).bind (handle registry)).congr fun found bytes => ?_
  constructor
  · intro h
    obtain ⟨carried, _, _, ⟨hk, hc, hp, rfl⟩, ⟨hr, ha, rfl⟩, rfl⟩ := h
    have hi := Registry.identity_of_resolve hc hr ha
    have hkind : found.member.kind = kind := by
      rw [← hk, ← hi, MemberIdentity.kind_carried]
      rfl
    refine ⟨hkind, ⟨Registry.resolve_carried.mp (hi ▸ hr), fun hcall => ?_⟩,
      MemberIdentity.portable_carried.mp (hi ▸ hp), ?_⟩
    · rw [ha, ← hc, MemberIdentity.carried, if_neg (by simp [hk, ← hkind, hcall])]
    · rw [List.append_nil, ← hi, MemberIdentity.bytes_carried]
  · intro h
    obtain ⟨rfl, ⟨hr, ha⟩, hp, rfl⟩ := h
    refine ⟨found.identity.carried, _, [], ⟨?_, MemberIdentity.carried_carried _,
      MemberIdentity.portable_carried.mpr hp, rfl⟩, ⟨Registry.resolve_carried.mpr hr, ?_, rfl⟩, by simp⟩
    · exact MemberIdentity.kind_carried _
    · by_cases hcall : found.member.kind.isCallable = true
      · rw [MemberIdentity.carried, if_pos (show found.identity.kind.isCallable = true from hcall)]
        rfl
      · rw [MemberIdentity.carried, if_neg (show ¬found.identity.kind.isCallable = true from hcall)]
        exact ha (by simpa using hcall)

end Accepts

end Reader

namespace Codec

open Reader

theorem decode_number_accepts (type : NumberType) (bounds : Bounds) :
    (decode (number type) bounds).Accepts (number type).Spells := by
  have hwidth : 256 ^ type.width = 2 ^ (8 * type.width) := by
    rw [Nat.pow_mul]
  refine ((Accepts.number type.width).bind fun n =>
    Accepts.pure (Value.number type (BitVec.ofNat _ n))).congr fun value bytes => ?_
  constructor
  · intro h
    obtain ⟨n, _, _, ⟨hn, rfl⟩, ⟨rfl, rfl⟩, rfl⟩ := h
    refine ⟨_, rfl, ?_⟩
    rw [List.append_nil, BitVec.toNat_ofNat, Nat.mod_eq_of_lt (hwidth ▸ hn)]
  · intro h
    obtain ⟨bits, rfl, rfl⟩ := h
    exact ⟨bits.toNat, _, [], ⟨hwidth ▸ bits.isLt, rfl⟩, ⟨by simp, rfl⟩, by simp⟩

theorem decode_text_accepts (bounds : Bounds) : (decode text bounds).Accepts text.Spells := by
  refine ((Accepts.blob? bounds).bind fun run? => (?_ : Accepts _ fun value bytes =>
    (run? = none ∧ value = .null ∨ ∃ s, run? = some (textBytes s) ∧ value = .text s) ∧
      bytes = [])).congr fun value bytes => ?_
  · cases run? with
    | none => exact (Accepts.pure _).congr fun value bytes => by simp [Format.only]
    | some run =>
      refine (Accepts.utf8 run Value.text).congr fun value bytes => ?_
      constructor
      · intro h
        obtain ⟨s, rfl, rfl, rfl⟩ := h
        exact ⟨.inr ⟨s, rfl, rfl⟩, rfl⟩
      · intro h
        obtain ⟨⟨hnone, _⟩ | ⟨s, hrun, rfl⟩, rfl⟩ := h
        · cases hnone
        · exact ⟨s, Option.some.inj hrun, rfl, rfl⟩
  · constructor
    · intro h
      obtain ⟨_, front, _, hb, ⟨⟨rfl, rfl⟩ | ⟨s, rfl, rfl⟩, rfl⟩, rfl⟩ := h
      · exact .inl ⟨rfl, by simpa using hb⟩
      · obtain ⟨hle, rfl⟩ := hb
        exact .inr ⟨s, rfl, by simpa using hle, by simp⟩
    · intro h
      rcases h with ⟨rfl, hb⟩ | ⟨s, rfl, hle, rfl⟩
      · exact ⟨none, bytes, [], hb, ⟨.inl ⟨rfl, rfl⟩, rfl⟩, by simp⟩
      · exact ⟨some (textBytes s), _, [], ⟨by simpa using hle, rfl⟩, ⟨.inr ⟨s, rfl, rfl⟩, rfl⟩,
          by simp⟩

def elementsSpelled (element : Codec) : Option Nat → Format Value
  | none, value, bytes => value = .null ∧ bytes = []
  | some count, value, bytes => ∃ items, value = .array items ∧
      element.exceedsZeroWidth count = false ∧ Format.repeated element.Spells count items bytes

theorem decode_array_accepts {element : Codec} (h : (element.decode .strict).Accepts element.Spells)
    (bounds : Bounds) : (decode (array element) bounds).Accepts (array element).Spells := by
  refine (Accepts.length?_bind bounds element.minSize
    (fun count? => (?_ : Accepts _ (element.elementsSpelled count?))) ?_).congr
      fun value bytes => ?_
  · cases count? with
    | none => exact Accepts.pure _
    | some count =>
      by_cases he : element.exceedsZeroWidth count = true
      · simp only [he, if_true]
        refine (Accepts.throw _).congr fun value bytes => iff_of_false id ?_
        intro h
        obtain ⟨_, _, hexceeds, _⟩ := h
        simp [he] at hexceeds
      · simp only [he, Bool.false_eq_true, if_false]
        refine ((h.many count).bind fun items => Accepts.pure (Value.array items)).congr ?_
        intro value bytes
        constructor
        · intro h
          obtain ⟨items, _, _, hr, ⟨rfl, rfl⟩, rfl⟩ := h
          exact ⟨items, rfl, by simpa using he, by simpa using hr⟩
        · intro h
          obtain ⟨items, rfl, _, hr⟩ := h
          exact ⟨items, bytes, [], hr, ⟨rfl, rfl⟩, by simp⟩
  · rintro count value bytes ⟨items, _, _, hr⟩
    exact Format.repeated_length_ge (fun _ _ => minSize_le_of_spells) hr
  · constructor
    · intro h
      obtain ⟨count?, front, back, hfront, hback, rfl⟩ := h
      cases count? with
      | none =>
        obtain ⟨rfl, rfl⟩ := hback
        exact .inl ⟨rfl, by simpa using hfront⟩
      | some count =>
        obtain ⟨items, rfl, he, hr⟩ := hback
        obtain rfl : items.length = count := hr.1
        exact .inr ⟨items, front, back, rfl, he, hfront, hr, rfl⟩
    · intro h
      rcases h with ⟨rfl, hb⟩ | ⟨items, front, back, rfl, he, hfront, hr, rfl⟩
      · exact ⟨none, bytes, [], hb, ⟨rfl, rfl⟩, by simp⟩
      · exact ⟨some items.length, front, back, hfront, ⟨items, rfl, he, hr⟩, rfl⟩

theorem accepts_present {read : Reader Value} {format : Format Value} (h : read.Accepts format) :
    Accepts (presence >>= fun present => if present then read else Pure.pure Value.null)
      (fun value bytes => value = .null ∧ bytes = [0] ∨
        ∃ back, format value back ∧ bytes = 1 :: back) := by
  have hpresent : ∀ present : Bool, Accepts (if present then read else Pure.pure Value.null)
      (fun value bytes => if present then format value bytes else value = .null ∧ bytes = []) := by
    intro present
    cases present with
    | false => exact Accepts.pure _
    | true => exact h
  refine (Accepts.presence.bind hpresent).congr fun value bytes => ?_
  constructor
  · intro h
    obtain ⟨present, _, back, rfl, hback, rfl⟩ := h
    cases present with
    | false =>
      obtain ⟨rfl, rfl⟩ := hback
      exact .inl ⟨rfl, rfl⟩
    | true => exact .inr ⟨back, hback, rfl⟩
  · intro h
    rcases h with ⟨rfl, rfl⟩ | ⟨back, hback, rfl⟩
    · exact ⟨false, _, [], rfl, ⟨rfl, rfl⟩, rfl⟩
    · exact ⟨true, _, back, rfl, hback, rfl⟩

theorem decode_witness_accepts (bounds : Bounds) :
    (decode witness bounds).Accepts witness.Spells := by
  have hnull : ∀ type bytes, ¬Format.witnessAfter maxWitnessDepth nullWitness type bytes :=
    fun type bytes => Format.not_witnessAfter rfl
  have htag : ∀ tag : UInt8, Accepts
      (if tag = nullWitness then Pure.pure Value.null
        else Reader.witnessAfter maxWitnessDepth tag >>= fun type => Pure.pure (Value.witness type))
      (fun value bytes => value = .null ∧ tag = nullWitness ∧ bytes = [] ∨
        ∃ type, value = .witness type ∧ Format.witnessAfter maxWitnessDepth tag type bytes) := by
    intro tag
    by_cases ht : tag = nullWitness
    · subst ht
      simp only [if_true]
      exact (Accepts.pure _).congr fun value bytes => by simp [Format.only, hnull]
    · simp only [ht, if_false]
      refine ((Accepts.witnessAfter maxWitnessDepth tag).bind fun type =>
        Accepts.pure (Value.witness type)).congr fun value bytes => ?_
      simp [Format.andThen, Format.only, and_comm]
  refine (Accepts.byte.bind htag).congr fun value bytes => ?_
  constructor
  · intro h
    obtain ⟨tag, _, back, rfl, ⟨rfl, rfl, rfl⟩ | ⟨type, rfl, hb⟩, rfl⟩ := h
    · exact .inl ⟨rfl, rfl⟩
    · exact .inr ⟨type, rfl, Format.witness_iff.mp ⟨tag, back, rfl, hb⟩⟩
  · intro h
    rcases h with ⟨rfl, rfl⟩ | ⟨type, rfl, hb⟩
    · exact ⟨nullWitness, _, [], rfl, .inl ⟨rfl, rfl, rfl⟩, rfl⟩
    · obtain ⟨tag, back, rfl, hb⟩ := Format.witness_iff.mpr hb
      exact ⟨tag, _, back, rfl, .inr ⟨type, rfl, hb⟩, rfl⟩

/-- The bounds of a decoder have no say in what it accepts: what strict bounds would refuse cannot
be read to its end either. -/
theorem decode_accepts {registry : Registry} {type : WireType} {codec : Codec}
    (h : Catalogued registry type codec) (bounds : Bounds) :
    (codec.decode bounds).Accepts codec.Spells := by
  -- Elements are read under strict bounds whatever the array itself is read under.
  induction h generalizing bounds with
  | unit => exact Accepts.pure _
  | bool =>
    refine (Accepts.flag (Value.bool false) (Value.bool true) .invalidBool).congr ?_
    intro value bytes
    exact exists_congr fun found => by cases found <;> rfl
  | number type => exact decode_number_accepts type bounds
  | text => exact decode_text_accepts bounds
  | blob =>
    refine ((Accepts.blob? bounds).bind fun run? =>
      (?_ : Accepts _ (Format.only ((run?.map Value.blob).getD .null)))).congr fun value bytes => ?_
    · cases run? <;> exact Accepts.pure _
    constructor
    · intro h
      obtain ⟨run?, front, _, hf, ⟨rfl, rfl⟩, rfl⟩ := h
      cases run? with
      | none => exact .inl ⟨rfl, by simpa using hf⟩
      | some run => exact .inr ⟨run, rfl, by simpa using hf⟩
    · intro h
      rcases h with ⟨rfl, hb⟩ | ⟨run, rfl, hb⟩
      · exact ⟨none, bytes, [], hb, ⟨rfl, rfl⟩, by simp⟩
      · exact ⟨some run, bytes, [], hb, ⟨rfl, rfl⟩, by simp⟩
  | witness => exact decode_witness_accepts bounds
  | member kind =>
    have hhandle : Accepts
        (do return Value.member (← Reader.handle registry (← Reader.identity kind)))
        (fun value bytes => ∃ handle : MemberHandle, value = .member handle ∧
          handle.member.kind = kind ∧ registry.Recovers handle ∧ handle.identity.Portable ∧
          bytes = handle.identity.bytes) := by
      rw [← bind_assoc]
      refine ((Accepts.member kind registry).bind fun handle =>
        Accepts.pure (Value.member handle)).congr fun value bytes => ?_
      constructor
      · intro h
        obtain ⟨handle, _, _, hh, ⟨rfl, rfl⟩, rfl⟩ := h
        exact ⟨handle, rfl, by simpa using hh⟩
      · intro h
        obtain ⟨handle, rfl, hh⟩ := h
        exact ⟨handle, bytes, [], hh, ⟨rfl, rfl⟩, by simp⟩
    refine (accepts_present hhandle).congr fun value bytes => or_congr Iff.rfl ?_
    constructor
    · intro h
      obtain ⟨_, ⟨handle, rfl, hk, hr, hp, rfl⟩, rfl⟩ := h
      exact ⟨handle, rfl, hk, hr, hp, rfl⟩
    · intro h
      obtain ⟨handle, rfl, hk, hr, hp, rfl⟩ := h
      exact ⟨_, ⟨handle, rfl, hk, hr, hp, rfl⟩, rfl⟩
  | array _ ih => exact decode_array_accepts (ih .strict) bounds
  | nullable _ ih => exact accepts_present (ih bounds)

end Codec

end Remoting
