import Mathlib
import Remoting.Proofs.EncoderEmission

/-! Every encoder of the catalogue that comes to its end has written a spelling of its value,
provided the registry leads the members in it back to themselves. -/

namespace Remoting

/-- The registry leads every member in the value back to itself. -/
def Value.Recoverable (registry : Registry) (value : Value) : Prop :=
  ∀ part, Value.Part part value → ∀ handle, part = .member handle → registry.Recovers handle

theorem Value.Recoverable.item {registry : Registry} {item : Value} {items : List Value}
    (h : (Value.array items).Recoverable registry) (hmem : item ∈ items) : item.Recoverable registry :=
  fun part hp => h part (.item hmem hp)

namespace Writer

/-- What the action has written when it comes to its end is so spelled. -/
def Writes (action : Writer Unit) (spelled : Bytes → Prop) : Prop :=
  ∀ buffer after, action buffer = .ok () after →
    ∃ bytes, bytes.length ≤ buffer.remaining ∧ after = buffer.write bytes ∧ spelled bytes

namespace Writes

theorem of_emits {action : Writer Unit} {bytes : Bytes} (h : Emits action bytes (.ok ())) :
    Writes action (· = bytes) := by
  intro buffer after ha
  obtain ⟨_, hle, hafter⟩ := h.of_run ha
  exact ⟨bytes, hle, hafter, rfl⟩

/-- What an action emits is what it has written. -/
theorem of_emitted {action : Writer Unit} {spelled : Bytes → Prop} {bytes : Bytes}
    (h : Writes action spelled) (he : Emits action bytes (.ok ())) : spelled bytes := by
  have hrun := he.fits (.filled bytes.length 0) (Nat.le_refl _)
  obtain ⟨written, _, hafter, hspelled⟩ := h _ _ hrun
  rw [Buffer.write_inj hafter]
  exact hspelled

theorem throw (error : EncodeError) (spelled : Bytes → Prop) : Writes (throw error) spelled := by
  intro buffer after ha
  cases ha

theorem mono {action : Writer Unit} {spelled spelled' : Bytes → Prop} (h : Writes action spelled)
    (hs : ∀ bytes, spelled bytes → spelled' bytes) : Writes action spelled' := by
  intro buffer after ha
  obtain ⟨bytes, hle, hb, hw⟩ := h buffer after ha
  exact ⟨bytes, hle, hb, hs bytes hw⟩

theorem bind {action next : Writer Unit} {first second : Bytes → Prop} (h : Writes action first)
    (hn : Writes next second) : Writes (action >>= fun _ => next)
      (fun bytes => ∃ front back, first front ∧ second back ∧ bytes = front ++ back) := by
  intro buffer after ha
  rw [bind_apply] at ha
  cases hm : action buffer with
  | error error middle =>
    rw [hm] at ha
    cases ha
  | ok _ middle =>
    rw [hm] at ha
    obtain ⟨front, hfront, rfl, hf⟩ := h buffer middle hm
    obtain ⟨back, hback, rfl, hb⟩ := hn _ after ha
    rw [Buffer.remaining_write] at hback
    refine ⟨front ++ back, ?_, (Buffer.write_append buffer front back).symm, front, back, hf, hb, rfl⟩
    rw [List.length_append]
    omega

theorem each {α : Type} {write : α → Writer Unit} {format : Format α} {items : List α}
    (h : ∀ item ∈ items, Writes (write item) (format item)) :
    Writes (each write items) (Format.repeated format items.length items) := by
  induction items with
  | nil =>
    refine (of_emits Emits.nothing).mono fun bytes hb => ?_
    exact ⟨rfl, [], .nil, hb⟩
  | cons item items ih =>
    have hhead := h item List.mem_cons_self
    have htail := ih fun other hmem => h other (List.mem_cons_of_mem item hmem)
    exact (hhead.bind htail).mono fun bytes hb => Format.repeated_cons.mpr hb

theorem length (n : Nat) : Writes (length (some n)) (Format.length? (some n)) := by
  by_cases hn : n ≤ maxLength
  · exact (of_emits (emits_length hn)).mono fun bytes hb => ⟨hn, hb⟩
  · rw [Writer.length, if_neg hn]
    exact throw _ _

theorem blob (run : Bytes) : Writes (blob (some run)) (Format.blob? (some run)) := by
  refine ((length run.length).bind (of_emits (Emits.put run))).mono ?_
  intro bytes hb
  obtain ⟨front, back, ⟨hn, hfront⟩, hback, rfl⟩ := hb
  exact ⟨hn, by rw [hfront, hback]; rfl⟩

theorem witness (type : WireType) : Writes (witness type) (Format.witness type) := by
  by_cases hd : type.depth ≤ maxWitnessDepth
  · exact (of_emits (emits_witness hd)).mono fun bytes hb => ⟨hd, hb⟩
  · rw [Writer.witness, if_pos (Nat.lt_of_not_le hd)]
    exact throw _ _

theorem witnesses (types : List WireType) : Writes (witnesses types) (Format.witnesses types) := by
  have hcount : Writes (count types.length)
      (fun bytes => types.length < 0x10000 ∧ bytes = littleEndian 2 types.length) := by
    by_cases hn : types.length < 0x10000
    · exact (of_emits (emits_count hn)).mono fun bytes hb => ⟨hn, hb⟩
    · rw [count, if_neg hn]
      exact throw _ _
  refine (hcount.bind (each fun type _ => witness type)).mono ?_
  intro bytes hb
  obtain ⟨front, back, ⟨hn, hfront⟩, hback, rfl⟩ := hb
  obtain ⟨⟨_, hdepths⟩, hbytes⟩ := Format.repeated_witness.mp hback
  exact ⟨hn, hdepths, by rw [hfront, hbytes]; rfl⟩

theorem identity (identity : MemberIdentity) : Writes (Writer.identity identity)
    (fun bytes => identity.Portable ∧ bytes = identity.bytes) := by
  have hdeclaring := blob (textBytes identity.declaring)
  have hname := blob (textBytes identity.name)
  by_cases hk : identity.kind.isCallable = true
  · have harity := of_emits (Emits.put (littleEndian 2 identity.arity.toNat))
    have harguments := witnesses identity.arguments
    have hparameters := witnesses identity.parameters
    simp only [Writer.identity, hk, if_true]
    refine (hdeclaring.bind (hname.bind (harity.bind (harguments.bind hparameters)))).mono ?_
    intro bytes hb
    obtain ⟨_, _, ⟨hd, rfl⟩, ⟨_, _, ⟨hn, rfl⟩, ⟨_, _, rfl, ⟨_, _, ha, hp, rfl⟩, rfl⟩, rfl⟩, rfl⟩ := hb
    obtain ⟨hacount, hadepths, rfl⟩ := ha
    obtain ⟨hpcount, hpdepths, rfl⟩ := hp
    refine ⟨⟨by simpa using hd, by simpa using hn, fun _ => ?_⟩, ?_⟩
    · exact ⟨⟨hacount, hadepths, rfl⟩, ⟨hpcount, hpdepths, rfl⟩⟩
    · rw [MemberIdentity.bytes, if_pos hk, MemberIdentity.signatureBytes]
  · simp only [Writer.identity, hk, Bool.false_eq_true, if_false]
    refine (hdeclaring.bind (hname.bind (of_emits Emits.nothing))).mono ?_
    intro bytes hb
    obtain ⟨_, _, ⟨hd, rfl⟩, ⟨_, _, ⟨hn, rfl⟩, rfl, rfl⟩, rfl⟩ := hb
    refine ⟨⟨by simpa using hd, by simpa using hn, fun h => absurd h hk⟩, ?_⟩
    rw [MemberIdentity.bytes, if_neg hk]

end Writes

end Writer

namespace Codec

open Writer

theorem writes_handle (registry : Registry) (handle : MemberHandle) :
    Writes ((member handle.member.kind registry).encode (.member handle))
      (fun bytes => handle.identity.Portable ∧ bytes = 1 :: handle.identity.bytes) := by
  rw [encode, if_pos rfl]
  refine ((Writes.of_emits (Emits.put [1])).bind (Writes.identity handle.identity)).mono ?_
  intro bytes hb
  obtain ⟨_, _, rfl, ⟨hp, rfl⟩, rfl⟩ := hb
  exact ⟨hp, rfl⟩

theorem writes_encode {registry : Registry} {type : WireType} {codec : Codec}
    (h : Catalogued registry type codec) {value : Value} (hr : value.Recoverable registry) :
    Writes (codec.encode value) (codec.Spells value) := by
  induction h generalizing value with
  | unit =>
    cases value with
    | unit => exact (Writes.of_emits Emits.nothing).mono fun bytes hb => ⟨rfl, hb⟩
    | _ => exact Writes.throw _ _
  | bool =>
    cases value with
    | bool b => exact (Writes.of_emits (Emits.put [_])).mono fun bytes hb => ⟨b, rfl, hb⟩
    | _ => exact Writes.throw _ _
  | number type =>
    cases value with
    | number t bits =>
      by_cases ht : t = type
      · subst ht
        rw [encode, if_pos rfl]
        exact (Writes.of_emits (Emits.put _)).mono fun bytes hb => ⟨bits, rfl, hb⟩
      · rw [encode, if_neg ht]
        exact Writes.throw _ _
    | _ => exact Writes.throw _ _
  | text =>
    cases value with
    | null => exact (Writes.of_emits (Emits.put _)).mono fun bytes hb => .inl ⟨rfl, hb⟩
    | text s =>
      refine (Writes.blob (textBytes s)).mono fun bytes hb => .inr ⟨s, rfl, ?_⟩
      exact ⟨by simpa using hb.1, hb.2⟩
    | _ => exact Writes.throw _ _
  | blob =>
    cases value with
    | null => exact (Writes.of_emits (Emits.put _)).mono fun bytes hb => .inl ⟨rfl, hb⟩
    | blob run => exact (Writes.blob run).mono fun bytes hb => .inr ⟨run, rfl, hb⟩
    | _ => exact Writes.throw _ _
  | witness =>
    cases value with
    | null => exact (Writes.of_emits (Emits.put _)).mono fun bytes hb => .inl ⟨rfl, hb⟩
    | witness type => exact (Writes.witness type).mono fun bytes hb => .inr ⟨type, rfl, hb⟩
    | _ => exact Writes.throw _ _
  | member kind =>
    cases value with
    | null => exact (Writes.of_emits (Emits.put _)).mono fun bytes hb => .inl ⟨rfl, hb⟩
    | member handle =>
      by_cases hk : handle.member.kind = kind
      · have hrecovers := hr _ (.whole _) handle rfl
        subst hk
        refine (writes_handle registry handle).mono fun bytes hb => ?_
        exact .inr ⟨handle, rfl, rfl, hrecovers, hb⟩
      · rw [encode, if_neg hk]
        exact Writes.throw _ _
    | _ => exact Writes.throw _ _
  | @array _ element _ ih =>
    cases value with
    | null => exact (Writes.of_emits (Emits.put _)).mono fun bytes hb => .inl ⟨rfl, hb⟩
    | array items =>
      by_cases he : element.exceedsZeroWidth items.length = true
      · rw [encode, if_pos he]
        exact Writes.throw _ _
      · have hitems := Writes.each fun item hmem => ih (hr.item hmem)
        rw [encode, if_neg he]
        refine ((Writes.length items.length).bind hitems).mono ?_
        intro bytes hb
        obtain ⟨front, back, hf, hback, rfl⟩ := hb
        exact .inr ⟨items, front, back, rfl, by simpa using he, hf, hback, rfl⟩
    | _ => exact Writes.throw _ _
  | @nullable _ inner _ ih =>
    have hpresent := (Writes.of_emits (Emits.put [1])).bind (ih hr)
    have hspelled : Writes (byte 1 >>= fun _ => inner.encode value)
        ((nullable inner).Spells value) := by
      refine hpresent.mono fun bytes hb => ?_
      obtain ⟨front, back, rfl, hback, rfl⟩ := hb
      exact .inr ⟨back, hback, rfl⟩
    cases value with
    | null => exact (Writes.of_emits (Emits.put [0])).mono fun bytes hb => .inl ⟨rfl, hb⟩
    | _ => exact hspelled

end Codec

end Remoting
