import Mathlib
import Remoting.Proofs.DecoderAcceptance
import Remoting.Proofs.EncodedSize

/-! What a decoder accepts, its encoder writes. Only a present null below a nullable is written
differently from how it was read, and then shorter. -/

namespace Remoting

namespace WireType

/-- Whether null is a value of the type, by itself or for a nullable layer. -/
def hasNull : WireType → Bool
  | nullable _ => true
  | type => type.isReference

/-- Whether no nullable layer is directly around a type that has null already. -/
def nullsApart : WireType → Bool
  | nullable inner => !inner.hasNull && inner.nullsApart
  | array element => element.nullsApart
  | _ => true

end WireType

namespace Writer

theorem emits_identity {identity : MemberIdentity} (h : identity.Portable) :
    Emits (Writer.identity identity) identity.bytes (.ok ()) := by
  have hdeclaring : Emits (blob (some (textBytes identity.declaring))) _ (.ok ()) :=
    emits_blob h.declaring
  have hname : Emits (blob (some (textBytes identity.name))) _ (.ok ()) := emits_blob h.name
  by_cases hk : identity.kind.isCallable = true
  · obtain ⟨hargs, hparams⟩ := h.signature hk
    have harity : Emits (word identity.arity) _ (.ok ()) := Emits.put _
    simp only [Writer.identity, MemberIdentity.bytes, MemberIdentity.signatureBytes, hk, if_true]
    have htypes := (emits_witnesses hargs).bind (emits_witnesses hparams)
    exact hdeclaring.bind (hname.bind (harity.bind htypes))
  · simp only [Writer.identity, MemberIdentity.bytes, hk, Bool.false_eq_true, if_false]
    exact hdeclaring.bind (hname.bind Emits.nothing)

/-- The action writes a spelling no longer than the one given, and the very same where spellings are
said to be unique. -/
def Respells (action : Writer Unit) (spelled : Bytes → Prop) (unique : Prop) (bytes : Bytes) : Prop :=
  ∃ written, Emits action written (.ok ()) ∧ spelled written ∧ written.length ≤ bytes.length ∧
    (unique → written = bytes)

namespace Respells

theorem same {action : Writer Unit} {spelled : Bytes → Prop} {bytes : Bytes}
    (h : Emits action bytes (.ok ())) (hs : spelled bytes) (unique : Prop) :
    Respells action spelled unique bytes :=
  ⟨bytes, h, hs, Nat.le_refl _, fun _ => rfl⟩

theorem bind {action next : Writer Unit} {first second spelled : Bytes → Prop} {unique : Prop}
    {front back : Bytes} (h : Respells action first unique front)
    (hn : Respells next second unique back)
    (hs : ∀ front back, first front → second back → spelled (front ++ back)) :
    Respells (action >>= fun _ => next) spelled unique (front ++ back) := by
  obtain ⟨written, he, hw, hle, hu⟩ := h
  obtain ⟨written', he', hw', hle', hu'⟩ := hn
  refine ⟨written ++ written', he.bind he', hs _ _ hw hw', ?_, fun h => by rw [hu h, hu' h]⟩
  rw [List.length_append, List.length_append]
  omega

theorem each {α : Type} {write : α → Writer Unit} {format : Format α} {unique : Prop}
    {items : List α} {bytes : Bytes} (h : ∀ item front, format item front →
      Respells (write item) (format item) unique front)
    (hr : Format.repeated format items.length items bytes) :
    Respells (each write items) (Format.repeated format items.length items) unique bytes := by
  induction items generalizing bytes with
  | nil =>
    obtain ⟨_, pieces, hpieces, rfl⟩ := hr
    cases hpieces
    exact same Emits.nothing ⟨rfl, [], .nil, rfl⟩ unique
  | cons item items ih =>
    obtain ⟨front, back, hfront, hback, rfl⟩ := Format.repeated_cons.mp hr
    refine (h item front hfront).bind (ih hback) fun front back hfront hback => ?_
    exact Format.repeated_cons.mpr ⟨front, back, hfront, hback, rfl⟩

end Respells

end Writer

namespace Codec

open Writer

theorem hasNull_of_spells_null {registry : Registry} {type : WireType} {codec : Codec}
    (hc : Catalogued registry type codec) {bytes : Bytes} (hs : codec.Spells .null bytes) :
    type.hasNull = true := by
  cases hc with
  | unit => cases hs.1
  | bool =>
    obtain ⟨b, hv, _⟩ := hs
    cases hv
  | number type =>
    obtain ⟨bits, hv, _⟩ := hs
    cases hv
  | _ => rfl

theorem respells_encode {registry : Registry} {type : WireType} {codec : Codec}
    (hc : Catalogued registry type codec) {value : Value} {bytes : Bytes}
    (hs : codec.Spells value bytes) :
    Respells (codec.encode value) (codec.Spells value) (type.nullsApart = true) bytes := by
  induction hc generalizing value bytes with
  | unit =>
    obtain ⟨rfl, rfl⟩ := hs
    exact .same Emits.nothing ⟨rfl, rfl⟩ _
  | bool =>
    obtain ⟨b, rfl, rfl⟩ := hs
    exact .same (Emits.put [_]) ⟨b, rfl, rfl⟩ _
  | number type =>
    obtain ⟨bits, rfl, rfl⟩ := hs
    refine .same ?_ ⟨bits, rfl, rfl⟩ _
    rw [encode, if_pos rfl]
    exact Emits.put _
  | text =>
    refine .same ?_ hs _
    rcases hs with ⟨rfl, rfl⟩ | ⟨s, rfl, hle, rfl⟩
    · exact Emits.put _
    · exact emits_blob hle
  | blob =>
    refine .same ?_ hs _
    rcases hs with ⟨rfl, rfl⟩ | ⟨run, rfl, hle, rfl⟩
    · exact Emits.put _
    · exact emits_blob hle
  | witness =>
    refine .same ?_ hs _
    rcases hs with ⟨rfl, rfl⟩ | ⟨type, rfl, hd, rfl⟩
    · exact Emits.put _
    · exact emits_witness hd
  | member kind =>
    refine .same ?_ hs _
    rcases hs with ⟨rfl, rfl⟩ | ⟨handle, rfl, hk, _, hp, rfl⟩
    · exact Emits.put _
    · rw [encode, if_pos hk]
      exact (Emits.put [1]).bind (emits_identity hp)
  | @array inner element _ ih =>
    rcases hs with ⟨rfl, rfl⟩ | ⟨items, front, back, rfl, he, hfront, hback, rfl⟩
    · exact .same (Emits.put _) (.inl ⟨rfl, rfl⟩) _
    · have hlength : Respells (length (some items.length)) (Format.length? (some items.length))
          (inner.nullsApart = true) front := .same (hfront.2 ▸ emits_length hfront.1) hfront _
      rw [encode, if_neg (by simp [he])]
      refine hlength.bind (.each (fun item front hitem => ih hitem) hback) ?_
      intro front back hfront hback
      exact .inr ⟨items, front, back, rfl, he, hfront, hback, rfl⟩
  | @nullable inner codec hc ih =>
    have hspelled : ∀ {back}, codec.Spells value back → (nullable codec).Spells value ([1] ++ back) :=
      fun hback => .inr ⟨_, hback, rfl⟩
    rcases hs with ⟨rfl, rfl⟩ | ⟨back, hback, rfl⟩
    · exact .same (Emits.put [0]) (.inl ⟨rfl, rfl⟩) _
    · obtain ⟨written, he, hw, hle, hu⟩ := ih hback
      -- A present null is the one spelling that is not written again.
      by_cases hnull : value = .null
      · subst hnull
        refine ⟨[0], Emits.put [0], .inl ⟨rfl, rfl⟩, by simp, fun hapart => ?_⟩
        simp [WireType.nullsApart, hasNull_of_spells_null hc hback] at hapart
      · have hencode : (nullable codec).encode value = (byte 1 >>= fun _ => codec.encode value) := by
          cases value with
          | null => exact absurd rfl hnull
          | _ => rfl
        rw [hencode]
        refine ⟨[1] ++ written, (Emits.put [1]).bind he, hspelled hw, by simpa using hle, ?_⟩
        intro hapart
        simp only [WireType.nullsApart, Bool.and_eq_true] at hapart
        rw [hu hapart.2]
        rfl

theorem decoders_accept_only_encodings (registry : Registry) (type : WireType) (codec : Codec)
    (ht : ofType registry type = .ok codec) :
    (∀ input offset left bounds value rest, Reader.start input offset = .ok left →
      codec.decode bounds left = .ok value rest →
      value.HasType type ∧ ∃ before consumed written : Bytes,
        input = before ++ consumed ++ rest ∧ before.length = offset ∧
        codec.size value = .ok written.length ∧ written.length ≤ consumed.length ∧
        (∀ buffer : Buffer, written.length ≤ buffer.remaining →
          ∃ after, codec.encode value buffer = .ok () after ∧ buffer.Receives written after) ∧
        (∀ bounds' behind, codec.decode bounds' (written ++ behind) = .ok value behind) ∧
        (type.nullsApart = true → written = consumed)) ∧
    (type.nullsApart = true → ∀ one other bounds bounds' value rest rest',
      codec.decode bounds (one ++ rest) = .ok value rest →
      codec.decode bounds' (other ++ rest') = .ok value rest' → one = other) := by
  have hc := catalogued_of_ofType ht
  constructor
  · intro input offset left bounds value rest hstart hdecode
    obtain ⟨before, rfl, hoffset⟩ := Reader.start_eq_ok_iff.mp hstart
    obtain ⟨consumed, rfl, hs⟩ := (decode_accepts hc bounds _ _ _).mp hdecode
    obtain ⟨written, he, hw, hle, hu⟩ := respells_encode hc hs
    refine ⟨hasType_of_spells hc hs, before, consumed, written, (List.append_assoc _ _ _).symm,
      hoffset, (sized_encode hc value).size_eq he, hle, fun buffer => he.receives,
      fun bounds' behind => ?_, hu⟩
    exact (decode_accepts hc bounds').append hw behind
  · intro hapart one other bounds bounds' value rest rest' hone hother
    obtain ⟨consumed, hinput, hs⟩ := (decode_accepts hc bounds _ _ _).mp hone
    obtain ⟨consumed', hinput', hs'⟩ := (decode_accepts hc bounds' _ _ _).mp hother
    obtain ⟨written, he, _, _, hu⟩ := respells_encode hc hs
    obtain ⟨written', he', _, _, hu'⟩ := respells_encode hc hs'
    have hsame := (he.unique he').1
    rw [List.append_cancel_right hinput, List.append_cancel_right hinput', ← hu hapart, ← hu' hapart,
      hsame]

/-- A present null is read, and written shorter; the same text without the nullable layer has one
spelling. -/
theorem null_of_two_spellings :
    (∃ written : Bytes, size (nullable text) .null = .ok written.length ∧ written.length ≤ 5 ∧
      ∀ bounds behind, decode (nullable text) bounds (written ++ behind) = .ok .null behind) ∧
    decode (nullable text) .strict [1, 255, 255, 255, 255] = .ok .null [] ∧
    decode (nullable text) .strict [0] = .ok .null [] ∧
    (WireType.nullable .text).nullsApart = false ∧ WireType.text.nullsApart = true ∧
    ∀ one other : Bytes, decode text .strict (one ++ []) = .ok (.text "a") [] →
      decode text .relaxed (other ++ []) = .ok (.text "a") [] → one = other := by
  have hdecode : decode (nullable text) .strict [1, 255, 255, 255, 255] = .ok .null [] := rfl
  have hstart : Reader.start [7, 1, 255, 255, 255, 255] 1 = .ok [1, 255, 255, 255, 255] := rfl
  obtain ⟨hread, _⟩ := decoders_accept_only_encodings .empty (.nullable .text) (nullable text) rfl
  obtain ⟨_, hunique⟩ := decoders_accept_only_encodings .empty .text text rfl
  obtain ⟨_, before, consumed, written, hinput, hbefore, hsize, hle, _, hagain, _⟩ :=
    hread _ _ _ _ _ _ hstart hdecode
  have hconsumed : consumed.length = 5 := by
    have hlen := congrArg List.length hinput
    simp only [List.length_append, List.length_cons, List.length_nil] at hlen
    omega
  refine ⟨⟨written, hsize, by omega, hagain⟩, hdecode, rfl, rfl, rfl, ?_⟩
  exact fun one other hone hother => hunique rfl one other _ _ _ _ _ hone hother

end Codec

end Remoting
