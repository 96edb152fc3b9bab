import Mathlib
import Remoting.Proofs.WellFormedCalls

/-! Decoding is local: what comes of it depends neither on what stands in front of a value nor, where
it succeeds, on what stands behind it. -/

namespace Remoting

namespace Reader

variable {α β : Type}

def outcome : EStateM.Result DecodeError Bytes α → Except DecodeError α
  | .ok value _ => .ok value
  | .error error _ => .error error

/-- What is left over, by a failure too. -/
def leftover : EStateM.Result DecodeError Bytes α → Bytes
  | .ok _ left => left
  | .error _ left => left

/-- What comes of reading a payload from an offset on, and the place at which the reader stops. -/
def runAt (read : Reader α) (payload : Bytes) (offset : Nat) :
    Except DecodeError (Except DecodeError α × Nat) :=
  (start payload offset).map fun left =>
    (outcome (read left), payload.length - (leftover (read left)).length)

/-- A reader that leaves the end of what it is given, whether it succeeds or fails. -/
def Forward (read : Reader α) : Prop := ∀ input, leftover (read input) <:+ input

namespace Forward

theorem pure (value : α) : Forward (pure value) := fun input => List.suffix_refl input

theorem throw (error : DecodeError) : Forward (throw error : Reader α) := fun input =>
  List.suffix_refl input

theorem bind {read : Reader α} {next : α → Reader β} (h : read.Forward)
    (hn : ∀ value, (next value).Forward) : (read >>= next).Forward := by
  intro input
  have hread := h input
  rw [bind_apply]
  cases hresult : read input with
  | error error left =>
    rw [hresult] at hread
    exact hread
  | ok value left =>
    rw [hresult] at hread
    exact (hn value left).trans hread

theorem expect (declared size : Nat) : Forward (expect declared size) := by
  intro input
  unfold Reader.expect
  split <;> exact List.suffix_refl input

theorem take (n : Nat) : Forward (take n) := by
  intro input
  unfold Reader.take
  split
  · exact List.drop_suffix n input
  · exact List.suffix_refl input

theorem byte : Forward byte := by
  intro input
  cases input with
  | nil => exact List.suffix_refl []
  | cons b left => exact List.suffix_cons b left

theorem number (width : Nat) : Forward (number width) := (take width).bind fun _ => pure _

theorem word : Forward word := (number 2).bind fun _ => pure _

theorem length?_bind {next : Option Nat → Reader α} (bounds : Bounds) (minSize : Nat)
    (h : ∀ n?, (next n?).Forward) : (length? bounds minSize >>= next).Forward := by
  rw [length?_bind_eq]
  refine (number 4).bind fun declared => ?_
  split
  · exact h none
  · split
    · exact throw _
    · split
      · exact (expect _ _).bind fun _ => h (some declared)
      · exact h (some declared)

theorem blob? (bounds : Bounds) : Forward (blob? bounds) := by
  refine length?_bind bounds 1 fun n? => ?_
  cases n? with
  | none => exact pure _
  | some n => exact (take n).bind fun run => pure _

theorem utf8 (run : Bytes) (make : String → α) :
    Forward (match textOfBytes? run with
      | none => MonadExcept.throw DecodeError.invalidUtf8
      | some s => Pure.pure (make s)) := by
  cases textOfBytes? run with
  | none => exact throw _
  | some s => exact pure _

theorem text : Forward text := by
  refine (blob? .strict).bind fun run? => ?_
  cases run? with
  | none => exact throw _
  | some run => exact utf8 run id

theorem manyOnto {read : Reader α} (h : read.Forward) (count : Nat) (done : List α) :
    Forward (manyOnto read count done) := by
  induction count generalizing done with
  | zero => exact pure _
  | succ count ih => exact h.bind fun next => ih (next :: done)

theorem many {read : Reader α} (h : read.Forward) (count : Nat) : Forward (many read count) :=
  h.manyOnto count []

theorem witnessAfter (layers : Nat) (tag : UInt8) : Forward (witnessAfter layers tag) := by
  induction layers generalizing tag with
  | zero => exact throw _
  | succ layers ih =>
    have hinner (wrap : WireType → WireType) : Forward
        (Reader.byte >>= fun b => Reader.witnessAfter layers b >>= fun inner =>
          Pure.pure (wrap inner)) :=
      byte.bind fun b => (ih b).bind fun _ => pure _
    rw [Reader.witnessAfter]
    cases TypeTag.ofByte? tag with
    | none => exact throw _
    | some found =>
      cases found with
      | array => exact hinner .array
      | nullable => exact hinner .nullable
      | pending => exact hinner .pending
      | generic => exact word.bind fun _ => pure _
      | member =>
        refine byte.bind fun b => ?_
        cases MemberKind.ofByte? b with
        | none => exact throw _
        | some kind => exact pure _
      | _ => exact pure _

theorem witness : Forward witness := byte.bind fun tag => witnessAfter maxWitnessDepth tag

theorem witnesses : Forward witnesses :=
  (number 2).bind fun count => (expect count count).bind fun _ => witness.many count

theorem presence : Forward presence := by
  refine byte.bind fun b => ?_
  split
  · exact pure _
  · exact pure _
  · exact throw _

theorem identity (kind : MemberKind) : Forward (identity kind) := by
  refine text.bind fun declaring => text.bind fun name => ?_
  split
  · exact word.bind fun _ => witnesses.bind fun _ => witnesses.bind fun _ => pure _
  · exact pure _

theorem handle (registry : Registry) (identity : MemberIdentity) :
    Forward (handle registry identity) := by
  unfold Reader.handle
  cases registry.resolve identity with
  | error error => exact throw _
  | ok member =>
    dsimp only
    split
    · exact pure _
    · cases MemberHandle.construct? member identity.arguments with
      | none => exact throw _
      | some handle => exact pure _

/-- What stands in front of the offset moves the place at which a reader stops, and nothing else. -/
theorem runAt_append {read : Reader α} (h : read.Forward) (before input : Bytes) :
    ∃ result consumed, consumed ≤ input.length ∧ read.runAt input 0 = .ok (result, consumed) ∧
      read.runAt (before ++ input) before.length = .ok (result, before.length + consumed) := by
  have hstart : start (before ++ input) before.length = .ok input :=
    start_eq_ok_iff.mpr ⟨before, rfl, rfl⟩
  have hle := (h input).length_le
  refine ⟨outcome (read input), input.length - (leftover (read input)).length, Nat.sub_le _ _, ?_, ?_⟩
  · rw [runAt, start_zero, Except.map]
  · rw [runAt, hstart, Except.map, List.length_append, Nat.add_sub_assoc hle]

end Forward

namespace Accepts

variable {read : Reader α} {format : Format α} {value : α}

theorem runAt_eq_ok_iff (h : read.Accepts format) {input : Bytes} {consumed : Nat} :
    read.runAt input 0 = .ok (.ok value, consumed) ↔
      ∃ bytes rest, input = bytes ++ rest ∧ format value bytes ∧ bytes.length = consumed := by
  rw [runAt, start_zero, Except.map, Except.ok.injEq, Prod.mk.injEq]
  constructor
  · intro hread
    obtain ⟨houtcome, rfl⟩ := hread
    cases hresult : read input with
    | error error left => simp [hresult, outcome] at houtcome
    | ok found left =>
      rw [hresult, outcome, Except.ok.injEq] at houtcome
      subst houtcome
      obtain ⟨bytes, rfl, hspelled⟩ := (h _ _ _).mp hresult
      exact ⟨bytes, left, rfl, hspelled, by simp [leftover]⟩
  · intro hspelled
    obtain ⟨bytes, rest, rfl, hspelled, rfl⟩ := hspelled
    rw [h.append hspelled rest]
    exact ⟨rfl, by simp [leftover]⟩

/-- What a reader consumed decides what it has read. -/
theorem runAt_of_take_eq (h : read.Accepts format) {input other : Bytes} {consumed : Nat}
    (hread : read.runAt input 0 = .ok (.ok value, consumed))
    (hsame : other.take consumed = input.take consumed) :
    read.runAt other 0 = .ok (.ok value, consumed) := by
  obtain ⟨bytes, rest, rfl, hspelled, rfl⟩ := h.runAt_eq_ok_iff.mp hread
  rw [List.take_left] at hsame
  obtain ⟨tail, rfl⟩ := List.prefix_iff_eq_take.mpr hsame.symm
  exact h.runAt_eq_ok_iff.mpr ⟨bytes, tail, rfl, hspelled, rfl⟩

theorem runAt_whole_iff (h : read.Accepts format) {input : Bytes} :
    read.runAt input 0 = .ok (.ok value, input.length) ↔ format value input := by
  rw [h.runAt_eq_ok_iff]
  constructor
  · intro hread
    obtain ⟨bytes, rest, rfl, hspelled, hlen⟩ := hread
    obtain rfl : rest = [] := by simpa using hlen
    rwa [List.append_nil]
  · intro hspelled
    exact ⟨input, [], (List.append_nil input).symm, hspelled, rfl⟩

/-- No spelling begins with another one. -/
theorem eq_of_begins (h : read.Accepts format) {found : α} {one other : Bytes}
    (hone : format value one) (hother : format found other) (hbegins : one <+: other) :
    one = other := by
  obtain ⟨tail, rfl⟩ := hbegins
  have hfirst := h.append hone tail
  have hwhole := h.append hother []
  rw [List.append_nil, hfirst] at hwhole
  cases hwhole
  exact (List.append_nil one).symm

end Accepts

end Reader

namespace Codec

open Reader

theorem decode_forward {registry : Registry} {type : WireType} {codec : Codec}
    (h : Catalogued registry type codec) (bounds : Bounds) : (codec.decode bounds).Forward := by
  induction h generalizing bounds with
  | unit => exact Forward.pure _
  | bool =>
    refine Forward.byte.bind fun b => ?_
    split
    · exact Forward.pure _
    · exact Forward.pure _
    · exact Forward.throw _
  | number type => exact (Forward.number _).bind fun _ => Forward.pure _
  | text =>
    refine (Forward.blob? bounds).bind fun run? => ?_
    cases run? with
    | none => exact Forward.pure _
    | some run => exact Forward.utf8 run Value.text
  | blob =>
    refine (Forward.blob? bounds).bind fun run? => ?_
    cases run? with
    | none => exact Forward.pure _
    | some run => exact Forward.pure _
  | witness =>
    refine Forward.byte.bind fun tag => ?_
    split
    · exact Forward.pure _
    · exact (Forward.witnessAfter _ tag).bind fun _ => Forward.pure _
  | member kind =>
    refine Forward.presence.bind fun present => ?_
    split
    · exact (Forward.identity kind).bind fun identity =>
        (Forward.handle registry identity).bind fun _ => Forward.pure _
    · exact Forward.pure _
  | array _ ih =>
    refine Forward.length?_bind bounds _ fun count? => ?_
    cases count? with
    | none => exact Forward.pure _
    | some count =>
      dsimp only
      split
      · exact Forward.throw _
      · exact ((ih .strict).many count).bind fun _ => Forward.pure _
  | nullable _ ih =>
    refine Forward.presence.bind fun present => ?_
    split
    · exact ih bounds
    · exact Forward.pure _

end Codec

/-- Decoding goes by the bytes that it consumes and by no others, and so does what comes of a
request, whose handler reads its payload from an offset on. -/
theorem decoding_is_local :
    (∀ registry type codec, Codec.ofType registry type = .ok codec →
      (∀ bounds before input, ∃ result consumed, consumed ≤ input.length ∧
        (codec.decode bounds).runAt input 0 = .ok (result, consumed) ∧
        (codec.decode bounds).runAt (before ++ input) before.length =
          .ok (result, before.length + consumed)) ∧
      (∀ bounds input value consumed,
        (codec.decode bounds).runAt input 0 = .ok (.ok value, consumed) →
          ∀ other, other.take consumed = input.take consumed →
            (codec.decode bounds).runAt other 0 = .ok (.ok value, consumed)) ∧
      ∀ bounds bounds' one other value value',
        (codec.decode bounds).runAt one 0 = .ok (.ok value, one.length) →
          (codec.decode bounds').runAt other 0 = .ok (.ok value', other.length) →
            one <+: other → one = other) ∧
    ∀ (handler : Handler) root payload offset,
      (offset ≤ payload.length →
        handler.handle root payload offset = handler.handle root (payload.drop offset) 0) ∧
      (payload.length < offset → handler.handle root payload offset =
        (⟨.error (.decode (.offsetOutOfRange offset payload.length)), none⟩, handler)) := by
  constructor
  · intro registry type codec htype
    have hcatalogued := Codec.catalogued_of_ofType htype
    have haccepts := Codec.decode_accepts hcatalogued
    refine ⟨fun bounds => (Codec.decode_forward hcatalogued bounds).runAt_append, ?_, ?_⟩
    · intro bounds input value consumed hread other
      exact (haccepts bounds).runAt_of_take_eq hread
    · intro bounds bounds' one other value value' hone hother
      exact (haccepts bounds).eq_of_begins ((haccepts bounds).runAt_whole_iff.mp hone)
        ((haccepts bounds').runAt_whole_iff.mp hother)
  · intro handler root payload offset
    constructor
    · intro hle
      exact handler.handle_of_start root (Reader.start_eq_ok_iff.mpr
        ⟨payload.take offset, (List.take_append_drop offset payload).symm, List.length_take_of_le hle⟩)
    · intro hlt
      have hstart : Reader.start payload offset = .error (.offsetOutOfRange offset payload.length) :=
        if_pos hlt
      rw [Handler.handle, hstart]

namespace Codec

def twoTexts : Bytes := [2, 0, 0, 0, 1, 0, 0, 0, 97, 255, 255, 255, 255]

/-- Two texts, one of them null, are the same behind two bytes and in front of any, and with one
byte more they are nothing. What is handled behind a byte is what is handled without it. -/
theorem two_texts_anywhere :
    (decode (array text) .strict).runAt (8 :: 9 :: twoTexts) 2 =
      .ok (.ok (.array [.text "a", .null]), 15) ∧
    (∀ rest, (decode (array text) .strict).runAt (twoTexts ++ rest) 0 =
      .ok (.ok (.array [.text "a", .null]), 13)) ∧
    (∀ value b, (decode (array text) .relaxed).runAt (twoTexts ++ [b]) 0 ≠ .ok (.ok value, 14)) ∧
    (Handler.generic ⟨Market.swapPath, Market.swap, .empty, .empty⟩).handle Market.keptMarket
        (7 :: Market.swapPayload) 1 =
      (Handler.generic ⟨Market.swapPath, Market.swap, .empty, .empty⟩).handle Market.keptMarket
        Market.swapPayload 0 := by
  have hread : (decode (array text) .strict).runAt twoTexts 0 =
      .ok (.ok (.array [.text "a", .null]), 13) := rfl
  obtain ⟨hcodecs, hhandler⟩ := decoding_is_local
  obtain ⟨hmoved, hfollowed, hbegins⟩ := hcodecs .empty (.array .text) (array text) rfl
  refine ⟨?_, fun rest => ?_, fun value b hlonger => ?_, ?_⟩
  · obtain ⟨result, consumed, _, hfirst, hbehind⟩ := hmoved .strict [8, 9] twoTexts
    rw [hread] at hfirst
    cases hfirst
    exact hbehind
  · exact hfollowed .strict twoTexts _ 13 hread _ (List.take_left' rfl)
  · have hsame := hbegins .strict .relaxed _ _ _ value hread hlonger (List.prefix_append twoTexts [b])
    simpa using congrArg List.length hsame
  · exact (hhandler _ Market.keptMarket (7 :: Market.swapPayload) 1).1 (by decide)

end Codec

end Remoting
