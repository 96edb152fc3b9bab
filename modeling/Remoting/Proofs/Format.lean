import Mathlib
import Remoting.Wire.Reader

/-! Formats, and the readers that accept them. A format says which bytes spell which value. A reader
accepts a format when it succeeds on exactly the bytes that begin with a spelling, and then stops
right behind it; what follows has no say. -/

namespace Remoting

abbrev Format (α : Type) := α → Bytes → Prop

theorem ofLittleEndian_littleEndian (width n : Nat) :
    ofLittleEndian (littleEndian width n) = n % 256 ^ width := by
  induction width generalizing n with
  | zero => simp [littleEndian, ofLittleEndian, Nat.mod_one]
  | succ width ih =>
    have hbyte : (UInt8.ofNat n).toNat = n % 256 := by simp
    rw [littleEndian, ofLittleEndian, ih, hbyte, Nat.pow_succ, Nat.mul_comm (256 ^ width) 256,
      Nat.mod_mul]

theorem ofLittleEndian_lt (bytes : Bytes) : ofLittleEndian bytes < 256 ^ bytes.length := by
  induction bytes with
  | nil => simp [ofLittleEndian]
  | cons byte rest ih =>
    have hb := byte.toNat_lt
    simp only [ofLittleEndian, List.length_cons, Nat.pow_succ]
    omega

def blobBytes (run : Bytes) : Bytes := littleEndian 4 run.length ++ run

namespace Format

variable {α β : Type}

def only (value : α) : Format α := fun found bytes => found = value ∧ bytes = []

def none : Format α := fun _ _ => False

/-- A spelling, and behind it one of a format that depends on the value. -/
def andThen (first : Format α) (second : α → Format β) : Format β := fun value bytes =>
  ∃ found front back, first found front ∧ second found value back ∧ bytes = front ++ back

def repeated (item : Format α) (count : Nat) : Format (List α) := fun values bytes =>
  values.length = count ∧ ∃ pieces, List.Forall₂ item values pieces ∧ bytes = pieces.flatten

def number (width : Nat) : Format Nat := fun n bytes =>
  n < 256 ^ width ∧ bytes = littleEndian width n

def length? : Format (Option Nat)
  | .none, bytes => bytes = littleEndian 4 nullLength
  | some n, bytes => n ≤ maxLength ∧ bytes = littleEndian 4 n

def blob? : Format (Option Bytes)
  | .none, bytes => bytes = littleEndian 4 nullLength
  | some run, bytes => run.length ≤ maxLength ∧ bytes = blobBytes run

def text : Format String := fun value bytes =>
  value.utf8ByteSize ≤ maxLength ∧ bytes = blobBytes (textBytes value)

theorem repeated_cons {item : Format α} {count : Nat} {value : α} {values : List α} {bytes : Bytes} :
    repeated item (count + 1) (value :: values) bytes ↔
      ∃ front back, item value front ∧ repeated item count values back ∧ bytes = front ++ back := by
  constructor
  · intro h
    obtain ⟨hlen, pieces, hall, rfl⟩ := h
    cases hall with
    | cons hfirst hrest =>
      exact ⟨_, _, hfirst, ⟨by simpa using hlen, _, hrest, rfl⟩, by simp⟩
  · intro h
    obtain ⟨front, _, hfirst, ⟨hlen, pieces, hall, rfl⟩, rfl⟩ := h
    exact ⟨by simp [hlen], front :: pieces, .cons hfirst hall, by simp⟩

theorem repeated_and {item : Format α} {holds : α → Prop} {count : Nat} {values : List α}
    {bytes : Bytes} : repeated (fun value bytes => item value bytes ∧ holds value) count values bytes ↔
      repeated item count values bytes ∧ ∀ value ∈ values, holds value := by
  have hall : ∀ pieces, List.Forall₂ (fun value bytes => item value bytes ∧ holds value) values pieces ↔
      (∀ value ∈ values, holds value) ∧ List.Forall₂ item values pieces := by
    intro pieces
    rw [← List.forall₂_and_left]
    simp only [and_comm]
  simp only [repeated, hall]
  constructor
  · intro h
    obtain ⟨hcount, pieces, ⟨hholds, hitems⟩, rfl⟩ := h
    exact ⟨⟨hcount, pieces, hitems, rfl⟩, hholds⟩
  · intro h
    obtain ⟨⟨hcount, pieces, hitems, rfl⟩, hholds⟩ := h
    exact ⟨hcount, pieces, ⟨hholds, hitems⟩, rfl⟩

theorem repeated_length_ge {item : Format α} {size : Nat}
    (hsize : ∀ value bytes, item value bytes → size ≤ bytes.length) {count : Nat} {values : List α}
    {bytes : Bytes} (h : repeated item count values bytes) : count * size ≤ bytes.length := by
  obtain ⟨rfl, pieces, hall, rfl⟩ := h
  induction hall with
  | nil => simp
  | @cons value piece _ _ hfirst _ ih =>
    have hpiece := hsize value piece hfirst
    rw [List.length_cons, Nat.succ_mul, List.flatten_cons, List.length_append]
    omega

end Format

namespace Reader

variable {α β : Type}

def Accepts (read : Reader α) (format : Format α) : Prop :=
  ∀ input value rest,
    read input = .ok value rest ↔ ∃ bytes, input = bytes ++ rest ∧ format value bytes

theorem bind_apply (read : Reader α) (next : α → Reader β) (input : Bytes) :
    (read >>= next) input =
      match read input with
      | .ok value left => next value left
      | .error error left => .error error left := by
  simp only [bind, EStateM.bind]
  cases read input <;> rfl

theorem bind_eq_ok_iff {read : Reader α} {next : α → Reader β} {input rest : Bytes} {value : β} :
    (read >>= next) input = .ok value rest ↔
      ∃ found left, read input = .ok found left ∧ next found left = .ok value rest := by
  rw [bind_apply]
  cases read input <;> simp

theorem start_eq_ok_iff {payload left : Bytes} {offset : Nat} :
    start payload offset = .ok left ↔
      ∃ before, payload = before ++ left ∧ before.length = offset := by
  unfold start
  constructor
  · intro h
    split at h
    · cases h
    · rename_i hle
      cases h
      exact ⟨payload.take offset, (List.take_append_drop offset payload).symm,
        List.length_take_of_le (Nat.le_of_not_gt hle)⟩
  · intro h
    obtain ⟨before, rfl, rfl⟩ := h
    have hle : ¬before.length > (before ++ left).length := by simp
    rw [if_neg hle, List.drop_left]

theorem start_zero (payload : Bytes) : start payload 0 = .ok payload := rfl

theorem length?_bind_eq (bounds : Bounds) (minSize : Nat) (next : Option Nat → Reader α) :
    (length? bounds minSize >>= next) = (number 4 >>= fun declared =>
      if declared = nullLength then next none
      else if declared > maxLength then throw (.invalidLength ((declared : Int) - 0x100000000))
      else if bounds = .strict then
        expect declared (declared * minSize) >>= fun _ => next (some declared)
      else next (some declared)) := by
  funext input
  simp only [length?, bind_apply]
  cases number 4 input with
  | error error left => rfl
  | ok declared left =>
    by_cases hnull : declared = nullLength
    · simp only [hnull, if_true]
      rfl
    · by_cases hlarge : declared > maxLength
      · simp only [hnull, hlarge, if_true, if_false]
        rfl
      · simp only [hnull, hlarge, if_false]
        by_cases hstrict : bounds = .strict
        · simp only [hstrict, if_true, bind_apply]
          cases expect declared (declared * minSize) left <;> rfl
        · simp only [hstrict, if_false]
          rfl

namespace Accepts

theorem congr {read : Reader α} {format other : Format α} (h : read.Accepts format)
    (he : ∀ value bytes, format value bytes ↔ other value bytes) : read.Accepts other := by
  intro input value rest
  simp only [h input value rest, he]

theorem append {read : Reader α} {format : Format α} (h : read.Accepts format) {value : α}
    {bytes : Bytes} (hs : format value bytes) (rest : Bytes) :
    read (bytes ++ rest) = .ok value rest :=
  (h _ _ _).mpr ⟨bytes, rfl, hs⟩

theorem pure (value : α) : Accepts (pure value) (Format.only value) := by
  intro input found rest
  constructor
  · rintro ⟨⟩
    exact ⟨[], rfl, rfl, rfl⟩
  · intro h
    obtain ⟨_, rfl, rfl, rfl⟩ := h
    rfl

theorem throw (error : DecodeError) : Accepts (throw error : Reader α) Format.none := by
  intro input value rest
  constructor
  · rintro ⟨⟩
  · intro h
    obtain ⟨_, _, h⟩ := h
    exact h.elim

theorem bind {read : Reader α} {next : α → Reader β} {first : Format α} {second : α → Format β}
    (h : read.Accepts first) (hn : ∀ value, (next value).Accepts (second value)) :
    (read >>= next).Accepts (first.andThen second) := by
  intro input value rest
  rw [bind_eq_ok_iff]
  constructor
  · intro h
    obtain ⟨found, left, hr, hv⟩ := h
    obtain ⟨front, rfl, hf⟩ := (h _ _ _).mp hr
    obtain ⟨back, rfl, hb⟩ := (hn _ _ _ _).mp hv
    exact ⟨front ++ back, by simp, found, front, back, hf, hb, rfl⟩
  · intro h
    obtain ⟨_, rfl, found, front, back, hf, hb, rfl⟩ := h
    refine ⟨found, back ++ rest, ?_, (hn found).append hb rest⟩
    simpa using h.append hf (back ++ rest)

/-- A check that enough is left changes nothing in front of a reader that needs as much. -/
theorem expect {read : Reader α} {format : Format α} {size : Nat} (declared : Nat)
    (h : read.Accepts format) (hsize : ∀ value bytes, format value bytes → size ≤ bytes.length) :
    Accepts (expect declared size >>= fun _ => read) format := by
  intro input value rest
  rw [← h input value rest, bind_eq_ok_iff]
  by_cases hl : Bytes.holds size input = true
  · simp [Reader.expect, hl]
  · simp only [Reader.expect, hl, Bool.false_eq_true, if_false, reduceCtorEq, false_and,
      exists_false, false_iff]
    intro hr
    obtain ⟨bytes, rfl, hf⟩ := (h _ _ _).mp hr
    have hb := hsize value bytes hf
    exact hl (Bytes.holds_iff.mpr (by simp; omega))

theorem take (n : Nat) : Accepts (take n) (fun found bytes => found.length = n ∧ bytes = found) := by
  intro input value rest
  constructor
  · intro h
    unfold Reader.take at h
    split at h
    · rename_i hl
      cases h
      have hn := Bytes.holds_iff.mp hl
      exact ⟨input.take n, (List.take_append_drop n input).symm, List.length_take_of_le hn, rfl⟩
    · cases h
  · intro h
    obtain ⟨_, rfl, rfl, rfl⟩ := h
    exact take_append _ rest

theorem byte : Accepts byte (fun found bytes => bytes = [found]) := by
  intro input value rest
  constructor
  · intro h
    cases input with
    | nil => cases h
    | cons b left =>
      cases h
      exact ⟨[value], rfl, rfl⟩
  · intro h
    obtain ⟨_, rfl, rfl⟩ := h
    rfl

theorem number (width : Nat) : Accepts (number width) (Format.number width) := by
  refine ((take width).bind fun bytes => pure (ofLittleEndian bytes)).congr ?_
  intro n bytes
  constructor
  · intro h
    obtain ⟨_, run, _, ⟨hlen, rfl⟩, ⟨rfl, rfl⟩, rfl⟩ := h
    rw [List.append_nil, ← hlen]
    exact ⟨ofLittleEndian_lt run, (littleEndian_ofLittleEndian run).symm⟩
  · intro h
    obtain ⟨hn, rfl⟩ := h
    refine ⟨littleEndian width n, _, [], ⟨by simp, rfl⟩, ⟨?_, rfl⟩, by simp⟩
    rw [ofLittleEndian_littleEndian, Nat.mod_eq_of_lt hn]

theorem word : Accepts word (fun n bytes => bytes = littleEndian 2 n.toNat) := by
  refine ((number 2).bind fun n => pure (UInt16.ofNat n)).congr ?_
  intro n bytes
  constructor
  · intro h
    obtain ⟨m, _, _, ⟨hm, rfl⟩, ⟨rfl, rfl⟩, rfl⟩ := h
    rw [List.append_nil, UInt16.toNat_ofNat_of_lt' hm]
  · rintro rfl
    exact ⟨n.toNat, _, [], ⟨n.toNat_lt, rfl⟩, ⟨by simp, rfl⟩, by simp⟩

theorem length?_bind {next : Option Nat → Reader α} {format : Option Nat → Format α}
    (bounds : Bounds) (minSize : Nat) (h : ∀ n?, (next n?).Accepts (format n?))
    (hsize : ∀ n value bytes, format (some n) value bytes → n * minSize ≤ bytes.length) :
    (length? bounds minSize >>= next).Accepts (Format.length?.andThen format) := by
  rw [length?_bind_eq]
  have hnext : ∀ declared, Accepts
      (if declared = nullLength then next none
        else if declared > maxLength then
          MonadExcept.throw (.invalidLength ((declared : Int) - 0x100000000))
        else if bounds = .strict then
          Reader.expect declared (declared * minSize) >>= fun _ => next (some declared)
        else next (some declared))
      (if declared = nullLength then format none
        else if declared > maxLength then Format.none else format (some declared)) := by
    intro declared
    split
    · exact h none
    · split
      · exact throw _
      · split
        · exact (h (some declared)).expect declared (hsize declared)
        · exact h (some declared)
  refine ((number 4).bind hnext).congr ?_
  intro value bytes
  constructor
  · intro h
    obtain ⟨declared, front, back, ⟨_, rfl⟩, hback, rfl⟩ := h
    split at hback
    · rename_i hnull
      exact ⟨none, _, back, by rw [hnull]; rfl, hback, rfl⟩
    · split at hback
      · exact hback.elim
      · rename_i hle
        exact ⟨some declared, _, back, ⟨Nat.le_of_not_gt hle, rfl⟩, hback, rfl⟩
  · intro h
    obtain ⟨n?, front, back, hfront, hback, rfl⟩ := h
    cases n? with
    | none => exact ⟨nullLength, front, back, ⟨by decide, hfront⟩, by simpa using hback, rfl⟩
    | some n =>
      obtain ⟨hn, rfl⟩ := hfront
      have hlt : n < nullLength := Nat.lt_of_le_of_lt hn (by decide)
      refine ⟨n, _, back, ⟨Nat.lt_trans hlt (by decide), rfl⟩, ?_, rfl⟩
      simpa only [if_neg (Nat.ne_of_lt hlt), if_neg (Nat.not_lt.mpr hn)] using hback

theorem blob? (bounds : Bounds) : Accepts (blob? bounds) Format.blob? := by
  have hnext : ∀ n?, Accepts
      (match n? with
        | none => Pure.pure none
        | some n => Reader.take n >>= fun run => Pure.pure (some run))
      (match n? with
        | none => Format.only none
        | some n => Format.andThen (fun found bytes => found.length = n ∧ bytes = found)
          fun run => Format.only (some run)) := by
    intro n?
    cases n? with
    | none => exact pure none
    | some n => exact (take n).bind fun run => pure (some run)
  refine (length?_bind bounds 1 hnext ?_).congr ?_
  · rintro n _ _ ⟨run, _, _, ⟨hlen, rfl⟩, ⟨_, rfl⟩, rfl⟩
    simp [hlen]
  · intro run? bytes
    constructor
    · intro h
      obtain ⟨n?, _, _, hfront, hback, rfl⟩ := h
      cases n? with
      | none =>
        obtain ⟨rfl, rfl⟩ := hback
        rw [List.append_nil]
        exact hfront
      | some n =>
        obtain ⟨run, _, _, ⟨hlen, rfl⟩, ⟨rfl, rfl⟩, rfl⟩ := hback
        obtain ⟨hn, rfl⟩ := hfront
        exact ⟨hlen ▸ hn, by simp [blobBytes, hlen]⟩
    · intro h
      cases run? with
      | none => exact ⟨none, _, [], h, ⟨rfl, rfl⟩, by simp⟩
      | some run =>
        obtain ⟨hn, rfl⟩ := h
        exact ⟨some run.length, _, run, ⟨hn, rfl⟩,
          ⟨run, run, [], ⟨rfl, rfl⟩, ⟨rfl, rfl⟩, by simp⟩, rfl⟩

theorem manyOnto {read : Reader α} {item : Format α} (h : read.Accepts item) (count : Nat)
    (done : List α) : Accepts (manyOnto read count done) (fun values bytes =>
      ∃ new, values = done.reverse ++ new ∧ Format.repeated item count new bytes) := by
  induction count generalizing done with
  | zero =>
    refine (pure done.reverse).congr fun values bytes => ?_
    constructor
    · intro h
      obtain ⟨rfl, rfl⟩ := h
      exact ⟨[], by simp, rfl, [], .nil, rfl⟩
    · intro h
      obtain ⟨new, rfl, hlen, pieces, hall, rfl⟩ := h
      obtain rfl := List.length_eq_zero_iff.mp hlen
      cases hall
      exact ⟨by simp, rfl⟩
  | succ count ih =>
    refine (h.bind fun next => ih (next :: done)).congr fun values bytes => ?_
    constructor
    · intro h
      obtain ⟨next, front, back, hfront, ⟨new, rfl, hnew⟩, rfl⟩ := h
      exact ⟨next :: new, by simp, Format.repeated_cons.mpr ⟨front, back, hfront, hnew, rfl⟩⟩
    · intro h
      obtain ⟨new, rfl, hnew⟩ := h
      cases new with
      | nil => cases hnew.1
      | cons next new =>
        obtain ⟨front, back, hfront, hrest, rfl⟩ := Format.repeated_cons.mp hnew
        exact ⟨next, front, back, hfront, ⟨new, by simp, hrest⟩, rfl⟩

theorem many {read : Reader α} {item : Format α} (h : read.Accepts item) (count : Nat) :
    Accepts (many read count) (Format.repeated item count) :=
  (h.manyOnto count []).congr fun values bytes => by simp

theorem utf8 (run : Bytes) (make : String → α) :
    Accepts (match textOfBytes? run with
      | none => MonadExcept.throw DecodeError.invalidUtf8
      | some s => Pure.pure (make s))
      (fun value bytes => ∃ s, run = textBytes s ∧ value = make s ∧ bytes = []) := by
  cases ht : textOfBytes? run with
  | none =>
    refine (throw _).congr fun value bytes => iff_of_false id ?_
    intro h
    obtain ⟨s, rfl, _, _⟩ := h
    rw [textOfBytes?_textBytes] at ht
    cases ht
  | some s =>
    obtain rfl := textBytes_of_textOfBytes? ht
    refine (pure (make s)).congr fun value bytes => ⟨fun h => ⟨s, rfl, h⟩, ?_⟩
    intro h
    obtain ⟨other, hsame, h⟩ := h
    rw [hsame, textOfBytes?_textBytes] at ht
    cases ht
    exact h

theorem text : Accepts text Format.text := by
  refine ((blob? .strict).bind fun run? => (?_ : Accepts _ fun value bytes =>
    run? = some (textBytes value) ∧ bytes = [])).congr fun value bytes => ?_
  · cases run? with
    | none => exact (throw _).congr fun value bytes => by simp [Format.none]
    | some run =>
      refine (utf8 run id).congr fun value bytes => ?_
      constructor
      · intro h
        obtain ⟨_, rfl, rfl, rfl⟩ := h
        exact ⟨rfl, rfl⟩
      · intro h
        obtain ⟨hrun, rfl⟩ := h
        exact ⟨value, Option.some.inj hrun, rfl, rfl⟩
  · constructor
    · intro h
      obtain ⟨_, front, _, hb, ⟨rfl, rfl⟩, rfl⟩ := h
      obtain ⟨hle, rfl⟩ := hb
      exact ⟨by simpa using hle, by simp⟩
    · intro h
      obtain ⟨hle, rfl⟩ := h
      exact ⟨some (textBytes value), _, [], ⟨by simpa using hle, rfl⟩, ⟨rfl, rfl⟩, by simp⟩

end Accepts

end Reader

end Remoting
