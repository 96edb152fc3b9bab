import Mathlib
import Remoting.Wire.Writer

/-! What a writing action does, whatever the buffer: which bytes it writes while they fit, and how
it ends once they are written. The sizes calculated beforehand foretell both. -/

namespace Remoting

namespace Buffer

theorem write_inj {buffer : Buffer} {bytes other : Bytes}
    (h : buffer.write bytes = buffer.write other) : bytes = other := by
  have hwritten := congrArg (fun after : Buffer => after.written.toList) h
  simpa [write] using hwritten

@[simp] theorem position_write_filled (size : Nat) (fill : UInt8) (bytes : Bytes) :
    ((filled size fill).write bytes).position = bytes.length := by
  rw [position_write]
  exact Nat.zero_add _

@[simp] theorem contents_write_filled (fill : UInt8) (bytes : Bytes) :
    ((filled bytes.length fill).write bytes).contents = bytes := by
  have hroom : (filled bytes.length fill).room.drop bytes.length = [] :=
    List.drop_of_length_le (by simp [filled])
  rw [contents_write (Nat.le_refl _), hroom]
  simp [filled]

end Buffer

namespace Writer

def finish : Except EncodeError Unit → Writer Unit
  | .ok () => pure ()
  | .error error => throw error

/-- The bytes, then the ending; where they do not fit, a part of them and an overflow. -/
structure Emits (action : Writer Unit) (bytes : Bytes) (ending : Except EncodeError Unit) : Prop where
  fits (buffer : Buffer) (h : bytes.length ≤ buffer.remaining) :
    action buffer = finish ending (buffer.write bytes)
  overflows (buffer : Buffer) (h : buffer.remaining < bytes.length) :
    ∃ needed left part, part <+: bytes ∧ part.length ≤ buffer.remaining ∧
      action buffer = .error (.overflow needed left) (buffer.write part)

theorem bind_apply (action : Writer Unit) (next : Unit → Writer Unit) (buffer : Buffer) :
    (action >>= next) buffer =
      match action buffer with
      | .ok () after => next () after
      | .error error after => .error error after := by
  simp only [bind, EStateM.bind]
  cases action buffer <;> rfl

theorem each_append {α : Type} (write : α → Writer Unit) (items others : List α) :
    each write (items ++ others) = each write items >>= fun _ => each write others := by
  induction items with
  | nil => rfl
  | cons item items ih =>
    rw [List.cons_append, each, each, ih]
    exact (bind_assoc (m := EStateM EncodeError Buffer) _ _ _).symm

theorem finish_eq_ok {ending : Except EncodeError Unit} {buffer after : Buffer}
    (h : finish ending buffer = .ok () after) : ending = .ok () ∧ buffer = after := by
  cases ending with
  | ok _ =>
    cases h
    exact ⟨rfl, rfl⟩
  | error error => cases h

theorem finish_inj {ending ending' : Except EncodeError Unit} {buffer buffer' : Buffer}
    (h : finish ending buffer = finish ending' buffer') : ending = ending' ∧ buffer = buffer' := by
  cases ending with
  | ok _ =>
    obtain ⟨rfl, rfl⟩ := finish_eq_ok h.symm
    exact ⟨rfl, rfl⟩
  | error error =>
    cases ending' with
    | ok _ => cases h
    | error other =>
      cases h
      exact ⟨rfl, rfl⟩

namespace Emits

theorem nothing : Emits (pure ()) [] (.ok ()) where
  fits buffer _ := by rw [Buffer.write_nil]; rfl
  overflows buffer h := absurd h (Nat.not_lt_zero _)

theorem throw (error : EncodeError) : Emits (throw error) [] (.error error) where
  fits buffer _ := by rw [Buffer.write_nil]; rfl
  overflows buffer h := absurd h (Nat.not_lt_zero _)

theorem put (bytes : Bytes) : Emits (put bytes) bytes (.ok ()) where
  fits _ h := put_of_le h
  overflows buffer h :=
    ⟨_, _, [], List.nil_prefix, Nat.zero_le _, by rw [Buffer.write_nil, put_of_lt h]⟩

theorem bind {action next : Writer Unit} {front back : Bytes} {ending : Except EncodeError Unit}
    (h : Emits action front (.ok ())) (hn : Emits next back ending) :
    Emits (action >>= fun _ => next) (front ++ back) ending where
  fits buffer hle := by
    rw [List.length_append] at hle
    have ha : action buffer = .ok () (buffer.write front) := h.fits buffer (by omega)
    have hb := hn.fits (buffer.write front) (by simp; omega)
    rw [bind_apply, ha]
    simpa [Buffer.write_append] using hb
  overflows buffer hlt := by
    rw [List.length_append] at hlt
    by_cases hfront : front.length ≤ buffer.remaining
    · have ha : action buffer = .ok () (buffer.write front) := h.fits buffer hfront
      obtain ⟨needed, left, part, hp, hl, hb⟩ := hn.overflows (buffer.write front) (by simp; omega)
      refine ⟨needed, left, front ++ part, (List.prefix_append_right_inj front).mpr hp, ?_, ?_⟩
      · rw [Buffer.remaining_write] at hl
        rw [List.length_append]
        omega
      · rw [bind_apply, ha, Buffer.write_append]
        exact hb
    · obtain ⟨needed, left, part, hp, hl, ha⟩ := h.overflows buffer (by omega)
      exact ⟨needed, left, part, hp.trans (List.prefix_append front back), hl, by rw [bind_apply, ha]⟩

/-- An action that fails of its own accord keeps those behind it from doing anything. -/
theorem bind_error {action : Writer Unit} {bytes : Bytes} {error : EncodeError}
    (h : Emits action bytes (.error error)) (next : Unit → Writer Unit) :
    Emits (action >>= next) bytes (.error error) where
  fits buffer hle := by
    have ha : action buffer = .error error (buffer.write bytes) := h.fits buffer hle
    rw [bind_apply, ha]
    rfl
  overflows buffer hlt := by
    obtain ⟨needed, left, part, hp, hl, ha⟩ := h.overflows buffer hlt
    exact ⟨needed, left, part, hp, hl, by rw [bind_apply, ha]⟩

/-- A run to the end is one of an action that has no failure of its own, into a buffer with room. -/
theorem of_run {action : Writer Unit} {bytes : Bytes} {ending : Except EncodeError Unit}
    (h : Emits action bytes ending) {buffer after : Buffer} (hrun : action buffer = .ok () after) :
    ending = .ok () ∧ bytes.length ≤ buffer.remaining ∧ after = buffer.write bytes := by
  by_cases hle : bytes.length ≤ buffer.remaining
  · rw [h.fits buffer hle] at hrun
    obtain ⟨hending, hafter⟩ := finish_eq_ok hrun
    exact ⟨hending, hle, hafter.symm⟩
  · obtain ⟨needed, left, part, _, _, hover⟩ := h.overflows buffer (Nat.lt_of_not_le hle)
    rw [hover] at hrun
    cases hrun

theorem flatMap {α : Type} {write : α → Writer Unit} {bytesOf : α → Bytes} {items : List α}
    (h : ∀ item ∈ items, Emits (write item) (bytesOf item) (.ok ())) :
    Emits (each write items) (items.flatMap bytesOf) (.ok ()) := by
  induction items with
  | nil => exact nothing
  | cons item items ih =>
    have hfirst := h item List.mem_cons_self
    exact hfirst.bind (ih fun other hmem => h other (List.mem_cons_of_mem item hmem))

theorem each {α : Type} {write : α → Writer Unit} {items : List α}
    (h : ∀ item ∈ items, ∃ bytes, Emits (write item) bytes (.ok ())) :
    ∃ bytes, Emits (each write items) bytes (.ok ()) := by
  induction items with
  | nil => exact ⟨[], nothing⟩
  | cons item items ih =>
    obtain ⟨front, hfront⟩ := h item List.mem_cons_self
    obtain ⟨back, hback⟩ := ih fun other hmem => h other (List.mem_cons_of_mem item hmem)
    exact ⟨front ++ back, hfront.bind hback⟩

theorem unique {action : Writer Unit} {bytes other : Bytes} {ending ending' : Except EncodeError Unit}
    (h : Emits action bytes ending) (h' : Emits action other ending') :
    bytes = other ∧ ending = ending' := by
  have hf := h.fits (Buffer.filled (bytes.length + other.length) 0) (by simp [Buffer.filled])
  have hf' := h'.fits (Buffer.filled (bytes.length + other.length) 0) (by simp [Buffer.filled])
  rw [hf] at hf'
  obtain ⟨he, hb⟩ := finish_inj hf'
  exact ⟨Buffer.write_inj hb, he⟩

/-- Items are written together only where each of them is. -/
theorem of_each {α : Type} {write : α → Writer Unit} {items : List α}
    (h : ∀ item ∈ items, ∃ bytes ending, Emits (write item) bytes ending) :
    ∃ bytes ending, Emits (Writer.each write items) bytes ending ∧
      (ending = .ok () → ∀ item ∈ items, ∃ bytes, Emits (write item) bytes (.ok ())) := by
  induction items with
  | nil => exact ⟨[], .ok (), nothing, fun _ => nofun⟩
  | cons item items ih =>
    obtain ⟨⟨front, ending, hfront⟩, hothers⟩ := List.forall_mem_cons.mp h
    cases ending with
    | error error => exact ⟨front, .error error, hfront.bind_error _, nofun⟩
    | ok _ =>
      obtain ⟨back, ending, hback, hall⟩ := ih hothers
      exact ⟨front ++ back, ending, hfront.bind hback,
        fun hok => List.forall_mem_cons.mpr ⟨⟨front, hfront⟩, hall hok⟩⟩

end Emits

end Writer

namespace EncodeError

/-- The errors of a buffer that is too small or too large. -/
def AboutRoom : EncodeError → Prop
  | overflow _ _ | sizeMismatch _ _ => True
  | _ => False

end EncodeError

def addSizes : Except EncodeError Nat → Except EncodeError Nat → Except EncodeError Nat
  | .ok m, .ok n => .ok (m + n)
  | .ok _, .error error => .error error
  | .error error, _ => .error error

theorem addSizes_assoc (r s t : Except EncodeError Nat) :
    addSizes (addSizes r s) t = addSizes r (addSizes s t) := by
  cases r <;> cases s <;> cases t <;> simp [addSizes, Nat.add_assoc]

theorem map_add_eq_addSizes (n : Nat) (size : Except EncodeError Nat) :
    size.map (n + ·) = addSizes (.ok n) size := by
  cases size <;> rfl

theorem addSizes_ok_zero (size : Except EncodeError Nat) : addSizes (.ok 0) size = size := by
  cases size <;> simp [addSizes]

theorem totalSize_eq_addSizes {α : Type} (size : α → Except EncodeError Nat) (sum : Nat)
    (items : List α) : totalSize size sum items = addSizes (.ok sum) (totalSize size 0 items) := by
  induction items generalizing sum with
  | nil => rfl
  | cons item items ih =>
    cases hs : size item with
    | error error => simp [totalSize, hs, addSizes]
    | ok n =>
      have hsum := ih (sum + n)
      have hzero := ih (0 + n)
      simp only [totalSize, hs]
      rw [hsum, hzero, ← addSizes_assoc]
      simp [addSizes]

theorem totalSize_cons {α : Type} (size : α → Except EncodeError Nat) (item : α) (items : List α) :
    totalSize size 0 (item :: items) = addSizes (size item) (totalSize size 0 items) := by
  cases hs : size item with
  | error error => simp [totalSize, hs, addSizes]
  | ok n => rw [← totalSize_eq_addSizes size n items]; simp [totalSize, hs]

theorem totalSize_append {α : Type} (size : α → Except EncodeError Nat) (front back : List α) :
    totalSize size 0 (front ++ back) =
      addSizes (totalSize size 0 front) (totalSize size 0 back) := by
  induction front with
  | nil => exact (addSizes_ok_zero _).symm
  | cons item items ih => rw [List.cons_append, totalSize_cons, totalSize_cons, ih, addSizes_assoc]

/-- A size calculated beforehand and what is then emitted. Where some length does not fit its
prefix, the emission may end with that length instead, having written no more than was
calculated. -/
def Foretells (fits : Prop) (size : Except EncodeError Nat) (bytes : Bytes)
    (ending : Except EncodeError Unit) : Prop :=
  match size with
  | .ok n => bytes.length = n ∧ ending = .ok () ∨
      ¬fits ∧ bytes.length ≤ n ∧ ∃ length, ending = .error (.lengthOverflow length)
  | .error error => ¬error.AboutRoom ∧
      (ending = .error error ∨ ¬fits ∧ ∃ length, ending = .error (.lengthOverflow length))

namespace Writer

def Sized (action : Writer Unit) (fits : Prop) (size : Except EncodeError Nat) : Prop :=
  ∃ bytes ending, Emits action bytes ending ∧ Foretells fits size bytes ending

namespace Sized

theorem of_emits {action : Writer Unit} {bytes : Bytes} (h : Emits action bytes (.ok ()))
    (fits : Prop) : Sized action fits (.ok bytes.length) :=
  ⟨bytes, .ok (), h, .inl ⟨rfl, rfl⟩⟩

theorem of_throw {error : EncodeError} (h : ¬error.AboutRoom) (fits : Prop) :
    Sized (throw error) fits (.error error) :=
  ⟨[], .error error, .throw error, h, .inl rfl⟩

theorem mono {action : Writer Unit} {fits fits' : Prop} {size : Except EncodeError Nat}
    (h : Sized action fits size) (hf : fits' → fits) : Sized action fits' size := by
  obtain ⟨bytes, ending, he, hs⟩ := h
  refine ⟨bytes, ending, he, ?_⟩
  cases size with
  | ok n => exact hs.imp_right fun h => ⟨fun hfits => h.1 (hf hfits), h.2⟩
  | error error => exact ⟨hs.1, hs.2.imp_right fun h => ⟨fun hfits => h.1 (hf hfits), h.2⟩⟩

theorem bind {action next : Writer Unit} {fits fits' : Prop} {size size' : Except EncodeError Nat}
    (h : Sized action fits size) (hn : Sized next fits' size') :
    Sized (action >>= fun _ => next) (fits ∧ fits') (addSizes size size') := by
  obtain ⟨front, ending, he, hs⟩ := h
  obtain ⟨back, ending', he', hs'⟩ := hn
  cases size with
  | error error =>
    obtain ⟨hroom, rfl | ⟨hfits, length, rfl⟩⟩ := hs
    · exact ⟨front, _, he.bind_error _, hroom, .inl rfl⟩
    · exact ⟨front, _, he.bind_error _, hroom, .inr ⟨fun h => hfits h.1, length, rfl⟩⟩
  | ok m =>
    obtain ⟨rfl, rfl⟩ | ⟨hfits, hle, length, rfl⟩ := hs
    · refine ⟨front ++ back, ending', he.bind he', ?_⟩
      cases size' with
      | ok n =>
        obtain ⟨rfl, rfl⟩ | ⟨hfits', hle', length, rfl⟩ := hs'
        · exact .inl ⟨List.length_append, rfl⟩
        · refine .inr ⟨fun h => hfits' h.2, ?_, length, rfl⟩
          rw [List.length_append]
          omega
      | error error => exact ⟨hs'.1, hs'.2.imp_right fun h => ⟨fun hf => h.1 hf.2, h.2⟩⟩
    · refine ⟨front, _, he.bind_error _, ?_⟩
      cases size' with
      | ok n => exact .inr ⟨fun h => hfits h.1, by omega, length, rfl⟩
      | error error => exact ⟨hs'.1, .inr ⟨fun h => hfits h.1, length, rfl⟩⟩

theorem each {α : Type} {write : α → Writer Unit} {fits : α → Prop}
    {size : α → Except EncodeError Nat} {items : List α}
    (h : ∀ item ∈ items, Sized (write item) (fits item) (size item)) :
    Sized (each write items) (∀ item ∈ items, fits item) (totalSize size 0 items) := by
  induction items with
  | nil => exact of_emits Emits.nothing _
  | cons item items ih =>
    have hhead := h item List.mem_cons_self
    have htail := ih fun other hmem => h other (List.mem_cons_of_mem item hmem)
    rw [totalSize_cons]
    exact (hhead.bind htail).mono fun hall => List.forall_mem_cons.mp hall

/-- Where all lengths fit, what has a size is written and takes up its size. -/
theorem emits {action : Writer Unit} {fits : Prop} {n : Nat} (h : Sized action fits (.ok n))
    (hf : fits) : ∃ bytes, bytes.length = n ∧ Emits action bytes (.ok ()) := by
  obtain ⟨bytes, _, he, ⟨hn, rfl⟩ | ⟨hfits, _⟩⟩ := h
  · exact ⟨bytes, hn, he⟩
  · exact absurd hf hfits

/-- What is written to its end has a size, the number of its bytes. -/
theorem size_eq {action : Writer Unit} {fits : Prop} {size : Except EncodeError Nat}
    {bytes : Bytes} (h : Sized action fits size) (he : Emits action bytes (.ok ())) :
    size = .ok bytes.length := by
  obtain ⟨other, ending, hother, hfore⟩ := h
  obtain ⟨rfl, rfl⟩ := he.unique hother
  cases size with
  | ok n =>
    rcases hfore with ⟨hn, _⟩ | ⟨_, _, _, hlength⟩
    · rw [hn]
    · cases hlength
  | error error =>
    rcases hfore with ⟨_, hending | ⟨_, _, hlength⟩⟩
    · cases hending
    · cases hlength

end Sized

end Writer

end Remoting
