import Mathlib
import Remoting.Proofs.EncoderEmission
import Remoting.Proofs.WordSizes

/-! Sizes and encodings agree: a value takes up the size calculated for it, at any place of any
buffer, and a value without a size fails to be written for the cause that the calculation tells. -/

namespace Remoting

/-- The buffer afterwards has the bytes at the place of the next write, and is the same
elsewhere. -/
structure Buffer.Receives (buffer : Buffer) (bytes : Bytes) (after : Buffer) : Prop where
  position : after.position = buffer.position + bytes.length
  contents : after.contents = buffer.contents.take buffer.position ++ bytes ++
    buffer.contents.drop (buffer.position + bytes.length)

theorem Buffer.receives_write {buffer : Buffer} {bytes : Bytes}
    (h : bytes.length ≤ buffer.remaining) : buffer.Receives bytes (buffer.write bytes) where
  position := position_write buffer bytes
  contents := by
    have hlen : buffer.written.toList.length = buffer.position := by simp [position]
    have hcontents : buffer.contents = buffer.written.toList ++ buffer.room := by simp [contents]
    rw [contents_write h, hcontents, List.take_left' hlen, ← hlen, ← List.drop_drop, List.drop_left]

namespace Writer.Emits

variable {action : Writer Unit} {bytes : Bytes}

theorem receives {ending : Except EncodeError Unit} (h : Emits action bytes ending) {buffer : Buffer}
    (hle : bytes.length ≤ buffer.remaining) :
    ∃ after, action buffer = finish ending after ∧ buffer.Receives bytes after :=
  ⟨buffer.write bytes, h.fits buffer hle, Buffer.receives_write hle⟩

end Writer.Emits

/-- The bytes are what an action writes, wherever there is room for them. -/
def Writer.Delivers (action : Writer Unit) (bytes : Bytes) : Prop :=
  ∀ buffer : Buffer, bytes.length ≤ buffer.remaining →
    ∃ after, action buffer = .ok () after ∧ buffer.Receives bytes after

theorem Writer.Emits.delivers {action : Writer Unit} {bytes : Bytes}
    (h : Emits action bytes (.ok ())) : Delivers action bytes :=
  fun _ => h.receives

theorem sized_fields {fields : List Field}
    (h : ∀ field ∈ fields, ∃ registry type, Codec.Catalogued registry type field.1) :
    Writer.Sized (Writer.each writeField fields) (∀ field ∈ fields, field.2.FitsWire)
      (totalSize fieldSize 0 fields) := by
  refine Writer.Sized.each fun field hmem => ?_
  obtain ⟨registry, type, hc⟩ := h field hmem
  exact Codec.sized_encode hc field.2

theorem encodeFields_eq_ok_iff {fields : List Field}
    (h : ∀ field ∈ fields, ∃ registry type, Codec.Catalogued registry type field.1)
    {payload : Bytes} :
    encodeFields fields = .ok payload ↔
      Writer.Emits (Writer.each writeField fields) payload (.ok ()) := by
  constructor
  · intro he
    obtain ⟨bytes, ending, hemits, _⟩ := sized_fields h
    unfold encodeFields at he
    split at he
    · cases he
    · unfold writeFields at he
      split at he
      · cases he
      · rename_i hrun
        obtain ⟨rfl, _, rfl⟩ := hemits.of_run hrun
        split at he
        · rename_i hposition
          rw [Buffer.position_write_filled] at hposition
          subst hposition
          rw [Buffer.contents_write_filled] at he
          cases he
          exact hemits
        · cases he
  · intro hemits
    have hsize := (sized_fields h).size_eq hemits
    have hrun : Writer.each writeField fields (Buffer.filled payload.length 0) =
        .ok () ((Buffer.filled payload.length 0).write payload) := hemits.fits _ (Nat.le_refl _)
    simp only [encodeFields, writeFields, hsize, hrun, Buffer.position_write_filled, if_true,
      Buffer.contents_write_filled]

/-- The bytes of fields in a row are those of the first ones and then those of the others. -/
theorem encodeFields_append_eq_ok_iff {fields others : List Field}
    (h : ∀ field ∈ fields, ∃ registry type, Codec.Catalogued registry type field.1)
    (ho : ∀ field ∈ others, ∃ registry type, Codec.Catalogued registry type field.1)
    {payload : Bytes} : encodeFields (fields ++ others) = .ok payload ↔ ∃ front back,
      encodeFields fields = .ok front ∧ encodeFields others = .ok back ∧ payload = front ++ back := by
  have hall := List.forall_mem_append.mpr ⟨h, ho⟩
  simp only [encodeFields_eq_ok_iff h, encodeFields_eq_ok_iff ho, encodeFields_eq_ok_iff hall,
    Writer.each_append]
  obtain ⟨front, ending, hfront, _⟩ := sized_fields h
  obtain ⟨back, ending', hback, _⟩ := sized_fields ho
  constructor
  · intro hboth
    cases ending with
    | error error => cases ((hfront.bind_error _).unique hboth).2
    | ok _ =>
      obtain ⟨rfl, rfl⟩ := (hfront.bind hback).unique hboth
      exact ⟨front, back, hfront, hback, rfl⟩
  · intro hboth
    obtain ⟨_, _, hfirst, hrest, rfl⟩ := hboth
    exact hfirst.bind hrest

/-- Fields can be encoded together exactly where they can be encoded one by one. -/
theorem exists_encodeFields_iff {fields : List Field}
    (h : ∀ field ∈ fields, ∃ registry type, Codec.Catalogued registry type field.1) :
    (∃ payload, encodeFields fields = .ok payload) ↔
      ∀ field ∈ fields, ∃ payload, encodeFields [field] = .ok payload := by
  have halone : ∀ field ∈ fields, ∀ other ∈ [field], ∃ registry type,
      Codec.Catalogued registry type other.1 := by
    intro field hmem other hother
    rw [List.mem_singleton.mp hother]
    exact h field hmem
  have hwritten : ∀ field ∈ fields, ∃ bytes ending, Writer.Emits (writeField field) bytes ending := by
    intro field hmem
    obtain ⟨registry, type, hc⟩ := h field hmem
    obtain ⟨bytes, ending, hemits, _⟩ := Codec.sized_encode hc field.2
    exact ⟨bytes, ending, hemits⟩
  constructor
  · intro hall field hmem
    obtain ⟨payload, hpayload⟩ := hall
    obtain ⟨_, ending, hemits, heach⟩ := Writer.Emits.of_each hwritten
    have hok := (hemits.unique ((encodeFields_eq_ok_iff h).mp hpayload)).2
    obtain ⟨bytes, hone⟩ := heach hok field hmem
    exact ⟨_, (encodeFields_eq_ok_iff (halone field hmem)).mpr (hone.bind .nothing)⟩
  · intro heach
    have hone : ∀ field ∈ fields, ∃ bytes, Writer.Emits (writeField field) bytes (.ok ()) := by
      intro field hmem
      obtain ⟨payload, hpayload⟩ := heach field hmem
      have hall := (encodeFields_eq_ok_iff (halone field hmem)).mp hpayload
      obtain ⟨bytes, ending, hemits⟩ := hwritten field hmem
      cases ending with
      | ok _ => exact ⟨bytes, hemits⟩
      | error error =>
        have hfailed := hemits.bind_error fun _ => Writer.each writeField []
        cases (hfailed.unique hall).2
    obtain ⟨bytes, hemits⟩ := Writer.Emits.each hone
    exact ⟨bytes, (encodeFields_eq_ok_iff h).mpr hemits⟩

namespace Codec

end Codec

end Remoting
