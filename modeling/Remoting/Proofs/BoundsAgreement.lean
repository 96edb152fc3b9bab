import Mathlib
import Remoting.Proofs.DecoderAcceptance

/-! Bounds decide when a bad length is noticed, never what is accepted. A length that strict bounds
refuse asks for more elements than the bytes behind it could spell. -/

namespace Remoting

/-- The values of fields that are all there is left to read, every field under the same bounds. -/
def decodeFieldsUnder (bounds : Bounds) (codecs : List Codec) : Reader (List Value) := do
  let values ← codecs.mapM (·.decode bounds)
  Reader.exhausted
  return values

theorem Reader.bind_congr {α β : Type} {read other : Reader α} {next next' : α → Reader β}
    (h : ∀ input found left, read input = .ok found left ↔ other input = .ok found left)
    (hn : ∀ found input value rest,
      next found input = .ok value rest ↔ next' found input = .ok value rest)
    {input rest : Bytes} {value : β} :
    (read >>= next) input = .ok value rest ↔ (other >>= next') input = .ok value rest := by
  simp only [bind_eq_ok_iff, h, hn]

namespace Codec

theorem decode_agree {registry : Registry} {type : WireType} {codec : Codec}
    (hc : Catalogued registry type codec) (bounds bounds' : Bounds) (input : Bytes) (value : Value)
    (rest : Bytes) :
    codec.decode bounds input = .ok value rest ↔ codec.decode bounds' input = .ok value rest :=
  (decode_accepts hc bounds input value rest).trans
    (decode_accepts hc bounds' input value rest).symm

theorem fieldValues_agree {codecs : List Codec}
    (h : ∀ codec ∈ codecs, ∃ registry type, Catalogued registry type codec) (bounds : Bounds)
    (input : Bytes) (values : List Value) (rest : Bytes) :
    fieldValues codecs input = .ok values rest ↔
      codecs.mapM (·.decode bounds) input = .ok values rest := by
  induction codecs using fieldValues.induct generalizing input values rest with
  | case1 => exact Iff.rfl
  | case2 last =>
    obtain ⟨registry, type, hc⟩ := h last List.mem_cons_self
    rw [List.mapM_cons]
    exact Reader.bind_congr (decode_agree hc .relaxed bounds) fun _ _ _ _ => Iff.rfl
  | case3 codec others hne ih =>
    obtain ⟨hfirst, hothers⟩ := List.forall_mem_cons.mp h
    obtain ⟨registry, type, hc⟩ := hfirst
    rw [fieldValues, List.mapM_cons]
    · exact Reader.bind_congr (decode_agree hc .strict bounds) fun _ input _ _ =>
        Reader.bind_congr (ih hothers) fun _ _ _ _ => Iff.rfl
    · exact hne

theorem bounds_accept_the_same :
    (∀ registry type codec, ofType registry type = .ok codec →
      ∀ input offset left, Reader.start input offset = .ok left → ∀ value rest,
        codec.decode .relaxed left = .ok value rest ↔ codec.decode .strict left = .ok value rest) ∧
    ∀ codecs, (∀ codec ∈ codecs, ∃ registry type, ofType registry type = .ok codec) →
      ∀ input offset left, Reader.start input offset = .ok left → ∀ values rest,
        decodeFields codecs left = .ok values rest ↔
          decodeFieldsUnder .strict codecs left = .ok values rest := by
  constructor
  · intro registry type codec ht input offset left _ value rest
    exact decode_agree (catalogued_of_ofType ht) .relaxed .strict left value rest
  · intro codecs h input offset left _ values rest
    have hcatalogued : ∀ codec ∈ codecs, ∃ registry type, Catalogued registry type codec := by
      intro codec hmem
      obtain ⟨registry, type, ht⟩ := h codec hmem
      exact ⟨registry, type, catalogued_of_ofType ht⟩
    exact Reader.bind_congr (fieldValues_agree hcatalogued .strict) fun _ _ _ _ => Iff.rfl

/-- A thousand numbers are declared and one is there. Strict bounds refuse the count, relaxed ones
fail at the second number; a count that the bytes can bear is read under both. -/
theorem declared_thousand_of_one :
    Reader.start [9, 232, 3, 0, 0, 7, 0, 0, 0] 1 = .ok [232, 3, 0, 0, 7, 0, 0, 0] ∧
    decode (array (number .i32)) .strict [232, 3, 0, 0, 7, 0, 0, 0] =
      .error (.lengthBeyondInput 1000 4) [7, 0, 0, 0] ∧
    (∀ value rest,
      decode (array (number .i32)) .relaxed [232, 3, 0, 0, 7, 0, 0, 0] ≠ .ok value rest) ∧
    decode (array (number .i32)) .strict [1, 0, 0, 0, 7, 0, 0, 0, 5] =
      .ok (.array [.number .i32 7]) [5] ∧
    decodeFieldsUnder .strict [text, array (number .i32)] [1, 0, 0, 0, 97, 1, 0, 0, 0, 7, 0, 0, 0] =
      .ok [.text "a", .array [.number .i32 7]] [] := by
  have hstart : Reader.start [9, 232, 3, 0, 0, 7, 0, 0, 0] 1 = .ok [232, 3, 0, 0, 7, 0, 0, 0] := rfl
  have hstrict : decode (array (number .i32)) .strict [232, 3, 0, 0, 7, 0, 0, 0] =
      .error (.lengthBeyondInput 1000 4) [7, 0, 0, 0] := rfl
  obtain ⟨hvalue, hfields⟩ := bounds_accept_the_same
  have hnumbers := hvalue .empty (.array (.number .i32)) (array (number .i32)) rfl
  refine ⟨hstart, hstrict, fun value rest hrelaxed => ?_, ?_, ?_⟩
  · rw [hnumbers _ _ _ hstart, hstrict] at hrelaxed
    cases hrelaxed
  · exact (hnumbers [1, 0, 0, 0, 7, 0, 0, 0, 5] 0 _ rfl _ _).mp rfl
  · refine (hfields [text, array (number .i32)] (fun codec hmem => ?_) _ 0 _ rfl _ _).mp rfl
    rcases List.mem_pair.mp hmem with rfl | rfl
    · exact ⟨.empty, .text, rfl⟩
    · exact ⟨.empty, .array (.number .i32), rfl⟩

end Codec

end Remoting
