import Mathlib
import Remoting.Proofs.DecoderAcceptance
import Remoting.Proofs.EncodedSize
import Remoting.Proofs.EncoderSpelling

/-! Decoding undoes encoding, value by value and payload by payload: both sides meet at the
spellings of the codecs. -/

namespace Remoting

/-- Fields of codecs of the catalogue, whose members the registries lead back to themselves. -/
def Field.Faithful (field : Field) : Prop :=
  ∃ registry type, Codec.ofType registry type = .ok field.1 ∧ field.2.Recoverable registry

theorem Field.Faithful.catalogued {field : Field} (h : field.Faithful) :
    ∃ registry type, Codec.Catalogued registry type field.1 := by
  obtain ⟨registry, type, ht, _⟩ := h
  exact ⟨registry, type, Codec.catalogued_of_ofType ht⟩

def FieldsSpelled (fields : List Field) (bytes : Bytes) : Prop :=
  Format.repeated (fun field : Field => field.1.Spells field.2) fields.length fields bytes

theorem fieldsSpelled_cons {field : Field} {fields : List Field} {bytes : Bytes} :
    FieldsSpelled (field :: fields) bytes ↔
      ∃ front back, field.1.Spells field.2 front ∧ FieldsSpelled fields back ∧ bytes = front ++ back :=
  Format.repeated_cons

theorem accepts_fieldValues {codecs : List Codec}
    (h : ∀ codec ∈ codecs, ∃ registry type, Codec.Catalogued registry type codec) :
    (fieldValues codecs).Accepts fun values bytes => ∃ fields : List Field,
      fields.map (·.1) = codecs ∧ fields.map (·.2) = values ∧ FieldsSpelled fields bytes := by
  induction codecs using fieldValues.induct with
  | case1 =>
    refine (Reader.Accepts.pure []).congr fun values bytes => ?_
    constructor
    · intro h
      obtain ⟨rfl, rfl⟩ := h
      exact ⟨[], rfl, rfl, rfl, [], .nil, rfl⟩
    · intro h
      obtain ⟨fields, hcodecs, rfl, hspelled⟩ := h
      obtain rfl := List.map_eq_nil_iff.mp hcodecs
      obtain ⟨_, pieces, hpieces, rfl⟩ := hspelled
      cases hpieces
      exact ⟨rfl, rfl⟩
  | case2 last =>
    obtain ⟨registry, type, hc⟩ := h last List.mem_cons_self
    refine ((Codec.decode_accepts hc .relaxed).bind fun value => Reader.Accepts.pure [value]).congr
      fun values bytes => ?_
    constructor
    · intro h
      obtain ⟨value, front, _, hs, ⟨rfl, rfl⟩, rfl⟩ := h
      refine ⟨[(last, value)], rfl, rfl, fieldsSpelled_cons.mpr ⟨front, [], hs, ?_, rfl⟩⟩
      exact ⟨rfl, [], .nil, rfl⟩
    · intro h
      obtain ⟨fields, hcodecs, rfl, hspelled⟩ := h
      obtain ⟨field, rfl, rfl⟩ := List.map_eq_singleton_iff.mp hcodecs
      obtain ⟨front, back, hs, ⟨_, pieces, hpieces, rfl⟩, rfl⟩ := fieldsSpelled_cons.mp hspelled
      cases hpieces
      exact ⟨field.2, front, [], hs, ⟨rfl, rfl⟩, rfl⟩
  | case3 codec others hne ih =>
    obtain ⟨registry, type, hc⟩ := h codec List.mem_cons_self
    have hrest := ih fun other hmem => h other (List.mem_cons_of_mem codec hmem)
    have hread := (Codec.decode_accepts hc .strict).bind fun value =>
      hrest.bind fun values => Reader.Accepts.pure (value :: values)
    have hunfold : fieldValues (codec :: others) = (do
        let value ← codec.decode .strict
        let values ← fieldValues others
        return value :: values) := by
      cases others with
      | nil => exact absurd rfl hne
      | cons other others => rfl
    rw [hunfold]
    refine hread.congr fun values bytes => ?_
    constructor
    · intro h
      obtain ⟨value, front, _, hs, hbehind, rfl⟩ := h
      obtain ⟨_, back, _, ⟨fields, rfl, rfl, hspelled⟩, ⟨rfl, rfl⟩, rfl⟩ := hbehind
      exact ⟨(codec, value) :: fields, rfl, rfl,
        fieldsSpelled_cons.mpr ⟨front, back, hs, hspelled, by simp⟩⟩
    · intro h
      obtain ⟨fields, hcodecs, rfl, hspelled⟩ := h
      obtain ⟨field, fields, rfl, rfl, rfl⟩ := List.map_eq_cons_iff.mp hcodecs
      obtain ⟨front, back, hs, hback, rfl⟩ := fieldsSpelled_cons.mp hspelled
      exact ⟨field.2, front, back, hs,
        ⟨_, back, [], ⟨fields, rfl, rfl, hback⟩, ⟨rfl, rfl⟩, by simp⟩, rfl⟩

/-- A payload is decoded to its end, or not at all. -/
theorem decodeFields_eq_ok_iff_fieldValues {codecs : List Codec} {payload rest : Bytes}
    {values : List Value} :
    decodeFields codecs payload = .ok values rest ↔
      rest = [] ∧ fieldValues codecs payload = .ok values [] := by
  unfold decodeFields
  rw [Reader.bind_eq_ok_iff]
  constructor
  · intro h
    obtain ⟨found, left, hread, hend⟩ := h
    cases left with
    | nil =>
      cases hend
      exact ⟨rfl, hread⟩
    | cons b left => cases hend
  · intro h
    obtain ⟨rfl, hread⟩ := h
    exact ⟨values, [], hread, rfl⟩

theorem decodeFields_eq_ok_iff {codecs : List Codec}
    (h : ∀ codec ∈ codecs, ∃ registry type, Codec.Catalogued registry type codec)
    {payload rest : Bytes} {values : List Value} :
    decodeFields codecs payload = .ok values rest ↔ rest = [] ∧ ∃ fields : List Field,
      fields.map (·.1) = codecs ∧ fields.map (·.2) = values ∧ FieldsSpelled fields payload := by
  have haccepts := accepts_fieldValues h
  rw [decodeFields_eq_ok_iff_fieldValues]
  refine and_congr_right fun _ => ⟨fun hread => ?_, fun hfields => ?_⟩
  · obtain ⟨bytes, rfl, hfields⟩ := (haccepts _ _ _).mp hread
    simpa using hfields
  · have hread := haccepts.append hfields []
    rwa [List.append_nil] at hread

theorem fieldsSpelled_of_encodeFields {fields : List Field} (h : ∀ field ∈ fields, field.Faithful)
    {payload : Bytes} (he : encodeFields fields = .ok payload) : FieldsSpelled fields payload := by
  have hwrites : Writer.Writes (Writer.each writeField fields) (FieldsSpelled fields) := by
    refine Writer.Writes.each fun field hmem => ?_
    obtain ⟨registry, type, ht, hr⟩ := h field hmem
    exact Codec.writes_encode (Codec.catalogued_of_ofType ht) hr
  have hemits := (encodeFields_eq_ok_iff fun field hmem => (h field hmem).catalogued).mp he
  exact hwrites.of_emitted hemits

theorem decodeFields_of_encodeFields {fields : List Field} (h : ∀ field ∈ fields, field.Faithful)
    {payload : Bytes} (he : encodeFields fields = .ok payload) :
    decodeFields (fields.map (·.1)) payload = .ok (fields.map (·.2)) [] := by
  have hcodecs : ∀ codec ∈ fields.map (·.1), ∃ registry type,
      Codec.Catalogued registry type codec := by
    intro codec hmem
    obtain ⟨field, hfield, rfl⟩ := List.mem_map.mp hmem
    exact (h field hfield).catalogued
  exact (decodeFields_eq_ok_iff hcodecs).mpr
    ⟨rfl, fields, rfl, rfl, fieldsSpelled_of_encodeFields h he⟩

namespace Codec

theorem decoding_undoes_encoding :
    (∀ registry type codec value buffer after, ofType registry type = .ok codec →
      value.Recoverable registry → codec.encode value buffer = .ok () after →
      ∃ bytes, buffer.Receives bytes after ∧ ∀ bounds before behind, ∃ left,
        Reader.start (before ++ bytes ++ behind) before.length = .ok left ∧
          codec.decode bounds left = .ok value behind) ∧
    ∀ (fields : List Field) payload, (∀ field ∈ fields, field.Faithful) →
      encodeFields fields = .ok payload → ∀ before, ∃ left,
        Reader.start (before ++ payload) before.length = .ok left ∧
          decodeFields (fields.map (·.1)) left = .ok (fields.map (·.2)) [] := by
  constructor
  · intro registry type codec value buffer after ht hr he
    have hc := catalogued_of_ofType ht
    obtain ⟨bytes, hle, rfl, hspelled⟩ := writes_encode hc hr buffer after he
    refine ⟨bytes, Buffer.receives_write hle, fun bounds before behind => ?_⟩
    have hstart : Reader.start (before ++ bytes ++ behind) before.length = .ok (bytes ++ behind) :=
      Reader.start_eq_ok_iff.mpr ⟨before, List.append_assoc _ _ _, rfl⟩
    exact ⟨bytes ++ behind, hstart, (decode_accepts hc bounds).append hspelled behind⟩
  · intro fields payload h he before
    have hstart : Reader.start (before ++ payload) before.length = .ok payload :=
      Reader.start_eq_ok_iff.mpr ⟨before, rfl, rfl⟩
    exact ⟨payload, hstart, decodeFields_of_encodeFields h he⟩

def overloads : List Member := [.method "D" "f" [.generic 0] 1, .method "D" "f" [.text] 0]

def overloadValues : Value :=
  .array [.member ⟨.method "D" "f" [.generic 0] 1, [.blob], .inr rfl⟩, .null]

def overloadCodec : Codec := nullable (array (member .method (.ofList overloads)))

theorem overloads_survive :
    overloadValues.Recoverable (.ofList overloads) ∧
      (∃ buffer after bytes, overloadCodec.encode overloadValues buffer = .ok () after ∧
        buffer.Receives bytes after ∧ ∀ bounds before behind, ∃ left,
          Reader.start (before ++ bytes ++ behind) before.length = .ok left ∧
            overloadCodec.decode bounds left = .ok overloadValues behind) ∧
      ∃ payload, encodeFields [(overloadCodec, overloadValues), (overloadCodec, .null)] = .ok payload ∧
        ∀ before, ∃ left, Reader.start (before ++ payload) before.length = .ok left ∧
          decodeFields [overloadCodec, overloadCodec] left = .ok [overloadValues, .null] [] := by
  have hrecovers : Registry.Recovers (.ofList overloads)
      ⟨.method "D" "f" [.generic 0] 1, [.blob], .inr rfl⟩ := ⟨by rfl, nofun⟩
  have hleaf : ∀ handle items, Value.member handle ≠ .array items := nofun
  have hnull : ∀ items, Value.null ≠ .array items := nofun
  have hnone : Value.null.Recoverable (.ofList overloads) :=
    (Value.forall_part_leaf hnull).mpr nofun
  have hvalue : overloadValues.Recoverable (.ofList overloads) := by
    refine Value.forall_part_array.mpr ⟨nofun, fun item hmem => ?_⟩
    rcases List.mem_pair.mp hmem with rfl | rfl
    · refine (Value.forall_part_leaf (hleaf _)).mpr fun other hother => ?_
      cases hother
      exact hrecovers
    · exact hnone
  have hcodec : ofType (.ofList overloads) (.nullable (.array (.member .method))) =
      .ok overloadCodec := rfl
  have hfaithful : ∀ field ∈ [(overloadCodec, overloadValues), (overloadCodec, .null)],
      Field.Faithful field := by
    intro field hmem
    rcases List.mem_pair.mp hmem with rfl | rfl
    · exact ⟨_, _, hcodec, hvalue⟩
    · exact ⟨_, _, hcodec, hnone⟩
  obtain ⟨after, hafter⟩ :
      ∃ after, overloadCodec.encode overloadValues (.filled 64 0) = .ok () after := ⟨_, rfl⟩
  obtain ⟨payload, hpayload⟩ : ∃ payload,
      encodeFields [(overloadCodec, overloadValues), (overloadCodec, .null)] = .ok payload := ⟨_, rfl⟩
  obtain ⟨hvalues, hfields⟩ := decoding_undoes_encoding
  obtain ⟨bytes, hreceives, hdecode⟩ := hvalues _ _ _ _ _ after hcodec hvalue hafter
  have hleft := hfields _ payload hfaithful hpayload
  exact ⟨hvalue, ⟨_, after, bytes, hafter, hreceives, hdecode⟩, payload, hpayload, hleft⟩

end Codec

end Remoting
