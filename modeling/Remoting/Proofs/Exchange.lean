import Mathlib
import Remoting.Client.Node
import Remoting.Proofs.DescribedMethods
import Remoting.Proofs.MethodCodecs
import Remoting.Proofs.RoundTrip

/-! Payloads between client and server. The server reads from a request the type arguments and
values that the client put there, and the client reads from a response what the server left. -/

namespace Remoting

theorem accepts_typeArgument (registry : Registry) :
    Reader.Accepts (GenericHandler.typeArgument registry)
      (fun type bytes => Format.witness type bytes ∧ type.IsArgument registry) := by
  refine (Reader.Accepts.witness.bind fun type => (?_ : Reader.Accepts _ fun found bytes =>
    found = type ∧ type.IsArgument registry ∧ bytes = [])).congr fun type bytes => ?_
  · by_cases hclosed : type.isClosed = true
    · simp only [hclosed, Bool.not_true, Bool.false_eq_true, if_false]
      cases hcodec : Codec.ofType registry type with
      | error error =>
        refine (Reader.Accepts.throw _).congr fun found bytes => iff_of_false id ?_
        intro h
        obtain ⟨_, ⟨_, codec, h⟩, _⟩ := h
        rw [hcodec] at h
        cases h
      | ok codec =>
        refine (Reader.Accepts.pure type).congr fun found bytes => and_congr_right fun _ => ?_
        exact (and_iff_right ⟨hclosed, codec, hcodec⟩).symm
    · simp only [hclosed, Bool.not_false, if_true]
      refine (Reader.Accepts.throw _).congr fun found bytes => iff_of_false id fun h => hclosed h.2.1.1
  constructor
  · intro h
    obtain ⟨found, front, _, hfront, ⟨rfl, hargument, rfl⟩, rfl⟩ := h
    exact ⟨by simpa using hfront, hargument⟩
  · intro h
    obtain ⟨hwitness, hargument⟩ := h
    exact ⟨type, bytes, [], hwitness, ⟨rfl, hargument, rfl⟩, by simp⟩

theorem catalogued_of_mem_argumentFields {types : List WireType} {field : Field}
    (hmem : field ∈ argumentFields types) :
    ∃ registry type, Codec.Catalogued registry type field.1 := by
  obtain ⟨type, _, rfl⟩ := List.mem_map.mp hmem
  exact ⟨.empty, .witness, .witness⟩

theorem each_writeField_argumentFields (types : List WireType) :
    Writer.each writeField (argumentFields types) = Writer.each Writer.witness types := by
  induction types with
  | nil => rfl
  | cons type types ih => exact congrArg (fun rest => Writer.witness type >>= fun _ => rest) ih

/-- Witnesses are written where none of them is too deep. -/
theorem encodeFields_argumentFields_eq_ok_iff {types : List WireType} {front : Bytes} :
    encodeFields (argumentFields types) = .ok front ↔
      (∀ type ∈ types, type.depth ≤ maxWitnessDepth) ∧
        front = types.flatMap WireType.witnessBytes := by
  rw [encodeFields_eq_ok_iff fun _ => catalogued_of_mem_argumentFields, each_writeField_argumentFields]
  constructor
  · intro h
    have hwrites := Writer.Writes.each fun type (_ : type ∈ types) => Writer.Writes.witness type
    obtain ⟨⟨_, hdepths⟩, hbytes⟩ := Format.repeated_witness.mp (hwrites.of_emitted h)
    exact ⟨hdepths, hbytes⟩
  · intro h
    obtain ⟨hdepths, rfl⟩ := h
    exact Writer.Emits.flatMap fun type hmem => Writer.emits_witness (hdepths type hmem)

/-- The server reads type arguments exactly where a client has put their witnesses. -/
theorem many_typeArgument_eq_ok_iff {registry : Registry} {count : Nat} {input left : Bytes}
    {arguments : List WireType} :
    Reader.many (GenericHandler.typeArgument registry) count input = .ok arguments left ↔
      arguments.length = count ∧ (∀ type ∈ arguments, type.IsArgument registry) ∧ ∃ front,
        encodeFields (argumentFields arguments) = .ok front ∧ input = front ++ left := by
  rw [(accepts_typeArgument registry).many count]
  simp only [Format.repeated_and, Format.repeated_witness, encodeFields_argumentFields_eq_ok_iff]
  constructor
  · intro h
    obtain ⟨bytes, rfl, ⟨⟨hcount, hdepths⟩, rfl⟩, hargs⟩ := h
    exact ⟨hcount, hargs, _, ⟨hdepths, rfl⟩, rfl⟩
  · intro h
    obtain ⟨hcount, hargs, _, ⟨hdepths, rfl⟩, rfl⟩ := h
    exact ⟨_, rfl, ⟨⟨hcount, hdepths⟩, rfl⟩, hargs⟩

theorem faithful_of_mem_zip {registry : Registry} {codecs : List Codec} {values : List Value}
    (hcodecs : ∀ codec ∈ codecs, ∃ type, Codec.ofType registry type = .ok codec)
    (hvalues : ∀ value ∈ values, value.Recoverable registry) {field : Field}
    (hmem : field ∈ codecs.zip values) : field.Faithful := by
  obtain ⟨hcodec, hvalue⟩ := List.of_mem_zip (a := field.1) (b := field.2) hmem
  obtain ⟨type, htype⟩ := hcodecs _ hcodec
  exact ⟨registry, type, htype, hvalues _ hvalue⟩

theorem exists_ofType_of_forall₂ {registry : Registry} {arguments : List WireType} {α : Type}
    {typeOf : α → WireType} {items : List α} {codecs : List Codec}
    (h : List.Forall₂ (fun item codec => Codec.ofOpen registry arguments (typeOf item) = .ok codec)
      items codecs) : ∀ codec ∈ codecs, ∃ type, Codec.ofType registry type = .ok codec := by
  intro codec hmem
  obtain ⟨i, hi, rfl⟩ := List.mem_iff_getElem.mp hmem
  exact ofType_of_ofOpen (h.get (h.length_eq ▸ hi) hi)

/-- The server reads the type arguments and then the values of a request. -/
theorem request_read {registry : Registry} {types : List WireType} {request : List Codec}
    {values : List Value} {payload : Bytes}
    (hcodecs : ∀ codec ∈ request, ∃ type, Codec.ofType registry type = .ok codec)
    (hvalues : ∀ value ∈ values, value.Recoverable registry) (hcount : values.length = request.length)
    (htypes : ∀ type ∈ types, type.IsArgument registry)
    (he : encodeFields (argumentFields types ++ request.zip values) = .ok payload) :
    ∃ left, Reader.many (GenericHandler.typeArgument registry) types.length payload = .ok types left ∧
      decodeFields request left = .ok values [] := by
  have hfaithful : ∀ field ∈ request.zip values, Field.Faithful field :=
    fun field hmem => faithful_of_mem_zip hcodecs hvalues hmem
  obtain ⟨front, back, hfront, hback, rfl⟩ :=
    (encodeFields_append_eq_ok_iff (fun _ => catalogued_of_mem_argumentFields)
      fun field hmem => (hfaithful field hmem).catalogued).mp he
  refine ⟨back, many_typeArgument_eq_ok_iff.mpr ⟨rfl, htypes, front, hfront, rfl⟩, ?_⟩
  have hread := decodeFields_of_encodeFields hfaithful hback
  rwa [List.map_fst_zip hcount.ge, List.map_snd_zip hcount.le] at hread

def EncodesAs (registry : Registry) (arguments : List WireType) (type : WireType) (value : Value) :
    Prop :=
  ∃ codec payload, Codec.ofOpen registry arguments type = .ok codec ∧
    encodeFields [(codec, value)] = .ok payload

section Outgoing

variable {registry : Registry} {arguments : List WireType} {outgoing : List (WireType × Value)}
  {codecs : List Codec}

theorem length_of_outgoing (hcodecs : List.Forall₂ (fun out codec =>
    Codec.ofOpen registry arguments out.1 = .ok codec) outgoing codecs) :
    codecs.length = (outgoing.map (·.2)).length := by
  rw [List.length_map, hcodecs.length_eq]

theorem catalogued_of_mem_zip {values : List Value} (hcodecs : List.Forall₂ (fun out codec =>
    Codec.ofOpen registry arguments out.1 = .ok codec) outgoing codecs) {field : Field}
    (hmem : field ∈ codecs.zip values) : ∃ registry type, Codec.Catalogued registry type field.1 := by
  obtain ⟨hcodec, _⟩ := List.of_mem_zip (a := field.1) (b := field.2) hmem
  obtain ⟨type, htype⟩ := exists_ofType_of_forall₂ hcodecs _ hcodec
  exact ⟨registry, type, Codec.catalogued_of_ofType htype⟩

/-- Values have a common payload exactly where each can be encoded under its type. -/
theorem exists_encodeFields_zip_iff (hcodecs : List.Forall₂ (fun out codec =>
    Codec.ofOpen registry arguments out.1 = .ok codec) outgoing codecs) :
    (∃ payload, encodeFields (codecs.zip (outgoing.map (·.2))) = .ok payload) ↔
      ∀ out ∈ outgoing, EncodesAs registry arguments out.1 out.2 := by
  rw [exists_encodeFields_iff fun field hmem => catalogued_of_mem_zip hcodecs hmem]
  have hcount := length_of_outgoing hcodecs
  have hget : ∀ (i : Nat) (hi : i < outgoing.length) (hj : i < codecs.length),
      Codec.ofOpen registry arguments outgoing[i].1 = .ok codecs[i] := fun i hi hj => hcodecs.get hi hj
  constructor
  · intro h out hmem
    obtain ⟨i, hi, rfl⟩ := List.mem_iff_getElem.mp hmem
    have hj : i < codecs.length := hcodecs.length_eq ▸ hi
    have hzip : i < (codecs.zip (outgoing.map (·.2))).length := by
      rw [List.length_zip, ← hcount, Nat.min_self]
      exact hj
    obtain ⟨payload, hpayload⟩ := h _ (List.getElem_mem hzip)
    rw [List.getElem_zip, List.getElem_map] at hpayload
    exact ⟨codecs[i], payload, hget i hi hj, hpayload⟩
  · intro h field hmem
    obtain ⟨i, hi, rfl⟩ := List.mem_iff_getElem.mp hmem
    have hj : i < codecs.length := by
      rw [List.length_zip] at hi
      omega
    have hlt : i < outgoing.length := hcodecs.length_eq ▸ hj
    obtain ⟨codec, payload, hcodec, hpayload⟩ := h outgoing[i] (List.getElem_mem hlt)
    rw [hget i hlt hj] at hcodec
    cases hcodec
    exact ⟨payload, by simpa using hpayload⟩

/-- Values that can be encoded under their types are read back from their common payload. -/
theorem exists_payload
    (hcodecs : List.Forall₂ (fun out codec => Codec.ofOpen registry arguments out.1 = .ok codec)
      outgoing codecs)
    (hout : ∀ out ∈ outgoing, EncodesAs registry arguments out.1 out.2 ∧ out.2.Recoverable registry) :
    ∃ payload, encodeFields (codecs.zip (outgoing.map (·.2))) = .ok payload ∧
      decodeFields codecs payload = .ok (outgoing.map (·.2)) [] := by
  have hcount := length_of_outgoing hcodecs
  have hfaithful : ∀ field : Field, field ∈ codecs.zip (outgoing.map (·.2)) → field.Faithful := by
    intro field hmem
    refine faithful_of_mem_zip (exists_ofType_of_forall₂ hcodecs) (fun value hvalue => ?_) hmem
    obtain ⟨out, hmem, rfl⟩ := List.mem_map.mp hvalue
    exact (hout out hmem).2
  obtain ⟨payload, hpayload⟩ :=
    (exists_encodeFields_zip_iff hcodecs).mpr fun out hmem => (hout out hmem).1
  have hdecode := decodeFields_of_encodeFields hfaithful hpayload
  rw [List.map_fst_zip hcount.le, List.map_snd_zip hcount.ge] at hdecode
  exact ⟨payload, hpayload, hdecode⟩

end Outgoing

end Remoting
