import Mathlib
import Remoting.Proofs.DecoderAcceptance
import Remoting.Proofs.EncodedSize

/-! Written and read witnesses are the same bytes. The writer measures a type from its leaf before
it writes, the reader counts layers from the outermost one; both stop at the same depth. -/

namespace Remoting

namespace WireType

theorem witnessSize_eq_ok_iff {type : WireType} {n : Nat} :
    type.witnessSize = .ok n ↔ type.depth ≤ maxWitnessDepth ∧ type.witnessBytes.length = n := by
  rw [witnessSize, length_witnessBytes]
  by_cases hdepth : type.depth ≤ maxWitnessDepth
  · rw [if_neg (Nat.not_lt_of_ge hdepth), Except.ok.injEq, and_iff_right hdepth]
  · rw [if_pos (Nat.lt_of_not_le hdepth)]
    simp only [hdepth, false_and, reduceCtorEq]

theorem witnessSize_of_deep {type : WireType} (h : maxWitnessDepth < type.depth) :
    type.witnessSize = .error (.witnessTooDeep maxWitnessDepth) :=
  if_pos h

/-- The byte in the place of a null is no tag, so no witness begins with it. -/
theorem head?_witnessBytes_append (type : WireType) (rest : Bytes) :
    (type.witnessBytes ++ rest).head? ≠ some Codec.nullWitness := by
  have hhead : (type.witnessBytes ++ rest).head? = some type.tag.byte := by cases type <;> rfl
  intro hnull
  rw [hhead, Option.some.injEq] at hnull
  have htag := TypeTag.ofByte?_byte type.tag
  rw [hnull] at htag
  cases htag

end WireType

namespace Writer

theorem witness_of_deep {type : WireType} (h : maxWitnessDepth < type.depth) (buffer : Buffer) :
    witness type buffer = .error (.witnessTooDeep maxWitnessDepth) buffer := by
  rw [witness, if_pos h]
  rfl

/-- A witness is written to its end where it has a size, and room for as much. -/
theorem exists_witness_run_iff {type : WireType} {buffer : Buffer} :
    (∃ after, witness type buffer = .ok () after) ↔
      ∃ n, type.witnessSize = .ok n ∧ n ≤ buffer.remaining := by
  constructor
  · rintro ⟨after, hrun⟩
    by_cases hdepth : type.depth ≤ maxWitnessDepth
    · obtain ⟨_, hroom, _⟩ := (emits_witness hdepth).of_run hrun
      exact ⟨_, WireType.witnessSize_eq_ok_iff.mpr ⟨hdepth, rfl⟩, hroom⟩
    · rw [witness_of_deep (Nat.lt_of_not_le hdepth)] at hrun
      cases hrun
  · rintro ⟨n, hsize, hroom⟩
    obtain ⟨hdepth, rfl⟩ := WireType.witnessSize_eq_ok_iff.mp hsize
    exact ⟨_, (emits_witness hdepth).fits buffer hroom⟩

end Writer

namespace Reader

theorem witness_eq_ok_iff {type : WireType} {input rest : Bytes} :
    witness input = .ok type rest ↔
      type.depth ≤ maxWitnessDepth ∧ input = type.witnessBytes ++ rest := by
  rw [Accepts.witness input type rest]
  constructor
  · rintro ⟨_, rfl, hdepth, rfl⟩
    exact ⟨hdepth, rfl⟩
  · rintro ⟨hdepth, rfl⟩
    exact ⟨_, rfl, hdepth, rfl⟩

end Reader

namespace Codec

/-- Whether a value of the type of types is null is told by its first byte. -/
theorem decode_witness_null_iff {bounds : Bounds} {input rest : Bytes} {value : Value}
    (h : decode witness bounds input = .ok value rest) :
    value = .null ↔ input.head? = some nullWitness := by
  obtain ⟨_, rfl, ⟨rfl, rfl⟩ | ⟨type, rfl, _, rfl⟩⟩ := (decode_witness_accepts bounds _ _ _).mp h
  · exact iff_of_true rfl rfl
  · exact iff_of_false Value.noConfusion (type.head?_witnessBytes_append rest)

end Codec

/-- The grammar of witnesses, for all types and for all bytes. -/
theorem witness_grammars_coincide (type : WireType) :
    ((∃ n, type.witnessSize = .ok n) ↔ type.depth ≤ maxWitnessDepth) ∧
    (∀ buffer : Buffer, (∃ after, Writer.witness type buffer = .ok () after) ↔
      ∃ n, type.witnessSize = .ok n ∧ n ≤ buffer.remaining) ∧
    (maxWitnessDepth < type.depth →
      type.witnessSize = .error (.witnessTooDeep maxWitnessDepth) ∧
      ∀ buffer, Writer.witness type buffer = .error (.witnessTooDeep maxWitnessDepth) buffer) ∧
    (∀ n, type.witnessSize = .ok n → ∃ bytes : Bytes, bytes.length = n ∧
      Writer.Delivers (Writer.witness type) bytes ∧ bytes.head? ≠ some Codec.nullWitness ∧
      ∀ rest, Reader.witness (bytes ++ rest) = .ok type rest ∧
        ∀ bounds, Codec.decode .witness bounds (bytes ++ rest) = .ok (.witness type) rest) ∧
    (∀ input rest, Reader.witness input = .ok type rest → type.depth ≤ maxWitnessDepth ∧
      input.head? ≠ some Codec.nullWitness ∧
      ∃ bytes, input = bytes ++ rest ∧ Writer.Delivers (Writer.witness type) bytes) ∧
    Writer.Delivers (Codec.encode .witness .null) [Codec.nullWitness] ∧
    ∀ bounds input value rest, Codec.decode .witness bounds input = .ok value rest →
      (value = .null ↔ input.head? = some Codec.nullWitness) := by
  refine ⟨?_, fun _ => Writer.exists_witness_run_iff, fun hdeep =>
    ⟨WireType.witnessSize_of_deep hdeep, Writer.witness_of_deep hdeep⟩, ?_, ?_,
    (Writer.Emits.put [Codec.nullWitness]).delivers, fun _ _ _ _ => Codec.decode_witness_null_iff⟩
  · simp only [WireType.witnessSize_eq_ok_iff, exists_and_left, exists_eq', and_true]
  · intro n hsize
    obtain ⟨hdepth, rfl⟩ := WireType.witnessSize_eq_ok_iff.mp hsize
    have hhead := type.head?_witnessBytes_append []
    rw [List.append_nil] at hhead
    refine ⟨_, rfl, (Writer.emits_witness hdepth).delivers, hhead, fun rest => ⟨?_, fun bounds => ?_⟩⟩
    · exact Reader.witness_eq_ok_iff.mpr ⟨hdepth, rfl⟩
    · exact (Codec.decode_witness_accepts bounds).append (.inr ⟨type, rfl, hdepth, rfl⟩) rest
  · intro input rest h
    obtain ⟨hdepth, rfl⟩ := Reader.witness_eq_ok_iff.mp h
    exact ⟨hdepth, type.head?_witnessBytes_append rest, _, rfl,
      (Writer.emits_witness hdepth).delivers⟩

/-- An open and pending type of as many layers as allowed, and the same with one more. -/
theorem witness_of_all_layers :
    (Nat.repeat WireType.pending 31 (.generic 7)).witnessSize = .ok 34 ∧
    (∃ bytes : Bytes, bytes.length = 34 ∧
      Reader.witness (bytes ++ [1, 2]) = .ok (Nat.repeat WireType.pending 31 (.generic 7)) [1, 2]) ∧
    (Nat.repeat WireType.pending 32 (.generic 7)).witnessSize =
      .error (.witnessTooDeep maxWitnessDepth) ∧
    Writer.witness (Nat.repeat WireType.pending 32 (.generic 7)) (.filled 64 0) =
      .error (.witnessTooDeep maxWitnessDepth) (.filled 64 0) ∧
    ∀ input rest,
      Reader.witness input ≠ .ok (Nat.repeat WireType.pending 32 (.generic 7)) rest := by
  have hsize : (Nat.repeat WireType.pending 31 (.generic 7)).witnessSize = .ok 34 := rfl
  have hdeep : maxWitnessDepth < (Nat.repeat WireType.pending 32 (.generic 7)).depth := by decide
  obtain ⟨_, _, _, hwritten, _⟩ :=
    witness_grammars_coincide (Nat.repeat WireType.pending 31 (.generic 7))
  obtain ⟨_, _, hrefused, _, hread, _⟩ :=
    witness_grammars_coincide (Nat.repeat WireType.pending 32 (.generic 7))
  obtain ⟨bytes, hlen, _, _, hback⟩ := hwritten 34 hsize
  obtain ⟨hsizeRefused, hwriterRefused⟩ := hrefused hdeep
  exact ⟨hsize, ⟨bytes, hlen, (hback [1, 2]).1⟩, hsizeRefused, hwriterRefused _,
    fun input rest h => Nat.not_le_of_gt hdeep (hread input rest h).1⟩

end Remoting
