import Mathlib
import Remoting.Proofs.Emission
import Remoting.Proofs.WireFormat

/-! Every encoder of the catalogue writes as many bytes as were calculated, or fails as the
calculation did. -/

namespace Remoting

namespace Writer

theorem emits_witnessLayers (type : WireType) :
    Emits (witnessLayers type) type.witnessBytes (.ok ()) := by
  induction type with
  | array element ih => exact (Emits.put [_]).bind ih
  | nullable inner ih => exact (Emits.put [_]).bind ih
  | pending result ih => exact (Emits.put [_]).bind ih
  | generic index => exact (Emits.put [_]).bind (Emits.put _)
  | member kind => exact (Emits.put [_]).bind (Emits.put [_])
  | _ => exact Emits.put [_]

theorem emits_length {n : Nat} (h : n ≤ maxLength) :
    Emits (length (some n)) (littleEndian 4 n) (.ok ()) := by
  rw [length, if_pos h]
  exact Emits.put _

theorem emits_count {n : Nat} (h : n < 0x10000) : Emits (count n) (littleEndian 2 n) (.ok ()) := by
  rw [count, if_pos h]
  exact Emits.put _

theorem emits_blob {run : Bytes} (h : run.length ≤ maxLength) :
    Emits (blob (some run)) (blobBytes run) (.ok ()) :=
  (emits_length h).bind (Emits.put run)

theorem emits_witness {type : WireType} (h : type.depth ≤ maxWitnessDepth) :
    Emits (witness type) type.witnessBytes (.ok ()) := by
  rw [witness, if_neg (Nat.not_lt.mpr h)]
  exact emits_witnessLayers type

theorem emits_witnesses {types : List WireType}
    (h : Format.witnesses types (witnessesBytes types)) :
    Emits (witnesses types) (witnessesBytes types) (.ok ()) := by
  obtain ⟨hcount, hdepths, _⟩ := h
  exact (emits_count hcount).bind (Emits.flatMap fun type hmem => emits_witness (hdepths type hmem))

theorem sized_length (n : Nat) : Sized (length (some n)) (n ≤ maxLength) (.ok 4) := by
  by_cases hn : n ≤ maxLength
  · exact Sized.of_emits (emits_length hn) _
  · rw [length, if_neg hn]
    exact ⟨[], _, .throw _, .inr ⟨hn, Nat.zero_le _, n, rfl⟩⟩

theorem sized_count (n : Nat) : Sized (count n) (n < 0x10000) (.ok 2) := by
  by_cases hn : n < 0x10000
  · exact Sized.of_emits (emits_count hn) _
  · rw [count, if_neg hn]
    exact ⟨[], _, .throw _, .inr ⟨hn, Nat.zero_le _, n, rfl⟩⟩

theorem sized_blob (run : Bytes) :
    Sized (blob (some run)) (run.length ≤ maxLength) (.ok (4 + run.length)) :=
  ((sized_length run.length).bind (Sized.of_emits (Emits.put run) True)).mono fun h => ⟨h, trivial⟩

theorem sized_witness (type : WireType) : Sized (witness type) True type.witnessSize := by
  by_cases hd : type.depth ≤ maxWitnessDepth
  · rw [WireType.witnessSize, if_neg (Nat.not_lt.mpr hd), ← WireType.length_witnessBytes]
    exact Sized.of_emits (emits_witness hd) _
  · rw [witness, WireType.witnessSize, if_pos (Nat.lt_of_not_le hd), if_pos (Nat.lt_of_not_le hd)]
    exact Sized.of_throw id _

theorem sized_witnesses (types : List WireType) : Sized (witnesses types) (types.length < 0x10000)
    (addSizes (.ok 2) (totalSize WireType.witnessSize 0 types)) :=
  ((sized_count types.length).bind (Sized.each fun type _ => sized_witness type)).mono
    fun h => ⟨h, fun _ _ => trivial⟩

theorem sized_identity (identity : MemberIdentity) : Sized (Writer.identity identity)
    (identity.declaring.utf8ByteSize ≤ maxLength ∧ identity.name.utf8ByteSize ≤ maxLength ∧
      (identity.kind.isCallable = true →
        identity.arguments.length < 0x10000 ∧ identity.parameters.length < 0x10000))
    identity.size := by
  have hdeclaring := sized_blob (textBytes identity.declaring)
  have hname := sized_blob (textBytes identity.name)
  rw [length_textBytes] at hdeclaring hname
  by_cases hk : identity.kind.isCallable = true
  · have harity := Sized.of_emits (Emits.put (littleEndian 2 identity.arity.toNat)) True
    have harguments := sized_witnesses identity.arguments
    have hparameters := sized_witnesses identity.parameters
    have hsize : identity.size = addSizes (.ok (4 + identity.declaring.utf8ByteSize))
        (addSizes (.ok (4 + identity.name.utf8ByteSize)) (addSizes (.ok 2)
          (addSizes (addSizes (.ok 2) (totalSize WireType.witnessSize 0 identity.arguments))
            (addSizes (.ok 2) (totalSize WireType.witnessSize 0 identity.parameters))))) := by
      simp only [MemberIdentity.size, MemberIdentity.witnessesSize, hk, if_true, map_add_eq_addSizes,
        totalSize_append]
      cases totalSize WireType.witnessSize 0 identity.arguments <;>
        cases totalSize WireType.witnessSize 0 identity.parameters <;> simp [addSizes]
      omega
    rw [length_littleEndian] at harity
    have hall := hdeclaring.bind (hname.bind (harity.bind (harguments.bind hparameters)))
    rw [hsize]
    simp only [Writer.identity, hk, if_true]
    exact hall.mono fun h => ⟨h.1, h.2.1, trivial, (h.2.2 trivial).1, (h.2.2 trivial).2⟩
  · have hall := hdeclaring.bind (hname.bind (Sized.of_emits Emits.nothing True))
    simp only [Writer.identity, MemberIdentity.size, hk, Bool.false_eq_true, if_false]
    exact hall.mono fun h => ⟨h.1, h.2.1, trivial⟩

end Writer

/-- What a handle tells of arguments and parameters is no more than a count can tell, where this is
so of the parameters of its member. -/
theorem MemberHandle.identity_counts_lt (handle : MemberHandle)
    (h : handle.member.parameters.length < 0x10000) :
    handle.identity.arguments.length < 0x10000 ∧ handle.identity.parameters.length < 0x10000 := by
  constructor
  · have harity := handle.member.arity.toNat_lt
    rcases handle.argumentCount with hnil | hcount
    · simp [identity, hnil]
    · simpa [identity, hcount] using harity
  · simp only [identity, parameters]
    split <;> simpa using h

namespace Codec

open Writer

theorem size_of_fixedSize {registry : Registry} {type : WireType} {codec : Codec}
    (h : Catalogued registry type codec) {width n : Nat} {value : Value}
    (hf : codec.fixedSize = some width) (hs : codec.size value = .ok n) : n = width := by
  cases h with
  | unit =>
    cases value <;> cases hs
    exact Option.some.inj hf
  | bool =>
    cases value <;> cases hs
    exact Option.some.inj hf
  | number type =>
    cases value with
    | number t bits =>
      by_cases ht : t = type
      · rw [size, if_pos ht] at hs
        exact (Except.ok.inj hs).symm.trans (Option.some.inj hf)
      · rw [size, if_neg ht] at hs
        cases hs
    | _ => cases hs
  | _ => cases hf

/-- The shortcut for elements of a fixed size gives the sum of their sizes. -/
theorem arraySize_eq {size : Value → Except EncodeError Nat} {fixed : Option Nat}
    {items : List Value} (h : ∀ width n value, fixed = some width → size value = .ok n → n = width) :
    arraySize 4 items.length size fixed items = addSizes (.ok 4) (totalSize size 0 items) := by
  have hsum : ∀ width sum, fixed = some width → totalSize size 0 items = .ok sum →
      sum = width * items.length := by
    intro width sum hf
    induction items generalizing sum with
    | nil =>
      intro ht
      exact (Except.ok.inj ht).symm
    | cons item items ih =>
      intro ht
      rw [totalSize_cons] at ht
      cases hs : size item with
      | error error => simp [hs, addSizes] at ht
      | ok n =>
        cases hrest : totalSize size 0 items with
        | error error => simp [hs, hrest, addSizes] at ht
        | ok rest =>
          simp only [hs, hrest, addSizes, Except.ok.injEq] at ht
          have hn := h width n item hf hs
          have hr := ih rest hrest
          rw [← ht, hn, hr, List.length_cons, Nat.mul_succ, Nat.add_comm]
  rw [arraySize, totalSize_eq_addSizes]
  cases fixed with
  | none => cases totalSize size 0 items <;> rfl
  | some width =>
    cases ht : totalSize size 0 items with
    | error error => rfl
    | ok sum =>
      have hs := hsum width sum rfl ht
      simp [addSizes, Except.map, hs]

theorem sized_encode {registry : Registry} {type : WireType} {codec : Codec}
    (h : Catalogued registry type codec) (value : Value) :
    Sized (codec.encode value) value.FitsWire (codec.size value) := by
  induction h generalizing value with
  | unit =>
    cases value with
    | unit => exact Sized.of_emits Emits.nothing _
    | _ => exact Sized.of_throw id _
  | bool =>
    cases value with
    | bool b => exact Sized.of_emits (Emits.put [_]) _
    | _ => exact Sized.of_throw id _
  | number type =>
    cases value with
    | number t bits =>
      by_cases ht : t = type
      · have hput := Sized.of_emits (Emits.put (littleEndian type.width bits.toNat))
        rw [length_littleEndian] at hput
        rw [encode, size, if_pos ht, if_pos ht]
        exact hput _
      · rw [encode, size, if_neg ht, if_neg ht]
        exact Sized.of_throw id _
    | _ => exact Sized.of_throw id _
  | text =>
    cases value with
    | null => exact Sized.of_emits (Emits.put (littleEndian 4 nullLength)) _
    | text s => exact (sized_blob (textBytes s)).mono fun hf => hf _ (.whole _)
    | _ => exact Sized.of_throw id _
  | blob =>
    cases value with
    | null => exact Sized.of_emits (Emits.put (littleEndian 4 nullLength)) _
    | blob run => exact (sized_blob run).mono fun hf => hf _ (.whole _)
    | _ => exact Sized.of_throw id _
  | witness =>
    cases value with
    | null => exact Sized.of_emits (Emits.put [nullWitness]) _
    | witness type => exact (sized_witness type).mono fun _ => trivial
    | _ => exact Sized.of_throw id _
  | member kind =>
    cases value with
    | null => exact Sized.of_emits (Emits.put [0]) _
    | member handle =>
      by_cases hk : handle.member.kind = kind
      · have hpresent := Sized.of_emits (Emits.put [1]) True
        rw [encode, size, if_pos hk, if_pos hk, map_add_eq_addSizes]
        refine (hpresent.bind (sized_identity handle.identity)).mono fun hf => ⟨trivial, ?_⟩
        obtain ⟨hd, hn, hp⟩ : (Value.member handle).LengthFits := hf _ (.whole _)
        exact ⟨hd, hn, fun hcall => handle.identity_counts_lt (hp hcall)⟩
      · rw [encode, size, if_neg hk, if_neg hk]
        exact Sized.of_throw id _
    | _ => exact Sized.of_throw id _
  | @array _ element hc ih =>
    cases value with
    | null => exact Sized.of_emits (Emits.put (littleEndian 4 nullLength)) _
    | array items =>
      by_cases he : element.exceedsZeroWidth items.length = true
      · rw [encode, size, if_pos he, if_pos he]
        exact Sized.of_throw id _
      · have hitems := Sized.each fun item (_ : item ∈ items) => ih item
        have hfixed : ∀ width n value, element.fixedSize = some width →
            element.size value = .ok n → n = width := fun _ _ _ => size_of_fixedSize hc
        rw [encode, size, if_neg he, if_neg he, arraySize_eq hfixed]
        exact ((sized_length items.length).bind hitems).mono fun hf =>
          ⟨hf _ (.whole _), fun item hmem => hf.item hmem⟩
    | _ => exact Sized.of_throw id _
  | @nullable _ inner _ ih =>
    have hpresent := Sized.of_emits (Emits.put [1]) True
    cases value with
    | null => exact Sized.of_emits (Emits.put [0]) _
    | _ =>
      rw [encode, size, map_add_eq_addSizes]
      · exact (hpresent.bind (ih _)).mono fun hf => ⟨trivial, hf⟩
      all_goals simp

end Codec

end Remoting
