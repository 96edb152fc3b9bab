import Mathlib
import Remoting.Proofs.EncoderEmission
import Remoting.Proofs.Fallible
import Remoting.Proofs.WordSizes

/-! Writing piece by piece. Where all that codecs do is to put pieces one behind the other, fields
become a payload exactly if the pieces amount to what the sizes calculated for them, right or wrong,
add up to in a machine word. This is their total as long as a buffer can have as much. -/

namespace Remoting

namespace Writer

/-- All that the action does is to put the pieces, one behind the other. -/
def Puts (action : Writer Unit) (pieces : List Bytes) : Prop :=
  action = each Writer.put pieces

theorem pieces_eq_each (piece : Nat → Bytes) (place count : Nat) :
    pieces piece place count = each put ((List.range' place count).map piece) := by
  induction count generalizing place with
  | zero => rfl
  | succ count ih => rw [pieces, ih, List.range'_succ, List.map_cons, each]

/-- The first piece that finds no room ends the writing, with those before it written. -/
theorem each_put_of_lt {pieces : List Bytes} {buffer : Buffer}
    (h : buffer.remaining < pieces.flatten.length) :
    ∃ before piece behind, pieces = before ++ piece :: behind ∧
      before.flatten.length ≤ buffer.remaining ∧
      buffer.remaining < before.flatten.length + piece.length ∧
      each put pieces buffer =
        .error (.overflow piece.length (buffer.remaining - before.flatten.length))
          (buffer.write before.flatten) := by
  induction pieces generalizing buffer with
  | nil => exact absurd h (Nat.not_lt_zero _)
  | cons first pieces ih =>
    rw [List.flatten_cons, List.length_append] at h
    by_cases hfirst : first.length ≤ buffer.remaining
    · have hrest : (buffer.write first).remaining < pieces.flatten.length := by
        rw [Buffer.remaining_write]
        omega
      obtain ⟨before, piece, behind, rfl, hle, hlt, herror⟩ := ih hrest
      rw [Buffer.remaining_write] at hle hlt herror
      refine ⟨first :: before, piece, behind, rfl, ?_, ?_, ?_⟩
      · rw [List.flatten_cons, List.length_append]
        omega
      · rw [List.flatten_cons, List.length_append]
        omega
      · rw [each, bind_apply, put_of_le hfirst]
        dsimp only
        rw [herror, List.flatten_cons, Buffer.write_append, List.length_append, Nat.sub_sub]
    · have hroom : buffer.remaining < first.length := Nat.lt_of_not_le hfirst
      refine ⟨[], first, pieces, rfl, Nat.zero_le _, by simpa using hroom, ?_⟩
      rw [each, bind_apply, put_of_lt hroom]
      simp

namespace Puts

theorem nothing : Puts (pure ()) [] := rfl

theorem put (bytes : Bytes) : Puts (put bytes) [bytes] := by
  show Writer.put bytes = Writer.put bytes >>= fun _ => pure ()
  exact (bind_pure_unit (m := EStateM EncodeError Buffer)).symm

theorem bind {action next : Writer Unit} {front back : List Bytes} (h : Puts action front)
    (hn : Puts next back) : Puts (action >>= fun _ => next) (front ++ back) := by
  rw [Puts, each_append, h, hn]

theorem each {α : Type} {write : α → Writer Unit} {piecesOf : α → List Bytes} {items : List α}
    (h : ∀ item ∈ items, Puts (write item) (piecesOf item)) :
    Puts (each write items) (items.flatMap piecesOf) := by
  induction items with
  | nil => exact nothing
  | cons item items ih =>
    have hfirst := h item List.mem_cons_self
    exact hfirst.bind (ih fun other hmem => h other (List.mem_cons_of_mem item hmem))

theorem length {n : Nat} (h : n ≤ maxLength) : Puts (length (some n)) [littleEndian 4 n] := by
  rw [Writer.length, if_pos h]
  exact put _

theorem count {n : Nat} (h : n < 0x10000) : Puts (count n) [littleEndian 2 n] := by
  rw [Writer.count, if_pos h]
  exact put _

theorem emits {action : Writer Unit} {pieces : List Bytes} (h : Puts action pieces) :
    Emits action pieces.flatten (.ok ()) := by
  rw [h, ← List.flatMap_id']
  exact Emits.flatMap fun bytes _ => Emits.put bytes

end Puts

end Writer

/-- A run of bytes in two pieces, the length before the bytes. -/
def blobPieces (run : Bytes) : List Bytes := [littleEndian 4 run.length, run]

def WireType.pieces : WireType → List Bytes
  | array element => [TypeTag.array.byte] :: element.pieces
  | nullable inner => [TypeTag.nullable.byte] :: inner.pieces
  | pending result => [TypeTag.pending.byte] :: result.pieces
  | generic index => [[TypeTag.generic.byte], littleEndian 2 index.toNat]
  | member kind => [[TypeTag.member.byte], [kind.byte]]
  | leaf => [[leaf.tag.byte]]

def witnessesPieces (types : List WireType) : List Bytes :=
  littleEndian 2 types.length :: types.flatMap WireType.pieces

def MemberIdentity.pieces (identity : MemberIdentity) : List Bytes :=
  blobPieces (textBytes identity.declaring) ++ (blobPieces (textBytes identity.name) ++
    if identity.kind.isCallable then
      littleEndian 2 identity.arity.toNat ::
        (witnessesPieces identity.arguments ++ witnessesPieces identity.parameters)
    else [])

namespace Codec

/-- The action of a codec on a value does nothing but put the pieces. -/
def Puts (codec : Codec) (value : Value) (pieces : List Bytes) : Prop :=
  Writer.Puts (codec.encode value) pieces

/-- The lengths and counts that a codec of the catalogue puts in front of something fit their
prefixes. What codecs from outside write is their own affair. -/
def LengthsFit : Codec → Value → Prop
  | custom _, _ => True
  | array element, .array items =>
    items.length ≤ maxLength ∧ ∀ item ∈ items, element.LengthsFit item
  | nullable inner, value => inner.LengthsFit value
  | _, value => value.LengthFits

def pieces : Codec → Value → List Bytes
  | bool, .bool b => [[if b then 1 else 0]]
  | number type, .number _ bits => [littleEndian type.width bits.toNat]
  | text, .text s => blobPieces (textBytes s)
  | blob, .blob bytes => blobPieces bytes
  | text, .null | blob, .null | array _, .null => [littleEndian 4 nullLength]
  | witness, .null => [[nullWitness]]
  | witness, .witness type => type.pieces
  | member _ _, .null => [[0]]
  | member _ _, .member handle => [1] :: handle.identity.pieces
  | array element, .array items => littleEndian 4 items.length :: items.flatMap element.pieces
  | nullable _, .null => [[0]]
  | nullable inner, value => [1] :: inner.pieces value
  | custom codec, value => (List.range (codec.pieceCount value)).map (codec.piece value)
  | _, _ => []

end Codec

section Catalogue

open Writer

theorem puts_blob {run : Bytes} (h : run.length ≤ maxLength) :
    Puts (blob (some run)) (blobPieces run) :=
  (Puts.length h).bind (Puts.put run)

theorem puts_witnessLayers (type : WireType) : Puts (witnessLayers type) type.pieces := by
  induction type with
  | array element ih => exact (Puts.put [_]).bind ih
  | nullable inner ih => exact (Puts.put [_]).bind ih
  | pending result ih => exact (Puts.put [_]).bind ih
  | generic index => exact (Puts.put [_]).bind (Puts.put _)
  | member kind => exact (Puts.put [_]).bind (Puts.put [_])
  | _ => exact Puts.put [_]

theorem puts_witness {type : WireType} {n : Nat} (h : type.witnessSize = .ok n) :
    Puts (witness type) type.pieces := by
  unfold WireType.witnessSize at h
  split at h
  · cases h
  · rename_i hdepth
    rw [witness, if_neg hdepth]
    exact puts_witnessLayers type

/-- Where a sum of sizes comes out, every item has a size. -/
theorem exists_size_of_totalSize {α : Type} {size : α → Except EncodeError Nat} {items : List α}
    {sum total : Nat} (h : totalSize size sum items = .ok total) :
    ∀ item ∈ items, ∃ n, size item = .ok n := by
  induction items generalizing sum with
  | nil => exact nofun
  | cons item items ih =>
    cases hsize : size item with
    | error error => simp [totalSize, hsize] at h
    | ok n =>
      have hrest : totalSize size (sum + n) items = .ok total := by simpa [totalSize, hsize] using h
      exact List.forall_mem_cons.mpr ⟨⟨n, hsize⟩, ih hrest⟩

theorem puts_witnesses {types : List WireType} (hcount : types.length < 0x10000)
    (hsizes : ∀ type ∈ types, ∃ n, type.witnessSize = .ok n) :
    Puts (witnesses types) (witnessesPieces types) := by
  refine (Puts.count hcount).bind (Puts.each fun type hmem => ?_)
  obtain ⟨n, hn⟩ := hsizes type hmem
  exact puts_witness hn

theorem puts_identity {identity : MemberIdentity} {n : Nat} (h : identity.size = .ok n)
    (hdeclaring : identity.declaring.utf8ByteSize ≤ maxLength)
    (hname : identity.name.utf8ByteSize ≤ maxLength)
    (hcounts : identity.kind.isCallable = true →
      identity.arguments.length < 0x10000 ∧ identity.parameters.length < 0x10000) :
    Puts (Writer.identity identity) identity.pieces := by
  have hdeclared : Puts (blob (some (textBytes identity.declaring)))
    (blobPieces (textBytes identity.declaring)) := puts_blob hdeclaring
  have hnamed : Puts (blob (some (textBytes identity.name)))
    (blobPieces (textBytes identity.name)) := puts_blob hname
  have hnames := fun next back (hn : Puts next back) => hdeclared.bind (hnamed.bind hn)
  rw [Writer.identity, MemberIdentity.pieces]
  by_cases hcallable : identity.kind.isCallable = true
  · obtain ⟨harguments, hparameters⟩ := hcounts hcallable
    have hsizes : ∀ type ∈ identity.arguments ++ identity.parameters,
        ∃ n, type.witnessSize = .ok n := by
      simp only [MemberIdentity.size, hcallable, if_true, except_map_eq_ok_iff] at h
      obtain ⟨total, htotal, _⟩ := h
      exact exists_size_of_totalSize htotal
    obtain ⟨hargument, hparameter⟩ := List.forall_mem_append.mp hsizes
    rw [if_pos hcallable, if_pos hcallable]
    exact hnames _ _ ((Puts.put _).bind
      ((puts_witnesses harguments hargument).bind (puts_witnesses hparameters hparameter)))
  · rw [if_neg hcallable, if_neg hcallable]
    exact hnames _ _ Puts.nothing

end Catalogue

namespace Codec

/-- A codec that has a size for a value puts pieces for it, provided that the lengths it puts in
front fit their prefixes. -/
theorem puts_pieces {codec : Codec} {value : Value} {n : Nat} (h : codec.size value = .ok n)
    (hfit : codec.LengthsFit value) : codec.Puts value (codec.pieces value) := by
  induction codec generalizing value n with
  | unit =>
    cases value with
    | unit => exact Writer.Puts.nothing
    | _ => cases h
  | bool =>
    cases value with
    | bool b => exact Writer.Puts.put _
    | _ => cases h
  | number type =>
    cases value with
    | number t bits =>
      by_cases ht : t = type
      · rw [Puts, encode, if_pos ht]
        exact Writer.Puts.put _
      · rw [size, if_neg ht] at h
        cases h
    | _ => cases h
  | text =>
    cases value with
    | null => exact Writer.Puts.put _
    | text s => exact puts_blob hfit
    | _ => cases h
  | blob =>
    cases value with
    | null => exact Writer.Puts.put _
    | blob run => exact puts_blob hfit
    | _ => cases h
  | witness =>
    cases value with
    | null => exact Writer.Puts.put _
    | witness type => exact puts_witness h
    | _ => cases h
  | member kind registry =>
    cases value with
    | null => exact Writer.Puts.put _
    | member handle =>
      by_cases hk : handle.member.kind = kind
      · rw [size, if_pos hk, except_map_eq_ok_iff] at h
        obtain ⟨total, htotal, _⟩ := h
        obtain ⟨hdeclaring, hname, hparameters⟩ : (Value.member handle).LengthFits := hfit
        rw [Puts, encode, if_pos hk]
        refine (Writer.Puts.put [1]).bind (puts_identity htotal hdeclaring hname fun hcall => ?_)
        exact handle.identity_counts_lt (hparameters hcall)
      · rw [size, if_neg hk] at h
        cases h
    | _ => cases h
  | array element ih =>
    cases value with
    | null => exact Writer.Puts.put _
    | array items =>
      by_cases he : element.exceedsZeroWidth items.length = true
      · rw [size, if_pos he] at h
        cases h
      · rw [size, if_neg he, arraySize, except_map_eq_ok_iff] at h
        obtain ⟨total, htotal, _⟩ := h
        have hsizes := exists_size_of_totalSize htotal
        rw [Puts, encode, if_neg he]
        refine (Writer.Puts.length hfit.1).bind (Writer.Puts.each fun item hmem => ?_)
        obtain ⟨m, hm⟩ := hsizes item hmem
        exact ih hm (hfit.2 item hmem)
    | _ => cases h
  | nullable inner ih =>
    cases value with
    | null => exact Writer.Puts.put _
    | _ =>
      rw [size, except_map_eq_ok_iff] at h
      · obtain ⟨m, hm, _⟩ := h
        exact (Writer.Puts.put [1]).bind (ih hm hfit)
      all_goals simp
  | custom codec =>
    rw [Puts, encode, pieces, List.range_eq_range']
    exact Writer.pieces_eq_each _ _ _

/-- A size in a machine word is a size without a bound that has been wrapped around. -/
theorem puts_pieces_of_wordSize {codec : Codec} {value : Value} {size : UInt64}
    (h : codec.wordSize value = .ok size) (hfit : codec.LengthsFit value) :
    codec.Puts value (codec.pieces value) := by
  rw [codec.wordSize_eq, except_map_eq_ok_iff] at h
  obtain ⟨n, hn, _⟩ := h
  exact puts_pieces hn hfit

end Codec

/-- What sizes amount to, without a bound. -/
def totalTold (sizes : List UInt64) : Nat := (sizes.map UInt64.toNat).sum

theorem toNat_sum_eq (sizes : List UInt64) : sizes.sum.toNat = totalTold sizes % 2 ^ 64 := by
  induction sizes with
  | nil => rfl
  | cons size sizes ih =>
    have htold : totalTold (size :: sizes) = size.toNat + totalTold sizes := List.sum_cons
    rw [List.sum_cons, UInt64.toNat_add, ih, htold, Nat.add_mod_mod]

theorem toNat_sum_of_le {sizes : List UInt64} (h : totalTold sizes ≤ maxRoom) :
    sizes.sum.toNat = totalTold sizes := by
  rw [toNat_sum_eq]
  exact Nat.mod_eq_of_lt (Nat.lt_of_le_of_lt h (by decide))

section Fields

variable {fields : List Field} {sizes : List UInt64} {pieces : List Bytes} {calculated : Nat}

theorem totalSize_of_words
    (h : List.Forall₂ (fun field size => fieldWord field = .ok size) fields sizes) (sum : UInt64) :
    totalSize fieldWord sum fields = .ok (sum + sizes.sum) := by
  induction h generalizing sum with
  | nil => rw [List.sum_nil, UInt64.add_zero, totalSize]
  | cons hsize _ ih => rw [totalSize, hsize, List.sum_cons, ← UInt64.add_assoc]; exact ih _

theorem encodeAny_of_words
    (h : List.Forall₂ (fun field size => fieldWord field = .ok size) fields sizes) :
    encodeAny fields = if maxRoom < sizes.sum.toNat then .stopped
      else .returned (writeFields sizes.sum.toNat fields) := by
  rw [encodeAny, totalSize_of_words h, UInt64.zero_add]

theorem exists_word_of_mem
    (h : List.Forall₂ (fun field size => fieldWord field = .ok size) fields sizes) {field : Field}
    (hmem : field ∈ fields) : ∃ size, field.1.wordSize field.2 = .ok size := by
  induction h with
  | nil => cases hmem
  | cons hsize _ ih =>
    rcases List.mem_cons.mp hmem with rfl | hmem
    · exact ⟨_, hsize⟩
    · exact ih hmem

theorem puts_fields {writes : List (List Bytes)}
    (h : List.Forall₂ (fun field pieces => field.1.Puts field.2 pieces) fields writes) :
    Writer.Puts (Writer.each writeField fields) writes.flatten := by
  induction h with
  | nil => exact Writer.Puts.nothing
  | cons hputs _ ih => exact Writer.Puts.bind hputs ih

theorem writeFields_of_total_lt (hputs : Writer.Puts (Writer.each writeField fields) pieces)
    (h : calculated < pieces.flatten.length) :
    ∃ before piece behind, pieces = before ++ piece :: behind ∧
      before.flatten.length ≤ calculated ∧ calculated < before.flatten.length + piece.length ∧
      writeFields calculated fields =
        .error (.overflow piece.length (calculated - before.flatten.length)) := by
  have hroom : (Buffer.filled calculated 0).remaining < pieces.flatten.length := h
  obtain ⟨before, piece, behind, hpieces, hle, hlt, herror⟩ := Writer.each_put_of_lt hroom
  refine ⟨before, piece, behind, hpieces, hle, hlt, ?_⟩
  rw [Writer.Puts] at hputs
  simp only [writeFields, hputs, herror]
  rfl

theorem writeFields_of_le_total (hputs : Writer.Puts (Writer.each writeField fields) pieces)
    (h : pieces.flatten.length ≤ calculated) :
    writeFields calculated fields =
      if pieces.flatten.length = calculated then .ok pieces.flatten
      else .error (.sizeMismatch calculated pieces.flatten.length) := by
  have hrun : Writer.each writeField fields (Buffer.filled calculated 0) =
      .ok () ((Buffer.filled calculated 0).write pieces.flatten) := hputs.emits.fits _ h
  simp only [writeFields, hrun, Buffer.position_write_filled]
  by_cases hsame : pieces.flatten.length = calculated
  · subst hsame
    rw [if_pos rfl, if_pos rfl, Buffer.contents_write_filled]
  · rw [if_neg hsame, if_neg hsame]

theorem writeFields_eq_ok_iff (hputs : Writer.Puts (Writer.each writeField fields) pieces)
    {payload : Bytes} : writeFields calculated fields = .ok payload ↔
      pieces.flatten.length = calculated ∧ payload = pieces.flatten := by
  by_cases hle : pieces.flatten.length ≤ calculated
  · rw [writeFields_of_le_total hputs hle]
    by_cases hsame : pieces.flatten.length = calculated
    · rw [if_pos hsame, Except.ok.injEq]
      exact ⟨fun h => ⟨hsame, h.symm⟩, fun h => h.2.symm⟩
    · rw [if_neg hsame]
      exact iff_of_false nofun fun h => hsame h.1
  · obtain ⟨_, _, _, _, _, _, herror⟩ := writeFields_of_total_lt hputs (Nat.lt_of_not_le hle)
    rw [herror]
    exact iff_of_false nofun fun h => hle h.1.le

theorem writeFields_eq_sizeMismatch_iff (hputs : Writer.Puts (Writer.each writeField fields) pieces)
    {total written : Nat} : writeFields calculated fields = .error (.sizeMismatch total written) ↔
      pieces.flatten.length < calculated ∧ total = calculated ∧ written = pieces.flatten.length := by
  by_cases hle : pieces.flatten.length ≤ calculated
  · rw [writeFields_of_le_total hputs hle]
    by_cases hsame : pieces.flatten.length = calculated
    · rw [if_pos hsame]
      exact iff_of_false nofun fun h => h.1.ne hsame
    · rw [if_neg hsame, Except.error.injEq, EncodeError.sizeMismatch.injEq]
      have hlt := Nat.lt_of_le_of_ne hle hsame
      exact ⟨fun h => ⟨hlt, h.1.symm, h.2.symm⟩, fun h => ⟨h.2.1.symm, h.2.2.symm⟩⟩
  · obtain ⟨_, _, _, _, _, _, herror⟩ := writeFields_of_total_lt hputs (Nat.lt_of_not_le hle)
    rw [herror]
    exact iff_of_false nofun fun h => hle h.1.le

end Fields

/-- What fields become of whose codecs nothing is known but the sizes they tell and the pieces they
put. Codecs from outside are among these, alone or as what arrays and nullables are made of. Where
no more is put than is told, the totals decide exactly if a buffer can have what is told. -/
theorem payloads_are_the_pieces_put {fields : List Field} {sizes : List UInt64}
    {writes : List (List Bytes)}
    (hsizes : List.Forall₂ (fun field size => fieldWord field = .ok size) fields sizes)
    (hwrites : List.Forall₂ (fun field pieces => field.1.Puts field.2 pieces) fields writes) :
    (∀ field ∈ fields, field.1.LengthsFit field.2 →
      field.1.Puts field.2 (field.1.pieces field.2)) ∧
    (maxRoom < sizes.sum.toNat → encodeAny fields = .stopped) ∧
    (sizes.sum.toNat ≤ maxRoom →
      (∀ payload, encodeAny fields = .returned (.ok payload) ↔
        writes.flatten.flatten.length = sizes.sum.toNat ∧ payload = writes.flatten.flatten) ∧
      (sizes.sum.toNat < writes.flatten.flatten.length → ∃ before piece behind,
        writes.flatten = before ++ piece :: behind ∧ before.flatten.length ≤ sizes.sum.toNat ∧
          sizes.sum.toNat < before.flatten.length + piece.length ∧
          encodeAny fields = .returned
            (.error (.overflow piece.length (sizes.sum.toNat - before.flatten.length)))) ∧
      (writes.flatten.flatten.length < sizes.sum.toNat → encodeAny fields = .returned
        (.error (.sizeMismatch sizes.sum.toNat writes.flatten.flatten.length)))) ∧
    (totalTold sizes ≤ maxRoom → sizes.sum.toNat = totalTold sizes) ∧
    (writes.flatten.flatten.length ≤ totalTold sizes →
      (encodeAny fields = .returned
          (if writes.flatten.flatten.length = totalTold sizes then .ok writes.flatten.flatten
            else .error (.sizeMismatch (totalTold sizes) writes.flatten.flatten.length)) ↔
        totalTold sizes ≤ maxRoom)) := by
  have hputs := puts_fields hwrites
  have hany := encodeAny_of_words hsizes
  refine ⟨fun field hmem hfit => ?_, fun hlt => ?_, fun hle => ?_, toNat_sum_of_le,
    fun htold => ⟨fun hdecided => ?_, fun hle => ?_⟩⟩
  · obtain ⟨size, hsize⟩ := exists_word_of_mem hsizes hmem
    exact Codec.puts_pieces_of_wordSize hsize hfit
  · rw [hany, if_pos hlt]
  · rw [hany, if_neg (Nat.not_lt.mpr hle)]
    refine ⟨fun payload => ?_, fun hlt => ?_, fun hlt => ?_⟩
    · rw [Ending.returned.injEq]
      exact writeFields_eq_ok_iff hputs
    · obtain ⟨before, piece, behind, hpieces, hbefore, hpiece, herror⟩ :=
        writeFields_of_total_lt hputs hlt
      exact ⟨before, piece, behind, hpieces, hbefore, hpiece, congrArg _ herror⟩
    · rw [(writeFields_eq_sizeMismatch_iff hputs).mpr ⟨hlt, rfl, rfl⟩]
  · -- A sum that has wrapped around is not what is told, so neither answer is for what is told.
    by_contra hmore
    rw [hany] at hdecided
    split at hdecided
    · cases hdecided
    · rename_i hroom
      rw [Ending.returned.injEq] at hdecided
      split at hdecided
      · have hlength := ((writeFields_eq_ok_iff hputs).mp hdecided).1
        omega
      · have hcalculated := ((writeFields_eq_sizeMismatch_iff hputs).mp hdecided).2.1
        omega
  · rw [hany, toNat_sum_of_le hle, if_neg (Nat.not_lt.mpr hle), writeFields_of_le_total hputs htold]

/-- A codec that tells one size for every value and puts other bytes. -/
def CustomCodec.telling (size : UInt64) (bytes : Bytes) : CustomCodec where
  type := .unit
  size _ := .ok size
  pieceCount _ := bytes.length
  piece _ place := [bytes.getD place 0]
  decode _ := return .unit

/-- An array of two elements, each a byte too long, and behind it a nullable two bytes too short.
Together they come out even; each alone is refused. -/
def unevenFields : List Field :=
  [(.array (.custom (.telling 1 [7, 8])), .array [.unit, .unit]),
    (.nullable (.custom (.telling 3 [9])), .bool true)]

theorem uneven_fields_come_out_even :
    (List.Forall₂ (fun field size => fieldWord field = .ok size) unevenFields [6, 4] ∧
      List.Forall₂ (fun field pieces => field.1.Puts field.2 pieces) unevenFields
        (unevenFields.map fun field => field.1.pieces field.2)) ∧
    encodeAny unevenFields = .returned (.ok [2, 0, 0, 0, 7, 8, 7, 8, 1, 9]) ∧
    (∃ needed remaining, remaining < needed ∧
      encodeAny (unevenFields.take 1) = .returned (.error (.overflow needed remaining))) ∧
    encodeAny (unevenFields.drop 1) = .returned (.error (.sizeMismatch 4 2)) := by
  have hsizes : List.Forall₂ (fun field size => fieldWord field = .ok size) unevenFields [6, 4] :=
    .cons rfl (.cons rfl .nil)
  have harray : Codec.Puts (.array (.custom (.telling 1 [7, 8]))) (.array [.unit, .unit]) _ :=
    Codec.puts_pieces_of_wordSize (hsizes.get (i := 0) (by decide) (by decide))
      ⟨by decide, fun _ _ => trivial⟩
  have hnullable : Codec.Puts (.nullable (.custom (.telling 3 [9]))) (.bool true) _ :=
    Codec.puts_pieces_of_wordSize (hsizes.get (i := 1) (by decide) (by decide)) trivial
  obtain ⟨_, _, hboth, _⟩ :=
    payloads_are_the_pieces_put hsizes (.cons harray (.cons hnullable .nil))
  have hfirst : List.Forall₂ (fun field size => fieldWord field = .ok size)
    (unevenFields.take 1) [6] := .cons rfl .nil
  have hsecond : List.Forall₂ (fun field size => fieldWord field = .ok size)
    (unevenFields.drop 1) [4] := .cons rfl .nil
  obtain ⟨_, _, hlong, _⟩ := payloads_are_the_pieces_put hfirst (.cons harray .nil)
  obtain ⟨_, _, hshort, _⟩ := payloads_are_the_pieces_put hsecond (.cons hnullable .nil)
  refine ⟨⟨hsizes, .cons harray (.cons hnullable .nil)⟩, ?_, ?_, ?_⟩
  · exact ((hboth (by decide)).1 _).mpr ⟨rfl, rfl⟩
  · obtain ⟨before, piece, behind, hsplit, hle, hlt, herror⟩ := (hlong (by decide)).2.1 (by decide)
    exact ⟨_, _, by omega, herror⟩
  · exact (hshort (by decide)).2.2 (by decide)

/-- A field that tells more than any buffer can have stops the run instead of being refused. Two
fields that tell 2^63 bytes each and put none become an empty payload. -/
theorem oversized_fields_are_not_refused :
    (fieldWord (.custom (.telling 0xFFFFFFFFFFFFFFFF []), .unit) = .ok 0xFFFFFFFFFFFFFFFF ∧
      Codec.Puts (.custom (.telling 0xFFFFFFFFFFFFFFFF [])) .unit [] ∧
      encodeAny [(.custom (.telling 0xFFFFFFFFFFFFFFFF []), .unit)] ≠
        .returned (.error (.sizeMismatch 0xFFFFFFFFFFFFFFFF 0)) ∧
      encodeAny [(.custom (.telling 0xFFFFFFFFFFFFFFFF []), .unit)] = .stopped) ∧
    fieldWord (.custom (.telling 0x8000000000000000 []), .unit) = .ok 0x8000000000000000 ∧
      Codec.Puts (.custom (.telling 0x8000000000000000 [])) .unit [] ∧
      totalTold [0x8000000000000000, 0x8000000000000000] = 2 ^ 64 ∧
      encodeAny [(.custom (.telling 0x8000000000000000 []), .unit),
        (.custom (.telling 0x8000000000000000 []), .unit)] = .returned (.ok []) := by
  have hstopped : encodeAny [(.custom (.telling 0xFFFFFFFFFFFFFFFF []), .unit)] = .stopped := rfl
  exact ⟨⟨rfl, rfl, by rw [hstopped]; nofun, hstopped⟩, rfl, rfl, rfl, rfl⟩

end Remoting
