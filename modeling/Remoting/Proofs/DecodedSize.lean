import Mathlib
import Remoting.Proofs.DecoderAcceptance

/-! How large a value can come of how many bytes. Whatever a length prefix announces, elements cost
a byte each or are units, and of these an array has room for so many only. -/

namespace Remoting

namespace Value

mutual

/-- How many values a value is made of: itself, and those of the items of an array. -/
def nodes : Value → Nat
  | array items => 1 + nodesAll items
  | _ => 1
termination_by structural value => value

def nodesAll : List Value → Nat
  | [] => 0
  | item :: items => item.nodes + nodesAll items
termination_by structural values => values

end

/-- The part of a value at a place, which tells the item to take of each array on the way. -/
def at? (value : Value) : List Nat → Option Value
  | [] => some value
  | i :: place =>
    match value with
    | array items => items[i]?.bind fun item => item.at? place
    | _ => none

theorem nodes_eq_one_or_array (value : Value) : value.nodes = 1 ∨ ∃ items, value = .array items := by
  cases value with
  | array items => exact .inr ⟨items, rfl⟩
  | _ => exact .inl rfl

theorem eq_array_of_at? {value : Value} {place : List Nat} {items : List Value}
    (h : value.at? place = some (.array items)) : ∃ own, value = .array own := by
  cases value with
  | array own => exact ⟨own, rfl⟩
  | _ => cases place <;> simp [at?] at h

end Value

namespace Format

variable {α : Type}

/-- One of many spellings in a row, with those in front of it. -/
theorem repeated_getElem? {item : Format α} {count i : Nat} {values : List α} {value : α}
    {bytes : Bytes} (h : repeated item count values bytes) (hi : values[i]? = some value) :
    ∃ front found back, repeated item i (values.take i) front ∧ item value found ∧
      bytes = front ++ (found ++ back) := by
  obtain ⟨rfl, pieces, hall, rfl⟩ := h
  induction hall generalizing i with
  | nil => simp at hi
  | @cons first piece others pieces hfirst _ ih =>
    cases i with
    | zero =>
      obtain rfl : first = value := by simpa using hi
      exact ⟨[], piece, pieces.flatten, ⟨rfl, [], .nil, rfl⟩, hfirst, rfl⟩
    | succ i =>
      obtain ⟨front, found, back, hfront, hfound, hothers⟩ := ih (by simpa using hi)
      refine ⟨piece ++ front, found, back,
        repeated_cons.mpr ⟨piece, front, hfirst, hfront, rfl⟩, hfound, ?_⟩
      rw [List.flatten_cons, hothers, List.append_assoc]

/-- What every item costs at most, by its bytes and as such, all of them cost together. -/
theorem nodesAll_le {item : Format Value} {factor each : Nat}
    (hitem : ∀ value bytes, item value bytes → value.nodes ≤ factor * bytes.length + each)
    {count : Nat} {values : List Value} {bytes : Bytes} (h : repeated item count values bytes) :
    Value.nodesAll values ≤ factor * bytes.length + each * values.length := by
  obtain ⟨rfl, pieces, hall, rfl⟩ := h
  induction hall with
  | nil => simp [Value.nodesAll]
  | @cons value piece _ _ hfirst _ ih =>
    have hvalue := hitem value piece hfirst
    rw [Value.nodesAll, List.flatten_cons, List.length_append, List.length_cons, Nat.mul_add,
      Nat.mul_succ]
    omega

end Format

theorem Reader.Accepts.length? : Accepts (length? .relaxed 0) Format.length? := by
  have h := length?_bind .relaxed 0 (fun n? => Accepts.pure n?) fun _ _ _ _ => Nat.zero_le _
  rw [bind_pure] at h
  refine h.congr fun n? bytes => ?_
  simp [Format.andThen, Format.only]

namespace Codec

variable {registry : Registry} {type : WireType} {codec element : Codec} {value : Value}
  {items : List Value} {bytes : Bytes}

/-- Units alone take no byte. -/
theorem length_pos_of_spells (hc : Catalogued registry type codec) (hunit : codec ≠ unit)
    (h : codec.Spells value bytes) : 0 < bytes.length := by
  have hmin : 0 < codec.minSize := by
    cases hc with
    | unit => exact absurd rfl hunit
    | number type => cases type <;> decide
    | _ => simp [minSize]
  exact hmin.trans_le (minSize_le_of_spells h)

theorem spells_array_iff : (array element).Spells (.array items) bytes ↔
    ∃ back, element.exceedsZeroWidth items.length = false ∧ items.length ≤ maxLength ∧
      Format.repeated element.Spells items.length items back ∧
      bytes = littleEndian 4 items.length ++ back := by
  simp [Spells, Format.length?]

theorem exceedsZeroWidth_unit_iff {count : Nat} :
    unit.exceedsZeroWidth count = false ↔ count ≤ maxZeroWidth := by
  simp [exceedsZeroWidth, fixedSize]

/-- An array has a byte for each of its elements and four more, or its elements are units. -/
theorem length_le_of_spells_array (hc : Catalogued registry type element)
    (h : (array element).Spells (.array items) bytes) :
    items.length + 4 ≤ bytes.length ∨ element = .unit ∧ items.length ≤ maxZeroWidth := by
  obtain ⟨back, hwidth, _, hitems, rfl⟩ := spells_array_iff.mp h
  by_cases hunit : element = unit
  · subst hunit
    exact .inr ⟨rfl, exceedsZeroWidth_unit_iff.mp hwidth⟩
  · have hback := Format.repeated_length_ge (fun _ _ => length_pos_of_spells hc hunit) hitems
    rw [List.length_append, length_littleEndian]
    exact .inl (by omega)

theorem nodes_of_spells_unit (h : unit.Spells value bytes) : value.nodes = 1 := by
  obtain ⟨rfl, _⟩ := h
  rfl

theorem nodes_le_of_spells_array
    (hitem : element ≠ unit → ∀ value bytes, element.Spells value bytes →
      value.nodes ≤ 16385 * bytes.length)
    (h : (array element).Spells (.array items) bytes) :
    (Value.array items).nodes ≤ 16385 * bytes.length := by
  obtain ⟨back, hwidth, _, hitems, rfl⟩ := spells_array_iff.mp h
  rw [Value.nodes, List.length_append, length_littleEndian]
  by_cases hunit : element = unit
  · subst hunit
    have hone : ∀ value bytes, unit.Spells value bytes → value.nodes ≤ 0 * bytes.length + 1 := by
      intro value bytes hs
      rw [nodes_of_spells_unit hs, Nat.zero_mul]
    have hunits := Format.nodesAll_le hone hitems
    have hcount := exceedsZeroWidth_unit_iff.mp hwidth
    rw [maxZeroWidth] at hcount
    omega
  · have hbytes : ∀ value bytes, element.Spells value bytes → value.nodes ≤ 16385 * bytes.length + 0 :=
      hitem hunit
    have hnodes := Format.nodesAll_le hbytes hitems
    omega

/-- Worst are units: four bytes of length may bring an array of 65536 of them. -/
theorem nodes_le_of_spells (hc : Catalogued registry type codec) (hunit : codec ≠ unit)
    (h : codec.Spells value bytes) : value.nodes ≤ 16385 * bytes.length := by
  have hpos := length_pos_of_spells hc hunit h
  induction hc generalizing value bytes with
  | array hc ih =>
    rcases value.nodes_eq_one_or_array with hone | ⟨items, rfl⟩
    · omega
    · exact nodes_le_of_spells_array (fun hunit value bytes hs =>
        ih hunit hs (length_pos_of_spells hc hunit hs)) h
  | @nullable _ inner hc ih =>
    rcases h with ⟨rfl, rfl⟩ | ⟨back, hinner, rfl⟩
    · decide
    · rw [List.length_cons]
      by_cases hunit : inner = unit
      · subst hunit
        rw [nodes_of_spells_unit hinner]
        omega
      · have hback := ih hunit hinner (length_pos_of_spells hc hunit hinner)
        omega
  | _ =>
    rcases value.nodes_eq_one_or_array with hone | ⟨items, rfl⟩
    · omega
    · simp [Spells] at h

/-- The codec for the value at a place and the bytes from that value on, as a reader of the elements
in front of it finds them. The presence flags of nullables are passed, so that an array is found at its
length. -/
def seek : Codec → List Nat → Bytes → Option (Codec × Bytes)
  | nullable inner, place, input =>
    match Reader.presence input with
    | .ok true left => inner.seek place left
    | _ => none
  | array element, i :: place, input =>
    match (Reader.length? .relaxed 0 >>= fun _ => Reader.many (element.decode .strict) i) input with
    | .ok _ left => element.seek place left
    | .error _ _ => none
  | codec, [], input => some (codec, input)
  | _, _ :: _, _ => none

theorem seek_element (hc : Catalogued registry type element) {count i : Nat} (hcount : count ≤ maxLength)
    {skipped : List Value} {front : Bytes} (hskipped : Format.repeated element.Spells i skipped front)
    (place : List Nat) (left : Bytes) :
    (array element).seek (i :: place) (littleEndian 4 count ++ (front ++ left)) =
      element.seek place left := by
  have hread : (Reader.length? .relaxed 0 >>= fun _ => Reader.many (element.decode .strict) i)
      (littleEndian 4 count ++ (front ++ left)) = .ok skipped left := by
    rw [Reader.bind_eq_ok_iff]
    have hlength : Format.length? (some count) (littleEndian 4 count) := ⟨hcount, rfl⟩
    have hmany := ((decode_accepts hc .strict).many i).append hskipped left
    exact ⟨some count, front ++ left, Reader.Accepts.length?.append hlength _, hmany⟩
  rw [seek, hread]

/-- An array inside a value lies inside the bytes of the value, where a reader comes upon it. -/
theorem seek_of_spells (hc : Catalogued registry type codec) (h : codec.Spells value bytes)
    {place : List Nat} (hplace : value.at? place = some (.array items)) (rest : Bytes) :
    ∃ found element front run back, Catalogued registry found element ∧
      bytes = front ++ (run ++ back) ∧
      codec.seek place (bytes ++ rest) = some (array element, run ++ (back ++ rest)) ∧
      (array element).Spells (.array items) run := by
  induction hc generalizing value bytes place rest with
  | @array type element hc ih =>
    obtain ⟨own, rfl⟩ := Value.eq_array_of_at? hplace
    cases place with
    | nil =>
      cases hplace
      exact ⟨type, element, [], bytes, [], hc, by simp, by simp [seek], h⟩
    | cons i place =>
      obtain ⟨item, hitem, hbelow⟩ := Option.bind_eq_some_iff.mp hplace
      obtain ⟨back, _, hcount, hitems, rfl⟩ := spells_array_iff.mp h
      obtain ⟨skipped, piece, others, hskipped, hpiece, rfl⟩ := Format.repeated_getElem? hitems hitem
      obtain ⟨found, within, front, run, back, hfound, rfl, hseek, hrun⟩ :=
        ih hpiece hbelow (others ++ rest)
      refine ⟨found, within, littleEndian 4 own.length ++ (skipped ++ front), run, back ++ others,
        hfound, by simp, ?_, hrun⟩
      rw [List.append_assoc, List.append_assoc, List.append_assoc, seek_element hc hcount hskipped, hseek,
        List.append_assoc]
  | nullable hc ih =>
    rcases h with ⟨rfl, _⟩ | ⟨back, hinner, rfl⟩
    · obtain ⟨own, hown⟩ := Value.eq_array_of_at? hplace
      cases hown
    · obtain ⟨found, within, front, run, behind, hfound, rfl, hseek, hrun⟩ := ih hinner hplace rest
      exact ⟨found, within, 1 :: front, run, behind, hfound, rfl, hseek, hrun⟩
  | _ =>
    obtain ⟨own, rfl⟩ := Value.eq_array_of_at? hplace
    simp [Spells] at h

/-- A value has at most 16385 nodes for each byte that it was read from, and no array inside it has
more elements than bytes, unless they are units. -/
theorem decoded_values_fit_their_bytes (htype : ofType registry type = .ok codec)
    (hunit : type ≠ .unit) {bounds : Bounds} {input rest : Bytes}
    (hread : codec.decode bounds input = .ok value rest) :
    ∃ consumed, input = consumed ++ rest ∧ value.nodes ≤ 16385 * consumed.length ∧
      ∀ place items, value.at? place = some (.array items) →
        ∃ element front run back, consumed = front ++ (run ++ back) ∧
          codec.seek place input = some (array element, run ++ (back ++ rest)) ∧
          (∀ bounds, (array element).decode bounds (run ++ (back ++ rest)) =
            .ok (.array items) (back ++ rest)) ∧
          (items.length ≤ run.length ∨ element = .unit ∧ items.length ≤ maxZeroWidth) := by
  have hc := catalogued_of_ofType htype
  obtain ⟨consumed, rfl, hspelled⟩ := (decode_accepts hc bounds _ _ _).mp hread
  have hcodec : codec ≠ unit := by
    rintro rfl
    cases hc
    exact hunit rfl
  refine ⟨consumed, rfl, nodes_le_of_spells hc hcodec hspelled, fun place items hplace => ?_⟩
  obtain ⟨found, element, front, run, back, hfound, hconsumed, hseek, hrun⟩ :=
    seek_of_spells hc hspelled hplace rest
  refine ⟨element, front, run, back, hconsumed, hseek, fun bounds => ?_, ?_⟩
  · exact (decode_accepts (.array hfound) bounds).append hrun _
  · exact (length_le_of_spells_array hfound hrun).imp_left fun hle => by omega

/-- Two arrays of units, of which one has five and the other none. -/
def unitArrays : Bytes := [2, 0, 0, 0, 5, 0, 0, 0, 0, 0, 0, 0]

/-- The five units take no byte behind their length, which is found behind the outer one. -/
theorem five_units_fit_four_bytes :
    decode (array (array unit)) .relaxed (unitArrays ++ [7]) =
      .ok (.array [.array (List.replicate 5 .unit), .array []]) [7] ∧
    (Value.array [.array (List.replicate 5 .unit), .array []]).nodes ≤ 16385 * 12 ∧
    ∃ front run back, unitArrays = front ++ (run ++ back) ∧
      (array (array unit)).seek [0] (unitArrays ++ [7]) = some (array unit, run ++ (back ++ [7])) ∧
      decode (array unit) .strict (run ++ (back ++ [7])) =
        .ok (.array (List.replicate 5 .unit)) (back ++ [7]) := by
  have htype : ofType .empty (.array (.array .unit)) = .ok (array (array unit)) := rfl
  have hread : decode (array (array unit)) .relaxed (unitArrays ++ [7]) =
      .ok (.array [.array (List.replicate 5 .unit), .array []]) [7] := rfl
  have hfound : (array (array unit)).seek [0] (unitArrays ++ [7]) =
      some (array unit, [5, 0, 0, 0, 0, 0, 0, 0, 7]) := rfl
  obtain ⟨consumed, hinput, hnodes, hplaces⟩ := decoded_values_fit_their_bytes htype (by decide) hread
  obtain rfl := List.append_cancel_right hinput
  obtain ⟨element, front, run, back, hinside, hseek, hdecode, _⟩ :=
    hplaces [0] (List.replicate 5 .unit) rfl
  obtain rfl : element = unit := by
    rw [hfound, Option.some.injEq, Prod.mk.injEq, array.injEq] at hseek
    exact hseek.1.symm
  exact ⟨hread, hnodes, front, run, back, hinside, hseek, hdecode .strict⟩

end Codec

end Remoting
