import Mathlib
import Remoting.Interface.Description
import Remoting.Proofs.Fallible
import Remoting.Proofs.TypeLayers

/-! Which methods can be described: those that keep the rules of a declaration. Their descriptions
say what they declare. -/

namespace Remoting

def AsciiLetter (c : Char) : Prop := ('A' ≤ c ∧ c ≤ 'Z') ∨ ('a' ≤ c ∧ c ≤ 'z')

/-- A letter or a low line, and behind it letters, digits and low lines, all of ASCII. -/
def Identifier (name : String) : Prop :=
  ∃ first rest, name.toList = first :: rest ∧ (first = '_' ∨ AsciiLetter first) ∧
    ∀ c ∈ rest, c = '_' ∨ AsciiLetter c ∨ ('0' ≤ c ∧ c ≤ '9')

theorem isIdentifierStart_iff {c : Char} :
    isIdentifierStart c = true ↔ c = '_' ∨ AsciiLetter c := by
  simp only [isIdentifierStart, AsciiLetter, Char.isAlpha, Char.isUpper, Char.isLower, Char.le_def,
    Bool.or_eq_true, Bool.and_eq_true, decide_eq_true_eq, beq_iff_eq, ge_iff_le]

theorem isIdentifierPart_iff {c : Char} :
    isIdentifierPart c = true ↔ c = '_' ∨ AsciiLetter c ∨ ('0' ≤ c ∧ c ≤ '9') := by
  have hstart := isIdentifierStart_iff (c := c)
  simp only [isIdentifierStart, Bool.or_eq_true, beq_iff_eq] at hstart
  simp only [isIdentifierPart, Char.isAlphanum, Char.isDigit, Char.le_def, Bool.or_eq_true,
    Bool.and_eq_true, decide_eq_true_eq, beq_iff_eq, ge_iff_le, ← or_assoc, hstart]

theorem isIdentifier_iff {name : String} : isIdentifier name = true ↔ Identifier name := by
  unfold isIdentifier Identifier
  cases name.toList with
  | nil => simp
  | cons first rest =>
    simp only [Bool.and_eq_true, List.all_eq_true, isIdentifierStart_iff, isIdentifierPart_iff]
    constructor
    · intro h
      exact ⟨first, rest, rfl, h⟩
    · intro h
      obtain ⟨_, _, hchars, h⟩ := h
      cases hchars
      exact h

theorem checkIdentifier_eq_ok_iff {role : NameRole} {name : String} {checked : Unit} :
    checkIdentifier role name = .ok checked ↔ isIdentifier name = true := by
  unfold checkIdentifier
  split
  · exact iff_of_true rfl ‹_›
  · exact iff_of_false nofun ‹_›

theorem checkIdentifiers_eq_ok_iff {role : NameRole} {names : List String} {checked : Unit} :
    checkIdentifiers role names = .ok checked ↔ ∀ name ∈ names, isIdentifier name = true := by
  induction names with
  | nil => exact iff_of_true rfl nofun
  | cons name names ih =>
    rw [checkIdentifiers, except_bind_eq_ok_iff, List.forall_mem_cons, ← ih]
    simp only [checkIdentifier_eq_ok_iff, exists_const]

theorem firstRepeated?_eq_none_iff {seen : NameSet} {names : List String} :
    firstRepeated? seen names = none ↔
      names.Nodup ∧ ∀ name ∈ names, ¬seen.contains name.toList = true := by
  induction names generalizing seen with
  | nil => exact iff_of_true rfl ⟨.nil, nofun⟩
  | cons name names ih =>
    rw [firstRepeated?]
    by_cases hseen : seen.contains name.toList = true
    · rw [if_pos hseen]
      exact iff_of_false nofun fun h => h.2 name List.mem_cons_self hseen
    · simp only [if_neg hseen, ih, List.nodup_cons, NameSet.contains_insert, String.toList_inj, not_or]
      constructor
      · rintro ⟨hnodup, hfresh⟩
        have hnew : name ∉ names := fun hmem => (hfresh name hmem).1 rfl
        exact ⟨⟨hnew, hnodup⟩, List.forall_mem_cons.mpr ⟨hseen, fun other hmem => (hfresh other hmem).2⟩⟩
      · rintro ⟨⟨hnew, hnodup⟩, hfresh⟩
        refine ⟨hnodup, fun other hmem => ⟨?_, hfresh other (List.mem_cons_of_mem name hmem)⟩⟩
        rintro rfl
        exact hnew hmem

theorem checkDistinct_eq_ok_iff {owner : String} {role : NameRole} {names : List String}
    {checked : Unit} : checkDistinct owner role names = .ok checked ↔ names.Nodup := by
  have hnone : firstRepeated? .empty names = none ↔ names.Nodup := by
    simp [firstRepeated?_eq_none_iff, NameSet.contains]
  rw [← hnone, checkDistinct]
  cases firstRepeated? .empty names <;> simp

theorem checkTypes_eq_ok_iff {method : String} {declared : Nat} {types : List WireType}
    {checked : Unit} : checkTypes method declared types = .ok checked ↔ ∀ type ∈ types,
      (∀ result, WireType.pending result ∉ type.layers) ∧
        ∀ index, WireType.generic index ∈ type.layers → index.toNat < declared := by
  induction types with
  | nil => exact iff_of_true rfl nofun
  | cons type types ih =>
    rw [List.forall_mem_cons, ← ih, ← WireType.containsPending_eq_false_iff, checkTypes]
    simp only [← WireType.placeholder?_eq_some_iff]
    cases type.containsPending with
    | true => simp
    | false =>
      cases type.placeholder? with
      | none => simp
      | some index =>
        by_cases hdeclared : declared ≤ index.toNat
        · simp [hdeclared]
        · simp [hdeclared, Nat.lt_of_not_le hdeclared]

/-- A check of all parameters that only asynchronous methods undergo. -/
theorem checkModes_eq_ok_iff {style : RemotingStyle} {parameters : List ParameterShape}
    (error : ParameterShape → DescriptionError) (described : MethodDescription)
    {method : MethodDescription} :
    (if style ≠ .direct then
        match parameters.find? (·.mode.isResponse) with
        | some parameter => (throw (error parameter) : Except DescriptionError PUnit) >>= fun _ =>
            pure described
        | none => pure described
      else pure described) = Except.ok method ↔
      (style ≠ .direct → ∀ parameter ∈ parameters, parameter.mode = .byValue) ∧
        method = described := by
  have hmode : ∀ mode : PassingMode, ¬mode.isResponse = true ↔ mode = .byValue := fun mode =>
    (not_congr PassingMode.isResponse_iff).trans not_not
  by_cases hstyle : style = .direct
  · simp only [hstyle, ne_eq, not_true_eq_false, if_false, false_imp_iff, true_and]
    exact ⟨fun h => (Except.ok.inj h).symm, fun h => congrArg Except.ok h.symm⟩
  · simp only [ne_eq, hstyle, not_false_eq_true, if_true, true_imp_iff]
    cases hfind : parameters.find? (·.mode.isResponse) with
    | some parameter =>
      refine iff_of_false nofun fun h => ?_
      have hresponse := List.find?_some hfind
      exact (hmode _).mpr (h.1 parameter (List.mem_of_find?_eq_some hfind)) hresponse
    | none =>
      have hvalues : ∀ parameter ∈ parameters, parameter.mode = .byValue := fun parameter hmem =>
        (hmode _).mp (List.find?_eq_none.mp hfind parameter hmem)
      exact ⟨fun h => ⟨hvalues, (Except.ok.inj h).symm⟩, fun h => congrArg Except.ok h.2.symm⟩

/-- What a method may declare. -/
structure MethodShape.WellFormed (shape : MethodShape) : Prop where
  name : Identifier shape.name
  genericNames : ∀ name ∈ shape.generics, Identifier name
  parameterNames : ∀ parameter ∈ shape.parameters, Identifier parameter.name
  distinctGenerics : shape.generics.Nodup
  distinctParameters : (shape.parameters.map (·.name)).Nodup
  noPendingParameter : ∀ parameter ∈ shape.parameters, ∀ result,
    WireType.pending result ∉ parameter.type.layers
  pendingOutermost : ∀ result, WireType.pending result ∈ shape.result.layers →
    shape.result = .pending result
  placeholdersDeclared : ∀ type ∈ shape.parameters.map (·.type) ++ [shape.result], ∀ index,
    WireType.generic index ∈ type.layers → index.toNat < shape.generics.length
  pendingByValue : ∀ result, shape.result = .pending result →
    ∀ parameter ∈ shape.parameters, parameter.mode = .byValue

/-- The description that says what a method declares: its style is read off the result type, and a
parameter has the position at which it is declared. -/
def MethodShape.declared (shape : MethodShape) : MethodDescription where
  name := shape.name
  result := shape.result.awaited
  parameters := shape.parameters.mapIdx fun position parameter =>
    ⟨parameter.name, parameter.type, parameter.mode, position⟩
  generics := shape.generics
  style := match shape.result with
    | .pending .unit => .asyncVoid
    | .pending _ => .asyncValue
    | _ => .direct

namespace MethodShape

variable {interface : String} {shape : MethodShape} {method : MethodDescription}

theorem ofResult_eq (shape : MethodShape) :
    RemotingStyle.ofResult shape.result = (shape.declared.style, shape.declared.result) := by
  unfold declared RemotingStyle.ofResult
  split <;> simp_all [WireType.awaited]

theorem style_declared_ne_direct_iff :
    shape.declared.style ≠ .direct ↔ ∃ result, shape.result = .pending result := by
  cases hresult : shape.result with
  | pending result => cases result <;> simp [declared, hresult]
  | _ => simp [declared, hresult]

theorem describe_eq_ok_iff :
    shape.describe interface = .ok method ↔ shape.WellFormed ∧ method = shape.declared := by
  simp only [MethodShape.describe, except_bind_eq_ok_iff, checkIdentifier_eq_ok_iff, exists_const,
    checkDistinct_eq_ok_iff, checkIdentifiers_eq_ok_iff, checkTypes_eq_ok_iff, ofResult_eq,
    isIdentifier_iff, List.forall_mem_append, List.forall_mem_map, List.forall_mem_singleton]
  constructor
  · intro h
    obtain ⟨hname, hgenerics, hparameters, hdistinct, hdistinct', ⟨htypes, hpending, hindices⟩, h⟩ := h
    obtain ⟨hmodes, rfl⟩ := (checkModes_eq_ok_iff _ shape.declared).mp h
    exact ⟨{
      name := hname
      genericNames := hgenerics
      parameterNames := hparameters
      distinctGenerics := hdistinct
      distinctParameters := hdistinct'
      noPendingParameter := fun parameter hmem => (htypes parameter hmem).1
      pendingOutermost := WireType.pending_notMem_layers_awaited_iff.mp hpending
      placeholdersDeclared := List.forall_mem_append.mpr
        ⟨List.forall_mem_map.mpr fun parameter hmem => (htypes parameter hmem).2,
          List.forall_mem_singleton.mpr fun index hmem =>
            hindices index (WireType.generic_mem_layers_awaited.mpr hmem)⟩
      pendingByValue := fun result hresult =>
        hmodes (style_declared_ne_direct_iff.mpr ⟨result, hresult⟩) }, rfl⟩
  · intro h
    obtain ⟨h, rfl⟩ := h
    obtain ⟨htypes, hresult⟩ := List.forall_mem_append.mp h.placeholdersDeclared
    refine ⟨h.name, h.genericNames, h.parameterNames, h.distinctGenerics, h.distinctParameters,
      ⟨fun parameter hmem => ⟨h.noPendingParameter parameter hmem, ?_⟩, ?_, fun index hmem => ?_⟩, ?_⟩
    · exact List.forall_mem_map.mp htypes parameter hmem
    · exact WireType.pending_notMem_layers_awaited_iff.mpr h.pendingOutermost
    · exact List.forall_mem_singleton.mp hresult index (WireType.generic_mem_layers_awaited.mp hmem)
    · refine (checkModes_eq_ok_iff _ shape.declared).mpr ⟨fun hstyle => ?_, rfl⟩
      obtain ⟨result, hresult⟩ := style_declared_ne_direct_iff.mp hstyle
      exact h.pendingByValue result hresult

end MethodShape

end Remoting
