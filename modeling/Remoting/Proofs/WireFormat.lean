import Mathlib
import Remoting.Codec.Payload
import Remoting.Proofs.Format
import Remoting.Proofs.ValueParts

/-! The formats of witnesses, of member identities and of the values of every codec of the
catalogue. They say nothing about bounds, buffers or the order of checks. Null has a second
spelling below a nullable, the presence of an inner null; every other value of a codec has one. -/

namespace Remoting

def witnessesBytes (types : List WireType) : Bytes :=
  littleEndian 2 types.length ++ types.flatMap WireType.witnessBytes

namespace Format

def witness : Format WireType := fun type bytes =>
  type.depth ≤ maxWitnessDepth ∧ bytes = type.witnessBytes

def witnesses : Format (List WireType) := fun types bytes =>
  types.length < 0x10000 ∧ (∀ type ∈ types, type.depth ≤ maxWitnessDepth) ∧
    bytes = witnessesBytes types

theorem repeated_witness {count : Nat} {types : List WireType} {bytes : Bytes} :
    repeated witness count types bytes ↔
      (types.length = count ∧ ∀ type ∈ types, type.depth ≤ maxWitnessDepth) ∧
        bytes = types.flatMap WireType.witnessBytes := by
  induction types generalizing count bytes with
  | nil =>
    constructor
    · intro h
      obtain ⟨rfl, pieces, hall, rfl⟩ := h
      cases hall
      simp
    · intro h
      obtain ⟨⟨rfl, _⟩, rfl⟩ := h
      exact ⟨rfl, [], .nil, rfl⟩
  | cons type types ih =>
    cases count with
    | zero => exact iff_of_false (fun h => by cases h.1) (fun h => by cases h.1.1)
    | succ count =>
      rw [repeated_cons]
      constructor
      · intro h
        obtain ⟨front, back, ⟨hd, rfl⟩, hrest, rfl⟩ := h
        obtain ⟨⟨hlen, hall⟩, rfl⟩ := ih.mp hrest
        exact ⟨⟨by simp [hlen], List.forall_mem_cons.mpr ⟨hd, hall⟩⟩, by simp⟩
      · intro h
        obtain ⟨⟨hlen, hall⟩, rfl⟩ := h
        obtain ⟨hd, hall⟩ := List.forall_mem_cons.mp hall
        exact ⟨_, _, ⟨hd, rfl⟩, ih.mpr ⟨⟨by simpa using hlen, hall⟩, rfl⟩, by simp⟩

end Format

namespace MemberIdentity

def carried (identity : MemberIdentity) : MemberIdentity :=
  if identity.kind.isCallable then identity
  else { identity with arity := 0, arguments := [], parameters := [] }

def signatureBytes (identity : MemberIdentity) : Bytes :=
  littleEndian 2 identity.arity.toNat ++
    (witnessesBytes identity.arguments ++ witnessesBytes identity.parameters)

def bytes (identity : MemberIdentity) : Bytes :=
  blobBytes (textBytes identity.declaring) ++ (blobBytes (textBytes identity.name) ++
    if identity.kind.isCallable then identity.signatureBytes else [])

/-- An identity whose texts and lists are short enough and whose types are not too deep to
travel. -/
structure Portable (identity : MemberIdentity) : Prop where
  declaring : identity.declaring.utf8ByteSize ≤ maxLength
  name : identity.name.utf8ByteSize ≤ maxLength
  signature : identity.kind.isCallable = true →
    Format.witnesses identity.arguments (witnessesBytes identity.arguments) ∧
      Format.witnesses identity.parameters (witnessesBytes identity.parameters)

@[simp] theorem kind_carried (identity : MemberIdentity) :
    identity.carried.kind = identity.kind := by
  unfold carried
  split <;> rfl

@[simp] theorem carried_carried (identity : MemberIdentity) :
    identity.carried.carried = identity.carried := by
  by_cases h : identity.kind.isCallable = true <;> simp [carried, h]

@[simp] theorem bytes_carried (identity : MemberIdentity) :
    identity.carried.bytes = identity.bytes := by
  by_cases h : identity.kind.isCallable = true <;> simp [carried, bytes, h]

theorem portable_carried {identity : MemberIdentity} :
    identity.carried.Portable ↔ identity.Portable := by
  by_cases h : identity.kind.isCallable = true
  · rw [show identity.carried = identity from if_pos h]
  · rw [show identity.carried = { identity with arity := 0, arguments := [], parameters := [] } from
      if_neg h]
    constructor <;> rintro ⟨hd, hn, _⟩ <;> exact ⟨hd, hn, fun hk => absurd hk h⟩

theorem designates_carried (identity : MemberIdentity) :
    identity.carried.designates = identity.designates := by
  funext candidate
  by_cases h : identity.kind.isCallable = true <;> simp [carried, designates, picks, h]

/-- The member that an identity designates has, under the arguments of the identity, the parameters
of the identity. -/
theorem parameters_of_signatureMatches {identity : MemberIdentity} {handle : MemberHandle}
    (h : identity.signatureMatches handle.member = true)
    (hargs : handle.arguments = identity.arguments) :
    handle.parameters = identity.parameters := by
  simp only [signatureMatches, Bool.and_eq_true, beq_iff_eq, List.all_eq_true] at h
  obtain ⟨⟨_, hlen⟩, hall⟩ := h
  apply List.ext_getElem
  · unfold MemberHandle.parameters
    split <;> simpa using hlen
  · intro i hi hj
    have hk : i < handle.member.parameters.length := by omega
    have hmem : (handle.member.parameters[i], identity.parameters[i]) ∈
        handle.member.parameters.zip identity.parameters := by
      rw [List.mem_iff_getElem]
      exact ⟨i, by simp; omega, by simp⟩
    have hm := hall _ hmem
    by_cases he : identity.arguments.isEmpty = true
    · simpa [MemberHandle.parameters, parameterMatches, hargs, he] using hm
    · have hs : handle.member.parameters[i].substitute identity.arguments =
          some identity.parameters[i] := by
        simpa [parameterMatches, he] using hm
      simp [MemberHandle.parameters, hargs, he, hs]

end MemberIdentity

namespace Registry

def Recovers (registry : Registry) (handle : MemberHandle) : Prop :=
  registry.resolve handle.identity = .ok handle.member ∧
    (handle.member.kind.isCallable = false → handle.arguments = [])

theorem resolve_eq_ok_iff {registry : Registry} {identity : MemberIdentity} {member : Member} :
    registry.resolve identity = .ok member ↔ registry.designated identity = [member] := by
  unfold resolve
  split
  · rename_i found h
    rw [h]
    simp
  · rename_i others hne
    constructor
    · rintro ⟨⟩
    · intro h
      exact absurd h (hne member)

theorem resolve_carried {registry : Registry} {identity : MemberIdentity} {member : Member} :
    registry.resolve identity.carried = .ok member ↔ registry.resolve identity = .ok member := by
  simp only [resolve_eq_ok_iff, designated_eq, MemberIdentity.designates_carried]

theorem designates_of_resolve {registry : Registry} {identity : MemberIdentity} {member : Member}
    (h : registry.resolve identity = .ok member) : identity.designates member = true := by
  have hd := resolve_eq_ok_iff.mp h
  have hmem : member ∈ registry.designated identity := by simp [hd]
  rw [designated_eq] at hmem
  exact (List.mem_filter.mp hmem).2

/-- The handle made of the member that an identity designates carries that identity again. -/
theorem identity_of_resolve {registry : Registry} {identity : MemberIdentity}
    {handle : MemberHandle} (hc : identity.carried = identity)
    (h : registry.resolve identity = .ok handle.member)
    (hargs : handle.arguments = identity.arguments) : handle.identity.carried = identity := by
  have hd := designates_of_resolve h
  simp only [MemberIdentity.designates, MemberIdentity.picks, Bool.and_eq_true, beq_iff_eq,
    Bool.or_eq_true, Bool.not_eq_true'] at hd
  obtain ⟨⟨hdeclaring, hname⟩, hkind, hsig⟩ := hd
  cases identity with
  | mk kind declaring name arity arguments parameters =>
    dsimp only at *
    by_cases hk : kind.isCallable = true
    · have hs := hsig.resolve_left (by simp [hk])
      have hp := MemberIdentity.parameters_of_signatureMatches hs hargs
      have harity : handle.member.arity = arity := by
        simp only [MemberIdentity.signatureMatches, Bool.and_eq_true, beq_iff_eq] at hs
        exact hs.1.1
      simp [MemberIdentity.carried, MemberHandle.identity, hdeclaring, hname, hkind, hk, harity,
        hargs, hp]
    · simp [MemberIdentity.carried, hk] at hc
      simp [MemberIdentity.carried, MemberHandle.identity, hdeclaring, hname, hkind, hk, hc]

end Registry

namespace Codec

/-- The codecs of the catalogue beside the types that they are for. -/
inductive Catalogued (registry : Registry) : WireType → Codec → Prop
  | unit : Catalogued registry .unit .unit
  | bool : Catalogued registry .bool .bool
  | number (type : NumberType) : Catalogued registry (.number type) (.number type)
  | text : Catalogued registry .text .text
  | blob : Catalogued registry .blob .blob
  | witness : Catalogued registry .witness .witness
  | member (kind : MemberKind) : Catalogued registry (.member kind) (.member kind registry)
  | array {element : WireType} {codec : Codec} (h : Catalogued registry element codec) :
      Catalogued registry (.array element) (.array codec)
  | nullable {inner : WireType} {codec : Codec} (h : Catalogued registry inner codec) :
      Catalogued registry (.nullable inner) (.nullable codec)

theorem catalogued_of_ofType {registry : Registry} {type : WireType} {codec : Codec}
    (h : ofType registry type = .ok codec) : Catalogued registry type codec := by
  induction type generalizing codec with
  | unit => cases h; exact .unit
  | bool => cases h; exact .bool
  | number type =>
    rw [ofType_number] at h
    cases h
    exact .number type
  | text => cases h; exact .text
  | blob => cases h; exact .blob
  | witness => cases h; exact .witness
  | member kind =>
    cases kind <;> cases h
    all_goals exact .member _
  | generic index => cases h
  | pending result => cases h
  | array element ih =>
    cases he : ofType registry element with
    | error error => simp [ofType, he, Except.map] at h
    | ok inner =>
      simp only [ofType, he, Except.map, Except.ok.injEq] at h
      subst h
      exact .array (ih he)
  | nullable element ih =>
    cases he : ofType registry element with
    | error error => simp [ofType, he, Except.map] at h
    | ok inner =>
      simp only [ofType, he, Except.map, Except.ok.injEq] at h
      subst h
      exact .nullable (ih he)

/-- Which bytes spell which value. -/
def Spells : Codec → Value → Bytes → Prop
  | unit, value, bytes => value = .unit ∧ bytes = []
  | bool, value, bytes => ∃ b : Bool, value = .bool b ∧ bytes = [if b then 1 else 0]
  | number type, value, bytes =>
    ∃ bits : type.Bits, value = .number type bits ∧ bytes = littleEndian type.width bits.toNat
  | text, value, bytes =>
    value = .null ∧ Format.blob? none bytes ∨ ∃ s, value = .text s ∧ Format.text s bytes
  | blob, value, bytes =>
    value = .null ∧ Format.blob? none bytes ∨ ∃ run, value = .blob run ∧ Format.blob? (some run) bytes
  | witness, value, bytes =>
    value = .null ∧ bytes = [nullWitness] ∨ ∃ type, value = .witness type ∧ Format.witness type bytes
  | member kind registry, value, bytes =>
    value = .null ∧ bytes = [0] ∨ ∃ handle : MemberHandle, value = .member handle ∧
      handle.member.kind = kind ∧ registry.Recovers handle ∧ handle.identity.Portable ∧
      bytes = 1 :: handle.identity.bytes
  | array element, value, bytes =>
    value = .null ∧ Format.length? none bytes ∨ ∃ items front back, value = .array items ∧
      element.exceedsZeroWidth items.length = false ∧ Format.length? (some items.length) front ∧
      Format.repeated element.Spells items.length items back ∧ bytes = front ++ back
  | nullable inner, value, bytes =>
    value = .null ∧ bytes = [0] ∨ ∃ back, inner.Spells value back ∧ bytes = 1 :: back
  | custom _, _, _ => False

theorem minSize_le_of_spells {codec : Codec} {value : Value} {bytes : Bytes}
    (h : codec.Spells value bytes) : codec.minSize ≤ bytes.length := by
  cases codec with
  | unit => exact Nat.zero_le _
  | bool =>
    obtain ⟨b, _, rfl⟩ := h
    exact Nat.le_refl 1
  | number type =>
    obtain ⟨bits, _, rfl⟩ := h
    simp [minSize]
  | text =>
    rcases h with ⟨_, rfl⟩ | ⟨s, _, _, rfl⟩ <;> simp [minSize, blobBytes]
  | blob =>
    rcases h with ⟨_, rfl⟩ | ⟨run, _, _, rfl⟩ <;> simp [minSize, blobBytes]
  | witness =>
    rcases h with ⟨_, rfl⟩ | ⟨type, _, _, rfl⟩
    · exact Nat.le_refl 1
    · cases type <;> simp [minSize, WireType.witnessBytes]
  | member kind registry =>
    rcases h with ⟨_, rfl⟩ | ⟨handle, _, _, _, _, rfl⟩ <;> simp [minSize]
  | array element =>
    rcases h with ⟨_, rfl⟩ | ⟨items, front, back, _, _, ⟨_, rfl⟩, _, rfl⟩ <;> simp [minSize]
  | nullable inner =>
    rcases h with ⟨_, rfl⟩ | ⟨back, _, rfl⟩ <;> simp [minSize]
  | custom codec => exact h.elim

theorem hasType_of_spells {registry : Registry} {type : WireType} {codec : Codec}
    (hc : Catalogued registry type codec) {value : Value} {bytes : Bytes}
    (h : codec.Spells value bytes) : value.HasType type := by
  induction hc generalizing value bytes with
  | unit => exact h.1
  | bool =>
    obtain ⟨b, hv, _⟩ := h
    exact ⟨b, hv⟩
  | number type =>
    obtain ⟨bits, hv, _⟩ := h
    exact ⟨bits, hv⟩
  | text => exact h.imp And.left fun ⟨s, hv, _⟩ => ⟨s, hv⟩
  | blob => exact h.imp And.left fun ⟨run, hv, _⟩ => ⟨run, hv⟩
  | witness => exact h.imp And.left fun ⟨type, hv, _⟩ => ⟨type, hv⟩
  | member kind => exact h.imp And.left fun ⟨handle, hv, hk, _⟩ => ⟨handle, hv, hk⟩
  | array _ ih =>
    refine h.imp And.left ?_
    intro h
    obtain ⟨items, _, _, hv, _, _, ⟨_, pieces, hall, _⟩, _⟩ := h
    refine ⟨items, hv, fun item hmem => ?_⟩
    obtain ⟨i, hi, rfl⟩ := List.mem_iff_getElem.mp hmem
    exact ih (hall.get hi (hall.length_eq ▸ hi))
  | nullable _ ih => exact h.imp And.left fun ⟨back, hs, _⟩ => ih hs

end Codec

end Remoting
