import Mathlib
import Remoting.Value.Basic
import Remoting.Wire.Reader

/-! The parts of a value, and what can be asked of all of them: that they have a type, and that
their lengths fit the prefixes of the wire. -/

namespace Remoting

namespace Value

/-- A value is a part of itself, and the parts of the items of an array are parts of it. -/
inductive Part : Value → Value → Prop
  | whole (value : Value) : Part value value
  | item {part item : Value} {items : List Value} (hmem : item ∈ items) (h : Part part item) :
      Part part (.array items)

/-- A text, a run or an array no longer than a prefix can tell; a member with names as short and, if
it is callable, with as many parameters as their count can tell. -/
def LengthFits : Value → Prop
  | text s => s.utf8ByteSize ≤ maxLength
  | blob bytes => bytes.length ≤ maxLength
  | array items => items.length ≤ maxLength
  | member handle =>
    handle.member.declaring.utf8ByteSize ≤ maxLength ∧ handle.member.name.utf8ByteSize ≤ maxLength ∧
      (handle.member.kind.isCallable = true → handle.member.parameters.length < 0x10000)
  | _ => True

instance : DecidablePred LengthFits
  | text _ | blob _ | array _ => inferInstanceAs (Decidable (_ ≤ _))
  | member _ => inferInstanceAs (Decidable (_ ∧ _ ∧ (_ → _)))
  | null | unit | bool _ | number _ _ | witness _ => inferInstanceAs (Decidable True)

def FitsWire (value : Value) : Prop := ∀ part, Part part value → part.LengthFits

/-- Null is of every nullable and of every reference type. -/
def HasType : WireType → Value → Prop
  | .unit, value => value = .unit
  | .bool, value => ∃ b, value = .bool b
  | .number type, value => ∃ bits : type.Bits, value = .number type bits
  | .text, value => value = .null ∨ ∃ s, value = .text s
  | .blob, value => value = .null ∨ ∃ bytes, value = .blob bytes
  | .array element, value => value = .null ∨ ∃ items, value = .array items ∧
      ∀ item ∈ items, HasType element item
  | .nullable inner, value => value = .null ∨ HasType inner value
  | .witness, value => value = .null ∨ ∃ type, value = .witness type
  | .member kind, value => value = .null ∨
      ∃ handle : MemberHandle, value = .member handle ∧ handle.member.kind = kind
  | .generic _, _ | .pending _, _ => False

theorem forall_part_array {items : List Value} {P : Value → Prop} :
    (∀ part, Part part (.array items) → P part) ↔
      P (.array items) ∧ ∀ item ∈ items, ∀ part, Part part item → P part := by
  constructor
  · intro h
    exact ⟨h _ (.whole _), fun item hmem part hp => h part (.item hmem hp)⟩
  · rintro ⟨hwhole, hitems⟩ part hp
    cases hp with
    | whole => exact hwhole
    | item hmem hp => exact hitems _ hmem part hp

theorem forall_part_leaf {value : Value} {P : Value → Prop} (hleaf : ∀ items, value ≠ .array items) :
    (∀ part, Part part value → P part) ↔ P value := by
  constructor
  · intro h
    exact h value (.whole value)
  · intro h part hp
    cases hp with
    | whole => exact h
    | item _ _ => exact absurd rfl (hleaf _)

theorem FitsWire.item {item : Value} {items : List Value} (h : FitsWire (.array items))
    (hmem : item ∈ items) : item.FitsWire :=
  fun part hp => h part (.item hmem hp)

end Value

end Remoting
