import Mathlib
import Remoting.Codec.Payload

/-! Sizes in machine words are sizes as numbers modulo 2^64, since words are added and multiplied as
the numbers that they stand for. A payload that a buffer can hold is the same either way. -/

namespace Remoting

theorem totalSize_ofNat {α : Type} {size : α → Except EncodeError Nat}
    {word : α → Except EncodeError UInt64} {items : List α}
    (h : ∀ item ∈ items, word item = (size item).map UInt64.ofNat) (sum : Nat) :
    totalSize word (UInt64.ofNat sum) items = (totalSize size sum items).map UInt64.ofNat := by
  induction items generalizing sum with
  | nil => rfl
  | cons item items ih =>
    obtain ⟨hitem, hitems⟩ := List.forall_mem_cons.mp h
    rw [totalSize, totalSize, hitem]
    cases size item with
    | error error => rfl
    | ok n =>
      have hsum := ih hitems (sum + n)
      rw [UInt64.ofNat_add] at hsum
      exact hsum

namespace Codec

theorem arraySize_ofNat {size : Value → Except EncodeError Nat}
    {word : Value → Except EncodeError UInt64} {items : List Value}
    (h : ∀ item ∈ items, word item = (size item).map UInt64.ofNat) (header count : Nat)
    (fixed : Option Nat) :
    arraySize (UInt64.ofNat header) (UInt64.ofNat count) word (fixed.map UInt64.ofNat) items =
      (arraySize header count size fixed items).map UInt64.ofNat := by
  rw [arraySize, arraySize, totalSize_ofNat h]
  cases totalSize size header items with
  | error error => rfl
  | ok sum =>
    cases fixed with
    | none => rfl
    | some width =>
      have hproduct : UInt64.ofNat (header + width * count) =
          UInt64.ofNat header + UInt64.ofNat width * UInt64.ofNat count := by
        rw [UInt64.ofNat_add, UInt64.ofNat_mul]
      exact congrArg Except.ok hproduct.symm

theorem wordSize_eq (codec : Codec) (value : Value) :
    codec.wordSize value = (codec.size value).map UInt64.ofNat := by
  induction codec generalizing value with
  | array element ih =>
    cases value with
    | array items =>
      rw [wordSize, size]
      split
      · rfl
      · exact arraySize_ofNat (fun item _ => ih item) 4 items.length element.fixedSize
    | _ => rfl
  | nullable inner ih =>
    have hpresent : ∀ value, (inner.wordSize value).map (1 + ·) =
        ((inner.size value).map (1 + ·)).map UInt64.ofNat := by
      intro value
      rw [ih]
      cases inner.size value with
      | error error => rfl
      | ok n => exact congrArg Except.ok (UInt64.ofNat_add 1 n).symm
    cases value with
    | null => rfl
    | _ => exact hpresent _
  | custom codec =>
    rw [wordSize, size]
    cases codec.size value with
    | error error => rfl
    | ok n => exact congrArg Except.ok UInt64.ofNat_toNat.symm
  | _ => cases value <;> rfl

end Codec

end Remoting
