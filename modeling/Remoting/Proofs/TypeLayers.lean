import Mathlib
import Remoting.Codec.Basic

/-! The layers of a type, from the outside in. What a shape may declare and which types have codecs
depends on the layers alone. -/

namespace Remoting

namespace WireType

/-- The type and all types inside it. -/
def layers : WireType → List WireType
  | array inner => array inner :: inner.layers
  | nullable inner => nullable inner :: inner.layers
  | pending inner => pending inner :: inner.layers
  | leaf => [leaf]

theorem depth_le_of_mem_layers {layer type : WireType} (h : layer ∈ type.layers) :
    layer.depth ≤ type.depth := by
  induction type with
  | array inner ih | nullable inner ih | pending inner ih =>
    rcases List.mem_cons.mp h with rfl | h
    · exact Nat.le_refl _
    · exact (ih h).trans (Nat.le_add_left _ _)
  | _ => rw [List.mem_singleton.mp h]

/-- What is left of a type without an outermost pending marker. -/
def awaited : WireType → WireType
  | pending result => result
  | type => type

theorem generic_mem_layers_awaited {type : WireType} {index : UInt16} :
    generic index ∈ type.awaited.layers ↔ generic index ∈ type.layers := by
  cases type <;> simp [awaited, layers]

theorem pending_notMem_layers_awaited_iff {type : WireType} :
    (∀ result, pending result ∉ type.awaited.layers) ↔
      ∀ result, pending result ∈ type.layers → type = pending result := by
  cases type with
  | pending inner =>
    constructor
    · intro h result hmem
      rcases List.mem_cons.mp hmem with hsame | hmem
      · exact hsame.symm
      · exact absurd hmem (h result)
    · intro h result hmem
      -- A layer of the inner type is not as deep as the whole.
      obtain rfl := pending.inj (h result (List.mem_cons_of_mem _ hmem))
      have hdepth := depth_le_of_mem_layers hmem
      simp only [awaited, depth] at hdepth
      omega
  | _ => simp [awaited]

theorem containsPending_eq_false_iff {type : WireType} :
    type.containsPending = false ↔ ∀ result, pending result ∉ type.layers := by
  induction type with
  | pending result => exact iff_of_false nofun fun h => h result List.mem_cons_self
  | _ => simp_all [containsPending, layers]

theorem placeholder?_eq_some_iff {type : WireType} {index : UInt16} :
    type.placeholder? = some index ↔ generic index ∈ type.layers := by
  induction type <;> simp_all [placeholder?, layers, eq_comm]

end WireType

end Remoting
