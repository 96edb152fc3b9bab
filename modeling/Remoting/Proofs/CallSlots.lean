import Mathlib
import Remoting.Server.Handler
import Remoting.Client.Node

/-! The slots of a call: what has been sent is where it is declared, and all other slots are
null. -/

namespace Remoting

namespace ConcreteHandler

variable {slots : List Value} {values : List (Nat × Value)}

theorem getElem?_foldl_set_of_notMem {i : Nat} (h : i ∉ values.map (·.1)) :
    (values.foldl (fun slots value => slots.set value.1 value.2) slots)[i]? = slots[i]? := by
  induction values generalizing slots with
  | nil => rfl
  | cons value values ih =>
    rw [List.map_cons, List.mem_cons, not_or] at h
    rw [List.foldl_cons, ih h.2, List.getElem?_set_ne (Ne.symm h.1)]

theorem getElem?_foldl_set_of_mem {i : Nat} {value : Value} (hnodup : (values.map (·.1)).Nodup)
    (hmem : (i, value) ∈ values) (hi : i < slots.length) :
    (values.foldl (fun slots value => slots.set value.1 value.2) slots)[i]? = some value := by
  induction values generalizing slots with
  | nil => cases hmem
  | cons first values ih =>
    rw [List.map_cons, List.nodup_cons] at hnodup
    rw [List.foldl_cons]
    rcases List.mem_cons.mp hmem with hfirst | hmem
    · subst hfirst
      rw [getElem?_foldl_set_of_notMem hnodup.1]
      simp [hi]
    · exact ih hnodup.2 hmem (by simpa using hi)

theorem length_fillSlots (count : Nat) (values : List (Nat × Value)) :
    (fillSlots count values).length = count := by
  have hset : ∀ slots : List Value,
      (values.foldl (fun slots value => slots.set value.1 value.2) slots).length = slots.length := by
    induction values with
    | nil => exact fun _ => rfl
    | cons value values ih => exact fun slots => (ih _).trans (by simp)
  rw [fillSlots, hset, List.length_replicate]

theorem getElem?_fillSlots_of_mem {count i : Nat} {value : Value}
    (hnodup : (values.map (·.1)).Nodup) (hmem : (i, value) ∈ values) (hi : i < count) :
    (fillSlots count values)[i]? = some value :=
  getElem?_foldl_set_of_mem hnodup hmem (by simpa using hi)

theorem getElem?_fillSlots_of_notMem {count i : Nat} (h : i ∉ values.map (·.1)) (hi : i < count) :
    (fillSlots count values)[i]? = some .null := by
  rw [fillSlots, getElem?_foldl_set_of_notMem h, List.getElem?_replicate, if_pos hi]

end ConcreteHandler

namespace MethodDescription

/-- Every parameter has its place among the parameters as its position. -/
def Ordered (method : MethodDescription) : Prop :=
  ∀ (i : Nat) (parameter : ParameterDescription),
    method.parameters[i]? = some parameter → parameter.position = i

theorem Ordered.getElem?_position {method : MethodDescription} (h : method.Ordered)
    {parameter : ParameterDescription} (hmem : parameter ∈ method.parameters) :
    method.parameters[parameter.position]? = some parameter := by
  obtain ⟨i, hi, rfl⟩ := List.mem_iff_getElem.mp hmem
  have hsome := List.getElem?_eq_getElem hi
  rw [h i _ hsome, hsome]

theorem Ordered.position_lt {method : MethodDescription} (h : method.Ordered)
    {parameter : ParameterDescription} (hmem : parameter ∈ method.parameters) :
    parameter.position < method.parameters.length := by
  obtain ⟨hlt, _⟩ := List.getElem?_eq_some_iff.mp (h.getElem?_position hmem)
  exact hlt

theorem Ordered.eq_of_position {method : MethodDescription} (h : method.Ordered)
    {parameter other : ParameterDescription} (hmem : parameter ∈ method.parameters)
    (hother : other ∈ method.parameters) (hsame : parameter.position = other.position) :
    parameter = other := by
  have hparameter := h.getElem?_position hmem
  rw [hsame, h.getElem?_position hother] at hparameter
  exact (Option.some.inj hparameter).symm

theorem Ordered.nodup_positions {method : MethodDescription} (h : method.Ordered) :
    (method.requestParameters.map (·.position)).Nodup := by
  have hpositions : method.parameters.map (·.position) = List.range method.parameters.length := by
    refine List.ext_getElem (by simp) fun i hi _ => ?_
    rw [List.getElem_map, List.getElem_range]
    have hlt : i < method.parameters.length := by simpa using hi
    exact h i _ (List.getElem?_eq_getElem hlt)
  have hall : (method.parameters.map (·.position)).Nodup := hpositions ▸ List.nodup_range
  exact hall.sublist (List.filter_sublist.map _)

end MethodDescription

/-- The call is one of the method under the type arguments; each value is in the slot where its
parameter is declared, and the slots of parameters that are only sent back hold null. -/
structure MethodCall.Carries (call : MethodCall) (method : MethodDescription)
    (arguments : CallArguments) : Prop where
  sameMethod : call.method = method
  sameTypes : call.typeArguments = arguments.types
  ordered : method.Ordered
  count : call.slots.length = method.parameters.length
  sent : method.requestParameters.map (fun parameter => call.slots[parameter.position]?) =
    arguments.values.map some
  unsent : ∀ parameter ∈ method.parameters, parameter.mode = .out →
    call.slots[parameter.position]? = some .null

theorem ConcreteHandler.callOf_carries {handler : ConcreteHandler} {arguments : CallArguments}
    (hordered : handler.method.Ordered) (htypes : handler.typeArguments = arguments.types)
    (hrequest : handler.request.map (·.1) = handler.method.requestParameters.map (·.position))
    (hcount : arguments.values.length = handler.method.requestParameters.length) :
    (handler.callOf arguments.values).Carries handler.method arguments := by
  have hzip : ((handler.request.map (·.1)).zip arguments.values).map (·.1) =
      handler.method.requestParameters.map (·.position) := by
    rw [hrequest]
    exact List.map_fst_zip (by simp [hcount])
  have hnodup := hordered.nodup_positions
  rw [← hzip] at hnodup
  refine ⟨rfl, htypes, hordered, length_fillSlots _ _, ?_, fun parameter hmem hout => ?_⟩
  · refine List.ext_getElem (by simp [hcount]) fun i hi hj => ?_
    have hi : i < handler.method.requestParameters.length := by simpa using hi
    have hj : i < arguments.values.length := by simpa using hj
    have hdeclared : handler.method.requestParameters[i] ∈ handler.method.parameters :=
      (List.mem_filter.mp (List.getElem_mem hi)).1
    have hpair : (handler.method.requestParameters[i].position, arguments.values[i]) ∈
        (handler.request.map (·.1)).zip arguments.values := by
      rw [hrequest]
      exact List.mem_iff_getElem.mpr ⟨i, by simp; omega, by simp⟩
    rw [List.getElem_map, List.getElem_map]
    exact getElem?_fillSlots_of_mem hnodup hpair (hordered.position_lt hdeclared)
  · refine getElem?_fillSlots_of_notMem ?_ (hordered.position_lt hmem)
    intro hposition
    rw [hzip] at hposition
    obtain ⟨other, hother, hsame⟩ := List.mem_map.mp hposition
    obtain ⟨hdeclared, hrequested⟩ := List.mem_filter.mp hother
    rw [hordered.eq_of_position hdeclared hmem hsame, hout] at hrequested
    cases hrequested

end Remoting
