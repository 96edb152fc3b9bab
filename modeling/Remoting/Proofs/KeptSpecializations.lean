import Mathlib
import Remoting.Proofs.ArgumentGates
import Remoting.Proofs.FreshAnswers
import Remoting.Proofs.KeptEntries

/-! What a generic handler keeps. After any calls it has one specialization for each tuple of type
arguments that has been specialized, and it is the one that would be built now. -/

namespace Remoting

namespace GenericHandler

/-- The handler after a call. One that fails leaves it as it was. -/
def afterCall (handler : GenericHandler) (input : Bytes) : GenericHandler :=
  match handler.specialize input with
  | .ok specialized _ => specialized.generic
  | .error _ _ => handler

def after (handler : GenericHandler) (inputs : List Bytes) : GenericHandler :=
  inputs.foldl afterCall handler

/-- The handler of a method after calls from the start, where it keeps nothing. -/
def ofCalls (registry : Registry) (path : ServicePath) (method : MethodDescription)
    (inputs : List Bytes) : GenericHandler :=
  after ⟨path, method, registry, .empty⟩ inputs

/-- A call is successful and its type arguments are these. -/
def Specializes (handler : GenericHandler) (input : Bytes) (arguments : List WireType) : Prop :=
  ∃ specialized left, handler.specialize input = .ok specialized left ∧
    Reader.many (typeArgument handler.registry) handler.method.arity input = .ok arguments left

/-- The tuples that were specialized by the calls. -/
def specializedTuples (registry : Registry) (path : ServicePath) (method : MethodDescription)
    (inputs : List Bytes) : Set (List WireType) :=
  {arguments | ∃ before input behind, inputs = before ++ input :: behind ∧
    (ofCalls registry path method before).Specializes input arguments}

variable {registry : Registry} {path : ServicePath} {method : MethodDescription}
  {handler : GenericHandler} {input left : Bytes} {specialized : Specialized}

theorem ofCalls_append (registry : Registry) (path : ServicePath) (method : MethodDescription)
    (inputs later : List Bytes) :
    ofCalls registry path method (inputs ++ later) =
      (ofCalls registry path method inputs).after later :=
  List.foldl_append

/-- A successful call finds the tuple that it has read, or builds and keeps what belongs to it. -/
theorem specialize_cases (h : handler.specialize input = .ok specialized left) :
    ∃ arguments,
      Reader.many (typeArgument handler.registry) handler.method.arity input = .ok arguments left ∧
      (handler.specializations.find? arguments = some (specialized.slot, specialized.handler) ∧
          specialized.generic = handler ∨
        handler.specializations.find? arguments = none ∧
          ConcreteHandler.build handler.registry handler.path handler.method arguments =
            .ok specialized.handler ∧
          specialized.slot = handler.specializations.size ∧
          specialized.generic = { handler with
            specializations := handler.specializations.push arguments specialized.handler }) := by
  rw [specialize_eq] at h
  cases hread : Reader.many (typeArgument handler.registry) handler.method.arity input with
  | error error rest =>
    rw [hread] at h
    cases h
  | ok arguments rest =>
    simp only [hread] at h
    cases hfind : handler.specializations.find? arguments with
    | some found =>
      simp only [hfind] at h
      cases h
      exact ⟨arguments, rfl, .inl ⟨hfind, rfl⟩⟩
    | none =>
      simp only [hfind] at h
      cases hbuild : ConcreteHandler.build handler.registry handler.path handler.method
        arguments with
      | error error =>
        simp only [hbuild] at h
        cases h
      | ok built =>
        simp only [hbuild] at h
        cases h
        exact ⟨arguments, rfl, .inr ⟨hfind, hbuild, rfl, rfl⟩⟩

theorem afterCall_of_ok (h : handler.specialize input = .ok specialized left) :
    handler.afterCall input = specialized.generic := by
  rw [afterCall, h]

theorem afterCall_of_error {error : DecodeError}
    (h : handler.specialize input = .error error left) : handler.afterCall input = handler := by
  rw [afterCall, h]

theorem handle_state (handler : GenericHandler) (root : Implementation) (payload : Bytes) :
    ((Handler.generic handler).handle root payload 0).2 =
      .generic (handler.afterCall payload) := by
  rw [Handler.handle, Reader.start_zero, afterCall]
  dsimp only
  cases handler.specialize payload <;> rfl

/-- The kept handlers of a generic handler, one for each key and each the one built for it. -/
structure Keeps (registry : Registry) (path : ServicePath) (method : MethodDescription)
    (handler : GenericHandler) : Prop where
  samePath : handler.path = path
  sameMethod : handler.method = method
  sameRegistry : handler.registry = registry
  nodup : handler.specializations.keys.Nodup
  built : ∀ arguments stored, (arguments, stored) ∈ handler.specializations.entries →
    ConcreteHandler.build registry path method arguments = .ok stored

theorem Keeps.afterCall (h : handler.Keeps registry path method) (input : Bytes) :
    (handler.afterCall input).Keeps registry path method := by
  cases hs : handler.specialize input with
  | error error left =>
    rw [afterCall_of_error hs]
    exact h
  | ok specialized left =>
    rw [afterCall_of_ok hs]
    obtain ⟨arguments, _, ⟨_, hsame⟩ | ⟨hnone, hbuild, _, hnew⟩⟩ := specialize_cases hs
    · rw [hsame]
      exact h
    · rw [hnew]
      refine ⟨h.samePath, h.sameMethod, h.sameRegistry, Table.nodup_keys_push h.nodup hnone _, ?_⟩
      intro other stored hmem
      rcases Table.mem_push.mp hmem with hmem | hlast
      · exact h.built other stored hmem
      · cases hlast
        rw [h.sameRegistry, h.samePath, h.sameMethod] at hbuild
        exact hbuild

theorem keeps_ofCalls (registry : Registry) (path : ServicePath) (method : MethodDescription)
    (inputs : List Bytes) : (ofCalls registry path method inputs).Keeps registry path method := by
  induction inputs using List.reverseRecOn with
  | nil => exact ⟨rfl, rfl, rfl, List.nodup_nil, nofun⟩
  | append_singleton inputs input ih =>
    rw [ofCalls_append]
    exact ih.afterCall input

theorem find?_afterCall {arguments : List WireType} {found : Nat × ConcreteHandler}
    (h : handler.specializations.find? arguments = some found) (input : Bytes) :
    (handler.afterCall input).specializations.find? arguments = some found := by
  cases hs : handler.specialize input with
  | error error left =>
    rw [afterCall_of_error hs]
    exact h
  | ok specialized left =>
    rw [afterCall_of_ok hs]
    obtain ⟨other, _, ⟨_, hsame⟩ | ⟨_, _, _, hnew⟩⟩ := specialize_cases hs
    · rw [hsame]
      exact h
    · rw [hnew]
      exact Table.find?_push_of_find? h other _

theorem find?_after {arguments : List WireType} {found : Nat × ConcreteHandler}
    (h : handler.specializations.find? arguments = some found) (inputs : List Bytes) :
    (handler.after inputs).specializations.find? arguments = some found := by
  induction inputs generalizing handler with
  | nil => exact h
  | cons input inputs ih => exact ih (find?_afterCall h input)

/-- What a successful call gives out is kept afterwards under the tuple that it has read. -/
theorem find?_of_specialize (h : handler.specialize input = .ok specialized left)
    {arguments : List WireType}
    (hread : Reader.many (typeArgument handler.registry) handler.method.arity input =
      .ok arguments left) :
    (handler.afterCall input).specializations.find? arguments =
      some (specialized.slot, specialized.handler) := by
  rw [afterCall_of_ok h]
  obtain ⟨other, hother, hcases⟩ := specialize_cases h
  obtain rfl : arguments = other := by
    rw [hread] at hother
    cases hother
    rfl
  rcases hcases with ⟨hfind, hsame⟩ | ⟨hnone, _, hslot, hnew⟩
  · rw [hsame]
    exact hfind
  · rw [hnew, hslot]
    exact Table.find?_push_self hnone _

theorem mem_keys_afterCall {arguments : List WireType} :
    arguments ∈ (handler.afterCall input).specializations.keys ↔
      arguments ∈ handler.specializations.keys ∨ handler.Specializes input arguments := by
  constructor
  · intro hmem
    cases hs : handler.specialize input with
    | error error left =>
      rw [afterCall_of_error hs] at hmem
      exact .inl hmem
    | ok specialized left =>
      rw [afterCall_of_ok hs] at hmem
      obtain ⟨other, hread, ⟨_, hsame⟩ | ⟨_, _, _, hnew⟩⟩ := specialize_cases hs
      · rw [hsame] at hmem
        exact .inl hmem
      · rw [hnew, Table.keys_push, List.mem_append, List.mem_singleton] at hmem
        refine hmem.imp_right fun hlast => ?_
        rw [hlast]
        exact ⟨specialized, left, hs, hread⟩
  · rintro (hmem | ⟨specialized, left, hs, hread⟩)
    · obtain ⟨found, hfound⟩ := Table.exists_find?_of_mem_keys hmem
      exact Table.mem_keys_of_find? (find?_afterCall hfound input)
    · exact Table.mem_keys_of_find? (find?_of_specialize hs hread)

theorem mem_keys_ofCalls {inputs : List Bytes} {arguments : List WireType} :
    arguments ∈ (ofCalls registry path method inputs).specializations.keys ↔
      arguments ∈ specializedTuples registry path method inputs := by
  induction inputs using List.reverseRecOn with
  | nil => exact iff_of_false List.not_mem_nil not_exists_step_nil
  | append_singleton inputs input ih =>
    rw [ofCalls_append]
    show arguments ∈
      ((ofCalls registry path method inputs).afterCall input).specializations.keys ↔ _
    rw [mem_keys_afterCall, ih]
    exact exists_step_append_singleton_iff.symm

theorem size_ofCalls (registry : Registry) (path : ServicePath) (method : MethodDescription)
    (inputs : List Bytes) : (ofCalls registry path method inputs).specializations.size =
      (specializedTuples registry path method inputs).ncard := by
  rw [Table.size_eq_ncard (keeps_ofCalls registry path method inputs).nodup]
  exact congrArg Set.ncard (Set.ext fun arguments => mem_keys_ofCalls)

/-- Two calls get the same slot exactly if they have read the same tuple, whatever comes between. -/
theorem slot_eq_of_specialize_iff {between : List Bytes} {other rest : Bytes} {later : Specialized}
    (h : handler.specialize input = .ok specialized left)
    (h' : (handler.after (input :: between)).specialize other = .ok later rest)
    {arguments arguments' : List WireType}
    (hread : Reader.many (typeArgument handler.registry) handler.method.arity input =
      .ok arguments left)
    (hread' : Reader.many (typeArgument (handler.after (input :: between)).registry)
      (handler.after (input :: between)).method.arity other = .ok arguments' rest) :
    (later.slot = specialized.slot ↔ arguments' = arguments) ∧
      (arguments' = arguments → later.handler = specialized.handler) := by
  -- Both are found in the table that the second call leaves.
  have hfirst := find?_afterCall (find?_after (find?_of_specialize h hread) between) other
  have hsecond := find?_of_specialize h' hread'
  refine ⟨Table.slot_eq_iff hsecond hfirst, ?_⟩
  rintro rfl
  have hsame := hsecond.symm.trans hfirst
  exact congrArg Prod.snd (Option.some.inj hsame)

theorem Keeps.handle_eq (h : handler.Keeps registry path method) (root : Implementation)
    (payload : Bytes) : ((Handler.generic handler).handle root payload 0).1 =
      ((Handler.generic ⟨path, method, registry, .empty⟩).handle root payload 0).1 := by
  have hkept : ∀ arguments found, (arguments, found) ∈ handler.specializations.entries →
      ConcreteHandler.build handler.registry handler.path handler.method arguments = .ok found := by
    rw [h.sameRegistry, h.samePath, h.sameMethod]
    exact h.built
  rw [Handler.handle_generic, Handler.handle_generic, map_specialize hkept, map_specialize_fresh,
    h.sameRegistry, h.samePath, h.sameMethod]

theorem kept_specializations_are_those_specialized (registry : Registry) (path : ServicePath)
    (method : MethodDescription) (inputs : List Bytes) :
    (∀ input specialized left,
      (ofCalls registry path method inputs).specialize input = .ok specialized left →
      ∃ arguments, Reader.many (typeArgument registry) method.arity input = .ok arguments left ∧
        specialized.handler.typeArguments = arguments ∧
        ∀ between other later rest arguments',
          (ofCalls registry path method (inputs ++ input :: between)).specialize other =
            .ok later rest →
          Reader.many (typeArgument registry) method.arity other = .ok arguments' rest →
            (later.slot = specialized.slot ↔ arguments' = arguments) ∧
              (arguments' = arguments → later.handler = specialized.handler)) ∧
    (ofCalls registry path method inputs).specializations.size =
      (specializedTuples registry path method inputs).ncard ∧
    (∀ input error left,
      (ofCalls registry path method inputs).specialize input = .error error left →
        ofCalls registry path method (inputs ++ [input]) = ofCalls registry path method inputs ∧
        ∀ root, ((Handler.generic (ofCalls registry path method inputs)).handle root input 0).2 =
          .generic (ofCalls registry path method inputs)) ∧
    (∀ arguments stored,
      (arguments, stored) ∈ (ofCalls registry path method inputs).specializations.entries →
        stored.typeArguments = arguments ∧ ∃ built,
          ConcreteHandler.build registry path method arguments = .ok built ∧
            ∀ leaf left, stored.execute leaf left = built.execute leaf left) ∧
    ∀ root payload,
      ((Handler.generic (ofCalls registry path method inputs)).handle root payload 0).1 =
        ((Handler.generic ⟨path, method, registry, .empty⟩).handle root payload 0).1 := by
  have hkeeps := keeps_ofCalls registry path method inputs
  refine ⟨fun input specialized left hs => ?_, size_ofCalls registry path method inputs,
    fun input error left hs => ⟨?_, fun root => ?_⟩, fun arguments stored hmem => ?_,
    hkeeps.handle_eq⟩
  · obtain ⟨arguments, hread, hcases⟩ := specialize_cases hs
    have hbuilt : ConcreteHandler.build registry path method arguments =
        .ok specialized.handler := by
      rcases hcases with ⟨hfind, _⟩ | ⟨_, hbuild, _⟩
      · exact hkeeps.built _ _ (Table.mem_of_find? hfind)
      · rw [hkeeps.sameRegistry, hkeeps.samePath, hkeeps.sameMethod] at hbuild
        exact hbuild
    have hafter := keeps_ofCalls registry path method
    refine ⟨arguments, ?_, ConcreteHandler.typeArguments_of_build hbuilt,
      fun between other later rest arguments' hlater hother => ?_⟩
    · rw [hkeeps.sameRegistry, hkeeps.sameMethod] at hread
      exact hread
    · have hsame := hafter (inputs ++ input :: between)
      rw [ofCalls_append] at hlater hsame
      refine slot_eq_of_specialize_iff hs hlater hread ?_
      rw [hsame.sameRegistry, hsame.sameMethod]
      exact hother
  · rw [ofCalls_append]
    exact afterCall_of_error hs
  · rw [handle_state, afterCall_of_error hs]
  · have hbuilt := hkeeps.built arguments stored hmem
    exact ⟨ConcreteHandler.typeArguments_of_build hbuilt, stored, hbuilt, fun _ _ => rfl⟩

/-- Type arguments of a swap: a text, a text still pending, and a number. -/
def swapCalls : List Bytes := [[12], [19, 12], [4]]

/-- Of the three the pending one is refused, and a text read later is in the slot of the first. -/
theorem swaps_specialized_for_two_types :
    (∃ specialized later,
      (ofCalls .empty Market.swapPath Market.swap []).specialize [12] = .ok specialized [] ∧
      (ofCalls .empty Market.swapPath Market.swap swapCalls).specialize [12, 7] = .ok later [7] ∧
      later.slot = specialized.slot ∧ later.handler = specialized.handler) ∧
    (specializedTuples .empty Market.swapPath Market.swap swapCalls).ncard = 2 ∧
    (∃ error left, (ofCalls .empty Market.swapPath Market.swap [[12]]).specialize [19, 12] =
      .error error left) ∧
    ofCalls .empty Market.swapPath Market.swap [[12], [19, 12]] =
      ofCalls .empty Market.swapPath Market.swap [[12]] := by
  obtain ⟨hcalls, _⟩ := kept_specializations_are_those_specialized .empty Market.swapPath
    Market.swap []
  obtain ⟨_, _, hfails, _⟩ := kept_specializations_are_those_specialized .empty Market.swapPath
    Market.swap [[12]]
  obtain ⟨_, hcount, _⟩ := kept_specializations_are_those_specialized .empty Market.swapPath
    Market.swap swapCalls
  obtain ⟨specialized, hs⟩ : ∃ specialized,
    (ofCalls .empty Market.swapPath Market.swap []).specialize [12] = .ok specialized [] := ⟨_, rfl⟩
  obtain ⟨later, hlater⟩ : ∃ later,
    (ofCalls .empty Market.swapPath Market.swap swapCalls).specialize [12, 7] = .ok later [7] :=
    ⟨_, rfl⟩
  obtain ⟨error, left, herror⟩ : ∃ error left,
    (ofCalls .empty Market.swapPath Market.swap [[12]]).specialize [19, 12] = .error error left :=
    ⟨_, _, rfl⟩
  obtain ⟨arguments, hread, _, hsame⟩ := hcalls [12] specialized [] hs
  have htext : arguments = [.text] := by
    cases hread
    rfl
  obtain ⟨hslot, hhandler⟩ := hsame [[19, 12], [4]] [12, 7] later [7] [.text] hlater rfl
  exact ⟨⟨specialized, later, hs, hlater, hslot.mpr htext.symm, hhandler htext.symm⟩,
    hcount.symm.trans rfl, ⟨error, left, herror⟩, (hfails _ error left herror).1⟩

end GenericHandler

end Remoting
