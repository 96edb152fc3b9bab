import Mathlib
import Remoting.Proofs.EndpointHandlers

/-! Answers without anything kept. A request is answered as by a handler that is made for it alone,
whatever the endpoint has served before. -/

namespace Remoting

namespace GenericHandler

/-- The concrete handler of a request, built from the type arguments in front of it. -/
def select (registry : Registry) (path : ServicePath) (method : MethodDescription) :
    Reader ConcreteHandler := do
  let arguments ← Reader.many (typeArgument registry) method.arity
  match ConcreteHandler.build registry path method arguments with
  | .error error => throw (.codec error)
  | .ok built => return built

theorem map_specialize_apply (handler : GenericHandler) (input : Bytes) :
    (Specialized.handler <$> handler.specialize) input =
      match handler.specialize input with
      | .error error left => .error error left
      | .ok specialized left => .ok specialized.handler left := by
  simp only [Functor.map, EStateM.map]
  cases handler.specialize input <;> rfl

/-- What is kept makes no difference to the handler that a request gets. -/
theorem map_specialize {handler : GenericHandler}
    (hkept : ∀ arguments found, (arguments, found) ∈ handler.specializations.entries →
      ConcreteHandler.build handler.registry handler.path handler.method arguments = .ok found) :
    Specialized.handler <$> handler.specialize =
      select handler.registry handler.path handler.method := by
  funext input
  rw [map_specialize_apply, specialize_eq, select, Reader.bind_apply]
  cases Reader.many (typeArgument handler.registry) handler.method.arity input with
  | error error left => rfl
  | ok arguments left =>
    dsimp only
    cases hfind : handler.specializations.find? arguments with
    | some found =>
      rw [hkept _ _ (Table.mem_of_find? hfind)]
      rfl
    | none =>
      dsimp only
      cases ConcreteHandler.build handler.registry handler.path handler.method arguments <;> rfl

theorem map_specialize_fresh (path : ServicePath) (method : MethodDescription)
    (registry : Registry) :
    Specialized.handler <$> (GenericHandler.mk path method registry .empty).specialize =
      select registry path method :=
  @map_specialize ⟨path, method, registry, .empty⟩ fun _ _ hmem => absurd hmem List.not_mem_nil

/-- A handler is chosen by the type arguments in front of a request. -/
theorem select_eq_ok_iff {registry : Registry} {path : ServicePath} {method : MethodDescription}
    {input left : Bytes} {built : ConcreteHandler} :
    select registry path method input = .ok built left ↔
      ∃ arguments, Reader.many (typeArgument registry) method.arity input = .ok arguments left ∧
        ConcreteHandler.build registry path method arguments = .ok built := by
  have hbuilt : ∀ arguments rest,
      (match ConcreteHandler.build registry path method arguments with
        | .error error => throw (.codec error)
        | .ok built => return built : Reader ConcreteHandler) rest = .ok built left ↔
      rest = left ∧ ConcreteHandler.build registry path method arguments = .ok built := by
    intro arguments rest
    cases ConcreteHandler.build registry path method arguments with
    | error error => exact iff_of_false (fun h => by cases h) (fun h => by cases h.2)
    | ok other =>
      constructor
      · intro h
        cases h
        exact ⟨rfl, rfl⟩
      · rintro ⟨rfl, h⟩
        cases h
        rfl
  constructor
  · intro h
    obtain ⟨arguments, rest, hread, h⟩ := Reader.bind_eq_ok_iff.mp h
    obtain ⟨rfl, hbuild⟩ := (hbuilt arguments rest).mp h
    exact ⟨arguments, hread, hbuild⟩
  · rintro ⟨arguments, hread, hbuild⟩
    exact Reader.bind_eq_ok_iff.mpr ⟨arguments, left, hread, (hbuilt arguments left).mpr ⟨rfl, hbuild⟩⟩

theorem select_of_concrete (registry : Registry) (path : ServicePath) {method : MethodDescription}
    (h : method.isGeneric = false) (input : Bytes) :
    select registry path method input =
      match ConcreteHandler.build registry path method [] with
      | .error error => .error (.codec error) input
      | .ok built => .ok built input := by
  have harity : method.arity = 0 := MethodDescription.arity_eq_zero h
  have hmany : Reader.many (typeArgument registry) 0 input = .ok [] input := rfl
  rw [select, Reader.bind_apply, harity, hmany]
  dsimp only
  cases ConcreteHandler.build registry path method [] <;> rfl

end GenericHandler

namespace Handler

/-- The handler as it was made, without specializations. -/
def bare : Handler → Handler
  | concrete handler => concrete handler
  | generic handler => generic { handler with specializations := .empty }

theorem bare_handle (handler : Handler) (root : Implementation) (payload : Bytes) (offset : Nat) :
    (handler.handle root payload offset).2.bare = handler.bare := by
  unfold handle
  cases Reader.start payload offset with
  | error error => rfl
  | ok input =>
    cases handler with
    | concrete handler => rfl
    | generic handler =>
      dsimp only
      rw [GenericHandler.specialize_eq]
      cases Reader.many (GenericHandler.typeArgument handler.registry) handler.method.arity
        input with
      | error error left => rfl
      | ok arguments left =>
        dsimp only
        cases handler.specializations.find? arguments with
        | some found => rfl
        | none =>
          dsimp only
          cases ConcreteHandler.build handler.registry handler.path handler.method arguments <;> rfl

variable {registry : Registry} {description : ServiceDescription} {path : ServicePath}
  {handler : Handler}

theorem Sound.create (h : handler.Sound registry description path) :
    Handler.create registry description path = .ok handler.bare := by
  cases handler with
  | concrete handler =>
    obtain ⟨leaf, method, hresolve, hconcrete, hbuilt⟩ := h
    rw [Handler.create_of_concrete registry hresolve hconcrete, hbuilt]
    rfl
  | generic handler =>
    obtain ⟨leaf, method, hresolve, hgeneric, rfl, rfl, rfl, _⟩ := h
    exact Handler.create_of_generic handler.registry hresolve hgeneric

theorem handle_generic (handler : GenericHandler) (root : Implementation) (payload : Bytes) :
    ((generic handler).handle root payload 0).1 =
      match (Specialized.handler <$> handler.specialize) payload with
      | .error error _ => ⟨.error (.decode error), none⟩
      | .ok built left => run built root left := by
  rw [GenericHandler.map_specialize_apply]
  unfold handle
  rw [Reader.start_zero]
  dsimp only
  cases handler.specialize payload <;> rfl

theorem Sound.handle_bare (h : handler.Sound registry description path) (root : Implementation)
    (payload : Bytes) :
    (handler.handle root payload 0).1 = (handler.bare.handle root payload 0).1 := by
  cases handler with
  | concrete handler => rfl
  | generic handler =>
    obtain ⟨_, _, _, _, rfl, rfl, rfl, hkept⟩ := h
    rw [bare, handle_generic, handle_generic, GenericHandler.map_specialize hkept,
      GenericHandler.map_specialize_fresh]

/-- What comes of a request to a method, by a handler that is made for it alone. -/
def serve (registry : Registry) (path : ServicePath) (method : MethodDescription)
    (root : Implementation) (payload : Bytes) : Outcome :=
  match GenericHandler.select registry path method payload with
  | .error error _ => ⟨.error (.decode error), none⟩
  | .ok built left => run built root left

theorem handle_of_create (h : Handler.create registry description path = .ok handler)
    {place : ServiceDescription} {method : MethodDescription}
    (hresolve : description.resolve path = .ok (place, method)) (root : Implementation)
    (payload : Bytes) :
    (handler.handle root payload 0).1 = serve registry path method root payload := by
  cases hgeneric : method.isGeneric with
  | true =>
    rw [Handler.create_of_generic registry hresolve hgeneric] at h
    cases h
    rw [handle_generic, GenericHandler.map_specialize_fresh]
    rfl
  | false =>
    rw [Handler.create_of_concrete registry hresolve hgeneric] at h
    rw [serve, GenericHandler.select_of_concrete registry path hgeneric]
    cases hbuilt : ConcreteHandler.build registry path method [] with
    | error error => simp [hbuilt] at h
    | ok built =>
      rw [hbuilt] at h
      cases h
      rfl

end Handler

namespace Endpoint

/-- What a request is answered where a service is registered for its root, or none, and no handler
has been kept. -/
def answer (registry : Registry) (known : Option RegisteredService) (path : ServicePath)
    (scope : Option String) (payload : Option Bytes) : Served :=
  match known with
  | none => ⟨.ofResult (.error (unknownRoot path)), none⟩
  | some service =>
    match Handler.create registry service.description path with
    | .error error => ⟨.ofResult (.error error), none⟩
    | .ok handler =>
      match service.resolver scope with
      | none => ⟨unimplemented path scope, none⟩
      | some root =>
        let outcome := (handler.handle root (payload.getD []) 0).1
        ⟨.ofResult outcome.result, outcome.invocation⟩

variable {registry : Registry} {endpoint : Endpoint}

/-- A handler is found or not as it would be made or not. -/
theorem create_of_handler (h : endpoint.Sound registry) {path : ServicePath}
    {service : RegisteredService} (hservice : endpoint.service? path.root = some service) :
    (∃ error after, Handler.create registry service.description path = .error error ∧
      endpoint.handler path = (.error error, after)) ∨
    ∃ slot handler after, handler.Sound registry service.description path ∧
      endpoint.handler path = (.ok (slot, handler), after) := by
  cases hhandler : endpoint.handler path with
  | mk result after =>
    cases result with
    | ok found =>
      obtain ⟨known, hknown, hsound⟩ := sound_of_handler h hhandler
      rw [hservice] at hknown
      cases hknown
      exact .inr ⟨found.1, found.2, after, hsound, rfl⟩
    | error error =>
      left
      rcases handler_cases endpoint path with ⟨_, _, hsame⟩ | ⟨_, hnone, _⟩ |
        ⟨known, _, _, hknown, hcreate, hrefused⟩ | ⟨_, _, _, _, _, hnew⟩
      · rw [hsame] at hhandler
        cases hhandler
      · rw [hservice] at hnone
        cases hnone
      · rw [hservice] at hknown
        cases hknown
        rw [hrefused] at hhandler
        cases hhandler
        exact ⟨error, _, h.sameRegistry ▸ hcreate, rfl⟩
      · rw [hnew] at hhandler
        cases hhandler

theorem handle_eq_answer (h : endpoint.Sound registry) (path : ServicePath) (scope : Option String)
    (payload : Option Bytes) : (endpoint.handle path scope payload).1 =
      answer registry (endpoint.service? path.root) path scope payload := by
  unfold handle answer
  cases hservice : endpoint.service? path.root with
  | none => rfl
  | some service =>
    dsimp only
    rcases create_of_handler h hservice with
      ⟨error, after, hcreate, hhandler⟩ | ⟨slot, handler, after, hsound, hhandler⟩
    · rw [hcreate, hhandler]
    · rw [hsound.create, hhandler]
      dsimp only
      cases service.resolver scope with
      | none => rfl
      | some root =>
        dsimp only
        rw [hsound.handle_bare]

end Endpoint

end Remoting
