import Mathlib
import Remoting.Loopback
import Remoting.Proofs.Format
import Remoting.Proofs.MethodCodecs

/-! The handlers that an endpoint keeps. Whatever requests it has served, a handler is the one that
is made for its path, and its specializations are those that are built for their type arguments. -/

namespace Remoting

/-- The handler is made for the method that the path leads to. -/
def Handler.Sound (registry : Registry) (description : ServiceDescription) (path : ServicePath) :
    Handler → Prop
  | concrete handler => ∃ leaf method, description.resolve path = .ok (leaf, method) ∧
      method.isGeneric = false ∧ ConcreteHandler.build registry path method [] = .ok handler
  | generic handler => ∃ leaf method, description.resolve path = .ok (leaf, method) ∧
      method.isGeneric = true ∧ handler.path = path ∧ handler.method = method ∧
      handler.registry = registry ∧ ∀ arguments found,
        (arguments, found) ∈ handler.specializations.entries →
          ConcreteHandler.build registry path method arguments = .ok found

namespace GenericHandler

theorem specialize_eq (handler : GenericHandler) (input : Bytes) :
    handler.specialize input =
      match Reader.many (typeArgument handler.registry) handler.method.arity input with
      | .error error left => .error error left
      | .ok arguments left =>
        match handler.specializations.find? arguments with
        | some (slot, found) => .ok ⟨slot, found, handler⟩ left
        | none =>
          match ConcreteHandler.build handler.registry handler.path handler.method arguments with
          | .error error => .error (.codec error) left
          | .ok built => .ok ⟨handler.specializations.size, built, { handler with
              specializations := handler.specializations.push arguments built }⟩ left := by
  unfold specialize
  rw [Reader.bind_apply]
  cases Reader.many (typeArgument handler.registry) handler.method.arity input with
  | error error left => rfl
  | ok arguments left =>
    dsimp only
    cases handler.specializations.find? arguments with
    | some found => rfl
    | none =>
      dsimp only
      cases ConcreteHandler.build handler.registry handler.path handler.method arguments <;> rfl

theorem specialize_sound {registry : Registry} {description : ServiceDescription} {path : ServicePath}
    {handler : GenericHandler} (h : (Handler.generic handler).Sound registry description path)
    {input left : Bytes} {specialized : Specialized}
    (hs : handler.specialize input = .ok specialized left) :
    (Handler.generic specialized.generic).Sound registry description path ∧ ∃ arguments,
      Reader.many (typeArgument registry) handler.method.arity input = .ok arguments left ∧
        ConcreteHandler.build registry path handler.method arguments = .ok specialized.handler := by
  obtain ⟨leaf, method, hresolve, hgeneric, rfl, rfl, rfl, hkept⟩ := h
  rw [specialize_eq] at hs
  cases hread : Reader.many (typeArgument handler.registry) handler.method.arity input with
  | error error rest =>
    rw [hread] at hs
    cases hs
  | ok arguments rest =>
    simp only [hread] at hs
    cases hfind : handler.specializations.find? arguments with
    | some found =>
      simp only [hfind] at hs
      cases hs
      have hbuilt := hkept _ _ (Table.mem_of_find? hfind)
      exact ⟨⟨leaf, _, hresolve, hgeneric, rfl, rfl, rfl, hkept⟩, arguments, rfl, hbuilt⟩
    | none =>
      simp only [hfind] at hs
      cases hbuild : ConcreteHandler.build handler.registry handler.path handler.method arguments with
      | error error =>
        simp only [hbuild] at hs
        cases hs
      | ok built =>
        simp only [hbuild] at hs
        cases hs
        refine ⟨⟨leaf, _, hresolve, hgeneric, rfl, rfl, rfl, fun other found hmem => ?_⟩,
          arguments, rfl, hbuild⟩
        rcases Table.mem_push.mp hmem with hmem | hnew
        · exact hkept other found hmem
        · cases hnew
          exact hbuild

/-- A request whose type arguments can be read and have a handler gets that handler. -/
theorem specialize_ok {registry : Registry} {description : ServiceDescription} {path : ServicePath}
    {handler : GenericHandler} (h : (Handler.generic handler).Sound registry description path)
    {input left : Bytes} {arguments : List WireType} {built : ConcreteHandler}
    (hread : Reader.many (typeArgument registry) handler.method.arity input = .ok arguments left)
    (hbuild : ConcreteHandler.build registry path handler.method arguments = .ok built) :
    ∃ specialized, handler.specialize input = .ok specialized left ∧ specialized.handler = built := by
  obtain ⟨leaf, method, _, _, rfl, rfl, rfl, hkept⟩ := h
  rw [specialize_eq, hread]
  cases hfind : handler.specializations.find? arguments with
  | some found =>
    have hfound := hkept _ _ (Table.mem_of_find? hfind)
    rw [hbuild] at hfound
    simp only [hfind]
    exact ⟨_, rfl, (Except.ok.inj hfound).symm⟩
  | none =>
    simp only [hfind, hbuild]
    exact ⟨_, rfl, rfl⟩

end GenericHandler

namespace Handler

variable {registry : Registry} {description place : ServiceDescription} {path : ServicePath}
  {method : MethodDescription} {handler : Handler}

theorem create_of_unresolved (registry : Registry) {error : RoutingError}
    (hresolve : description.resolve path = .error error) :
    create registry description path = .error (.routing error) := by
  unfold create
  rw [hresolve]

theorem create_of_generic (registry : Registry)
    (hresolve : description.resolve path = .ok (place, method)) (hgeneric : method.isGeneric = true) :
    create registry description path = .ok (generic ⟨path, method, registry, .empty⟩) := by
  unfold create
  rw [hresolve]
  exact if_pos hgeneric

/-- The handler of a method that is not generic has its codecs from the outset. -/
theorem create_of_concrete (registry : Registry)
    (hresolve : description.resolve path = .ok (place, method))
    (hgeneric : method.isGeneric = false) :
    create registry description path =
      match ConcreteHandler.build registry path method [] with
      | .error error => .error (.codec error)
      | .ok built => .ok (concrete built) := by
  unfold create
  rw [hresolve]
  exact if_neg (by simp [hgeneric])

theorem sound_of_create (h : create registry description path = .ok handler) :
    handler.Sound registry description path := by
  cases hresolve : description.resolve path with
  | error error =>
    rw [create_of_unresolved registry hresolve] at h
    cases h
  | ok found =>
    obtain ⟨place, method⟩ := found
    cases hgeneric : method.isGeneric with
    | true =>
      rw [create_of_generic registry hresolve hgeneric] at h
      cases h
      exact ⟨place, method, hresolve, hgeneric, rfl, rfl, rfl,
        fun _ _ hmem => absurd hmem List.not_mem_nil⟩
    | false =>
      rw [create_of_concrete registry hresolve hgeneric] at h
      cases hbuilt : ConcreteHandler.build registry path method [] with
      | error error => simp [hbuilt] at h
      | ok built =>
        rw [hbuilt] at h
        cases h
        exact ⟨place, method, hresolve, hgeneric, hbuilt⟩

theorem exists_create_iff (registry : Registry)
    (hresolve : description.resolve path = .ok (place, method)) :
    (∃ handler, create registry description path = .ok handler) ↔
      (method.isGeneric = false →
        ∃ built, ConcreteHandler.build registry path method [] = .ok built) := by
  cases hgeneric : method.isGeneric with
  | true =>
    exact iff_of_true ⟨_, create_of_generic registry hresolve hgeneric⟩ (by simp)
  | false =>
    rw [create_of_concrete registry hresolve hgeneric]
    cases ConcreteHandler.build registry path method [] <;> simp

theorem Sound.handle (h : handler.Sound registry description path) (root : Implementation)
    (payload : Bytes) (offset : Nat) :
    (handler.handle root payload offset).2.Sound registry description path := by
  unfold Handler.handle
  cases Reader.start payload offset with
  | error error => exact h
  | ok input =>
    cases handler with
    | concrete handler => exact h
    | generic handler =>
      dsimp only
      cases hs : handler.specialize input with
      | error error left => exact h
      | ok specialized left => exact (GenericHandler.specialize_sound h hs).1

end Handler

/-- The endpoints of a registry, after any registrations and requests. -/
inductive Endpoint.Reached (registry : Registry) : Endpoint → Prop
  | fresh : Reached registry (.ofRegistry registry)
  | registered {endpoint after : Endpoint} (h : Reached registry endpoint)
      {service : RegisteredService} (hs : endpoint.register service = .ok after) : Reached registry after
  | asked {endpoint : Endpoint} (h : Reached registry endpoint) (path : ServicePath) :
      Reached registry (endpoint.handler path).2
  | served {endpoint : Endpoint} (h : Reached registry endpoint) (path : ServicePath)
      (scope : Option String) (payload : Option Bytes) :
      Reached registry (endpoint.handle path scope payload).2

structure Endpoint.Sound (registry : Registry) (endpoint : Endpoint) : Prop where
  sameRegistry : endpoint.registry = registry
  handlers : ∀ path handler, (path, handler) ∈ endpoint.handlers.entries →
    ∃ service, endpoint.service? path.root = some service ∧
      handler.Sound registry service.description path

namespace Endpoint

variable {registry : Registry} {endpoint after : Endpoint} {path : ServicePath}

theorem service?_of_register {service known : RegisteredService} {name : String}
    (h : endpoint.register service = .ok after) (hname : endpoint.service? name = some known) :
    after.service? name = some known := by
  unfold register at h
  split at h
  · cases h
  · cases h
    obtain ⟨found, hfound, rfl⟩ := Option.map_eq_some_iff.mp hname
    rw [service?, Table.find?_push_of_find? hfound]
    rfl

/-- A handler is kept already, or its root is unknown, or it cannot be made, or it is made and
kept. -/
theorem handler_cases (endpoint : Endpoint) (path : ServicePath) :
    (∃ found, endpoint.handlers.find? path = some found ∧
      endpoint.handler path = (.ok found, endpoint)) ∨
    (endpoint.handlers.find? path = none ∧ endpoint.service? path.root = none ∧
      endpoint.handler path = (.error (unknownRoot path), endpoint)) ∨
    (∃ service error, endpoint.handlers.find? path = none ∧
      endpoint.service? path.root = some service ∧
      Handler.create endpoint.registry service.description path = .error error ∧
      endpoint.handler path = (.error error, endpoint)) ∨
    ∃ service created, endpoint.handlers.find? path = none ∧
      endpoint.service? path.root = some service ∧
      Handler.create endpoint.registry service.description path = .ok created ∧
      endpoint.handler path = (.ok (endpoint.handlers.size, created),
        { endpoint with handlers := endpoint.handlers.push path created }) := by
  unfold handler
  cases hfind : endpoint.handlers.find? path with
  | some found => exact .inl ⟨found, rfl, rfl⟩
  | none =>
    right
    dsimp only
    cases hservice : endpoint.service? path.root with
    | none => exact .inl ⟨rfl, rfl, rfl⟩
    | some service =>
      right
      dsimp only
      cases hcreate : Handler.create endpoint.registry service.description path with
      | error error => exact .inl ⟨service, error, rfl, rfl, hcreate, rfl⟩
      | ok created => exact .inr ⟨service, created, rfl, rfl, hcreate, rfl⟩

/-- A request does to the endpoint what asking for its handler does, and then at most puts the
handler back after it has handled the request. -/
theorem handle_cases (endpoint : Endpoint) (path : ServicePath) (scope : Option String)
    (payload : Option Bytes) :
    (endpoint.handle path scope payload).2 = (endpoint.handler path).2 ∨
    ∃ slot handler after root, endpoint.handler path = (.ok (slot, handler), after) ∧
      (endpoint.handle path scope payload).2 = { after with
        handlers := after.handlers.put slot (handler.handle root (payload.getD []) 0).2 } := by
  unfold handle
  cases hservice : endpoint.service? path.root with
  | none =>
    left
    unfold handler
    rw [hservice]
    cases endpoint.handlers.find? path <;> rfl
  | some service =>
    dsimp only
    cases hresult : endpoint.handler path with
    | mk result after =>
      cases result with
      | error error => exact .inl rfl
      | ok entry =>
        obtain ⟨slot, handler⟩ := entry
        dsimp only
        cases service.resolver scope with
        | none => exact .inl rfl
        | some root => exact .inr ⟨slot, handler, after, root, rfl, rfl⟩

/-- A handler that is found is in its slot, under its path. -/
theorem getElem?_of_handler {slot : Nat} {handler : Handler}
    (h : endpoint.handler path = (.ok (slot, handler), after)) :
    after.handlers.entries[slot]? = some (path, handler) := by
  rcases handler_cases endpoint path with ⟨found, hfound, hsame⟩ | ⟨_, _, hnone⟩ |
    ⟨_, error, _, _, _, hnone⟩ | ⟨_, created, _, _, _, hnew⟩
  · rw [hsame] at h
    cases h
    exact Table.getElem?_of_find? hfound
  · rw [hnone] at h
    cases h
  · rw [hnone] at h
    cases h
  · rw [hnew] at h
    cases h
    simp [Table.push, Table.size]

theorem services_handler (endpoint : Endpoint) (path : ServicePath) :
    (endpoint.handler path).2.services = endpoint.services := by
  rcases handler_cases endpoint path with ⟨_, _, h⟩ | ⟨_, _, h⟩ | ⟨_, _, _, _, _, h⟩ |
    ⟨_, _, _, _, _, h⟩ <;> rw [h]

theorem handler_sound (h : endpoint.Sound registry) (path : ServicePath) :
    (endpoint.handler path).2.Sound registry := by
  rcases handler_cases endpoint path with ⟨_, _, hsame⟩ | ⟨_, _, hnone⟩ | ⟨_, _, _, _, _, hnone⟩ |
    ⟨service, created, _, hservice, hcreate, hnew⟩
  · rw [hsame]
    exact h
  · rw [hnone]
    exact h
  · rw [hnone]
    exact h
  · rw [hnew]
    refine ⟨h.sameRegistry, fun other handler hmem => ?_⟩
    rcases Table.mem_push.mp hmem with hmem | hlast
    · exact h.handlers other handler hmem
    · cases hlast
      rw [h.sameRegistry] at hcreate
      exact ⟨service, hservice, Handler.sound_of_create hcreate⟩

/-- The handler that is found is made for the service of its root. -/
theorem sound_of_handler (h : endpoint.Sound registry) {slot : Nat} {handler : Handler}
    (hhandler : endpoint.handler path = (.ok (slot, handler), after)) :
    ∃ service, endpoint.service? path.root = some service ∧
      handler.Sound registry service.description path := by
  have hafter := handler_sound h path
  have hservices := services_handler endpoint path
  rw [hhandler] at hafter hservices
  obtain ⟨service, hservice, hsound⟩ :=
    hafter.handlers path handler (List.mem_of_getElem? (getElem?_of_handler hhandler))
  unfold service? at hservice ⊢
  rw [hservices] at hservice
  exact ⟨service, hservice, hsound⟩

theorem handle_sound (h : endpoint.Sound registry) (path : ServicePath) (scope : Option String)
    (payload : Option Bytes) : (endpoint.handle path scope payload).2.Sound registry := by
  have hafter := handler_sound h path
  rcases handle_cases endpoint path scope payload with hsame | ⟨slot, handler, after, root, hhandler, hput⟩
  · rw [hsame]
    exact hafter
  · rw [hhandler] at hafter
    rw [hput]
    -- The handler is put back into the slot where it was found, under its own path.
    have hentry := getElem?_of_handler hhandler
    obtain ⟨known, hknown, hsound⟩ :=
      hafter.handlers path handler (List.mem_of_getElem? hentry)
    refine ⟨hafter.sameRegistry, fun other kept hmem => ?_⟩
    rcases Table.mem_of_mem_put hmem with hmem | ⟨former, hformer, hkept⟩
    · exact hafter.handlers other kept hmem
    · rw [hentry] at hformer
      cases hformer
      rw [show kept = _ from hkept]
      exact ⟨known, hknown, hsound.handle root (payload.getD []) 0⟩

theorem Reached.sound (h : endpoint.Reached registry) : endpoint.Sound registry := by
  induction h with
  | fresh => exact ⟨rfl, nofun⟩
  | registered _ hs ih =>
    have hsame := hs
    unfold register at hs
    split at hs
    · cases hs
    · cases hs
      refine ⟨ih.sameRegistry, fun path handler hmem => ?_⟩
      obtain ⟨service, hservice, hsound⟩ := ih.handlers path handler hmem
      exact ⟨service, service?_of_register hsame hservice, hsound⟩
  | asked _ path ih => exact handler_sound ih path
  | served _ path scope payload ih => exact handle_sound ih path scope payload

theorem exists_handler (h : endpoint.Sound registry) {service : RegisteredService}
    (hservice : endpoint.service? path.root = some service) {leaf : ServiceDescription}
    {method : MethodDescription} (hresolve : service.description.resolve path = .ok (leaf, method))
    (hbuild : method.isGeneric = false →
      ∃ built, ConcreteHandler.build registry path method [] = .ok built) :
    ∃ slot handler after, endpoint.handler path = (.ok (slot, handler), after) ∧
      handler.Sound registry service.description path := by
  have hfound : ∃ slot handler after, endpoint.handler path = (.ok (slot, handler), after) := by
    rcases handler_cases endpoint path with ⟨found, _, hsame⟩ | ⟨_, hnone, _⟩ |
      ⟨known, error, _, hknown, hcreate, _⟩ | ⟨_, created, _, _, _, hnew⟩
    · exact ⟨found.1, found.2, endpoint, hsame⟩
    · rw [hservice] at hnone
      cases hnone
    · rw [hservice] at hknown
      cases hknown
      obtain ⟨handler, hhandler⟩ := (Handler.exists_create_iff _ hresolve).mpr hbuild
      rw [h.sameRegistry, hhandler] at hcreate
      cases hcreate
    · exact ⟨_, created, _, hnew⟩
  obtain ⟨slot, handler, after, hhandler⟩ := hfound
  obtain ⟨known, hknown, hsound⟩ := sound_of_handler h hhandler
  rw [hservice] at hknown
  cases hknown
  exact ⟨slot, handler, after, hhandler, hsound⟩

end Endpoint

end Remoting
