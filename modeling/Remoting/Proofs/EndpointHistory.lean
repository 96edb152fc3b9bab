import Mathlib
import Remoting.Proofs.FreshAnswers
import Remoting.Proofs.KeptEntries
import Remoting.Proofs.LoopbackAgreement

/-! Histories of an endpoint. Of all that an endpoint has done, only the registrations that have
succeeded show in its answers. -/

namespace Remoting

namespace Endpoint

inductive Operation
  | register (service : RegisteredService)
  | handler (path : ServicePath)
  | handle (path : ServicePath) (scope : Option String) (payload : Option Bytes)

def Operation.path? : Operation → Option ServicePath
  | register _ => none
  | handler path | handle path _ _ => some path

/-- The endpoint after an operation. A registration that fails leaves the endpoint that it was
given. -/
def step (endpoint : Endpoint) : Operation → Endpoint
  | .register service => (endpoint.register service).toOption.getD endpoint
  | .handler path => (endpoint.handler path).2
  | .handle path scope payload => (endpoint.handle path scope payload).2

def after (endpoint : Endpoint) (history : List Operation) : Endpoint :=
  history.foldl step endpoint

def ofHistory (registry : Registry) (history : List Operation) : Endpoint :=
  (ofRegistry registry).after history

/-- The services whose registration succeeds in the course of a history. -/
def registrations (endpoint : Endpoint) : List Operation → List RegisteredService
  | [] => []
  | .register service :: history =>
    match endpoint.register service with
    | .ok registered => service :: registrations registered history
    | .error _ => registrations endpoint history
  | operation :: history => registrations (endpoint.step operation) history

/-- The services whose registration succeeds in a history from the start. -/
def registered (registry : Registry) (history : List Operation) : List RegisteredService :=
  (ofRegistry registry).registrations history

/-- A fresh endpoint after nothing but registrations. -/
def ofRegistrations (registry : Registry) (services : List RegisteredService) : Endpoint :=
  ofHistory registry (services.map .register)

/-- A handler for the path could be made from what is registered. -/
def Creates (endpoint : Endpoint) (path : ServicePath) : Prop :=
  ∃ service handler, endpoint.service? path.root = some service ∧
    Handler.create endpoint.registry service.description path = .ok handler

/-- The paths that were asked for when a handler for them could be made. -/
def createdPaths (registry : Registry) (history : List Operation) : Set ServicePath :=
  {path | ∃ before operation behind, history = before ++ operation :: behind ∧
    operation.path? = some path ∧ (ofHistory registry before).Creates path}

variable {registry : Registry} {endpoint other : Endpoint} {history : List Operation}

theorem after_append (endpoint : Endpoint) (history later : List Operation) :
    endpoint.after (history ++ later) = (endpoint.after history).after later :=
  List.foldl_append

theorem ofHistory_append (registry : Registry) (history later : List Operation) :
    ofHistory registry (history ++ later) = (ofHistory registry history).after later :=
  after_append _ _ _

theorem Reached.step (h : endpoint.Reached registry) (operation : Operation) :
    (endpoint.step operation).Reached registry := by
  cases operation with
  | register service =>
    rw [Endpoint.step]
    cases hs : endpoint.register service with
    | error error => exact h
    | ok registered => exact .registered h hs
  | handler path => exact .asked h path
  | handle path scope payload => exact .served h path scope payload

theorem Reached.after (h : endpoint.Reached registry) (history : List Operation) :
    (endpoint.after history).Reached registry := by
  induction history generalizing endpoint with
  | nil => exact h
  | cons operation history ih => exact ih (h.step operation)

theorem reached_ofHistory (registry : Registry) (history : List Operation) :
    (ofHistory registry history).Reached registry :=
  Reached.fresh.after history

section Steps

theorem register_eq (endpoint : Endpoint) (service : RegisteredService) :
    endpoint.register service =
      if service.description.name ∈ endpoint.services.keys then .error ⟨service.description.name⟩
      else .ok { endpoint with
        services := endpoint.services.push service.description.name service } := by
  unfold register
  cases hfind : endpoint.services.find? service.description.name with
  | none => rw [if_neg (Table.find?_eq_none_iff.mp hfind)]
  | some found =>
    have hmem : service.description.name ∈ endpoint.services.keys :=
      List.mem_map_of_mem (Table.mem_of_find? hfind)
    rw [if_pos hmem]

theorem step_register (endpoint : Endpoint) (service : RegisteredService) :
    endpoint.step (.register service) =
      if service.description.name ∈ endpoint.services.keys then endpoint
      else { endpoint with
        services := endpoint.services.push service.description.name service } := by
  rw [step, register_eq]
  split <;> rfl

theorem registrations_register (endpoint : Endpoint) (service : RegisteredService)
    (history : List Operation) :
    endpoint.registrations (.register service :: history) =
      if service.description.name ∈ endpoint.services.keys then endpoint.registrations history
      else service :: (endpoint.step (.register service)).registrations history := by
  rw [registrations, step, register_eq]
  by_cases h : service.description.name ∈ endpoint.services.keys
  · rw [if_pos h, if_pos h]
  · rw [if_neg h, if_neg h]
    rfl

end Steps

section Services

theorem services_handle (endpoint : Endpoint) (path : ServicePath) (scope : Option String)
    (payload : Option Bytes) :
    (endpoint.handle path scope payload).2.services = endpoint.services := by
  have hservices := services_handler endpoint path
  rcases handle_cases endpoint path scope payload with h | ⟨_, _, _, _, hhandler, h⟩
  · rw [h, hservices]
  · rw [hhandler] at hservices
    rw [h]
    exact hservices

/-- The services are those that were registered, under their own names and in order. -/
theorem entries_services_after (endpoint : Endpoint) (history : List Operation) :
    (endpoint.after history).services.entries = endpoint.services.entries ++
      (endpoint.registrations history).map fun service => (service.description.name, service) := by
  induction history generalizing endpoint with
  | nil => simp [after, registrations]
  | cons operation history ih =>
    have hafter : endpoint.after (operation :: history) = (endpoint.step operation).after history :=
      rfl
    rw [hafter, ih]
    cases operation with
    | register service =>
      rw [registrations_register, step_register]
      split
      · rfl
      · simp [Table.push]
    | handler path =>
      rw [step, services_handler]
      rfl
    | handle path scope payload =>
      rw [step, services_handle]
      rfl

/-- Where the registrations of a history are performed alone, all of them succeed again. -/
theorem registrations_map_register (h : endpoint.services = other.services) :
    other.registrations ((endpoint.registrations history).map .register) =
      endpoint.registrations history := by
  -- Both endpoints have the same services at every step, whatever handlers the first one keeps.
  induction history generalizing endpoint other with
  | nil => rfl
  | cons operation history ih =>
    cases operation with
    | register service =>
      rw [registrations_register]
      by_cases hknown : service.description.name ∈ endpoint.services.keys
      · rw [if_pos hknown]
        exact ih h
      · have hfree := hknown
        rw [h] at hfree
        rw [if_neg hknown, List.map_cons, registrations_register, if_neg hfree]
        refine congrArg _ (ih ?_)
        rw [step_register, step_register, if_neg hknown, if_neg hfree, h]
    | handler path => exact ih ((services_handler endpoint path).trans h)
    | handle path scope payload => exact ih ((services_handle endpoint path scope payload).trans h)

theorem entries_services_ofHistory (registry : Registry) (history : List Operation) :
    (ofHistory registry history).services.entries =
      (registered registry history).map fun service => (service.description.name, service) := by
  rw [ofHistory, entries_services_after]
  rfl

/-- The service of a name is the one that was registered under it. -/
theorem service?_ofHistory (registry : Registry) (history : List Operation) (name : String) :
    (ofHistory registry history).service? name =
      (registered registry history).find? fun service => service.description.name = name := by
  rw [service?, Table.map_snd_find?, entries_services_ofHistory, List.find?_map, Option.map_map]
  exact Option.map_id_apply

theorem mem_keys_services_ofHistory {name : String} :
    name ∈ (ofHistory registry history).services.keys ↔
      ∃ service ∈ registered registry history, service.description.name = name := by
  rw [Table.keys, entries_services_ofHistory]
  simp

theorem service?_eq_none_iff {name : String} :
    endpoint.service? name = none ↔ name ∉ endpoint.services.keys := by
  rw [service?, Option.map_eq_none_iff, Table.find?_eq_none_iff]

theorem service?_step_register {service : RegisteredService}
    (h : endpoint.service? service.description.name = none) :
    (endpoint.step (.register service)).service? service.description.name = some service := by
  have hfree := service?_eq_none_iff.mp h
  rw [step_register, if_neg hfree]
  show Option.map _ (Table.find? (Table.push _ _ _) _) = _
  rw [Table.find?_push_self (Table.find?_eq_none_iff.mpr hfree)]
  rfl

theorem handle_congr (h : endpoint.Sound registry) (h' : other.Sound registry) {path : ServicePath}
    (hs : endpoint.service? path.root = other.service? path.root) (scope : Option String)
    (payload : Option Bytes) :
    (endpoint.handle path scope payload).1 = (other.handle path scope payload).1 := by
  rw [handle_eq_answer h, handle_eq_answer h', hs]

theorem service?_step {name : String} (operation : Operation)
    (h : endpoint.service? name ≠ none ∨ ∀ service, operation ≠ .register service) :
    (endpoint.step operation).service? name = endpoint.service? name := by
  unfold service?
  cases operation with
  | register service =>
    have hknown := h.resolve_right fun hnot => hnot service rfl
    rw [step_register]
    split
    · rfl
    · obtain ⟨found, hfound⟩ := Option.ne_none_iff_exists'.mp fun hnone =>
        hknown (Option.map_eq_none_iff.mpr hnone)
      rw [hfound]
      exact congrArg _ (Table.find?_push_of_find? hfound _ _)
  | handler path => rw [step, services_handler]
  | handle path scope payload => rw [step, services_handle]

/-- A service that is registered stays, and none appears without a registration. -/
theorem service?_after {name : String} (later : List Operation)
    (h : endpoint.service? name ≠ none ∨ ∀ service, .register service ∉ later) :
    (endpoint.after later).service? name = endpoint.service? name := by
  induction later generalizing endpoint with
  | nil => rfl
  | cons operation later ih =>
    have hstep : (endpoint.step operation).service? name = endpoint.service? name := by
      refine service?_step operation (h.imp_right fun hnone service hsame => ?_)
      exact hnone service (hsame ▸ List.mem_cons_self)
    rw [← hstep]
    refine ih (h.imp (fun hknown => hstep ▸ hknown) fun hnone service hmem => ?_)
    exact hnone service (List.mem_cons_of_mem operation hmem)

end Services

section Handlers

theorem handler_of_find? {path : ServicePath} {found : Nat × Handler}
    (h : endpoint.handlers.find? path = some found) :
    endpoint.handler path = (.ok found, endpoint) := by
  rw [handler, h]

/-- A handler that is found is kept under its path. -/
theorem find?_of_handler {after : Endpoint} {path : ServicePath} {found : Nat × Handler}
    (h : endpoint.handler path = (.ok found, after)) : after.handlers.find? path = some found := by
  rcases handler_cases endpoint path with ⟨known, hknown, hsame⟩ | ⟨_, _, hnone⟩ |
    ⟨_, error, _, _, _, hnone⟩ | ⟨_, created, hfree, _, _, hnew⟩
  · rw [hsame] at h
    cases h
    exact hknown
  · rw [hnone] at h
    cases h
  · rw [hnone] at h
    cases h
  · rw [hnew] at h
    cases h
    exact Table.find?_push_self hfree created

theorem find?_handler {path : ServicePath} {found : Nat × Handler}
    (h : endpoint.handlers.find? path = some found) (asked : ServicePath) :
    (endpoint.handler asked).2.handlers.find? path = some found := by
  rcases handler_cases endpoint asked with ⟨_, _, hsame⟩ | ⟨_, _, hnone⟩ |
    ⟨_, _, _, _, _, hnone⟩ | ⟨_, created, _, _, _, hnew⟩
  · rw [hsame]
    exact h
  · rw [hnone]
    exact h
  · rw [hnone]
    exact h
  · rw [hnew]
    exact Table.find?_push_of_find? h asked created

/-- Once a handler is kept it stays in its slot, and only its specializations grow. -/
theorem find?_step {path : ServicePath} {slot : Nat} {handler : Handler}
    (h : endpoint.handlers.find? path = some (slot, handler)) (operation : Operation) :
    ∃ handler', (endpoint.step operation).handlers.find? path = some (slot, handler') ∧
      handler'.bare = handler.bare := by
  cases operation with
  | register service =>
    rw [step_register]
    split <;> exact ⟨handler, h, rfl⟩
  | handler asked => exact ⟨handler, find?_handler h asked, rfl⟩
  | handle asked scope payload =>
    have hkept := find?_handler h asked
    rw [step]
    rcases handle_cases endpoint asked scope payload with
      hsame | ⟨place, served, after, root, hserved, hput⟩
    · rw [hsame]
      exact ⟨handler, hkept, rfl⟩
    · rw [hserved] at hkept
      rw [hput]
      refine ⟨_, Table.find?_put_of_find? hkept place _, ?_⟩
      by_cases hplace : place = slot
      · -- The slot holds one handler, so the one that has served is the one that is kept.
        subst hplace
        have hentry := Table.getElem?_of_find? (find?_of_handler hserved)
        rw [Table.getElem?_of_find? hkept] at hentry
        cases hentry
        rw [if_pos rfl]
        exact Handler.bare_handle _ _ _ _
      · rw [if_neg hplace]

theorem find?_after {path : ServicePath} {slot : Nat} {handler : Handler}
    (h : endpoint.handlers.find? path = some (slot, handler)) (later : List Operation) :
    ∃ handler', (endpoint.after later).handlers.find? path = some (slot, handler') ∧
      handler'.bare = handler.bare := by
  induction later generalizing endpoint handler with
  | nil => exact ⟨handler, h, rfl⟩
  | cons operation later ih =>
    obtain ⟨next, hnext, hbare⟩ := find?_step h operation
    obtain ⟨last, hlast, hsame⟩ := ih hnext
    exact ⟨last, hlast, hsame.trans hbare⟩

theorem keys_handler (endpoint : Endpoint) (path : ServicePath) :
    (endpoint.handler path).2.handlers.keys = endpoint.handlers.keys ∧
        (path ∈ endpoint.handlers.keys ∨ ¬endpoint.Creates path) ∨
      (endpoint.handler path).2.handlers.keys = endpoint.handlers.keys ++ [path] ∧
        path ∉ endpoint.handlers.keys ∧ endpoint.Creates path := by
  rcases handler_cases endpoint path with ⟨found, hfound, hsame⟩ | ⟨_, hunknown, hnone⟩ |
    ⟨service, error, _, hservice, hcreate, hnone⟩ |
    ⟨service, created, hfree, hservice, hcreate, hnew⟩
  · rw [hsame]
    exact .inl ⟨rfl, .inl (List.mem_map_of_mem (Table.mem_of_find? hfound))⟩
  · rw [hnone]
    refine .inl ⟨rfl, .inr ?_⟩
    rintro ⟨known, _, hknown, _⟩
    rw [hunknown] at hknown
    cases hknown
  · rw [hnone]
    refine .inl ⟨rfl, .inr ?_⟩
    rintro ⟨known, created, hknown, hcreated⟩
    rw [hservice] at hknown
    cases hknown
    rw [hcreate] at hcreated
    cases hcreated
  · rw [hnew]
    exact .inr ⟨Table.keys_push _ _ _, Table.find?_eq_none_iff.mp hfree, service, created, hservice,
      hcreate⟩

theorem keys_handle (endpoint : Endpoint) (path : ServicePath) (scope : Option String)
    (payload : Option Bytes) : (endpoint.handle path scope payload).2.handlers.keys =
      (endpoint.handler path).2.handlers.keys := by
  rcases handle_cases endpoint path scope payload with h | ⟨slot, handler, after, root, hhandler, h⟩
  · rw [h]
  · rw [h, hhandler]
    exact Table.keys_put _ _ _

/-- An operation adds the handler of the path that it asks for, where there is none yet and one can
be made. -/
theorem keys_step (endpoint : Endpoint) (operation : Operation) :
    (endpoint.step operation).handlers.keys = endpoint.handlers.keys ∧
        (∀ path, operation.path? = some path →
          path ∈ endpoint.handlers.keys ∨ ¬endpoint.Creates path) ∨
      ∃ path, operation.path? = some path ∧
        (endpoint.step operation).handlers.keys = endpoint.handlers.keys ++ [path] ∧
        path ∉ endpoint.handlers.keys ∧ endpoint.Creates path := by
  have hasked : ∀ asked, (endpoint.handler asked).2.handlers.keys = endpoint.handlers.keys ∧
        (∀ path, some asked = some path → path ∈ endpoint.handlers.keys ∨ ¬endpoint.Creates path) ∨
      ∃ path, some asked = some path ∧
        (endpoint.handler asked).2.handlers.keys = endpoint.handlers.keys ++ [path] ∧
        path ∉ endpoint.handlers.keys ∧ endpoint.Creates path := fun asked =>
    (keys_handler endpoint asked).imp
      (fun h => ⟨h.1, fun path hpath => Option.some.inj hpath ▸ h.2⟩) fun h => ⟨asked, rfl, h⟩
  cases operation with
  | register service =>
    refine .inl ⟨?_, nofun⟩
    rw [step_register]
    split <;> rfl
  | handler path => exact hasked path
  | handle path scope payload =>
    rw [step, keys_handle]
    exact hasked path

theorem keys_ofHistory (registry : Registry) (history : List Operation) :
    (ofHistory registry history).handlers.keys.Nodup ∧
      ∀ path, path ∈ (ofHistory registry history).handlers.keys ↔
        path ∈ createdPaths registry history := by
  induction history using List.reverseRecOn with
  | nil =>
    exact ⟨List.nodup_nil, fun path => iff_of_false List.not_mem_nil not_exists_step_nil⟩
  | append_singleton history operation ih =>
    obtain ⟨hnodup, hkeys⟩ := ih
    have hlast : ∀ path, path ∈ createdPaths registry (history ++ [operation]) ↔
        path ∈ createdPaths registry history ∨
          operation.path? = some path ∧ (ofHistory registry history).Creates path :=
      fun path => exists_step_append_singleton_iff
    rw [ofHistory_append]
    show ((ofHistory registry history).step operation).handlers.keys.Nodup ∧ ∀ path,
      path ∈ ((ofHistory registry history).step operation).handlers.keys ↔ _
    rcases keys_step (ofHistory registry history) operation with
      ⟨hsame, hnot⟩ | ⟨path, hpath, hnew, hfree, hcreates⟩
    · rw [hsame]
      refine ⟨hnodup, fun path => ?_⟩
      rw [hlast, ← hkeys]
      refine ⟨.inl, fun h => h.elim id fun ⟨hasked, hcreates⟩ => ?_⟩
      exact (hnot path hasked).resolve_right (not_not.mpr hcreates)
    · rw [hnew, ← List.concat_eq_append]
      refine ⟨hnodup.concat hfree, fun other => ?_⟩
      rw [hlast, List.concat_eq_append, List.mem_append, hkeys, List.mem_singleton]
      refine or_congr Iff.rfl ⟨?_, fun h => ?_⟩
      · rintro rfl
        exact ⟨hpath, hcreates⟩
      · rw [hpath] at h
        exact (Option.some.inj h.1).symm

theorem handlerCount_ofHistory (registry : Registry) (history : List Operation) :
    (ofHistory registry history).handlerCount = (createdPaths registry history).ncard := by
  obtain ⟨hnodup, hkeys⟩ := keys_ofHistory registry history
  rw [handlerCount, Table.size_eq_ncard hnodup]
  exact congrArg Set.ncard (Set.ext hkeys)

/-- The handler of a path stays in its slot, which no other path ever has. -/
theorem handler_after {path : ServicePath} {slot : Nat} {handler : Handler}
    (h : (endpoint.handler path).1 = .ok (slot, handler)) (later : List Operation) :
    (∃ same, (((endpoint.step (.handler path)).after later).handler path).1 = .ok (slot, same) ∧
      same.bare = handler.bare) ∧
    ∀ other found, (((endpoint.step (.handler path)).after later).handler other).1 =
      .ok (slot, found) → other = path := by
  have hkept : (endpoint.step (.handler path)).handlers.find? path = some (slot, handler) :=
    find?_of_handler (Prod.ext h rfl)
  obtain ⟨same, hsame, hbare⟩ := find?_after hkept later
  refine ⟨⟨same, by rw [handler_of_find? hsame], hbare⟩, fun other found hother => ?_⟩
  have hfound := find?_of_handler (Prod.ext hother rfl)
  exact (Table.slot_eq_iff hfound (find?_handler hsame other)).mp rfl

end Handlers

section Answers

theorem handle_ofRegistrations (registry : Registry) (history : List Operation)
    (path : ServicePath) (scope : Option String) (payload : Option Bytes) :
    ((ofHistory registry history).handle path scope payload).1 =
      ((ofRegistrations registry (registered registry history)).handle path scope payload).1 := by
  refine handle_congr (reached_ofHistory _ _).sound (reached_ofHistory _ _).sound ?_ scope payload
  have hsame : registered registry ((registered registry history).map .register) =
      registered registry history := registrations_map_register rfl
  rw [service?_ofHistory, service?_ofHistory, hsame]

theorem handle_after (h : endpoint.Reached registry) {path : ServicePath} (later : List Operation)
    (hlater : endpoint.service? path.root ≠ none ∨ ∀ service, .register service ∉ later)
    (scope : Option String) (payload : Option Bytes) :
    ((endpoint.after later).handle path scope payload).1 = (endpoint.handle path scope payload).1 :=
  handle_congr (h.after later).sound h.sound (service?_after later hlater) scope payload

end Answers

theorem endpoint_caches_are_invisible (registry : Registry) (history : List Operation) :
    (∀ path scope payload,
      ((ofHistory registry history).handle path scope payload).1 =
        ((ofRegistrations registry (registered registry history)).handle path scope payload).1 ∧
      ((ofHistory registry history).handle path scope payload).1 =
        answer registry ((registered registry history).find? fun service =>
          service.description.name = path.root) path scope payload) ∧
    registered registry ((registered registry history).map .register) =
      registered registry history ∧
    (∀ service,
      ((ofHistory registry history).register service = .error ⟨service.description.name⟩ ↔
        ∃ earlier ∈ registered registry history,
          earlier.description.name = service.description.name) ∧
      ((∃ earlier ∈ registered registry history,
          earlier.description.name = service.description.name) →
        ofHistory registry (history ++ [.register service]) = ofHistory registry history)) ∧
    (∀ path scope payload service,
      (∀ earlier ∈ registered registry history, earlier.description.name ≠ path.root) →
      service.description.name = path.root →
        ((ofHistory registry history).handle path scope payload).1 =
          ⟨.ofResult (.error (unknownRoot path)), none⟩ ∧
        ((ofHistory registry (history ++ [.handle path scope payload, .register service])).handle
            path scope payload).1 =
          ((ofRegistrations registry [service]).handle path scope payload).1) ∧
    (∀ later path scope payload,
      ((∃ earlier ∈ registered registry history, earlier.description.name = path.root) ∨
        ∀ service, .register service ∉ later) →
      ((ofHistory registry (history ++ later)).handle path scope payload).1 =
        ((ofHistory registry history).handle path scope payload).1) ∧
    (∀ path slot handler, ((ofHistory registry history).handler path).1 = .ok (slot, handler) →
      ∀ later,
        (∃ same, ((ofHistory registry (history ++ .handler path :: later)).handler path).1 =
          .ok (slot, same) ∧ same.bare = handler.bare) ∧
        ∀ other found, ((ofHistory registry (history ++ .handler path :: later)).handler other).1 =
          .ok (slot, found) → other = path) ∧
    (ofHistory registry history).handlerCount = (createdPaths registry history).ncard := by
  have hreached := reached_ofHistory registry history
  have hknown : ∀ name, (ofHistory registry history).service? name ≠ none ↔
      ∃ earlier ∈ registered registry history, earlier.description.name = name := by
    intro name
    rw [ne_eq, service?_eq_none_iff, not_not, mem_keys_services_ofHistory]
  refine ⟨fun path scope payload => ⟨handle_ofRegistrations registry history path scope payload, ?_⟩,
    registrations_map_register rfl, fun service => ⟨?_, fun hearlier => ?_⟩,
    fun path scope payload service hfree hname => ?_, fun later path scope payload hlater => ?_,
    fun path slot handler hhandler later => ?_, handlerCount_ofHistory registry history⟩
  · rw [handle_eq_answer hreached.sound, service?_ofHistory]
  · rw [← mem_keys_services_ofHistory, register_eq]
    split
    · exact iff_of_true rfl ‹_›
    · exact iff_of_false nofun ‹_›
  · rw [ofHistory_append]
    show (ofHistory registry history).step (.register service) = _
    rw [step_register, if_pos (mem_keys_services_ofHistory.mpr hearlier)]
  · have hnone : (ofHistory registry history).service? path.root = none := by
      by_contra hsome
      obtain ⟨earlier, hmem, hsame⟩ := (hknown path.root).mp hsome
      exact hfree earlier hmem hsame
    refine ⟨?_, handle_congr (reached_ofHistory _ _).sound (reached_ofHistory _ _).sound ?_ _ _⟩
    · rw [handle_eq_answer hreached.sound, hnone]
      rfl
    · have hrequest : ∀ service, Operation.handle path scope payload ≠ .register service := nofun
      have hasked : ((ofHistory registry history).step (.handle path scope payload)).service?
          service.description.name = none := by
        rw [hname, service?_step _ (.inr hrequest), hnone]
      have hempty : (ofRegistry registry).service? service.description.name = none := rfl
      rw [ofHistory_append, ← hname]
      exact (service?_step_register hasked).trans (service?_step_register hempty).symm
  · rw [ofHistory_append]
    exact handle_after hreached later (hlater.imp_left (hknown path.root).mpr) _ _
  · rw [ofHistory_append]
    exact handler_after hhandler later

/-- A stall is asked for before its market opens, and the market is opened twice. -/
def marketHistory : List Operation :=
  [.handle Market.swapPath none none, .register Market.market,
    .handle Market.swapPath none (some Market.swapPayload), .register Market.market]

theorem market_opened_late :
    registered .empty marketHistory = [Market.market] ∧
      (ofHistory .empty marketHistory).register Market.market = .error ⟨"Market"⟩ ∧
      ((ofHistory .empty marketHistory).handle Market.swapPath none none).1 =
        ((ofRegistrations .empty [Market.market]).handle Market.swapPath none none).1 ∧
      (ofHistory .empty marketHistory).handlerCount = 1 ∧
      (createdPaths .empty marketHistory).ncard = 1 := by
  obtain ⟨hanswers, _, hregister, _, _, _, hcount⟩ :=
    endpoint_caches_are_invisible .empty marketHistory
  have hregistered : registered .empty marketHistory = [Market.market] := rfl
  have hmem : Market.market ∈ registered .empty marketHistory := by
    rw [hregistered]
    exact List.mem_singleton_self _
  have hone : (ofHistory .empty marketHistory).handlerCount = 1 := rfl
  exact ⟨hregistered, (hregister Market.market).1.mpr ⟨_, hmem, rfl⟩, (hanswers _ none none).1, hone,
    hcount.symm.trans hone⟩

end Endpoint

end Remoting
