import Mathlib
import Remoting.Proofs.FreshAnswers
import Remoting.Proofs.LoopbackAgreement

/-! The ways a request can go, and the status that each is answered with. A malformed request never
reaches an implementation. -/

namespace Remoting

/-- The concrete handler that a request gets, and what of the request is left for it. -/
inductive GenericHandler.Chooses (registry : Registry) (path : ServicePath)
    (method : MethodDescription) (payload : Bytes) : ConcreteHandler → Bytes → Prop
  | concrete {built : ConcreteHandler} (hgeneric : method.isGeneric = false)
      (hbuild : ConcreteHandler.build registry path method [] = .ok built) :
      Chooses registry path method payload built payload
  | generic {specialized : Specialized} {left : Bytes} (hgeneric : method.isGeneric = true)
      (hspecialize : GenericHandler.specialize ⟨path, method, registry, .empty⟩ payload =
        .ok specialized left) :
      Chooses registry path method payload specialized.handler left

namespace Endpoint

/-- The root of the path is registered, and its description leads to the method. -/
structure Routes (endpoint : Endpoint) (path : ServicePath) (service : RegisteredService)
    (method : MethodDescription) : Prop where
  registered : endpoint.service? path.root = some service
  resolved : ∃ place, service.description.resolve path = .ok (place, method)

/-- A handler can be made: that of a generic method always, any other if its types have codecs. -/
def Servable (registry : Registry) (path : ServicePath) (method : MethodDescription) : Prop :=
  method.isGeneric = true ∨ ∃ built, ConcreteHandler.build registry path method [] = .ok built

/-- There is an implementation for the scope, and a handler to serve it. -/
structure Finds (endpoint : Endpoint) (path : ServicePath) (scope : Option String)
    (method : MethodDescription) (root : Implementation) : Prop where
  servable : Servable endpoint.registry path method
  found : ∃ service, endpoint.Routes path service method ∧ service.resolver scope = some root

/-- The request is read to its end as a call of the implementation that the path leads to. -/
def Calls (endpoint : Endpoint) (path : ServicePath) (scope : Option String) (payload : Bytes)
    (built : ConcreteHandler) (leaf : Implementation) (call : MethodCall) : Prop :=
  ∃ method root left values, endpoint.Finds path scope method root ∧
    GenericHandler.Chooses endpoint.registry path method payload built left ∧
    root.descend path.chain = .ok leaf ∧
    fieldValues (built.request.map (·.2)) left = .ok values [] ∧ call = built.callOf values

/-- How a request goes: the status of the response, and the invocation if it comes to one. -/
inductive Course (endpoint : Endpoint) (path : ServicePath) (scope : Option String)
    (payload : Bytes) : ResultStatus → Option Invocation → Prop
  | unknownRoot (h : endpoint.service? path.root = none) :
      Course endpoint path scope payload .methodNotFound none
  | unknownPath {service : RegisteredService} {error : RoutingError}
      (h : endpoint.service? path.root = some service)
      (hresolve : service.description.resolve path = .error error) :
      Course endpoint path scope payload .methodNotFound none
  | unimplemented {service : RegisteredService} {method : MethodDescription}
      (h : endpoint.Routes path service method) (hservable : Servable endpoint.registry path method)
      (hresolver : service.resolver scope = none) :
      Course endpoint path scope payload .methodNotFound none
  | typesRefused {method : MethodDescription} {root : Implementation} {error : DecodeError}
      {left : Bytes} (h : endpoint.Finds path scope method root)
      (hgeneric : method.isGeneric = true)
      (hspecialize : GenericHandler.specialize ⟨path, method, endpoint.registry, .empty⟩ payload =
        .error error left) :
      Course endpoint path scope payload .badRequest none
  | parametersRefused {method : MethodDescription} {root leaf : Implementation}
      {built : ConcreteHandler} {left : Bytes} (h : endpoint.Finds path scope method root)
      (hchooses : GenericHandler.Chooses endpoint.registry path method payload built left)
      (hleaf : root.descend path.chain = .ok leaf)
      (hread : ∀ values, fieldValues (built.request.map (·.2)) left ≠ .ok values []) :
      Course endpoint path scope payload .badRequest none
  | withoutCodecs {service : RegisteredService} {method : MethodDescription}
      (h : endpoint.Routes path service method)
      (hservable : ¬Servable endpoint.registry path method) :
      Course endpoint path scope payload .systemError none
  | withoutSubservice {method : MethodDescription} {root : Implementation}
      {built : ConcreteHandler} {left : Bytes} {name : String}
      (h : endpoint.Finds path scope method root)
      (hchooses : GenericHandler.Chooses endpoint.registry path method payload built left)
      (hleaf : root.descend path.chain = .error name) :
      Course endpoint path scope payload .systemError none
  | failed {built : ConcreteHandler} {leaf : Implementation} {call : MethodCall}
      {error : ImplementationError} (h : endpoint.Calls path scope payload built leaf call)
      (hinvoke : leaf.invoke call = .error error) :
      Course endpoint path scope payload .fail (some ⟨leaf.label, call, false⟩)
  | failedLater {built : ConcreteHandler} {leaf : Implementation} {call : MethodCall}
      {answer : Answer} {error : ImplementationError}
      (h : endpoint.Calls path scope payload built leaf call)
      (hinvoke : leaf.invoke call = .ok answer) (hstyle : built.method.style ≠ .direct)
      (hreply : answer.reply = .pending (.error error)) :
      Course endpoint path scope payload .fail (some ⟨leaf.label, call, true⟩)
  | pendingDirect {built : ConcreteHandler} {leaf : Implementation} {call : MethodCall}
      {answer : Answer} {outcome : Except ImplementationError Value}
      (h : endpoint.Calls path scope payload built leaf call)
      (hinvoke : leaf.invoke call = .ok answer) (hstyle : built.method.style = .direct)
      (hreply : answer.reply = .pending outcome) :
      Course endpoint path scope payload .systemError (some ⟨leaf.label, call, false⟩)
  | unencoded {built : ConcreteHandler} {leaf : Implementation} {call : MethodCall}
      {answer : Answer} {value : Value} {out : WireType × Value}
      (h : endpoint.Calls path scope payload built leaf call)
      (hinvoke : leaf.invoke call = .ok answer)
      (hreply : answer.reply.settled? built.method.style = some value)
      (hmem : out ∈ built.method.sentBack (call.assign answer.assignments).slots value)
      (hout : ¬EncodesAs endpoint.registry built.typeArguments out.1 out.2) :
      Course endpoint path scope payload .systemError
        (some ⟨leaf.label, call, built.awaits answer.reply⟩)
  | answered {built : ConcreteHandler} {leaf : Implementation} {call : MethodCall}
      {answer : Answer} {value : Value} (h : endpoint.Calls path scope payload built leaf call)
      (hinvoke : leaf.invoke call = .ok answer)
      (hreply : answer.reply.settled? built.method.style = some value)
      (hout : ∀ out ∈ built.method.sentBack (call.assign answer.assignments).slots value,
        EncodesAs endpoint.registry built.typeArguments out.1 out.2) :
      Course endpoint path scope payload .success
        (some ⟨leaf.label, call, built.awaits answer.reply⟩)

end Endpoint

namespace GenericHandler

variable {registry : Registry} {path : ServicePath} {method : MethodDescription}
  {payload left : Bytes} {built : ConcreteHandler}

theorem select_of_generic (registry : Registry) (path : ServicePath) (method : MethodDescription)
    (payload : Bytes) : select registry path method payload =
      match specialize ⟨path, method, registry, .empty⟩ payload with
      | .error error left => .error error left
      | .ok specialized left => .ok specialized.handler left := by
  have happly := map_specialize_apply ⟨path, method, registry, .empty⟩ payload
  rw [map_specialize_fresh] at happly
  exact happly

theorem Chooses.select (h : Chooses registry path method payload built left) :
    select registry path method payload = .ok built left := by
  cases h with
  | concrete hgeneric hbuild => rw [select_of_concrete _ _ hgeneric, hbuild]
  | generic hgeneric hspecialize => rw [select_of_generic, hspecialize]

theorem Chooses.exists_build (h : Chooses registry path method payload built left) :
    ∃ arguments, ConcreteHandler.build registry path method arguments = .ok built := by
  obtain ⟨arguments, _, hbuild⟩ := select_eq_ok_iff.mp h.select
  exact ⟨arguments, hbuild⟩

theorem chooses_or_refused (h : Endpoint.Servable registry path method) (payload : Bytes) :
    (∃ built left, Chooses registry path method payload built left) ∨
      method.isGeneric = true ∧
        ∃ error left, specialize ⟨path, method, registry, .empty⟩ payload = .error error left := by
  by_cases hgeneric : method.isGeneric = true
  · cases hs : specialize ⟨path, method, registry, .empty⟩ payload with
    | error error left => exact .inr ⟨hgeneric, error, left, rfl⟩
    | ok specialized left => exact .inl ⟨_, left, .generic hgeneric hs⟩
  · obtain ⟨built, hbuilt⟩ := h.resolve_left hgeneric
    exact .inl ⟨built, payload, .concrete (by simpa using hgeneric) hbuilt⟩

end GenericHandler

namespace ConcreteHandler

variable {registry : Registry} {path : ServicePath} {method : MethodDescription}
  {arguments : List WireType} {handler : ConcreteHandler} {left : Bytes}

theorem execute_of_read {values : List Value}
    (h : fieldValues (handler.request.map (·.2)) left = .ok values []) (leaf : Implementation) :
    handler.execute leaf left =
      match leaf.invoke (handler.callOf values) with
      | .error error =>
        ⟨.error (.implementation error), some ⟨leaf.label, handler.callOf values, false⟩⟩
      | .ok answer => ⟨handler.respond (handler.callOf values) answer,
          some ⟨leaf.label, handler.callOf values, handler.awaits answer.reply⟩⟩ := by
  have hdecode := decodeFields_eq_ok_iff_fieldValues.mpr ⟨rfl, h⟩
  unfold execute
  exact hdecode ▸ rfl

theorem execute_of_unread
    (h : ∀ values, fieldValues (handler.request.map (·.2)) left ≠ .ok values [])
    (leaf : Implementation) :
    ∃ error, handler.execute leaf left = ⟨.error (.decode error), none⟩ := by
  unfold execute
  cases hread : decodeFields (handler.request.map (·.2)) left with
  | error error rest => exact ⟨error, rfl⟩
  | ok values rest => exact absurd (decodeFields_eq_ok_iff_fieldValues.mp hread).2 (h values)

theorem exists_respond_eq (hbuild : build registry path method arguments = .ok handler)
    (call : MethodCall) {answer : Answer} {value : Value}
    (hvalue : answer.reply.settled? handler.method.style = some value) : ∃ codecs,
      List.Forall₂ (fun out codec =>
          Codec.ofOpen registry handler.typeArguments out.1 = .ok codec)
        (handler.method.sentBack (call.assign answer.assignments).slots value) codecs ∧
      handler.respond call answer = encodeResponse (codecs.zip
        ((handler.method.sentBack (call.assign answer.assignments).slots value).map (·.2))) := by
  obtain ⟨request, response, result, hcodecs, rfl⟩ := build_eq_ok_iff.mp hbuild
  exact ⟨_, hcodecs.sentBack _ value, respond_of_settled hcodecs rfl rfl rfl hvalue⟩

theorem exists_encodeResponse_iff {fields : List Field} :
    (∃ payload, encodeResponse fields = .ok payload) ↔
      ∃ payload, encodeFields fields = .ok payload := by
  unfold encodeResponse
  cases encodeFields fields with
  | error error => exact iff_of_false nofun nofun
  | ok payload => exact iff_of_true ⟨payload, rfl⟩ ⟨payload, rfl⟩

/-- There is a response to an answered call exactly where all that it sends back can be encoded. -/
theorem exists_respond_iff (hbuild : build registry path method arguments = .ok handler)
    (call : MethodCall) {answer : Answer} {value : Value}
    (hvalue : answer.reply.settled? handler.method.style = some value) :
    (∃ payload, handler.respond call answer = .ok payload) ↔
      ∀ out ∈ handler.method.sentBack (call.assign answer.assignments).slots value,
        EncodesAs registry handler.typeArguments out.1 out.2 := by
  obtain ⟨codecs, hcodecs, hrespond⟩ := exists_respond_eq hbuild call hvalue
  rw [hrespond, exists_encodeResponse_iff, exists_encodeFields_zip_iff hcodecs]

theorem status_of_respond_error (hbuild : build registry path method arguments = .ok handler)
    (call : MethodCall) {answer : Answer} {value : Value}
    (hvalue : answer.reply.settled? handler.method.style = some value) {error : DispatchError}
    (h : handler.respond call answer = .error error) : error.status = .systemError := by
  obtain ⟨codecs, _, hrespond⟩ := exists_respond_eq hbuild call hvalue
  rw [hrespond, encodeResponse] at h
  split at h
  · cases h
  · cases h
    rfl

theorem respond_of_failed {call : MethodCall} {answer : Answer} {error : ImplementationError}
    (hstyle : handler.method.style ≠ .direct) (hreply : answer.reply = .pending (.error error)) :
    handler.respond call answer = .error (.implementation error) := by
  unfold respond
  rw [hreply]
  cases hs : handler.method.style with
  | direct => exact absurd hs hstyle
  | asyncVoid => rfl
  | asyncValue => rfl

theorem respond_of_pending {call : MethodCall} {answer : Answer}
    {outcome : Except ImplementationError Value} (hstyle : handler.method.style = .direct)
    (hreply : answer.reply = .pending outcome) :
    handler.respond call answer = .error (.replyMismatch handler.method.name .direct) := by
  unfold respond
  rw [hreply, hstyle]

end ConcreteHandler

namespace Handler

variable {registry : Registry} {description : ServiceDescription} {path : ServicePath}
  {method : MethodDescription} {payload left : Bytes} {built : ConcreteHandler}

theorem create_of_servable (h : Endpoint.Servable registry path method)
    {place : ServiceDescription} (hresolve : description.resolve path = .ok (place, method)) :
    ∃ handler, create registry description path = .ok handler :=
  (exists_create_iff registry hresolve).mpr fun hgeneric => h.resolve_left (by simp [hgeneric])

theorem create_of_not_servable (h : ¬Endpoint.Servable registry path method)
    {place : ServiceDescription} (hresolve : description.resolve path = .ok (place, method)) :
    ∃ error, create registry description path = .error (.codec error) := by
  obtain ⟨hgeneric, hbuild⟩ := not_or.mp h
  rw [create_of_concrete registry hresolve (Bool.eq_false_iff.mpr hgeneric)]
  cases hbuilt : ConcreteHandler.build registry path method [] with
  | error error => exact ⟨error, rfl⟩
  | ok built => exact absurd ⟨built, hbuilt⟩ hbuild

theorem serve_of_chooses (h : GenericHandler.Chooses registry path method payload built left)
    (root : Implementation) : serve registry path method root payload =
      match root.descend path.chain with
      | .error name => ⟨.error (.subserviceUnavailable path.format name), none⟩
      | .ok leaf => built.execute leaf left := by
  have hpath : built.path = path := by
    obtain ⟨arguments, hbuild⟩ := h.exists_build
    obtain ⟨_, _, _, _, rfl⟩ := ConcreteHandler.build_eq_ok_iff.mp hbuild
    rfl
  rw [serve, h.select]
  dsimp only [run, leaf]
  rw [hpath]
  cases root.descend path.chain <;> rfl

end Handler

namespace Endpoint

variable {endpoint : Endpoint} {path : ServicePath} {scope : Option String} {payload : Option Bytes}
  {method : MethodDescription} {root leaf : Implementation} {built : ConcreteHandler}
  {call : MethodCall}

theorem answer_of_finds (h : endpoint.Finds path scope method root) (payload : Option Bytes) :
    answer endpoint.registry (endpoint.service? path.root) path scope payload =
      ⟨.ofResult (Handler.serve endpoint.registry path method root (payload.getD [])).result,
        (Handler.serve endpoint.registry path method root (payload.getD [])).invocation⟩ := by
  obtain ⟨service, hroutes, hresolver⟩ := h.found
  obtain ⟨place, hresolve⟩ := hroutes.resolved
  obtain ⟨handler, hcreate⟩ := Handler.create_of_servable h.servable hresolve
  simp only [answer, hroutes.registered, hcreate, hresolver,
    Handler.handle_of_create hcreate hresolve]

theorem answer_of_calls (h : endpoint.Calls path scope (payload.getD []) built leaf call) :
    answer endpoint.registry (endpoint.service? path.root) path scope payload =
      match leaf.invoke call with
      | .error error =>
        ⟨.ofResult (.error (.implementation error)), some ⟨leaf.label, call, false⟩⟩
      | .ok answer => ⟨.ofResult (built.respond call answer),
          some ⟨leaf.label, call, built.awaits answer.reply⟩⟩ := by
  obtain ⟨method, root, left, values, hfinds, hchooses, hleaf, hread, rfl⟩ := h
  rw [answer_of_finds hfinds, Handler.serve_of_chooses hchooses, hleaf]
  dsimp only
  rw [ConcreteHandler.execute_of_read hread]
  cases leaf.invoke (built.callOf values) <;> rfl

theorem Calls.exists_build {payload : Bytes}
    (h : endpoint.Calls path scope payload built leaf call) :
    ∃ method arguments,
      ConcreteHandler.build endpoint.registry path method arguments = .ok built := by
  obtain ⟨method, _, _, _, _, hchooses, _⟩ := h
  exact ⟨method, hchooses.exists_build⟩

/-- Each way that a request can go ends in its status, and invokes what it says. -/
theorem Course.status_eq {status : ResultStatus} {invocation : Option Invocation}
    (h : endpoint.Course path scope (payload.getD []) status invocation) :
    (answer endpoint.registry (endpoint.service? path.root) path scope payload).response.status =
        status ∧
      (answer endpoint.registry (endpoint.service? path.root) path scope payload).invocation =
        invocation := by
  cases h with
  | unknownRoot h =>
    unfold answer
    rw [h]
    exact ⟨rfl, rfl⟩
  | unknownPath h hresolve =>
    have hcreate := Handler.create_of_unresolved endpoint.registry hresolve
    unfold answer
    rw [h]
    dsimp only
    rw [hcreate]
    exact ⟨rfl, rfl⟩
  | unimplemented h hservable hresolver =>
    obtain ⟨place, hresolve⟩ := h.resolved
    obtain ⟨handler, hcreate⟩ := Handler.create_of_servable hservable hresolve
    unfold answer
    rw [h.registered]
    dsimp only
    rw [hcreate]
    dsimp only
    rw [hresolver]
    exact ⟨rfl, rfl⟩
  | withoutCodecs h hservable =>
    obtain ⟨place, hresolve⟩ := h.resolved
    obtain ⟨error, hcreate⟩ := Handler.create_of_not_servable hservable hresolve
    unfold answer
    rw [h.registered]
    dsimp only
    rw [hcreate]
    exact ⟨rfl, rfl⟩
  | typesRefused h hgeneric hspecialize =>
    rw [answer_of_finds h, Handler.serve, GenericHandler.select_of_generic, hspecialize]
    exact ⟨rfl, rfl⟩
  | withoutSubservice h hchooses hleaf =>
    rw [answer_of_finds h, Handler.serve_of_chooses hchooses, hleaf]
    exact ⟨rfl, rfl⟩
  | @parametersRefused method root leaf built left h hchooses hleaf hread =>
    obtain ⟨error, hunread⟩ := ConcreteHandler.execute_of_unread hread leaf
    rw [answer_of_finds h, Handler.serve_of_chooses hchooses, hleaf]
    dsimp only
    rw [hunread]
    exact ⟨rfl, rfl⟩
  | failed h hinvoke =>
    rw [answer_of_calls h, hinvoke]
    exact ⟨rfl, rfl⟩
  | failedLater h hinvoke hstyle hreply =>
    rw [answer_of_calls h, hinvoke]
    dsimp only
    rw [ConcreteHandler.respond_of_failed hstyle hreply, hreply]
    exact ⟨rfl, congrArg _ (by simp [ConcreteHandler.awaits, hstyle])⟩
  | pendingDirect h hinvoke hstyle hreply =>
    rw [answer_of_calls h, hinvoke]
    dsimp only
    rw [ConcreteHandler.respond_of_pending hstyle hreply, hreply]
    exact ⟨rfl, congrArg _ (by simp [ConcreteHandler.awaits, hstyle])⟩
  | @unencoded built leaf call answer value out h hinvoke hreply hmem hout =>
    obtain ⟨method, arguments, hbuild⟩ := h.exists_build
    rw [answer_of_calls h, hinvoke]
    refine ⟨?_, rfl⟩
    dsimp only
    -- A response would say that everything sent back can be encoded.
    cases hrespond : built.respond call answer with
    | error error => exact ConcreteHandler.status_of_respond_error hbuild call hreply hrespond
    | ok payload =>
      have hencodes := (ConcreteHandler.exists_respond_iff hbuild call hreply).mp ⟨payload, hrespond⟩
      exact absurd (hencodes out hmem) hout
  | @answered built leaf call answer value h hinvoke hreply hout =>
    obtain ⟨method, arguments, hbuild⟩ := h.exists_build
    obtain ⟨payload, hrespond⟩ := (ConcreteHandler.exists_respond_iff hbuild call hreply).mpr hout
    rw [answer_of_calls h, hinvoke]
    dsimp only
    rw [hrespond]
    exact ⟨rfl, rfl⟩

theorem exists_course_of_calls {payload : Bytes}
    (h : endpoint.Calls path scope payload built leaf call) :
    ∃ status invocation, endpoint.Course path scope payload status invocation := by
  cases hinvoke : leaf.invoke call with
  | error error => exact ⟨_, _, .failed h hinvoke⟩
  | ok answer =>
    cases hsettled : answer.reply.settled? built.method.style with
    | some value =>
      by_cases hout : ∀ out ∈ built.method.sentBack (call.assign answer.assignments).slots value,
          EncodesAs endpoint.registry built.typeArguments out.1 out.2
      · exact ⟨_, _, .answered h hinvoke hsettled hout⟩
      · obtain ⟨out, hmem, hnot⟩ := not_forall₂.mp hout
        exact ⟨_, _, .unencoded h hinvoke hsettled hmem hnot⟩
    | none =>
      cases hreply : answer.reply with
      | value value =>
        rw [hreply] at hsettled
        cases hsettled
      | pending outcome =>
        by_cases hstyle : built.method.style = .direct
        · exact ⟨_, _, .pendingDirect h hinvoke hstyle hreply⟩
        · cases outcome with
          | error error => exact ⟨_, _, .failedLater h hinvoke hstyle hreply⟩
          | ok value =>
            rw [hreply, Reply.settled?, if_neg hstyle] at hsettled
            cases hsettled

theorem exists_course_of_finds (h : endpoint.Finds path scope method root) (payload : Bytes) :
    ∃ status invocation, endpoint.Course path scope payload status invocation := by
  rcases GenericHandler.chooses_or_refused h.servable payload with
    ⟨built, left, hchooses⟩ | ⟨hgeneric, error, left, hrefused⟩
  · cases hleaf : root.descend path.chain with
    | error name => exact ⟨_, _, .withoutSubservice h hchooses hleaf⟩
    | ok leaf =>
      by_cases hread : ∃ values, fieldValues (built.request.map (·.2)) left = .ok values []
      · obtain ⟨values, hvalues⟩ := hread
        exact exists_course_of_calls ⟨method, root, left, values, h, hchooses, hleaf, hvalues, rfl⟩
      · exact ⟨_, _, .parametersRefused h hchooses hleaf (not_exists.mp hread)⟩
  · exact ⟨_, _, .typesRefused h hgeneric hrefused⟩

theorem exists_course (endpoint : Endpoint) (path : ServicePath) (scope : Option String)
    (payload : Bytes) :
    ∃ status invocation, endpoint.Course path scope payload status invocation := by
  cases hservice : endpoint.service? path.root with
  | none => exact ⟨_, _, .unknownRoot hservice⟩
  | some service =>
    cases hresolve : service.description.resolve path with
    | error error => exact ⟨_, _, .unknownPath hservice hresolve⟩
    | ok found =>
      obtain ⟨place, method⟩ := found
      have hroutes : endpoint.Routes path service method := ⟨hservice, place, hresolve⟩
      by_cases hservable : Servable endpoint.registry path method
      · cases hresolver : service.resolver scope with
        | none => exact ⟨_, _, .unimplemented hroutes hservable hresolver⟩
        | some root => exact exists_course_of_finds ⟨hservable, service, hroutes, hresolver⟩ payload
      · exact ⟨_, _, .withoutCodecs hroutes hservable⟩

theorem response_status_exact {registry : Registry} {endpoint : Endpoint}
    (h : endpoint.Reached registry) (path : ServicePath) (scope : Option String)
    (payload : Option Bytes) :
    (∀ status invocation, endpoint.Course path scope (payload.getD []) status invocation ↔
      (endpoint.handle path scope payload).1.response.status = status ∧
        (endpoint.handle path scope payload).1.invocation = invocation) ∧
    ((endpoint.handle path scope payload).1.response.status = .methodNotFound ∨
        (endpoint.handle path scope payload).1.response.status = .badRequest →
      (endpoint.handle path scope payload).1.invocation = none) := by
  have hsound := h.sound
  obtain rfl := hsound.sameRegistry
  rw [handle_eq_answer hsound]
  obtain ⟨status, invocation, hcourse⟩ := exists_course endpoint path scope (payload.getD [])
  obtain ⟨hstatus, hinvocation⟩ := hcourse.status_eq
  rw [hstatus, hinvocation]
  refine ⟨fun found call => ⟨fun hfound => ?_, ?_⟩, fun hmalformed => ?_⟩
  · rw [← hstatus, ← hinvocation]
    exact hfound.status_eq
  · rintro ⟨rfl, rfl⟩
    exact hcourse
  · cases hcourse <;> simp at hmalformed ⊢

def marketServes (payload : Option Bytes) : Served :=
  (Market.caller.channel.endpoint.handle Market.swapPath none payload).1

/-- The keeper is not asked for a swap without its type argument, but is with one and a text. -/
theorem market_statuses :
    Market.caller.channel.endpoint.Reached .empty ∧
      ((marketServes none).response.status = .badRequest ∧
        (marketServes none).invocation = none) ∧
      (marketServes (some Market.swapPayload)).response.status = .success ∧
      (marketServes (some Market.swapPayload)).invocation =
        some ⟨"keeper", ⟨Market.swap, [.text], [.text "fig", .null]⟩, false⟩ := by
  have hregister : (ofRegistry .empty).register Market.market =
      .ok Market.caller.channel.endpoint := rfl
  have hreached : Market.caller.channel.endpoint.Reached .empty := .registered .fresh hregister
  have hfinds : Market.caller.channel.endpoint.Finds Market.swapPath none Market.swap
      ⟨"market", fun _ => some Market.stallKeeper, fun _ => .error ⟨"closed"⟩⟩ :=
    ⟨.inl rfl, Market.market, ⟨rfl, Market.stall, rfl⟩, rfl⟩
  obtain ⟨hnone, _⟩ := response_status_exact hreached Market.swapPath none none
  obtain ⟨hsome, _⟩ := response_status_exact hreached Market.swapPath none (some Market.swapPayload)
  refine ⟨hreached, (hnone _ _).mp (.typesRefused hfinds rfl rfl), (hsome _ _).mp ?_⟩
  have hchooses : GenericHandler.Chooses .empty Market.swapPath Market.swap Market.swapPayload
      (Specialized.handler ⟨0, ⟨Market.swapPath, Market.swap, [.text], [(0, .text)],
        [(0, .text), (1, .text)], some .text⟩, _⟩) [3, 0, 0, 0, 102, 105, 103] := .generic rfl rfl
  have hcalls : Market.caller.channel.endpoint.Calls Market.swapPath none Market.swapPayload _
      Market.stallKeeper ⟨Market.swap, [.text], [.text "fig", .null]⟩ :=
    ⟨_, _, _, [.text "fig"], hfinds, hchooses, rfl, rfl, rfl⟩
  refine .answered hcalls rfl rfl fun out hmem => ?_
  have hout : out ∈ [(WireType.generic 0, Value.null), (.text, .text "pear"),
    (.generic 0, .text "fig")] := hmem
  simp only [List.mem_cons, List.not_mem_nil, or_false] at hout
  rcases hout with rfl | rfl | rfl <;> exact ⟨.text, _, rfl, rfl⟩

end Endpoint

end Remoting
