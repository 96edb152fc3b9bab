import Mathlib
import Remoting.Proofs.ClientSessions

/-! When requests are sent. A direct call sends its request at once, an asynchronous one when it is
awaited, and no other request is sent. -/

namespace Remoting

/-- A transport and what has been sent through it, in order. -/
structure Logged (σ : Type) where
  channel : σ
  sent : List (Delivery × Request)

/-- The same transport with a log. -/
def Processor.logged {σ : Type} (processor : Processor σ) : Processor (Logged σ) where
  send delivery request logged :=
    mapState (Logged.mk · (logged.sent ++ [(delivery, request)]))
      (processor.send delivery request logged.channel)

def requestsAtOnce : Except CallerError PreparedCall → List (Delivery × Request)
  | .ok prepared =>
    if prepared.method.style = .direct then [(.blocking, prepared.request)] else []
  | .error _ => []

def operationsBegun (entry : Entry) : Except CallerError PreparedCall → List (Option PendingCall)
  | .ok prepared =>
    if prepared.method.style = .direct then [] else [some (ProxyNode.pendingOf prepared)]
  | .error error => if entry = .callAsync then [some (.failed error)] else []

namespace PendingCall

/-- The request that an operation sends when it is awaited. -/
def request? : PendingCall → Option Request
  | failed _ => none
  | ready _ _ request => some request

end PendingCall

section Logs

variable {σ : Type}

/-- The log sees what is sent and changes nothing. -/
theorem dispatch_logged (entry : Entry) (processor : Processor σ)
    (preparation : Except CallerError PreparedCall) (logged : Logged σ) :
    entry.dispatch processor.logged preparation logged =
      mapState (Logged.mk · (logged.sent ++ requestsAtOnce preparation))
        (entry.dispatch processor preparation logged.channel) := by
  cases preparation with
  | error error =>
    rw [requestsAtOnce, List.append_nil]
    cases entry <;> rfl
  | ok prepared =>
    by_cases hstyle : prepared.method.style = .direct
    · simp only [Entry.dispatch, requestsAtOnce, if_pos hstyle, Processor.logged]
      cases processor.send .blocking prepared.request logged.channel with
      | error error channel => rfl
      | ok payload channel =>
        simp only [mapState]
        cases ProxyNode.directReply prepared payload <;> rfl
    · simp only [Entry.dispatch, requestsAtOnce, if_neg hstyle, List.append_nil]
      rfl

theorem opened_dispatch (entry : Entry) (processor : Processor σ)
    (preparation : Except CallerError PreparedCall) (channel : σ) :
    Session.opened (resultOf (entry.dispatch processor preparation channel)) =
      operationsBegun entry preparation := by
  cases preparation with
  | error error => cases entry <;> rfl
  | ok prepared =>
    by_cases hstyle : prepared.method.style = .direct
    · simp only [Entry.dispatch, operationsBegun, if_pos hstyle]
      cases processor.send .blocking prepared.request channel with
      | error error channel => rfl
      | ok payload channel =>
        dsimp only
        cases ProxyNode.directReply prepared payload <;> rfl
    · simp only [Entry.dispatch, operationsBegun, if_neg hstyle]
      rfl

theorem await_logged (call : PendingCall) (processor : Processor σ) (logged : Logged σ) :
    call.await processor.logged logged =
      mapState (Logged.mk · (logged.sent ++ call.request?.toList.map ((.awaited, ·))))
        (call.await processor logged.channel) := by
  cases call with
  | failed error =>
    rw [PendingCall.request?, Option.toList_none, List.map_nil, List.append_nil]
    rfl
  | ready style plan request =>
    simp only [PendingCall.await_eq, PendingCall.request?, Option.toList_some, List.map_cons,
      List.map_nil, Processor.logged]
    cases processor.send .awaited request logged.channel with
    | error error channel => rfl
    | ok payload channel =>
      simp only [mapState]
      by_cases hstyle : style = .asyncValue
      · simp only [hstyle, if_true]
        cases plan.readResult payload <;> rfl
      · simp only [hstyle, if_false]

end Logs

namespace Session

/-- The requests that a history leads to, from operations that wait to be awaited: those of direct
calls when they are attempted, and those of operations when they are awaited. -/
def requests (builder : ProxyBuilder) (waiting : List (Option Request)) :
    List Operation → List (Delivery × Request)
  | [] => []
  | .build scope timeout :: history => requests (builder.build scope timeout).2 waiting history
  | .attempt slot chain entry name arguments :: history =>
    match builder.node? slot chain with
    | none => requests builder waiting history
    | some node =>
      match resultOf (node.prepareStyled entry.accepts name arguments .empty) with
      | .error _ =>
        requests builder (if entry = .callAsync then waiting ++ [none] else waiting) history
      | .ok prepared =>
        if prepared.method.style = .direct then
          (.blocking, prepared.request) :: requests builder waiting history
        else requests builder (waiting ++ [some prepared.request]) history
  | .await index :: history =>
    match waiting[index]? with
    | some (some request) =>
      (.awaited, request) :: requests builder (waiting.set index none) history
    | _ => requests builder waiting history
  | .drop index :: history => requests builder (waiting.set index none) history

variable {σ : Type} {registry : Registry} {description : ServiceDescription}
  {builder : ProxyBuilder} {processor : Processor σ}

def unlogged (session : Session (Logged σ)) : Session σ :=
  ⟨session.builder, session.channel.channel, session.pending⟩

/-- The requests that wait to be sent, beside operations that have failed or are gone. -/
def waiting (pending : List (Option PendingCall)) : List (Option Request) :=
  pending.map fun slot => slot.bind PendingCall.request?

theorem unlogged_step (processor : Processor σ) (session : Session (Logged σ))
    (operation : Operation) :
    (session.step processor.logged operation).unlogged =
      session.unlogged.step processor operation := by
  cases operation with
  | build scope timeout => rfl
  | attempt slot chain entry name arguments =>
    cases hnode : session.builder.node? slot chain with
    | none =>
      have hsame : session.unlogged.builder.node? slot chain = none := hnode
      rw [step_attempt_of_none hnode, step_attempt_of_none hsame]
    | some node =>
      have hsame : session.unlogged.builder.node? slot chain = some node := hnode
      rw [step_attempt hnode, step_attempt hsame]
      simp only [dispatch_logged, finalState_mapState, resultOf_mapState]
      rfl
  | await index =>
    by_cases hwaits : ∃ call, session.pending[index]? = some (some call)
    · obtain ⟨call, hcall⟩ := hwaits
      have hsame : session.unlogged.pending[index]? = some (some call) := hcall
      rw [step_await hcall, step_await hsame, await_logged, finalState_mapState]
      rfl
    · have hgone := not_exists.mp hwaits
      have hsame : ∀ call, session.unlogged.pending[index]? ≠ some (some call) := hgone
      rw [step_await_of_gone hgone, step_await_of_gone hsame]
  | drop index => rfl

theorem unlogged_after (processor : Processor σ) (session : Session (Logged σ))
    (history : List Operation) :
    (session.after processor.logged history).unlogged =
      session.unlogged.after processor history := by
  induction history generalizing session with
  | nil => rfl
  | cons operation history ih =>
    show ((session.step processor.logged operation).after processor.logged history).unlogged = _
    rw [ih, unlogged_step]
    rfl

theorem requests_specializations (builder : ProxyBuilder) (specializations : Specializations)
    (waiting : List (Option Request)) (history : List Operation) :
    requests { builder with specializations } waiting history =
      requests builder waiting history := by
  induction history generalizing builder waiting with
  | nil => rfl
  | cons operation history ih =>
    cases operation with
    | build scope timeout =>
      have hbuild : ({ builder with specializations } : ProxyBuilder).build scope timeout =
          ((builder.build scope timeout).1,
            { (builder.build scope timeout).2 with specializations }) := by
        unfold ProxyBuilder.build
        dsimp only
        cases builder.nodes.find? (scope, timeout) <;> rfl
      rw [requests, requests, hbuild]
      exact ih _ _
    | attempt slot chain entry name arguments =>
      have hnode : ({ builder with specializations } : ProxyBuilder).node? slot chain =
        builder.node? slot chain := rfl
      simp only [requests, hnode, ih]
    | await index => simp only [requests, ih]
    | drop index => simp only [requests, ih]

theorem waiting_append (pending more : List (Option PendingCall)) :
    waiting (pending ++ more) = waiting pending ++ waiting more :=
  List.map_append

theorem waiting_set (pending : List (Option PendingCall)) (index : Nat) :
    waiting (pending.set index none) = (waiting pending).set index none :=
  List.map_set

theorem getElem?_waiting_eq_some_iff {pending : List (Option PendingCall)} {index : Nat}
    {request : Request} : (waiting pending)[index]? = some (some request) ↔
      ∃ style plan, pending[index]? = some (some (.ready style plan request)) := by
  rw [waiting, List.getElem?_map, Option.map_eq_some_iff]
  constructor
  · rintro ⟨slot, hslot, hrequest⟩
    obtain ⟨call, rfl, hcall⟩ := Option.bind_eq_some_iff.mp hrequest
    cases call with
    | failed error => cases hcall
    | ready style plan request =>
      cases hcall
      exact ⟨style, plan, hslot⟩
  · rintro ⟨style, plan, hslot⟩
    exact ⟨_, hslot, rfl⟩

/-- Of all operations only one with a request sends anything when it is awaited. -/
theorem await_of_not_ready (processor : Processor σ) {session : Session (Logged σ)} {index : Nat}
    (h : ∀ style plan request, session.pending[index]? ≠ some (some (.ready style plan request))) :
    (session.step processor.logged (.await index)).channel = session.channel ∧
      waiting (session.step processor.logged (.await index)).pending = waiting session.pending := by
  by_cases hwaits : ∃ call, session.pending[index]? = some (some call)
  · obtain ⟨call, hcall⟩ := hwaits
    cases call with
    | failed error =>
      have hnone : (waiting session.pending)[index]? = some none := by
        rw [waiting, List.getElem?_map, hcall]
        rfl
      -- It waits to send nothing, and so does its slot once it is gone.
      obtain ⟨hlt, hsame⟩ := List.getElem?_eq_some_iff.mp hnone
      have hset := List.set_getElem_self hlt
      rw [hsame] at hset
      rw [step_await hcall]
      exact ⟨rfl, (waiting_set _ _).trans hset⟩
    | ready style plan request => exact absurd hcall (h style plan request)
  · rw [step_await_of_gone (not_exists.mp hwaits)]
    exact ⟨rfl, rfl⟩

theorem await_of_ready (processor : Processor σ) {session : Session (Logged σ)} {index : Nat}
    {style : RemotingStyle} {plan : CallPlan} {request : Request}
    (h : session.pending[index]? = some (some (.ready style plan request))) :
    (session.step processor.logged (.await index)).channel.sent =
        session.channel.sent ++ [(.awaited, request)] ∧
      waiting (session.step processor.logged (.await index)).pending =
        (waiting session.pending).set index none := by
  rw [step_await h, await_logged, finalState_mapState]
  exact ⟨rfl, waiting_set _ _⟩

/-- An operation sends what the history that begins with it leads to first. -/
theorem sent_step {session : Session (Logged σ)} (h : session.builder.Reached registry description)
    (operation : Operation) (history : List Operation) :
    (session.step processor.logged operation).channel.sent ++
        requests (session.step processor.logged operation).builder
          (waiting (session.step processor.logged operation).pending) history =
      session.channel.sent ++
        requests session.builder (waiting session.pending) (operation :: history) := by
  cases operation with
  | build scope timeout => rfl
  | attempt slot chain entry name arguments =>
    cases hnode : session.builder.node? slot chain with
    | none => rw [step_attempt_of_none hnode, requests, hnode]
    | some node =>
      -- The history leads to what would be prepared from nothing, and so does the session.
      obtain ⟨leaf, hleaf, hc, hplace⟩ := h.sound.stands hnode
      have hfresh := ProxyNode.resultOf_prepareStyled h.sound.plans hleaf hc hplace entry.accepts
        name arguments
      rw [step_attempt hnode, requests, hnode]
      simp only [dispatch_logged, finalState_mapState, resultOf_mapState, opened_dispatch,
        waiting_append, requests_specializations, ← hfresh]
      cases resultOf (node.prepareStyled entry.accepts name arguments
        session.builder.specializations) with
      | error error =>
        by_cases hasync : entry = .callAsync
        · simp only [requestsAtOnce, List.append_nil, operationsBegun, if_pos hasync]
          rfl
        · simp [requestsAtOnce, operationsBegun, hasync, waiting]
      | ok prepared =>
        by_cases hstyle : prepared.method.style = .direct
        · simp [requestsAtOnce, operationsBegun, hstyle, waiting]
        · simp only [requestsAtOnce, operationsBegun, if_neg hstyle, List.append_nil]
          rfl
  | await index =>
    rw [builder_step_await, requests]
    by_cases hready : ∃ request, (waiting session.pending)[index]? = some (some request)
    · obtain ⟨request, hrequest⟩ := hready
      obtain ⟨style, plan, hpending⟩ := getElem?_waiting_eq_some_iff.mp hrequest
      obtain ⟨hsent, hwaiting⟩ := await_of_ready processor hpending
      rw [hsent, hwaiting, hrequest, List.append_assoc]
      rfl
    · obtain ⟨hchannel, hwaiting⟩ := await_of_not_ready processor
        fun style plan request hpending =>
          hready ⟨request, getElem?_waiting_eq_some_iff.mpr ⟨style, plan, hpending⟩⟩
      rw [hchannel, hwaiting]
      split
      · rename_i request hrequest
        exact absurd ⟨request, hrequest⟩ hready
      · rfl
  | drop index =>
    show session.channel.sent ++ requests session.builder
      (waiting (session.pending.set index none)) history = _
    rw [waiting_set, requests]

theorem sent_after {session : Session (Logged σ)} (h : session.builder.Reached registry description)
    (history : List Operation) :
    (session.after processor.logged history).channel.sent =
      session.channel.sent ++ requests session.builder (waiting session.pending) history := by
  induction history generalizing session with
  | nil => exact (List.append_nil _).symm
  | cons operation history ih =>
    exact (ih (reached_step h operation)).trans (sent_step h operation history)

/-- What an attempt sends and what it begins. It sends nothing unless it passes all checks. -/
structure Attempted (registry : Registry) (session after : Session (Logged σ)) (node : ProxyNode)
    (entry : Entry) (name : String) (arguments : CallArguments)
    (result : Except CallerError CallReply) : Prop where
  refused : (∀ method plan bytes, ¬node.Passes registry entry name arguments method plan bytes) →
    after.channel = session.channel ∧ ∃ error, result = entry.refuse error
  passed : ∀ method plan bytes, node.Passes registry entry name arguments method plan bytes →
    ∃ path, ServicePath.ofMethod node.place name = .ok path ∧
      (method.style = .direct → after.pending = session.pending ∧ after.channel.sent =
        session.channel.sent ++ [(.blocking, node.requestTo path arguments bytes)]) ∧
      (method.style ≠ .direct → after.channel = session.channel ∧ after.pending =
        session.pending ++ [some (.ready method.style plan (node.requestTo path arguments bytes))])

/-- What becomes of an operation. It is sent when it is awaited, and at no other time. -/
structure Settled (processor : Processor σ) (session : Session (Logged σ)) (index : Nat) :
    Prop where
  sent : ∀ style plan request, session.pending[index]? = some (some (.ready style plan request)) →
    (session.step processor.logged (.await index)).channel.sent =
      session.channel.sent ++ [(.awaited, request)]
  unsent : (∀ style plan request,
      session.pending[index]? ≠ some (some (.ready style plan request))) →
    (session.step processor.logged (.await index)).channel = session.channel
  dropped : (session.step processor.logged (.drop index)).channel = session.channel
  gone : index < session.pending.length → ∀ operation ∈ [Operation.await index, .drop index],
    ∀ later, ((session.step processor.logged operation).after processor.logged
      later).pending[index]? = some none
  stays : ∀ slot, session.pending[index]? = some slot → ∀ later, .await index ∉ later →
    .drop index ∉ later → (session.after processor.logged later).pending[index]? = some slot

theorem attempted (hshape : description.Throughout ServiceDescription.WellNamed)
    {session : Session (Logged σ)} (h : session.builder.Reached registry description) {slot : Nat}
    {chain : List String} {node : ProxyNode} (hnode : session.builder.node? slot chain = some node)
    (processor : Processor σ) (entry : Entry) (name : String) (arguments : CallArguments) :
    Attempted registry session
      (session.step processor.logged (.attempt slot chain entry name arguments)) node entry name
      arguments (resultOf (node.attempt processor.logged entry name arguments
        ⟨session.builder.specializations, session.channel⟩)) := by
  obtain ⟨leaf, hleaf, hc, hplace⟩ := h.sound.stands hnode
  have hprepared {prepared : PreparedCall} :
      resultOf (node.prepareStyled entry.accepts name arguments session.builder.specializations) =
        .ok prepared ↔ _ :=
    ProxyNode.resultOf_prepareStyled_eq_ok_iff h.sound.plans hleaf hc hplace
  rw [step_attempt hnode, ProxyNode.attempt_eq]
  dsimp only
  rw [resultOf_mapState]
  constructor
  · intro hnone
    cases hresult : resultOf (node.prepareStyled entry.accepts name arguments
      session.builder.specializations) with
    | ok prepared =>
      obtain ⟨bytes, _, hpasses, _⟩ := hprepared.mp hresult
      exact absurd hpasses (hnone _ _ _)
    | error error => cases entry <;> exact ⟨rfl, error, rfl⟩
  · intro method plan bytes hpasses
    obtain ⟨compiled, hfound, _⟩ := hpasses.known
    obtain ⟨_, hmethod, _⟩ := ProxyNode.compiled_of_method hc hfound
    obtain ⟨path, hpath, _⟩ := ServiceDescription.exists_path hshape hleaf hmethod
    rw [← hplace] at hpath
    have hresult := (@hprepared ⟨method, plan, node.requestTo path arguments bytes⟩).mpr
      ⟨bytes, path, hpasses, hpath, rfl⟩
    rw [hresult, dispatch_logged, finalState_mapState, resultOf_mapState, opened_dispatch]
    refine ⟨path, hpath, fun hstyle => ?_, fun hstyle => ?_⟩
    · simp [requestsAtOnce, operationsBegun, hstyle]
    · simp only [requestsAtOnce, operationsBegun, if_neg hstyle, List.append_nil]
      rw [ProxyNode.dispatch_of_async processor entry hstyle]
      exact ⟨rfl, rfl⟩

theorem settled (processor : Processor σ) (session : Session (Logged σ)) (index : Nat) :
    Settled processor session index where
  sent _ _ _ hready := (await_of_ready processor hready).1
  unsent hnone := (await_of_not_ready processor hnone).1
  dropped := rfl
  gone hlt _ hmem := gone_after (gone_of_mem hlt hmem)
  stays _ hslot _ := pending_after hslot

/-- What has been sent through any transport is what the history alone leads to, and however a
method is called, the same is sent and comes of it. -/
theorem requests_are_sent_when_due {shape : InterfaceShape}
    (hshape : shape.describe = .ok description)
    (hbuilder : ProxyBuilder.compile registry description = .ok builder) (processor : Processor σ)
    (channel : σ) (history : List Operation) :
    let session := ofHistory processor.logged builder ⟨channel, []⟩ history
    session.channel.sent = requests builder [] history ∧
    session.unlogged = ofHistory processor builder channel history ∧
    (∀ slot chain node, session.builder.node? slot chain = some node →
      ∀ entry name arguments, Attempted registry session
        (session.step processor.logged (.attempt slot chain entry name arguments)) node entry name
        arguments (resultOf (node.attempt processor.logged entry name arguments
          ⟨session.builder.specializations, session.channel⟩))) ∧
    (∀ index, Settled processor session index) ∧
    ∀ {τ : Type} (transport : Processor τ) (node : ProxyNode) (name : String)
      (compiled : CompiledMethod), node.method name = .ok compiled → ∀ arguments state,
        (compiled.description.style = .direct →
          node.invoke transport name arguments state =
            (CallReply.direct <$> node.call transport name arguments) state) ∧
        (compiled.description.style ≠ .direct →
          node.invoke transport name arguments state =
            match node.callAsync name arguments state.specializations with
            | (.failed error, after) => .error error ⟨after, state.channel⟩
            | (operation, after) => .ok (.pending operation) ⟨after, state.channel⟩) ∧
        ∀ error channel,
          (PendingCall.failed error).await transport channel = .error error channel := by
  have hnamed : description.Throughout ServiceDescription.WellNamed :=
    wellNamed_of_describeWithin shape hshape
  have hreached := reached_ofHistory hbuilder processor.logged ⟨channel, []⟩ history
  refine ⟨sent_after (.compiled hbuilder) history, unlogged_after _ _ history,
    fun slot chain node hnode entry name arguments =>
      attempted hnamed hreached hnode processor entry name arguments,
    settled processor _, fun transport node name compiled hmethod arguments state =>
      ⟨fun hstyle => ?_, fun hstyle => ?_, fun _ _ => rfl⟩⟩
  · exact ProxyNode.invoke_of_direct hmethod hstyle transport arguments state
  · exact ProxyNode.invoke_of_async hmethod hstyle transport arguments state

end Session

namespace Belfry

/-- A bell that is rung at once and tolled at leisure. -/
def shape : InterfaceShape :=
  .mk "IBell" [
    { name := "Ring", result := .unit, parameters := [⟨"tune", .text, .byValue⟩] },
    { name := "Toll", result := .pending .unit }] []

def ring : MethodDescription := ⟨"Ring", .unit, [⟨"tune", .text, .byValue, 0⟩], [], .direct⟩

def toll : MethodDescription := ⟨"Toll", .unit, [], [], .asyncVoid⟩

def description : ServiceDescription := ⟨"IBell", "Bell", [ring, toll], []⟩

def builder : ProxyBuilder :=
  ⟨⟨"Bell", [⟨ring, .empty, some ⟨[.text], [], false⟩⟩, ⟨toll, .empty, some ⟨[], [], false⟩⟩], []⟩,
    "IBell", .empty, .empty⟩

def ringRequest : Request :=
  ⟨"IBell", ⟨"Bell", [], "Ring", by decide⟩, none, some [3, 0, 0, 0, 102, 105, 103], 5⟩

def tollRequest : Request := ⟨"IBell", ⟨"Bell", [], "Toll", by decide⟩, none, none, 5⟩

/-- The bell is tolled twice, rung without a tune and in the wrong way, and then as it should be.
One of the tolls is awaited, and once more, and the other is dropped. -/
def history : List Session.Operation :=
  [.build none 5, .attempt 0 [] .invoke "Toll" {}, .attempt 0 [] .callAsync "Toll" {},
    .attempt 0 [] .call "Ring" {}, .attempt 0 [] .callAsync "Ring" { values := [.text "fig"] },
    .attempt 0 [] .call "Ring" { values := [.text "fig"] }, .await 0, .await 0, .drop 1, .await 1,
    .await 2]

theorem rung_at_once_and_tolled_when_awaited :
    shape.describe = .ok description ∧ ProxyBuilder.compile .empty description = .ok builder ∧
      (Session.ofHistory Recording.processor.logged builder ⟨⟨[], []⟩, []⟩ history).channel.sent =
        [(.blocking, ringRequest), (.awaited, tollRequest)] := by
  have hshape : shape.describe = .ok description := rfl
  have hbuilder : ProxyBuilder.compile .empty description = .ok builder := rfl
  obtain ⟨hsent, _⟩ := Session.requests_are_sent_when_due hshape hbuilder Recording.processor
    ⟨[], []⟩ history
  exact ⟨hshape, hbuilder, hsent.trans rfl⟩

end Belfry

end Remoting
