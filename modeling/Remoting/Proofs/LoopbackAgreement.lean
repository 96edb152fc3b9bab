import Mathlib
import Remoting.Client.Caller
import Remoting.Proofs.CallerPlans
import Remoting.Proofs.EndpointHandlers
import Remoting.Proofs.Replies

/-! Agreement of client and server. A call through a node reaches the implementation once, as it
was made, and the caller receives what the implementation has left. -/

namespace Remoting

theorem ServiceDescription.resolve_eq_ok {description leaf : ServiceDescription} {path : ServicePath}
    {method : MethodDescription} (hroot : path.root = description.name)
    (hleaf : description.descend path.chain = .ok leaf)
    (hmethod : leaf.method? path.method = some method) :
    description.resolve path = .ok (leaf, method) := by
  simp only [resolve, hroot, hleaf, hmethod, ne_eq, not_true_eq_false, if_false]

theorem eq_of_many_zero {α : Type} {read : Reader α} {input left : Bytes} {found : List α}
    (h : Reader.many read 0 input = .ok found left) : found = [] ∧ left = input := by
  cases h
  exact ⟨rfl, rfl⟩

/-- A handler reads the type arguments and executes what is built for them. -/
theorem Handler.handle_eq {registry : Registry} {description place : ServiceDescription}
    {path : ServicePath} {method : MethodDescription} {handler : Handler}
    (h : handler.Sound registry description path)
    (hresolve : description.resolve path = .ok (place, method)) {types : List WireType}
    {built : ConcreteHandler} (hbuild : ConcreteHandler.build registry path method types = .ok built)
    {payload left : Bytes} (hread : Reader.many (GenericHandler.typeArgument registry) method.arity
      payload = .ok types left) {root leaf : Implementation}
    (hleaf : root.descend path.chain = .ok leaf) :
    (handler.handle root payload 0).1 = built.execute leaf left := by
  have hpath : built.path = path := by
    obtain ⟨_, _, _, _, rfl⟩ := ConcreteHandler.build_eq_ok_iff.mp hbuild
    rfl
  have hrun : run built root left = built.execute leaf left := by
    simp only [run, Handler.leaf, hpath, hleaf]
  rw [← hrun]
  unfold handle
  rw [Reader.start_zero]
  cases handler with
  | concrete handler =>
    obtain ⟨_, found, hfound, hconcrete, hbuilt⟩ := h
    rw [hresolve] at hfound
    cases hfound
    have harity : method.arity = 0 := MethodDescription.arity_eq_zero hconcrete
    rw [harity] at hread
    obtain ⟨rfl, rfl⟩ := eq_of_many_zero hread
    rw [hbuild] at hbuilt
    cases hbuilt
    rfl
  | generic handler =>
    have hsound := h
    obtain ⟨_, found, hfound, _, _, hmethod, _, _⟩ := h
    rw [hresolve] at hfound
    cases hfound
    rw [← hmethod] at hread hbuild
    obtain ⟨specialized, hspecialize, hsame⟩ := GenericHandler.specialize_ok hsound hread hbuild
    simp only [hspecialize, hsame]

/-- The described service is registered, and the chain leads to the implementation for the scope. -/
structure Loopback.Serves (registry : Registry) (description : ServiceDescription)
    (scope : Option String) (chain : List String) (leaf : Implementation) (loopback : Loopback) :
    Prop where
  reached : loopback.endpoint.Reached registry
  provided : ∃ service root, loopback.endpoint.service? description.name = some service ∧
    service.description = description ∧ service.resolver scope = some root ∧
    root.descend chain = .ok leaf

def ConcreteHandler.resultOf (handler : ConcreteHandler) (leaf : Implementation) (call : MethodCall) :
    Except DispatchError Bytes :=
  match leaf.invoke call with
  | .error error => .error (.implementation error)
  | .ok answer => handler.respond call answer

/-- A request whose type arguments and values can be read leads to one invocation, and is answered
with what comes of it. -/
theorem Loopback.send_eq {registry : Registry} {description place : ServiceDescription}
    {scope : Option String} {chain : List String} {leaf : Implementation} {loopback : Loopback}
    (h : loopback.Serves registry description scope chain leaf) {request : Request}
    (hroot : request.path.root = description.name) (hchain : request.path.chain = chain)
    (hscope : request.scope = scope) (hplace : description.descend chain = .ok place)
    {method : MethodDescription} (hmethod : place.method? request.path.method = some method)
    {types : List WireType} {built : ConcreteHandler}
    (hbuild : ConcreteHandler.build registry request.path method types = .ok built) {left : Bytes}
    (hread : Reader.many (GenericHandler.typeArgument registry) method.arity
      (request.payload.getD []) = .ok types left) {values : List Value}
    (hdecode : decodeFields (built.request.map (·.2)) left = .ok values []) (delivery : Delivery) :
    ∃ awaited after, after.invocations =
        loopback.invocations ++ [⟨leaf.label, built.callOf values, awaited⟩] ∧
      Loopback.processor.send delivery request loopback =
        match (Response.ofResult (built.resultOf leaf (built.callOf values))).toResult with
        | .ok payload => .ok payload after
        | .error error => .error error after := by
  obtain ⟨service, root, hservice, rfl, hresolver, hleaf⟩ := h.provided
  have hsound := h.reached.sound
  rw [← hroot] at hservice
  rw [← hchain] at hplace hleaf
  have hresolve := ServiceDescription.resolve_eq_ok hroot hplace hmethod
  have hconcrete : method.isGeneric = false →
      ∃ built, ConcreteHandler.build registry request.path method [] = .ok built := by
    intro hgeneric
    have harity : method.arity = 0 := MethodDescription.arity_eq_zero hgeneric
    rw [harity] at hread
    obtain ⟨rfl, _⟩ := eq_of_many_zero hread
    exact ⟨built, hbuild⟩
  obtain ⟨slot, handler, after, hfound, hhandler⟩ :=
    Endpoint.exists_handler hsound hservice hresolve hconcrete
  have hhandle := Handler.handle_eq hhandler hresolve hbuild hread hleaf
  have houtcome : ∃ awaited, built.execute leaf left =
      ⟨built.resultOf leaf (built.callOf values),
        some ⟨leaf.label, built.callOf values, awaited⟩⟩ := by
    simp only [ConcreteHandler.execute, ConcreteHandler.resultOf, hdecode]
    cases leaf.invoke (built.callOf values) with
    | error error => exact ⟨false, rfl⟩
    | ok answer => exact ⟨built.awaits answer.reply, rfl⟩
  obtain ⟨awaited, houtcome⟩ := houtcome
  have hserved : ∃ endpoint, loopback.endpoint.handle request.path request.scope request.payload =
      (⟨.ofResult (built.resultOf leaf (built.callOf values)),
        some ⟨leaf.label, built.callOf values, awaited⟩⟩, endpoint) := by
    unfold Endpoint.handle
    simp only [hservice, hfound, hscope, hresolver, hhandle, houtcome]
    exact ⟨_, rfl⟩
  obtain ⟨endpoint, hserved⟩ := hserved
  refine ⟨awaited, ⟨endpoint, loopback.invocations ++
    [⟨leaf.label, built.callOf values, awaited⟩]⟩, rfl, ?_⟩
  rw [processor]
  dsimp only [serve]
  rw [hserved]
  cases (Response.ofResult (built.resultOf leaf (built.callOf values))).toResult <;> rfl

namespace ProxyNode

variable {σ : Type} {node : ProxyNode} {name : String} {arguments : CallArguments}
  {specializations after : Specializations} {prepared : PreparedCall}

theorem prepareStyled_eq (h : node.prepare name arguments specializations = .ok prepared after)
    {expected : RemotingStyle → Bool} (hstyle : expected prepared.method.style = true) :
    node.prepareStyled expected name arguments specializations = .ok prepared after := by
  obtain ⟨compiled, _, _, hmethod, _, _, _, hprepared, _⟩ := prepare_eq_ok h
  rw [hprepared] at hstyle
  simp only [prepareStyled, hmethod, hstyle, if_true]
  exact h

theorem sendDirect_eq (processor : Processor σ) (prepared : PreparedCall) (state : CallerState σ) :
    sendDirect processor prepared state =
      match processor.send .blocking prepared.request state.channel with
      | .error error channel => .error error { state with channel }
      | .ok payload channel =>
        match directReply prepared payload with
        | .error error => .error error { state with channel }
        | .ok reply => .ok reply { state with channel } := by
  simp only [sendDirect, bind, EStateM.bind, CallerState.remotely]
  cases processor.send .blocking prepared.request state.channel with
  | error error channel => rfl
  | ok payload channel =>
    dsimp only
    cases directReply prepared payload <;> rfl

theorem call_eq (h : node.prepare name arguments specializations = .ok prepared after)
    (hstyle : prepared.method.style = .direct) (processor : Processor σ) (channel : σ) :
    node.call processor name arguments ⟨specializations, channel⟩ =
      match processor.send .blocking prepared.request channel with
      | .error error channel => .error error ⟨after, channel⟩
      | .ok payload channel =>
        match directReply prepared payload with
        | .error error => .error error ⟨after, channel⟩
        | .ok reply => .ok reply ⟨after, channel⟩ := by
  have hstyled : node.prepareStyled (· == .direct) name arguments specializations =
      .ok prepared after := prepareStyled_eq h (by simp [hstyle])
  simp only [call, bind, EStateM.bind, CallerState.locally, hstyled]
  exact sendDirect_eq processor prepared ⟨after, channel⟩

theorem callAsync_eq (h : node.prepare name arguments specializations = .ok prepared after)
    (hstyle : prepared.method.style ≠ .direct) :
    node.callAsync name arguments specializations = (pendingOf prepared, after) := by
  have hstyled : node.prepareStyled (· != .direct) name arguments specializations =
      .ok prepared after := prepareStyled_eq h (by simpa using hstyle)
  simp only [callAsync, hstyled]

end ProxyNode

/-- The call has reached the implementation once. If it is answered with a value, and what it
leaves can be encoded under the declared types, the caller receives that. -/
structure Delivered (registry : Registry) (method : MethodDescription) (types : List WireType)
    (leaf : Implementation) (call : MethodCall) (before after : Loopback)
    (received : DirectReply → Prop) : Prop where
  once : ∃ awaited, after.invocations = before.invocations ++ [⟨leaf.label, call, awaited⟩]
  reply : ∀ answer value, leaf.invoke call = .ok answer →
    answer.reply.settled? method.style = some value →
    (∀ out ∈ method.outgoing (call.assign answer.assignments).slots value,
      EncodesAs registry types out.1 out.2 ∧ out.2.Recoverable registry) →
    received (method.replyOf (call.assign answer.assignments).slots value)

theorem ConcreteHandler.resultOf_eq {registry : Registry} {types : List WireType}
    {method : MethodDescription} {request response : List Codec} {result : Option Codec}
    (hcodecs : method.HasCodecs registry types request response result) (hchecked : method.Checked)
    {handler : ConcreteHandler} (hmethod : handler.method = method)
    (hresponse : handler.response = (method.responseParameters.map (·.position)).zip response)
    (hresult : handler.result = result) {leaf : Implementation} {call : MethodCall} {answer : Answer}
    {value : Value} (hanswer : leaf.invoke call = .ok answer)
    (hvalue : answer.reply.settled? method.style = some value)
    (hout : ∀ out ∈ method.outgoing (call.assign answer.assignments).slots value,
      EncodesAs registry types out.1 out.2 ∧ out.2.Recoverable registry) :
    ∃ payload, handler.resultOf leaf call = .ok payload ∧
      decodeFields (response ++ result.toList) payload =
        .ok ((method.outgoing (call.assign answer.assignments).slots value).map (·.2)) [] := by
  obtain ⟨payload, hpayload, hdecode⟩ := exists_payload (hcodecs.outgoing _ value) hout
  refine ⟨payload, ?_, hdecode⟩
  simp only [resultOf, hanswer]
  rw [respond_eq hcodecs hchecked hmethod hresponse hresult hvalue, encodeResponse, hpayload]

/-- A prepared call, wherever it is sent, is the same call there, and what the implementation has
left can be read back by the plan that the call is made of. -/
theorem PreparedCall.sent {registry : Registry} {description place : ServiceDescription}
    {chain : List String} {scope : Option String} {method : MethodDescription}
    {arguments : CallArguments} {prepared : PreparedCall}
    (hmade : prepared.MadeFor registry description.name chain scope method arguments)
    (hplace : description.descend chain = .ok place)
    (hmethod : place.method? method.name = some method) (hchecked : method.Checked)
    (hvalues : ∀ value ∈ arguments.values, value.Recoverable registry) :
    ∃ call : MethodCall, call.Carries method arguments ∧
      ∀ (delivery : Delivery) (loopback : Loopback) (leaf : Implementation),
        loopback.Serves registry description scope chain leaf → ∃ served : Loopback,
          (∃ awaited, served.invocations =
            loopback.invocations ++ [⟨leaf.label, call, awaited⟩]) ∧
          finalState (Loopback.processor.send delivery prepared.request loopback) = served ∧
          ∀ answer value, leaf.invoke call = .ok answer →
            answer.reply.settled? method.style = some value →
            (∀ out ∈ method.outgoing (call.assign answer.assignments).slots value,
              EncodesAs registry arguments.types out.1 out.2 ∧ out.2.Recoverable registry) →
            ∃ payload, Loopback.processor.send delivery prepared.request loopback =
                .ok payload served ∧
              decodeFields prepared.plan.response payload = .ok
                ((method.outgoing (call.assign answer.assignments).slots value).map (·.2)) [] := by
  obtain ⟨hroot, hchain, hname⟩ := hmade.path
  obtain ⟨request, response, result, hcodecs, hplanned⟩ := CallPlan.build_eq_ok_iff.mp hmade.plan
  have hcount := hmade.count
  have hencode := hmade.payload
  rw [hplanned] at hcount hencode
  have hrequested : method.requestParameters.length = request.length := hcodecs.request.length_eq
  -- The server builds its handler from the very codecs that the plan is made of.
  obtain ⟨built, hbuild, hbuilt⟩ : ∃ built : ConcreteHandler,
      ConcreteHandler.build registry prepared.request.path method arguments.types = .ok built ∧
        built = ⟨prepared.request.path, method, arguments.types,
          (method.requestParameters.map (·.position)).zip request,
          (method.responseParameters.map (·.position)).zip response, result⟩ :=
    ⟨_, ConcreteHandler.build_eq_ok_iff.mpr ⟨request, response, result, hcodecs, rfl⟩, rfl⟩
  obtain ⟨left, hread, hdecode⟩ :=
    request_read (exists_ofType_of_forall₂ hcodecs.request) hvalues hcount hmade.types hencode
  rw [hmade.arity] at hread
  have hdecoded : decodeFields (built.request.map (·.2)) left = .ok arguments.values [] := by
    rw [hbuilt, List.map_snd_zip (by simp [hrequested])]
    exact hdecode
  have hcarries : (built.callOf arguments.values).Carries method arguments := by
    have hordered : method.Ordered := fun _ _ => hchecked.positions
    subst hbuilt
    exact ConcreteHandler.callOf_carries hordered rfl (List.map_fst_zip (by simp [hrequested]))
      (hcount.trans hrequested.symm)
  refine ⟨built.callOf arguments.values, hcarries, fun delivery loopback leaf hserves => ?_⟩
  obtain ⟨awaited, served, honce, hsend⟩ := Loopback.send_eq hserves hroot hchain hmade.scope hplace
    (hname ▸ hmethod) hbuild hread hdecoded delivery
  refine ⟨served, ⟨awaited, honce⟩, ?_, fun answer value hanswer hvalue hout => ?_⟩
  · rw [hsend]
    split <;> rfl
  · have hsame : built.method = method := by rw [hbuilt]
    have hresponse : built.response =
        (method.responseParameters.map (·.position)).zip response := by rw [hbuilt]
    have hresult : built.result = result := by rw [hbuilt]
    obtain ⟨payload, hpayload, hback⟩ := ConcreteHandler.resultOf_eq hcodecs hchecked hsame hresponse
      hresult hanswer hvalue hout
    refine ⟨payload, ?_, hplanned ▸ hback⟩
    rw [hsend, hpayload]
    rfl

theorem PendingCall.await_eq {σ : Type} (processor : Processor σ) (style : RemotingStyle)
    (plan : CallPlan) (request : Request) (channel : σ) :
    (PendingCall.ready style plan request).await processor channel =
      match processor.send .awaited request channel with
      | .error error channel => .error error channel
      | .ok payload channel =>
        if style = .asyncValue then
          match plan.readResult payload with
          | .ok value => .ok value channel
          | .error error => .error (.decode error) channel
        else .ok .unit channel := by
  simp only [await, bind, EStateM.bind]
  cases processor.send .awaited request channel with
  | error error channel => rfl
  | ok payload channel =>
    by_cases hstyle : style = .asyncValue
    · simp only [hstyle, if_true]
      cases plan.readResult payload <;> rfl
    · simp only [hstyle, if_false]
      rfl

namespace Caller

variable {caller : Caller Loopback} {slot : Nat} {builder : ProxyBuilder} {node : ProxyNode}
  {name : String} {arguments : CallArguments} {specializations : Specializations}
  {prepared : PreparedCall}

theorem channel_call (h : caller.builder? slot = some builder)
    (hprepare : node.prepare name arguments builder.specializations = .ok prepared specializations)
    (hstyle : prepared.method.style = .direct) (root : Nat) :
    (caller.call Loopback.processor ⟨slot, root, node⟩ name arguments).2.channel =
      finalState (Loopback.processor.send .blocking prepared.request caller.channel) := by
  simp only [call, onBuilder, h, ProxyNode.call_eq hprepare hstyle]
  cases Loopback.processor.send .blocking prepared.request caller.channel with
  | error error channel => rfl
  | ok payload channel =>
    dsimp only
    cases ProxyNode.directReply prepared payload <;> rfl

theorem channel_await (caller : Caller Loopback) (style : RemotingStyle) (plan : CallPlan)
    (request : Request) :
    (caller.await Loopback.processor (.ready style plan request)).2.channel =
      finalState (Loopback.processor.send .awaited request caller.channel) := by
  simp only [await, PendingCall.await_eq]
  cases Loopback.processor.send .awaited request caller.channel with
  | error error channel => rfl
  | ok payload channel =>
    by_cases hstyle : style = .asyncValue
    · simp only [hstyle, if_true]
      cases plan.readResult payload <;> rfl
    · simp only [hstyle, if_false]
      rfl

end Caller

theorem loopback_calls_agree {registry : Registry} {shape : InterfaceShape}
    {description : ServiceDescription} (hshape : shape.describe = .ok description)
    {builder : ProxyBuilder} (hbuilder : builder.Reached registry description)
    {chain : List String} {place : ServiceDescription} (hplace : description.descend chain = .ok place)
    {name : String} {method : MethodDescription} (hmethod : place.method? name = some method)
    (scope : Option String) (timeout : Nat) :
    ∃ node, (builder.build scope timeout).1.2.descend? chain = some node ∧
      ∀ arguments prepared after,
        node.prepare name arguments builder.specializations = .ok prepared after →
        (∀ value ∈ arguments.values, value.Recoverable registry) →
        ∃ call : MethodCall, call.Carries method arguments ∧
          ∀ (caller : Caller Loopback) slot root, caller.builder? slot = some builder →
            (method.style = .direct → ∀ leaf,
              caller.channel.Serves registry description scope chain leaf →
              Delivered registry method arguments.types leaf call caller.channel
                (caller.call Loopback.processor ⟨slot, root, node⟩ name arguments).2.channel
                fun reply =>
                  (caller.call Loopback.processor ⟨slot, root, node⟩ name arguments).1 = .ok reply) ∧
            (method.style ≠ .direct → ∀ (later : Caller Loopback) leaf,
              later.channel.Serves registry description scope chain leaf →
              Delivered registry method arguments.types leaf call later.channel
                (later.await Loopback.processor
                  (caller.callAsync ⟨slot, root, node⟩ name arguments).1).2.channel
                fun reply => (later.await Loopback.processor
                  (caller.callAsync ⟨slot, root, node⟩ name arguments).1).1 = .ok reply.result) := by
  have hsound := hbuilder.sound
  have hbelow := hsound.below scope timeout chain
  rw [hplace] at hbelow
  obtain ⟨node, hnode, hcompiled, hnodePlace, rfl⟩ := exists_of_some_rel hbelow
  refine ⟨node, hnode, fun arguments prepared after hprepare hvalues => ?_⟩
  have hmade := ProxyNode.prepare_madeFor hsound.plans hplace hcompiled hnodePlace hmethod hprepare
  obtain rfl := hmade.same
  have hchecked : prepared.method.Checked :=
    checked_of_describeWithin shape hshape chain place hplace _ (List.mem_of_find?_eq_some hmethod)
  have hname : place.method? prepared.method.name = some prepared.method :=
    (ServiceDescription.name_of_method? hmethod).symm ▸ hmethod
  obtain ⟨call, hcarries, hsent⟩ := PreparedCall.sent hmade hplace hname hchecked hvalues
  refine ⟨call, hcarries, fun caller slot root hslot => ⟨fun hstyle leaf hserves => ?_,
    fun hstyle later leaf hserves => ?_⟩⟩
  · obtain ⟨served, honce, hfinal, hreply⟩ := hsent .blocking caller.channel leaf hserves
    have hreturns : prepared.plan.returnsValue = prepared.method.returnsValue := by
      obtain ⟨_, _, _, _, hplan⟩ := CallPlan.build_eq_ok_iff.mp hmade.plan
      rw [hplan]
    have hchannel := Caller.channel_call hslot hprepare hstyle root
    refine ⟨?_, fun answer value hanswer hvalue hout => ?_⟩
    · rw [hchannel, hfinal]
      exact honce
    · obtain ⟨payload, hsend, hback⟩ := hreply answer value hanswer hvalue hout
      have hdirect := ProxyNode.directReply_eq hreturns hback
      simp only [Caller.call, Caller.onBuilder, hslot, ProxyNode.call_eq hprepare hstyle, hsend,
        hdirect]
  · -- Nothing is sent before the call is awaited, so the transport is the one of that moment.
    obtain ⟨served, honce, hfinal, hreply⟩ := hsent .awaited later.channel leaf hserves
    obtain ⟨hvoid, hasync, _⟩ := hchecked.style
    have hpending : (caller.callAsync ⟨slot, root, node⟩ name arguments).1 =
        .ready prepared.method.style prepared.plan prepared.request := by
      simp only [Caller.callAsync, hslot, ProxyNode.callAsync_eq hprepare hstyle]
      rfl
    rw [hpending]
    refine ⟨?_, fun answer value hanswer hvalue hout => ?_⟩
    · rw [Caller.channel_await, hfinal]
      exact honce
    · obtain ⟨payload, hsend, hback⟩ := hreply answer value hanswer hvalue hout
      simp only [Caller.await, PendingCall.await_eq, hsend, MethodDescription.replyOf]
      by_cases hresult : prepared.method.style = .asyncValue
      · have hreturns := hasync hresult
        simp only [hresult, if_true, CallPlan.readResult_eq hreturns hback, hreturns]
      · have hnone : prepared.method.returnsValue = false := by
          cases hs : prepared.method.style with
          | direct => exact absurd hs hstyle
          | asyncVoid => exact hvoid hs
          | asyncValue => exact absurd hs hresult
        simp only [hresult, if_false, hnone, Bool.false_eq_true]

namespace Market

/-- A market with a stall below it, where a value of any type is swapped for a text. -/
def shape : InterfaceShape :=
  .mk "IMarket" [] [.service "stall" (.mk "IStall"
    [{ name := "Swap", result := .generic 0, generics := ["T"],
       parameters := [⟨"given", .generic 0, .byRef⟩, ⟨"taken", .text, .out⟩] }] []) false]

def swap : MethodDescription :=
  ⟨"Swap", .generic 0, [⟨"given", .generic 0, .byRef, 0⟩, ⟨"taken", .text, .out, 1⟩], ["T"], .direct⟩

def stall : ServiceDescription := ⟨"IStall", "Stall", [swap], []⟩

def description : ServiceDescription := ⟨"IMarket", "Market", [], [("stall", stall)]⟩

def builder : ProxyBuilder :=
  ⟨⟨"Market", [], [("stall", ⟨"Stall", [⟨swap, .empty, none⟩], []⟩)]⟩, "IMarket", .empty, .empty⟩

def node : ProxyNode :=
  ⟨⟨"Stall", [⟨swap, .empty, none⟩], []⟩, "IMarket", ["Market", "stall"], none, 5⟩

def stallKeeper : Implementation where
  label := "keeper"
  subservice? _ := none
  invoke call := do
    return ⟨.value (← call.arg 0), [(0, .null), (1, .text "pear")]⟩

def market : RegisteredService :=
  .singleton description ⟨"market", fun _ => some stallKeeper, fun _ => .error ⟨"closed"⟩⟩

def caller : Caller Loopback :=
  ⟨⟨.empty, Table.empty.push "IMarket" builder⟩,
    ⟨⟨.empty, Table.empty.push "Market" market, .empty⟩, []⟩⟩

def swapPath : ServicePath := ⟨"Market", ["stall"], "Swap", by decide⟩

/-- The payload of a request to swap a text: the type argument and the text. -/
def swapPayload : Bytes := [12, 3, 0, 0, 0, 102, 105, 103]

/-- A text is swapped: the keeper has it, and the caller has a null and another text for it. -/
theorem swapped_at_a_stall :
    (∃ awaited, (caller.call Loopback.processor ⟨0, 0, node⟩ "Swap"
        ⟨[.text], [.text "fig"]⟩).2.channel.invocations =
          [⟨"keeper", ⟨swap, [.text], [.text "fig", .null]⟩, awaited⟩]) ∧
      (caller.call Loopback.processor ⟨0, 0, node⟩ "Swap" ⟨[.text], [.text "fig"]⟩).1 =
        .ok ⟨[.null, .text "pear"], .text "fig"⟩ := by
  have hshape : shape.describe = .ok description := rfl
  have hbuilder : builder.Reached .empty description := .compiled rfl
  have hplace : description.descend ["stall"] = .ok stall := rfl
  have hmethod : stall.method? "Swap" = some swap := rfl
  have hregister : (Endpoint.ofRegistry .empty).register market = .ok caller.channel.endpoint := rfl
  have hserves : caller.channel.Serves .empty description none ["stall"] stallKeeper :=
    ⟨.registered .fresh hregister, market, _, rfl, rfl, rfl, rfl⟩
  have hleaf : ∀ s items, Value.text s ≠ .array items := nofun
  have hnull : ∀ items, Value.null ≠ .array items := nofun
  have htext : ∀ s, (Value.text s).Recoverable .empty :=
    fun s => (Value.forall_part_leaf (hleaf s)).mpr nofun
  obtain ⟨found, hfound, hagree⟩ :=
    loopback_calls_agree hshape hbuilder hplace hmethod none 5
  obtain rfl : node = found := by
    cases hfound
    rfl
  obtain ⟨prepared, after, hprepare⟩ : ∃ prepared after, node.prepare "Swap"
      ⟨[.text], [.text "fig"]⟩ builder.specializations = .ok prepared after := ⟨_, _, rfl⟩
  have hvalues : ∀ value ∈ [Value.text "fig"], value.Recoverable .empty := by
    intro value hmem
    rw [List.mem_singleton.mp hmem]
    exact htext _
  obtain ⟨call, hcarries, hcalls⟩ := hagree _ prepared after hprepare hvalues
  obtain rfl : call = ⟨swap, [.text], [.text "fig", .null]⟩ := by
    obtain ⟨method, types, slots⟩ := call
    obtain ⟨rfl, rfl, _, hcount, hsent, hunsent⟩ := hcarries
    match slots, hcount with
    | [first, second], _ =>
      have hfirst : first = .text "fig" := by simpa [swap, MethodDescription.requestParameters,
        PassingMode.isRequest] using hsent
      have hsecond := hunsent ⟨"taken", .text, .out, 1⟩ (by simp [swap]) rfl
      rw [hfirst, Option.some.inj hsecond]
  obtain ⟨hdirect, _⟩ := hcalls caller 0 0 rfl
  have hdelivered := hdirect rfl stallKeeper hserves
  refine ⟨hdelivered.once, hdelivered.reply _ _ rfl rfl fun out hmem => ?_⟩
  have hout : out ∈ [(WireType.generic 0, Value.null), (.text, .text "pear"),
    (.generic 0, .text "fig")] := hmem
  simp only [List.mem_cons, List.not_mem_nil, or_false] at hout
  rcases hout with rfl | rfl | rfl
  · exact ⟨⟨.text, _, rfl, rfl⟩, (Value.forall_part_leaf hnull).mpr nofun⟩
  · exact ⟨⟨.text, _, rfl, rfl⟩, htext _⟩
  · exact ⟨⟨.text, _, rfl, rfl⟩, htext _⟩

end Market

end Remoting
