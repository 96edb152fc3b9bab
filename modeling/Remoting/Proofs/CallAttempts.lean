import Mathlib
import Remoting.Client.Caller
import Remoting.Proofs.ArgumentGates

/-! Attempts at calls. Whichever way a method is called, the call is prepared first, and what has
been prepared before makes no difference to what comes of it. -/

namespace Remoting

/-- The result of a run, whatever state it leaves. -/
def resultOf {ε σ α : Type} : EStateM.Result ε σ α → Except ε α
  | .ok result _ => .ok result
  | .error error _ => .error error

/-- The same outcome with a state seen otherwise. -/
def mapState {ε σ τ α : Type} (f : σ → τ) : EStateM.Result ε σ α → EStateM.Result ε τ α
  | .ok result state => .ok result (f state)
  | .error error state => .error error (f state)

section MapState

variable {ε σ τ α : Type} (f : σ → τ) (outcome : EStateM.Result ε σ α)

@[simp] theorem resultOf_mapState : resultOf (mapState f outcome) = resultOf outcome := by
  cases outcome <;> rfl

@[simp] theorem finalState_mapState : finalState (mapState f outcome) = f (finalState outcome) := by
  cases outcome <;> rfl

end MapState

inductive Entry
  | call | callAsync | invoke
deriving DecidableEq, Repr

namespace Entry

/-- The styles that a way of calling is for. -/
def accepts : Entry → RemotingStyle → Bool
  | call, style => style == .direct
  | callAsync, style => style != .direct
  | invoke, _ => true

/-- What a call comes to that is refused before anything is sent. -/
def refuse : Entry → CallerError → Except CallerError CallReply
  | callAsync, error => .ok (.pending (.failed error))
  | _, error => .error error

/-- What follows once it is known whether a call could be prepared. -/
def dispatch {σ : Type} (entry : Entry) (processor : Processor σ)
    (preparation : Except CallerError PreparedCall) (channel : σ) :
    EStateM.Result CallerError σ CallReply :=
  match preparation with
  | .error error =>
    match entry.refuse error with
    | .ok reply => .ok reply channel
    | .error error => .error error channel
  | .ok prepared =>
    if prepared.method.style = .direct then
      match processor.send .blocking prepared.request channel with
      | .error error channel => .error error channel
      | .ok payload channel =>
        match ProxyNode.directReply prepared payload with
        | .error error => .error error channel
        | .ok reply => .ok (.direct reply) channel
    else .ok (.pending (ProxyNode.pendingOf prepared)) channel

end Entry

namespace ProxyNode

variable {σ : Type} {node : ProxyNode} {name : String} {arguments : CallArguments}
  {specializations after : Specializations} {prepared : PreparedCall}

/-- A call by one of the ways. What has begun asynchronously is a pending operation, also where it
has failed already. -/
def attempt (processor : Processor σ) (node : ProxyNode) (entry : Entry) (name : String)
    (arguments : CallArguments) : EStateM CallerError (CallerState σ) CallReply :=
  match entry with
  | .call => CallReply.direct <$> node.call processor name arguments
  | .invoke => node.invoke processor name arguments
  | .callAsync => fun state =>
    match node.callAsync name arguments state.specializations with
    | (operation, specializations) => .ok (.pending operation) { state with specializations }

theorem prepareStyled_apply (node : ProxyNode) (expected : RemotingStyle → Bool) (name : String)
    (arguments : CallArguments) (specializations : Specializations) :
    node.prepareStyled expected name arguments specializations =
      match node.method name with
      | .error error => .error error specializations
      | .ok compiled =>
        if expected compiled.description.style then node.prepare name arguments specializations
        else .error (.remotingMismatch compiled.description.name compiled.description.style)
          specializations := by
  unfold prepareStyled
  cases node.method name with
  | error error => rfl
  | ok compiled =>
    dsimp only
    split <;> rfl

theorem prepareStyled_of_accepts {compiled : CompiledMethod} (h : node.method name = .ok compiled)
    {expected : RemotingStyle → Bool} (hstyle : expected compiled.description.style = true)
    (arguments : CallArguments) (specializations : Specializations) :
    node.prepareStyled expected name arguments specializations =
      node.prepare name arguments specializations := by
  rw [prepareStyled_apply, h]
  exact if_pos hstyle

theorem prepareStyled_invoke (node : ProxyNode) (name : String) (arguments : CallArguments)
    (specializations : Specializations) :
    node.prepareStyled Entry.invoke.accepts name arguments specializations =
      node.prepare name arguments specializations := by
  rw [prepareStyled_apply, prepare_eq]
  cases node.method name <;> rfl

theorem accepts_of_prepareStyled {expected : RemotingStyle → Bool}
    (h : node.prepareStyled expected name arguments specializations = .ok prepared after) :
    expected prepared.method.style = true ∧
      node.prepare name arguments specializations = .ok prepared after := by
  rw [prepareStyled_apply] at h
  cases hmethod : node.method name with
  | error error =>
    rw [hmethod] at h
    cases h
  | ok compiled =>
    simp only [hmethod] at h
    by_cases hstyle : expected compiled.description.style = true
    · rw [if_pos hstyle] at h
      obtain ⟨found, _, _, hfound, _, _, _, hsame, _⟩ := prepare_eq_ok h
      rw [hmethod] at hfound
      cases hfound
      exact ⟨hsame ▸ hstyle, h⟩
    · rw [if_neg hstyle] at h
      cases h

/-- What is kept is changed by the search for a plan alone, which comes behind the check of the
style. -/
theorem finalState_prepareStyled (node : ProxyNode) (expected : RemotingStyle → Bool)
    (name : String) (arguments : CallArguments) (specializations : Specializations) :
    finalState (node.prepareStyled expected name arguments specializations) =
      match node.method name with
      | .error _ => specializations
      | .ok compiled =>
        if expected compiled.description.style then
          finalState (compiled.planFor node.place arguments.types specializations)
        else specializations := by
  rw [prepareStyled_apply]
  cases hfound : node.method name with
  | error error => rfl
  | ok compiled =>
    dsimp only
    split
    · rw [prepare_state, hfound]
    · rfl

theorem map_sendDirect (processor : Processor σ) (entry : Entry)
    (hstyle : prepared.method.style = .direct) (channel : σ) :
    (CallReply.direct <$> sendDirect processor prepared) ⟨after, channel⟩ =
      mapState (CallerState.mk after) (entry.dispatch processor (.ok prepared) channel) := by
  simp only [Functor.map, EStateM.map, sendDirect_eq, Entry.dispatch, if_pos hstyle]
  cases processor.send .blocking prepared.request channel with
  | error error channel => rfl
  | ok payload channel =>
    dsimp only
    cases directReply prepared payload <;> rfl

theorem dispatch_of_async (processor : Processor σ) (entry : Entry)
    (hstyle : prepared.method.style ≠ .direct) (channel : σ) :
    entry.dispatch processor (.ok prepared) channel =
      .ok (.pending (pendingOf prepared)) channel :=
  if_neg hstyle

theorem attempt_call (processor : Processor σ) (node : ProxyNode) (name : String)
    (arguments : CallArguments) (state : CallerState σ) :
    node.attempt processor .call name arguments state =
      match node.prepareStyled Entry.call.accepts name arguments state.specializations with
      | .error error after => .error error ⟨after, state.channel⟩
      | .ok prepared after =>
        (CallReply.direct <$> sendDirect processor prepared) ⟨after, state.channel⟩ := by
  show (CallReply.direct <$> node.call processor name arguments) state = _
  simp only [Functor.map, EStateM.map, call, bind, EStateM.bind, CallerState.locally]
  show _ = match node.prepareStyled (· == .direct) name arguments state.specializations with
    | .error error after => _
    | .ok prepared after => _
  cases node.prepareStyled (· == .direct) name arguments state.specializations <;> rfl

theorem attempt_callAsync (processor : Processor σ) (node : ProxyNode) (name : String)
    (arguments : CallArguments) (state : CallerState σ) :
    node.attempt processor .callAsync name arguments state =
      match node.prepareStyled Entry.callAsync.accepts name arguments state.specializations with
      | .error error after => .ok (.pending (.failed error)) ⟨after, state.channel⟩
      | .ok prepared after => .ok (.pending (pendingOf prepared)) ⟨after, state.channel⟩ := by
  show (match node.callAsync name arguments state.specializations with
    | (operation, specializations) => EStateM.Result.ok (CallReply.pending operation)
        { state with specializations }) = _
  unfold callAsync
  show _ = match node.prepareStyled (· != .direct) name arguments state.specializations with
    | .error error after => _
    | .ok prepared after => _
  cases node.prepareStyled (· != .direct) name arguments state.specializations <;> rfl

theorem attempt_invoke (processor : Processor σ) (node : ProxyNode) (name : String)
    (arguments : CallArguments) (state : CallerState σ) :
    node.attempt processor .invoke name arguments state =
      match node.prepareStyled Entry.invoke.accepts name arguments state.specializations with
      | .error error after => .error error ⟨after, state.channel⟩
      | .ok prepared after =>
        if prepared.method.style = .direct then
          (CallReply.direct <$> sendDirect processor prepared) ⟨after, state.channel⟩
        else .ok (.pending (pendingOf prepared)) ⟨after, state.channel⟩ := by
  rw [prepareStyled_invoke]
  show node.invoke processor name arguments state = _
  simp only [invoke, Functor.map, EStateM.map, bind, EStateM.bind, CallerState.locally]
  cases node.prepare name arguments state.specializations with
  | error error after => rfl
  | ok prepared after =>
    dsimp only
    split <;> rfl

/-- Preparation alone reads and changes what is kept, and only what follows it reaches the
transport. -/
theorem attempt_eq (processor : Processor σ) (node : ProxyNode) (entry : Entry) (name : String)
    (arguments : CallArguments) (state : CallerState σ) :
    node.attempt processor entry name arguments state =
      mapState (CallerState.mk
          (finalState (node.prepareStyled entry.accepts name arguments state.specializations)))
        (entry.dispatch processor
          (resultOf (node.prepareStyled entry.accepts name arguments state.specializations))
          state.channel) := by
  cases entry with
  | call =>
    rw [attempt_call]
    cases h : node.prepareStyled Entry.call.accepts name arguments state.specializations with
    | error error after => rfl
    | ok prepared after =>
      have hstyle : prepared.method.style = .direct := by
        simpa [Entry.accepts] using (accepts_of_prepareStyled h).1
      exact map_sendDirect processor .call hstyle _
  | callAsync =>
    rw [attempt_callAsync]
    cases h : node.prepareStyled Entry.callAsync.accepts name arguments state.specializations with
    | error error after => rfl
    | ok prepared after =>
      have hstyle : prepared.method.style ≠ .direct := by
        simpa [Entry.accepts] using (accepts_of_prepareStyled h).1
      dsimp only [resultOf]
      rw [dispatch_of_async processor .callAsync hstyle]
      rfl
  | invoke =>
    rw [attempt_invoke]
    cases node.prepareStyled Entry.invoke.accepts name arguments state.specializations with
    | error error after => rfl
    | ok prepared after =>
      dsimp only [resultOf]
      by_cases hstyle : prepared.method.style = .direct
      · rw [if_pos hstyle]
        exact map_sendDirect processor .invoke hstyle _
      · rw [if_neg hstyle, dispatch_of_async processor .invoke hstyle]
        rfl

theorem invoke_of_direct {compiled : CompiledMethod} (h : node.method name = .ok compiled)
    (hstyle : compiled.description.style = .direct) (processor : Processor σ)
    (arguments : CallArguments) (state : CallerState σ) :
    node.invoke processor name arguments state =
      (CallReply.direct <$> node.call processor name arguments) state := by
  have hcall : Entry.call.accepts compiled.description.style = true := by
    simp [Entry.accepts, hstyle]
  show node.attempt processor .invoke name arguments state =
    node.attempt processor .call name arguments state
  rw [attempt_eq, attempt_eq, prepareStyled_invoke, prepareStyled_of_accepts h hcall]
  cases node.prepare name arguments state.specializations <;> rfl

/-- An asynchronous method is invoked as it is called, but a call that fails does so at once. -/
theorem invoke_of_async {compiled : CompiledMethod} (h : node.method name = .ok compiled)
    (hstyle : compiled.description.style ≠ .direct) (processor : Processor σ)
    (arguments : CallArguments) (state : CallerState σ) :
    node.invoke processor name arguments state =
      match node.callAsync name arguments state.specializations with
      | (.failed error, after) => .error error ⟨after, state.channel⟩
      | (operation, after) => .ok (.pending operation) ⟨after, state.channel⟩ := by
  have hasync : (compiled.description.style != .direct) = true := by simp [hstyle]
  show node.attempt processor .invoke name arguments state = _
  rw [attempt_invoke, prepareStyled_invoke, callAsync, prepareStyled_of_accepts h hasync]
  cases hprepare : node.prepare name arguments state.specializations with
  | error error after => rfl
  | ok prepared after =>
    obtain ⟨found, _, _, hfound, _, _, _, hsame, _⟩ := prepare_eq_ok hprepare
    rw [h] at hfound
    cases hfound
    exact if_neg (hsame ▸ hstyle)

end ProxyNode

section Fresh

variable {registry : Registry} {description leaf : ServiceDescription} {method : MethodDescription}
  {compiled : CompiledMethod} {specializations : Specializations} {place chain : List String}
  {node : ProxyNode} {name : String}

/-- A specialization that is kept is the one that would be made. -/
theorem CompiledMethod.resultOf_specialize (hf : specializations.Faithful registry description)
    (hc : CompiledMethod.compile registry method = .ok compiled)
    (hm : description.HasMethod place method) (arguments : List WireType) :
    resultOf (compiled.specialize place arguments specializations) =
      (CallPlan.build registry method arguments).mapError .codec := by
  obtain ⟨rfl, rfl, _⟩ := compile_eq_ok hc
  rw [specialize_eq]
  cases hfind : specializations.find? ⟨place, compiled.description.name, arguments⟩ with
  | some found =>
    rw [hf _ _ (Table.mem_of_find? hfind) _ rfl hm]
    rfl
  | none => cases CallPlan.build compiled.registry compiled.description arguments <;> rfl

theorem CompiledMethod.resultOf_planFor (hf : specializations.Faithful registry description)
    (hc : CompiledMethod.compile registry method = .ok compiled)
    (hm : description.HasMethod place method) (arguments : List WireType) :
    resultOf (compiled.planFor place arguments specializations) =
      resultOf (compiled.planFor place arguments .empty) := by
  rcases compiled.planFor_cases place arguments with ⟨error, _, hrefused⟩ |
    ⟨_, ⟨plan, _, hfound⟩ | ⟨_, _, hgeneric⟩⟩
  · rw [hrefused, hrefused]
    rfl
  · rw [hfound, hfound]
    rfl
  · rw [hgeneric, hgeneric, resultOf_specialize hf hc hm, resultOf_specialize .empty hc hm]

namespace ProxyNode

theorem resultOf_prepare (node : ProxyNode) (name : String) (arguments : CallArguments)
    (specializations : Specializations) :
    resultOf (node.prepare name arguments specializations) =
      match node.method name with
      | .error error => .error error
      | .ok compiled =>
        match resultOf (compiled.planFor node.place arguments.types specializations) with
        | .error error => .error error
        | .ok plan =>
          match compiled.requestPayload plan arguments.types arguments.values with
          | .error error => .error error
          | .ok payload =>
            match ServicePath.ofMethod node.place name with
            | .error error => .error (.path error)
            | .ok path => .ok ⟨compiled.description, plan,
                ⟨node.interface, path, node.scope, payload, node.timeout⟩⟩ := by
  rw [prepare_eq]
  cases node.method name with
  | error error => rfl
  | ok compiled =>
    dsimp only
    cases compiled.planFor node.place arguments.types specializations with
    | error error after => rfl
    | ok plan after =>
      dsimp only [resultOf]
      cases compiled.requestPayload plan arguments.types arguments.values with
      | error error => rfl
      | ok payload => cases ServicePath.ofMethod node.place name <;> rfl

/-- A call is prepared as if nothing were kept. -/
theorem resultOf_prepareStyled (hf : specializations.Faithful registry description)
    (hleaf : description.descend chain = .ok leaf) (hc : leaf.compile registry = .ok node.service)
    (hplace : node.place = description.name :: chain) (expected : RemotingStyle → Bool)
    (name : String) (arguments : CallArguments) :
    resultOf (node.prepareStyled expected name arguments specializations) =
      resultOf (node.prepareStyled expected name arguments .empty) := by
  rw [prepareStyled_apply, prepareStyled_apply]
  cases hfound : node.method name with
  | error error => rfl
  | ok compiled =>
    obtain ⟨method, hmethod, hcompiled⟩ := compiled_of_method hc hfound
    have hhas := hasMethod_of_method? hleaf hplace hmethod
    have hplan := CompiledMethod.resultOf_planFor hf hcompiled hhas arguments.types
    dsimp only
    split
    · rw [resultOf_prepare, resultOf_prepare, hfound]
      dsimp only
      rw [hplan]
    · rfl

end ProxyNode

end Fresh

/-- A call gets a plan: the method is known and of a style that the way of calling is for, the type
arguments are as many as it has generic parameters, closed and of types with codecs, and so are the
types of the method itself. -/
structure ProxyNode.Plans (node : ProxyNode) (registry : Registry) (entry : Entry) (name : String)
    (arguments : List WireType) (method : MethodDescription) (plan : CallPlan) : Prop where
  known : ∃ compiled, node.method name = .ok compiled ∧ compiled.description = method
  style : entry.accepts method.style = true
  arity : arguments.length = method.arity
  types : ∀ type ∈ arguments, type.IsArgument registry
  planned : CallPlan.build registry method arguments = .ok plan

/-- A call passes all checks of the caller's side: besides, its values are as many as it has to send
and can be encoded. -/
structure ProxyNode.Passes (node : ProxyNode) (registry : Registry) (entry : Entry) (name : String)
    (arguments : CallArguments) (method : MethodDescription) (plan : CallPlan) (bytes : Bytes) :
    Prop extends node.Plans registry entry name arguments.types method plan where
  count : arguments.values.length = plan.request.length
  encoded : encodeFields (argumentFields arguments.types ++ plan.request.zip arguments.values) =
    .ok bytes

namespace ProxyNode

variable {registry : Registry} {description leaf : ServiceDescription} {chain : List String}
  {node : ProxyNode} {entry : Entry} {name : String} {arguments : CallArguments}
  {specializations : Specializations} {prepared : PreparedCall} {compiled : CompiledMethod}

def requestTo (node : ProxyNode) (path : ServicePath) (arguments : CallArguments) (bytes : Bytes) :
    Request :=
  ⟨node.interface, path, node.scope, CompiledMethod.payloadOf arguments.types bytes, node.timeout⟩

theorem resultOf_eq_ok_iff {ε σ α : Type} {result : EStateM.Result ε σ α} {value : α} :
    resultOf result = .ok value ↔ ∃ state, result = .ok value state := by
  cases result <;> simp [resultOf]

theorem plans_iff (hf : specializations.Faithful registry description)
    (hleaf : description.descend chain = .ok leaf) (hc : leaf.compile registry = .ok node.service)
    (hplace : node.place = description.name :: chain) (hfound : node.method name = .ok compiled)
    {types : List WireType} {method : MethodDescription} {plan : CallPlan} :
    node.Plans registry entry name types method plan ↔ compiled.description = method ∧
      entry.accepts method.style = true ∧
        ∃ after, compiled.planFor node.place types specializations = .ok plan after := by
  obtain ⟨found, hmethod, hcompiled⟩ := compiled_of_method hc hfound
  have hhas := hasMethod_of_method? hleaf hplace hmethod
  have hplan : (∃ after, compiled.planFor node.place types specializations = .ok plan after) ↔ _ :=
    CompiledMethod.exists_planFor_iff hf hcompiled hhas
  obtain ⟨rfl, _⟩ := CompiledMethod.compile_eq_ok hcompiled
  simp only [← WireType.isArgument_iff registry] at hplan
  constructor
  · intro h
    obtain ⟨other, hknown, rfl⟩ := h.known
    rw [hfound] at hknown
    cases hknown
    exact ⟨rfl, h.style, hplan.mpr ⟨h.arity, h.types, h.planned⟩⟩
  · rintro ⟨rfl, hstyle, hafter⟩
    obtain ⟨harity, htypes, hbuilt⟩ := hplan.mp hafter
    exact ⟨⟨compiled, hfound, rfl⟩, hstyle, harity, htypes, hbuilt⟩

/-- The calls that are prepared are those that pass all checks. -/
theorem resultOf_prepareStyled_eq_ok_iff (hf : specializations.Faithful registry description)
    (hleaf : description.descend chain = .ok leaf) (hc : leaf.compile registry = .ok node.service)
    (hplace : node.place = description.name :: chain) :
    resultOf (node.prepareStyled entry.accepts name arguments specializations) = .ok prepared ↔
      ∃ bytes path,
        node.Passes registry entry name arguments prepared.method prepared.plan bytes ∧
          ServicePath.ofMethod node.place name = .ok path ∧
          prepared.request = node.requestTo path arguments bytes := by
  constructor
  · intro h
    obtain ⟨after, h⟩ := resultOf_eq_ok_iff.mp h
    obtain ⟨hstyle, h⟩ := accepts_of_prepareStyled h
    obtain ⟨compiled, payload, path, hfound, hplan, hpayload, hpath, hsame, hrequest⟩ :=
      prepare_eq_ok h
    have hplans := (plans_iff hf hleaf hc hplace hfound).mpr ⟨hsame.symm, hstyle, after, hplan⟩
    obtain ⟨hcount, bytes, hbytes, rfl⟩ :=
      CompiledMethod.requestPayload_eq_ok_iff_written.mp hpayload
    exact ⟨bytes, path, ⟨hplans, hcount, hbytes⟩, hpath, hrequest⟩
  · rintro ⟨bytes, path, hpasses, hpath, hrequest⟩
    obtain ⟨compiled, hfound, _⟩ := hpasses.known
    obtain ⟨hsame, hstyle, after, hplan⟩ := (plans_iff hf hleaf hc hplace hfound).mp hpasses.toPlans
    have hpayload : compiled.requestPayload prepared.plan arguments.types arguments.values =
        .ok (CompiledMethod.payloadOf arguments.types bytes) :=
      CompiledMethod.requestPayload_eq_ok_iff_written.mpr
        ⟨hpasses.count, bytes, hpasses.encoded, rfl⟩
    rw [prepareStyled_of_accepts hfound (hsame ▸ hstyle), resultOf_prepare]
    simp only [hfound, hplan, resultOf, hpayload, hpath]
    obtain ⟨_, _, request⟩ := prepared
    cases hrequest
    cases hsame
    rfl

end ProxyNode

end Remoting
