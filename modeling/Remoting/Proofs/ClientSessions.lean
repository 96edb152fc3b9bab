import Mathlib
import Remoting.Proofs.CallAttempts
import Remoting.Proofs.KeptEntries

/-! Sessions with one client. Nodes are built, methods are called on the nodes obtained, and the
operations that have begun are awaited or dropped, in any order. -/

namespace Remoting

/-- The node below a node that has been built, which is known by its slot. -/
def ProxyBuilder.node? (builder : ProxyBuilder) (slot : Nat) (chain : List String) :
    Option ProxyNode :=
  builder.nodes.entries[slot]?.bind fun entry => entry.2.descend? chain

namespace ProxyNode

end ProxyNode

/-- A builder, the transport, and the operations that have begun. One that has been awaited or
dropped is gone. -/
structure Session (σ : Type) where
  builder : ProxyBuilder
  channel : σ
  pending : List (Option PendingCall)

namespace Session

inductive Operation
  | build (scope : Option String) (timeout : Nat)
  | attempt (slot : Nat) (chain : List String) (entry : Entry) (name : String)
    (arguments : CallArguments)
  | await (index : Nat)
  | drop (index : Nat)

def opened : Except CallerError CallReply → List (Option PendingCall)
  | .ok (.pending call) => [some call]
  | _ => []

variable {σ : Type}

/-- The session after an operation. There is nothing to be done with a node that has not been
obtained, or an operation that is gone. -/
def step (processor : Processor σ) (session : Session σ) : Operation → Session σ
  | .build scope timeout => { session with builder := (session.builder.build scope timeout).2 }
  | .attempt slot chain entry name arguments =>
    match session.builder.node? slot chain with
    | none => session
    | some node =>
      let outcome := node.attempt processor entry name arguments
        ⟨session.builder.specializations, session.channel⟩
      { builder := { session.builder with
          specializations := (finalState outcome).specializations }
        channel := (finalState outcome).channel
        pending := session.pending ++ opened (resultOf outcome) }
  | .await index =>
    match session.pending[index]? with
    | some (some call) => { session with
        channel := finalState (call.await processor session.channel)
        pending := session.pending.set index none }
    | _ => session
  | .drop index => { session with pending := session.pending.set index none }

def after (processor : Processor σ) (session : Session σ) (history : List Operation) : Session σ :=
  history.foldl (step processor) session

def ofHistory (processor : Processor σ) (builder : ProxyBuilder) (channel : σ)
    (history : List Operation) : Session σ :=
  after processor ⟨builder, channel, []⟩ history

variable {registry : Registry} {description leaf : ServiceDescription} {builder : ProxyBuilder}
  {processor : Processor σ} {session : Session σ} {slot : Nat} {chain : List String}
  {node : ProxyNode}

theorem after_append (processor : Processor σ) (session : Session σ)
    (history later : List Operation) :
    session.after processor (history ++ later) =
      (session.after processor history).after processor later :=
  List.foldl_append

theorem ofHistory_append (processor : Processor σ) (builder : ProxyBuilder) (channel : σ)
    (history later : List Operation) :
    ofHistory processor builder channel (history ++ later) =
      (ofHistory processor builder channel history).after processor later :=
  after_append _ _ _ _

theorem step_attempt (h : session.builder.node? slot chain = some node) (entry : Entry)
    (name : String) (arguments : CallArguments) :
    session.step processor (.attempt slot chain entry name arguments) =
      let prepared :=
        node.prepareStyled entry.accepts name arguments session.builder.specializations
      let outcome := entry.dispatch processor (resultOf prepared) session.channel
      ⟨{ session.builder with specializations := finalState prepared }, finalState outcome,
        session.pending ++ opened (resultOf outcome)⟩ := by
  simp only [step, h, ProxyNode.attempt_eq, resultOf_mapState, finalState_mapState]

theorem step_attempt_of_none (h : session.builder.node? slot chain = none) (entry : Entry)
    (name : String) (arguments : CallArguments) :
    session.step processor (.attempt slot chain entry name arguments) = session := by
  rw [step, h]

theorem step_await {index : Nat} {call : PendingCall}
    (h : session.pending[index]? = some (some call)) :
    session.step processor (.await index) = { session with
      channel := finalState (call.await processor session.channel)
      pending := session.pending.set index none } := by
  rw [step, h]

theorem step_await_of_gone {index : Nat}
    (h : ∀ call, session.pending[index]? ≠ some (some call)) :
    session.step processor (.await index) = session := by
  rw [step]
  split
  · rename_i call hcall
    exact absurd hcall (h call)
  · rfl

theorem builder_step_await (processor : Processor σ) (session : Session σ) (index : Nat) :
    (session.step processor (.await index)).builder = session.builder := by
  rw [step]
  split <;> rfl

end Session

namespace ProxyBuilder

variable {registry : Registry} {description leaf : ServiceDescription} {builder : ProxyBuilder}
  {slot : Nat} {chain : List String} {node : ProxyNode}

/-- What has been built is found, and else something new is added. -/
theorem build_cases (builder : ProxyBuilder) (scope : Option String) (timeout : Nat) :
    (∃ found, builder.nodes.find? (scope, timeout) = some found ∧
        builder.build scope timeout = (found, builder)) ∨
      ∃ node, builder.nodes.find? (scope, timeout) = none ∧ builder.build scope timeout =
        ((builder.nodes.size, node),
          { builder with nodes := builder.nodes.push (scope, timeout) node }) := by
  unfold build
  cases builder.nodes.find? (scope, timeout) with
  | some found => exact .inl ⟨found, rfl, rfl⟩
  | none => exact .inr ⟨_, rfl, rfl⟩

/-- A node is of the scope and timeout of its slot, and building for them gives it again. -/
theorem Sound.node?_eq_some (h : builder.Sound registry description)
    (hnode : builder.node? slot chain = some node) :
    builder.nodes.keys[slot]? = some (node.scope, node.timeout) ∧
      (builder.build node.scope node.timeout).1.2.descend? chain = some node := by
  obtain ⟨⟨⟨scope, timeout⟩, root⟩, hentry, hbelow⟩ := Option.bind_eq_some_iff.mp hnode
  obtain rfl := h.nodes _ _ (List.mem_of_getElem? hentry)
  obtain ⟨hscope, htimeout⟩ : node.scope = scope ∧ node.timeout = timeout := by
    have hrel := @ProxyNode.descend?_rel registry description
      ⟨builder.service, builder.interface, [builder.service.name], scope, timeout⟩ h.service chain
    rw [hbelow] at hrel
    obtain ⟨_, _, _, hsame⟩ := exists_of_rel_some hrel
    rw [hsame]
    exact ⟨rfl, rfl⟩
  rw [hscope, htimeout, h.root, Table.keys, List.getElem?_map, hentry]
  exact ⟨rfl, hbelow⟩

theorem Sound.stands (h : builder.Sound registry description)
    (hnode : builder.node? slot chain = some node) :
    ∃ leaf, description.descend chain = .ok leaf ∧ leaf.compile registry = .ok node.service ∧
      node.place = description.name :: chain := by
  have hrel := h.below node.scope node.timeout chain
  rw [(h.node?_eq_some hnode).2] at hrel
  obtain ⟨leaf, hleaf, hcompiled, hplace, _⟩ := exists_of_rel_some hrel
  exact ⟨leaf, toOption_eq_some_iff.mp hleaf, hcompiled, hplace⟩

end ProxyBuilder

namespace Session

variable {σ : Type} {registry : Registry} {description : ServiceDescription}
  {builder : ProxyBuilder} {processor : Processor σ} {session : Session σ}

theorem reached_step (h : session.builder.Reached registry description) (operation : Operation) :
    (session.step processor operation).builder.Reached registry description := by
  cases operation with
  | build scope timeout => exact .built h scope timeout
  | attempt slot chain entry name arguments =>
    cases hnode : session.builder.node? slot chain with
    | none =>
      rw [step_attempt_of_none hnode]
      exact h
    | some node =>
      rw [step_attempt hnode]
      dsimp only
      have hprepared := h.prepared (h.sound.node?_eq_some hnode).2 name arguments
      rw [node.prepare_state] at hprepared
      rw [node.finalState_prepareStyled]
      cases hfound : node.method name with
      | error error => exact h
      | ok compiled =>
        simp only [hfound] at hprepared
        dsimp only
        split
        · exact hprepared
        · exact h
  | await index =>
    rw [builder_step_await]
    exact h
  | drop index => exact h

theorem reached_after (h : session.builder.Reached registry description)
    (history : List Operation) :
    (session.after processor history).builder.Reached registry description := by
  induction history generalizing session with
  | nil => exact h
  | cons operation history ih => exact ih (reached_step h operation)

theorem reached_ofHistory (h : ProxyBuilder.compile registry description = .ok builder)
    (processor : Processor σ) (channel : σ) (history : List Operation) :
    (ofHistory processor builder channel history).builder.Reached registry description :=
  reached_after (.compiled h) history

section Nodes

/-- Only building adds a node, and none where one is found. -/
theorem nodes_step (processor : Processor σ) (session : Session σ) (operation : Operation) :
    (session.step processor operation).builder.nodes = session.builder.nodes ∧
        (∀ scope timeout, operation = .build scope timeout →
          (scope, timeout) ∈ session.builder.nodes.keys) ∨
      ∃ scope timeout node, operation = .build scope timeout ∧
        session.builder.nodes.find? (scope, timeout) = none ∧
        (session.step processor operation).builder.nodes =
          session.builder.nodes.push (scope, timeout) node := by
  cases operation with
  | build scope timeout =>
    rcases session.builder.build_cases scope timeout with ⟨found, hfound, hbuild⟩ |
      ⟨node, hnone, hbuild⟩
    · refine .inl ⟨by rw [step, hbuild], fun scope timeout hsame => ?_⟩
      cases hsame
      exact Table.mem_keys_of_find? hfound
    · exact .inr ⟨scope, timeout, node, rfl, hnone, by rw [step, hbuild]⟩
  | attempt slot chain entry name arguments =>
    refine .inl ⟨?_, nofun⟩
    rw [step]
    split <;> rfl
  | await index => exact .inl ⟨by rw [builder_step_await], nofun⟩
  | drop index => exact .inl ⟨rfl, nofun⟩

theorem find?_step {key : Option String × Nat} {found : Nat × ProxyNode}
    (h : session.builder.nodes.find? key = some found) (operation : Operation) :
    (session.step processor operation).builder.nodes.find? key = some found := by
  rcases nodes_step processor session operation with ⟨hsame, _⟩ | ⟨_, _, node, _, _, hpush⟩
  · rw [hsame]
    exact h
  · rw [hpush]
    exact Table.find?_push_of_find? h _ node

theorem find?_after {key : Option String × Nat} {found : Nat × ProxyNode}
    (h : session.builder.nodes.find? key = some found) (history : List Operation) :
    (session.after processor history).builder.nodes.find? key = some found := by
  induction history generalizing session with
  | nil => exact h
  | cons operation history ih => exact ih (find?_step h operation)

end Nodes

section Pending

variable {index : Nat} {slot : Option PendingCall} {operation : Operation}

theorem pending_step (h : session.pending[index]? = some slot) (hawait : operation ≠ .await index)
    (hdrop : operation ≠ .drop index) :
    (session.step processor operation).pending[index]? = some slot := by
  obtain ⟨hlt, _⟩ := List.getElem?_eq_some_iff.mp h
  cases operation with
  | build scope timeout => exact h
  | attempt place chain entry name arguments =>
    rw [step]
    split
    · exact h
    · exact (List.getElem?_append_left hlt).trans h
  | await other =>
    have hne : other ≠ index := fun hsame => hawait (hsame ▸ rfl)
    rw [step]
    split
    · exact (List.getElem?_set_ne hne).trans h
    · exact h
  | drop other =>
    have hne : other ≠ index := fun hsame => hdrop (hsame ▸ rfl)
    exact (List.getElem?_set_ne hne).trans h

/-- An operation stays as it is until it is awaited or dropped. -/
theorem pending_after {later : List Operation} (h : session.pending[index]? = some slot)
    (hawait : .await index ∉ later) (hdrop : .drop index ∉ later) :
    (session.after processor later).pending[index]? = some slot := by
  induction later generalizing session with
  | nil => exact h
  | cons operation later ih =>
    rw [List.mem_cons, not_or] at hawait hdrop
    exact ih (pending_step h (Ne.symm hawait.1) (Ne.symm hdrop.1)) hawait.2 hdrop.2

theorem gone_of_mem (hlt : index < session.pending.length)
    (h : operation ∈ [Operation.await index, .drop index]) :
    (session.step processor operation).pending[index]? = some none := by
  rw [List.mem_cons, List.mem_singleton] at h
  rcases h with rfl | rfl
  · rw [step]
    split
    · exact List.getElem?_set_self hlt
    · rename_i hgone
      have hslot := List.getElem?_eq_getElem hlt
      cases hcall : session.pending[index] with
      | none => rw [hslot, hcall]
      | some call => exact absurd (hslot.trans (congrArg some hcall)) (hgone call)
  · exact List.getElem?_set_self hlt

theorem gone_step (h : session.pending[index]? = some none) (operation : Operation) :
    (session.step processor operation).pending[index]? = some none := by
  obtain ⟨hlt, _⟩ := List.getElem?_eq_some_iff.mp h
  by_cases hmem : operation ∈ [Operation.await index, .drop index]
  · exact gone_of_mem hlt hmem
  · rw [List.mem_cons, List.mem_singleton, not_or] at hmem
    exact pending_step h hmem.1 hmem.2

/-- What is gone does not come back. -/
theorem gone_after (h : session.pending[index]? = some none) (later : List Operation) :
    (session.after processor later).pending[index]? = some none := by
  induction later generalizing session with
  | nil => exact h
  | cons operation later ih => exact ih (gone_step h operation)

end Pending

end Session

end Remoting
