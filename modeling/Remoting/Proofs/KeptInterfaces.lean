import Mathlib
import Remoting.Interface.Catalogue
import Remoting.Proofs.CallAttempts
import Remoting.Proofs.CodecCoverage
import Remoting.Proofs.DescribedMethods
import Remoting.Proofs.KeyedCaches

/-! What is kept by the identity of an interface: descriptions in a catalogue, and builders in a
client. The first shape of an identity that can be described stays, and so does the first
description of it that can be compiled. -/

namespace Remoting

theorem InterfaceShape.interface_of_describe {shape : InterfaceShape}
    {service : ServiceDescription} (h : shape.describe = .ok service) :
    service.interface = shape.id := by
  obtain ⟨id, methods, properties⟩ := shape
  obtain ⟨_, _, _, _, _, _, _, _, _, rfl⟩ := describeWithin_eq_ok_iff.mp h
  rfl

namespace Catalogue

inductive Operation
  | describe (shape : InterfaceShape)
  | get (id : String)

/-- What is described, with its identity. -/
def Operation.attempt? : Operation → Option (String × Except DescriptionError ServiceDescription)
  | describe shape => some (shape.id, shape.describe)
  | get _ => none

def step (catalogue : Catalogue) : Operation → Catalogue
  | .describe shape => (catalogue.describe shape).2
  | .get _ => catalogue

def after (catalogue : Catalogue) (history : List Operation) : Catalogue :=
  history.foldl step catalogue

def ofHistory (history : List Operation) : Catalogue :=
  after .empty history

def attempts (history : List Operation) :
    List (String × Except DescriptionError ServiceDescription) :=
  history.filterMap Operation.attempt?

def Operation.shape? : Operation → Option InterfaceShape
  | describe shape => some shape
  | get _ => none

def cache : KeyedCache Catalogue InterfaceShape String DescriptionError ServiceDescription where
  table catalogue := catalogue
  withTable _ entries := entries
  key := InterfaceShape.id
  make _ := InterfaceShape.describe
  withTable_table _ := rfl
  table_withTable _ _ := rfl
  withTable_withTable _ _ _ := rfl
  make_withTable _ _ := rfl

theorem describe_eq_ask (catalogue : Catalogue) (shape : InterfaceShape) :
    catalogue.describe shape = cache.ask catalogue shape := by
  show _ = catalogue.keep shape.id shape.describe
  unfold describe Table.keep
  cases catalogue.find? shape.id with
  | some found => rfl
  | none =>
    cases h : shape.describe with
    | error error => rfl
    | ok service =>
      dsimp only
      rw [InterfaceShape.interface_of_describe h]

theorem after_eq (catalogue : Catalogue) (history : List Operation) :
    catalogue.after history = cache.after catalogue (history.filterMap Operation.shape?) := by
  induction history generalizing catalogue with
  | nil => rfl
  | cons operation history ih =>
    cases operation with
    | describe shape =>
      show (catalogue.describe shape).2.after history = _
      rw [ih, describe_eq_ask]
      rfl
    | get id => exact ih catalogue

theorem attempts_eq (history : List Operation) :
    attempts history = cache.attempts .empty (history.filterMap Operation.shape?) := by
  rw [attempts, KeyedCache.attempts, List.map_filterMap]
  exact congrArg (List.filterMap · history) (funext fun operation => by cases operation <;> rfl)

theorem mem_filterMap_shape? {history : List Operation} {shape : InterfaceShape} :
    shape ∈ history.filterMap Operation.shape? ↔ .describe shape ∈ history := by
  rw [List.mem_filterMap]
  constructor
  · rintro ⟨operation, hmem, h⟩
    cases operation <;> cases h
    exact hmem
  · exact fun hmem => ⟨_, hmem, rfl⟩

end Catalogue

namespace Client

/-- The client after builders have been asked for, one after the other. -/
def after (client : Client) (descriptions : List ServiceDescription) : Client :=
  descriptions.foldl (fun client description => (client.builderFor description).2) client

def ofHistory (registry : Registry) (descriptions : List ServiceDescription) : Client :=
  after (.ofRegistry registry) descriptions

/-- What is compiled, with its identity. -/
def attempts (registry : Registry) (descriptions : List ServiceDescription) :
    List (String × Except CompileError ProxyBuilder) :=
  descriptions.map fun description =>
    (description.interface, ProxyBuilder.compile registry description)

def cache : KeyedCache Client ServiceDescription String CompileError ProxyBuilder where
  table := builders
  withTable client entries := { client with builders := entries }
  key := ServiceDescription.interface
  make client := ProxyBuilder.compile client.registry
  withTable_table _ := rfl
  table_withTable _ _ := rfl
  withTable_withTable _ _ _ := rfl
  make_withTable _ _ := rfl

theorem builderFor_eq_ask (client : Client) (description : ServiceDescription) :
    client.builderFor description = cache.ask client description := by
  show _ =
    let kept := client.builders.keep description.interface
      (ProxyBuilder.compile client.registry description)
    (kept.1, { client with builders := kept.2 })
  unfold builderFor Table.keep
  cases client.builders.find? description.interface with
  | some found => rfl
  | none => cases ProxyBuilder.compile client.registry description <;> rfl

theorem after_eq (client : Client) (descriptions : List ServiceDescription) :
    client.after descriptions = cache.after client descriptions := by
  simp only [after, KeyedCache.after, builderFor_eq_ask]

theorem registry_after (client : Client) (descriptions : List ServiceDescription) :
    (client.after descriptions).registry = client.registry := by
  rw [after_eq, KeyedCache.after_eq]
  rfl

end Client

section Bare

/-- A builder as it was compiled, without the nodes and specializations that have come since. -/
def ProxyBuilder.bare (builder : ProxyBuilder) : ProxyBuilder :=
  { builder with nodes := .empty, specializations := .empty }

def Client.bare (client : Client) : Client :=
  { client with builders := client.builders.map ProxyBuilder.bare }

theorem ProxyBuilder.bare_build (builder : ProxyBuilder) (scope : Option String) (timeout : Nat) :
    (builder.build scope timeout).2.bare = builder.bare := by
  unfold build
  split <;> rfl

theorem ProxyBuilder.map_bare_compile (registry : Registry) (description : ServiceDescription) :
    (compile registry description).map bare = compile registry description := by
  unfold compile
  cases description.compile registry <;> rfl

theorem Client.bare_builderFor (client : Client) (description : ServiceDescription) :
    client.bare.builderFor description =
      ((client.builderFor description).1.map fun found => (found.1, found.2.bare),
        (client.builderFor description).2.bare) := by
  have hkeep := client.builders.map_keep ProxyBuilder.bare description.interface
    (ProxyBuilder.compile client.registry description)
  rw [ProxyBuilder.map_bare_compile] at hkeep
  rw [builderFor_eq_ask, builderFor_eq_ask]
  exact congrArg (fun kept => (kept.1, Client.mk client.registry kept.2)) hkeep

end Bare

namespace Caller

inductive Operation
  | builderFor (description : ServiceDescription)
  | proxy (description : ServiceDescription) (scope : Option String) (timeout : Nat)
  | attempt (handle : NodeHandle) (entry : Entry) (name : String) (arguments : CallArguments)
  | await (pending : PendingCall)

/-- The description that a builder is asked for with. -/
def Operation.description? : Operation → Option ServiceDescription
  | builderFor description | proxy description _ _ => some description
  | attempt _ _ _ _ | await _ => none

variable {σ α : Type}

def step (processor : Processor σ) (caller : Caller σ) : Operation → Caller σ
  | .builderFor description =>
    { caller with client := (caller.client.builderFor description).2 }
  | .proxy description scope timeout => (caller.proxy description scope timeout).2
  | .attempt handle .call name arguments => (caller.call processor handle name arguments).2
  | .attempt handle .invoke name arguments => (caller.invoke processor handle name arguments).2
  | .attempt handle .callAsync name arguments => (caller.callAsync handle name arguments).2
  | .await pending => (caller.await processor pending).2

def after (processor : Processor σ) (caller : Caller σ) (history : List Operation) : Caller σ :=
  history.foldl (step processor) caller

variable {caller : Caller σ} {slot : Nat} {builder former : ProxyBuilder}

theorem bare_putBuilder (h : caller.builder? slot = some former)
    (hsame : builder.bare = former.bare) :
    (caller.putBuilder slot builder).client.bare = caller.client.bare :=
  congrArg (Client.mk caller.client.registry) (Table.map_put h hsame)

/-- A builder that is given out is in its slot afterwards. -/
theorem builder?_of_builderFor {description : ServiceDescription}
    (h : (caller.client.builderFor description).1 = .ok (slot, builder)) :
    builder? { caller with client := (caller.client.builderFor description).2 } slot =
      some builder := by
  rw [Client.builderFor_eq_ask] at h ⊢
  have hentry := Table.getElem?_of_find? (Table.find?_of_keep h)
  exact congrArg (Option.map (·.2)) hentry

/-- A proxy is built by the builder of its description, which is put back with the new node. -/
theorem proxy_cases (caller : Caller σ) (description : ServiceDescription) (scope : Option String)
    (timeout : Nat) :
    let found := caller.client.builderFor description
    (∃ error, found.1 = .error error ∧
        caller.proxy description scope timeout = (.error error, { caller with client := found.2 })) ∨
      ∃ slot builder, found.1 = .ok (slot, builder) ∧
        caller.proxy description scope timeout =
          (.ok ⟨slot, (builder.build scope timeout).1.1, (builder.build scope timeout).1.2⟩,
            putBuilder { caller with client := found.2 } slot (builder.build scope timeout).2) := by
  intro found
  rw [proxy]
  cases hfound : caller.client.builderFor description with
  | mk outcome client =>
    rw [show found = (outcome, client) from hfound]
    cases outcome with
    | error error => exact .inl ⟨error, rfl, rfl⟩
    | ok entry => exact .inr ⟨entry.1, entry.2, rfl, rfl⟩

theorem bare_proxy (caller : Caller σ) (description : ServiceDescription) (scope : Option String)
    (timeout : Nat) :
    (caller.proxy description scope timeout).2.client.bare =
      (caller.client.bare.builderFor description).2 := by
  rw [Client.bare_builderFor]
  rcases caller.proxy_cases description scope timeout with ⟨_, _, hproxy⟩ |
    ⟨slot, builder, hfound, hproxy⟩
  · rw [hproxy]
  · rw [hproxy]
    exact bare_putBuilder (builder?_of_builderFor hfound) (builder.bare_build scope timeout)

theorem map_builder_proxy (caller : Caller σ) (description : ServiceDescription)
    (scope : Option String) (timeout : Nat) :
    (caller.proxy description scope timeout).1.map (·.builder) =
      (caller.client.bare.builderFor description).1.map (·.1) := by
  rw [Client.bare_builderFor]
  rcases caller.proxy_cases description scope timeout with ⟨_, hfound, hproxy⟩ |
    ⟨slot, builder, hfound, hproxy⟩
  · rw [hproxy, hfound]
    rfl
  · rw [hproxy, hfound]
    rfl

theorem bare_onBuilder (caller : Caller σ) (slot : Nat)
    (action : EStateM CallerError (CallerState σ) α) :
    (caller.onBuilder slot action).2.client.bare = caller.client.bare := by
  rw [onBuilder]
  cases hslot : caller.builder? slot with
  | none => rfl
  | some builder =>
    have hsettled : ∀ after : CallerState σ,
        (putBuilder { caller with channel := after.channel } slot
          { builder with specializations := after.specializations }).client.bare =
            caller.client.bare :=
      fun after => bare_putBuilder hslot rfl
    dsimp only
    split <;> exact hsettled _

theorem bare_callAsync (caller : Caller σ) (handle : NodeHandle) (name : String)
    (arguments : CallArguments) :
    (caller.callAsync handle name arguments).2.client.bare = caller.client.bare := by
  rw [callAsync]
  cases hslot : caller.builder? handle.builder with
  | none => rfl
  | some builder => exact bare_putBuilder hslot rfl

theorem client_await (processor : Processor σ) (caller : Caller σ) (pending : PendingCall) :
    (caller.await processor pending).2.client = caller.client := by
  rw [await]
  cases pending.await processor caller.channel <;> rfl

/-- Only asking for a builder shows in a client when its builders are seen as they were compiled. -/
theorem bare_step (processor : Processor σ) (caller : Caller σ) (operation : Operation) :
    (caller.step processor operation).client.bare =
      caller.client.bare.after operation.description?.toList := by
  cases operation with
  | builderFor description =>
    exact (congrArg Prod.snd (caller.client.bare_builderFor description)).symm
  | proxy description scope timeout => exact caller.bare_proxy description scope timeout
  | attempt handle entry name arguments =>
    cases entry with
    | call => exact caller.bare_onBuilder handle.builder _
    | callAsync => exact caller.bare_callAsync handle name arguments
    | invoke => exact caller.bare_onBuilder handle.builder _
  | await pending => exact congrArg Client.bare (client_await processor caller pending)

theorem bare_after (processor : Processor σ) (caller : Caller σ) (history : List Operation) :
    (caller.after processor history).client.bare =
      caller.client.bare.after (history.filterMap Operation.description?) := by
  induction history generalizing caller with
  | nil => rfl
  | cons operation history ih =>
    show ((caller.step processor operation).after processor history).client.bare = _
    rw [ih, bare_step]
    cases h : operation.description? with
    | none =>
      rw [List.filterMap_cons_none h]
      rfl
    | some description =>
      rw [List.filterMap_cons_some h]
      rfl

end Caller

/-- For each identity a catalogue keeps the description of the first shape that can be described,
and a client the builder of the first description that can be compiled, whatever is done with the
builders in the meantime. -/
theorem identities_keep_their_first_success :
    (∀ history : List Catalogue.Operation,
      let catalogue := Catalogue.ofHistory history
      (∀ id, (catalogue.find? id).map (·.2) =
        Table.firstSuccess (Catalogue.attempts history) id) ∧
      (∀ shape found later, catalogue.find? shape.id = some found →
        (catalogue.after later).find? shape.id = some found ∧
        (catalogue.after later).describe shape = (.ok found, catalogue.after later)) ∧
      (∀ shape error, ((catalogue.describe shape).1 = .error error ↔
          catalogue.find? shape.id = none ∧ shape.describe = .error error) ∧
        ((catalogue.describe shape).1 = .error error → (catalogue.describe shape).2 = catalogue)) ∧
      (∀ shape service, catalogue.find? shape.id = none → shape.describe = .ok service →
        (catalogue.describe shape).1 = .ok (catalogue.size, service) ∧
        (catalogue.describe shape).2.find? shape.id = some (catalogue.size, service)) ∧
      (∀ shape id, id ≠ shape.id →
        (catalogue.describe shape).2.find? id = catalogue.find? id) ∧
      catalogue.size = {id | ∃ service shape, .describe shape ∈ history ∧ shape.id = id ∧
        shape.describe = .ok service}.ncard) ∧
    (∀ registry (history : List ServiceDescription),
      let client := Client.ofHistory registry history
      (∀ id, (client.builders.find? id).map (·.2) =
        Table.firstSuccess (Client.attempts registry history) id) ∧
      (∀ description found later, client.builders.find? description.interface = some found →
        (client.after later).builders.find? description.interface = some found ∧
        (client.after later).builderFor description = (.ok found, client.after later)) ∧
      (∀ description error, ((client.builderFor description).1 = .error error ↔
          client.builders.find? description.interface = none ∧
            ProxyBuilder.compile registry description = .error error) ∧
        ((client.builderFor description).1 = .error error →
          (client.builderFor description).2 = client)) ∧
      (∀ description builder, client.builders.find? description.interface = none →
        ProxyBuilder.compile registry description = .ok builder →
        (client.builderFor description).1 = .ok (client.builders.size, builder) ∧
        (client.builderFor description).2.builders.find? description.interface =
          some (client.builders.size, builder)) ∧
      (∀ description id, id ≠ description.interface →
        (client.builderFor description).2.builders.find? id = client.builders.find? id) ∧
      client.builders.size = {id | ∃ builder description, description ∈ history ∧
        description.interface = id ∧ ProxyBuilder.compile registry description = .ok builder}.ncard) ∧
    ∀ registry {σ : Type} (processor : Processor σ) channel (history : List Caller.Operation),
      let caller := Caller.after processor ⟨.ofRegistry registry, channel⟩ history
      let asked := Client.ofHistory registry (history.filterMap Caller.Operation.description?)
      caller.client.bare = asked ∧
        ∀ description scope timeout, (caller.proxy description scope timeout).1.map (·.builder) =
          (asked.builderFor description).1.map (·.1) := by
  refine ⟨fun history => ?_, fun registry history => ?_,
    fun registry _ processor channel history => ?_⟩
  · intro catalogue
    simp only [Catalogue.describe_eq_ask, Catalogue.after_eq, Catalogue.attempts_eq,
      ← Catalogue.mem_filterMap_shape?]
    have hcatalogue : catalogue = Catalogue.cache.after .empty _ := Catalogue.after_eq _ history
    refine ⟨fun id => ?_, fun _ _ later h => Catalogue.cache.ask_after_of_find? h _,
      fun _ _ => ⟨Catalogue.cache.ask_eq_error_iff, Catalogue.cache.eq_of_ask_error⟩,
      fun _ _ => Catalogue.cache.ask_of_find?_eq_none,
      fun _ _ => Catalogue.cache.find?_ask_of_ne, ?_⟩
    · rw [hcatalogue]
      exact Catalogue.cache.map_find?_after rfl _ id
    · rw [hcatalogue]
      exact Catalogue.cache.size_after rfl _
  · intro client
    have hclient : client = Client.cache.after (.ofRegistry registry) history := Client.after_eq _ _
    have hregistry : client.registry = registry := Client.registry_after _ history
    simp only [Client.builderFor_eq_ask, Client.after_eq]
    refine ⟨fun id => ?_, fun _ _ later h => Client.cache.ask_after_of_find? h later,
      fun description error => ?_, fun description builder hnone hcompiled => ?_,
      fun _ _ => Client.cache.find?_ask_of_ne, ?_⟩
    · rw [hclient]
      exact Client.cache.map_find?_after rfl history id
    · rw [← hregistry]
      exact ⟨Client.cache.ask_eq_error_iff, Client.cache.eq_of_ask_error⟩
    · rw [← hregistry] at hcompiled
      exact Client.cache.ask_of_find?_eq_none hnone hcompiled
    · rw [hclient]
      exact Client.cache.size_after rfl history
  · intro caller asked
    have hbare : caller.client.bare = asked := Caller.bare_after _ _ _
    refine ⟨hbare, fun description scope timeout => ?_⟩
    rw [caller.map_builder_proxy, hbare]

namespace Market

/-- Another market, which cannot be described for a setter. -/
def settable : InterfaceShape := .mk "IMarket" [] [.value "price" .text true]

/-- Another market, which can be described but has no stall. -/
def vacant : InterfaceShape := .mk "IMarket" [] []

/-- Another market, which can be described but not compiled. -/
def archived : ServiceDescription := ⟨"IMarket", "Market", [Archive.first], []⟩

def vacated : ServiceDescription := ⟨"IMarket", "Market", [], []⟩

/-- A shape that is refused and two that are described. -/
def describedShapes : List Catalogue.Operation :=
  [.describe settable, .describe shape, .describe Archive.shape]

/-- The market is described and compiled after a failure, and what comes later under its name gets
it. An archive that cannot be compiled does not change it. -/
theorem stays_after_a_failure :
    ((Catalogue.ofHistory []).describe settable).2 = Catalogue.ofHistory [] ∧
    ((Catalogue.ofHistory [.describe settable]).describe shape).1 = .ok (0, description) ∧
    (((Catalogue.ofHistory [.describe settable, .describe shape]).after
        [.describe vacant, .get "IArchive"]).describe settable).1 = .ok (0, description) ∧
    ((Catalogue.ofHistory [.describe settable, .describe shape]).describe Archive.shape).2.find?
        "IMarket" = some (0, description) ∧
    {id | ∃ service given, .describe given ∈ describedShapes ∧ InterfaceShape.id given = id ∧
      given.describe = .ok service}.ncard = 2 ∧
    ((Client.ofHistory .empty []).builderFor archived).2 = Client.ofHistory .empty [] ∧
    ((Client.ofHistory .empty [archived]).builderFor description).1 = .ok (0, builder) ∧
    (((Client.ofHistory .empty [archived, description]).after [vacated]).builderFor archived).1 =
      .ok (0, builder) ∧
    ((Client.ofHistory .empty [archived, description]).builderFor Archive.description).2.builders.find?
      "IMarket" = some (0, builder) := by
  obtain ⟨hcatalogue, hclient, _⟩ := identities_keep_their_first_success
  obtain ⟨_, _, hfails, _⟩ := hcatalogue []
  obtain ⟨_, _, _, hadds, _⟩ := hcatalogue [.describe settable]
  obtain ⟨_, hstays, _, _, hothers, _⟩ := hcatalogue [.describe settable, .describe shape]
  obtain ⟨_, _, _, _, _, hcount⟩ := hcatalogue describedShapes
  obtain ⟨_, _, hfails', _⟩ := hclient .empty []
  obtain ⟨_, _, _, hadds', _⟩ := hclient .empty [archived]
  obtain ⟨_, hstays', _, _, hothers', _⟩ := hclient .empty [archived, description]
  have hne : "IMarket" ≠ "IArchive" := by decide
  refine ⟨(hfails settable (.propertySetter "IMarket" "price")).2 rfl,
    (hadds shape description rfl rfl).1, ?_, (hothers Archive.shape "IMarket" hne).trans rfl,
    hcount.symm.trans rfl, (hfails' archived _).2 rfl, (hadds' description builder rfl rfl).1, ?_,
    (hothers' Archive.description "IMarket" hne).trans rfl⟩
  · have hsame := (hstays settable (0, description) [.describe vacant, .get "IArchive"] rfl).2
    rw [hsame]
  · have hsame := (hstays' archived (0, builder) [vacated] rfl).2
    rw [hsame]

end Market

end Remoting
