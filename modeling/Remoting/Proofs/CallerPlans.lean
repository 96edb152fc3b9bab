import Mathlib
import Remoting.Proofs.CompiledTree
import Remoting.Proofs.MethodCodecs

/-! The plans that a client keeps. Whatever has been called before, a plan is the one that is built
for its method and type arguments, and a prepared call is made of it. -/

namespace Remoting

/-- The state that a run leaves, however it ends. -/
def finalState {ε σ α : Type} : EStateM.Result ε σ α → σ
  | .ok _ state => state
  | .error _ state => state

def ServiceDescription.HasMethod (description : ServiceDescription) (place : List String)
    (method : MethodDescription) : Prop :=
  ∃ chain leaf, place = description.name :: chain ∧ description.descend chain = .ok leaf ∧
    leaf.method? method.name = some method

theorem ServiceDescription.name_of_method? {service : ServiceDescription} {name : String}
    {method : MethodDescription} (h : service.method? name = some method) : method.name = name := by
  simpa using List.find?_some h

theorem ServiceDescription.HasMethod.unique {description : ServiceDescription} {place : List String}
    {method other : MethodDescription} (h : description.HasMethod place method)
    (h' : description.HasMethod place other) (hname : method.name = other.name) : method = other := by
  obtain ⟨chain, leaf, rfl, hleaf, hmethod⟩ := h
  obtain ⟨chain', leaf', hplace, hleaf', hmethod'⟩ := h'
  cases hplace
  rw [hleaf] at hleaf'
  cases hleaf'
  rw [hname, hmethod'] at hmethod
  exact (Option.some.inj hmethod).symm

/-- Every plan that is kept is the one built for its key. -/
def Specializations.Faithful (registry : Registry) (description : ServiceDescription)
    (specializations : Specializations) : Prop :=
  ∀ key plan, (key, plan) ∈ specializations.entries → ∀ method, method.name = key.method →
    description.HasMethod key.place method → CallPlan.build registry method key.arguments = .ok plan

theorem Specializations.Faithful.empty {registry : Registry} {description : ServiceDescription} :
    Specializations.Faithful registry description .empty := nofun

theorem Specializations.Faithful.push {registry : Registry} {description : ServiceDescription}
    {specializations : Specializations} (h : specializations.Faithful registry description)
    {place : List String} {arguments : List WireType} {method : MethodDescription} {plan : CallPlan}
    (hm : description.HasMethod place method)
    (hplan : CallPlan.build registry method arguments = .ok plan) :
    Specializations.Faithful registry description
      (specializations.push ⟨place, method.name, arguments⟩ plan) := by
  intro key found hmem other hname hother
  rcases Table.mem_push.mp hmem with hmem | hnew
  · exact h key found hmem other hname hother
  · cases hnew
    rw [hother.unique hm hname]
    exact hplan

namespace CompiledMethod

variable {registry : Registry} {description : ServiceDescription} {method : MethodDescription}
  {compiled : CompiledMethod} {specializations : Specializations} {place : List String}

theorem specialize_eq (compiled : CompiledMethod) (place : List String) (arguments : List WireType)
    (specializations : Specializations) :
    compiled.specialize place arguments specializations =
      match specializations.find? ⟨place, compiled.description.name, arguments⟩ with
      | some (_, plan) => .ok plan specializations
      | none =>
        match CallPlan.build compiled.registry compiled.description arguments with
        | .error error => .error (.codec error) specializations
        | .ok plan => .ok plan
            (specializations.push ⟨place, compiled.description.name, arguments⟩ plan) := by
  unfold specialize
  simp only [bind, EStateM.bind, get, getThe, MonadStateOf.get, EStateM.get]
  cases specializations.find? ⟨place, compiled.description.name, arguments⟩ with
  | some found => rfl
  | none => cases CallPlan.build compiled.registry compiled.description arguments <;> rfl

theorem specialize_faithful (hf : specializations.Faithful registry description)
    (hc : CompiledMethod.compile registry method = .ok compiled)
    (hm : description.HasMethod place method) (arguments : List WireType) :
    (finalState (compiled.specialize place arguments specializations)).Faithful registry description ∧
      ∀ plan after, compiled.specialize place arguments specializations = .ok plan after →
        CallPlan.build registry method arguments = .ok plan := by
  obtain ⟨rfl, rfl, _⟩ := compile_eq_ok hc
  rw [specialize_eq]
  cases hfind : specializations.find? ⟨place, compiled.description.name, arguments⟩ with
  | some found =>
    refine ⟨hf, fun plan after h => ?_⟩
    cases h
    exact hf _ _ (Table.mem_of_find? hfind) _ rfl hm
  | none =>
    cases hplan : CallPlan.build compiled.registry compiled.description arguments with
    | error error => exact ⟨hf, nofun⟩
    | ok plan =>
      refine ⟨hf.push hm hplan, fun plan after h => ?_⟩
      cases h
      rfl

/-- Why type arguments are refused, whatever has been specialized before. -/
inductive Refuses (compiled : CompiledMethod) (arguments : List WireType) : CallerError → Prop
  | count (h : arguments.length ≠ compiled.description.arity) :
      Refuses compiled arguments (.genericArgumentCount compiled.description.name
        compiled.description.arity arguments.length)
  | openType {type : WireType} (hmem : type ∈ arguments) (h : type.isClosed = false) :
      Refuses compiled arguments (.openTypeArgument type)
  | codec {cause : CodecError} (h : Codec.ofTypes compiled.registry arguments = .error cause) :
      Refuses compiled arguments (.codec cause)

theorem Refuses.not_all {arguments : List WireType} {error : CallerError}
    (h : compiled.Refuses arguments error)
    (hcount : arguments.length = compiled.description.arity) :
    ¬∀ type ∈ arguments, type.IsArgument compiled.registry := by
  intro hargs
  cases h with
  | count h => exact h hcount
  | openType hmem h =>
    have hclosed := (hargs _ hmem).1
    rw [h] at hclosed
    cases hclosed
  | codec h =>
    obtain ⟨codecs, hcodecs⟩ := exists_mapM_iff.mpr fun type hmem => (hargs type hmem).2
    have hboth := h.symm.trans hcodecs
    cases hboth

/-- The search for a plan refuses the type arguments, finds the plan of a method that is not
generic, or goes on to the specializations. Which it is depends on nothing that is kept. -/
theorem planFor_cases (compiled : CompiledMethod) (place : List String)
    (arguments : List WireType) :
    (∃ error, compiled.Refuses arguments error ∧ ∀ specializations,
        compiled.planFor place arguments specializations = .error error specializations) ∨
      arguments.length = compiled.description.arity ∧
        ((∃ plan, compiled.concrete = some plan ∧ ∀ specializations,
            compiled.planFor place arguments specializations = .ok plan specializations) ∨
          compiled.concrete = none ∧ (∀ type ∈ arguments, type.IsArgument compiled.registry) ∧
            ∀ specializations, compiled.planFor place arguments specializations =
              compiled.specialize place arguments specializations) := by
  unfold planFor
  by_cases hcount : arguments.length = compiled.description.arity
  · simp only [hcount, ne_eq, not_true_eq_false, if_false]
    cases compiled.concrete with
    | some plan => exact .inr ⟨trivial, .inl ⟨plan, rfl, fun _ => rfl⟩⟩
    | none =>
      cases hopen : arguments.find? (!·.isClosed) with
      | some type =>
        have hclosed : type.isClosed = false := by simpa using List.find?_some hopen
        exact .inl ⟨_, .openType (List.mem_of_find?_eq_some hopen) hclosed, fun _ => rfl⟩
      | none =>
        cases hcodecs : Codec.ofTypes compiled.registry arguments with
        | error cause => exact .inl ⟨_, .codec hcodecs, fun _ => rfl⟩
        | ok codecs =>
          refine .inr ⟨trivial, .inr ⟨rfl, fun type hmem => ⟨?_, ?_⟩, fun _ => rfl⟩⟩
          · simpa using List.find?_eq_none.mp hopen type hmem
          · exact exists_mapM_iff.mp ⟨codecs, hcodecs⟩ type hmem
  · simp only [ne_eq, hcount, not_false_eq_true, if_true]
    exact .inl ⟨_, .count hcount, fun _ => rfl⟩

/-- The plan of a call, if there is one, is built for its type arguments, all of them closed and of
types with codecs. -/
theorem planFor_faithful (hf : specializations.Faithful registry description)
    (hc : CompiledMethod.compile registry method = .ok compiled)
    (hm : description.HasMethod place method) (arguments : List WireType) :
    (finalState (compiled.planFor place arguments specializations)).Faithful registry description ∧
      ∀ plan after, compiled.planFor place arguments specializations = .ok plan after →
        arguments.length = method.arity ∧
          (∀ type ∈ arguments, type.IsArgument registry) ∧
          CallPlan.build registry method arguments = .ok plan := by
  have hspecialize := specialize_faithful hf hc hm arguments
  obtain ⟨rfl, rfl, _, hconcrete⟩ := compile_eq_ok hc
  rcases compiled.planFor_cases place arguments with ⟨error, _, hrefused⟩ |
    ⟨hcount, ⟨plan, hplan, hfound⟩ | ⟨_, hargs, hgeneric⟩⟩
  · rw [hrefused]
    exact ⟨hf, nofun⟩
  · rw [hfound]
    simp only [hplan] at hconcrete
    refine ⟨hf, fun found after h => ?_⟩
    cases h
    have harity : compiled.description.arity = 0 := MethodDescription.arity_eq_zero hconcrete.1
    obtain rfl := List.length_eq_zero_iff.mp (hcount.trans harity)
    exact ⟨hcount, nofun, hconcrete.2⟩
  · rw [hgeneric]
    exact ⟨hspecialize.1, fun plan after h => ⟨hcount, hargs, hspecialize.2 plan after h⟩⟩

/-- What is sent of the bytes of a request: nothing where there is neither a byte nor a type
argument. -/
def payloadOf (arguments : List WireType) (bytes : Bytes) : Option Bytes :=
  if bytes.isEmpty && arguments.isEmpty then none else some bytes

theorem payloadOf_of_ne_nil {arguments : List WireType} (h : arguments ≠ []) (bytes : Bytes) :
    payloadOf arguments bytes = some bytes :=
  if_neg (by simp [h])

theorem payloadOf_getD (arguments : List WireType) (bytes : Bytes) :
    (payloadOf arguments bytes).getD [] = bytes := by
  unfold payloadOf
  split
  · rename_i hempty
    simp only [Bool.and_eq_true, List.isEmpty_iff] at hempty
    exact hempty.1.symm
  · rfl

theorem requestPayload_eq_ok_iff_written {plan : CallPlan} {arguments : List WireType}
    {values : List Value} {payload : Option Bytes} :
    compiled.requestPayload plan arguments values = .ok payload ↔
      values.length = plan.request.length ∧ ∃ bytes,
        encodeFields (argumentFields arguments ++ plan.request.zip values) = .ok bytes ∧
          payload = payloadOf arguments bytes := by
  unfold requestPayload
  by_cases hcount : values.length = plan.request.length
  · simp only [hcount, ne_eq, not_true_eq_false, if_false, true_and]
    rw [← argumentFields]
    cases encodeFields (argumentFields arguments ++ plan.request.zip values) with
    | error error => simp
    | ok bytes =>
      simp only [Except.ok.injEq, exists_eq_left']
      exact eq_comm
  · rw [if_pos hcount]
    exact iff_of_false (by simp) fun h => hcount h.1

theorem requestPayload_eq_ok {plan : CallPlan} {arguments : List WireType} {values : List Value}
    {payload : Option Bytes} (h : compiled.requestPayload plan arguments values = .ok payload) :
    values.length = plan.request.length ∧
      encodeFields (argumentFields arguments ++ plan.request.zip values) =
        .ok (payload.getD []) := by
  obtain ⟨hcount, bytes, hbytes, rfl⟩ := requestPayload_eq_ok_iff_written.mp h
  exact ⟨hcount, by rw [payloadOf_getD, hbytes]⟩

end CompiledMethod

theorem ServicePath.ofMethod_eq_ok {root name : String} {chain : List String} {path : ServicePath}
    (h : ServicePath.ofMethod (root :: chain) name = .ok path) :
    path.root = root ∧ path.chain = chain ∧ path.method = name := by
  have hsegments := segments_of_ofSegments h
  rw [segments, List.cons_append, List.cons.injEq] at hsegments
  obtain ⟨hroot, hrest⟩ := hsegments
  obtain ⟨hchain, hmethod⟩ := List.append_inj' hrest rfl
  exact ⟨hroot, hchain, List.head_eq_of_cons_eq hmethod⟩

/-- What a prepared call of a method at a place is made of. -/
structure PreparedCall.MadeFor (prepared : PreparedCall) (registry : Registry) (root : String)
    (chain : List String) (scope : Option String) (method : MethodDescription)
    (arguments : CallArguments) : Prop where
  same : prepared.method = method
  arity : arguments.types.length = method.arity
  types : ∀ type ∈ arguments.types, type.IsArgument registry
  plan : CallPlan.build registry method arguments.types = .ok prepared.plan
  count : arguments.values.length = prepared.plan.request.length
  payload : encodeFields (argumentFields arguments.types ++
    prepared.plan.request.zip arguments.values) = .ok (prepared.request.payload.getD [])
  path : prepared.request.path.root = root ∧ prepared.request.path.chain = chain ∧
    prepared.request.path.method = method.name
  scope : prepared.request.scope = scope

namespace ProxyNode

variable {registry : Registry} {description leaf : ServiceDescription} {chain : List String}
  {node : ProxyNode} {name : String} {arguments : CallArguments}
  {specializations after : Specializations} {prepared : PreparedCall}

theorem compiled_of_method (hc : leaf.compile registry = .ok node.service)
    {compiled : CompiledMethod} (h : node.method name = .ok compiled) :
    ∃ method, leaf.method? name = some method ∧
      CompiledMethod.compile registry method = .ok compiled := by
  have hrel := ServiceDescription.method?_rel hc name
  unfold method at h
  split at h
  · rename_i found hfound
    cases h
    rw [hfound] at hrel
    obtain ⟨method, hmethod, hcompiled⟩ := exists_of_rel_some hrel
    exact ⟨method, hmethod, hcompiled⟩
  · cases h

theorem hasMethod_of_method? (hleaf : description.descend chain = .ok leaf)
    (hplace : node.place = description.name :: chain) {method : MethodDescription}
    (hmethod : leaf.method? name = some method) : description.HasMethod node.place method := by
  have hname := ServiceDescription.name_of_method? hmethod
  exact ⟨chain, leaf, hplace, hleaf, hname.symm ▸ hmethod⟩

theorem prepare_eq (node : ProxyNode) (name : String) (arguments : CallArguments)
    (specializations : Specializations) :
    node.prepare name arguments specializations =
      match node.method name with
      | .error error => .error error specializations
      | .ok compiled =>
        match compiled.planFor node.place arguments.types specializations with
        | .error error after => .error error after
        | .ok plan after =>
          match compiled.requestPayload plan arguments.types arguments.values with
          | .error error => .error error after
          | .ok payload =>
            match ServicePath.ofMethod node.place name with
            | .error error => .error (.path error) after
            | .ok path => .ok ⟨compiled.description, plan,
                ⟨node.interface, path, node.scope, payload, node.timeout⟩⟩ after := by
  unfold prepare
  cases node.method name with
  | error error => rfl
  | ok compiled =>
    simp only [bind, EStateM.bind]
    cases compiled.planFor node.place arguments.types specializations with
    | error error after => rfl
    | ok plan after =>
      dsimp only
      cases compiled.requestPayload plan arguments.types arguments.values with
      | error error => rfl
      | ok payload => cases ServicePath.ofMethod node.place name <;> rfl

/-- Only the search for a plan changes what is kept. -/
theorem prepare_state (node : ProxyNode) (name : String) (arguments : CallArguments)
    (specializations : Specializations) :
    finalState (node.prepare name arguments specializations) =
      match node.method name with
      | .error _ => specializations
      | .ok compiled =>
        finalState (compiled.planFor node.place arguments.types specializations) := by
  rw [prepare_eq]
  cases node.method name with
  | error error => rfl
  | ok compiled =>
    dsimp only
    cases compiled.planFor node.place arguments.types specializations with
    | error error after => rfl
    | ok plan after =>
      dsimp only
      cases compiled.requestPayload plan arguments.types arguments.values with
      | error error => rfl
      | ok payload => cases ServicePath.ofMethod node.place name <;> rfl

theorem prepare_eq_ok (h : node.prepare name arguments specializations = .ok prepared after) :
    ∃ compiled payload path, node.method name = .ok compiled ∧
      compiled.planFor node.place arguments.types specializations = .ok prepared.plan after ∧
      compiled.requestPayload prepared.plan arguments.types arguments.values = .ok payload ∧
      ServicePath.ofMethod node.place name = .ok path ∧ prepared.method = compiled.description ∧
      prepared.request = ⟨node.interface, path, node.scope, payload, node.timeout⟩ := by
  rw [prepare_eq] at h
  split at h
  · cases h
  · rename_i compiled hmethod
    split at h
    · cases h
    · rename_i plan left hplan
      split at h
      · cases h
      · rename_i payload hpayload
        split at h
        · cases h
        · rename_i path hpath
          cases h
          exact ⟨compiled, payload, path, hmethod, hplan, hpayload, hpath, rfl, rfl⟩

theorem prepare_keeps_faithful (hf : specializations.Faithful registry description)
    (hleaf : description.descend chain = .ok leaf) (hc : leaf.compile registry = .ok node.service)
    (hplace : node.place = description.name :: chain) (name : String) (arguments : CallArguments) :
    (finalState (node.prepare name arguments specializations)).Faithful registry description := by
  rw [prepare_state]
  cases hfound : node.method name with
  | error error => exact hf
  | ok compiled =>
    obtain ⟨method, hmethod, hcompiled⟩ := compiled_of_method hc hfound
    have hhas := hasMethod_of_method? hleaf hplace hmethod
    exact (CompiledMethod.planFor_faithful hf hcompiled hhas arguments.types).1

theorem prepare_madeFor (hf : specializations.Faithful registry description)
    (hleaf : description.descend chain = .ok leaf) (hc : leaf.compile registry = .ok node.service)
    (hplace : node.place = description.name :: chain) {method : MethodDescription}
    (hmethod : leaf.method? name = some method)
    (h : node.prepare name arguments specializations = .ok prepared after) :
    prepared.MadeFor registry description.name chain node.scope method arguments := by
  obtain ⟨compiled, payload, path, hfound, hplan, hpayload, hpath, hprepared, hrequest⟩ :=
    prepare_eq_ok h
  obtain ⟨other, hother, hcompiled⟩ := compiled_of_method hc hfound
  obtain rfl : method = other := Option.some.inj (hmethod.symm.trans hother)
  have hhas := hasMethod_of_method? hleaf hplace hmethod
  obtain ⟨harity, htypes, hbuilt⟩ :=
    (CompiledMethod.planFor_faithful hf hcompiled hhas arguments.types).2 _ _ hplan
  obtain ⟨hcount, hencoded⟩ := CompiledMethod.requestPayload_eq_ok hpayload
  rw [hplace] at hpath
  exact {
    same := hprepared.trans (CompiledMethod.compile_eq_ok hcompiled).1
    arity := harity
    types := htypes
    plan := hbuilt
    count := hcount
    payload := by rw [hrequest]; exact hencoded
    path := by
      rw [hrequest, ServiceDescription.name_of_method? hmethod]
      exact ServicePath.ofMethod_eq_ok hpath
    scope := by rw [hrequest] }

end ProxyNode

/-- The builders of a description, after any number of calls through any of their nodes. -/
inductive ProxyBuilder.Reached (registry : Registry) (description : ServiceDescription) :
    ProxyBuilder → Prop
  | compiled {builder : ProxyBuilder}
      (h : ProxyBuilder.compile registry description = .ok builder) :
      Reached registry description builder
  | built {builder : ProxyBuilder} (h : Reached registry description builder) (scope : Option String)
      (timeout : Nat) : Reached registry description (builder.build scope timeout).2
  | prepared {builder : ProxyBuilder} (h : Reached registry description builder)
      {scope : Option String} {timeout : Nat} {chain : List String} {node : ProxyNode}
      (hnode : (builder.build scope timeout).1.2.descend? chain = some node) (name : String)
      (arguments : CallArguments) :
      Reached registry description { builder with
        specializations := finalState (node.prepare name arguments builder.specializations) }

structure ProxyBuilder.Sound (registry : Registry) (description : ServiceDescription)
    (builder : ProxyBuilder) : Prop where
  service : description.compile registry = .ok builder.service
  nodes : ∀ key node, (key, node) ∈ builder.nodes.entries →
    node = ⟨builder.service, builder.interface, [builder.service.name], key.1, key.2⟩
  plans : builder.specializations.Faithful registry description

namespace ProxyBuilder.Sound

variable {registry : Registry} {description : ServiceDescription} {builder : ProxyBuilder}

theorem root (h : builder.Sound registry description) (scope : Option String) (timeout : Nat) :
    (builder.build scope timeout).1.2 =
      ⟨builder.service, builder.interface, [builder.service.name], scope, timeout⟩ := by
  unfold ProxyBuilder.build
  split
  · rename_i found hfound
    exact h.nodes _ _ (Table.mem_of_find? hfound)
  · rfl

theorem below (h : builder.Sound registry description) (scope : Option String) (timeout : Nat)
    (chain : List String) :
    Option.Rel (fun leaf node => leaf.compile registry = .ok node.service ∧
        node.place = description.name :: chain ∧ node.scope = scope)
      (description.descend chain).toOption ((builder.build scope timeout).1.2.descend? chain) := by
  have hroot := h.root scope timeout
  have hname := (ServiceDescription.compile_eq_ok h.service).1
  have hservice : description.compile registry = .ok (builder.build scope timeout).1.2.service := by
    rw [hroot]
    exact h.service
  have hrel := ProxyNode.descend?_rel hservice chain
  generalize (description.descend chain).toOption = leaf at hrel ⊢
  generalize (builder.build scope timeout).1.2.descend? chain = node at hrel ⊢
  cases hrel with
  | none => exact .none
  | some hnode =>
    refine .some ⟨hnode.1, ?_, ?_⟩
    · rw [hnode.2, hroot, hname]
      rfl
    · rw [hnode.2, hroot]

end ProxyBuilder.Sound

theorem ProxyBuilder.Reached.sound {registry : Registry} {description : ServiceDescription}
    {builder : ProxyBuilder} (h : builder.Reached registry description) :
    builder.Sound registry description := by
  induction h with
  | compiled h =>
    obtain ⟨service, hservice, h⟩ := except_bind_eq_ok_iff.mp h
    cases h
    exact ⟨hservice, nofun, nofun⟩
  | @built builder _ scope timeout ih =>
    unfold ProxyBuilder.build
    split
    · exact ih
    · refine ⟨ih.service, fun key node hmem => ?_, ih.plans⟩
      rcases Table.mem_push.mp hmem with hmem | hnew
      · exact ih.nodes key node hmem
      · cases hnew
        rfl
  | @prepared builder _ scope timeout chain node hnode name arguments ih =>
    have hbelow := ih.below scope timeout chain
    rw [hnode] at hbelow
    obtain ⟨leaf, hleaf, hcompiled, hplace, _⟩ := exists_of_rel_some hbelow
    exact ⟨ih.service, ih.nodes, ProxyNode.prepare_keeps_faithful ih.plans
      (toOption_eq_some_iff.mp hleaf) hcompiled hplace name arguments⟩

end Remoting
