import Mathlib
import Remoting.Proofs.ClosedTypes
import Remoting.Proofs.LoopbackAgreement
import Remoting.Proofs.Routes

/-! Type arguments pass two gates, where the client writes their witnesses in front of a request and
where the server reads them. The gates are built apart and let the same arguments pass. -/

namespace Remoting

namespace CompiledMethod

variable {registry : Registry} {description : ServiceDescription} {method : MethodDescription}
  {compiled : CompiledMethod} {specializations : Specializations} {place : List String}
  {arguments : List WireType} {plan : CallPlan}

theorem compile_generic (registry : Registry) (hchecked : method.Checked)
    (hgeneric : method.isGeneric = true) :
    CompiledMethod.compile registry method = .ok ⟨method, registry, none⟩ := by
  have hvalid : ¬(method.style ≠ .direct ∧ method.responseParameters ≠ []) :=
    fun h => h.2 (hchecked.style.2.2 h.1)
  rw [compile, if_neg hvalid, if_pos hgeneric]
  rfl

theorem exists_specialize (hf : specializations.Faithful registry description)
    (hc : CompiledMethod.compile registry method = .ok compiled)
    (hm : description.HasMethod place method)
    (hbuild : CallPlan.build registry method arguments = .ok plan) :
    ∃ after, compiled.specialize place arguments specializations = .ok plan after := by
  obtain ⟨rfl, rfl, _⟩ := compile_eq_ok hc
  rw [specialize_eq]
  cases hfind : specializations.find? ⟨place, compiled.description.name, arguments⟩ with
  | some found =>
    have hkept := hf _ _ (Table.mem_of_find? hfind) _ rfl hm
    rw [hbuild] at hkept
    exact ⟨_, by rw [Except.ok.inj hkept]⟩
  | none =>
    rw [hbuild]
    exact ⟨_, rfl⟩

/-- A plan is given out for as many closed types with codecs as there are generic parameters,
whatever has been asked before. -/
theorem exists_planFor_iff (hf : specializations.Faithful registry description)
    (hc : CompiledMethod.compile registry method = .ok compiled)
    (hm : description.HasMethod place method) :
    (∃ after, compiled.planFor place arguments specializations = .ok plan after) ↔
      arguments.length = method.arity ∧ (∀ type ∈ arguments, type.Encodable) ∧
        CallPlan.build registry method arguments = .ok plan := by
  simp only [← WireType.isArgument_iff registry]
  constructor
  · intro h
    obtain ⟨after, h⟩ := h
    exact (planFor_faithful hf hc hm arguments).2 plan after h
  · intro h
    obtain ⟨hcount, hargs, hbuild⟩ := h
    have hspecialize := exists_specialize hf hc hm hbuild
    obtain ⟨rfl, rfl, _, hconcrete⟩ := compile_eq_ok hc
    rcases compiled.planFor_cases place arguments with ⟨error, hrefuses, _⟩ |
      ⟨_, ⟨kept, hkept, hfound⟩ | ⟨_, _, hgeneric⟩⟩
    · exact absurd hargs (hrefuses.not_all hcount)
    · simp only [hkept] at hconcrete
      have harity : compiled.description.arity = 0 := MethodDescription.arity_eq_zero hconcrete.1
      obtain rfl := List.length_eq_zero_iff.mp (hcount.trans harity)
      rw [hconcrete.2] at hbuild
      cases hbuild
      exact ⟨specializations, hfound specializations⟩
    · rw [hgeneric]
      exact hspecialize

/-- The payload of a request with type arguments is their witnesses and behind them the values. -/
theorem requestPayload_eq_ok_iff (hne : arguments ≠ [])
    (hbuild : CallPlan.build registry method arguments = .ok plan) {values : List Value}
    {payload : Option Bytes} :
    compiled.requestPayload plan arguments values = .ok payload ↔
      values.length = plan.request.length ∧ ∃ front back,
        encodeFields (argumentFields arguments) = .ok front ∧
        encodeFields (plan.request.zip values) = .ok back ∧ payload = some (front ++ back) := by
  have hvalues : ∀ field ∈ plan.request.zip values, ∃ registry type,
      Codec.Catalogued registry type field.1 := by
    intro field hmem
    obtain ⟨hcodec, _⟩ := List.of_mem_zip (a := field.1) (b := field.2) hmem
    obtain ⟨request, response, result, hcodecs, rfl⟩ := CallPlan.build_eq_ok_iff.mp hbuild
    obtain ⟨type, htype⟩ := exists_ofType_of_forall₂ hcodecs.request _ hcodec
    exact ⟨registry, type, Codec.catalogued_of_ofType htype⟩
  have hfront : ∀ field ∈ argumentFields arguments, ∃ registry type,
      Codec.Catalogued registry type field.1 := fun _ => catalogued_of_mem_argumentFields
  rw [requestPayload_eq_ok_iff_written]
  simp only [payloadOf_of_ne_nil hne]
  refine and_congr_right fun _ => ?_
  simp only [encodeFields_append_eq_ok_iff hfront hvalues]
  constructor
  · intro h
    obtain ⟨_, ⟨front, back, hfront, hback, rfl⟩, rfl⟩ := h
    exact ⟨front, back, hfront, hback, rfl⟩
  · intro h
    obtain ⟨front, back, hfront, hback, rfl⟩ := h
    exact ⟨_, ⟨front, back, hfront, hback, rfl⟩, rfl⟩

end CompiledMethod

/-- The client has codecs for the type arguments and can write their witnesses. -/
structure CompiledMethod.Admits (compiled : CompiledMethod) (place : List String)
    (specializations : Specializations) (arguments : List WireType) (plan : CallPlan)
    (front : Bytes) : Prop where
  codecs : ∃ after, compiled.planFor place arguments specializations = .ok plan after
  witnesses : encodeFields (argumentFields arguments) = .ok front

/-- The plans that a client keeps after it has looked for any plans of methods of a description. -/
inductive Specializations.Reached (registry : Registry) (description : ServiceDescription) :
    Specializations → Prop
  | fresh : Reached registry description .empty
  | asked {specializations : Specializations} (h : Reached registry description specializations)
      {compiled : CompiledMethod} {method : MethodDescription} {place : List String}
      (hc : CompiledMethod.compile registry method = .ok compiled)
      (hm : description.HasMethod place method) (arguments : List WireType) :
      Reached registry description
        (finalState (compiled.planFor place arguments specializations))

theorem Specializations.Reached.faithful {registry : Registry} {description : ServiceDescription}
    {specializations : Specializations} (h : specializations.Reached registry description) :
    specializations.Faithful registry description := by
  induction h with
  | fresh => exact nofun
  | asked _ hc hm arguments ih => exact (CompiledMethod.planFor_faithful ih hc hm arguments).1

/-- What becomes of the generic handler of a path as it reads the type arguments of requests. Where
it fails to, it stays as it is. -/
inductive GenericHandler.Reached (registry : Registry) (description : ServiceDescription)
    (path : ServicePath) : GenericHandler → Prop
  | created {handler : GenericHandler}
      (h : Handler.create registry description path = .ok (.generic handler)) :
      Reached registry description path handler
  | specialized {handler : GenericHandler} (h : Reached registry description path handler)
      {input left : Bytes} {specialized : Specialized}
      (hs : handler.specialize input = .ok specialized left) :
      Reached registry description path specialized.generic

namespace GenericHandler

variable {registry : Registry} {description : ServiceDescription} {path : ServicePath}
  {handler : GenericHandler} {built : ConcreteHandler} {input left : Bytes}

theorem Reached.sound (h : handler.Reached registry description path) :
    (Handler.generic handler).Sound registry description path := by
  induction h with
  | created h => exact Handler.sound_of_create h
  | specialized _ hs ih => exact (specialize_sound ih hs).1

/-- Whatever it has read before, a generic handler comes to the handler that is built for the type
arguments whose witnesses stand first. -/
theorem exists_specialize_iff (h : (Handler.generic handler).Sound registry description path) :
    (∃ specialized, handler.specialize input = .ok specialized left ∧ specialized.handler = built) ↔
      ∃ arguments front, arguments.length = handler.method.arity ∧
        (∀ type ∈ arguments, type.Encodable) ∧
        encodeFields (argumentFields arguments) = .ok front ∧ input = front ++ left ∧
        ConcreteHandler.build registry path handler.method arguments = .ok built := by
  simp only [← WireType.isArgument_iff registry]
  constructor
  · intro hspecialize
    obtain ⟨specialized, hs, rfl⟩ := hspecialize
    obtain ⟨_, arguments, hread, hbuild⟩ := specialize_sound h hs
    obtain ⟨hcount, hargs, front, hfront, hinput⟩ := many_typeArgument_eq_ok_iff.mp hread
    exact ⟨arguments, front, hcount, hargs, hfront, hinput, hbuild⟩
  · intro hwritten
    obtain ⟨arguments, front, hcount, hargs, hfront, hinput, hbuild⟩ := hwritten
    have hread := many_typeArgument_eq_ok_iff.mpr ⟨hcount, hargs, front, hfront, hinput⟩
    exact specialize_ok h hread hbuild

end GenericHandler

theorem ConcreteHandler.typeArguments_of_build {registry : Registry} {path : ServicePath}
    {method : MethodDescription} {arguments : List WireType} {handler : ConcreteHandler}
    (h : ConcreteHandler.build registry path method arguments = .ok handler) :
    handler.typeArguments = arguments := by
  obtain ⟨_, _, _, _, rfl⟩ := ConcreteHandler.build_eq_ok_iff.mp h
  rfl

section Gates

variable {client server : Registry} {description : ServiceDescription} {place : List String}
  {path : ServicePath} {compiled : CompiledMethod} {specializations : Specializations}
  {handler : GenericHandler} {arguments : List WireType}

/-- What the client admits, the server reads, whatever stands behind it. -/
theorem exists_specialize_of_admits (hf : specializations.Faithful client description)
    (hc : CompiledMethod.compile client handler.method = .ok compiled)
    (hm : description.HasMethod place handler.method)
    (hs : (Handler.generic handler).Sound server description path) {plan : CallPlan} {front : Bytes}
    (h : compiled.Admits place specializations arguments plan front) (left : Bytes) :
    ∃ specialized, handler.specialize (front ++ left) = .ok specialized left ∧
      specialized.handler.typeArguments = arguments := by
  obtain ⟨hcount, hargs, hplan⟩ := (CompiledMethod.exists_planFor_iff hf hc hm).mp h.codecs
  obtain ⟨built, hbuild⟩ : ∃ built, ConcreteHandler.build server path handler.method arguments =
    .ok built := exists_client_plan_iff_exists_server_handler.mp ⟨plan, hplan⟩
  obtain ⟨specialized, hspecialize, rfl⟩ := (GenericHandler.exists_specialize_iff hs).mpr
    ⟨arguments, front, hcount, hargs, h.witnesses, rfl, hbuild⟩
  exact ⟨specialized, hspecialize, ConcreteHandler.typeArguments_of_build hbuild⟩

/-- What the server reads, the client admits: it is what the client writes for the type arguments
that are read, and both sides have built their codecs for them. -/
theorem exists_admits_of_specialize (hf : specializations.Faithful client description)
    (hc : CompiledMethod.compile client handler.method = .ok compiled)
    (hm : description.HasMethod place handler.method)
    (hs : (Handler.generic handler).Sound server description path) {input left : Bytes}
    {specialized : Specialized} (h : handler.specialize input = .ok specialized left) :
    ∃ plan front,
      compiled.Admits place specializations specialized.handler.typeArguments plan front ∧
        input = front ++ left ∧
        CallPlan.build client handler.method specialized.handler.typeArguments = .ok plan ∧
        ConcreteHandler.build server path handler.method specialized.handler.typeArguments =
          .ok specialized.handler := by
  obtain ⟨arguments, front, hcount, hargs, hfront, hinput, hbuild⟩ :=
    (GenericHandler.exists_specialize_iff hs).mp ⟨specialized, h, rfl⟩
  rw [ConcreteHandler.typeArguments_of_build hbuild]
  obtain ⟨plan, hplan⟩ := exists_client_plan_iff_exists_server_handler.mpr ⟨_, hbuild⟩
  have hafter := (CompiledMethod.exists_planFor_iff hf hc hm).mpr ⟨hcount, hargs, hplan⟩
  exact ⟨plan, front, ⟨hafter, hfront⟩, hinput, hplan, hbuild⟩

end Gates

/-- The client admits the type arguments that the server reads, and no others; their witnesses are
what the server reads them from, and what it leaves begins with the first parameter. -/
theorem type_argument_gates_agree {shape : InterfaceShape} {description place : ServiceDescription}
    (hshape : shape.describe = .ok description) {chain : List String}
    (hplace : description.descend chain = .ok place) {method : MethodDescription}
    (hmem : method ∈ place.methods) (hgeneric : method.isGeneric = true)
    (client server : Registry) :
    ∃ path compiled, ServicePath.ofMethod (description.name :: chain) method.name = .ok path ∧
      CompiledMethod.compile client method = .ok compiled ∧
      (∃ handler, Handler.create server description path = .ok (.generic handler)) ∧
      ∀ (specializations : Specializations) (handler : GenericHandler),
        specializations.Reached client description → handler.Reached server description path →
        (∀ arguments,
          (∃ plan front, compiled.Admits (description.name :: chain) specializations arguments plan
            front) ↔
          ∃ input specialized left, handler.specialize input = .ok specialized left ∧
            specialized.handler.typeArguments = arguments) ∧
        (∀ arguments plan after,
          compiled.planFor (description.name :: chain) arguments specializations = .ok plan after →
          ∀ values payload, compiled.requestPayload plan arguments values = .ok payload ↔
            values.length = plan.request.length ∧ ∃ front back,
              encodeFields (argumentFields arguments) = .ok front ∧
              encodeFields (plan.request.zip values) = .ok back ∧ payload = some (front ++ back)) ∧
        ∀ input specialized left, handler.specialize input = .ok specialized left →
          ∃ plan front, compiled.Admits (description.name :: chain) specializations
              specialized.handler.typeArguments plan front ∧ input = front ++ left ∧
            plan.returnsValue = specialized.handler.plan.returnsValue ∧ ∃ request response,
              method.Becomes specialized.handler.typeArguments request response ∧
              plan.IsFor client request response ∧
              specialized.handler.plan.IsFor server request response := by
  have hchecked := checked_of_describeWithin shape hshape chain place hplace method hmem
  have hnamed := wellNamed_of_describeWithin shape hshape
  have hmethod := (hnamed chain place hplace).method?_eq hmem
  have hhas : description.HasMethod (description.name :: chain) method :=
    ⟨chain, place, rfl, hplace, hmethod⟩
  have hcompile := CompiledMethod.compile_generic client hchecked hgeneric
  obtain ⟨path, hpath, hresolve, _⟩ := ServiceDescription.exists_path hnamed hplace hmethod
  refine ⟨path, _, hpath, hcompile, ⟨⟨path, method, server, .empty⟩, ?_⟩,
    fun specializations handler hclient hserver => ?_⟩
  · rw [Handler.create, hresolve]
    exact if_pos hgeneric
  have hsound := hserver.sound
  obtain rfl : handler.method = method := by
    obtain ⟨_, found, hfound, _, _, hsame, _⟩ := hsound
    rw [hresolve] at hfound
    cases hfound
    exact hsame
  have hfaithful := hclient.faithful
  refine ⟨fun arguments => ⟨?_, ?_⟩, ?_, ?_⟩
  · intro h
    obtain ⟨plan, front, hadmits⟩ := h
    obtain ⟨specialized, hs⟩ :=
      exists_specialize_of_admits hfaithful hcompile hhas hsound hadmits []
    exact ⟨_, specialized, [], hs⟩
  · intro h
    obtain ⟨input, specialized, left, hs, rfl⟩ := h
    obtain ⟨plan, front, hadmits, _⟩ :=
      exists_admits_of_specialize hfaithful hcompile hhas hsound hs
    exact ⟨plan, front, hadmits⟩
  · intro arguments plan after hplan values payload
    obtain ⟨hcount, _, hbuild⟩ :=
      (CompiledMethod.exists_planFor_iff hfaithful hcompile hhas).mp ⟨after, hplan⟩
    refine CompiledMethod.requestPayload_eq_ok_iff (fun hnil => ?_) hbuild
    rw [hnil] at hcount
    simp [MethodDescription.isGeneric, List.length_eq_zero_iff.mp hcount.symm] at hgeneric
  · intro input specialized left hs
    obtain ⟨plan, front, hadmits, hinput, hplan, hbuild⟩ :=
      exists_admits_of_specialize hfaithful hcompile hhas hsound hs
    obtain ⟨hreturns, htypes⟩ := plans_agree hplan hbuild
    exact ⟨plan, front, hadmits, hinput, hreturns, htypes⟩

namespace Market

/-- The handler of a server that knows a member more than its client. -/
def swapHandler : GenericHandler := ⟨swapPath, swap, .ofList [.property "IMarket" "stall"], .empty⟩

/-- The type of a text passes both gates, and one of a text still pending neither. -/
theorem swap_gates :
    (shape.describe = .ok description ∧ description.descend ["stall"] = .ok stall ∧
      swap ∈ stall.methods ∧ swap.isGeneric = true ∧
      swapHandler.Reached (.ofList [.property "IMarket" "stall"]) description swapPath) ∧
    (∃ specialized plan front,
      swapHandler.specialize swapPayload = .ok specialized (swapPayload.drop 1) ∧
      CompiledMethod.Admits ⟨swap, .empty, none⟩ ["Market", "stall"] .empty [.text] plan front ∧
      swapPayload = front ++ swapPayload.drop 1) ∧
    ∀ input specialized left, swapHandler.specialize input = .ok specialized left →
      specialized.handler.typeArguments ≠ [.pending .text] := by
  have hshape : shape.describe = .ok description := rfl
  have hplace : description.descend ["stall"] = .ok stall := rfl
  have hmem : swap ∈ stall.methods := List.mem_cons_self
  have hreached : swapHandler.Reached (.ofList [.property "IMarket" "stall"]) description swapPath :=
    .created rfl
  obtain ⟨path, compiled, hpath, hcompile, _, hgates⟩ := type_argument_gates_agree hshape hplace
    hmem rfl .empty (.ofList [.property "IMarket" "stall"])
  cases hpath
  cases hcompile
  obtain ⟨hadmits, _, hread⟩ := hgates .empty swapHandler .fresh hreached
  obtain ⟨specialized, hspecialized⟩ : ∃ specialized,
    swapHandler.specialize swapPayload = .ok specialized (swapPayload.drop 1) := ⟨_, rfl⟩
  refine ⟨⟨hshape, hplace, hmem, rfl, hreached⟩, ?_, fun input specialized left hs hpending => ?_⟩
  · obtain ⟨plan, front, hadmitted, hinput, _⟩ := hread swapPayload specialized _ hspecialized
    have htypes : specialized.handler.typeArguments = [.text] := by
      cases hspecialized
      rfl
    rw [htypes] at hadmitted
    exact ⟨specialized, plan, front, hspecialized, hadmitted, hinput⟩
  · obtain ⟨plan, front, ⟨after, hplan⟩, _⟩ :=
      (hadmits _).mpr ⟨input, specialized, left, hs, hpending⟩
    cases hplan

end Market

end Remoting
