import Mathlib
import Remoting.Proofs.CodecCoverage
import Remoting.Proofs.ResponseStatus

/-! Why a generic handler refuses a request. Either the bytes do not begin with type arguments, or
the method's own types have no codecs; both are answered as if the bytes were at fault. -/

namespace Remoting

/-- Witnesses are read one by one, and each is then found to be of an argument. -/
theorem many_typeArgument_iff_many_witness {registry : Registry} {count : Nat}
    {input left : Bytes} {types : List WireType} :
    Reader.many (GenericHandler.typeArgument registry) count input = .ok types left ↔
      Reader.many Reader.witness count input = .ok types left ∧
        ∀ type ∈ types, type.IsArgument registry := by
  rw [(accepts_typeArgument registry).many count, Reader.Accepts.witness.many count]
  simp only [Format.repeated_and, ← and_assoc, exists_and_right]

namespace MethodDescription

/-- The bytes begin with as many readable witnesses as the method has generic parameters, all of
them of closed types with codecs. -/
def TypedBy (registry : Registry) (method : MethodDescription) (input : Bytes) : Prop :=
  ∃ types left, Reader.many Reader.witness method.arity input = .ok types left ∧
    ∀ type ∈ types, type.IsArgument registry

/-- Type arguments and request parameters are all validly encoded, up to the last byte. -/
def WellEncoded (registry : Registry) (method : MethodDescription) (payload : Bytes) : Prop :=
  ∃ types left request values,
    Reader.many Reader.witness method.arity payload = .ok types left ∧
    (∀ type ∈ types, type.IsArgument registry) ∧
    method.requestTypes.mapM (Codec.ofOpen registry types) = .ok request ∧
    fieldValues request left = .ok values []

variable {registry : Registry} {method : MethodDescription} {input : Bytes}

theorem WellEncoded.typedBy (h : method.WellEncoded registry input) :
    method.TypedBy registry input := by
  obtain ⟨types, left, _, _, hread, hargs, _⟩ := h
  exact ⟨types, left, hread, hargs⟩

end MethodDescription

theorem encodable_of_isArgument {registry : Registry} {types : List WireType}
    (h : ∀ type ∈ types, type.IsArgument registry) : ∀ type ∈ types, type.Encodable :=
  fun type hmem => (WireType.isArgument_iff registry).mp (h type hmem)

namespace GenericHandler

variable {registry : Registry} {description : ServiceDescription} {path : ServicePath}
  {handler : GenericHandler} {input : Bytes}

/-- A generic handler comes to a concrete one where the bytes begin with type arguments and the
signature of the method lets it have codecs. -/
theorem exists_specialize_iff_covered
    (h : (Handler.generic handler).Sound registry description path)
    (hchecked : handler.method.Checked) :
    (∃ specialized left, handler.specialize input = .ok specialized left) ↔
      handler.method.Covered ∧ handler.method.TypedBy registry input := by
  constructor
  · rintro ⟨specialized, left, hs⟩
    obtain ⟨_, types, hread, hbuild⟩ := specialize_sound h hs
    obtain ⟨hcount, hargs, _⟩ := many_typeArgument_eq_ok_iff.mp hread
    have hencodable := encodable_of_isArgument hargs
    exact ⟨(hchecked.exists_handler_iff hcount hencodable).mp ⟨_, hbuild⟩, types, left,
      many_typeArgument_iff_many_witness.mp hread⟩
  · rintro ⟨hcovered, types, left, hread, hargs⟩
    have htypes := many_typeArgument_iff_many_witness.mpr ⟨hread, hargs⟩
    obtain ⟨hcount, _⟩ := many_typeArgument_eq_ok_iff.mp htypes
    have hencodable := encodable_of_isArgument hargs
    obtain ⟨built, hbuild⟩ : ∃ built,
        ConcreteHandler.build registry path handler.method types = .ok built :=
      (hchecked.exists_handler_iff hcount hencodable).mpr hcovered
    obtain ⟨specialized, hs, _⟩ := specialize_ok h htypes hbuild
    exact ⟨specialized, left, hs⟩

theorem specialize_fails_iff (h : (Handler.generic handler).Sound registry description path)
    (hchecked : handler.method.Checked) :
    (∃ error left, handler.specialize input = .error error left) ↔
      ¬(handler.method.Covered ∧ handler.method.TypedBy registry input) := by
  rw [← exists_specialize_iff_covered h hchecked]
  cases handler.specialize input with
  | ok specialized left => exact iff_of_false (by simp) (not_not.mpr ⟨specialized, left, rfl⟩)
  | error error left => exact iff_of_true ⟨error, left, rfl⟩ (by simp)

/-- A gap in the signature is told as an error of the bytes, which have been read without one. -/
theorem specialize_of_uncovered (h : (Handler.generic handler).Sound registry description path)
    (hchecked : handler.method.Checked) (huncovered : ¬handler.method.Covered)
    (htyped : handler.method.TypedBy registry input) :
    ∃ left, handler.specialize input = .error (.codec (.unsupportedMemberKind .any)) left := by
  obtain ⟨types, left, hread, hargs⟩ := htyped
  have htypes := many_typeArgument_iff_many_witness.mpr ⟨hread, hargs⟩
  obtain ⟨hcount, _⟩ := many_typeArgument_eq_ok_iff.mp htypes
  have hencodable := encodable_of_isArgument hargs
  obtain ⟨_, _, _, _, rfl, rfl, rfl, hkept⟩ := h
  have hnone : ∀ built, ConcreteHandler.build handler.registry handler.path handler.method types ≠
      .ok built := fun built hbuild =>
    huncovered ((hchecked.exists_handler_iff hcount hencodable).mp ⟨built, hbuild⟩)
  rw [specialize_eq, htypes]
  dsimp only
  cases hfind : handler.specializations.find? types with
  | some found => exact absurd (hkept _ _ (Table.mem_of_find? hfind)) (hnone found.2)
  | none =>
    dsimp only
    cases hbuild : ConcreteHandler.build handler.registry handler.path handler.method types with
    | ok built => exact absurd hbuild (hnone built)
    | error error =>
      obtain rfl := hchecked.handler_error hcount hencodable hbuild
      exact ⟨left, rfl⟩

end GenericHandler

namespace Endpoint

variable {registry : Registry} {endpoint : Endpoint} {path : ServicePath} {scope : Option String}
  {payload : Option Bytes} {method : MethodDescription} {service : RegisteredService}

theorem Reached.handle_of_course (h : endpoint.Reached registry) {status : ResultStatus}
    {invocation : Option Invocation}
    (hcourse : endpoint.Course path scope (payload.getD []) status invocation) :
    (endpoint.handle path scope payload).1.response.status = status ∧
      (endpoint.handle path scope payload).1.invocation = invocation := by
  have hsound := h.sound
  obtain rfl := hsound.sameRegistry
  rw [handle_eq_answer hsound]
  exact hcourse.status_eq

theorem Routes.method_eq {other : MethodDescription} {found : RegisteredService}
    (h : endpoint.Routes path service method) (h' : endpoint.Routes path found other) :
    other = method := by
  obtain ⟨hservice, place, hresolve⟩ := h
  obtain ⟨hfound, place', hresolve'⟩ := h'
  rw [hservice] at hfound
  cases hfound
  rw [hresolve] at hresolve'
  cases hresolve'
  rfl

/-- A new handler of a generic method, before any request. -/
theorem Routes.generic_sound (h : endpoint.Routes path service method)
    (hgeneric : method.isGeneric = true) :
    (Handler.generic ⟨path, method, registry, .empty⟩).Sound registry service.description path := by
  obtain ⟨place, hresolve⟩ := h.resolved
  exact Handler.sound_of_create (Handler.create_of_generic registry hresolve hgeneric)

/-- A request that is validly encoded is read to its end, where there are codecs for it. -/
theorem not_refused_of_wellEncoded (h : endpoint.Reached registry)
    (hroutes : endpoint.Routes path service method) (hchecked : method.Checked)
    (hcovered : method.Covered) (hencoded : method.WellEncoded registry (payload.getD [])) :
    (endpoint.handle path scope payload).1.response.status ≠ .badRequest := by
  obtain rfl := h.sound.sameRegistry
  obtain ⟨status, invocation, hcourse⟩ :=
    exists_course endpoint path scope (payload.getD [])
  rw [(h.handle_of_course hcourse).1]
  rintro rfl
  cases hcourse with
  | @typesRefused other root error left hfinds hgeneric hspecialize =>
    obtain ⟨_, hfound, _⟩ := hfinds.found
    obtain rfl := hroutes.method_eq hfound
    have hsound : (Handler.generic _).Sound endpoint.registry _ _ := hroutes.generic_sound hgeneric
    exact (GenericHandler.specialize_fails_iff hsound hchecked).mp ⟨error, left, hspecialize⟩
      ⟨hcovered, hencoded.typedBy⟩
  | @parametersRefused other root leaf built left hfinds hchooses hleaf hread =>
    obtain ⟨_, hfound, _⟩ := hfinds.found
    obtain rfl := hroutes.method_eq hfound
    obtain ⟨types, rest, request, values, htypes, hargs, hrequest, hvalues⟩ := hencoded
    -- The handler was chosen for the type arguments that are read from the payload.
    obtain ⟨arguments, harguments, hbuild⟩ := GenericHandler.select_eq_ok_iff.mp hchooses.select
    rw [many_typeArgument_iff_many_witness.mpr ⟨htypes, hargs⟩] at harguments
    cases harguments
    obtain ⟨sent, _, _, hcodecs, hplan⟩ :=
      CallPlan.build_eq_ok_iff.mp (CallPlan.build_plan hbuild)
    have hsent := hcodecs.mapM_request
    rw [hrequest] at hsent
    cases hsent
    have hrequested : built.request.map (·.2) = request := congrArg CallPlan.request hplan
    exact hread values (hrequested ▸ hvalues)

theorem refused_of_uncovered (h : endpoint.Reached registry)
    (hroutes : endpoint.Routes path service method) (hchecked : method.Checked)
    (huncovered : ¬method.Covered) (hgeneric : method.isGeneric = true) {root : Implementation}
    (hresolver : service.resolver scope = some root) :
    (endpoint.handle path scope payload).1.response.status = .badRequest ∧
      (endpoint.handle path scope payload).1.invocation = none := by
  obtain rfl := h.sound.sameRegistry
  have hsound : (Handler.generic _).Sound endpoint.registry _ _ := hroutes.generic_sound hgeneric
  obtain ⟨error, left, hspecialize⟩ : ∃ error left, GenericHandler.specialize
      ⟨path, method, endpoint.registry, .empty⟩ (payload.getD []) = .error error left :=
    (GenericHandler.specialize_fails_iff hsound hchecked).mpr fun hall => huncovered hall.1
  exact h.handle_of_course
    (.typesRefused ⟨.inl hgeneric, service, hroutes, hresolver⟩ hgeneric hspecialize)

theorem unserved_of_uncovered (h : endpoint.Reached registry)
    (hroutes : endpoint.Routes path service method) (hchecked : method.Checked)
    (huncovered : ¬method.Covered) (hgeneric : method.isGeneric = false) :
    (endpoint.handle path scope payload).1.response.status = .systemError ∧
      (endpoint.handle path scope payload).1.invocation = none := by
  refine h.handle_of_course (.withoutCodecs hroutes ?_)
  rintro (hservable | hbuilt)
  · rw [hgeneric] at hservable
    cases hservable
  · have harity := MethodDescription.length_nil_eq_arity hgeneric
    exact huncovered ((hchecked.exists_handler_iff harity (List.forall_mem_nil _)).mp hbuilt)

end Endpoint

/-- A generic request is refused for its bytes where the signature of the method has codecs, and for
the signature where it has none; a request that is not generic is never refused for a signature. -/
theorem refused_for_bytes_or_signature {shape : InterfaceShape}
    {description place : ServiceDescription} (hshape : shape.describe = .ok description)
    {chain : List String} (hplace : description.descend chain = .ok place)
    {method : MethodDescription} (hmem : method ∈ place.methods) (registry : Registry) :
    ∃ path, ServicePath.ofMethod (description.name :: chain) method.name = .ok path ∧
      (∀ handler : GenericHandler, handler.Reached registry description path → ∀ input,
        ((∃ error left, handler.specialize input = .error error left) ↔
          ¬(method.Covered ∧ method.TypedBy registry input)) ∧
        (¬method.Covered → method.TypedBy registry input →
          ∃ left, handler.specialize input = .error (.codec (.unsupportedMemberKind .any)) left)) ∧
      ∀ (endpoint : Endpoint) (service : RegisteredService) (scope : Option String)
        (payload : Option Bytes), endpoint.Reached registry →
        endpoint.service? description.name = some service → service.description = description →
        (method.Covered → method.WellEncoded registry (payload.getD []) →
          (endpoint.handle path scope payload).1.response.status ≠ .badRequest) ∧
        (¬method.Covered → method.isGeneric = true → ∀ root, service.resolver scope = some root →
          (endpoint.handle path scope payload).1.response.status = .badRequest ∧
            (endpoint.handle path scope payload).1.invocation = none) ∧
        (¬method.Covered → method.isGeneric = false →
          (endpoint.handle path scope payload).1.response.status = .systemError ∧
            (endpoint.handle path scope payload).1.invocation = none) := by
  have hchecked := checked_of_describeWithin shape hshape chain place hplace method hmem
  have hnamed := wellNamed_of_describeWithin shape hshape
  have hmethod := (hnamed chain place hplace).method?_eq hmem
  obtain ⟨path, hpath, hresolve, _⟩ := ServiceDescription.exists_path hnamed hplace hmethod
  refine ⟨path, hpath, fun handler hreached input => ?_,
    fun endpoint service scope payload hreached hservice hdescription => ?_⟩
  · have hsound := hreached.sound
    obtain rfl : handler.method = method := by
      obtain ⟨_, found, hfound, _, _, hsame, _⟩ := hsound
      rw [hresolve] at hfound
      cases hfound
      exact hsame
    exact ⟨GenericHandler.specialize_fails_iff hsound hchecked,
      GenericHandler.specialize_of_uncovered hsound hchecked⟩
  · have hroutes : endpoint.Routes path service method := by
      refine ⟨?_, place, by rw [hdescription]; exact hresolve⟩
      rw [(ServicePath.ofMethod_eq_ok hpath).1]
      exact hservice
    exact ⟨Endpoint.not_refused_of_wellEncoded hreached hroutes hchecked,
      fun huncovered hgeneric root =>
        Endpoint.refused_of_uncovered hreached hroutes hchecked huncovered hgeneric,
      Endpoint.unserved_of_uncovered hreached hroutes hchecked⟩

namespace Archive

def archivist : Implementation :=
  ⟨"archive", fun _ => some ⟨"index", fun _ => none, fun _ => .ok ⟨.value .null, []⟩⟩,
    fun _ => .error ⟨"closed"⟩⟩

def archive : RegisteredService := .singleton description archivist

def endpoint : Endpoint := ⟨.empty, Table.empty.push "Archive" archive, .empty⟩

def lookupPath : ServicePath := ⟨"Archive", ["index"], "Lookup", by decide⟩

def firstPath : ServicePath := ⟨"Archive", ["index"], "First", by decide⟩

/-- A lookup by a text: the type argument and the key. -/
def lookupPayload : Bytes := [12, 3, 0, 0, 0, 102, 105, 103]

theorem text_isArgument : ∀ type ∈ [WireType.text], type.IsArgument .empty :=
  List.forall_mem_singleton.mpr ⟨rfl, .text, rfl⟩

theorem endpoint_reached : endpoint.Reached .empty :=
  .registered .fresh (show (Endpoint.ofRegistry .empty).register archive = .ok endpoint from rfl)

/-- Nothing is wrong with the bytes of the lookup, and yet they are what it is refused for. -/
theorem lookup_refused_as_malformed :
    shape.describe = .ok description ∧ lookup ∈ index.methods ∧ lookup.isGeneric = true ∧
      (∃ handler : GenericHandler, handler.Reached .empty description lookupPath ∧
        (∃ left, handler.specialize lookupPayload =
          .error (.codec (.unsupportedMemberKind .any)) left)) ∧
      lookup.TypedBy .empty lookupPayload ∧ lookup.WellEncoded .empty lookupPayload ∧
      (endpoint.handle lookupPath none (some lookupPayload)).1.response =
        .failure .badRequest "malformed request payload: no codec for member kind Any" := by
  have hencoded : lookup.WellEncoded .empty lookupPayload :=
    ⟨[.text], [3, 0, 0, 0, 102, 105, 103], [.text], [.text "fig"], rfl, text_isArgument, rfl, rfl⟩
  exact ⟨rfl, by decide, rfl, ⟨⟨lookupPath, lookup, .empty, .empty⟩, .created rfl, _, rfl⟩,
    hencoded.typedBy, hencoded, rfl⟩

/-- A lookup is refused however its bytes are, a first without bytes for another cause; a swap with
all of its bytes is not. -/
theorem index_and_stall_refusals :
    (endpoint.handle lookupPath none (some lookupPayload)).1.response.status = .badRequest ∧
    (endpoint.handle firstPath none none).1.response.status = .systemError ∧
    (Market.caller.channel.endpoint.handle Market.swapPath none
      (some Market.swapPayload)).1.response.status ≠ .badRequest := by
  have hshape : shape.describe = .ok description := rfl
  have hplace : description.descend ["index"] = .ok index := rfl
  have hlookup : ¬lookup.Covered := by decide
  have hfirst : ¬first.Covered := by decide
  obtain ⟨path, hpath, _, hlookups⟩ :=
    refused_for_bytes_or_signature hshape hplace (by decide : lookup ∈ index.methods) .empty
  cases hpath
  obtain ⟨path, hpath, _, hfirsts⟩ :=
    refused_for_bytes_or_signature hshape hplace (by decide : first ∈ index.methods) .empty
  cases hpath
  have hmarket : Market.shape.describe = .ok Market.description := rfl
  have hstall : Market.description.descend ["stall"] = .ok Market.stall := rfl
  have hmem : Market.swap ∈ Market.stall.methods := List.mem_cons_self
  obtain ⟨path, hpath, _, hswaps⟩ := refused_for_bytes_or_signature hmarket hstall hmem .empty
  cases hpath
  have hopened : Market.caller.channel.endpoint.Reached .empty := .registered .fresh
    (show (Endpoint.ofRegistry .empty).register Market.market = .ok Market.caller.channel.endpoint
      from rfl)
  have hcovered : Market.swap.Covered := by decide
  have hencoded : Market.swap.WellEncoded .empty Market.swapPayload :=
    ⟨[.text], [3, 0, 0, 0, 102, 105, 103], [.text], [.text "fig"], rfl, text_isArgument, rfl, rfl⟩
  obtain ⟨_, hrefused, _⟩ :=
    hlookups endpoint archive none (some lookupPayload) endpoint_reached rfl rfl
  obtain ⟨_, _, hunserved⟩ := hfirsts endpoint archive none none endpoint_reached rfl rfl
  obtain ⟨hread, _⟩ :=
    hswaps _ Market.market none (some Market.swapPayload) hopened rfl rfl
  exact ⟨(hrefused hlookup rfl archivist rfl).1, (hunserved hfirst rfl).1, hread hcovered hencoded⟩

end Archive

end Remoting
