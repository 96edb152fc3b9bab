import Mathlib
import Remoting.Interface.Surface
import Remoting.Proofs.CodecCoverage
import Remoting.Proofs.RegisteredSet
import Remoting.Proofs.ValidShapes

/-! What the registration of described services publishes: every method and every sub-service at any
depth, under an identity that leads to it alone, and nothing else. The arity of a published method is
the number of its generic parameters where sixteen bits hold that number. -/

namespace Remoting

namespace ServiceDescription

/-- What holds of a service where it holds of its sub-services holds of all. -/
@[elab_as_elim]
theorem induction {P : ServiceDescription → Prop}
    (step : ∀ service, (∀ sub ∈ service.subservices, P sub.2) → P service)
    (service : ServiceDescription) : P service :=
  step service fun sub _ => induction step sub.2
termination_by sizeOf service
decreasing_by
  rename_i hmem
  have hlt := List.sizeOf_lt_of_mem hmem
  cases service
  cases sub
  simp only [mk.sizeOf_spec, Prod.mk.sizeOf_spec] at hlt ⊢
  omega

/-- What a service publishes by itself. -/
def Publishes (place : ServiceDescription) (member : Member) : Prop :=
  (∃ method ∈ place.methods, member = method.member place.interface) ∨
    ∃ sub ∈ place.subservices, member = .property place.interface sub.1

variable {service place : ServiceDescription} {member : Member}

theorem mem_surfaceBelow_iff {interface : String} {subservices : List (String × ServiceDescription)} :
    member ∈ surfaceBelow interface subservices ↔
      ∃ sub ∈ subservices, member = .property interface sub.1 ∨ member ∈ sub.2.surface := by
  induction subservices with
  | nil => simp [surfaceBelow]
  | cons sub others ih => simp [surfaceBelow, ih, or_assoc]

theorem mem_surface_iff : member ∈ service.surface ↔
    service.Publishes member ∨ ∃ sub ∈ service.subservices, member ∈ sub.2.surface := by
  cases service with
  | mk interface name methods subservices =>
    simp only [surface, Publishes, List.mem_append, List.mem_map, mem_surfaceBelow_iff,
      @eq_comm _ _ member]
    constructor
    · rintro (h | ⟨sub, hmem, h | h⟩)
      · exact .inl (.inl h)
      · exact .inl (.inr ⟨sub, hmem, h⟩)
      · exact .inr ⟨sub, hmem, h⟩
    · rintro ((h | ⟨sub, hmem, h⟩) | ⟨sub, hmem, h⟩)
      · exact .inl h
      · exact .inr ⟨sub, hmem, .inl h⟩
      · exact .inr ⟨sub, hmem, .inr h⟩

/-- The surface of a described service is what the services at its places publish. -/
theorem mem_surface_iff_exists_place (h : service.Throughout WellNamed) : member ∈ service.surface ↔
    ∃ chain place, service.descend chain = .ok place ∧ place.Publishes member := by
  induction service using ServiceDescription.induction with
  | step service ih =>
    have hnamed := h [] service rfl
    rw [mem_surface_iff]
    constructor
    · rintro (hown | ⟨⟨name, sub⟩, hmem, hbelow⟩)
      · exact ⟨[], service, rfl, hown⟩
      · obtain ⟨chain, place, hplace, hpublishes⟩ :=
          (ih (name, sub) hmem (h.of_mem hnamed hmem)).mp hbelow
        exact ⟨name :: chain, place, (descend_cons hnamed hmem chain).trans hplace, hpublishes⟩
    · rintro ⟨chain, place, hplace, hpublishes⟩
      cases chain with
      | nil =>
        cases hplace
        exact .inl hpublishes
      | cons name chain =>
        rw [descend] at hplace
        cases hsearch : service.subservice? name with
        | none => simp [hsearch] at hplace
        | some sub =>
          simp only [hsearch] at hplace
          obtain ⟨entry, hentry, rfl⟩ := Option.map_eq_some_iff.mp hsearch
          have hmem := List.mem_of_find?_eq_some hentry
          have hbelow := (ih entry hmem (h.of_mem hnamed hmem)).mpr ⟨chain, place, hplace, hpublishes⟩
          exact .inr ⟨entry, hmem, hbelow⟩

/-- A property is published bare. -/
theorem eq_property_of_mem_surface (h : member ∈ service.surface) (hkind : member.kind = .property) :
    member = .property member.declaring member.name := by
  induction service using ServiceDescription.induction with
  | step service ih =>
    rcases mem_surface_iff.mp h with (⟨method, _, rfl⟩ | ⟨sub, _, rfl⟩) | ⟨sub, hmem, hbelow⟩
    · cases hkind
    · rfl
    · exact ih sub hmem hbelow

end ServiceDescription

namespace MemberIdentity

variable {declaring name : String} {arity : UInt16} {parameters : List WireType} {member : Member}

theorem describes_method_iff :
    (MemberIdentity.mk .method declaring name arity [] parameters).Describes member ↔
      member = .method declaring name parameters arity := by
  constructor
  · intro h
    obtain ⟨harity, hparameters⟩ := h.signature rfl
    have hkind := h.kind
    have hdeclaring := h.declaring
    have hname := h.name
    rw [Member.parametersUnder, if_pos rfl, Option.some.injEq] at hparameters
    cases member
    simp_all [Member.method]
  · rintro rfl
    exact ⟨rfl, rfl, rfl, fun _ => ⟨rfl, rfl⟩⟩

end MemberIdentity

namespace Registry

variable {registry : Registry} {members : List Member} {member : Member}

/-- A registry of services, registered one after the other. -/
def ofServices (services : List ServiceDescription) : Registry :=
  services.foldl registerService empty

theorem registerService_ofList (members : List Member) (service : ServiceDescription) :
    (ofList members).registerService service = ofList (members ++ service.surface) := by
  rw [registerService, insertAll, ofList, ofList, List.foldl_append]

theorem ofServices_eq (services : List ServiceDescription) :
    ofServices services = ofList (services.flatMap ServiceDescription.surface) := by
  induction services using List.reverseRecOn with
  | nil => rfl
  | append_singleton services service ih =>
    rw [ofServices, List.foldl_append, ← ofServices, ih, List.foldl_cons, List.foldl_nil,
      registerService_ofList, List.flatMap_append, List.flatMap_singleton]

theorem insertAll_of_subset (h : ∀ member ∈ members, member ∈ registry.members) :
    registry.insertAll members = registry := by
  induction members with
  | nil => rfl
  | cons member members ih =>
    obtain ⟨hmem, hmembers⟩ := List.forall_mem_cons.mp h
    rw [insertAll, List.foldl_cons, insert_of_mem hmem]
    exact ih hmembers

/-- A query for a method without generic arguments finds the method of these parameters and this
arity. -/
theorem resolve_method_eq_ok_iff {declaring name : String} {arity : UInt16}
    {parameters : List WireType} :
    (ofList members).resolve ⟨.method, declaring, name, arity, [], parameters⟩ = .ok member ↔
      member = .method declaring name parameters arity ∧ member ∈ members := by
  rw [resolve_ofList_eq_ok_iff, Finset.eq_singleton_iff_unique_mem]
  simp only [mem_matching, MemberIdentity.describes_method_iff]
  constructor
  · rintro ⟨⟨hmem, rfl⟩, _⟩
    exact ⟨rfl, hmem⟩
  · rintro ⟨rfl, hmem⟩
    exact ⟨⟨hmem, rfl⟩, fun other hother => hother.2⟩

/-- A query for a property finds it where properties are registered bare. -/
theorem resolve_property {declaring name : String} {identity : MemberIdentity}
    (hbare : ∀ member ∈ members, member.kind = .property →
      member = .property member.declaring member.name)
    (hmem : .property declaring name ∈ members) (hkind : identity.kind = .property)
    (hdeclaring : identity.declaring = declaring) (hname : identity.name = name) :
    (ofList members).resolve identity = .ok (.property declaring name) := by
  have hcall : ¬identity.kind.isCallable = true := by simp [hkind, MemberKind.isCallable]
  rw [resolve_ofList_eq_ok_iff, Finset.eq_singleton_iff_unique_mem]
  refine ⟨mem_matching.mpr ⟨hmem, hkind.symm, hdeclaring.symm, hname.symm, fun h => absurd h hcall⟩,
    fun other hother => ?_⟩
  obtain ⟨hother, hdescribes⟩ := mem_matching.mp hother
  rw [hbare other hother (hdescribes.kind.trans hkind), hdescribes.declaring, hdescribes.name,
    hdeclaring, hname]

end Registry

/-- Registering a described service publishes it, whatever services are registered already. -/
theorem registered_services_are_published {shape : InterfaceShape} {service : ServiceDescription}
    (hshape : shape.describe = .ok service) (earlier : List ServiceDescription) :
    (∀ chain place, service.descend chain = .ok place →
      (∀ method ∈ place.methods,
        ((Registry.ofServices earlier).registerService service).resolve ⟨.method, place.interface,
            method.name, UInt16.ofNat method.arity, [], method.parameters.map (·.type)⟩ =
          .ok (method.member place.interface) ∧
        (method.arity < 0x10000 ↔ ∃ arity member,
          ((Registry.ofServices earlier).registerService service).resolve ⟨.method,
              place.interface, method.name, arity, [], method.parameters.map (·.type)⟩ =
            .ok member ∧ member.arity.toNat = method.arity)) ∧
      ∀ sub ∈ place.subservices, ∀ identity : MemberIdentity, identity.kind = .property →
        identity.declaring = place.interface → identity.name = sub.1 →
        ((Registry.ofServices earlier).registerService service).resolve identity =
          .ok (.property place.interface sub.1)) ∧
    (∃ new, ((Registry.ofServices earlier).registerService service).members =
        (Registry.ofServices earlier).members ++ new ∧
      ∀ member ∈ new, ∃ chain place, service.descend chain = .ok place ∧ place.Publishes member) ∧
    ((Registry.ofServices earlier).registerService service).registerService service =
      (Registry.ofServices earlier).registerService service := by
  have hnamed := wellNamed_of_describeWithin shape hshape
  rw [Registry.ofServices_eq, Registry.registerService_ofList]
  set before := earlier.flatMap ServiceDescription.surface
  have hpublished : ∀ {chain place member}, service.descend chain = .ok place →
      place.Publishes member → member ∈ before ++ service.surface := by
    intro chain place member hplace hpublishes
    exact List.mem_append_right _ ((ServiceDescription.mem_surface_iff_exists_place hnamed).mpr
      ⟨chain, place, hplace, hpublishes⟩)
  have hbare : ∀ member ∈ before ++ service.surface, member.kind = .property →
      member = .property member.declaring member.name := by
    intro member hmem
    rcases List.mem_append.mp hmem with hmem | hmem
    · obtain ⟨other, _, hmem⟩ := List.mem_flatMap.mp hmem
      exact ServiceDescription.eq_property_of_mem_surface hmem
    · exact ServiceDescription.eq_property_of_mem_surface hmem
  refine ⟨fun chain place hplace => ⟨fun method hmethod => ?_, fun sub hsub identity => ?_⟩, ?_, ?_⟩
  · have hmem := hpublished hplace (.inl ⟨method, hmethod, rfl⟩)
    have hresolve := Registry.resolve_method_eq_ok_iff.mpr ⟨rfl, hmem⟩
    refine ⟨hresolve, fun hsmall => ⟨_, _, hresolve, UInt16.toNat_ofNat_of_lt' hsmall⟩, ?_⟩
    rintro ⟨arity, member, _, hcount⟩
    rw [← hcount]
    exact member.arity.toNat_lt
  · exact Registry.resolve_property hbare (hpublished hplace (.inr ⟨sub, hsub, rfl⟩))
  · refine ⟨(service.surface.removeAll before).eraseDups, ?_, fun member hmem => ?_⟩
    · rw [Registry.members_ofList, Registry.members_ofList, List.eraseDups_append]
    · have hsurface := (List.mem_filter.mp (List.mem_eraseDups.mp hmem)).1
      exact (ServiceDescription.mem_surface_iff_exists_place hnamed).mp hsurface
  · refine Registry.insertAll_of_subset fun member hmem => ?_
    exact Registry.mem_ofList.mpr (List.mem_append_right _ hmem)

namespace Market

/-- The market is published behind the archive: its swap under arity one, and its stall. -/
theorem published_behind_archive :
    shape.describe = .ok description ∧
      ((Registry.ofServices [Archive.description]).registerService description).resolve
          ⟨.method, "IStall", "Swap", 1, [], [.generic 0, .text]⟩ = .ok (swap.member "IStall") ∧
      ((Registry.ofServices [Archive.description]).registerService description).resolve
          ⟨.property, "IMarket", "stall", 7, [.text], []⟩ = .ok (.property "IMarket" "stall") := by
  have hshape : shape.describe = .ok description := rfl
  obtain ⟨hplaces, _⟩ := registered_services_are_published hshape [Archive.description]
  have hswap := ((hplaces ["stall"] stall rfl).1 swap List.mem_cons_self).1
  exact ⟨hshape, hswap,
    (hplaces [] description rfl).2 ("stall", stall) List.mem_cons_self _ rfl rfl rfl⟩

end Market

namespace Wide

/-- One generic parameter more than sixteen bits count. -/
def generics : List String := (List.range 0x10000).map fun index => "T" ++ Nat.repr index

def shape (generics : List String) : InterfaceShape :=
  .mk "IWide" [⟨"Put", .unit, generics, [⟨"value", .number .i32, .byValue⟩]⟩] []

def put (generics : List String) : MethodDescription :=
  ⟨"Put", .unit, [⟨"value", .number .i32, .byValue, 0⟩], generics, .direct⟩

def service (generics : List String) : ServiceDescription := ⟨"IWide", "Wide", [put generics], []⟩

theorem describe_shape {generics : List String} (hnames : ∀ name ∈ generics, Identifier name)
    (hdistinct : generics.Nodup) : (shape generics).describe = .ok (service generics) := by
  have hname : nameOfInterface "IWide" = "Wide" :=
    (serviceName_eq_nameOfInterface "IWide").symm.trans rfl
  have hdeclared : (shape generics).declared = service generics := by
    rw [shape, InterfaceShape.declared, hname]
    rfl
  have hidentifier : Identifier (nameOfInterface "IWide") := by
    rw [hname]
    exact isIdentifier_iff.mp (by decide)
  refine (describeWithin_iff_valid (shape generics)).mpr ⟨InterfaceShape.valid_mk_iff.mpr
    ⟨List.not_mem_nil, hidentifier, ?_, nofun, List.nodup_singleton "Put", .nil⟩, hdeclared.symm⟩
  refine List.forall_mem_singleton.mpr {
    name := isIdentifier_iff.mp (by decide : isIdentifier "Put" = true)
    genericNames := hnames
    parameterNames := List.forall_mem_singleton.mpr (isIdentifier_iff.mp (by decide))
    distinctGenerics := hdistinct
    distinctParameters := List.nodup_singleton _
    noPendingParameter := ?_
    pendingOutermost := ?_
    placeholdersDeclared := ?_
    pendingByValue := nofun }
  all_goals simp [WireType.layers]

theorem identifier_of_mem_generics {name : String} (h : name ∈ generics) : Identifier name := by
  obtain ⟨index, _, rfl⟩ := List.mem_map.mp h
  refine ⟨'T', (Nat.repr index).toList, by simp, .inr (.inl ⟨by decide, by decide⟩),
    fun c hc => ?_⟩
  rw [Nat.repr_eq_ofList_toDigits, String.toList_ofList] at hc
  have hdigit := Nat.isDigit_of_mem_toDigits (by decide) (by decide) hc
  simp only [Char.isDigit, Bool.and_eq_true, decide_eq_true_eq] at hdigit
  exact .inr (.inr hdigit)

theorem nodup_generics : generics.Nodup := by
  refine List.nodup_range.map fun one other h => ?_
  simpa using h

theorem surface_service (generics : List String) : (service generics).surface =
    [.method "IWide" "Put" [.number .i32] (UInt16.ofNat (put generics).arity)] := rfl

theorem ofServices_pair (generics : List String) :
    Registry.ofServices [service [], service generics] =
      (Registry.ofServices [service []]).insertAll (service generics).surface := rfl

/-- A method whose generic parameters sixteen bits do not count is published without any, and where
a method without any is published already, not at all. -/
theorem arity_beyond_sixteen_bits :
    (shape []).describe = .ok (service []) ∧ (shape generics).describe = .ok (service generics) ∧
      (¬∃ arity member, (Registry.ofServices [service [], service generics]).resolve
          ⟨.method, "IWide", "Put", arity, [], [.number .i32]⟩ = .ok member ∧
            member.arity.toNat = (put generics).arity) ∧
      Registry.ofServices [service [], service generics] = Registry.ofServices [service []] := by
  have hcount : (put generics).arity = 0x10000 := by
    rw [MethodDescription.arity, put, generics, List.length_map, List.length_range]
  refine ⟨describe_shape (List.forall_mem_nil _) .nil,
    describe_shape (fun name => identifier_of_mem_generics) nodup_generics, ?_, ?_⟩
  · rintro ⟨arity, member, _, harity⟩
    have hsmall := member.arity.toNat_lt
    omega
  · rw [ofServices_pair, surface_service, hcount]
    rfl

end Wide

end Remoting
