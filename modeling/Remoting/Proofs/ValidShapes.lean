import Mathlib
import Remoting.Proofs.DescribedMethods

/-! Which shapes can be described: those that keep the rules of a declaration at every depth. The
description of a shape says what the shape declares, in the order of the declaration. -/

namespace Remoting

/-- The method that a value property is remoted as. -/
def PropertyShape.getter? : PropertyShape → Option MethodShape
  | value name type _ =>
    some { name := "get_" ++ name, result := type, generics := [], parameters := [] }
  | service _ _ _ => none

def PropertyShape.subservice? : PropertyShape → Option (String × InterfaceShape)
  | value _ _ _ => none
  | service name shape _ => some (name, shape)

/-- What stands behind the last full stop of an identity. -/
def simpleName (interface : String) : List Char := interface.toList.rtakeWhile (· ≠ '.')

/-- The name of the service that an interface is for. A leading `I` that stands before a capital
letter of ASCII is not part of it. -/
def nameOfInterface (interface : String) : String :=
  if (simpleName interface).head? = some 'I' ∧
      ∃ c ∈ (simpleName interface)[1]?, 'A' ≤ c ∧ c ≤ 'Z' then
    String.ofList ((simpleName interface).drop 1)
  else String.ofList (simpleName interface)

theorem serviceName_eq_nameOfInterface (interface : String) :
    serviceName interface = nameOfInterface interface := by
  have hsimple : (interface.toList.reverse.takeWhile (· != '.')).reverse = simpleName interface := by
    simp only [simpleName, List.rtakeWhile, ne_eq, bne, beq_eq_decide, decide_not]
  rw [serviceName, hsimple, nameOfInterface]
  rcases simpleName interface with _ | ⟨first, _ | ⟨second, rest⟩⟩
  · simp
  · simp
  · have hupper : second.isUpper = true ↔ 'A' ≤ second ∧ second ≤ 'Z' := by
      simp [Char.isUpper, Char.le_def]
    by_cases hfirst : first = 'I'
    · subst hfirst
      simp [hupper]
    · simp [hfirst]

namespace InterfaceShape

def subservices (shape : InterfaceShape) : List (String × InterfaceShape) :=
  shape.properties.filterMap (·.subservice?)

/-- The declared methods and behind them the getters. -/
def remoted (shape : InterfaceShape) : List MethodShape :=
  shape.methods ++ shape.properties.filterMap (·.getter?)

/-- A shape and the shapes nested in it, with the identities of those around them from the inside
out. -/
inductive Nested (root : InterfaceShape) : List String → InterfaceShape → Prop
  | root : Nested root [] root
  | sub {enclosing : List String} {place sub : InterfaceShape} {name : String}
      (h : Nested root enclosing place) (hmem : (name, sub) ∈ place.subservices) :
      Nested root (place.id :: enclosing) sub

/-- What a shape may declare below others, whatever is nested in it. -/
structure WellFormed (enclosing : List String) (shape : InterfaceShape) : Prop where
  name : Identifier (nameOfInterface shape.id)
  notEnclosed : shape.id ∉ enclosing
  readOnly : ∀ property ∈ shape.properties, property.hasSetter = false
  propertyNames : ∀ property ∈ shape.properties, Identifier property.name
  methods : ∀ method ∈ shape.remoted, method.WellFormed
  distinctMethods : (shape.remoted.map (·.name)).Nodup
  distinctSubservices : (shape.subservices.map (·.1)).Nodup

/-- Well formed at every depth. -/
def Valid (enclosing : List String) (shape : InterfaceShape) : Prop :=
  ∀ between place, shape.Nested between place → place.WellFormed (between ++ enclosing)

theorem nested_iff {shape place : InterfaceShape} {enclosing : List String} :
    shape.Nested enclosing place ↔ enclosing = [] ∧ place = shape ∨
      ∃ sub ∈ shape.subservices, ∃ between, sub.2.Nested between place ∧
        enclosing = between ++ [shape.id] := by
  constructor
  · intro h
    induction h with
    | root => exact .inl ⟨rfl, rfl⟩
    | @sub enclosing place below name _ hmem ih =>
      rcases ih with ⟨rfl, rfl⟩ | ⟨first, hfirst, between, hnested, rfl⟩
      · exact .inr ⟨_, hmem, [], .root, rfl⟩
      · exact .inr ⟨first, hfirst, _, .sub hnested hmem, rfl⟩
  · intro h
    rcases h with ⟨rfl, rfl⟩ | ⟨sub, hsub, between, hnested, rfl⟩
    · exact .root
    · induction hnested with
      | root => exact .sub .root hsub
      | sub _ hmem ih => exact .sub ih hmem

theorem valid_iff {enclosing : List String} {shape : InterfaceShape} :
    shape.Valid enclosing ↔ shape.WellFormed enclosing ∧
      ∀ sub ∈ shape.subservices, sub.2.Valid (shape.id :: enclosing) := by
  constructor
  · intro h
    refine ⟨h [] shape .root, fun sub hmem between place hnested => ?_⟩
    have hplace := h _ place (nested_iff.mpr (.inr ⟨sub, hmem, between, hnested, rfl⟩))
    rwa [List.append_assoc] at hplace
  · intro h between place hnested
    rcases nested_iff.mp hnested with ⟨rfl, rfl⟩ | ⟨sub, hmem, below, hbelow, rfl⟩
    · exact h.1
    · rw [List.append_assoc]
      exact h.2 sub hmem below place hbelow

end InterfaceShape

/-- What one property may declare, with all that is nested in it. -/
structure PropertyShape.Valid (enclosing : List String) (property : PropertyShape) : Prop where
  readOnly : property.hasSetter = false
  name : Identifier property.name
  getter : ∀ method ∈ property.getter?, method.WellFormed
  subservice : ∀ sub ∈ property.subservice?, sub.2.Valid enclosing

namespace PropertyShape

variable {enclosing : List String} {name : String} {hasSetter : Bool}

theorem valid_value_iff {type : WireType} : (value name type hasSetter).Valid enclosing ↔
    hasSetter = false ∧ Identifier name ∧ (getter name type).WellFormed := by
  constructor
  · intro h
    exact ⟨h.readOnly, h.name, h.getter _ rfl⟩
  · rintro ⟨hsetter, hname, hgetter⟩
    exact ⟨hsetter, hname, by rintro _ ⟨⟩; exact hgetter, nofun⟩

theorem valid_service_iff {shape : InterfaceShape} : (service name shape hasSetter).Valid enclosing ↔
    hasSetter = false ∧ Identifier name ∧ shape.Valid enclosing := by
  constructor
  · intro h
    exact ⟨h.readOnly, h.name, h.subservice _ rfl⟩
  · rintro ⟨hsetter, hname, hshape⟩
    exact ⟨hsetter, hname, nofun, by rintro _ ⟨⟩; exact hshape⟩

end PropertyShape

namespace InterfaceShape

variable {enclosing : List String} {id : String} {methods : List MethodShape}
  {properties : List PropertyShape}

theorem valid_mk_iff : (mk id methods properties).Valid enclosing ↔
    id ∉ enclosing ∧ Identifier (nameOfInterface id) ∧ (∀ method ∈ methods, method.WellFormed) ∧
      (∀ property ∈ properties, property.Valid (id :: enclosing)) ∧
      ((mk id methods properties).remoted.map (·.name)).Nodup ∧
      ((mk id methods properties).subservices.map (·.1)).Nodup := by
  rw [valid_iff]
  constructor
  · intro h
    obtain ⟨hwf, hsub⟩ := h
    refine ⟨hwf.notEnclosed, hwf.name, fun method hmem => ?_, fun property hmem => ?_,
      hwf.distinctMethods, hwf.distinctSubservices⟩
    · exact hwf.methods method (List.mem_append_left _ hmem)
    · exact {
        readOnly := hwf.readOnly property hmem
        name := hwf.propertyNames property hmem
        getter := fun method hgetter => hwf.methods method
          (List.mem_append_right methods (List.mem_filterMap.mpr ⟨property, hmem, hgetter⟩))
        subservice := fun sub hbelow =>
          hsub sub (List.mem_filterMap.mpr ⟨property, hmem, hbelow⟩) }
  · intro h
    obtain ⟨hid, hname, hmethods, hproperties, hdistinct, hdistinct'⟩ := h
    refine ⟨{
      name := hname
      notEnclosed := hid
      readOnly := fun property hmem => (hproperties property hmem).readOnly
      propertyNames := fun property hmem => (hproperties property hmem).name
      methods := List.forall_mem_append.mpr ⟨hmethods, fun method hmem => ?_⟩
      distinctMethods := hdistinct
      distinctSubservices := hdistinct' }, fun sub hmem => ?_⟩
    · obtain ⟨property, hmem, hgetter⟩ := List.mem_filterMap.mp hmem
      exact (hproperties property hmem).getter method hgetter
    · obtain ⟨property, hmem, hbelow⟩ := List.mem_filterMap.mp hmem
      exact (hproperties property hmem).subservice sub hbelow

end InterfaceShape

mutual

/-- The description that says what a shape declares. -/
def InterfaceShape.declared : InterfaceShape → ServiceDescription
  | .mk id methods properties =>
    ⟨id, nameOfInterface id, (methods ++ properties.filterMap (·.getter?)).map (·.declared),
      declaredSubservices properties⟩
termination_by structural shape => shape

def declaredSubservices : List PropertyShape → List (String × ServiceDescription)
  | [] => []
  | .value _ _ _ :: properties => declaredSubservices properties
  | .service name shape _ :: properties =>
    (name, shape.declared) :: declaredSubservices properties
termination_by structural properties => properties

end

theorem declaredSubservices_eq (properties : List PropertyShape) :
    declaredSubservices properties =
      (properties.filterMap (·.subservice?)).map fun sub => (sub.1, sub.2.declared) := by
  induction properties with
  | nil => rfl
  | cons property properties ih =>
    cases property with
    | value name type hasSetter => exact ih
    | service name shape hasSetter => exact congrArg _ ih

theorem declaredSubservices_names (properties : List PropertyShape) :
    (declaredSubservices properties).map (·.1) = (properties.filterMap (·.subservice?)).map (·.1) := by
  rw [declaredSubservices_eq, List.map_map]
  rfl

theorem names_declared (shapes : List MethodShape) :
    (shapes.map (·.declared)).map (·.name) = shapes.map (·.name) := by
  rw [List.map_map]
  rfl

theorem mapM_describe_eq_ok_iff {interface : String} {shapes : List MethodShape}
    {methods : List MethodDescription} :
    shapes.mapM (·.describe interface) = .ok methods ↔
      (∀ shape ∈ shapes, shape.WellFormed) ∧ methods = shapes.map (·.declared) := by
  have hdeclared : ∀ (shapes : List MethodShape) (methods : List MethodDescription),
      List.Forall₂ (fun shape method => method = shape.declared) shapes methods ↔
        methods = shapes.map (·.declared) := by
    intro shapes
    induction shapes with
    | nil => simp
    | cons shape shapes ih =>
      intro methods
      cases methods <;> simp [ih]
  simp only [mapM_eq_ok_iff, MethodShape.describe_eq_ok_iff, List.forall₂_and_left, hdeclared]

mutual

theorem describeWithin_iff_valid (shape : InterfaceShape) : ∀ {enclosing service},
    shape.describeWithin enclosing = .ok service ↔
      shape.Valid enclosing ∧ service = shape.declared := by
  intro enclosing service
  cases shape with
  | mk id methods properties =>
    have hproperties := @describeProperties_iff_valid properties id (id :: enclosing)
    simp only [describeWithin_eq_ok_iff, InterfaceShape.valid_mk_iff, hproperties,
      mapM_describe_eq_ok_iff, isIdentifier_iff, serviceName_eq_nameOfInterface]
    -- The checks look for repeated names in what is described, the rules in what is declared.
    constructor
    · intro h
      obtain ⟨hid, hname, _, _, _, ⟨hmethods, rfl⟩, ⟨hvalid, rfl, rfl⟩, hdistinct, hdistinct', rfl⟩ := h
      rw [← List.map_append, names_declared] at hdistinct
      rw [declaredSubservices_names] at hdistinct'
      refine ⟨⟨hid, hname, hmethods, hvalid, hdistinct, hdistinct'⟩, ?_⟩
      rw [InterfaceShape.declared, List.map_append]
    · intro h
      obtain ⟨⟨hid, hname, hmethods, hvalid, hdistinct, hdistinct'⟩, rfl⟩ := h
      refine ⟨hid, hname, _, _, _, ⟨hmethods, rfl⟩, ⟨hvalid, rfl, rfl⟩, ?_, ?_, ?_⟩
      · rw [← List.map_append, names_declared]
        exact hdistinct
      · rw [declaredSubservices_names]
        exact hdistinct'
      · rw [InterfaceShape.declared, List.map_append]
termination_by structural shape

theorem describeProperties_iff_valid (properties : List PropertyShape) :
    ∀ {interface enclosing getters subservices},
      describeProperties interface enclosing properties = .ok (getters, subservices) ↔
        (∀ property ∈ properties, property.Valid enclosing) ∧
        getters = (properties.filterMap (·.getter?)).map (·.declared) ∧
        subservices = declaredSubservices properties := by
  intro interface enclosing getters subservices
  cases properties with
  | nil => simp [describeProperties, declaredSubservices, eq_comm]
  | cons property properties =>
    have hothers := @describeProperties_iff_valid properties interface enclosing
    cases property with
    | value name type hasSetter =>
      rw [describeProperties_value_eq_ok_iff, List.forall_mem_cons, PropertyShape.valid_value_iff]
      simp only [hothers, isIdentifier_iff, MethodShape.describe_eq_ok_iff]
      constructor
      · intro h
        obtain ⟨hsetter, hname, _, _, ⟨hgetter, rfl⟩, ⟨hvalid, rfl, rfl⟩, rfl⟩ := h
        exact ⟨⟨⟨hsetter, hname, hgetter⟩, hvalid⟩, rfl, rfl⟩
      · intro h
        obtain ⟨⟨⟨hsetter, hname, hgetter⟩, hvalid⟩, rfl, rfl⟩ := h
        exact ⟨hsetter, hname, _, _, ⟨hgetter, rfl⟩, ⟨hvalid, rfl, rfl⟩, rfl⟩
    | service name shape hasSetter =>
      have hshape := @describeWithin_iff_valid shape enclosing
      rw [describeProperties_service_eq_ok_iff, List.forall_mem_cons,
        PropertyShape.valid_service_iff]
      simp only [hothers, isIdentifier_iff, hshape]
      constructor
      · intro h
        obtain ⟨hsetter, hname, _, _, ⟨hnested, rfl⟩, ⟨hvalid, rfl, rfl⟩, rfl⟩ := h
        exact ⟨⟨⟨hsetter, hname, hnested⟩, hvalid⟩, rfl, rfl⟩
      · intro h
        obtain ⟨⟨⟨hsetter, hname, hnested⟩, hvalid⟩, rfl, rfl⟩ := h
        exact ⟨hsetter, hname, _, _, ⟨hnested, rfl⟩, ⟨hvalid, rfl, rfl⟩, rfl⟩
termination_by structural properties

end

theorem shapes_described_iff_valid (shape : InterfaceShape) (description : ServiceDescription) :
    shape.describe = .ok description ↔
      (∀ enclosing place, shape.Nested enclosing place → place.WellFormed enclosing) ∧
        description = shape.declared := by
  have hvalid : shape.Valid [] ↔
      ∀ enclosing place, shape.Nested enclosing place → place.WellFormed enclosing := by
    simp only [InterfaceShape.Valid, List.append_nil]
  rw [← hvalid]
  exact describeWithin_iff_valid shape

/-- Two properties may be of one interface, but nothing is found inside itself. -/
example :
    (InterfaceShape.mk "IMarket" [] [.service "north" (.mk "IStall" [] []) false,
        .service "south" (.mk "IStall" [] []) false]).describe.isOk = true ∧
      (InterfaceShape.mk "IMarket" [] [.service "inner" (.mk "IMarket" [] []) false]).describe =
        .error (.recursiveSubservice "IMarket") :=
  ⟨rfl, rfl⟩

/-- A value property is described as a method, behind the methods that are declared. -/
example :
    (InterfaceShape.mk "Demo.IMarket" [{ name := "Close", result := .pending .unit }]
        [.value "Open" .bool false]).describe =
      .ok ⟨"Demo.IMarket", "Market", [⟨"Close", .unit, [], [], .asyncVoid⟩,
        ⟨"get_Open", .bool, [], [], .direct⟩], []⟩ :=
  rfl

end Remoting
