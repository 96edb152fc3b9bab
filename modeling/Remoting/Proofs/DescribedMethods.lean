import Mathlib
import Remoting.Proofs.MethodShapes

/-! What is known of every method at any depth of a described service. -/

namespace Remoting

/-- A method that the checks of some interface have let pass. -/
def MethodDescription.Checked (method : MethodDescription) : Prop :=
  ∃ interface, ∃ shape : MethodShape, shape.describe interface = .ok method

theorem MethodShape.describe_eq_ok {interface : String} {shape : MethodShape}
    {method : MethodDescription} (h : shape.describe interface = .ok method) :
    isIdentifier method.name = true ∧
      method.parameters = shape.parameters.mapIdx (fun position parameter =>
        ⟨parameter.name, parameter.type, parameter.mode, position⟩) ∧
      (method.style, method.result) = RemotingStyle.ofResult shape.result ∧
      (method.style ≠ .direct → method.responseParameters = []) := by
  obtain ⟨hwf, rfl⟩ := describe_eq_ok_iff.mp h
  refine ⟨isIdentifier_iff.mpr hwf.name, rfl, (ofResult_eq shape).symm, fun hstyle => ?_⟩
  obtain ⟨result, hresult⟩ := style_declared_ne_direct_iff.mp hstyle
  refine List.filter_eq_nil_iff.mpr fun parameter hmem => ?_
  obtain ⟨i, hi, rfl⟩ := List.mem_mapIdx.mp hmem
  have hmode := hwf.pendingByValue result hresult _ (List.getElem_mem hi)
  simp [hmode, PassingMode.isResponse]

namespace MethodDescription

theorem Checked.positions {method : MethodDescription} (h : method.Checked) {i : Nat}
    {parameter : ParameterDescription} (hp : method.parameters[i]? = some parameter) :
    parameter.position = i := by
  obtain ⟨interface, shape, hs⟩ := h
  obtain ⟨_, hparameters, _⟩ := MethodShape.describe_eq_ok hs
  rw [hparameters, List.getElem?_mapIdx] at hp
  obtain ⟨declared, _, rfl⟩ := Option.map_eq_some_iff.mp hp
  rfl

theorem Checked.name {method : MethodDescription} (h : method.Checked) :
    isIdentifier method.name = true := by
  obtain ⟨interface, shape, hs⟩ := h
  exact (MethodShape.describe_eq_ok hs).1

theorem Checked.style {method : MethodDescription} (h : method.Checked) :
    (method.style = .asyncVoid → method.returnsValue = false) ∧
      (method.style = .asyncValue → method.returnsValue = true) ∧
      (method.style ≠ .direct → method.responseParameters = []) := by
  obtain ⟨interface, shape, hs⟩ := h
  obtain ⟨_, _, hstyle, hresponse⟩ := MethodShape.describe_eq_ok hs
  refine ⟨fun hvoid => ?_, fun hvalue => ?_, hresponse⟩
  · unfold RemotingStyle.ofResult at hstyle
    split at hstyle <;> simp_all [returnsValue]
  · unfold RemotingStyle.ofResult at hstyle
    split at hstyle <;> simp_all [returnsValue]

end MethodDescription

/-- What holds of a service and of all below it. -/
def ServiceDescription.Throughout (P : ServiceDescription → Prop) (service : ServiceDescription) :
    Prop :=
  ∀ chain leaf, service.descend chain = .ok leaf → P leaf

theorem ServiceDescription.throughout_of {P : ServiceDescription → Prop}
    {service : ServiceDescription} (hown : P service) (hsub : ∀ sub ∈ service.subservices, sub.2.Throughout P) :
    service.Throughout P := by
  intro chain leaf hleaf
  cases chain with
  | nil =>
    cases hleaf
    exact hown
  | cons name chain =>
    rw [descend] at hleaf
    cases hsearch : service.subservice? name with
    | none => simp [hsearch] at hleaf
    | some sub =>
      simp only [hsearch] at hleaf
      obtain ⟨entry, hentry, rfl⟩ := Option.map_eq_some_iff.mp hsearch
      exact hsub entry (List.mem_of_find?_eq_some hentry) chain leaf hleaf

/-- What holds of the methods of a service and of all of its sub-services. -/
def ServiceDescription.Everywhere (P : MethodDescription → Prop) (service : ServiceDescription) : Prop :=
  ∀ chain leaf, service.descend chain = .ok leaf → ∀ method ∈ leaf.methods, P method

theorem ServiceDescription.everywhere_of {P : MethodDescription → Prop} {service : ServiceDescription}
    (hown : ∀ method ∈ service.methods, P method)
    (hsub : ∀ sub ∈ service.subservices, sub.2.Everywhere P) : service.Everywhere P :=
  throughout_of (P := fun leaf => ∀ method ∈ leaf.methods, P method) hown hsub

theorem describeWithin_eq_ok_iff {enclosing : List String} {id : String}
    {methods : List MethodShape} {properties : List PropertyShape} {service : ServiceDescription} :
    InterfaceShape.describeWithin enclosing (.mk id methods properties) = .ok service ↔
      id ∉ enclosing ∧ isIdentifier (serviceName id) = true ∧ ∃ declared getters subservices,
        methods.mapM (·.describe id) = .ok declared ∧
        describeProperties id (id :: enclosing) properties = .ok (getters, subservices) ∧
        ((declared ++ getters).map (·.name)).Nodup ∧ (subservices.map (·.1)).Nodup ∧
        service = ⟨id, serviceName id, declared ++ getters, subservices⟩ := by
  simp only [InterfaceShape.describeWithin, check_eq_ok_iff, except_bind_eq_ok_iff,
    checkIdentifier_eq_ok_iff, checkDistinct_eq_ok_iff, exists_const]
  refine and_congr_right fun _ => and_congr_right fun _ => ?_
  constructor
  · intro h
    obtain ⟨declared, hdeclared, ⟨getters, subservices⟩, hproperties, hmethods, hsubservices, h⟩ := h
    cases h
    exact ⟨declared, getters, subservices, hdeclared, hproperties, hmethods, hsubservices, rfl⟩
  · intro h
    obtain ⟨declared, getters, subservices, hdeclared, hproperties, hmethods, hsubservices, rfl⟩ := h
    exact ⟨declared, hdeclared, (getters, subservices), hproperties, hmethods, hsubservices, rfl⟩

section Properties

variable {interface name : String} {enclosing : List String} {hasSetter : Bool}
  {properties : List PropertyShape} {getters : List MethodDescription}
  {subservices : List (String × ServiceDescription)}

theorem describeProperties_value_eq_ok_iff {type : WireType} :
    describeProperties interface enclosing (.value name type hasSetter :: properties) =
        .ok (getters, subservices) ↔
      hasSetter = false ∧ isIdentifier name = true ∧ ∃ method others,
        (getter name type).describe interface = .ok method ∧
        describeProperties interface enclosing properties = .ok (others, subservices) ∧
        getters = method :: others := by
  simp only [describeProperties, check_eq_ok_iff, except_bind_eq_ok_iff, checkIdentifier_eq_ok_iff,
    exists_const, Bool.not_eq_true]
  refine and_congr_right fun _ => and_congr_right fun _ => exists_congr fun method => ?_
  constructor
  · intro h
    obtain ⟨hmethod, ⟨others, _⟩, hproperties, h⟩ := h
    cases h
    exact ⟨others, hmethod, hproperties, rfl⟩
  · intro h
    obtain ⟨others, hmethod, hproperties, rfl⟩ := h
    exact ⟨hmethod, (others, subservices), hproperties, rfl⟩

theorem describeProperties_service_eq_ok_iff {shape : InterfaceShape} :
    describeProperties interface enclosing (.service name shape hasSetter :: properties) =
        .ok (getters, subservices) ↔
      hasSetter = false ∧ isIdentifier name = true ∧ ∃ service others,
        shape.describeWithin enclosing = .ok service ∧
        describeProperties interface enclosing properties = .ok (getters, others) ∧
        subservices = (name, service) :: others := by
  simp only [describeProperties, check_eq_ok_iff, except_bind_eq_ok_iff, checkIdentifier_eq_ok_iff,
    exists_const, Bool.not_eq_true]
  refine and_congr_right fun _ => and_congr_right fun _ => exists_congr fun service => ?_
  constructor
  · intro h
    obtain ⟨hservice, ⟨_, others⟩, hproperties, h⟩ := h
    cases h
    exact ⟨others, hservice, hproperties, rfl⟩
  · intro h
    obtain ⟨others, hservice, hproperties, rfl⟩ := h
    exact ⟨hservice, (getters, others), hproperties, rfl⟩

end Properties

mutual

theorem checked_of_describeWithin (shape : InterfaceShape) : ∀ {enclosing service},
    shape.describeWithin enclosing = .ok service →
      service.Everywhere MethodDescription.Checked := by
  intro enclosing service h
  cases shape with
  | mk id methods properties =>
    obtain ⟨_, _, declared, getters, _, hdeclared, hproperties, _, _, rfl⟩ :=
      describeWithin_eq_ok_iff.mp h
    obtain ⟨hgetters, hsub⟩ := checked_of_describeProperties properties hproperties
    refine ServiceDescription.everywhere_of (fun method hmem => ?_) hsub
    rcases List.mem_append.mp hmem with hmem | hmem
    · obtain ⟨shape, _, hshape⟩ := exists_of_mem_mapM hdeclared hmem
      exact ⟨id, shape, hshape⟩
    · exact hgetters method hmem
termination_by structural shape

theorem checked_of_describeProperties (properties : List PropertyShape) :
    ∀ {interface enclosing getters subservices},
      describeProperties interface enclosing properties = .ok (getters, subservices) →
      (∀ method ∈ getters, method.Checked) ∧
        ∀ sub ∈ subservices, sub.2.Everywhere MethodDescription.Checked := by
  intro interface enclosing getters subservices h
  cases properties with
  | nil =>
    cases h
    exact ⟨nofun, nofun⟩
  | cons property properties =>
    cases property with
    | value name type hasSetter =>
      obtain ⟨_, _, method, others, hmethod, hothers, rfl⟩ :=
        describeProperties_value_eq_ok_iff.mp h
      obtain ⟨hgetters, hsub⟩ := checked_of_describeProperties properties hothers
      exact ⟨List.forall_mem_cons.mpr ⟨⟨_, _, hmethod⟩, hgetters⟩, hsub⟩
    | service name shape hasSetter =>
      obtain ⟨_, _, service, others, hservice, hothers, rfl⟩ :=
        describeProperties_service_eq_ok_iff.mp h
      obtain ⟨hgetters, hsub⟩ := checked_of_describeProperties properties hothers
      have hdeeper := checked_of_describeWithin shape hservice
      exact ⟨hgetters, List.forall_mem_cons.mpr ⟨hdeeper, hsub⟩⟩
termination_by structural properties

end

end Remoting
