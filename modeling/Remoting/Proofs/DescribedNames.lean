import Mathlib
import Remoting.Proofs.DescribedMethods

/-! What is known of the names in a described service. At any depth they can stand as segments of a
path, and each of them names one thing. -/

namespace Remoting

theorem ne_empty_of_isIdentifier {name : String} (h : isIdentifier name = true) : name ≠ "" := by
  rintro rfl
  cases h

/-- The names of a service and of what it has are identifiers, and no two of a kind are the same. -/
structure ServiceDescription.WellNamed (service : ServiceDescription) : Prop where
  name : isIdentifier service.name = true
  methods : ∀ method ∈ service.methods, isIdentifier method.name = true
  subservices : ∀ sub ∈ service.subservices, isIdentifier sub.1 = true
  distinctMethods : (service.methods.map (·.name)).Nodup
  distinctSubservices : (service.subservices.map (·.1)).Nodup

mutual

theorem wellNamed_of_describeWithin (shape : InterfaceShape) : ∀ {enclosing service},
    shape.describeWithin enclosing = .ok service →
      service.Throughout ServiceDescription.WellNamed := by
  intro enclosing service h
  have hchecked := checked_of_describeWithin shape h
  cases shape with
  | mk id methods properties =>
    obtain ⟨_, hname, _, _, _, _, hproperties, hmethods, hsubservices, rfl⟩ :=
      describeWithin_eq_ok_iff.mp h
    have hsub := wellNamed_of_describeProperties properties hproperties
    exact ServiceDescription.throughout_of {
      name := hname
      methods := fun method hmem => (hchecked [] _ rfl method hmem).name
      subservices := fun sub hmem => (hsub sub hmem).1
      distinctMethods := hmethods
      distinctSubservices := hsubservices } fun sub hmem => (hsub sub hmem).2
termination_by structural shape

theorem wellNamed_of_describeProperties (properties : List PropertyShape) :
    ∀ {interface enclosing getters subservices},
      describeProperties interface enclosing properties = .ok (getters, subservices) →
      ∀ sub ∈ subservices, isIdentifier sub.1 = true ∧
        sub.2.Throughout ServiceDescription.WellNamed := by
  intro interface enclosing getters subservices h
  cases properties with
  | nil =>
    cases h
    exact nofun
  | cons property properties =>
    cases property with
    | value name type hasSetter =>
      obtain ⟨_, _, _, _, _, hothers, _⟩ := describeProperties_value_eq_ok_iff.mp h
      exact wellNamed_of_describeProperties properties hothers
    | service name shape hasSetter =>
      obtain ⟨_, hname, service, others, hservice, hothers, rfl⟩ :=
        describeProperties_service_eq_ok_iff.mp h
      have hdeeper := wellNamed_of_describeWithin shape hservice
      exact List.forall_mem_cons.mpr
        ⟨⟨hname, hdeeper⟩, wellNamed_of_describeProperties properties hothers⟩
termination_by structural properties

end

namespace ServiceDescription

variable {description place : ServiceDescription} {chain : List String} {name : String}

theorem WellNamed.subservice? (h : description.WellNamed)
    (hsub : description.subservice? name = some place) : isIdentifier name = true := by
  obtain ⟨entry, hentry, rfl⟩ := Option.map_eq_some_iff.mp hsub
  have hname : entry.1 = name := by simpa using List.find?_some hentry
  exact hname ▸ h.subservices entry (List.mem_of_find?_eq_some hentry)

theorem WellNamed.method? (h : description.WellNamed) {method : MethodDescription}
    (hmethod : description.method? name = some method) : isIdentifier name = true := by
  have hname : method.name = name := by simpa using List.find?_some hmethod
  exact hname ▸ h.methods method (List.mem_of_find?_eq_some hmethod)

/-- Only identifiers lead down the tree. -/
theorem isIdentifier_of_descend (h : description.Throughout WellNamed)
    (hplace : description.descend chain = .ok place) :
    ∀ name ∈ chain, isIdentifier name = true := by
  induction chain generalizing description with
  | nil => exact nofun
  | cons name chain ih =>
    have hown := h [] description rfl
    rw [descend] at hplace
    cases hsub : description.subservice? name with
    | none => simp [hsub] at hplace
    | some sub =>
      simp only [hsub] at hplace
      have hbelow : sub.Throughout WellNamed := fun deeper leaf hleaf =>
        h (name :: deeper) leaf (by rw [descend, hsub]; exact hleaf)
      exact List.forall_mem_cons.mpr ⟨hown.subservice? hsub, ih hbelow hplace⟩

end ServiceDescription

end Remoting
