import Remoting.Interface.Description
import Remoting.Table

/-! A catalogue of descriptions by interface identity. The first shape of an identity that can be
described stays; failures leave no trace. -/

namespace Remoting

abbrev Catalogue := Table String ServiceDescription

namespace Catalogue

/-- The slot and the description of a shape's identity, and the catalogue afterwards. Where the
identity is known already, the shape itself is not looked at. -/
def describe (catalogue : Catalogue) (shape : InterfaceShape) :
    Except DescriptionError (Nat × ServiceDescription) × Catalogue :=
  match catalogue.find? shape.id with
  | some found => (.ok found, catalogue)
  | none =>
    match shape.describe with
    | .error error => (.error error, catalogue)
    | .ok service => (.ok (catalogue.size, service), catalogue.push service.interface service)

end Catalogue

end Remoting
