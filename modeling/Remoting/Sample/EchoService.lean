import Remoting.Call.Implementation

/-! A sample service of generic methods, each with one type parameter. -/

namespace Remoting.Sample

def echoServiceShape : InterfaceShape :=
  .mk "Demo.IEchoService"
    [{ name := "Echo", result := .generic 0, generics := ["T"],
       parameters := [⟨"value", .generic 0, .byValue⟩] },
     { name := "Count", result := .number .i32, generics := ["T"],
       parameters := [⟨"values", .array (.generic 0), .byValue⟩] },
     { name := "Describe", result := .text, generics := ["T"] },
     { name := "EchoLater", result := .pending (.generic 0), generics := ["T"],
       parameters := [⟨"value", .generic 0, .byValue⟩] }]
    []

/-- A null array counts as minus one. -/
def echoService : Implementation where
  label := "EchoService"
  subservice? _ := none
  invoke call := do
    match call.method.name with
    | "Echo" => return ⟨.value (← call.arg 0), []⟩
    | "Count" =>
      match ← call.arg 0 with
      | .array items => return ⟨.value (.number .i32 (BitVec.ofNat 32 items.length)), []⟩
      | .null => return ⟨.value (.number .i32 (BitVec.ofInt 32 (-1))), []⟩
      | other => throw ⟨"expected an array, found " ++ other.kind.name⟩
    | "Describe" =>
      return ⟨.value (.text (", ".intercalate (call.typeArguments.map WireType.display))), []⟩
    | "EchoLater" => return ⟨.pending (.ok (← call.arg 0)), []⟩
    | other => throw ⟨"EchoService has no method " ++ other⟩

end Remoting.Sample
