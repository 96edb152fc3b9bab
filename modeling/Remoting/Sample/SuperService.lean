import Remoting.Call.Implementation

/-! A sample service with a sub-service. -/

namespace Remoting.Sample

def trivialShape : InterfaceShape :=
  .mk "Demo.ITrivial"
    [{ name := "DoSomething", result := .number .i32,
       parameters := [⟨"value", .number .i32, .byValue⟩] }]
    []

def superServiceShape : InterfaceShape :=
  .mk "Demo.ISuperService" [{ name := "Ping", result := .unit }]
    [.service "Trivial" trivialShape false]

/-- Doubles what it is given. -/
def trivialNamed (label : String) : Implementation where
  label := label
  subservice? _ := none
  invoke call := do
    match call.method.name with
    | "DoSomething" =>
      let value ← call.argAs (Value.asNumber .i32) 0
      return ⟨.value (.number .i32 (value + value)), []⟩
    | other => throw ⟨"Trivial has no method " ++ other⟩

/-- Stands alone. -/
def trivial : Implementation := trivialNamed "Trivial"

/-- Stands below the service that it is part of. -/
def superTrivial : Implementation := trivialNamed "SuperService.Trivial"

def superService : Implementation where
  label := "SuperService"
  subservice? name := if name = "Trivial" then some superTrivial else none
  invoke call := do
    match call.method.name with
    | "Ping" => return ⟨.value .unit, []⟩
    | other => throw ⟨"SuperService has no method " ++ other⟩

end Remoting.Sample
