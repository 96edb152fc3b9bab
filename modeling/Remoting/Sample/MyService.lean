import Remoting.Call.Implementation

/-! A sample service with every way to pass a parameter and every way to return. -/

namespace Remoting.Sample

def myServiceShape : InterfaceShape :=
  .mk "Demo.IMyService"
    [{ name := "Add", result := .number .i32,
       parameters := [⟨"a", .number .i32, .byValue⟩, ⟨"b", .number .i32, .byValue⟩] },
     { name := "DivRem", result := .number .i32,
       parameters := [⟨"a", .number .i32, .byValue⟩, ⟨"b", .number .i32, .byValue⟩,
         ⟨"remainder", .number .i32, .out⟩] },
     { name := "Accumulate", result := .unit,
       parameters := [⟨"total", .number .i64, .byRef⟩, ⟨"amount", .number .i32, .byValue⟩] },
     { name := "Greet", result := .pending .text, parameters := [⟨"name", .text, .byValue⟩] },
     { name := "Notify", result := .pending .unit, parameters := [⟨"message", .text, .byValue⟩] }]
    [.value "Version" .text false]

/-- The answer with one slot assigned, which must be there. -/
def answerAssigning (call : MethodCall) (position : Nat) (value : Value) (result : Value) :
    Except ImplementationError Answer := do
  let _ ← call.set position value
  return ⟨.value result, [(position, value)]⟩

/-- Sums wrap around; quotients are truncated. -/
def myService : Implementation where
  label := "MyService"
  subservice? _ := none
  invoke call := do
    match call.method.name with
    | "Add" =>
      let a ← call.argAs (Value.asNumber .i32) 0
      let b ← call.argAs (Value.asNumber .i32) 1
      return ⟨.value (.number .i32 (a + b)), []⟩
    | "DivRem" =>
      let a ← call.argAs (Value.asNumber .i32) 0
      let b ← call.argAs (Value.asNumber .i32) 1
      if b = 0 then throw ⟨"division by zero"⟩
      answerAssigning call 2 (.number .i32 (BitVec.srem a b)) (.number .i32 (BitVec.sdiv a b))
    | "Accumulate" =>
      let total : BitVec 64 ← call.argAs (Value.asNumber .i64) 0
      let amount : BitVec 32 ← call.argAs (Value.asNumber .i32) 1
      answerAssigning call 0 (.number .i64 (total + BitVec.signExtend 64 amount)) .unit
    | "Greet" =>
      let name ← call.argAs Value.asText 0
      return ⟨.pending (.ok (.text ("Hello, " ++ name ++ "!"))), []⟩
    | "Notify" => return ⟨.pending (.ok .unit), []⟩
    | "get_Version" => return ⟨.value (.text "1.0"), []⟩
    | other => throw ⟨"MyService has no method " ++ other⟩

end Remoting.Sample
