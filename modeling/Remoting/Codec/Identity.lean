import Remoting.Member.Registry
import Remoting.Wire.Witness

/-! The identity of a member as bytes: declaring type and name, and for callable members the arity,
the generic arguments and the parameters. Reading one looks the member up again. -/

namespace Remoting

namespace MemberIdentity

/-- The size of the part that callable members alone have, without its three counts. -/
def witnessesSize (identity : MemberIdentity) : Except EncodeError Nat :=
  totalSize WireType.witnessSize 0 (identity.arguments ++ identity.parameters)

def size (identity : MemberIdentity) : Except EncodeError Nat :=
  let names := 4 + identity.declaring.utf8ByteSize + (4 + identity.name.utf8ByteSize)
  if identity.kind.isCallable then identity.witnessesSize.map (names + 6 + ·)
  else .ok names

end MemberIdentity

namespace Writer

def witnesses (types : List WireType) : Writer Unit := do
  count types.length
  each witness types

def identity (identity : MemberIdentity) : Writer Unit := do
  blob (some (textBytes identity.declaring))
  blob (some (textBytes identity.name))
  if identity.kind.isCallable then
    word identity.arity
    witnesses identity.arguments
    witnesses identity.parameters

end Writer

namespace Reader

def presence : Reader Bool := do
  match ← byte with
  | 0 => return false
  | 1 => return true
  | other => throw (.invalidPresenceFlag other)

/-- Types behind their number, of which each takes at least a byte. -/
def witnesses : Reader (List WireType) := do
  let count ← number 2
  expect count count
  many witness count

def identity (kind : MemberKind) : Reader MemberIdentity := do
  let declaring ← text
  let name ← text
  if kind.isCallable then
    let arity ← word
    let arguments ← witnesses
    let parameters ← witnesses
    return ⟨kind, declaring, name, arity, arguments, parameters⟩
  return ⟨kind, declaring, name, 0, [], []⟩

def handle (registry : Registry) (identity : MemberIdentity) : Reader MemberHandle := do
  match registry.resolve identity with
  | .error error => throw error
  | .ok member =>
    if identity.arguments.isEmpty then return .plain member
    match MemberHandle.construct? member identity.arguments with
    | some constructed => return constructed
    | none =>
      throw (.memberNotUnique identity.kind identity.declaring identity.name 0)

end Reader

end Remoting
