import Remoting.Types.Basic

/-! Members of types and what identifies them. A member travels as its identity and is found again
by it; its state never travels. -/

namespace Remoting

/-- A member as its declaring type has it. The parameter types of a generic method are open: they
may hold placeholders below the arity. -/
structure Member where
  kind : MemberKind
  declaring : String
  name : String
  parameters : List WireType
  arity : UInt16
deriving DecidableEq, Repr

namespace Member

def constructorName : String := ".ctor"

def method (declaring name : String) (parameters : List WireType) (arity : UInt16) : Member :=
  ⟨.method, declaring, name, parameters, arity⟩

def property (declaring name : String) : Member :=
  ⟨.property, declaring, name, [], 0⟩

/-- What overloads have in common. -/
def key (member : Member) : String × String := (member.declaring, member.name)

end Member

/-- A member, possibly with generic arguments, which are then as many as the arity says. -/
structure MemberHandle where
  member : Member
  arguments : List WireType
  argumentCount : arguments = [] ∨ arguments.length = member.arity.toNat
deriving DecidableEq, Repr

namespace MemberHandle

def plain (member : Member) : MemberHandle := ⟨member, [], .inl rfl⟩

def construct? (member : Member) (arguments : List WireType) : Option MemberHandle :=
  if h : arguments.length = member.arity.toNat then some ⟨member, arguments, .inr h⟩ else none

/-- The parameter types under the handle's arguments. A handle without arguments shows the open
types, and so does a parameter whose placeholder has no argument. -/
def parameters (handle : MemberHandle) : List WireType :=
  if handle.arguments.isEmpty then handle.member.parameters
  else handle.member.parameters.map fun type => (type.substitute handle.arguments).getD type

end MemberHandle

/-- What a handle tells about its member on the wire. The arity and the two lists count for
callable members only. -/
structure MemberIdentity where
  kind : MemberKind
  declaring : String
  name : String
  arity : UInt16
  arguments : List WireType
  parameters : List WireType
deriving DecidableEq, Repr

def MemberHandle.identity (handle : MemberHandle) : MemberIdentity where
  kind := handle.member.kind
  declaring := handle.member.declaring
  name := handle.member.name
  arity := handle.member.arity
  arguments := handle.arguments
  parameters := handle.parameters

namespace MemberIdentity

def parameterMatches (identity : MemberIdentity) (declared carried : WireType) : Bool :=
  if identity.arguments.isEmpty then declared == carried
  else declared.substitute identity.arguments == some carried

/-- The same arity, and the same parameters in the same order once the arguments are put in. -/
def signatureMatches (identity : MemberIdentity) (candidate : Member) : Bool :=
  candidate.arity == identity.arity
    && candidate.parameters.length == identity.parameters.length
    && (candidate.parameters.zip identity.parameters).all fun pair =>
      identity.parameterMatches pair.1 pair.2

/-- Whether a member is meant, as one of those that have the names told. -/
def picks (identity : MemberIdentity) (candidate : Member) : Bool :=
  candidate.kind == identity.kind
    && (!identity.kind.isCallable || identity.signatureMatches candidate)

def designates (identity : MemberIdentity) (candidate : Member) : Bool :=
  candidate.declaring == identity.declaring
    && candidate.name == identity.name
    && identity.picks candidate

end MemberIdentity

end Remoting
