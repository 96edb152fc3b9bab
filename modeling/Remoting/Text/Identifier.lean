/-! Identifiers: names that can stand as one segment of a path. -/

namespace Remoting

def isIdentifierStart (c : Char) : Bool :=
  c == '_' || c.isAlpha

def isIdentifierPart (c : Char) : Bool :=
  c == '_' || c.isAlphanum

/-- A nonempty run of ASCII letters, digits and low lines that starts with no digit. -/
def isIdentifier (name : String) : Bool :=
  match name.toList with
  | [] => false
  | first :: rest => isIdentifierStart first && rest.all isIdentifierPart

/-- The name of a service from the identity of its interface: what follows the last full stop,
without a leading `I` that an ASCII capital follows. -/
def serviceName (interface : String) : String :=
  let simple := (interface.toList.reverse.takeWhile (· != '.')).reverse
  match simple with
  | 'I' :: second :: rest =>
    if second.isUpper then String.ofList (second :: rest) else String.ofList simple
  | _ => String.ofList simple

end Remoting
