import Remoting.Value.Basic
import Remoting.Text.Quoted

/-! Why no codec exists for a type, why a value cannot be written, why bytes cannot be read. Each
cause carries what its message tells. -/

namespace Remoting

inductive CodecError
  | openGeneric (index : UInt16)
  | unsupportedMemberKind (kind : MemberKind)
  | pendingType (type : WireType)
  | unsupported (type : WireType)
deriving DecidableEq, Repr

def CodecError.message : CodecError → String
  | openGeneric index => "no codec for unresolved generic parameter T" ++ Nat.repr index.toNat
  | unsupportedMemberKind kind => "no codec for member kind " ++ kind.name
  | pendingType type =>
    "pending type " ++ type.display ++ " is a remoting marker and has no codec"
  | unsupported type => "no codec registered for " ++ type.display

inductive EncodeError
  | typeMismatch (expected : WireType) (found : ValueKind)
  | overflow (needed remaining : Nat)
  | sizeMismatch (calculated written : Nat)
  | lengthOverflow (length : Nat)
  | witnessTooDeep (limit : Nat)
  | tooManyZeroWidth (count limit : Nat)
  | codec (error : CodecError)
deriving DecidableEq, Repr

def EncodeError.message : EncodeError → String
  | typeMismatch expected found =>
    "cannot encode a " ++ found.name ++ " value as " ++ expected.display
  | overflow needed remaining =>
    "write of " ++ Nat.repr needed ++ " bytes exceeds the " ++ Nat.repr remaining
      ++ " bytes left in the buffer"
  | sizeMismatch calculated written =>
    "calculated " ++ Nat.repr calculated ++ " bytes but wrote " ++ Nat.repr written
  | lengthOverflow length =>
    "length " ++ Nat.repr length ++ " does not fit the wire length prefix"
  | witnessTooDeep limit => "type witness nesting exceeds " ++ Nat.repr limit ++ " levels"
  | tooManyZeroWidth count limit =>
    Nat.repr count ++ " zero-width elements exceed the limit of " ++ Nat.repr limit
  | codec error => error.message

inductive DecodeError
  | truncated (needed remaining : Nat)
  | offsetOutOfRange (offset length : Nat)
  | trailingBytes (count : Nat)
  | lengthBeyondInput (declared remaining : Nat)
  | invalidLength (length : Int)
  | invalidBool (byte : UInt8)
  | invalidPresenceFlag (byte : UInt8)
  | invalidUtf8
  | unknownTypeTag (byte : UInt8)
  | unknownMemberKind (byte : UInt8)
  | witnessTooDeep (limit : Nat)
  | tooManyZeroWidth (declared limit : Nat)
  | invalidWitness (type : WireType)
  | memberNotUnique (kind : MemberKind) (declaring name : String) (matching : Nat)
  | codec (error : CodecError)
deriving DecidableEq, Repr

def DecodeError.message : DecodeError → String
  | truncated needed remaining =>
    "payload truncated: needed " ++ Nat.repr needed ++ " bytes, " ++ Nat.repr remaining
      ++ " remaining"
  | offsetOutOfRange offset length =>
    "offset " ++ Nat.repr offset ++ " is outside a payload of " ++ Nat.repr length ++ " bytes"
  | trailingBytes count => Nat.repr count ++ " trailing bytes after the final field"
  | lengthBeyondInput declared remaining =>
    "declared length " ++ Nat.repr declared ++ " cannot fit in " ++ Nat.repr remaining
      ++ " remaining bytes"
  | invalidLength length => "invalid length prefix " ++ toString length
  | invalidBool byte => "invalid bool byte " ++ hexByte byte
  | invalidPresenceFlag byte => "invalid presence flag " ++ hexByte byte
  | invalidUtf8 => "string payload is not valid UTF-8"
  | unknownTypeTag byte => "unknown type witness tag " ++ Nat.repr byte.toNat
  | unknownMemberKind byte => "unknown member kind " ++ Nat.repr byte.toNat
  | witnessTooDeep limit => "type witness nesting exceeds " ++ Nat.repr limit ++ " levels"
  | tooManyZeroWidth declared limit =>
    Nat.repr declared ++ " zero-width elements exceed the limit of " ++ Nat.repr limit
  | invalidWitness type => "type witness " ++ type.display ++ " is not valid here"
  | memberNotUnique kind declaring name matching =>
    kind.name ++ " " ++ declaring ++ "::" ++ name ++ " matched " ++ Nat.repr matching
      ++ " registered members"
  | codec error => error.message

end Remoting
