import Remoting.Member.Basic
import Remoting.Bytes

/-! Values, whatever their type. Which of them a place may hold is for the place's type to say. -/

namespace Remoting

inductive Value
  | null
  | unit
  | bool (b : Bool)
  | number (type : NumberType) (bits : type.Bits)
  | text (s : String)
  | blob (bytes : Bytes)
  | array (items : List Value)
  | witness (type : WireType)
  | member (handle : MemberHandle)
deriving Inhabited

inductive ValueKind
  | null | unit | bool
  | number (type : NumberType)
  | text | blob | array | witness | member
deriving DecidableEq, Repr

namespace ValueKind

def name : ValueKind → String
  | null => "null"
  | unit => "unit"
  | bool => "bool"
  | number type => type.name
  | text => "string"
  | blob => "bytes"
  | array => "array"
  | witness => "type"
  | member => "member"

/-- The kind with a name, among those that a value can be converted to. -/
def ofName? : String → Option ValueKind
  | "bool" => some bool
  | "string" => some text
  | "bytes" => some blob
  | "type" => some witness
  | "member" => some member
  | name => (NumberType.ofName? name).map number

end ValueKind

namespace Value

def kind : Value → ValueKind
  | null => .null
  | unit => .unit
  | bool _ => .bool
  | number type _ => .number type
  | text _ => .text
  | blob _ => .blob
  | array _ => .array
  | witness _ => .witness
  | member _ => .member

def isNull : Value → Bool
  | null => true
  | _ => false

mutual

/-- Equality of values: numbers as their type compares them, all else by content. -/
def same : Value → Value → Bool
  | null, null => true
  | unit, unit => true
  | bool a, bool b => a == b
  | number s x, number t y => if h : s = t then s.same x (h ▸ y) else false
  | text a, text b => a == b
  | blob a, blob b => a == b
  | array as, array bs => sameAll as bs
  | witness a, witness b => a == b
  | member a, member b => a == b
  | _, _ => false
termination_by structural value => value

def sameAll : List Value → List Value → Bool
  | [], [] => true
  | a :: as, b :: bs => a.same b && sameAll as bs
  | _, _ => false
termination_by structural values => values

end

end Value

end Remoting
