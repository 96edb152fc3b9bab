import Remoting.Text.Printable

/-! Text between quotation marks, as error messages show names: one line, every character
either itself or an escape. -/

namespace Remoting

def hexDigits (n : Nat) : String :=
  String.ofList (Nat.toDigits 16 n)

def hexByte (byte : UInt8) : String :=
  "0x" ++ (if byte.toNat < 16 then "0" else "") ++ hexDigits byte.toNat

def escapeChar : Char → String
  | '"' => "\\\""
  | '\\' => "\\\\"
  | '\x00' => "\\0"
  | '\t' => "\\t"
  | '\n' => "\\n"
  | '\r' => "\\r"
  | c => if isPrintable c then c.toString else "\\u\x7b" ++ hexDigits c.toNat ++ "\x7d"

/-- A text in quotation marks with everything invisible escaped. -/
def quoted (text : String) : String :=
  "\"" ++ String.join (text.toList.map escapeChar) ++ "\""

/-- An optional text: the word `None`, or the quoted text in `Some(…)`. -/
def quotedOption : Option String → String
  | none => "None"
  | some text => "Some(" ++ quoted text ++ ")"

end Remoting
