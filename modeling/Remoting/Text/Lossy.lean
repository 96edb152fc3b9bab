import Remoting.Bytes

/-! Reading bytes as text where nothing may be refused: every longest piece that could have begun
a character but does not finish one becomes the replacement character U+FFFD. -/

namespace Remoting

/-- What a first byte announces: the payload bits it carries, how many bytes follow it, and the
range of the first of them. The narrow ranges leave out overlong forms, surrogates and what lies
beyond U+10FFFF. -/
structure Lead where
  bits : Nat
  more : Nat
  low : UInt8
  high : UInt8

def Lead.ofByte? (byte : UInt8) : Option Lead :=
  if byte < 0xC2 then none
  else if byte < 0xE0 then some ⟨byte.toNat - 0xC0, 1, 0x80, 0xBF⟩
  else if byte < 0xF0 then
    some ⟨byte.toNat - 0xE0, 2, if byte == 0xE0 then 0xA0 else 0x80, if byte == 0xED then 0x9F else 0xBF⟩
  else if byte < 0xF5 then
    some ⟨byte.toNat - 0xF0, 3, if byte == 0xF0 then 0x90 else 0x80, if byte == 0xF4 then 0x8F else 0xBF⟩
  else none

def replacementChar : Char := '\uFFFD'

/-- The characters of the bytes; the lead of a character that is still open comes with it. -/
def lossyChars : Option Lead → Bytes → List Char
  | none, [] => []
  | some _, [] => [replacementChar]
  | none, byte :: rest =>
    if byte < 0x80 then Char.ofNat byte.toNat :: lossyChars none rest
    else match Lead.ofByte? byte with
      | none => replacementChar :: lossyChars none rest
      | some lead => lossyChars (some lead) rest
  | some lead, byte :: rest =>
    if lead.low ≤ byte && byte ≤ lead.high then
      let bits := lead.bits * 64 + (byte.toNat - 0x80)
      if lead.more ≤ 1 then Char.ofNat bits :: lossyChars none rest
      else lossyChars (some ⟨bits, lead.more - 1, 0x80, 0xBF⟩) rest
    else if byte < 0x80 then replacementChar :: Char.ofNat byte.toNat :: lossyChars none rest
    else match Lead.ofByte? byte with
      | none => replacementChar :: replacementChar :: lossyChars none rest
      | some next => replacementChar :: lossyChars (some next) rest

def lossyText (bytes : Bytes) : String :=
  String.ofList (lossyChars none bytes)

end Remoting
