/-! Byte strings and the little-endian form of numbers. A payload is a list of bytes, so that
reading is taking from its front and writing is appending to its end. -/

namespace Remoting

abbrev Bytes := List UInt8

/-- Whether at least `n` bytes are there; it never looks past the first `n`. -/
def Bytes.holds : Nat → Bytes → Bool
  | 0, _ => true
  | _ + 1, [] => false
  | n + 1, _ :: rest => Bytes.holds n rest

theorem Bytes.holds_iff {n : Nat} {bytes : Bytes} : Bytes.holds n bytes = true ↔ n ≤ bytes.length := by
  induction n generalizing bytes with
  | zero => simp [Bytes.holds]
  | succ n ih => cases bytes <;> simp [Bytes.holds, ih]

/-- The `width` low bytes of a number, least significant first. -/
def littleEndian : (width : Nat) → Nat → Bytes
  | 0, _ => []
  | width + 1, n => UInt8.ofNat n :: littleEndian width (n / 256)

def ofLittleEndian : Bytes → Nat
  | [] => 0
  | byte :: rest => byte.toNat + 256 * ofLittleEndian rest

@[simp] theorem length_littleEndian (width n : Nat) : (littleEndian width n).length = width := by
  induction width generalizing n with
  | zero => rfl
  | succ width ih => simp [littleEndian, ih]

theorem littleEndian_ofLittleEndian (bytes : Bytes) :
    littleEndian bytes.length (ofLittleEndian bytes) = bytes := by
  induction bytes with
  | nil => rfl
  | cons byte rest ih =>
    have hb := byte.toNat_lt
    have hfirst : UInt8.ofNat (ofLittleEndian (byte :: rest)) = byte := by
      apply UInt8.toNat_inj.mp
      simp only [ofLittleEndian, UInt8.toNat_ofNat']
      omega
    have hrest : ofLittleEndian (byte :: rest) / 256 = ofLittleEndian rest := by
      simp only [ofLittleEndian]
      omega
    rw [List.length_cons, littleEndian, hfirst, hrest, ih]

def textBytes (text : String) : Bytes :=
  text.toUTF8.data.toList

def textOfBytes? (bytes : Bytes) : Option String :=
  String.fromUTF8? ⟨bytes.toArray⟩

@[simp] theorem length_textBytes (text : String) : (textBytes text).length = text.utf8ByteSize := by
  rfl

theorem textOfBytes?_textBytes (text : String) : textOfBytes? (textBytes text) = some text := by
  simp only [textOfBytes?, textBytes, Array.toArray_toList, String.fromUTF8?]
  have h : text.toUTF8.IsValidUTF8 := text.isValidUTF8
  simp
  exact ⟨h, rfl⟩

theorem textBytes_of_textOfBytes? {bytes : Bytes} {text : String}
    (h : textOfBytes? bytes = some text) : textBytes text = bytes := by
  unfold textOfBytes? String.fromUTF8? at h
  split at h
  · cases h
    simp [textBytes, String.fromUTF8]
  · cases h

end Remoting
