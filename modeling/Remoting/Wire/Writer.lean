import Remoting.Wire.Reader

/-! Writing into a buffer of fixed size. The buffer is split at the place of the next write: what
has been written is final, and what lies beyond still has its former contents. -/

namespace Remoting

/-- The former contents are known by their places in the whole buffer. They are looked up and never
stored, so that a large buffer costs no more than what is written to it. -/
structure Buffer where
  written : Array UInt8
  remaining : Nat
  former : Nat → UInt8

namespace Buffer

/-- A buffer with nothing written and room for `size` bytes, all of them `fill`. -/
def filled (size : Nat) (fill : UInt8) : Buffer := ⟨#[], size, fun _ => fill⟩

def position (buffer : Buffer) : Nat := buffer.written.size

def room (buffer : Buffer) : Bytes :=
  (List.range' buffer.position buffer.remaining).map buffer.former

def contents (buffer : Buffer) : Bytes := buffer.written.toListAppend buffer.room

/-- The buffer with bytes written at the place of the next write. -/
def write (buffer : Buffer) (bytes : Bytes) : Buffer :=
  ⟨buffer.written ++ bytes, buffer.remaining - bytes.length, buffer.former⟩

@[simp] theorem length_room (buffer : Buffer) : buffer.room.length = buffer.remaining := by
  simp [room]

/-- Writing takes the bytes to the front of the room, and the rest of the room stays. -/
theorem contents_write {buffer : Buffer} {bytes : Bytes} (h : bytes.length ≤ buffer.remaining) :
    (buffer.write bytes).contents =
      buffer.written.toList ++ bytes ++ buffer.room.drop bytes.length := by
  have hr : List.range' buffer.position buffer.remaining =
      List.range' buffer.position bytes.length
        ++ List.range' (buffer.position + bytes.length) (buffer.remaining - bytes.length) := by
    rw [List.range'_append_1, Nat.add_sub_cancel' h]
  have hd : buffer.room.drop bytes.length =
      (List.range' (buffer.position + bytes.length) (buffer.remaining - bytes.length)).map
        buffer.former := by
    rw [room, hr, List.map_append]
    exact List.drop_left' (by simp)
  rw [hd]
  simp [contents, write, room, position, ← Array.length_toList]

@[simp] theorem write_nil (buffer : Buffer) : buffer.write [] = buffer := by
  simp [write]

theorem write_append (buffer : Buffer) (front back : Bytes) :
    buffer.write (front ++ back) = (buffer.write front).write back := by
  simp [write, Nat.sub_sub, ← Array.toList_inj]

@[simp] theorem remaining_write (buffer : Buffer) (bytes : Bytes) :
    (buffer.write bytes).remaining = buffer.remaining - bytes.length := rfl

@[simp] theorem position_write (buffer : Buffer) (bytes : Bytes) :
    (buffer.write bytes).position = buffer.position + bytes.length := by
  simp [write, position, ← Array.length_toList]

end Buffer

/-- The sizes of items added to a sum in order, up to the first item that has none. -/
def totalSize {α σ : Type} [Add σ] (size : α → Except EncodeError σ) :
    σ → List α → Except EncodeError σ
  | sum, [] => .ok sum
  | sum, item :: items =>
    match size item with
    | .ok n => totalSize size (sum + n) items
    | .error error => .error error

abbrev Writer := EStateM EncodeError Buffer

namespace Writer

/-- Bytes in one piece: all of them, or none if they do not fit. -/
def put (bytes : Bytes) : Writer Unit := fun buffer =>
  if bytes.length ≤ buffer.remaining then .ok () (buffer.write bytes)
  else .error (.overflow bytes.length buffer.remaining) buffer

theorem put_of_le {bytes : Bytes} {buffer : Buffer} (h : bytes.length ≤ buffer.remaining) :
    put bytes buffer = .ok () (buffer.write bytes) := by
  simp [put, h]

theorem put_of_lt {bytes : Bytes} {buffer : Buffer} (h : buffer.remaining < bytes.length) :
    put bytes buffer = .error (.overflow bytes.length buffer.remaining) buffer := by
  simp [put, Nat.not_le.mpr h]

def byte (b : UInt8) : Writer Unit := put [b]

def word (n : UInt16) : Writer Unit := put (littleEndian 2 n.toNat)

def count (n : Nat) : Writer Unit :=
  if n < 0x10000 then put (littleEndian 2 n) else throw (.lengthOverflow n)

def length : Option Nat → Writer Unit
  | none => put (littleEndian 4 nullLength)
  | some n => if n ≤ maxLength then put (littleEndian 4 n) else throw (.lengthOverflow n)

def blob : Option Bytes → Writer Unit
  | none => length none
  | some bytes => do
    length (some bytes.length)
    put bytes

def each {α : Type} (write : α → Writer Unit) : List α → Writer Unit
  | [] => pure ()
  | item :: items => do
    write item
    each write items

def pieces (piece : Nat → Bytes) : (place count : Nat) → Writer Unit
  | _, 0 => pure ()
  | place, count + 1 => do
    put (piece place)
    pieces piece (place + 1) count

end Writer

end Remoting
