import Remoting.Codec.Basic

/-! Payloads: the fields of a message back to back, without any framing of their own. -/

namespace Remoting

abbrev Field := Codec × Value

def fieldSize (field : Field) : Except EncodeError Nat :=
  field.1.size field.2

def writeField (field : Field) : Writer Unit :=
  field.1.encode field.2

/-- The bytes of fields, written into a buffer of the size calculated for them. Fields that leave
some of it unwritten are refused. -/
def writeFields (calculated : Nat) (fields : List Field) : Except EncodeError Bytes :=
  match Writer.each writeField fields (Buffer.filled calculated 0) with
  | .error error _ => .error error
  | .ok () buffer =>
    if buffer.position = calculated then .ok buffer.contents
    else .error (.sizeMismatch calculated buffer.position)

/-- The bytes of fields whose codecs tell the sizes of what they write. Their sum is the size of a
payload that there is to be, so that it is taken as it is. -/
def encodeFields (fields : List Field) : Except EncodeError Bytes :=
  match totalSize fieldSize 0 fields with
  | .error error => .error error
  | .ok calculated => writeFields calculated fields

/-- The most bytes that a buffer can be asked to have. -/
def maxRoom : Nat := 0x7FFFFFFFFFFFFFFF

/-- How a run ends: with a result, or for good, as it asks for what there cannot be. -/
inductive Ending (α : Type)
  | returned (result : α)
  | stopped
deriving DecidableEq

def fieldWord (field : Field) : Except EncodeError UInt64 :=
  field.1.wordSize field.2

/-- The bytes of fields of any codecs, the sizes of which are added up in machine words. It is what
`encodeFields` is wherever the sum is no more than a buffer can have. -/
def encodeAny (fields : List Field) : Ending (Except EncodeError Bytes) :=
  match totalSize fieldWord 0 fields with
  | .error error => .returned (.error error)
  | .ok calculated =>
    if maxRoom < calculated.toNat then .stopped
    else .returned (writeFields calculated.toNat fields)

/-- The values of consecutive fields. Only the last one is read under relaxed bounds. -/
def fieldValues : List Codec → Reader (List Value)
  | [] => return []
  | [last] => do
    return [← last.decode .relaxed]
  | codec :: others => do
    let value ← codec.decode .strict
    return value :: (← fieldValues others)

/-- The values of fields that are all there is left to read. -/
def decodeFields (codecs : List Codec) : Reader (List Value) := do
  let values ← fieldValues codecs
  Reader.exhausted
  return values

end Remoting
