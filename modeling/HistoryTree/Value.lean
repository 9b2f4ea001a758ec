import HistoryTree.Bytes.Field
import HistoryTree.Decimal.Binary32
import HistoryTree.Record.Interval
import HistoryTree.Text.Quoted
import HistoryTree.Text.Utf8

/-!
# Interval values

The stored word of an interval, taken as its type says. A string is followed into
the block; a word that cannot be followed, or has no known type, is shown as is.
-/

namespace HistoryTree

inductive Value where
  | int32 (number : Int32)
  | uint32 (number : UInt32)
  | float (number : Binary32)
  | str (text : String)
  /-- The stored word itself. -/
  | raw (word : UInt32)
  deriving DecidableEq

instance : ToString Value where
  toString
    | .int32 number => toString number.toInt
    | .uint32 number => toString number.toNat
    | .float number => toString number
    | .str text => Text.quote text
    | .raw word => toString word.toNat

/-- The string at `offset`: the number of its bytes as a word, then the bytes. -/
def readString? (block : Bytes) (offset : UInt32) : Option String := do
  let lengthField : Field UInt32 := ⟨"string length", offset.toNat⟩
  let length ← (lengthField.read block).toOption
  let start ← Address.add? offset.toNat (LittleEndian.width UInt32)
  let bytes ← (block.region "string" start length.toNat).toOption
  return Utf8.decodeLossy bytes.toList

/-- The value of an interval that was decoded from `block`. -/
def Interval.interpret (interval : Interval) (block : Bytes) : Value :=
  match interval.valueType with
  | .int32 => .int32 interval.value.toInt32
  | .uint32 => .uint32 interval.value
  | .float => .float ⟨interval.value⟩
  | .str =>
    match readString? block interval.value with
    | some text => .str text
    | none => .raw interval.value
  | .other _ => .raw interval.value

end HistoryTree
