import HistoryTree.Format.Layout
import HistoryTree.Text.Utf8

/-!
# Encoding a block

A block begins as zeros. First the strings are stored, from the end of the block
downwards, then the fields are written in the order in which they are declared. The
first stretch that does not fit in the block is the failure. What is stored later
overwrites what was stored before.
-/

namespace HistoryTree

open Layout

/-- Why a record could not be encoded. -/
inductive EncodeError where
  | doesNotFit (cause : DecodeError)
  | tooManyChildren (children : Nat) (slots : UInt32)
  /-- A string was given for an interval that the record does not have. -/
  | noSuchInterval (index : Nat)
  deriving DecidableEq, Repr

namespace EncodeError

def message : EncodeError → String
  | .doesNotFit cause => cause.message
  | .tooManyChildren children slots => s!"{children} children do not fit in {slots} slots"
  | .noSuchInterval index => s!"there is no interval {index}"

end EncodeError

/-- A text for the value of the interval at `interval`. -/
structure StoredString where
  interval : Nat
  text : String

/-- A block while strings are stored in it: the lowest string begins at `cursor`. -/
structure StringArea where
  block : Bytes
  cursor : Nat
  intervals : List Interval
  varDataOffset : UInt32

namespace StringArea

/-- The empty area at the end of a block. -/
def ofRecord (record : NodeRecord) (blockSize : UInt32) : StringArea where
  block := Bytes.zeros blockSize.toNat
  cursor := blockSize.toNat
  intervals := record.intervals
  varDataOffset := record.varDataOffset

/-- Stores a string below the others and lets its interval point to it. -/
def store (area : StringArea) (string : StoredString) : Except EncodeError StringArea := do
  let bytes := Utf8.encode string.text
  let length := LittleEndian.width UInt32 + bytes.length
  let below := area.block.addressed "string" (Address.sub? area.cursor length)
  let cursor ← below.mapError .doesNotFit
  let lengthField : Field UInt32 := ⟨"string length", cursor⟩
  let written := lengthField.write area.block (UInt32.ofNat bytes.length)
  let block ← written.mapError .doesNotFit
  match area.intervals[string.interval]? with
  | none => throw (.noSuchInterval string.interval)
  | some interval =>
    let offset := UInt32.ofNat cursor
    let pointing := { interval with valueType := .str, value := offset }
    return {
      block := block.overwrite lengthField.stop bytes
      cursor
      intervals := area.intervals.set string.interval pointing
      varDataOffset := offset }

end StringArea

def CommonHeader.write (common : CommonHeader) (block : Bytes) : Except DecodeError Bytes := do
  let block ← Common.typeTag.write block common.kind.tag
  let block ← Common.start.write block common.start
  let block ← Common.stop.write block common.stop
  let block ← Common.seqNumber.write block common.seqNumber.value
  let block ← Common.parentSeqNumber.write block common.parent.toRaw
  let block ← Common.intervalCount.write block common.intervalCount
  let block ← Common.varDataOffset.write block common.varDataOffset
  Common.done.write block (if common.done then 1 else 0)

/-- Writes child `index` to its two cells. -/
def ChildEntry.write (child : ChildEntry) (maxChildren : UInt32) (index : Nat)
    (block : Bytes) : Except DecodeError Bytes := do
  let seqOffset ← block.addressed "child seq number" (childSeqOffset? index)
  let startOffset ← block.addressed "child start" (childStartOffset? maxChildren index)
  let seqField : Field UInt32 := ⟨"child seq number", seqOffset⟩
  let startField : Field UInt32 := ⟨"child start", startOffset⟩
  let block ← seqField.write block child.seqNumber.value
  startField.write block child.start

/-- Writes the core header and the children. -/
def writeCore (extended : Bool) (childrenCount : UInt32) (children : List ChildEntry)
    (maxChildren : UInt32) (block : Bytes) : Except DecodeError Bytes := do
  let block ← Core.extended.write block (if extended then 1 else 0)
  let block ← Core.childrenCount.write block childrenCount
  children.zipIdx.foldlM (fun block entry => entry.1.write maxChildren entry.2 block) block

/-- Writes an interval to the cell at `offset`, which has to fit as a whole. -/
def Interval.write (interval : Interval) (offset : Nat) (block : Bytes) :
    Except DecodeError Bytes := do
  let _ ← block.region "interval" offset intervalSize
  let block ← (Cell.start.relativeTo offset).write block interval.start
  let block ← (Cell.stop.relativeTo offset).write block interval.stop
  let block ← (Cell.attributeId.relativeTo offset).write block interval.attributeId
  let block ← (Cell.valueType.relativeTo offset).write block interval.valueType.tag
  (Cell.value.relativeTo offset).write block interval.value

/-- Writes the intervals to the cells from `base` on. -/
def writeIntervals (intervals : List Interval) (base : Nat) (block : Bytes) :
    Except DecodeError Bytes :=
  intervals.zipIdx.foldlM (fun block entry => do
    let offset ← block.addressed "interval" (Address.add? base (entry.2 * intervalSize))
    entry.1.write offset block) block

/-- Encodes a record into a block of `blockSize` bytes, with strings for the values of
some of its intervals. The offset of the variable data is then that of the lowest
string. -/
def encodeBlock (record : NodeRecord) (strings : List StoredString)
    (blockSize maxChildren : UInt32) : Except EncodeError Bytes := do
  let area ← strings.foldlM StringArea.store (.ofRecord record blockSize)
  let common := { record.toCommonHeader with varDataOffset := area.varDataOffset }
  let block ← (common.write area.block).mapError .doesNotFit
  let block ← match record.specific with
    | .core extended childrenCount =>
      if maxChildren.toNat < record.children.length then
        throw (.tooManyChildren record.children.length maxChildren)
      else
        (writeCore extended childrenCount record.children maxChildren block).mapError .doesNotFit
    | .leaf | .unknown => pure block
  match intervalsBase? record.kind maxChildren with
  | some base => (writeIntervals area.intervals base block).mapError .doesNotFit
  | none => return block

end HistoryTree
