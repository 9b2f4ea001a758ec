import HistoryTree.Attempt
import HistoryTree.Format.Layout
import HistoryTree.Tabulate

/-!
# Decoding a block

Fields are read in a fixed order, and the first one that runs past the end of the
block is the failure. A block of unknown type gives its common header alone.
-/

namespace HistoryTree

open Layout

/-- Reads an interval from the bytes of its cell. -/
def Interval.read (bytes : Bytes) : Except DecodeError Interval := do
  let cell ← bytes.region "interval" 0 intervalSize
  return {
    start := ← Cell.start.read cell
    stop := ← Cell.stop.read cell
    attributeId := ← Cell.attributeId.read cell
    valueType := .ofTag (← Cell.valueType.read cell)
    value := ← Cell.value.read cell }

def CommonHeader.read (block : Bytes) : Except DecodeError CommonHeader := do
  return {
    kind := .ofTag (← Common.typeTag.read block)
    start := ← Common.start.read block
    stop := ← Common.stop.read block
    seqNumber := ⟨← Common.seqNumber.read block⟩
    parent := .ofRaw (← Common.parentSeqNumber.read block)
    intervalCount := ← Common.intervalCount.read block
    varDataOffset := ← Common.varDataOffset.read block
    done := (← Common.done.read block) != 0 }

/-- Reads child `index` from its two cells. -/
def ChildEntry.read (block : Bytes) (maxChildren : UInt32) (index : Nat) :
    Except DecodeError ChildEntry := do
  let seqOffset ← block.addressed "child seq number" (childSeqOffset? index)
  let startOffset ← block.addressed "child start" (childStartOffset? maxChildren index)
  let seqField : Field UInt32 := ⟨"child seq number", seqOffset⟩
  let startField : Field UInt32 := ⟨"child start", startOffset⟩
  return { seqNumber := ⟨← seqField.read block⟩, start := ← startField.read block }

/-- The children that have slots. Those declared past the slots do not exist. -/
def readChildren (block : Bytes) (maxChildren declared : UInt32) :
    Attempt (List ChildEntry) := do
  Attempt.noteIf (maxChildren < declared) (.excessChildren declared maxChildren)
  tabulate (min declared.toNat maxChildren.toNat) (ChildEntry.read block maxChildren)

/-- All declared intervals, whose cells have to lie within the block as a whole.
Without any, it does not matter where they would be. -/
def readIntervals (block : Bytes) (kind : NodeKind) (maxChildren count : UInt32) :
    Except DecodeError (List Interval) := do
  if count = 0 then
    return []
  let base ← block.addressed "interval" (intervalsBase? kind maxChildren)
  let length ← block.addressed "interval" (Address.mul? count.toNat intervalSize)
  let cells ← block.region "interval" base length
  tabulate count.toNat fun index =>
    Interval.read (cells.extract (index * intervalSize) ((index + 1) * intervalSize))

/-- Decodes a block of a tree whose core nodes have `maxChildren` child slots. -/
def decodeBlock (block : Bytes) (maxChildren : UInt32) : Attempt DecodedNode := do
  let common ← CommonHeader.read block
  match common.kind with
  | .core =>
    let childrenCount ← Core.childrenCount.read block
    let extended ← Core.extended.read block
    let children ← readChildren block maxChildren childrenCount
    let intervals ← readIntervals block .core maxChildren common.intervalCount
    let specific := .core (extended != 0) childrenCount
    return { record := { common with specific, children, intervals }, issue := none }
  | .leaf =>
    let intervals ← readIntervals block .leaf maxChildren common.intervalCount
    return { record := { common with specific := .leaf, children := [], intervals }, issue := none }
  | .unknown tag =>
    return {
      record := { common with specific := .unknown, children := [], intervals := [] }
      issue := some (.unknownNodeType tag) }

end HistoryTree
