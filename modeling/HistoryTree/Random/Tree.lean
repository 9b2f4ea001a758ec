import HistoryTree.File.Encode
import HistoryTree.Random.Sampler

/-!
# Random trees

A tree grows node by node. A new node goes below one of the core nodes that have a
free child slot, starts within it, and is a core node itself whenever the last free
slot would otherwise be taken. Nodes are numbered in the order in which they come.
-/

namespace HistoryTree.Random

/-- A tree while it grows, with the places of the nodes that have a free child slot. -/
structure Growth where
  records : Array NodeRecord
  openNodes : Array Nat
  open_lt_size : ∀ index ∈ openNodes, index < records.size

namespace Growth

def empty : Growth where
  records := #[]
  openNodes := #[]
  open_lt_size := by simp

/-- Puts a child into the next free slot of the record. -/
def addChild (record : NodeRecord) (child : ChildEntry) : NodeRecord :=
  { record with
    children := record.children ++ [child]
    specific := match record.specific with
      | .core extended count => .core extended (count + 1)
      | specific => specific }

/-- Links `child` to the node at `parent`, which is closed once its slots are full. -/
def link (growth : Growth) (parent : Nat) (child : ChildEntry) (maxChildren : UInt32) : Growth :=
  let records := growth.records.modify parent (addChild · child)
  let isFull := records[parent]?.any (·.children.length == maxChildren.toNat)
  { records
    openNodes := if isFull then growth.openNodes.filter (· ≠ parent) else growth.openNodes
    open_lt_size := by
      intro index hindex
      have hmem : index ∈ growth.openNodes := by
        split at hindex
        · exact (Array.mem_filter.mp hindex).1
        · exact hindex
      simpa [records] using growth.open_lt_size index hmem }

/-- Adds a record, which is open if it has child slots. -/
def push (growth : Growth) (record : NodeRecord) (isOpen : Bool) : Growth where
  records := growth.records.push record
  openNodes := if isOpen then growth.openNodes.push growth.records.size else growth.openNodes
  open_lt_size := by
    intro index hindex
    have hcase : index ∈ growth.openNodes ∨ index = growth.records.size := by
      split at hindex
      · simpa using hindex
      · exact Or.inl hindex
    rw [Array.size_push]
    rcases hcase with hmem | rfl
    · exact Nat.lt_succ_of_lt (growth.open_lt_size index hmem)
    · exact Nat.lt_succ_self _

end Growth

variable {σ : Type}

/-- The weight of one half. -/
def evenWeight : UInt64 := 0x8000000000000000

/-- The weight of nine tenths. -/
def mostlyWeight : UInt64 := 16602069666338596864

/-- An interval within a node's range. -/
def drawInterval (sampler : Sampler σ) (start stop : UInt32) : Draw σ Interval := do
  let intervalStart ← sampler.wordBetween start stop
  let intervalStop ← sampler.wordBetween intervalStart stop
  let attributeId ← sampler.wordBetween 0 63
  let tag ← Draw.ask (sampler.kind 5 (by decide))
  let value ← Draw.ask sampler.word
  return {
    start := intervalStart
    stop := intervalStop
    attributeId
    valueType := .ofTag (UInt8.ofNat tag)
    value }

/-- The open node that the next node goes below; the first node has none. -/
def drawParent (sampler : Sampler σ) (growth : Growth) :
    Draw σ (Option { index : Nat // index < growth.records.size }) := do
  if growth.records.isEmpty then
    return none
  else
    let ⟨index, hopen⟩ ← sampler.member growth.openNodes
    return some ⟨index, growth.open_lt_size index hopen⟩

/-- A time less than 1000 after `start`. -/
def drawStop (sampler : Sampler σ) (start : UInt32) : Draw σ UInt32 := do
  let length ← sampler.wordBetween 0 999
  if start.toNat + length.val.toNat < UInt32.size then
    return start + length
  else
    throw .timeOverflow

/-- Adds one node to the tree. -/
def grow (sampler : Sampler σ) (maxChildren maxIntervals : UInt32) (growth : Growth) :
    Draw σ Growth := do
  let parent? ← drawParent sampler growth
  let start ← match parent? with
    | some parent => do
      let above := growth.records[parent.1]
      let within ← sampler.wordBetween above.start above.stop
      pure within.val
    | none => pure 0
  let stop ← drawStop sampler start
  let mustBeCore := match parent? with
    | some parent =>
      growth.openNodes.size == 1 &&
        growth.records[parent.1].children.length + 1 == maxChildren.toNat
    | none => true
  let isCore ← if mustBeCore then pure true else Draw.ask (sampler.coin evenWeight)
  let intervalCount ← sampler.wordBetween 0 maxIntervals
  let intervals ← (drawInterval sampler start stop).times intervalCount.val.toNat
  let done ← Draw.ask (sampler.coin mostlyWeight)
  let seqNumber : SeqNumber := ⟨UInt32.ofNat growth.records.size⟩
  let linked := match parent? with
    | some parent => growth.link parent ⟨seqNumber, start⟩ maxChildren
    | none => growth
  let record := {
    kind := if isCore then .core else .leaf
    start
    stop
    seqNumber
    parent := match parent? with
      | some parent => .childOf ⟨UInt32.ofNat parent⟩
      | none => .root
    intervalCount := UInt32.ofNat intervals.length
    varDataOffset := 0
    done
    specific := if isCore then .core false 0 else .leaf
    children := []
    intervals }
  return linked.push record (isCore && 0 < maxChildren)

/-- Adds `count` nodes to the tree. -/
def growMany (sampler : Sampler σ) (maxChildren maxIntervals : UInt32) :
    (count : Nat) → Growth → Draw σ Growth
  | 0, growth => return growth
  | count + 1, growth => do
    let grown ← grow sampler maxChildren maxIntervals growth
    growMany sampler maxChildren maxIntervals count grown

/-- The records of a well-formed tree of `nodeCount` nodes. -/
def drawTree (sampler : Sampler σ) (nodeCount maxChildren maxIntervals : UInt32) :
    Draw σ (List NodeRecord) := do
  if maxChildren = 0 ∧ 1 < nodeCount then
    throw .noRoomForChildren
  let grown ← growMany sampler maxChildren maxIntervals nodeCount.toNat .empty
  return grown.records.toList

/-- A tree together with the file that holds it. -/
structure TreeFile where
  header : TreeHeader
  records : List NodeRecord
  data : Bytes

/-- Why no file of a random tree could be made. -/
inductive TreeFileError where
  | growth (cause : GrowthError)
  | encode (cause : EncodeError)
  deriving DecidableEq, Repr

/-- The header of a file for a random tree. -/
def treeHeader (nodeCount maxChildren maxIntervals : UInt32) : TreeHeader where
  magic := expectedMagic
  major := 1
  minor := 0
  blockSize := Layout.blockSizeFor maxChildren maxIntervals
  maxChildren
  nodeCount
  rootSeq := ⟨0⟩

/-- A random tree in a file whose blocks are just large enough. -/
def drawTreeFile (sampler : Sampler σ) (state : σ)
    (nodeCount maxChildren maxIntervals : UInt32) : Except TreeFileError TreeFile := do
  let drawn := (drawTree sampler nodeCount maxChildren maxIntervals).run state
  let (records, _) ← drawn.mapError .growth
  let header := treeHeader nodeCount maxChildren maxIntervals
  let data ← (encodeFile header records).mapError .encode
  return { header, records, data }

end HistoryTree.Random
