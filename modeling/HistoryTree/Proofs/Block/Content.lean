import HistoryTree.Block.Decode
import HistoryTree.Proofs.Bytes.Word
import HistoryTree.Proofs.Format.Offsets
import HistoryTree.Proofs.Record.Tag
import HistoryTree.Proofs.Success

/-!
# The content of a block

What a block says of its node, word by word at the offsets of the layout. Nothing
here can fail: a block that is too short simply shows zeros past its end. Whether
a block is long enough is said apart, by `Block.Fits`, and decoding is the
content of a block that fits (`result_decodeBlock_eq_ok_iff`).
-/

namespace HistoryTree

open Layout

namespace Block

def typeTag (block : Bytes) : UInt8 :=
  block.byteAt 0

/-- The declared number of intervals. -/
def intervalCount (block : Bytes) : Nat :=
  (block.wordAt 25).toNat

/-- The number of children that a core block holds: of those it declares, the ones
that have a slot. -/
def childCount (block : Bytes) (maxChildren : UInt32) : Nat :=
  min (block.wordAt 38).toNat maxChildren.toNat

/-- The regions that a block declares lie within it. Regions without entries take
no room, wherever they would begin. -/
def Fits (block : Bytes) (maxChildren : UInt32) : Prop :=
  34 ≤ block.size ∧
    (typeTag block ≠ 1 ∧ typeTag block ≠ 2 ∨
      typeTag block = 2 ∧
        (intervalCount block = 0 ∨ 34 + 25 * intervalCount block ≤ block.size) ∨
      typeTag block = 1 ∧ 42 ≤ block.size ∧
        (childCount block maxChildren = 0 ∨
          46 + 4 * maxChildren.toNat + 8 * (childCount block maxChildren - 1) ≤ block.size) ∧
        (intervalCount block = 0 ∨
          42 + 12 * maxChildren.toNat + 25 * intervalCount block ≤ block.size))

def commonHeader (block : Bytes) : CommonHeader where
  kind := .ofTag (typeTag block)
  start := block.wordAt 1
  stop := block.wordAt 9
  seqNumber := ⟨block.wordAt 17⟩
  parent := .ofRaw (block.wordAt 21)
  intervalCount := block.wordAt 25
  varDataOffset := block.wordAt 29
  done := block.byteAt 33 != 0

theorem kind_commonHeader (block : Bytes) :
    (commonHeader block).kind = NodeKind.ofTag (typeTag block) := rfl

theorem intervalCount_commonHeader (block : Bytes) :
    (commonHeader block).intervalCount.toNat = intervalCount block := rfl

/-- The child in slot `index`. -/
def child (block : Bytes) (maxChildren : UInt32) (index : Nat) : ChildEntry where
  seqNumber := ⟨block.wordAt (42 + 4 * index)⟩
  start := block.wordAt (42 + 4 * maxChildren.toNat + 8 * index)

def children (block : Bytes) (maxChildren : UInt32) : List ChildEntry :=
  (List.range (childCount block maxChildren)).map (child block maxChildren)

/-- The interval whose cell begins at `offset`. -/
def interval (block : Bytes) (offset : Nat) : Interval where
  start := block.wordAt offset
  stop := block.wordAt (offset + 8)
  attributeId := block.wordAt (offset + 16)
  valueType := .ofTag (block.byteAt (offset + 20))
  value := block.wordAt (offset + 21)

/-- The declared intervals, whose cells begin at `base`. -/
def intervals (block : Bytes) (base : Nat) : List Interval :=
  (List.range (intervalCount block)).map fun index => interval block (base + 25 * index)

def coreNode (block : Bytes) (maxChildren : UInt32) : DecodedNode where
  record := { commonHeader block with
    specific := .core (block.wordAt 34 != 0) (block.wordAt 38)
    children := children block maxChildren
    intervals := intervals block (42 + 12 * maxChildren.toNat) }
  issue := none

def leafNode (block : Bytes) : DecodedNode where
  record := { commonHeader block with
    specific := .leaf, children := [], intervals := intervals block 34 }
  issue := none

def unknownNode (block : Bytes) (tag : UInt8) : DecodedNode where
  record := { commonHeader block with specific := .unknown, children := [], intervals := [] }
  issue := some (.unknownNodeType tag)

/-- The node that a block declares. -/
def node (block : Bytes) (maxChildren : UInt32) : DecodedNode :=
  match NodeKind.ofTag (typeTag block) with
  | .core => coreNode block maxChildren
  | .leaf => leafNode block
  | .unknown tag => unknownNode block tag

/-! ## The three kinds of block -/

/-- Blocks are told apart by their type tag. -/
inductive Kinds (block : Bytes) : Prop where
  | core (tag : typeTag block = 1)
  | leaf (tag : typeTag block = 2)
  | unknown (notCore : typeTag block ≠ 1) (notLeaf : typeTag block ≠ 2)

theorem kinds (block : Bytes) : Kinds block := by
  by_cases hcore : typeTag block = 1
  · exact .core hcore
  by_cases hleaf : typeTag block = 2
  · exact .leaf hleaf
  · exact .unknown hcore hleaf

section Kinds

variable {block : Bytes} {maxChildren : UInt32}

theorem kind_core (h : typeTag block = 1) : (commonHeader block).kind = .core := by
  rw [kind_commonHeader, NodeKind.ofTag_eq_core_iff, h]

theorem kind_leaf (h : typeTag block = 2) : (commonHeader block).kind = .leaf := by
  rw [kind_commonHeader, NodeKind.ofTag_eq_leaf_iff, h]

theorem kind_unknown (hcore : typeTag block ≠ 1) (hleaf : typeTag block ≠ 2) :
    (commonHeader block).kind = .unknown (typeTag block) := by
  rw [kind_commonHeader, NodeKind.ofTag_eq_unknown_iff]
  exact ⟨rfl, hcore, hleaf⟩

theorem fits_core_iff (h : typeTag block = 1) :
    Fits block maxChildren ↔
      42 ≤ block.size ∧
      (childCount block maxChildren = 0 ∨
        46 + 4 * maxChildren.toNat + 8 * (childCount block maxChildren - 1) ≤ block.size) ∧
      (intervalCount block = 0 ∨
        42 + 12 * maxChildren.toNat + 25 * intervalCount block ≤ block.size) := by
  have hleaf : (1 : UInt8) ≠ 2 := by decide
  simp only [Fits, h, ne_eq, not_true_eq_false, false_and, hleaf, false_or, true_and]
  exact ⟨fun hfits => hfits.2, fun hfits => ⟨Nat.le_trans (by decide) hfits.1, hfits⟩⟩

theorem fits_leaf_iff (h : typeTag block = 2) :
    Fits block maxChildren ↔
      34 ≤ block.size ∧
      (intervalCount block = 0 ∨ 34 + 25 * intervalCount block ≤ block.size) := by
  have hcore : (2 : UInt8) ≠ 1 := by decide
  simp only [Fits, h, ne_eq, not_true_eq_false, and_false, hcore, false_and, false_or,
    or_false, true_and]

theorem fits_unknown_iff (hcore : typeTag block ≠ 1) (hleaf : typeTag block ≠ 2) :
    Fits block maxChildren ↔ 34 ≤ block.size := by
  simp only [Fits, ne_eq, hcore, hleaf, not_false_eq_true, and_self, true_or, and_true]

theorem node_core (h : typeTag block = 1) :
    node block maxChildren = coreNode block maxChildren := by
  rw [node, h]
  rfl

theorem node_leaf (h : typeTag block = 2) : node block maxChildren = leafNode block := by
  rw [node, h]
  rfl

theorem node_unknown (hcore : typeTag block ≠ 1) (hleaf : typeTag block ≠ 2) :
    node block maxChildren = unknownNode block (typeTag block) := by
  rw [node, ← kind_commonHeader, kind_unknown hcore hleaf]

/-- All that decoding gets past is a type that is unknown. -/
theorem issue_node (block : Bytes) (maxChildren : UInt32) :
    (node block maxChildren).issue =
      if typeTag block = 1 ∨ typeTag block = 2 then none
      else some (.unknownNodeType (typeTag block)) := by
  cases kinds block with
  | core tag => rw [if_pos (Or.inl tag), node_core tag, coreNode]
  | leaf tag => rw [if_pos (Or.inr tag), node_leaf tag, leafNode]
  | unknown notCore notLeaf =>
    rw [if_neg (not_or.mpr ⟨notCore, notLeaf⟩), node_unknown notCore notLeaf, unknownNode]

end Kinds

end Block

/-! ## Reading the parts -/

theorem CommonHeader.read_eq_ok_iff {block : Bytes} {common : CommonHeader} :
    CommonHeader.read block = .ok common ↔
      34 ≤ block.size ∧ common = Block.commonHeader block := by
  simp only [CommonHeader.read, bind_eq_ok_iff, pure_eq_ok_iff, Field.read_eq_ok_iff,
    Field.valueIn_byte, Field.valueIn_word]
  constructor
  · intro hread
    obtain ⟨_, ⟨-, rfl⟩, _, ⟨-, rfl⟩, _, ⟨-, rfl⟩, _, ⟨-, rfl⟩, _, ⟨-, rfl⟩, _, ⟨-, rfl⟩, _, ⟨-,
      rfl⟩, _, ⟨hdone, rfl⟩, rfl⟩ := hread
    exact ⟨hdone, rfl⟩
  · intro hdeclared
    obtain ⟨hsize, rfl⟩ := hdeclared
    have hstop {stop : Nat} (h : stop ≤ 34) : stop ≤ block.size := Nat.le_trans h hsize
    exact ⟨_, ⟨hstop (by decide), rfl⟩, _, ⟨hstop (by decide), rfl⟩, _,
      ⟨hstop (by decide), rfl⟩, _, ⟨hstop (by decide), rfl⟩, _, ⟨hstop (by decide), rfl⟩, _,
      ⟨hstop (by decide), rfl⟩, _, ⟨hstop (by decide), rfl⟩, _, ⟨hstop (by decide), rfl⟩, rfl⟩

/-- A child is read if the cell of its start lies within the block, which is the
later of its two cells. -/
theorem ChildEntry.read_eq_ok_iff {block : Bytes} {maxChildren : UInt32} {index : Nat}
    {entry : ChildEntry} (hindex : index < maxChildren.toNat) :
    ChildEntry.read block maxChildren index = .ok entry ↔
      46 + 4 * maxChildren.toNat + 8 * index ≤ block.size ∧
        entry = Block.child block maxChildren index := by
  have hword : index < UInt32.size := Nat.lt_trans hindex maxChildren.toNat_lt_size
  simp only [ChildEntry.read, childSeqOffset?_eq hword, childStartOffset?_eq maxChildren hword,
    Bytes.addressed_some, bind_eq_ok_iff, pure_eq_ok_iff, Field.read_eq_ok_iff,
    Field.valueIn_word, Except.ok.injEq, exists_eq_left']
  constructor
  · intro hread
    obtain ⟨_, ⟨-, rfl⟩, _, ⟨hstart, rfl⟩, rfl⟩ := hread
    have hstop : 42 + 4 * maxChildren.toNat + 8 * index + 4 ≤ block.size := hstart
    exact ⟨by omega, rfl⟩
  · intro hdeclared
    obtain ⟨hsize, rfl⟩ := hdeclared
    have hseq : 42 + 4 * index + 4 ≤ block.size := by omega
    have hstart : 42 + 4 * maxChildren.toNat + 8 * index + 4 ≤ block.size := by omega
    exact ⟨_, ⟨hseq, rfl⟩, _, ⟨hstart, rfl⟩, rfl⟩

/-- A part of a block holds the intervals that stand there in the block. -/
theorem Block.interval_extract {block : Bytes} {start stop offset : Nat}
    (hoffset : start + offset + 25 ≤ stop) (hstop : stop ≤ block.size) :
    Block.interval (block.extract start stop) offset = Block.interval block (start + offset) := by
  have hword {within : Nat} (h : within + 4 ≤ 25) :
      Bytes.wordAt (block.extract start stop) (offset + within) =
        block.wordAt (start + offset + within) := by
    rw [Bytes.wordAt_extract (by omega) hstop, Nat.add_assoc]
  have hbyte : Bytes.byteAt (block.extract start stop) (offset + 20) =
      block.byteAt (start + offset + 20) := by
    rw [Bytes.byteAt_extract (by omega) hstop, Nat.add_assoc]
  have hfirst := hword (by decide : 0 + 4 ≤ 25)
  simp only [Nat.add_zero] at hfirst
  simp only [Block.interval, hfirst, hword (by decide : 8 + 4 ≤ 25),
    hword (by decide : 16 + 4 ≤ 25), hword (by decide : 21 + 4 ≤ 25), hbyte]

/-- An interval is read from any bytes that hold a whole cell. -/
theorem Interval.read_eq_ok {bytes : Bytes} (hsize : 25 ≤ bytes.size) :
    Interval.read bytes = .ok (Block.interval bytes 0) := by
  have hcell : bytes.region "interval" 0 intervalSize =
      .ok (bytes.extract 0 (0 + intervalSize)) :=
    Bytes.region_eq_ok_iff.mpr ⟨hsize, rfl⟩
  have hstop {stop : Nat} (h : stop ≤ 25) :
      stop ≤ (bytes.extract 0 (0 + intervalSize)).size := by
    simp only [intervalSize, Array.size_extract]
    omega
  have hpart : Block.interval (bytes.extract 0 (0 + intervalSize)) 0 = Block.interval bytes 0 :=
    Block.interval_extract (by decide) hsize
  rw [← hpart]
  simp only [Interval.read, hcell, bind_eq_ok_iff, pure_eq_ok_iff, Field.read_eq_ok_iff,
    Field.valueIn_byte, Field.valueIn_word, Except.ok.injEq, exists_eq_left']
  exact ⟨_, ⟨hstop (by decide), rfl⟩, _, ⟨hstop (by decide), rfl⟩, _,
    ⟨hstop (by decide), rfl⟩, _, ⟨hstop (by decide), rfl⟩, _, ⟨hstop (by decide), rfl⟩, rfl⟩

/-- A cell that is cut out of a block holds the interval that stands there. -/
theorem Interval.read_extract {block : Bytes} {start stop : Nat} (hcell : start + 25 = stop)
    (hstop : stop ≤ block.size) :
    Interval.read (block.extract start stop) = .ok (Block.interval block start) := by
  have hsize : 25 ≤ (block.extract start stop).size := by
    rw [Array.size_extract]
    omega
  have hinside : start + 0 + 25 ≤ stop := Nat.le_of_eq hcell
  rw [Interval.read_eq_ok hsize, Block.interval_extract hinside hstop, Nat.add_zero]

/-! ## Reading the lists -/

theorem result_readChildren_eq_ok_iff {block : Bytes} {maxChildren declared : UInt32}
    {list : List ChildEntry} :
    (readChildren block maxChildren declared).result = .ok list ↔
      (min declared.toNat maxChildren.toNat = 0 ∨
        46 + 4 * maxChildren.toNat + 8 * (min declared.toNat maxChildren.toNat - 1) ≤
          block.size) ∧
      list = (List.range (min declared.toNat maxChildren.toNat)).map
        (Block.child block maxChildren) := by
  simp only [readChildren, Attempt.result_bind, Attempt.result_noteIf, Attempt.result_lift,
    bind_eq_ok_iff, true_and, exists_const]
  have hslot {index : Nat} (h : index < min declared.toNat maxChildren.toNat) :
      index < maxChildren.toNat := Nat.lt_of_lt_of_le h (Nat.min_le_right _ _)
  constructor
  · intro hread
    obtain ⟨hlength, hentries⟩ := tabulate_eq_ok_iff.mp hread
    constructor
    · -- The last child that is read ends last.
      by_cases hnone : min declared.toNat maxChildren.toNat = 0
      · exact Or.inl hnone
      · have hlast := hentries (min declared.toNat maxChildren.toNat - 1) (by omega)
        exact Or.inr ((ChildEntry.read_eq_ok_iff (hslot (by omega))).mp hlast).1
    · apply List.ext_getElem
      · simpa using hlength
      intro index hindex _
      have hentry := hentries index hindex
      rw [ChildEntry.read_eq_ok_iff (hslot (hlength ▸ hindex))] at hentry
      simpa using hentry.2
  · intro hdeclared
    obtain ⟨hfits, rfl⟩ := hdeclared
    apply tabulate_eq_map
    intro index hindex
    exact (ChildEntry.read_eq_ok_iff (hslot hindex)).mpr ⟨by omega, rfl⟩

theorem readIntervals_eq_ok_iff {block : Bytes} {kind : NodeKind} {maxChildren count : UInt32}
    {base : Nat} {list : List Interval} (hbase : intervalsBase? kind maxChildren = some base) :
    readIntervals block kind maxChildren count = .ok list ↔
      (count.toNat = 0 ∨ base + 25 * count.toNat ≤ block.size) ∧
      list = (List.range count.toNat).map fun index =>
        Block.interval block (base + 25 * index) := by
  by_cases hnone : count = 0
  · rw [readIntervals, if_pos hnone, pure_eq_ok_iff, hnone]
    simp [eq_comm]
  have hsome : count.toNat ≠ 0 := fun hzero => hnone (UInt32.toNat_inj.mp hzero)
  have hcount := count.toNat_lt
  have hlength : count.toNat * intervalSize ≤ Address.last := by
    simp only [intervalSize, Address.last]
    omega
  simp only [readIntervals, hnone, if_false, hbase, Address.mul?_of_le hlength,
    Bytes.addressed_some, bind_eq_ok_iff, Except.ok.injEq, exists_eq_left', hsome, false_or,
    Bytes.region_eq_ok_iff]
  rw [intervalSize, Nat.mul_comm count.toNat]
  -- Every cell of the region lies within it, so only the region itself can be missing.
  have hread {cells : Bytes} (hcells : cells = block.extract base (base + 25 * count.toNat))
      (hsize : base + 25 * count.toNat ≤ block.size) :
      tabulate count.toNat (fun index =>
        Interval.read (cells.extract (index * 25) ((index + 1) * 25))) =
        .ok ((List.range count.toNat).map fun index =>
          Block.interval block (base + 25 * index)) := by
    apply tabulate_eq_map
    intro index hindex
    have hlast : (index + 1) * 25 ≤ cells.size := by
      rw [hcells, Array.size_extract]
      omega
    rw [Interval.read_extract (by omega) hlast, hcells,
      Block.interval_extract (by omega) hsize, Nat.mul_comm index]
  constructor
  · intro hread
    obtain ⟨cells, ⟨hsize, hcells⟩, hlist⟩ := hread
    rw [hread hcells hsize] at hlist
    exact ⟨hsize, (Except.ok.inj hlist).symm⟩
  · intro hdeclared
    obtain ⟨hsize, rfl⟩ := hdeclared
    exact ⟨_, ⟨hsize, rfl⟩, hread rfl hsize⟩

end HistoryTree
