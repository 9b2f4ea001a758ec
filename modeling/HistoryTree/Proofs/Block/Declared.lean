import HistoryTree.Proofs.Block.Content
import HistoryTree.Proofs.Record.Tag

/-!
# Decoding gives what a block declares

Decoding succeeds exactly on the blocks that their declared regions fit in, and
then gives exactly the declared words: the common header, as many children as there
are slots for, and all declared intervals.
-/

namespace HistoryTree

open Layout

/-- Decoding gives the content of a block, if the block is long enough for it. -/
theorem result_decodeBlock_eq_ok_iff {block : Bytes} {maxChildren : UInt32}
    {node : DecodedNode} :
    (decodeBlock block maxChildren).result = .ok node ↔
      Block.Fits block maxChildren ∧ node = Block.node block maxChildren := by
  simp only [decodeBlock, Attempt.result_bind, Attempt.result_lift, bind_eq_ok_iff,
    CommonHeader.read_eq_ok_iff, and_assoc, exists_and_left, exists_eq_left]
  cases Block.kinds block with
  | core tag =>
    rw [Block.fits_core_iff tag, Block.node_core tag]
    simp only [Block.kind_core tag, Attempt.result_bind, Attempt.result_lift,
      Attempt.result_pure, bind_eq_ok_iff, Field.read_eq_ok_iff, Field.valueIn_word,
      result_readChildren_eq_ok_iff, readIntervals_eq_ok_iff (intervalsBase?_core maxChildren),
      Except.ok.injEq]
    constructor
    · intro hread
      obtain ⟨-, _, ⟨hheader, rfl⟩, _, ⟨-, rfl⟩, _, ⟨hchildren, rfl⟩, _, ⟨hintervals, rfl⟩,
        rfl⟩ := hread
      exact ⟨⟨hheader, hchildren, hintervals⟩, rfl⟩
    · intro hdeclared
      obtain ⟨⟨hheader, hchildren, hintervals⟩, rfl⟩ := hdeclared
      have hcommon : 34 ≤ block.size := Nat.le_trans (by decide) hheader
      have hextended : Core.extended.stop ≤ block.size := Nat.le_trans (by decide) hheader
      exact ⟨hcommon, _, ⟨hheader, rfl⟩, _, ⟨hextended, rfl⟩, _, ⟨hchildren, rfl⟩, _,
        ⟨hintervals, rfl⟩, rfl⟩
  | leaf tag =>
    rw [Block.fits_leaf_iff tag, Block.node_leaf tag]
    simp only [Block.kind_leaf tag, Attempt.result_bind, Attempt.result_lift,
      Attempt.result_pure, bind_eq_ok_iff,
      readIntervals_eq_ok_iff (intervalsBase?_leaf maxChildren), Except.ok.injEq]
    constructor
    · intro hread
      obtain ⟨hheader, _, ⟨hintervals, rfl⟩, rfl⟩ := hread
      exact ⟨⟨hheader, hintervals⟩, rfl⟩
    · intro hdeclared
      obtain ⟨⟨hheader, hintervals⟩, rfl⟩ := hdeclared
      exact ⟨hheader, _, ⟨hintervals, rfl⟩, rfl⟩
  | unknown notCore notLeaf =>
    rw [Block.fits_unknown_iff notCore notLeaf, Block.node_unknown notCore notLeaf]
    simp only [Block.kind_unknown notCore notLeaf, Attempt.result_pure, Except.ok.injEq]
    exact and_congr_right fun _ => eq_comm

/-- What a block declares of its node in the header that all kinds share. -/
structure Block.DeclaresHeader (block : Bytes) (common : CommonHeader) : Prop where
  kind : common.kind =
    if typeTag block = 1 then .core
    else if typeTag block = 2 then .leaf
    else .unknown (typeTag block)
  start : common.start = block.wordAt 1
  stop : common.stop = block.wordAt 9
  seqNumber : common.seqNumber = ⟨block.wordAt 17⟩
  parent : common.parent =
    if block.wordAt 21 = 0xFFFFFFFF then .root else .childOf ⟨block.wordAt 21⟩
  intervalCount : common.intervalCount = block.wordAt 25
  varDataOffset : common.varDataOffset = block.wordAt 29
  done : common.done = true ↔ block.byteAt 33 ≠ 0

/-- What a block declares of its node, field by field. -/
structure Block.Declares (block : Bytes) (maxChildren : UInt32) (node : DecodedNode) :
    Prop where
  header : DeclaresHeader block node.record.toCommonHeader
  specific : node.record.specific =
    if typeTag block = 1 then .core (block.wordAt 34 ≠ 0) (block.wordAt 38)
    else if typeTag block = 2 then .leaf
    else .unknown
  length_children : node.record.children.length =
    if typeTag block = 1 then childCount block maxChildren else 0
  child (index : Nat) (h : index < node.record.children.length) :
    node.record.children[index] =
      ⟨⟨block.wordAt (42 + 4 * index)⟩, block.wordAt (42 + 4 * maxChildren.toNat + 8 * index)⟩
  length_intervals : node.record.intervals.length =
    if typeTag block = 1 ∨ typeTag block = 2 then Block.intervalCount block else 0
  /-- An interval is what its cell holds, which lies within the block. -/
  interval (index : Nat) (h : index < node.record.intervals.length) :
    ∃ offset, intervalOffset? node.record.kind maxChildren index = some offset ∧
      offset + 25 ≤ block.size ∧
      Interval.read (block.extract offset (offset + 25)) = .ok node.record.intervals[index]
  issue : node.issue =
    if typeTag block = 1 ∨ typeTag block = 2 then none
    else some (.unknownNodeType (typeTag block))

namespace Block

variable {block : Bytes} {maxChildren : UInt32}

/-- The cells of a region that fits lie within the block, one after another. -/
theorem exists_intervalOffset {kind : NodeKind} {base index : Nat}
    (hbase : intervalsBase? kind maxChildren = some base)
    (hfits : intervalCount block = 0 ∨ base + 25 * intervalCount block ≤ block.size)
    (h : index < (intervals block base).length) :
    ∃ offset, intervalOffset? kind maxChildren index = some offset ∧
      offset + 25 ≤ block.size ∧
      Interval.read (block.extract offset (offset + 25)) = .ok (intervals block base)[index] := by
  have hindex : index < intervalCount block := by simpa [intervals] using h
  have hword : intervalCount block < UInt32.size := (block.wordAt 25).toNat_lt_size
  have hcell : base + 25 * index + 25 ≤ block.size := by omega
  refine ⟨base + 25 * index, intervalOffset?_eq hbase (Nat.lt_trans hindex hword), hcell, ?_⟩
  rw [Interval.read_extract rfl hcell]
  simp [intervals]

theorem declaresHeader_commonHeader (block : Bytes) :
    DeclaresHeader block (commonHeader block) where
  kind := NodeKind.ofTag_eq_ite (typeTag block)
  start := rfl
  stop := rfl
  seqNumber := rfl
  parent := rfl
  intervalCount := rfl
  varDataOffset := rfl
  done := by simp [commonHeader]

theorem declares_coreNode (htag : typeTag block = 1) (hfits : Fits block maxChildren) :
    Declares block maxChildren (coreNode block maxChildren) where
  header := declaresHeader_commonHeader block
  specific := by simp [coreNode, htag, bne, Bool.beq_eq_decide_eq]
  length_children := by simp [coreNode, children, htag]
  child index h := by simp [coreNode, children, child]
  length_intervals := by simp [coreNode, intervals, htag]
  interval index h := by
    have hkind : (coreNode block maxChildren).record.kind = .core := kind_core htag
    rw [hkind]
    exact exists_intervalOffset (intervalsBase?_core maxChildren)
      ((fits_core_iff htag).mp hfits).2.2 h
  issue := by simp [coreNode, htag]

theorem declares_leafNode (htag : typeTag block = 2) (hfits : Fits block maxChildren) :
    Declares block maxChildren (leafNode block) where
  header := declaresHeader_commonHeader block
  specific := by simp [leafNode, htag]
  length_children := by simp [leafNode, htag]
  child index h := absurd h (Nat.not_lt_zero index)
  length_intervals := by simp [leafNode, intervals, htag]
  interval index h := by
    have hkind : (leafNode block).record.kind = .leaf := kind_leaf htag
    rw [hkind]
    exact exists_intervalOffset (intervalsBase?_leaf maxChildren)
      ((fits_leaf_iff htag).mp hfits).2 h
  issue := by simp [leafNode, htag]

theorem declares_unknownNode (hcore : typeTag block ≠ 1) (hleaf : typeTag block ≠ 2) :
    Declares block maxChildren (unknownNode block (typeTag block)) where
  header := declaresHeader_commonHeader block
  specific := by simp [unknownNode, hcore, hleaf]
  length_children := by simp [unknownNode, hcore]
  child index h := absurd h (Nat.not_lt_zero index)
  length_intervals := by simp [unknownNode, hcore, hleaf]
  interval index h := absurd h (Nat.not_lt_zero index)
  issue := by simp [unknownNode, hcore, hleaf]

end Block

/-- Decoding succeeds exactly if the declared regions fit in the block, and gives
what the block declares. -/
theorem decodeBlock_declared (block : Bytes) (maxChildren : UInt32) :
    ((∃ node, (decodeBlock block maxChildren).result = .ok node) ↔
        Block.Fits block maxChildren) ∧
      ∀ node, (decodeBlock block maxChildren).result = .ok node →
        Block.Declares block maxChildren node := by
  simp only [result_decodeBlock_eq_ok_iff]
  constructor
  · exact ⟨fun ⟨_, hfits, _⟩ => hfits, fun hfits => ⟨_, hfits, rfl⟩⟩
  intro node hdecoded
  obtain ⟨hfits, rfl⟩ := hdecoded
  cases Block.kinds block with
  | core tag =>
    rw [Block.node_core tag]
    exact Block.declares_coreNode tag hfits
  | leaf tag =>
    rw [Block.node_leaf tag]
    exact Block.declares_leafNode tag hfits
  | unknown notCore notLeaf =>
    rw [Block.node_unknown notCore notLeaf]
    exact Block.declares_unknownNode notCore notLeaf

end HistoryTree
