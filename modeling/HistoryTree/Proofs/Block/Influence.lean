import HistoryTree.Proofs.Block.Reads
import HistoryTree.Proofs.Format.Parts

/-!
# Bytes without influence

Of a block, decoding reads the bytes of the fields that the block declares, and nothing else
(`decodeBlock_eq_of_agree`): not the upper halves of times, not the slots without a child, and
not what follows the intervals.
-/

namespace HistoryTree

open Layout

namespace Block

/-! ## The bytes that are read -/

/-- Decoding reads the byte at `position` from the block, if the block goes that far. -/
def ReadAt (block : Bytes) (maxChildren : UInt32) (position : Nat) : Prop :=
  FieldAt (.ofTag (typeTag block)) maxChildren (childCount block maxChildren)
    (intervalCount block) position

section ReadAt

variable {block : Bytes} {maxChildren : UInt32} {offset position : Nat}

theorem CellAt.readAt (hcell : CellAt block maxChildren offset)
    (hwithin : offset ≤ position ∧ position < offset + 4 ∨
      offset + 8 ≤ position ∧ position < offset + 12 ∨
      offset + 16 ≤ position ∧ position < offset + 25) : ReadAt block maxChildren position := by
  cases hbase : intervalsBase? (.ofTag (typeTag block)) maxChildren with
  | none =>
    obtain ⟨index, -, hoffset⟩ := hcell
    rw [intervalOffset?, hbase] at hoffset
    contradiction
  | some base =>
    obtain ⟨index, held, rfl⟩ := (cellAt_iff hbase).mp hcell
    exact .interval base hbase index held hwithin

theorem KeepsByte.readAt (hbyte : KeepsByte block maxChildren position) :
    ReadAt block maxChildren position := by
  cases hbyte with
  | typeTag => exact .common (by decide)
  | valueType cell => exact cell.readAt (by omega)

theorem KeepsWord.readAt (hword : KeepsWord block maxChildren offset) (hfrom : offset ≤ position)
    (hto : position < offset + 4) : ReadAt block maxChildren position := by
  cases hword with
  | start | stop | seqNumber | parent | intervalCount | varDataOffset =>
    exact .common (by omega)
  | childrenCount core => exact .coreHeader (NodeKind.ofTag_eq_core_iff.mpr core) (by omega)
  | childSeq core index held =>
    exact .childSeq (NodeKind.ofTag_eq_core_iff.mpr core) index held ⟨hfrom, hto⟩
  | childStart core index held =>
    exact .childStart (NodeKind.ofTag_eq_core_iff.mpr core) index held ⟨hfrom, hto⟩
  | intervalStart cell => exact cell.readAt (by omega)
  | intervalStop cell => exact CellAt.readAt cell (by omega)
  | attributeId cell => exact CellAt.readAt cell (by omega)
  | value cell => exact CellAt.readAt cell (by omega)

/-- What a field owns is read. -/
theorem Owned.readAt (howned : Owned block maxChildren position) :
    ReadAt block maxChildren position := by
  obtain (hbyte | ⟨offset, hword, hfrom, hto⟩) | rfl | ⟨hcore, hfrom, hto⟩ := howned
  · exact hbyte.readAt
  · exact hword.readAt hfrom hto
  · exact .common (by decide)
  · exact .coreHeader (NodeKind.ofTag_eq_core_iff.mpr hcore) (by omega)

end ReadAt

/-- The bytes of `left` that are read stand in `right` as well. -/
def AgreeWithin (left right : Bytes) (maxChildren : UInt32) : Prop :=
  ∀ position < left.size, ReadAt left maxChildren position →
    left.byteAt position = right.byteAt position

section Agree

variable {left right : Bytes} {maxChildren : UInt32}

/-- Past the end of both blocks there is nothing to agree about. -/
theorem AgreeWithin.agree (h : AgreeWithin left right maxChildren)
    (hsize : right.size = left.size) : Agree left right maxChildren := by
  intro position howned
  rcases Nat.lt_or_ge position left.size with hinside | hpast
  · exact h position hinside howned.readAt
  · rw [Bytes.byteAt_eq_zero hpast, Bytes.byteAt_eq_zero (hsize ▸ hpast)]

/-- Blocks that agree are read in the same way, however long they are. -/
theorem reads_eq_of_agree (h : Agree left right maxChildren) :
    reads left maxChildren = reads right maxChildren := by
  rw [reads, reads]
  congr 1
  cases kinds left with
  | core tag =>
    rw [specificReads_core tag, specificReads_core (h.typeTag ▸ tag), h.childCount tag,
      h.intervalCount]
  | leaf tag =>
    rw [specificReads_leaf tag, specificReads_leaf (h.typeTag ▸ tag), h.intervalCount]
  | unknown notCore notLeaf =>
    rw [specificReads_unknown notCore notLeaf,
      specificReads_unknown (h.typeTag ▸ notCore) (h.typeTag ▸ notLeaf)]

end Agree

end Block

/-! ## Decoding blocks that agree -/

theorem notices_readChildren (block : Bytes) (maxChildren declared : UInt32) :
    (readChildren block maxChildren declared).notices =
      if maxChildren < declared then [.excessChildren declared maxChildren] else [] := by
  rw [readChildren, Attempt.notices_bind, Attempt.notices_noteIf, Attempt.result_noteIf]
  simp only [Attempt.notices_lift, List.append_nil]

/-- Only a core node that declares more children than there are slots is worth a notice, once
its header has been read. -/
theorem notices_decodeBlock (block : Bytes) (maxChildren : UInt32) :
    (decodeBlock block maxChildren).notices =
      if Block.typeTag block = 1 ∧ 42 ≤ block.size ∧ maxChildren < block.wordAt 38 then
        [.excessChildren (block.wordAt 38) maxChildren]
      else [] := by
  rw [decodeBlock]
  by_cases hcommon : 34 ≤ block.size
  · rw [CommonHeader.read_eq_ok_iff.mpr ⟨hcommon, rfl⟩, Attempt.lift_ok_bind]
    cases Block.kinds block with
    | core tag =>
      simp only [Block.kind_core tag, tag, true_and]
      by_cases hheader : 42 ≤ block.size
      · have hcount : Core.childrenCount.read block = .ok (block.wordAt 38) :=
          Field.read_eq_ok_iff.mpr ⟨hheader, Field.valueIn_word _ _⟩
        have hextended : Core.extended.read block = .ok (block.wordAt 34) :=
          Field.read_eq_ok_iff.mpr ⟨Nat.le_trans (by decide) hheader, Field.valueIn_word _ _⟩
        rw [hcount, hextended, Attempt.lift_ok_bind, Attempt.lift_ok_bind,
          Attempt.notices_bind_of_silent _ fun _ => Attempt.notices_lift_bind_pure _ _,
          notices_readChildren]
        simp only [hheader, true_and]
      · have hmissing : Core.childrenCount.read block = .error _ :=
          (Field.read_eq _ _).trans (if_neg hheader)
        rw [hmissing, Attempt.notices_lift_error_bind, if_neg fun h => hheader h.1]
    | leaf tag =>
      have hother : Block.typeTag block ≠ 1 := by
        rw [tag]
        decide
      simp only [Block.kind_leaf tag, hother, false_and, if_false]
      exact Attempt.notices_lift_bind_pure _ _
    | unknown notCore notLeaf =>
      simp only [Block.kind_unknown notCore notLeaf, notCore, false_and, if_false,
        Attempt.notices_pure]
  · have hnone : ¬ (Block.typeTag block = 1 ∧ 42 ≤ block.size ∧
        maxChildren < block.wordAt 38) := by omega
    cases hread : CommonHeader.read block with
    | error cause => rw [Attempt.notices_lift_error_bind, if_neg hnone]
    | ok common => exact absurd (CommonHeader.read_eq_ok_iff.mp hread).1 hcommon

/-- Blocks of one size are decoded alike if they agree where decoding reads. -/
theorem decodeBlock_eq_of_agree {left right : Bytes} {maxChildren : UInt32}
    (h : Block.AgreeWithin left right maxChildren) (hsize : right.size = left.size) :
    decodeBlock right maxChildren = decodeBlock left maxChildren := by
  have hagree := h.agree hsize
  apply Attempt.eq_of_parts
  · rw [notices_decodeBlock, notices_decodeBlock, hsize, ← hagree.typeTag]
    by_cases hcore : Block.typeTag left = 1
    · rw [hagree.wordAt (.childrenCount hcore)]
    · simp only [hcore, false_and, if_false]
  · rw [Block.result_decodeBlock_eq_through, Block.result_decodeBlock_eq_through,
      Block.reads_eq_of_agree hagree, Block.node_eq_of_agree hagree, Block.through, Block.through,
      hsize]

end HistoryTree
