import HistoryTree.Proofs.Block.NormalForm

/-!
# Blocks that agree

What a block declares depends on the bytes that its fields own and on no others
(`node_eq_of_agree`). If the block fits, they all lie within it, so bytes that follow
the block change nothing (`node_append`).
-/

namespace HistoryTree

open Layout

namespace Block

/-- The bytes that the fields of `left` own stand in `right` as well. -/
def Agree (left right : Bytes) (maxChildren : UInt32) : Prop :=
  ∀ position, Owned left maxChildren position → left.byteAt position = right.byteAt position

namespace Agree

variable {left right : Bytes} {maxChildren : UInt32} {offset : Nat}

theorem byteAt (h : Agree left right maxChildren) (hbyte : KeepsByte left maxChildren offset) :
    left.byteAt offset = right.byteAt offset :=
  h offset (Or.inl (Or.inl hbyte))

theorem wordAt (h : Agree left right maxChildren) (hword : KeepsWord left maxChildren offset) :
    left.wordAt offset = right.wordAt offset :=
  Bytes.wordAt_congr fun position hfrom hto =>
    h position (Or.inl (Or.inr ⟨offset, hword, hfrom, hto⟩))

theorem done (h : Agree left right maxChildren) : left.byteAt 33 = right.byteAt 33 :=
  h 33 (Or.inr (Or.inl rfl))

theorem extended (h : Agree left right maxChildren) (hcore : typeTag left = 1) :
    left.wordAt 34 = right.wordAt 34 :=
  Bytes.wordAt_congr fun position hfrom hto => h position (Or.inr (Or.inr ⟨hcore, hfrom, hto⟩))

theorem typeTag (h : Agree left right maxChildren) :
    Block.typeTag left = Block.typeTag right :=
  h.byteAt .typeTag

theorem intervalCount (h : Agree left right maxChildren) :
    Block.intervalCount left = Block.intervalCount right :=
  congrArg UInt32.toNat (h.wordAt .intervalCount)

theorem childCount (h : Agree left right maxChildren) (hcore : Block.typeTag left = 1) :
    Block.childCount left maxChildren = Block.childCount right maxChildren := by
  rw [Block.childCount, Block.childCount, h.wordAt (.childrenCount hcore)]

theorem commonHeader (h : Agree left right maxChildren) :
    Block.commonHeader left = Block.commonHeader right := by
  simp only [Block.commonHeader, h.typeTag, h.wordAt .start, h.wordAt .stop,
    h.wordAt .seqNumber, h.wordAt .parent, h.wordAt .intervalCount, h.wordAt .varDataOffset,
    h.done]

theorem children (h : Agree left right maxChildren) (hcore : Block.typeTag left = 1) :
    Block.children left maxChildren = Block.children right maxChildren := by
  rw [Block.children, Block.children, ← h.childCount hcore]
  apply List.map_congr_left
  intro index hindex
  have held := List.mem_range.mp hindex
  rw [child, child, h.wordAt (.childSeq hcore index held),
    h.wordAt (.childStart hcore index held)]

theorem interval (h : Agree left right maxChildren) (hcell : CellAt left maxChildren offset) :
    Block.interval left offset = Block.interval right offset := by
  simp only [Block.interval, h.wordAt (.intervalStart hcell), h.wordAt (.intervalStop hcell),
    h.wordAt (.attributeId hcell), h.byteAt (.valueType hcell), h.wordAt (.value hcell)]

theorem intervals (h : Agree left right maxChildren) {base : Nat}
    (hcells : ∀ index < Block.intervalCount left, CellAt left maxChildren (base + 25 * index)) :
    Block.intervals left base = Block.intervals right base := by
  rw [Block.intervals, Block.intervals, ← h.intervalCount]
  apply List.map_congr_left
  intro index hindex
  exact h.interval (hcells index (List.mem_range.mp hindex))

end Agree

section Agree

variable {left right : Bytes} {maxChildren : UInt32}

/-- Blocks that agree declare the same node. -/
theorem node_eq_of_agree (h : Agree left right maxChildren) :
    node left maxChildren = node right maxChildren := by
  cases kinds left with
  | core tag =>
    have hcells := h.intervals fun index hindex => (cellAt_core_iff tag).mpr ⟨index, hindex, rfl⟩
    rw [node_core tag, node_core (h.typeTag ▸ tag), coreNode, coreNode, h.commonHeader,
      h.extended tag, h.wordAt (.childrenCount tag), h.children tag, hcells]
  | leaf tag =>
    have hcells := h.intervals fun index hindex => (cellAt_leaf_iff tag).mpr ⟨index, hindex, rfl⟩
    rw [node_leaf tag, node_leaf (h.typeTag ▸ tag), leafNode, leafNode, h.commonHeader, hcells]
  | unknown notCore notLeaf =>
    rw [node_unknown notCore notLeaf, node_unknown (h.typeTag ▸ notCore) (h.typeTag ▸ notLeaf),
      unknownNode, unknownNode, h.commonHeader, h.typeTag]

/-- Blocks that agree declare regions of the same size. -/
theorem fits_of_agree (h : Agree left right maxChildren) (hsize : left.size ≤ right.size)
    (hfits : Fits left maxChildren) : Fits right maxChildren := by
  have hgrow {stop : Nat} (hstop : stop ≤ left.size) : stop ≤ right.size :=
    Nat.le_trans hstop hsize
  cases kinds left with
  | core tag =>
    obtain ⟨hheader, hchildren, hcells⟩ := (fits_core_iff tag).mp hfits
    rw [fits_core_iff (h.typeTag ▸ tag), ← h.childCount tag, ← h.intervalCount]
    exact ⟨hgrow hheader, hchildren.imp_right hgrow, hcells.imp_right hgrow⟩
  | leaf tag =>
    obtain ⟨hheader, hcells⟩ := (fits_leaf_iff tag).mp hfits
    rw [fits_leaf_iff (h.typeTag ▸ tag), ← h.intervalCount]
    exact ⟨hgrow hheader, hcells.imp_right hgrow⟩
  | unknown notCore notLeaf =>
    rw [fits_unknown_iff (h.typeTag ▸ notCore) (h.typeTag ▸ notLeaf)]
    exact hgrow hfits.1

end Agree

/-! ## Blocks that their fields fit in -/

section Fits

variable {block : Bytes} {maxChildren : UInt32} {offset position : Nat}

theorem CellAt.stop_le (hcell : CellAt block maxChildren offset)
    (hfits : Fits block maxChildren) : offset + 25 ≤ block.size := by
  cases kinds block with
  | core tag =>
    obtain ⟨index, hindex, rfl⟩ := (cellAt_core_iff tag).mp hcell
    have hcells := ((fits_core_iff tag).mp hfits).2.2
    omega
  | leaf tag =>
    obtain ⟨index, hindex, rfl⟩ := (cellAt_leaf_iff tag).mp hcell
    have hcells := ((fits_leaf_iff tag).mp hfits).2
    omega
  | unknown notCore notLeaf => exact absurd hcell (not_cellAt_unknown notCore notLeaf)

theorem KeepsWord.stop_le (hword : KeepsWord block maxChildren offset)
    (hfits : Fits block maxChildren) : offset + 4 ≤ block.size := by
  have hheader : 34 ≤ block.size := hfits.1
  cases hword with
  | start | stop | seqNumber | parent | intervalCount | varDataOffset => omega
  | childrenCount core => exact ((fits_core_iff core).mp hfits).1
  | childSeq core index held | childStart core index held =>
    have hslots : childCount block maxChildren ≤ maxChildren.toNat := Nat.min_le_right _ _
    have hchildren := ((fits_core_iff core).mp hfits).2.1
    omega
  | intervalStart cell | intervalStop cell | attributeId cell | value cell =>
    have hcell := cell.stop_le hfits
    omega

/-- In a block that fits, no field owns a byte past the end. -/
theorem Owned.lt_size (howned : Owned block maxChildren position)
    (hfits : Fits block maxChildren) : position < block.size := by
  have hheader : 34 ≤ block.size := hfits.1
  obtain (hbyte | ⟨offset, hword, -, hto⟩) | hdone | ⟨hcore, -, hto⟩ := howned
  · cases hbyte with
    | typeTag => omega
    | valueType cell =>
      have hcell := cell.stop_le hfits
      omega
  · exact Nat.lt_of_lt_of_le hto (hword.stop_le hfits)
  · omega
  · have hcoreHeader := ((fits_core_iff hcore).mp hfits).1
    omega

theorem agree_append (hfits : Fits block maxChildren) (more : Bytes) :
    Agree block (block ++ more) maxChildren := by
  intro position howned
  exact (Bytes.byteAt_append_left (howned.lt_size hfits) more).symm

/-- Bytes that follow a block that fits do not change what it declares. -/
theorem node_append (hfits : Fits block maxChildren) (more : Bytes) :
    node (block ++ more) maxChildren = node block maxChildren :=
  (node_eq_of_agree (agree_append hfits more)).symm

theorem fits_append (hfits : Fits block maxChildren) (more : Bytes) :
    Fits (block ++ more) maxChildren :=
  fits_of_agree (agree_append hfits more) (Bytes.size_le_append block more) hfits

end Fits

end Block

end HistoryTree
