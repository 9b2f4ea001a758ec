import HistoryTree.Proofs.Block.RoundTrip

/-!
# The normal form of a block

Encoding what was decoded gives a block that declares the same. Of the bytes, those
that decoding takes as they stand are kept, flags become 0 or 1, and all that no
field owns becomes zero.
-/

namespace HistoryTree

open Layout

namespace Block

/-! ## The bytes that fields own -/

/-- The cell of a declared interval begins at `offset`. -/
def CellAt (block : Bytes) (maxChildren : UInt32) (offset : Nat) : Prop :=
  ∃ index < intervalCount block,
    intervalOffset? (.ofTag (typeTag block)) maxChildren index = some offset

/-- A word that decoding takes as it stands begins at `offset`. -/
inductive KeepsWord (block : Bytes) (maxChildren : UInt32) : (offset : Nat) → Prop where
  | start : KeepsWord block maxChildren 1
  | stop : KeepsWord block maxChildren 9
  | seqNumber : KeepsWord block maxChildren 17
  | parent : KeepsWord block maxChildren 21
  | intervalCount : KeepsWord block maxChildren 25
  | varDataOffset : KeepsWord block maxChildren 29
  | childrenCount (core : typeTag block = 1) : KeepsWord block maxChildren 38
  | childSeq (core : typeTag block = 1) (index : Nat)
      (held : index < childCount block maxChildren) :
      KeepsWord block maxChildren (42 + 4 * index)
  | childStart (core : typeTag block = 1) (index : Nat)
      (held : index < childCount block maxChildren) :
      KeepsWord block maxChildren (42 + 4 * maxChildren.toNat + 8 * index)
  | intervalStart {offset : Nat} (cell : CellAt block maxChildren offset) :
      KeepsWord block maxChildren offset
  | intervalStop {offset : Nat} (cell : CellAt block maxChildren offset) :
      KeepsWord block maxChildren (offset + 8)
  | attributeId {offset : Nat} (cell : CellAt block maxChildren offset) :
      KeepsWord block maxChildren (offset + 16)
  | value {offset : Nat} (cell : CellAt block maxChildren offset) :
      KeepsWord block maxChildren (offset + 21)

/-- A field of one byte that decoding takes as it stands. -/
inductive KeepsByte (block : Bytes) (maxChildren : UInt32) : (offset : Nat) → Prop where
  | typeTag : KeepsByte block maxChildren 0
  | valueType {offset : Nat} (cell : CellAt block maxChildren offset) :
      KeepsByte block maxChildren (offset + 20)

/-- The byte belongs to a field that decoding takes as it stands. -/
def Keeps (block : Bytes) (maxChildren : UInt32) (position : Nat) : Prop :=
  KeepsByte block maxChildren position ∨
    ∃ offset, KeepsWord block maxChildren offset ∧ offset ≤ position ∧ position < offset + 4

/-- The byte belongs to a flag, of which decoding takes only whether it is zero: `done`,
or in a core node `extended`. -/
def Flags (block : Bytes) (position : Nat) : Prop :=
  position = 33 ∨ typeTag block = 1 ∧ 34 ≤ position ∧ position < 38

/-- The byte belongs to a field that decoding reads. -/
def Owned (block : Bytes) (maxChildren : UInt32) (position : Nat) : Prop :=
  Keeps block maxChildren position ∨ Flags block position

/-- What becomes of each byte of a block in its normal form. -/
structure NormalForm (block : Bytes) (maxChildren : UInt32) (normal : Bytes) : Prop where
  kept : ∀ position, Keeps block maxChildren position →
    normal.byteAt position = block.byteAt position
  done : normal.byteAt 33 = if block.byteAt 33 = 0 then 0 else 1
  extended : typeTag block = 1 → normal.wordAt 34 = if block.wordAt 34 = 0 then 0 else 1
  zero : ∀ position, ¬ Owned block maxChildren position → normal.byteAt position = 0

section Cells

variable {block : Bytes} {maxChildren : UInt32} {offset : Nat}

theorem cellAt_iff {base : Nat}
    (hbase : intervalsBase? (.ofTag (typeTag block)) maxChildren = some base) :
    CellAt block maxChildren offset ↔
      ∃ index < intervalCount block, base + 25 * index = offset := by
  have hcount : intervalCount block < UInt32.size := (block.wordAt 25).toNat_lt_size
  apply exists_congr
  intro index
  apply and_congr_right
  intro hindex
  rw [intervalOffset?_eq hbase (Nat.lt_trans hindex hcount), Option.some.injEq]

theorem cellAt_core_iff (h : typeTag block = 1) :
    CellAt block maxChildren offset ↔
      ∃ index < intervalCount block, 42 + 12 * maxChildren.toNat + 25 * index = offset := by
  apply cellAt_iff
  rw [h]
  exact intervalsBase?_core maxChildren

theorem cellAt_leaf_iff (h : typeTag block = 2) :
    CellAt block maxChildren offset ↔
      ∃ index < intervalCount block, 34 + 25 * index = offset := by
  apply cellAt_iff
  rw [h]
  exact intervalsBase?_leaf maxChildren

theorem not_cellAt_unknown (hcore : typeTag block ≠ 1) (hleaf : typeTag block ≠ 2) :
    ¬ CellAt block maxChildren offset := by
  intro hcell
  obtain ⟨index, -, hoffset⟩ := hcell
  rw [intervalOffset?, ← kind_commonHeader, kind_unknown hcore hleaf,
    intervalsBase?_unknown] at hoffset
  contradiction

end Cells

/-! ## Blocks that declare the same -/

section Same

variable {left right : Bytes} {maxChildren : UInt32} {offset : Nat}

theorem commonHeader_eq_of_node (h : node left maxChildren = node right maxChildren) :
    commonHeader left = commonHeader right := by
  calc commonHeader left
    _ = (node left maxChildren).record.toCommonHeader := (node_record_header left _).symm
    _ = (node right maxChildren).record.toCommonHeader := by rw [h]
    _ = commonHeader right := node_record_header right maxChildren

theorem typeTag_eq_of_node (h : node left maxChildren = node right maxChildren) :
    typeTag left = typeTag right :=
  NodeKind.ofTag_injective (congrArg CommonHeader.kind (commonHeader_eq_of_node h))

theorem coreNode_eq_of_node (h : node left maxChildren = node right maxChildren)
    (hcore : typeTag right = 1) : coreNode left maxChildren = coreNode right maxChildren := by
  calc coreNode left maxChildren
    _ = node left maxChildren := (node_core ((typeTag_eq_of_node h).trans hcore)).symm
    _ = node right maxChildren := h
    _ = coreNode right maxChildren := node_core hcore

theorem childrenCount_eq_of_node (h : node left maxChildren = node right maxChildren)
    (hcore : typeTag right = 1) : left.wordAt 38 = right.wordAt 38 := by
  have hcore := coreNode_eq_of_node h hcore
  exact congrArg (fun node => node.record.childrenCount) hcore

theorem child_eq_of_node (h : node left maxChildren = node right maxChildren)
    (hcore : typeTag right = 1) {index : Nat} (hindex : index < childCount right maxChildren) :
    child left maxChildren index = child right maxChildren index := by
  have hcount : childCount left maxChildren = childCount right maxChildren := by
    rw [childCount, childrenCount_eq_of_node h hcore, childCount]
  have hchildren : children left maxChildren = children right maxChildren :=
    congrArg (fun node => node.record.children) (coreNode_eq_of_node h hcore)
  rw [children, children, hcount] at hchildren
  exact List.map_inj_left.mp hchildren index (List.mem_range.mpr hindex)

theorem interval_eq_of_intervals {base : Nat}
    (hcount : intervalCount left = intervalCount right)
    (h : intervals left base = intervals right base) {index : Nat}
    (hindex : index < intervalCount right) :
    interval left (base + 25 * index) = interval right (base + 25 * index) := by
  rw [intervals, intervals, hcount] at h
  exact List.map_inj_left.mp h index (List.mem_range.mpr hindex)

theorem interval_eq_of_node (h : node left maxChildren = node right maxChildren)
    (hcell : CellAt right maxChildren offset) : interval left offset = interval right offset := by
  have htag := typeTag_eq_of_node h
  have hcount : intervalCount left = intervalCount right := by
    rw [← intervalCount_commonHeader, commonHeader_eq_of_node h, intervalCount_commonHeader]
  cases kinds right with
  | core tag =>
    obtain ⟨index, hindex, rfl⟩ := (cellAt_core_iff tag).mp hcell
    apply interval_eq_of_intervals hcount _ hindex
    exact congrArg (fun node => node.record.intervals) (coreNode_eq_of_node h tag)
  | leaf tag =>
    obtain ⟨index, hindex, rfl⟩ := (cellAt_leaf_iff tag).mp hcell
    rw [node_leaf tag, node_leaf (htag.trans tag)] at h
    apply interval_eq_of_intervals hcount _ hindex
    exact congrArg (fun node => node.record.intervals) h
  | unknown notCore notLeaf => exact absurd hcell (not_cellAt_unknown notCore notLeaf)

/-- The words that decoding takes as they stand can be told from what it gives. -/
theorem wordAt_eq_of_node (h : node left maxChildren = node right maxChildren)
    (hword : KeepsWord right maxChildren offset) : left.wordAt offset = right.wordAt offset := by
  have hheader := commonHeader_eq_of_node h
  cases hword with
  | start => exact congrArg CommonHeader.start hheader
  | stop => exact congrArg CommonHeader.stop hheader
  | seqNumber => exact congrArg (fun common => common.seqNumber.value) hheader
  | parent => exact ParentRef.ofRaw_injective (congrArg CommonHeader.parent hheader)
  | intervalCount => exact congrArg CommonHeader.intervalCount hheader
  | varDataOffset => exact congrArg CommonHeader.varDataOffset hheader
  | childrenCount core => exact childrenCount_eq_of_node h core
  | childSeq core index held =>
    exact congrArg (fun child => child.seqNumber.value) (child_eq_of_node h core held)
  | childStart core index held =>
    exact congrArg ChildEntry.start (child_eq_of_node h core held)
  | intervalStart cell => exact congrArg Interval.start (interval_eq_of_node h cell)
  | intervalStop cell => exact congrArg Interval.stop (interval_eq_of_node h cell)
  | attributeId cell => exact congrArg Interval.attributeId (interval_eq_of_node h cell)
  | value cell => exact congrArg Interval.value (interval_eq_of_node h cell)

theorem byteAt_eq_of_node (h : node left maxChildren = node right maxChildren) {position : Nat}
    (hkeeps : Keeps right maxChildren position) :
    left.byteAt position = right.byteAt position := by
  obtain hbyte | ⟨offset, hword, hfrom, hto⟩ := hkeeps
  · cases hbyte with
    | typeTag => exact typeTag_eq_of_node h
    | valueType cell =>
      exact ValueType.ofTag_injective
        (congrArg Interval.valueType (interval_eq_of_node h cell))
  · exact Bytes.byteAt_eq_of_wordAt_eq (wordAt_eq_of_node h hword) hfrom hto

end Same

/-! ## What is written belongs to fields -/

section Owned

variable {block : Bytes} {maxChildren : UInt32} {position : Nat}

theorem owned_of_byte {field : Field UInt8} {byte : UInt8}
    (hkeeps : KeepsByte block maxChildren field.offset)
    (hcovers : (field.stretch byte).Covers position) : Owned block maxChildren position := by
  obtain ⟨hfrom, hto⟩ := Field.covers_stretch_iff.mp hcovers
  have hposition : field.offset = position := Nat.le_antisymm hfrom (Nat.le_of_lt_succ hto)
  rw [hposition] at hkeeps
  exact Or.inl (Or.inl hkeeps)

theorem owned_of_word {field : Field UInt32} {word : UInt32}
    (hkeeps : KeepsWord block maxChildren field.offset)
    (hcovers : (field.stretch word).Covers position) : Owned block maxChildren position :=
  Or.inl (Or.inr ⟨field.offset, hkeeps, Field.covers_stretch_iff.mp hcovers⟩)

theorem owned_of_common (common : CommonHeader) :
    ∀ stretch ∈ common.stretches, stretch.Covers position → Owned block maxChildren position := by
  have hdone {byte : UInt8} (hcovers : (Common.done.stretch byte).Covers position) :
      Owned block maxChildren position := by
    obtain ⟨hfrom, hto⟩ := Field.covers_stretch_iff.mp hcovers
    exact Or.inr (Or.inl (Nat.le_antisymm (Nat.le_of_lt_succ hto) hfrom))
  simp only [CommonHeader.stretches_eq, List.forall_mem_cons]
  exact ⟨owned_of_byte .typeTag, owned_of_word .start, owned_of_word .stop,
    owned_of_word .seqNumber, owned_of_word .parent, owned_of_word .intervalCount,
    owned_of_word .varDataOffset, hdone, List.forall_mem_nil _⟩

theorem owned_of_child (hcore : typeTag block = 1) {entry : ChildEntry × Nat}
    (held : entry.2 < childCount block maxChildren) :
    ∀ stretch ∈ ChildEntry.stretches maxChildren entry,
      stretch.Covers position → Owned block maxChildren position := by
  simp only [ChildEntry.stretches_eq, List.forall_mem_cons]
  exact ⟨owned_of_word (.childSeq hcore entry.2 held),
    owned_of_word (.childStart hcore entry.2 held), List.forall_mem_nil _⟩

theorem owned_of_core (hcore : typeTag block = 1) (extended : Bool) (declared : UInt32)
    {children : List ChildEntry} (hchildren : children.length = childCount block maxChildren) :
    ∀ stretch ∈ coreStretches extended declared children maxChildren,
      stretch.Covers position → Owned block maxChildren position := by
  have hextended {word : UInt32} (hcovers : (Core.extended.stretch word).Covers position) :
      Owned block maxChildren position :=
    Or.inr (Or.inr ⟨hcore, Field.covers_stretch_iff.mp hcovers⟩)
  have hcells : ∀ stretch ∈ children.zipIdx.flatMap (ChildEntry.stretches maxChildren),
      stretch.Covers position → Owned block maxChildren position := by
    intro stretch hmem
    obtain ⟨index, hindex, hcell⟩ := mem_flatMap_zipIdx.mp hmem
    exact owned_of_child hcore (hchildren ▸ hindex) stretch hcell
  rw [coreStretches_eq]
  simp only [List.cons_append, List.nil_append, List.forall_mem_cons]
  exact ⟨hextended, owned_of_word (.childrenCount hcore), hcells⟩

theorem owned_of_interval (interval : Interval) {offset : Nat}
    (hcell : CellAt block maxChildren offset) :
    ∀ stretch ∈ (interval.patch offset).stretches,
      stretch.Covers position → Owned block maxChildren position := by
  simp only [Interval.stretches_patch, List.forall_mem_cons]
  exact ⟨owned_of_word (.intervalStart hcell), owned_of_word (.intervalStop hcell),
    owned_of_word (.attributeId hcell), owned_of_byte (.valueType hcell),
    owned_of_word (.value hcell), List.forall_mem_nil _⟩

theorem owned_of_cells {intervals : List Interval} {base : Nat}
    (hcell : ∀ index < intervals.length, CellAt block maxChildren (base + 25 * index)) :
    ∀ stretch ∈ cellStretches intervals base,
      stretch.Covers position → Owned block maxChildren position := by
  intro stretch hmem
  rw [cellStretches_eq] at hmem
  obtain ⟨index, hindex, hmem⟩ := mem_flatMap_zipIdx.mp hmem
  exact owned_of_interval _ (hcell index hindex) stretch hmem

/-- Writing what a block declares touches only the bytes that its fields own. -/
theorem owned_of_covers :
    ∀ stretch ∈ (node block maxChildren).record.stretches maxChildren,
      stretch.Covers position → Owned block maxChildren position := by
  cases kinds block with
  | core tag =>
    rw [node_core tag, NodeRecord.stretches_core (kind_core tag) rfl, List.forall_mem_append,
      List.forall_mem_append]
    refine ⟨owned_of_common _, owned_of_core tag _ _ ?_, owned_of_cells ?_⟩
    · simp only [coreNode, children, List.length_map, List.length_range]
    · intro index hindex
      simp only [coreNode, intervals, List.length_map, List.length_range] at hindex
      exact (cellAt_core_iff tag).mpr ⟨index, hindex, rfl⟩
  | leaf tag =>
    rw [node_leaf tag, NodeRecord.stretches_leaf (kind_leaf tag) rfl, List.forall_mem_append]
    refine ⟨owned_of_common _, owned_of_cells ?_⟩
    intro index hindex
    simp only [leafNode, intervals, List.length_map, List.length_range] at hindex
    exact (cellAt_leaf_iff tag).mpr ⟨index, hindex, rfl⟩
  | unknown notCore notLeaf =>
    rw [node_unknown notCore notLeaf,
      NodeRecord.stretches_unknown (kind_unknown notCore notLeaf) rfl]
    exact owned_of_common _

end Owned

/-- Writing what a block declares over zeros gives its normal form. -/
theorem normalForm_place {block : Bytes} {maxChildren : UInt32}
    (hfits : Fits block maxChildren) :
    NormalForm block maxChildren ((Bytes.zeros block.size).place
      ((node block maxChildren).record.stretches maxChildren)) := by
  have hcanonical := canonical_node block maxChildren
  have hheader := node_record_header block maxChildren
  have hpatches : ∀ patch ∈ (node block maxChildren).record.patches maxChildren,
      patch.stop ≤ (Bytes.zeros block.size).size := by
    rw [Bytes.size_zeros]
    exact (fits_iff_patches block maxChildren).mp hfits
  have hsame : node ((Bytes.zeros block.size).place
      ((node block maxChildren).record.stretches maxChildren)) maxChildren =
      node block maxChildren := by
    rw [node_place hcanonical hpatches, decoded_node]
  have hsize : 34 ≤ (Bytes.zeros block.size).size := by
    rw [Bytes.size_zeros]
    exact hfits.1
  refine ⟨?_, ?_, ?_, ?_⟩
  · intro position hkeeps
    exact byteAt_eq_of_node hsame hkeeps
  · have hdone : (node block maxChildren).record.done = (block.byteAt 33 != 0) :=
      congrArg CommonHeader.done hheader
    rw [byteAt_done_placed hcanonical.shape hsize, hdone]
    by_cases hzero : block.byteAt 33 = 0
    · simp [hzero]
    · simp [hzero]
  · intro hcore
    have hextended : 42 ≤ (Bytes.zeros block.size).size := by
      rw [Bytes.size_zeros]
      exact ((fits_core_iff hcore).mp hfits).1
    have hshape := hcanonical.shape
    rw [node_core hcore] at hshape ⊢
    rw [wordAt_extended_placed hshape (kind_core hcore) rfl hextended]
    by_cases hzero : block.wordAt 34 = 0
    · simp [hzero]
    · simp [hzero]
  · intro position hfree
    rw [Bytes.byteAt_place_of_not_covers, Bytes.byteAt_zeros]
    intro stretch hmem hcovers
    exact hfree (owned_of_covers stretch hmem hcovers)

end Block

/-- Whatever is decoded can be encoded again, into a block of the same size that
decodes to the same: the normal form of the first. -/
theorem encodeBlock_decodeBlock {block : Bytes} {maxChildren : UInt32} {node : DecodedNode}
    (hsize : block.size < UInt32.size)
    (hdecode : (decodeBlock block maxChildren).result = .ok node) :
    ∃ normal,
      encodeBlock node.record [] (UInt32.ofNat block.size) maxChildren = .ok normal ∧
        normal.size = block.size ∧ (decodeBlock normal maxChildren).result = .ok node ∧
        Block.NormalForm block maxChildren normal := by
  obtain ⟨hfits, rfl⟩ := result_decodeBlock_eq_ok_iff.mp hdecode
  have hcanonical := Block.canonical_node block maxChildren
  have hlength : (UInt32.ofNat block.size).toNat = block.size :=
    UInt32.toNat_ofNat_of_lt' hsize
  have hlast : (Bytes.zeros block.size).size ≤ Address.last :=
    hlength ▸ Bytes.size_zeros_le_last (UInt32.ofNat block.size)
  have hwrite := (hcanonical.write_eq_ok_iff hlast).mpr
    ⟨(Bytes.size_zeros block.size).symm ▸ (Block.fits_iff_patches block maxChildren).mp hfits,
      rfl⟩
  refine ⟨_, ?_, ?_, ?_, Block.normalForm_place hfits⟩
  · rw [NodeRecord.encodeBlock_nil, hlength]
    exact hwrite
  · rw [Bytes.size_place, Bytes.size_zeros]
  · rw [hcanonical.decodeBlock_write hlast hwrite, Block.decoded_node]

/-- A leaf with bytes in the unused halves of its times and past its header, and with
an uncommon number for a flag that is set. -/
def untidyLeaf : Bytes :=
  #[2, 1, 0, 0, 0, 9, 9, 9, 9, 8, 0, 0, 0, 9, 9, 9, 9, 3, 0, 0, 0, 255, 255, 255, 255,
    0, 0, 0, 0, 0, 0, 0, 0, 5, 9, 9]

theorem encodeBlock_decodeBlock_untidyLeaf :
    untidyLeaf.size < UInt32.size ∧ ∃ node, (decodeBlock untidyLeaf 0).result = .ok node ∧
      ∃ normal, encodeBlock node.record [] (UInt32.ofNat untidyLeaf.size) 0 = .ok normal ∧
        normal.size = untidyLeaf.size ∧ (decodeBlock normal 0).result = .ok node ∧
        Block.NormalForm untidyLeaf 0 normal := by
  have hsize : untidyLeaf.size < UInt32.size := by decide
  have hdecode : ∃ node, (decodeBlock untidyLeaf 0).result = .ok node := ⟨_, rfl⟩
  obtain ⟨node, hnode⟩ := hdecode
  exact ⟨hsize, node, hnode, encodeBlock_decodeBlock hsize hnode⟩

end HistoryTree
