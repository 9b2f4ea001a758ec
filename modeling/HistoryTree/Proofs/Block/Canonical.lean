import HistoryTree.Proofs.Block.Placement

/-!
# Canonical records

The records that a block can declare. Every block declares one
(`Block.canonical_node`), and a block has room for what it declares exactly if it
has room for the patches of that record (`Block.fits_iff_patches`). Placing a
canonical record gives a block that declares it (`Block.node_place`).
-/

namespace HistoryTree

open Layout

namespace NodeRecord

/-- The header of a record goes with its kind, and its lists with their declared
counts. An unknown kind may declare any number of intervals, but has none. -/
inductive Shape (record : NodeRecord) (maxChildren : UInt32) : Prop where
  | core (extended : Bool) (declared : UInt32) (kind : record.kind = .core)
      (specific : record.specific = .core extended declared)
      (children : record.children.length = min declared.toNat maxChildren.toNat)
      (intervals : record.intervals.length = record.intervalCount.toNat)
  | leaf (kind : record.kind = .leaf) (specific : record.specific = .leaf)
      (children : record.children = [])
      (intervals : record.intervals.length = record.intervalCount.toNat)
  | unknown (tag : UInt8) (meaningless : tag ≠ 1 ∧ tag ≠ 2)
      (kind : record.kind = .unknown tag) (specific : record.specific = .unknown)
      (children : record.children = []) (intervals : record.intervals = [])

/-- Nothing of the record is lost when it is stored. -/
structure Canonical (record : NodeRecord) (maxChildren : UInt32) : Prop where
  shape : record.Shape maxChildren
  parent : record.parent ≠ .childOf ⟨ParentRef.rootSentinel⟩
  valueType : ∀ interval ∈ record.intervals, ∀ tag : UInt8, tag < 4 →
    interval.valueType ≠ .other tag

/-- The node that has the record, with the issue that its kind raises. -/
def decoded (record : NodeRecord) : DecodedNode where
  record := record
  issue := match record.kind with
    | .core | .leaf => none
    | .unknown tag => some (.unknownNodeType tag)

/-- Where the record is placed. -/
def stretches (record : NodeRecord) (maxChildren : UInt32) : List Stretch :=
  (record.patches maxChildren).flatMap Patch.stretches

/-! ## The parts of each kind -/

section Parts

variable {record : NodeRecord} {maxChildren : UInt32} {extended : Bool} {declared : UInt32}

theorem patches_core (hkind : record.kind = .core)
    (hspecific : record.specific = .core extended declared) :
    record.patches maxChildren =
      record.toCommonHeader.patches ++
        corePatches extended declared record.children maxChildren ++
        intervalPatches record.intervals (42 + 12 * maxChildren.toNat) := by
  rw [patches, specificPatches, hspecific, cellPatches, hkind, intervalsBase?_core]

theorem patches_leaf (hkind : record.kind = .leaf) (hspecific : record.specific = .leaf) :
    record.patches maxChildren =
      record.toCommonHeader.patches ++ intervalPatches record.intervals 34 := by
  rw [patches, specificPatches, hspecific, cellPatches, hkind, intervalsBase?_leaf,
    List.append_nil]

theorem patches_unknown {tag : UInt8} (hkind : record.kind = .unknown tag)
    (hspecific : record.specific = .unknown) :
    record.patches maxChildren = record.toCommonHeader.patches := by
  rw [patches, specificPatches, hspecific, cellPatches, hkind, intervalsBase?_unknown,
    List.append_nil, List.append_nil]

theorem stretches_core (hkind : record.kind = .core)
    (hspecific : record.specific = .core extended declared) :
    record.stretches maxChildren =
      record.toCommonHeader.stretches ++
        (coreStretches extended declared record.children maxChildren ++
          cellStretches record.intervals (42 + 12 * maxChildren.toNat)) := by
  rw [stretches, patches_core hkind hspecific, List.flatMap_append, List.flatMap_append,
    List.append_assoc]
  rfl

theorem stretches_leaf (hkind : record.kind = .leaf) (hspecific : record.specific = .leaf) :
    record.stretches maxChildren =
      record.toCommonHeader.stretches ++ cellStretches record.intervals 34 := by
  rw [stretches, patches_leaf hkind hspecific, List.flatMap_append]
  rfl

theorem stretches_unknown {tag : UInt8} (hkind : record.kind = .unknown tag)
    (hspecific : record.specific = .unknown) :
    record.stretches maxChildren = record.toCommonHeader.stretches := by
  rw [stretches, patches_unknown hkind hspecific]
  rfl

theorem forall_patches_core_iff {size : Nat} (hkind : record.kind = .core)
    (hspecific : record.specific = .core extended declared) :
    (∀ patch ∈ record.patches maxChildren, patch.stop ≤ size) ↔
      42 ≤ size ∧
      (record.children.length = 0 ∨
        46 + 4 * maxChildren.toNat + 8 * (record.children.length - 1) ≤ size) ∧
      (record.intervals.length = 0 ∨
        42 + 12 * maxChildren.toNat + 25 * record.intervals.length ≤ size) := by
  rw [patches_core hkind hspecific, List.forall_mem_append, List.forall_mem_append,
    CommonHeader.forall_patches_iff, forall_corePatches_iff, forall_intervalPatches_iff]
  omega

theorem forall_patches_leaf_iff {size : Nat} (hkind : record.kind = .leaf)
    (hspecific : record.specific = .leaf) :
    (∀ patch ∈ record.patches maxChildren, patch.stop ≤ size) ↔
      34 ≤ size ∧
      (record.intervals.length = 0 ∨ 34 + 25 * record.intervals.length ≤ size) := by
  rw [patches_leaf hkind hspecific, List.forall_mem_append, CommonHeader.forall_patches_iff,
    forall_intervalPatches_iff]

theorem forall_patches_unknown_iff {size : Nat} {tag : UInt8}
    (hkind : record.kind = .unknown tag) (hspecific : record.specific = .unknown) :
    (∀ patch ∈ record.patches maxChildren, patch.stop ≤ size) ↔ 34 ≤ size := by
  rw [patches_unknown hkind hspecific, CommonHeader.forall_patches_iff]

/-- The parts of a record are placed one behind the other. -/
theorem pairwise_stretches (h : record.Shape maxChildren) :
    (record.stretches maxChildren).Pairwise Stretch.Apart := by
  have hcommon := record.toCommonHeader.pairwise_stretches
  have hhead := record.toCommonHeader.within_of_mem_stretches
  cases h with
  | core extended declared kind specific children intervals =>
    have hslots : record.children.length ≤ maxChildren.toNat :=
      children ▸ Nat.min_le_right _ _
    have hcore {stretch : Stretch} (hmem : stretch ∈
        coreStretches extended declared record.children maxChildren) :
        stretch.Within 34 (42 + 12 * maxChildren.toNat) :=
      within_of_mem_coreStretches hslots stretch hmem
    have hcells : (coreStretches extended declared record.children maxChildren ++
        cellStretches record.intervals (42 + 12 * maxChildren.toNat)).Pairwise Stretch.Apart :=
      Stretch.pairwise_apart_append (pairwise_coreStretches hslots) pairwise_cellStretches
        (fun _ => hcore) within_of_mem_cellStretches
    have hafter : ∀ stretch ∈ coreStretches extended declared record.children maxChildren ++
        cellStretches record.intervals (42 + 12 * maxChildren.toNat),
        stretch.Within 34
          (42 + 12 * maxChildren.toNat + 25 * record.intervals.length) := by
      rw [List.forall_mem_append]
      constructor
      · intro stretch hmem
        exact (hcore hmem).mono (Nat.le_refl _) (Nat.le_add_right _ _)
      · intro stretch hmem
        exact (within_of_mem_cellStretches stretch hmem).mono (by omega) (Nat.le_refl _)
    rw [stretches_core kind specific]
    exact Stretch.pairwise_apart_append hcommon hcells hhead hafter
  | leaf kind specific children intervals =>
    rw [stretches_leaf kind specific]
    exact Stretch.pairwise_apart_append hcommon pairwise_cellStretches hhead
      within_of_mem_cellStretches
  | unknown tag meaningless kind specific children intervals =>
    rw [stretches_unknown kind specific]
    exact hcommon

/-- There is room for all of a record if there is room up to its last interval, or to
where the first one would be. -/
theorem Shape.forall_patches_of_base {base size : Nat} (h : record.Shape maxChildren)
    (hbase : intervalsBase? record.kind maxChildren = some base)
    (hsize : base + 25 * record.intervals.length ≤ size) :
    ∀ patch ∈ record.patches maxChildren, patch.stop ≤ size := by
  cases h with
  | core extended declared kind specific children intervals =>
    have hslots : record.children.length ≤ maxChildren.toNat := children ▸ Nat.min_le_right _ _
    rw [kind, intervalsBase?_core, Option.some.injEq] at hbase
    rw [forall_patches_core_iff kind specific]
    omega
  | leaf kind specific children intervals =>
    rw [kind, intervalsBase?_leaf, Option.some.injEq] at hbase
    rw [forall_patches_leaf_iff kind specific]
    omega
  | unknown tag meaningless kind specific children intervals =>
    rw [kind, intervalsBase?_unknown] at hbase
    contradiction

/-- Nothing of a record is placed past its last interval. -/
theorem Shape.within_of_mem_stretches {base : Nat} (h : record.Shape maxChildren)
    (hbase : intervalsBase? record.kind maxChildren = some base) :
    ∀ stretch ∈ record.stretches maxChildren,
      stretch.Within 0 (base + 25 * record.intervals.length) := by
  intro stretch hstretch
  obtain ⟨patch, hpatch, hmem⟩ := List.mem_flatMap.mp hstretch
  have hstop := h.forall_patches_of_base hbase (Nat.le_refl _) patch hpatch
  exact ⟨Nat.zero_le _, Nat.le_trans (patch.stop_le stretch hmem) hstop⟩

end Parts

end NodeRecord

namespace Block

/-! ## What a block declares is canonical -/

theorem shape_node (block : Bytes) (maxChildren : UInt32) :
    (node block maxChildren).record.Shape maxChildren := by
  cases kinds block with
  | core tag =>
    rw [node_core tag]
    refine .core _ _ (kind_core tag) rfl ?_ ?_
    · simp only [coreNode, children, childCount, List.length_map, List.length_range]
    · simp only [coreNode, intervals, List.length_map, List.length_range]
      rfl
  | leaf tag =>
    rw [node_leaf tag]
    refine .leaf (kind_leaf tag) rfl rfl ?_
    simp only [leafNode, intervals, List.length_map, List.length_range]
    rfl
  | unknown notCore notLeaf =>
    rw [node_unknown notCore notLeaf]
    exact .unknown _ ⟨notCore, notLeaf⟩ (kind_unknown notCore notLeaf) rfl rfl rfl

theorem valueType_of_mem_intervals {block : Bytes} {base : Nat} {interval : Interval}
    (h : interval ∈ intervals block base) {tag : UInt8} (htag : tag < 4) :
    interval.valueType ≠ .other tag := by
  obtain ⟨index, -, rfl⟩ := List.mem_map.mp h
  exact ValueType.ofTag_ne_other tag htag

theorem node_record_header (block : Bytes) (maxChildren : UInt32) :
    (node block maxChildren).record.toCommonHeader = commonHeader block := by
  unfold node
  split <;> rfl

theorem canonical_node (block : Bytes) (maxChildren : UInt32) :
    (node block maxChildren).record.Canonical maxChildren where
  shape := shape_node block maxChildren
  parent := by
    rw [node_record_header]
    exact ParentRef.ofRaw_ne_sentinel (block.wordAt 21)
  valueType := by
    intro interval hmem tag htag
    unfold node at hmem
    split at hmem
    · exact valueType_of_mem_intervals hmem htag
    · exact valueType_of_mem_intervals hmem htag
    · exact absurd hmem List.not_mem_nil

/-- The issue of a block is that of the kind it declares. -/
theorem decoded_node (block : Bytes) (maxChildren : UInt32) :
    (node block maxChildren).record.decoded = node block maxChildren := by
  have hkind : (node block maxChildren).record.kind = NodeKind.ofTag (typeTag block) := by
    rw [node_record_header, kind_commonHeader]
  rw [NodeRecord.decoded, hkind, node]
  cases NodeKind.ofTag (typeTag block) with
  | core => rfl
  | leaf => rfl
  | unknown tag => rfl

/-- What a block declares fits in it exactly if it could be written there. -/
theorem fits_iff_patches (block : Bytes) (maxChildren : UInt32) :
    Fits block maxChildren ↔
      ∀ patch ∈ (node block maxChildren).record.patches maxChildren,
        patch.stop ≤ block.size := by
  cases kinds block with
  | core tag =>
    rw [fits_core_iff tag, node_core tag,
      NodeRecord.forall_patches_core_iff (kind_core tag) rfl]
    simp only [coreNode, children, intervals, List.length_map, List.length_range]
  | leaf tag =>
    rw [fits_leaf_iff tag, node_leaf tag, NodeRecord.forall_patches_leaf_iff (kind_leaf tag) rfl]
    simp only [leafNode, intervals, List.length_map, List.length_range]
  | unknown notCore notLeaf =>
    rw [fits_unknown_iff notCore notLeaf, node_unknown notCore notLeaf,
      NodeRecord.forall_patches_unknown_iff (kind_unknown notCore notLeaf) rfl]

/-! ## A placed record is what the block declares -/

section Placed

variable {record : NodeRecord} {maxChildren : UInt32} {data : Bytes}

theorem mem_stretches_of_common {stretch : Stretch}
    (h : stretch ∈ record.toCommonHeader.stretches) : stretch ∈ record.stretches maxChildren := by
  rw [NodeRecord.stretches, NodeRecord.patches, List.flatMap_append, List.flatMap_append]
  exact List.mem_append_left _ (List.mem_append_left _ h)

theorem mem_stretches_of_core {stretch : Stretch} {extended : Bool} {declared : UInt32}
    (hkind : record.kind = .core) (hspecific : record.specific = .core extended declared)
    (h : stretch ∈ coreStretches extended declared record.children maxChildren) :
    stretch ∈ record.stretches maxChildren := by
  rw [NodeRecord.stretches_core hkind hspecific]
  exact List.mem_append_right _ (List.mem_append_left _ h)

theorem commonHeader_placed (h : record.Canonical maxChildren) (hsize : 34 ≤ data.size) :
    commonHeader (data.place (record.stretches maxChildren)) = record.toCommonHeader := by
  have hkind : NodeKind.ofTag record.kind.tag = record.kind := by
    cases h.shape with
    | core extended declared kind => rw [kind]; rfl
    | leaf kind => rw [kind]; rfl
    | unknown tag meaningless kind =>
      rw [kind]
      exact NodeKind.ofTag_eq_unknown_iff.mpr ⟨rfl, meaningless⟩
  exact commonHeader_place (NodeRecord.pairwise_stretches h.shape)
    (fun _ => mem_stretches_of_common) hsize hkind (ParentRef.ofRaw_toRaw h.parent)

/-- A flag is stored as 0 or 1, though any other number than 0 would also be read as set. -/
theorem byteAt_done_placed (h : record.Shape maxChildren) (hsize : 34 ≤ data.size) :
    Bytes.byteAt (data.place (record.stretches maxChildren)) 33 =
      if record.done then 1 else 0 := by
  have hmem : Common.done.stretch (if record.done then 1 else 0) ∈
      record.toCommonHeader.stretches := by
    simp only [CommonHeader.stretches_eq, List.mem_cons, true_or, or_true]
  exact Field.byteAt_place Common.done (NodeRecord.pairwise_stretches h)
    (mem_stretches_of_common hmem) hsize

theorem wordAt_extended_placed (h : record.Shape maxChildren) {extended : Bool}
    {declared : UInt32} (hkind : record.kind = .core)
    (hspecific : record.specific = .core extended declared) (hsize : 42 ≤ data.size) :
    Bytes.wordAt (data.place (record.stretches maxChildren)) 34 =
      if extended then 1 else 0 := by
  have hmem : Core.extended.stretch (if extended then 1 else 0) ∈
      coreStretches extended declared record.children maxChildren := by
    rw [coreStretches_eq]
    exact List.mem_append_left _ List.mem_cons_self
  exact Field.wordAt_place Core.extended (NodeRecord.pairwise_stretches h)
    (mem_stretches_of_core hkind hspecific hmem) (Nat.le_trans (by decide) hsize)

theorem typeTag_placed (h : record.Canonical maxChildren) (hsize : 34 ≤ data.size) :
    NodeKind.ofTag (typeTag (data.place (record.stretches maxChildren))) = record.kind := by
  rw [← kind_commonHeader, commonHeader_placed h hsize]

theorem intervalCount_placed (h : record.Canonical maxChildren) (hsize : 34 ≤ data.size) :
    intervalCount (data.place (record.stretches maxChildren)) = record.intervalCount.toNat := by
  rw [← intervalCount_commonHeader, commonHeader_placed h hsize]

theorem coreNode_place (h : record.Canonical maxChildren) {extended : Bool} {declared : UInt32}
    (hkind : record.kind = .core) (hspecific : record.specific = .core extended declared)
    (hcount : record.children.length = min declared.toNat maxChildren.toNat)
    (hcells : record.intervals.length = record.intervalCount.toNat)
    (hfits : ∀ patch ∈ record.patches maxChildren, patch.stop ≤ data.size) :
    coreNode (data.place (record.stretches maxChildren)) maxChildren = record.decoded := by
  have hapart := NodeRecord.pairwise_stretches h.shape
  rw [NodeRecord.forall_patches_core_iff hkind hspecific] at hfits
  obtain ⟨hheader, hchildrenFit, hcellsFit⟩ := hfits
  have hsize : 34 ≤ data.size := Nat.le_trans (by decide) hheader
  have hcore : ∀ stretch ∈ coreStretches extended declared record.children maxChildren,
      stretch ∈ record.stretches maxChildren :=
    fun _ => mem_stretches_of_core hkind hspecific
  have hcell : ∀ stretch ∈ cellStretches record.intervals (42 + 12 * maxChildren.toNat),
      stretch ∈ record.stretches maxChildren := by
    intro stretch hmem
    rw [NodeRecord.stretches_core hkind hspecific]
    exact List.mem_append_right _ (List.mem_append_right _ hmem)
  have hdeclared : Bytes.wordAt (data.place (record.stretches maxChildren)) 38 = declared := by
    have hmem : Core.childrenCount.stretch declared ∈
        coreStretches extended declared record.children maxChildren := by
      rw [coreStretches_eq]
      exact List.mem_append_left _ (List.mem_cons_of_mem _ List.mem_cons_self)
    exact Field.wordAt_place Core.childrenCount hapart (hcore _ hmem) hheader
  have hflag : (Bytes.wordAt (data.place (record.stretches maxChildren)) 34 != 0) =
      extended := by
    rw [wordAt_extended_placed h.shape hkind hspecific hheader]
    cases extended <;> rfl
  have hchildren : children (data.place (record.stretches maxChildren)) maxChildren =
      record.children := by
    apply children_place hapart hcore _ hchildrenFit
    rw [childCount, hdeclared, hcount]
  have hintervals : intervals (data.place (record.stretches maxChildren))
      (42 + 12 * maxChildren.toNat) = record.intervals := by
    apply intervals_place hapart hcell _ hcellsFit
    · exact fun interval hmem => ValueType.ofTag_tag (h.valueType interval hmem)
    · rw [intervalCount_placed h hsize, hcells]
  rw [coreNode, commonHeader_placed h hsize, hflag, hdeclared, hchildren, hintervals,
    ← hspecific, NodeRecord.decoded, hkind]

theorem leafNode_place (h : record.Canonical maxChildren) (hkind : record.kind = .leaf)
    (hspecific : record.specific = .leaf) (hchildren : record.children = [])
    (hcells : record.intervals.length = record.intervalCount.toNat)
    (hfits : ∀ patch ∈ record.patches maxChildren, patch.stop ≤ data.size) :
    leafNode (data.place (record.stretches maxChildren)) = record.decoded := by
  rw [NodeRecord.forall_patches_leaf_iff hkind hspecific] at hfits
  obtain ⟨hsize, hcellsFit⟩ := hfits
  have hcell : ∀ stretch ∈ cellStretches record.intervals 34,
      stretch ∈ record.stretches maxChildren := by
    intro stretch hmem
    rw [NodeRecord.stretches_leaf hkind hspecific]
    exact List.mem_append_right _ hmem
  have hintervals : intervals (data.place (record.stretches maxChildren)) 34 =
      record.intervals := by
    apply intervals_place (NodeRecord.pairwise_stretches h.shape) hcell _ hcellsFit
    · exact fun interval hmem => ValueType.ofTag_tag (h.valueType interval hmem)
    · rw [intervalCount_placed h hsize, hcells]
  rw [leafNode, commonHeader_placed h hsize, hintervals, ← hspecific, ← hchildren,
    NodeRecord.decoded, hkind]

/-- Placing a canonical record with room for all of it gives a block that declares it. -/
theorem node_place (h : record.Canonical maxChildren)
    (hfits : ∀ patch ∈ record.patches maxChildren, patch.stop ≤ data.size) :
    node (data.place (record.stretches maxChildren)) maxChildren = record.decoded := by
  have hsize : 34 ≤ data.size := by
    rw [← record.toCommonHeader.forall_patches_iff]
    intro patch hmem
    exact hfits patch (List.mem_append_left _ (List.mem_append_left _ hmem))
  rw [node, typeTag_placed h hsize]
  cases h.shape with
  | core extended declared kind specific children intervals =>
    rw [kind]
    exact coreNode_place h kind specific children intervals hfits
  | leaf kind specific children intervals =>
    rw [kind]
    exact leafNode_place h kind specific children intervals hfits
  | unknown tag meaningless kind specific children intervals =>
    rw [kind]
    simp only [unknownNode, commonHeader_placed h hsize, ← specific, NodeRecord.decoded, kind]
    rw [← children, ← intervals]

end Placed

end Block

end HistoryTree
