import HistoryTree.Proofs.Block.Content
import HistoryTree.Proofs.Block.Patches

/-!
# Where a record is placed

The stretches of the parts of a record lie apart, so each part is found again in a
block that all of them were placed in: `commonHeader_place`, `child_place` and
`interval_place`.
-/

namespace HistoryTree

open Layout

/-! ## The common header -/

namespace CommonHeader

def stretches (common : CommonHeader) : List Stretch :=
  common.patches.flatMap Patch.stretches

theorem stretches_eq (common : CommonHeader) :
    common.stretches =
      [Common.typeTag.stretch common.kind.tag,
        Common.start.stretch common.start,
        Common.stop.stretch common.stop,
        Common.seqNumber.stretch common.seqNumber.value,
        Common.parentSeqNumber.stretch common.parent.toRaw,
        Common.intervalCount.stretch common.intervalCount,
        Common.varDataOffset.stretch common.varDataOffset,
        Common.done.stretch (if common.done then 1 else 0)] := rfl

theorem pairwise_stretches (common : CommonHeader) :
    common.stretches.Pairwise Stretch.Apart := by
  apply Stretch.pairwise_apart_of_isChain
  simp only [stretches_eq, List.isChain_cons_cons, List.isChain_singleton, and_true]
  exact ⟨Field.before_stretch _ _ (by decide), Field.before_stretch _ _ (by decide),
    Field.before_stretch _ _ (by decide), Field.before_stretch _ _ (by decide),
    Field.before_stretch _ _ (by decide), Field.before_stretch _ _ (by decide),
    Field.before_stretch _ _ (by decide)⟩

theorem within_of_mem_stretches (common : CommonHeader) :
    ∀ stretch ∈ common.stretches, stretch.Within 0 34 := by
  have hwithin {α : Type} [LittleEndian α] {field : Field α} (word : α) (h : field.stop ≤ 34) :
      (field.stretch word).Within 0 34 := Field.within_stretch word (Nat.zero_le _) h
  simp only [stretches_eq, List.forall_mem_cons]
  exact ⟨hwithin _ (by decide), hwithin _ (by decide), hwithin _ (by decide),
    hwithin _ (by decide), hwithin _ (by decide), hwithin _ (by decide),
    hwithin _ (by decide), hwithin _ (by decide), List.forall_mem_nil _⟩

/-- The patches of the common header fit if the last one does. -/
theorem forall_patches_iff (common : CommonHeader) (size : Nat) :
    (∀ patch ∈ common.patches, patch.stop ≤ size) ↔ 34 ≤ size := by
  constructor
  · intro hpatches
    exact hpatches (Common.done.patch _) (List.mem_of_getElem? (i := 7) rfl)
  · intro hsize
    have hstop {α : Type} [LittleEndian α] (field : Field α) (word : α) (h : field.stop ≤ 34) :
        (field.patch word).stop ≤ size := Nat.le_trans h hsize
    simp only [patches, List.forall_mem_cons]
    exact ⟨hstop _ _ (by decide), hstop _ _ (by decide), hstop _ _ (by decide),
      hstop _ _ (by decide), hstop _ _ (by decide), hstop _ _ (by decide),
      hstop _ _ (by decide), hstop _ _ (by decide), List.forall_mem_nil _⟩

end CommonHeader

/-- A common header that was placed apart from everything else is found again. -/
theorem Block.commonHeader_place {common : CommonHeader} {stretches : List Stretch}
    {data : Bytes} (hapart : stretches.Pairwise Stretch.Apart)
    (hmem : ∀ stretch ∈ common.stretches, stretch ∈ stretches) (hsize : 34 ≤ data.size)
    (hkind : NodeKind.ofTag common.kind.tag = common.kind)
    (hparent : ParentRef.ofRaw common.parent.toRaw = common.parent) :
    Block.commonHeader (data.place stretches) = common := by
  have hfits {stop : Nat} (h : stop ≤ 34) : stop ≤ data.size := Nat.le_trans h hsize
  simp only [CommonHeader.stretches_eq, List.forall_mem_cons] at hmem
  obtain ⟨htag, hstart, hstop, hseq, hparentRaw, hcount, hoffset, hdone, -⟩ := hmem
  have htag : Block.typeTag (data.place stretches) = common.kind.tag :=
    Field.byteAt_place Common.typeTag hapart htag (hfits (by decide))
  have hstart : Bytes.wordAt (data.place stretches) 1 = common.start :=
    Field.wordAt_place Common.start hapart hstart (hfits (by decide))
  have hstop : Bytes.wordAt (data.place stretches) 9 = common.stop :=
    Field.wordAt_place Common.stop hapart hstop (hfits (by decide))
  have hseq : Bytes.wordAt (data.place stretches) 17 = common.seqNumber.value :=
    Field.wordAt_place Common.seqNumber hapart hseq (hfits (by decide))
  have hparentRaw : Bytes.wordAt (data.place stretches) 21 = common.parent.toRaw :=
    Field.wordAt_place Common.parentSeqNumber hapart hparentRaw (hfits (by decide))
  have hcount : Bytes.wordAt (data.place stretches) 25 = common.intervalCount :=
    Field.wordAt_place Common.intervalCount hapart hcount (hfits (by decide))
  have hoffset : Bytes.wordAt (data.place stretches) 29 = common.varDataOffset :=
    Field.wordAt_place Common.varDataOffset hapart hoffset (hfits (by decide))
  have hdone : Bytes.byteAt (data.place stretches) 33 = if common.done then 1 else 0 :=
    Field.byteAt_place Common.done hapart hdone (hfits (by decide))
  have hflag : (Bytes.byteAt (data.place stretches) 33 != 0) = common.done := by
    rw [hdone]
    cases common.done <;> rfl
  rw [Block.commonHeader, htag, hstart, hstop, hseq, hparentRaw, hcount, hoffset, hflag, hkind,
    hparent]

/-! ## Children -/

namespace ChildEntry

variable {maxChildren : UInt32}

/-- The two cells of a child. -/
def stretches (maxChildren : UInt32) (entry : ChildEntry × Nat) : List Stretch :=
  (patches maxChildren entry).flatMap Patch.stretches

theorem stretches_eq (maxChildren : UInt32) (entry : ChildEntry × Nat) :
    stretches maxChildren entry =
      [(seqField entry.2).stretch entry.1.seqNumber.value,
        (startField maxChildren entry.2).stretch entry.1.start] := rfl

theorem offset_seqField (index : Nat) : (seqField index).offset = 42 + 4 * index := rfl

theorem offset_startField (maxChildren : UInt32) (index : Nat) :
    (startField maxChildren index).offset = 42 + 4 * maxChildren.toNat + 8 * index := rfl

theorem stop_seqField (index : Nat) : (seqField index).stop = 46 + 4 * index :=
  Nat.add_right_comm 42 (4 * index) 4

theorem stop_startField (maxChildren : UInt32) (index : Nat) :
    (startField maxChildren index).stop = 46 + 4 * maxChildren.toNat + 8 * index := by
  have hstop : (startField maxChildren index).stop =
      42 + 4 * maxChildren.toNat + 8 * index + 4 := rfl
  omega

/-- All child numbers lie before all child starts. -/
theorem seqField_before_startField {first second : Nat} (h : first < maxChildren.toNat) :
    (seqField first).stop ≤ (startField maxChildren second).offset := by
  rw [stop_seqField, offset_startField]
  omega

theorem pairwise_stretches {entry : ChildEntry × Nat} (h : entry.2 < maxChildren.toNat) :
    (stretches maxChildren entry).Pairwise Stretch.Apart := by
  rw [stretches_eq, List.pairwise_pair]
  exact Field.apart_stretch _ _ (Or.inl (seqField_before_startField h))

/-- The cells of a child lie apart from those of any later one. -/
theorem apart_stretches {first second : ChildEntry × Nat} (hless : first.2 < second.2)
    (hsecond : second.2 < maxChildren.toNat) :
    ∀ left ∈ stretches maxChildren first, ∀ right ∈ stretches maxChildren second,
      left.Apart right := by
  have hfirst : first.2 < maxChildren.toNat := Nat.lt_trans hless hsecond
  have hseq : (seqField first.2).stop ≤ (seqField second.2).offset := by
    rw [stop_seqField, offset_seqField]
    omega
  have hstart : (startField maxChildren first.2).stop ≤
      (startField maxChildren second.2).offset := by
    rw [stop_startField, offset_startField]
    omega
  simp only [stretches_eq, List.forall_mem_cons, List.not_mem_nil, false_implies, implies_true,
    and_true]
  refine ⟨⟨?_, ?_⟩, ?_, ?_⟩
  · exact Field.apart_stretch _ _ (Or.inl hseq)
  · exact Field.apart_stretch _ _ (Or.inl (seqField_before_startField hfirst))
  · exact Field.apart_stretch _ _ (Or.inr (seqField_before_startField hsecond))
  · exact Field.apart_stretch _ _ (Or.inl hstart)

theorem within_of_mem_stretches {entry : ChildEntry × Nat} (h : entry.2 < maxChildren.toNat) :
    ∀ stretch ∈ stretches maxChildren entry, stretch.Within 42 (42 + 12 * maxChildren.toNat) := by
  have hseq : (seqField entry.2).stop ≤ 42 + 12 * maxChildren.toNat := by
    rw [stop_seqField]
    omega
  have hstart : (startField maxChildren entry.2).stop ≤ 42 + 12 * maxChildren.toNat := by
    rw [stop_startField]
    omega
  simp only [stretches_eq, List.forall_mem_cons, List.not_mem_nil, false_implies, implies_true,
    and_true]
  constructor
  · exact Field.within_stretch _ (Nat.le_add_right 42 _) hseq
  · refine Field.within_stretch _ ?_ hstart
    rw [offset_startField, Nat.add_assoc]
    exact Nat.le_add_right 42 _

/-- The later cell of a child decides whether it fits. -/
theorem forall_patches_iff (maxChildren : UInt32) (entry : ChildEntry × Nat) {size : Nat} :
    (∀ patch ∈ patches maxChildren entry, patch.stop ≤ size) ↔
      46 + 4 * maxChildren.toNat + 8 * entry.2 ≤ size := by
  simp only [patches, List.forall_mem_cons, List.not_mem_nil, false_implies, implies_true,
    and_true, Field.patch, stop_seqField, stop_startField]
  omega

end ChildEntry

/-- A child that was placed apart from everything else is found again. -/
theorem Block.child_place {maxChildren : UInt32} {child : ChildEntry} {index : Nat}
    {stretches : List Stretch} {data : Bytes} (hapart : stretches.Pairwise Stretch.Apart)
    (hmem : ∀ stretch ∈ ChildEntry.stretches maxChildren (child, index), stretch ∈ stretches)
    (hsize : 46 + 4 * maxChildren.toNat + 8 * index ≤ data.size) :
    Block.child (data.place stretches) maxChildren index = child := by
  have hfits := (ChildEntry.forall_patches_iff maxChildren (child, index)).mpr hsize
  simp only [ChildEntry.patches, List.forall_mem_cons, Field.patch] at hfits
  simp only [ChildEntry.stretches_eq, List.forall_mem_cons] at hmem
  have hseq : Bytes.wordAt (data.place stretches) (42 + 4 * index) = child.seqNumber.value :=
    Field.wordAt_place (ChildEntry.seqField index) hapart hmem.1 hfits.1
  have hstart : Bytes.wordAt (data.place stretches) (42 + 4 * maxChildren.toNat + 8 * index) =
      child.start :=
    Field.wordAt_place (ChildEntry.startField maxChildren index) hapart hmem.2.1 hfits.2.1
  rw [Block.child, hseq, hstart]

/-! ## The core header with the children -/

section Core

variable {extended : Bool} {declared : UInt32} {children : List ChildEntry}
  {maxChildren : UInt32}

def coreStretches (extended : Bool) (declared : UInt32) (children : List ChildEntry)
    (maxChildren : UInt32) : List Stretch :=
  (corePatches extended declared children maxChildren).flatMap Patch.stretches

theorem coreStretches_eq (extended : Bool) (declared : UInt32) (children : List ChildEntry)
    (maxChildren : UInt32) :
    coreStretches extended declared children maxChildren =
      [Core.extended.stretch (if extended then 1 else 0),
        Core.childrenCount.stretch declared] ++
        children.zipIdx.flatMap (ChildEntry.stretches maxChildren) := by
  rw [coreStretches, corePatches, List.flatMap_append, List.flatMap_assoc]
  rfl

/-- The index of a child with a slot. -/
theorem index_lt_slots {entry : ChildEntry × Nat} (h : children.length ≤ maxChildren.toNat)
    (hentry : entry ∈ children.zipIdx) : entry.2 < maxChildren.toNat :=
  Nat.lt_of_lt_of_le (List.mem_zipIdx' hentry).1 h

theorem within_of_mem_childStretches (h : children.length ≤ maxChildren.toNat) :
    ∀ stretch ∈ children.zipIdx.flatMap (ChildEntry.stretches maxChildren),
      stretch.Within 42 (42 + 12 * maxChildren.toNat) := by
  intro stretch hstretch
  obtain ⟨entry, hentry, hmem⟩ := List.mem_flatMap.mp hstretch
  exact ChildEntry.within_of_mem_stretches (index_lt_slots h hentry) stretch hmem

theorem within_of_mem_coreStretches (h : children.length ≤ maxChildren.toNat) :
    ∀ stretch ∈ coreStretches extended declared children maxChildren,
      stretch.Within 34 (42 + 12 * maxChildren.toNat) := by
  have hheader {field : Field UInt32} (word : UInt32) (hlow : 34 ≤ field.offset)
      (hhigh : field.stop ≤ 42) :
      (field.stretch word).Within 34 (42 + 12 * maxChildren.toNat) :=
    Field.within_stretch word hlow (Nat.le_add_right_of_le hhigh)
  rw [coreStretches_eq]
  simp only [List.cons_append, List.nil_append, List.forall_mem_cons]
  refine ⟨hheader _ (by decide) (by decide), hheader _ (by decide) (by decide), ?_⟩
  intro stretch hstretch
  exact (within_of_mem_childStretches h stretch hstretch).mono (by decide) (Nat.le_refl _)

theorem pairwise_coreStretches (h : children.length ≤ maxChildren.toNat) :
    (coreStretches extended declared children maxChildren).Pairwise Stretch.Apart := by
  rw [coreStretches_eq]
  apply Stretch.pairwise_apart_append _ _ _ (within_of_mem_childStretches h)
  · exact 34
  · rw [List.pairwise_pair]
    exact Field.apart_stretch _ _ (Or.inl (by decide))
  · apply Stretch.pairwise_apart_flatMap_zipIdx
    · intro entry hentry
      exact ChildEntry.pairwise_stretches (index_lt_slots h hentry)
    · intro first _ second hsecond hless
      exact ChildEntry.apart_stretches hless (index_lt_slots h hsecond)
  · simp only [List.forall_mem_cons, List.not_mem_nil, false_implies, implies_true, and_true]
    exact ⟨Field.within_stretch _ (by decide) (by decide),
      Field.within_stretch _ (by decide) (by decide)⟩

/-- Children take no room in a block beyond the cells of the last one. -/
theorem forall_corePatches_iff {size : Nat} :
    (∀ patch ∈ corePatches extended declared children maxChildren, patch.stop ≤ size) ↔
      42 ≤ size ∧
        (children.length = 0 ∨
          46 + 4 * maxChildren.toNat + 8 * (children.length - 1) ≤ size) := by
  have hchildren : (∀ patch ∈ children.zipIdx.flatMap (ChildEntry.patches maxChildren),
      patch.stop ≤ size) ↔
      children.length = 0 ∨
        46 + 4 * maxChildren.toNat + 8 * (children.length - 1) ≤ size := by
    apply Patch.forall_flatMap_zipIdx_iff
    intro index hindex
    exact ChildEntry.forall_patches_iff maxChildren (children[index], index)
  have hextended : Core.extended.stop ≤ 42 := by decide
  have hcount : Core.childrenCount.stop = 42 := rfl
  simp only [corePatches, List.cons_append, List.nil_append, List.forall_mem_cons, hchildren,
    Field.patch, hcount]
  constructor
  · intro hall
    exact hall.2
  · intro hsize
    exact ⟨Nat.le_trans hextended hsize.1, hsize⟩

/-- Children that were placed apart from everything else are found again. -/
theorem Block.children_place {stretches : List Stretch} {data : Bytes}
    (hapart : stretches.Pairwise Stretch.Apart)
    (hmem : ∀ stretch ∈ coreStretches extended declared children maxChildren,
      stretch ∈ stretches)
    (hcount : Block.childCount (data.place stretches) maxChildren = children.length)
    (hsize : children.length = 0 ∨
      46 + 4 * maxChildren.toNat + 8 * (children.length - 1) ≤ data.size) :
    Block.children (data.place stretches) maxChildren = children := by
  apply List.ext_getElem
  · rw [Block.children, List.length_map, List.length_range, hcount]
  intro index _ hindex
  have hcell : 46 + 4 * maxChildren.toNat + 8 * index ≤ data.size := by omega
  simp only [Block.children, List.getElem_map, List.getElem_range]
  apply Block.child_place hapart _ hcell
  intro stretch hstretch
  apply hmem
  rw [coreStretches_eq, List.mem_append]
  exact Or.inr (mem_flatMap_zipIdx.mpr ⟨index, hindex, hstretch⟩)

end Core

/-! ## Intervals -/

namespace Interval

theorem stretches_patch (interval : Interval) (offset : Nat) :
    (interval.patch offset).stretches =
      [(Cell.start.relativeTo offset).stretch interval.start,
        (Cell.stop.relativeTo offset).stretch interval.stop,
        (Cell.attributeId.relativeTo offset).stretch interval.attributeId,
        (Cell.valueType.relativeTo offset).stretch interval.valueType.tag,
        (Cell.value.relativeTo offset).stretch interval.value] := rfl

theorem pairwise_patch (interval : Interval) (offset : Nat) :
    (interval.patch offset).stretches.Pairwise Stretch.Apart := by
  have hbefore {α β : Type} [LittleEndian α] [LittleEndian β] {left : Field α}
      {right : Field β} (leftWord : α) (rightWord : β) (h : left.stop ≤ right.offset) :
      ((left.relativeTo offset).stretch leftWord).Before
        ((right.relativeTo offset).stretch rightWord) := by
    apply Field.before_stretch
    rw [Field.stop_relativeTo]
    exact Nat.add_le_add_left h offset
  apply Stretch.pairwise_apart_of_isChain
  simp only [stretches_patch, List.isChain_cons_cons, List.isChain_singleton, and_true]
  exact ⟨hbefore _ _ (by decide), hbefore _ _ (by decide), hbefore _ _ (by decide),
    hbefore _ _ (by decide)⟩

theorem within_of_mem_patch (interval : Interval) (offset : Nat) :
    ∀ stretch ∈ (interval.patch offset).stretches, stretch.Within offset (offset + 25) := by
  intro stretch hstretch
  refine ⟨?_, (interval.patch offset).stop_le stretch hstretch⟩
  have hlow {α : Type} [LittleEndian α] (field : Field α) (word : α) :
      offset ≤ ((field.relativeTo offset).stretch word).offset := Nat.le_add_right offset _
  revert stretch
  simp only [stretches_patch, List.forall_mem_cons]
  exact ⟨hlow _ _, hlow _ _, hlow _ _, hlow _ _, hlow _ _, List.forall_mem_nil _⟩

end Interval

/-- An interval that was placed apart from everything else is found again. -/
theorem Block.interval_place {interval : Interval} {offset : Nat} {stretches : List Stretch}
    {data : Bytes} (hapart : stretches.Pairwise Stretch.Apart)
    (hmem : ∀ stretch ∈ (interval.patch offset).stretches, stretch ∈ stretches)
    (hsize : offset + 25 ≤ data.size)
    (hvalueType : ValueType.ofTag interval.valueType.tag = interval.valueType) :
    Block.interval (data.place stretches) offset = interval := by
  have hfits {α : Type} [LittleEndian α] {field : Field α} (h : field.stop ≤ 25) :
      (field.relativeTo offset).stop ≤ data.size := by
    rw [Field.stop_relativeTo]
    exact Nat.le_trans (Nat.add_le_add_left h offset) hsize
  simp only [Interval.stretches_patch, List.forall_mem_cons] at hmem
  obtain ⟨hstart, hstop, hattribute, htag, hvalue, -⟩ := hmem
  have hstart : Bytes.wordAt (data.place stretches) offset = interval.start :=
    Field.wordAt_place (Cell.start.relativeTo offset) hapart hstart (hfits (by decide))
  have hstop : Bytes.wordAt (data.place stretches) (offset + 8) = interval.stop :=
    Field.wordAt_place (Cell.stop.relativeTo offset) hapart hstop (hfits (by decide))
  have hattribute : Bytes.wordAt (data.place stretches) (offset + 16) = interval.attributeId :=
    Field.wordAt_place (Cell.attributeId.relativeTo offset) hapart hattribute
      (hfits (by decide))
  have htag : Bytes.byteAt (data.place stretches) (offset + 20) = interval.valueType.tag :=
    Field.byteAt_place (Cell.valueType.relativeTo offset) hapart htag (hfits (by decide))
  have hvalue : Bytes.wordAt (data.place stretches) (offset + 21) = interval.value :=
    Field.wordAt_place (Cell.value.relativeTo offset) hapart hvalue (hfits (by decide))
  rw [Block.interval, hstart, hstop, hattribute, htag, hvalue, hvalueType]

section Cells

variable {intervals : List Interval} {base : Nat}

def cellStretches (intervals : List Interval) (base : Nat) : List Stretch :=
  (intervalPatches intervals base).flatMap Patch.stretches

theorem cellStretches_eq (intervals : List Interval) (base : Nat) :
    cellStretches intervals base =
      intervals.zipIdx.flatMap fun entry => (entry.1.patch (base + 25 * entry.2)).stretches := by
  rw [cellStretches, intervalPatches, List.flatMap_assoc]
  simp only [List.flatMap_singleton]

theorem within_of_mem_cellStretches :
    ∀ stretch ∈ cellStretches intervals base,
      stretch.Within base (base + 25 * intervals.length) := by
  intro stretch hstretch
  rw [cellStretches_eq] at hstretch
  obtain ⟨index, hindex, hmem⟩ := mem_flatMap_zipIdx.mp hstretch
  have hwithin := intervals[index].within_of_mem_patch (base + 25 * index) stretch hmem
  exact hwithin.mono (Nat.le_add_right base _) (by omega)

theorem pairwise_cellStretches : (cellStretches intervals base).Pairwise Stretch.Apart := by
  rw [cellStretches_eq]
  apply Stretch.pairwise_apart_flatMap_zipIdx
  · intro entry _
    exact entry.1.pairwise_patch _
  · intro first _ second _ hless left hleft right hright
    have hfirst := first.1.within_of_mem_patch _ left hleft
    have hsecond := second.1.within_of_mem_patch _ right hright
    exact (hfirst.mono (Nat.le_refl _) (by omega)).apart hsecond

theorem forall_intervalPatches_iff {size : Nat} :
    (∀ patch ∈ intervalPatches intervals base, patch.stop ≤ size) ↔
      intervals.length = 0 ∨ base + 25 * intervals.length ≤ size := by
  have hround (index : Nat) (h : index < intervals.length) :
      (∀ patch ∈ [intervals[index].patch (base + 25 * index)], patch.stop ≤ size) ↔
        base + 25 + 25 * index ≤ size := by
    rw [List.forall_mem_singleton, Nat.add_right_comm]
    rfl
  rw [intervalPatches, Patch.forall_flatMap_zipIdx_iff hround]
  omega

/-- Intervals that were placed apart from everything else are found again. -/
theorem Block.intervals_place {stretches : List Stretch} {data : Bytes}
    (hapart : stretches.Pairwise Stretch.Apart)
    (hmem : ∀ stretch ∈ cellStretches intervals base, stretch ∈ stretches)
    (hcount : Block.intervalCount (data.place stretches) = intervals.length)
    (hsize : intervals.length = 0 ∨ base + 25 * intervals.length ≤ data.size)
    (hvalueType : ∀ interval ∈ intervals,
      ValueType.ofTag interval.valueType.tag = interval.valueType) :
    Block.intervals (data.place stretches) base = intervals := by
  apply List.ext_getElem
  · rw [Block.intervals, List.length_map, List.length_range, hcount]
  intro index _ hindex
  have hcell : base + 25 * index + 25 ≤ data.size := by omega
  simp only [Block.intervals, List.getElem_map, List.getElem_range]
  apply Block.interval_place hapart _ hcell (hvalueType _ (List.getElem_mem hindex))
  intro stretch hstretch
  apply hmem
  rw [cellStretches_eq]
  exact mem_flatMap_zipIdx.mpr ⟨index, hindex, hstretch⟩

end Cells

end HistoryTree
