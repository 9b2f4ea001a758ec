import HistoryTree.Proofs.Block.Room
import HistoryTree.Proofs.Format.Parts

/-!
# What comes of encoding a record

A record whose header is that of its kind is encoded exactly if its children have slots and
the block has the least size for it. Otherwise the children are too many or the block is too
short, and too short even for a common header comes first (`encodeBlock_outcome`). In the
block, only bytes that fields are written to differ from zero.
-/

namespace HistoryTree

open Layout

namespace NodeRecord

variable {record : NodeRecord} {maxChildren : UInt32} {block : Bytes} {position : Nat}

/-- The record has the header of its kind. Its lists may be of any length, whatever the
counts in its headers. -/
inductive Coherent (record : NodeRecord) : Prop where
  | core (extended : Bool) (declared : UInt32) (kind : record.kind = .core)
      (specific : record.specific = .core extended declared)
  | leaf (kind : record.kind = .leaf) (specific : record.specific = .leaf)
  | unknown (tag : UInt8) (kind : record.kind = .unknown tag)
      (specific : record.specific = .unknown)

/-- A core node with more children than slots. Children of other kinds are not written. -/
def Crowded (record : NodeRecord) (maxChildren : UInt32) : Prop :=
  record.kind = .core ∧ maxChildren.toNat < record.children.length

/-- Where the start of the last child ends, if there are children. -/
def childrenStop (record : NodeRecord) (maxChildren : UInt32) : Nat :=
  if record.children.length = 0 then 0
  else 46 + 4 * maxChildren.toNat + 8 * (record.children.length - 1)

/-- Where the last interval of a core node ends, if there are intervals. -/
def coreCellsStop (record : NodeRecord) (maxChildren : UInt32) : Nat :=
  if record.intervals.length = 0 then 0
  else 42 + 12 * maxChildren.toNat + 25 * record.intervals.length

/-- The size of the smallest block that has room for the record. -/
def leastSize (record : NodeRecord) (maxChildren : UInt32) : Nat :=
  match record.kind with
  | .core => max 42 (max (record.childrenStop maxChildren) (record.coreCellsStop maxChildren))
  | .leaf => 34 + 25 * record.intervals.length
  | .unknown _ => 34

/-! ## The least size -/

theorem leastSize_core (h : record.kind = .core) :
    record.leastSize maxChildren =
      max 42 (max (record.childrenStop maxChildren) (record.coreCellsStop maxChildren)) := by
  rw [leastSize, h]

theorem leastSize_leaf (h : record.kind = .leaf) :
    record.leastSize maxChildren = 34 + 25 * record.intervals.length := by
  rw [leastSize, h]

theorem leastSize_unknown {tag : UInt8} (h : record.kind = .unknown tag) :
    record.leastSize maxChildren = 34 := by
  rw [leastSize, h]

theorem le_leastSize (record : NodeRecord) (maxChildren : UInt32) :
    34 ≤ record.leastSize maxChildren := by
  rw [leastSize]
  split <;> omega

/-- All that is written for a record lies below its least size, and no smaller block has
room for it. -/
theorem Coherent.forall_patches_iff (h : record.Coherent) {size : Nat} :
    (∀ patch ∈ record.patches maxChildren, patch.stop ≤ size) ↔
      record.leastSize maxChildren ≤ size := by
  cases h with
  | core extended declared kind specific =>
    rw [forall_patches_core_iff kind specific, leastSize_core kind, childrenStop, coreCellsStop]
    split <;> split <;> omega
  | leaf kind specific =>
    rw [forall_patches_leaf_iff kind specific, leastSize_leaf kind]
    omega
  | unknown tag kind specific =>
    rw [forall_patches_unknown_iff kind specific, leastSize_unknown kind]

/-! ## Failures -/

theorem Coherent.hasSlots (h : record.Coherent) (hfew : ¬ record.Crowded maxChildren) :
    record.HasSlots maxChildren := by
  intro extended count hspecific
  cases h with
  | core _ _ kind => exact Nat.not_lt.mp fun hmany => hfew ⟨kind, hmany⟩
  | leaf _ specific => rw [specific] at hspecific; contradiction
  | unknown _ _ specific => rw [specific] at hspecific; contradiction

/-- A block that is too short for a common header is found so before children are counted. -/
theorem exists_write_eq_error_of_lt (record : NodeRecord) (maxChildren : UInt32)
    (hshort : block.size < 34) :
    ∃ field needed,
      record.write maxChildren block =
        .error (.doesNotFit (.truncatedInput field needed block.size)) ∧
      block.size < needed := by
  cases hcommon : Patch.applyAll record.toCommonHeader.patches block with
  | ok written =>
    have hsize := (record.toCommonHeader.forall_patches_iff _).mp
      (Patch.applyAll_eq_ok_iff.mp hcommon).1
    exact absurd hsize (Nat.not_le.mpr hshort)
  | error cause =>
    obtain ⟨patch, -, hstop, rfl⟩ := Patch.exists_of_applyAll_eq_error hcommon
    have hlast : block.size < Address.last := Nat.lt_trans hshort (by decide)
    refine ⟨patch.field, Address.clamp patch.stop, ?_, Nat.lt_min.mpr ⟨hstop, hlast⟩⟩
    rw [write, CommonHeader.write_eq_applyAll, hcommon]
    rfl

/-- In a block with room for a common header, children without a slot are the failure. -/
theorem write_eq_error_of_crowded (h : record.Coherent) (hcrowded : record.Crowded maxChildren)
    (hsize : 34 ≤ block.size) :
    record.write maxChildren block =
      .error (.tooManyChildren record.children.length maxChildren) := by
  obtain ⟨hkind, hmany⟩ := hcrowded
  cases h with
  | core extended declared kind specific =>
    have hcommon := Patch.applyAll_eq_ok_iff.mpr
      ⟨(record.toCommonHeader.forall_patches_iff block.size).mpr hsize, rfl⟩
    rw [write, CommonHeader.write_eq_applyAll, hcommon]
    simp only [writeSpecific, specific, if_pos hmany]
    rfl
  | leaf kind => rw [kind] at hkind; contradiction
  | unknown tag kind => rw [kind] at hkind; contradiction

/-! ## The bytes that are written -/

/-- A field of the record is written to the byte at `position`. -/
def WrittenAt (record : NodeRecord) (maxChildren : UInt32) (position : Nat) : Prop :=
  FieldAt record.kind maxChildren record.children.length record.intervals.length position

theorem writtenAt_of_common :
    ∀ stretch ∈ record.toCommonHeader.stretches,
      stretch.Covers position → record.WrittenAt maxChildren position := by
  simp only [CommonHeader.stretches_eq, List.forall_mem_cons, Field.covers_stretch_iff,
    Field.stop, LittleEndian.width_byte, LittleEndian.width_word, Common.typeTag, Common.start,
    Common.stop, Common.seqNumber, Common.parentSeqNumber, Common.intervalCount,
    Common.varDataOffset, Common.done]
  refine ⟨?_, ?_, ?_, ?_, ?_, ?_, ?_, ?_, List.forall_mem_nil _⟩ <;>
    exact fun hcovers => .common (by omega)

theorem writtenAt_of_child (hkind : record.kind = .core) {entry : ChildEntry × Nat}
    (held : entry.2 < record.children.length) :
    ∀ stretch ∈ ChildEntry.stretches maxChildren entry,
      stretch.Covers position → record.WrittenAt maxChildren position := by
  simp only [ChildEntry.stretches_eq, List.forall_mem_cons, Field.covers_stretch_iff]
  exact ⟨.childSeq hkind entry.2 held, .childStart hkind entry.2 held, List.forall_mem_nil _⟩

theorem writtenAt_of_core (hkind : record.kind = .core) (extended : Bool) (declared : UInt32) :
    ∀ stretch ∈ coreStretches extended declared record.children maxChildren,
      stretch.Covers position → record.WrittenAt maxChildren position := by
  have hchildren : ∀ stretch ∈ record.children.zipIdx.flatMap (ChildEntry.stretches maxChildren),
      stretch.Covers position → record.WrittenAt maxChildren position := by
    intro stretch hmem
    obtain ⟨index, hindex, hcell⟩ := mem_flatMap_zipIdx.mp hmem
    exact writtenAt_of_child hkind hindex stretch hcell
  rw [coreStretches_eq]
  simp only [List.cons_append, List.nil_append, List.forall_mem_cons, Field.covers_stretch_iff,
    Field.stop, LittleEndian.width_word, Core.extended, Core.childrenCount]
  refine ⟨?_, ?_, hchildren⟩ <;> exact fun hcovers => .coreHeader hkind (by omega)

theorem writtenAt_of_interval {base index : Nat}
    (hbase : intervalsBase? record.kind maxChildren = some base) (interval : Interval)
    (held : index < record.intervals.length) :
    ∀ stretch ∈ (interval.patch (base + 25 * index)).stretches,
      stretch.Covers position → record.WrittenAt maxChildren position := by
  simp only [Interval.stretches_patch, List.forall_mem_cons, Field.covers_stretch_iff, Field.stop,
    Field.relativeTo, LittleEndian.width_byte, LittleEndian.width_word, Cell.start, Cell.stop,
    Cell.attributeId, Cell.valueType, Cell.value]
  refine ⟨?_, ?_, ?_, ?_, ?_, List.forall_mem_nil _⟩ <;>
    exact fun hcovers => .interval base hbase index held (by omega)

theorem writtenAt_of_cells {base : Nat}
    (hbase : intervalsBase? record.kind maxChildren = some base) :
    ∀ stretch ∈ cellStretches record.intervals base,
      stretch.Covers position → record.WrittenAt maxChildren position := by
  intro stretch hmem
  rw [cellStretches_eq] at hmem
  obtain ⟨index, hindex, hcell⟩ := mem_flatMap_zipIdx.mp hmem
  exact writtenAt_of_interval hbase _ hindex stretch hcell

theorem Coherent.writtenAt_of_covers (h : record.Coherent) :
    ∀ stretch ∈ record.stretches maxChildren,
      stretch.Covers position → record.WrittenAt maxChildren position := by
  cases h with
  | core extended declared kind specific =>
    have hbase : intervalsBase? record.kind maxChildren = some (42 + 12 * maxChildren.toNat) := by
      rw [kind, intervalsBase?_core]
    rw [stretches_core kind specific, List.forall_mem_append, List.forall_mem_append]
    exact ⟨writtenAt_of_common, writtenAt_of_core kind extended declared,
      writtenAt_of_cells hbase⟩
  | leaf kind specific =>
    have hbase : intervalsBase? record.kind maxChildren = some 34 := by
      rw [kind, intervalsBase?_leaf]
    rw [stretches_leaf kind specific, List.forall_mem_append]
    exact ⟨writtenAt_of_common, writtenAt_of_cells hbase⟩
  | unknown tag kind specific =>
    rw [stretches_unknown kind specific]
    exact writtenAt_of_common

end NodeRecord

/-! ## Outcomes -/

/-- What comes of encoding a record into a block of `size` bytes. -/
structure NodeRecord.Outcome (record : NodeRecord) (size : Nat) (maxChildren : UInt32)
    (result : Except EncodeError Bytes) : Prop where
  crowded (room : 34 ≤ size) (many : record.Crowded maxChildren) :
    result = .error (.tooManyChildren record.children.length maxChildren)
  succeeds_iff (other : ¬ (34 ≤ size ∧ record.Crowded maxChildren)) :
    (∃ block, result = .ok block) ↔ record.leastSize maxChildren ≤ size
  truncated (other : ¬ (34 ≤ size ∧ record.Crowded maxChildren)) (cause : EncodeError)
    (fails : result = .error cause) :
    ∃ field needed, cause = .doesNotFit (.truncatedInput field needed size) ∧ size < needed
  size_eq (block : Bytes) (succeeds : result = .ok block) : block.size = size
  zero (block : Bytes) (succeeds : result = .ok block) (position : Nat)
    (free : ¬ record.WrittenAt maxChildren position) : block.byteAt position = 0

section Outcome

variable {record : NodeRecord} {maxChildren : UInt32} {blockSize : UInt32}

theorem NodeRecord.Coherent.encodeBlock_eq_ok_iff (h : record.Coherent) {block : Bytes} :
    encodeBlock record [] blockSize maxChildren = .ok block ↔
      record.HasSlots maxChildren ∧ record.leastSize maxChildren ≤ blockSize.toNat ∧
        block = (Bytes.zeros blockSize.toNat).place (record.stretches maxChildren) := by
  rw [NodeRecord.encodeBlock_nil, NodeRecord.write_eq_ok_iff (Bytes.size_zeros_le_last blockSize),
    h.forall_patches_iff, Bytes.size_zeros, NodeRecord.stretches]

/-- A failure for any other reason than too many children is a truncation. -/
theorem NodeRecord.Coherent.truncated_of_encodeBlock (h : record.Coherent)
    (hother : ¬ (34 ≤ blockSize.toNat ∧ record.Crowded maxChildren)) {cause : EncodeError}
    (hfails : encodeBlock record [] blockSize maxChildren = .error cause) :
    ∃ field needed, cause = .doesNotFit (.truncatedInput field needed blockSize.toNat) ∧
      blockSize.toNat < needed := by
  have hsize : (Bytes.zeros blockSize.toNat).size = blockSize.toNat := Bytes.size_zeros _
  rw [NodeRecord.encodeBlock_nil] at hfails
  rw [← hsize] at hother ⊢
  rcases Nat.lt_or_ge (Bytes.zeros blockSize.toNat).size 34 with hshort | hroom
  · obtain ⟨field, needed, hwrite, hneeded⟩ :=
      NodeRecord.exists_write_eq_error_of_lt record maxChildren hshort
    rw [hwrite] at hfails
    exact ⟨field, needed, (Except.error.inj hfails).symm, hneeded⟩
  · have hslots := h.hasSlots fun hcrowded => hother ⟨hroom, hcrowded⟩
    have hlast : (Bytes.zeros blockSize.toNat).size < Address.last :=
      hsize.symm ▸ Address.toNat_lt_last blockSize
    exact NodeRecord.truncated_of_write_eq_error hslots hlast hfails

/-- The sizes of the lists of a record and of the block decide what comes of encoding it. -/
theorem encodeBlock_outcome (h : record.Coherent) (blockSize maxChildren : UInt32) :
    record.Outcome blockSize.toNat maxChildren (encodeBlock record [] blockSize maxChildren) where
  crowded hroom hmany := by
    rw [NodeRecord.encodeBlock_nil]
    exact NodeRecord.write_eq_error_of_crowded h hmany ((Bytes.size_zeros _).symm ▸ hroom)
  succeeds_iff hother := by
    simp only [h.encodeBlock_eq_ok_iff, exists_and_left, exists_eq, and_true]
    refine and_iff_right_of_imp fun hsize => h.hasSlots fun hcrowded => hother ⟨?_, hcrowded⟩
    exact Nat.le_trans (record.le_leastSize maxChildren) hsize
  truncated hother cause hfails := h.truncated_of_encodeBlock hother hfails
  size_eq block hblock := by
    rw [(h.encodeBlock_eq_ok_iff.mp hblock).2.2, Bytes.size_place, Bytes.size_zeros]
  zero block hblock position hfree := by
    rw [(h.encodeBlock_eq_ok_iff.mp hblock).2.2, Bytes.byteAt_place_of_not_covers,
      Bytes.byteAt_zeros]
    intro stretch hmem hcovers
    exact hfree (h.writtenAt_of_covers stretch hmem hcovers)

/-- `crowdedNode` declares more children than it lists. It takes 79 bytes with one slot, and
without slots it is refused unless the block is too short for any node. -/
theorem encodeBlock_outcome_crowdedNode :
    crowdedNode.Coherent ∧
      (∃ block, encodeBlock crowdedNode [] 79 1 = .ok block) ∧
      (¬ ∃ block, encodeBlock crowdedNode [] 78 1 = .ok block) ∧
      encodeBlock crowdedNode [] 34 0 = .error (.tooManyChildren 1 0) ∧
      ∀ cause, encodeBlock crowdedNode [] 33 0 = .error cause →
        ∃ field needed, cause = .doesNotFit (.truncatedInput field needed 33) ∧ 33 < needed := by
  have hcoherent : crowdedNode.Coherent := .core true 4 rfl rfl
  have hslot : ¬ crowdedNode.Crowded 1 := fun hcrowded => absurd hcrowded.2 (by decide)
  have hnoSlot : crowdedNode.Crowded 0 := ⟨rfl, by decide⟩
  refine ⟨hcoherent, ?_, ?_, ?_, ?_⟩
  · exact ((encodeBlock_outcome hcoherent 79 1).succeeds_iff fun h => hslot h.2).mpr (by decide)
  · rw [(encodeBlock_outcome hcoherent 78 1).succeeds_iff fun h => hslot h.2]
    decide
  · exact (encodeBlock_outcome hcoherent 34 0).crowded (by decide) hnoSlot
  · exact (encodeBlock_outcome hcoherent 33 0).truncated fun h => absurd h.1 (by decide)

end Outcome

end HistoryTree
