import HistoryTree.Block.Encode
import HistoryTree.Proofs.Bytes.Patch
import HistoryTree.Proofs.Format.Offsets

/-!
# Encoding as a run of patches

What encoding a record writes, as one list of patches in the order of writing. A
record is encoded exactly when its children have slots and every patch fits in the
block, which then is the initial one with all stretches placed
(`NodeRecord.write_eq_ok_iff`).
-/

namespace HistoryTree

open Layout

/-! ## The common header -/

namespace CommonHeader

def patches (common : CommonHeader) : List Patch :=
  [Common.typeTag.patch common.kind.tag,
    Common.start.patch common.start,
    Common.stop.patch common.stop,
    Common.seqNumber.patch common.seqNumber.value,
    Common.parentSeqNumber.patch common.parent.toRaw,
    Common.intervalCount.patch common.intervalCount,
    Common.varDataOffset.patch common.varDataOffset,
    Common.done.patch (if common.done then 1 else 0)]

theorem write_eq_applyAll (common : CommonHeader) (block : Bytes) :
    common.write block = Patch.applyAll common.patches block := by
  simp only [write, patches, Field.write_eq_apply, Patch.applyAll_cons,
    Patch.applyAll_nil, bind_pure]

end CommonHeader

/-! ## Children -/

namespace ChildEntry

/-- The cell of the number of child `index`. -/
def seqField (index : Nat) : Field UInt32 :=
  ⟨"child seq number", 42 + 4 * index⟩

/-- The low half of the cell of the start of child `index`. -/
def startField (maxChildren : UInt32) (index : Nat) : Field UInt32 :=
  ⟨"child start", 42 + 4 * maxChildren.toNat + 8 * index⟩

def patches (maxChildren : UInt32) (entry : ChildEntry × Nat) : List Patch :=
  [(seqField entry.2).patch entry.1.seqNumber.value,
    (startField maxChildren entry.2).patch entry.1.start]

theorem write_eq_applyAll (child : ChildEntry) {maxChildren : UInt32} {index : Nat}
    (block : Bytes) (h : index < maxChildren.toNat) :
    child.write maxChildren index block =
      Patch.applyAll (patches maxChildren (child, index)) block := by
  have hword : index < UInt32.size := Nat.lt_trans h maxChildren.toNat_lt_size
  simp only [write, childSeqOffset?_eq hword, childStartOffset?_eq maxChildren hword,
    Bytes.addressed_some, ok_bind, patches, Field.write_eq_apply, Patch.applyAll_cons,
    Patch.applyAll_nil, bind_pure]
  rfl

end ChildEntry

/-- The patches of the core header and of the children. -/
def corePatches (extended : Bool) (childrenCount : UInt32) (children : List ChildEntry)
    (maxChildren : UInt32) : List Patch :=
  [Core.extended.patch (if extended then 1 else 0), Core.childrenCount.patch childrenCount] ++
    children.zipIdx.flatMap (ChildEntry.patches maxChildren)

theorem writeCore_eq_applyAll (extended : Bool) (childrenCount : UInt32)
    {children : List ChildEntry} {maxChildren : UInt32} (block : Bytes)
    (h : children.length ≤ maxChildren.toNat) :
    writeCore extended childrenCount children maxChildren block =
      Patch.applyAll (corePatches extended childrenCount children maxChildren) block := by
  have hloop (block : Bytes) :
      children.zipIdx.foldlM (fun block entry => entry.1.write maxChildren entry.2 block) block =
        Patch.applyAll (children.zipIdx.flatMap (ChildEntry.patches maxChildren)) block := by
    rw [← Patch.foldlM_applyAll]
    apply foldlM_congr (fun _ => True) trivial
    · intro entry hentry block _
      have hindex : entry.2 < children.length := (List.mem_zipIdx' hentry).1
      exact entry.1.write_eq_applyAll block (Nat.lt_of_lt_of_le hindex h)
    · exact fun _ _ _ _ _ _ => trivial
  simp only [writeCore, corePatches, Field.write_eq_apply, hloop, Patch.applyAll_append,
    Patch.applyAll_cons, Patch.applyAll_nil, bind_pure, bind_assoc]

/-! ## Intervals -/

namespace Interval

/-- An interval takes its whole cell or is not written. -/
def patch (interval : Interval) (offset : Nat) : Patch where
  field := "interval"
  stop := offset + 25
  stretches :=
    [(Cell.start.relativeTo offset).stretch interval.start,
      (Cell.stop.relativeTo offset).stretch interval.stop,
      (Cell.attributeId.relativeTo offset).stretch interval.attributeId,
      (Cell.valueType.relativeTo offset).stretch interval.valueType.tag,
      (Cell.value.relativeTo offset).stretch interval.value]
  stop_le := by
    have hstop {α : Type} [LittleEndian α] (field : Field α) (word : α) (h : field.stop ≤ 25) :
        ((field.relativeTo offset).stretch word).stop ≤ offset + 25 := by
      rw [Field.stop_stretch, Field.stop_relativeTo]
      exact Nat.add_le_add_left h offset
    simp only [List.forall_mem_cons]
    exact ⟨hstop _ _ (by decide), hstop _ _ (by decide), hstop _ _ (by decide),
      hstop _ _ (by decide), hstop _ _ (by decide), List.forall_mem_nil _⟩

theorem write_eq_apply (interval : Interval) (offset : Nat) (block : Bytes) :
    interval.write offset block = (interval.patch offset).apply block := by
  rw [write, Patch.apply]
  by_cases hcell : (interval.patch offset).stop ≤ block.size
  · have hregion : block.region "interval" offset intervalSize =
        .ok (block.extract offset (offset + intervalSize)) :=
      Bytes.region_eq_ok_iff.mpr ⟨hcell, rfl⟩
    have hwrite {α : Type} [LittleEndian α] (field : Field α) (data : Bytes) (word : α)
        (hfield : field.stop ≤ 25) (hsize : data.size = block.size) :
        (field.relativeTo offset).write data word =
          .ok (data.overwrite (offset + field.offset) (LittleEndian.toBytes word)) := by
      have hstop : (field.relativeTo offset).stop ≤ data.size := by
        rw [Field.stop_relativeTo, hsize]
        exact Nat.le_trans (Nat.add_le_add_left hfield offset) hcell
      rw [Field.write_eq, if_pos hstop]
      rfl
    rw [if_pos hcell, hregion, ok_bind, hwrite Cell.start _ _ (by decide) rfl, ok_bind,
      hwrite Cell.stop _ _ (by decide) (by simp), ok_bind,
      hwrite Cell.attributeId _ _ (by decide) (by simp), ok_bind,
      hwrite Cell.valueType _ _ (by decide) (by simp), ok_bind,
      hwrite Cell.value _ _ (by decide) (by simp)]
    rfl
  · have hregion : block.region "interval" offset intervalSize =
        .error (block.truncated "interval" (offset + 25)) := if_neg hcell
    rw [if_neg hcell, hregion]
    rfl

end Interval

def intervalPatches (intervals : List Interval) (base : Nat) : List Patch :=
  intervals.zipIdx.flatMap fun entry => [entry.1.patch (base + 25 * entry.2)]

/-- A cell whose offset is no address lies past the end of the block, and fails as any
such cell does. -/
theorem Interval.write_addressed (interval : Interval) (base index : Nat) {block : Bytes}
    (hsize : block.size ≤ Address.last) :
    (do
      let offset ← block.addressed "interval" (Address.add? base (index * intervalSize))
      interval.write offset block) = (interval.patch (base + 25 * index)).apply block := by
  rw [intervalSize, Nat.mul_comm index]
  by_cases haddress : base + 25 * index ≤ Address.last
  · rw [Address.add?_of_le haddress, Bytes.addressed_some, ok_bind]
    exact interval.write_eq_apply (base + 25 * index) block
  · have hnone : Address.add? base (25 * index) = none := if_neg haddress
    have hpast : ¬ base + 25 * index + 25 ≤ block.size := by omega
    have hlast : Address.clamp (base + 25 * index + 25) = Address.last :=
      Nat.min_eq_right (by omega)
    rw [hnone, Patch.apply]
    change Except.error _ = if base + 25 * index + 25 ≤ block.size then _ else _
    rw [if_neg hpast, patch, Bytes.truncated, hlast]

theorem writeIntervals_eq_applyAll (intervals : List Interval) (base : Nat) {block : Bytes}
    (hsize : block.size ≤ Address.last) :
    writeIntervals intervals base block =
      Patch.applyAll (intervalPatches intervals base) block := by
  rw [writeIntervals, intervalPatches, ← Patch.foldlM_applyAll]
  simp only [Patch.applyAll_singleton]
  apply foldlM_congr (fun block => block.size ≤ Address.last) hsize
  · intro entry _ block hblock
    exact entry.1.write_addressed base entry.2 hblock
  · intro entry _ block next hblock hnext
    rwa [Patch.size_of_apply hnext]

/-! ## Records -/

namespace NodeRecord

/-- A core node has no more children than there are slots. -/
def HasSlots (record : NodeRecord) (maxChildren : UInt32) : Prop :=
  ∀ extended count, record.specific = .core extended count →
    record.children.length ≤ maxChildren.toNat

def specificPatches (record : NodeRecord) (maxChildren : UInt32) : List Patch :=
  match record.specific with
  | .core extended count => corePatches extended count record.children maxChildren
  | .leaf | .unknown => []

def cellPatches (record : NodeRecord) (maxChildren : UInt32) : List Patch :=
  match intervalsBase? record.kind maxChildren with
  | some base => intervalPatches record.intervals base
  | none => []

/-- All that is written for a record, in the order of writing. -/
def patches (record : NodeRecord) (maxChildren : UInt32) : List Patch :=
  record.toCommonHeader.patches ++ record.specificPatches maxChildren ++
    record.cellPatches maxChildren

/-- Writes the part of a block that depends on the kind of header. -/
def writeSpecific (record : NodeRecord) (maxChildren : UInt32) (block : Bytes) :
    Except EncodeError Bytes :=
  match record.specific with
  | .core extended childrenCount =>
    if maxChildren.toNat < record.children.length then
      throw (.tooManyChildren record.children.length maxChildren)
    else
      (writeCore extended childrenCount record.children maxChildren block).mapError .doesNotFit
  | .leaf | .unknown => pure block

/-- Writes the intervals, for the kinds that have a place for them. -/
def writeCells (record : NodeRecord) (maxChildren : UInt32) (block : Bytes) :
    Except EncodeError Bytes :=
  match intervalsBase? record.kind maxChildren with
  | some base => (writeIntervals record.intervals base block).mapError .doesNotFit
  | none => pure block

/-- Writes a record over the bytes of a block. -/
def write (record : NodeRecord) (maxChildren : UInt32) (block : Bytes) :
    Except EncodeError Bytes := do
  let block ← (record.toCommonHeader.write block).mapError .doesNotFit
  let block ← record.writeSpecific maxChildren block
  record.writeCells maxChildren block

/-- The record as it is written when strings have been stored for it. -/
def withStrings (record : NodeRecord) (area : StringArea) : NodeRecord :=
  { record with varDataOffset := area.varDataOffset, intervals := area.intervals }

/-- Encoding stores the strings and writes the record over them. -/
theorem encodeBlock_eq (record : NodeRecord) (strings : List StoredString)
    (blockSize maxChildren : UInt32) :
    encodeBlock record strings blockSize maxChildren =
      strings.foldlM StringArea.store (.ofRecord record blockSize) >>= fun area =>
        (record.withStrings area).write maxChildren area.block := by
  rw [encodeBlock]
  congr 1
  funext area
  simp only [write, writeSpecific]
  cases hspecific : record.specific with
  | core extended count =>
    simp only [withStrings, hspecific]
    split <;> rfl
  | leaf => simp only [withStrings, hspecific]; rfl
  | unknown => simp only [withStrings, hspecific]; rfl

/-- Without strings, a record is written over zeros. -/
theorem encodeBlock_nil (record : NodeRecord) (blockSize maxChildren : UInt32) :
    encodeBlock record [] blockSize maxChildren =
      record.write maxChildren (Bytes.zeros blockSize.toNat) := by
  rw [encodeBlock_eq]
  rfl

theorem writeSpecific_eq_applyAll {record : NodeRecord} {maxChildren : UInt32}
    (block : Bytes) (hslots : record.HasSlots maxChildren) :
    record.writeSpecific maxChildren block =
      (Patch.applyAll (record.specificPatches maxChildren) block).mapError .doesNotFit := by
  rw [writeSpecific, specificPatches]
  cases hspecific : record.specific with
  | core extended count =>
    have hchildren := hslots extended count hspecific
    simp only [Nat.not_lt.mpr hchildren, if_false]
    rw [writeCore_eq_applyAll extended count block hchildren]
  | leaf => rfl
  | unknown => rfl

theorem writeCells_eq_applyAll {record : NodeRecord} {maxChildren : UInt32} {block : Bytes}
    (hsize : block.size ≤ Address.last) :
    record.writeCells maxChildren block =
      (Patch.applyAll (record.cellPatches maxChildren) block).mapError .doesNotFit := by
  rw [writeCells, cellPatches]
  cases intervalsBase? record.kind maxChildren with
  | some base => simp only [writeIntervals_eq_applyAll record.intervals base hsize]
  | none => rfl

/-- Writing a record applies its patches, if its children have slots. -/
theorem write_eq_applyAll {record : NodeRecord} {maxChildren : UInt32} {block : Bytes}
    (hslots : record.HasSlots maxChildren) (hsize : block.size ≤ Address.last) :
    record.write maxChildren block =
      (Patch.applyAll (record.patches maxChildren) block).mapError .doesNotFit := by
  have hheaders : (record.toCommonHeader.write block).mapError EncodeError.doesNotFit >>=
      (fun block => record.writeSpecific maxChildren block) =
        (Patch.applyAll (record.toCommonHeader.patches ++ record.specificPatches maxChildren)
          block).mapError .doesNotFit := by
    rw [CommonHeader.write_eq_applyAll, Patch.applyAll_append, mapError_bind]
    simp only [writeSpecific_eq_applyAll _ hslots]
  calc record.write maxChildren block
    _ = ((record.toCommonHeader.write block).mapError .doesNotFit >>=
          fun block => record.writeSpecific maxChildren block) >>=
          fun block => record.writeCells maxChildren block := by
      rw [write, bind_assoc]
    _ = (Patch.applyAll (record.toCommonHeader.patches ++ record.specificPatches maxChildren)
          block).mapError .doesNotFit >>=
          fun block => record.writeCells maxChildren block := by
      rw [hheaders]
    _ = (Patch.applyAll (record.toCommonHeader.patches ++ record.specificPatches maxChildren)
          block).mapError .doesNotFit >>= fun block =>
          (Patch.applyAll (record.cellPatches maxChildren) block).mapError .doesNotFit := by
      -- The cells are written to a block of the same size.
      cases hplaced : Patch.applyAll
          (record.toCommonHeader.patches ++ record.specificPatches maxChildren) block with
      | error cause => rfl
      | ok middle => exact writeCells_eq_applyAll (by rwa [Patch.size_of_applyAll hplaced])
    _ = (Patch.applyAll (record.patches maxChildren) block).mapError .doesNotFit := by
      rw [patches, Patch.applyAll_append _ (record.cellPatches maxChildren), mapError_bind]

/-- A record with too many children is not written. -/
theorem hasSlots_of_write {record : NodeRecord} {maxChildren : UInt32} {block result : Bytes}
    (h : record.write maxChildren block = .ok result) : record.HasSlots maxChildren := by
  intro extended count hspecific
  simp only [write, writeSpecific, hspecific, bind_eq_ok_iff] at h
  obtain ⟨_, -, _, hcore, -⟩ := h
  apply Nat.not_lt.mp
  intro hmany
  rw [if_pos hmany] at hcore
  contradiction

/-- A record is written exactly if its children have slots and all patches fit. -/
theorem write_eq_ok_iff {record : NodeRecord} {maxChildren : UInt32} {block result : Bytes}
    (hsize : block.size ≤ Address.last) :
    record.write maxChildren block = .ok result ↔
      record.HasSlots maxChildren ∧
        (∀ patch ∈ record.patches maxChildren, patch.stop ≤ block.size) ∧
        result = block.place ((record.patches maxChildren).flatMap Patch.stretches) := by
  constructor
  · intro hwrite
    have hslots := hasSlots_of_write hwrite
    rw [write_eq_applyAll hslots hsize, mapError_eq_ok_iff, Patch.applyAll_eq_ok_iff] at hwrite
    exact ⟨hslots, hwrite⟩
  · intro hwritten
    obtain ⟨hslots, hpatches⟩ := hwritten
    rw [write_eq_applyAll hslots hsize, mapError_eq_ok_iff, Patch.applyAll_eq_ok_iff]
    exact hpatches

end NodeRecord

end HistoryTree
