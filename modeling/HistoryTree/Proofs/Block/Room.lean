import HistoryTree.Proofs.Block.Strings

/-!
# Room for strings and for intervals

Strings are stored from the end of a block downwards, the record is written from its
start upwards, and either is held against the size of the block by itself
(`encodeBlock_room`). So the two may meet: then the record is written over the strings,
and nothing is reported (`encodeBlock_meetingLeaf`).
-/

namespace HistoryTree

open Layout

/-! ## Room for strings -/

namespace StringArea

variable {strings : List StoredString}

theorem length_intervals_below (area : StringArea) (string : StoredString)
    (interval : Interval) :
    (area.below string interval).intervals.length = area.intervals.length :=
  List.length_set

/-- If there is room for all strings, they are stored one below the other, also where
several are for the same interval. -/
theorem exists_foldlM_store (area : StringArea) (hcursor : area.cursor ≤ area.block.size)
    (hnamed : ∀ string ∈ strings, string.interval < area.intervals.length)
    (hroom : StoredString.totalSize strings ≤ area.cursor) :
    ∃ after, strings.foldlM store area = .ok after ∧
      after.block = area.block.place (StoredString.stretchesBelow area.cursor strings) ∧
      after.intervals.length = area.intervals.length := by
  induction strings generalizing area with
  | nil => exact ⟨area, rfl, rfl, rfl⟩
  | cons string rest ih =>
    rw [StoredString.totalSize_cons] at hroom
    rw [List.forall_mem_cons] at hnamed
    have hinterval : area.intervals[string.interval]? = some area.intervals[string.interval] :=
      List.getElem?_eq_getElem hnamed.1
    have hstore := store_eq_ok (by omega) hcursor hinterval
    obtain ⟨after, hafter, hblock, hlength⟩ :=
      ih (area.below string area.intervals[string.interval])
        (by rw [cursor_below, size_block_below]; omega)
        (by rw [length_intervals_below]; exact hnamed.2) (by rw [cursor_below]; omega)
    refine ⟨after, ?_, ?_, ?_⟩
    · rw [List.foldlM_cons, hstore, ok_bind, hafter]
    · rw [hblock, below, ← Bytes.place_append]
      rfl
    · rw [hlength, length_intervals_below]

/-- The first string without room below the others is the failure. -/
theorem foldlM_store_eq_error (area : StringArea) (hcursor : area.cursor ≤ area.block.size)
    (hnamed : ∀ string ∈ strings, string.interval < area.intervals.length)
    (hroom : area.cursor < StoredString.totalSize strings) :
    strings.foldlM store area =
      .error (.doesNotFit (.truncatedInput "string" Address.last area.block.size)) := by
  induction strings generalizing area with
  | nil => exact absurd hroom (Nat.not_lt_zero _)
  | cons string rest ih =>
    rw [StoredString.totalSize_cons] at hroom
    rw [List.forall_mem_cons] at hnamed
    rw [List.foldlM_cons]
    by_cases hfirst : string.size ≤ area.cursor
    · have hinterval : area.intervals[string.interval]? =
          some area.intervals[string.interval] := List.getElem?_eq_getElem hnamed.1
      rw [store_eq_ok hfirst hcursor hinterval, ok_bind,
        ih _ (by rw [cursor_below, size_block_below]; omega)
          (by rw [length_intervals_below]; exact hnamed.2) (by rw [cursor_below]; omega),
        size_block_below]
    · rw [store_eq_error (Nat.not_le.mp hfirst)]
      rfl

end StringArea

/-! ## Room for a record -/

namespace NodeRecord

/-- The record is that of a core node or of a leaf, and has the header of its kind. -/
inductive OfKnownKind (record : NodeRecord) : Prop where
  | core (extended : Bool) (declared : UInt32) (kind : record.kind = .core)
      (specific : record.specific = .core extended declared)
  | leaf (kind : record.kind = .leaf) (specific : record.specific = .leaf)

variable {record : NodeRecord} {maxChildren : UInt32} {base : Nat}

theorem OfKnownKind.withStrings (h : record.OfKnownKind) (area : StringArea) :
    (record.withStrings area).OfKnownKind := by
  cases h with
  | core extended declared kind specific => exact .core extended declared kind specific
  | leaf kind specific => exact .leaf kind specific

/-- Intervals lie behind all else, so there is room for the record if there is room for
its intervals. -/
theorem OfKnownKind.forall_patches_iff (h : record.OfKnownKind)
    (hbase : intervalsBase? record.kind maxChildren = some base)
    (hslots : record.children.length ≤ maxChildren.toNat)
    (hsome : record.intervals.length ≠ 0) {size : Nat} :
    (∀ patch ∈ record.patches maxChildren, patch.stop ≤ size) ↔
      base + 25 * record.intervals.length ≤ size := by
  cases h with
  | core extended declared kind specific =>
    rw [kind, intervalsBase?_core, Option.some.injEq] at hbase
    rw [forall_patches_core_iff kind specific]
    omega
  | leaf kind specific =>
    rw [kind, intervalsBase?_leaf, Option.some.injEq] at hbase
    rw [forall_patches_leaf_iff kind specific]
    omega

/-- Writing a record whose children have slots can only fail for want of room. -/
theorem truncated_of_write_eq_error {block : Bytes} {cause : EncodeError}
    (hslots : record.HasSlots maxChildren) (hsize : block.size < Address.last)
    (h : record.write maxChildren block = .error cause) :
    ∃ field needed, cause = .doesNotFit (.truncatedInput field needed block.size) ∧
      block.size < needed := by
  rw [write_eq_applyAll hslots (Nat.le_of_lt hsize), mapError_eq_error_iff] at h
  obtain ⟨inner, hinner, rfl⟩ := h
  obtain ⟨patch, -, hstop, rfl⟩ := Patch.exists_of_applyAll_eq_error hinner
  exact ⟨patch.field, Address.clamp patch.stop, rfl, Nat.lt_min.mpr ⟨hstop, hsize⟩⟩

end NodeRecord

/-! ## Room for both -/

section Encode

variable {record : NodeRecord} {strings : List StoredString} {blockSize maxChildren : UInt32}
  {base : Nat}

theorem Address.toNat_lt_last (word : UInt32) : word.toNat < Address.last :=
  Nat.lt_trans word.toNat_lt (by decide)

/-- Without room for the strings nothing is written. -/
theorem encodeBlock_eq_error (maxChildren : UInt32)
    (hnamed : ∀ string ∈ strings, string.interval < record.intervals.length)
    (hroom : blockSize.toNat < StoredString.totalSize strings) :
    encodeBlock record strings blockSize maxChildren =
      .error (.doesNotFit (.truncatedInput "string" Address.last blockSize.toNat)) := by
  have hzeros : blockSize.toNat ≤ (Bytes.zeros blockSize.toNat).size :=
    Nat.le_of_eq (Bytes.size_zeros _).symm
  have hstore := StringArea.foldlM_store_eq_error (.ofRecord record blockSize) hzeros hnamed hroom
  rw [NodeRecord.encodeBlock_eq, hstore, StringArea.ofRecord, Bytes.size_zeros]
  rfl

/-- With room for the strings, only room for the intervals is asked for. -/
theorem encodeBlock_of_strings (hknown : record.OfKnownKind)
    (hbase : intervalsBase? record.kind maxChildren = some base)
    (hslots : record.children.length ≤ maxChildren.toNat) (hsome : record.intervals.length ≠ 0)
    (hnamed : ∀ string ∈ strings, string.interval < record.intervals.length)
    (hroom : StoredString.totalSize strings ≤ blockSize.toNat) :
    ∃ area, strings.foldlM StringArea.store (.ofRecord record blockSize) = .ok area ∧
      (∀ block, encodeBlock record strings blockSize maxChildren = .ok block ↔
        base + 25 * record.intervals.length ≤ blockSize.toNat ∧
          block = ((Bytes.zeros blockSize.toNat).place
            (StoredString.stretchesBelow blockSize.toNat strings)).place
              ((record.withStrings area).stretches maxChildren)) ∧
      ∀ cause, encodeBlock record strings blockSize maxChildren = .error cause →
        ∃ field needed, cause = .doesNotFit (.truncatedInput field needed blockSize.toNat) ∧
          blockSize.toNat < needed := by
  have hzeros : blockSize.toNat ≤ (Bytes.zeros blockSize.toNat).size :=
    Nat.le_of_eq (Bytes.size_zeros _).symm
  obtain ⟨area, hstore, hblock, hlength⟩ :=
    StringArea.exists_foldlM_store (.ofRecord record blockSize) hzeros hnamed hroom
  have hencode : encodeBlock record strings blockSize maxChildren =
      (record.withStrings area).write maxChildren area.block := by
    rw [NodeRecord.encodeBlock_eq, hstore, ok_bind]
  have hsize : area.block.size = blockSize.toNat := by
    rw [hblock, Bytes.size_place]
    exact Bytes.size_zeros _
  have hlast : area.block.size < Address.last := hsize ▸ Address.toNat_lt_last blockSize
  have hchildren : (record.withStrings area).HasSlots maxChildren := fun _ _ _ => hslots
  have hcells : (record.withStrings area).intervals.length = record.intervals.length := hlength
  refine ⟨area, hstore, ?_, ?_⟩
  · intro block
    rw [hencode, NodeRecord.write_eq_ok_iff (Nat.le_of_lt hlast),
      (hknown.withStrings area).forall_patches_iff hbase hslots (hcells ▸ hsome), hcells, hsize,
      hblock]
    exact and_iff_right hchildren
  · intro cause herror
    rw [hencode] at herror
    rw [← hsize]
    exact NodeRecord.truncated_of_write_eq_error hchildren hlast herror

/-- A record with strings is encoded exactly if there is room in the block for its
intervals and room for the strings, each counted without the other. The strings are
placed first and the record over them. Without room for either, the failure is a
truncation. -/
theorem encodeBlock_room (hknown : record.OfKnownKind)
    (hbase : intervalsBase? record.kind maxChildren = some base)
    (hslots : record.children.length ≤ maxChildren.toNat) (hsome : strings ≠ [])
    (hnamed : ∀ string ∈ strings, string.interval < record.intervals.length) :
    ((∃ block, encodeBlock record strings blockSize maxChildren = .ok block) ↔
        base + 25 * record.intervals.length ≤ blockSize.toNat ∧
          StoredString.totalSize strings ≤ blockSize.toNat) ∧
      (∀ block, encodeBlock record strings blockSize maxChildren = .ok block →
        ∃ area, strings.foldlM StringArea.store (.ofRecord record blockSize) = .ok area ∧
          block = ((Bytes.zeros blockSize.toNat).place
            (StoredString.stretchesBelow blockSize.toNat strings)).place
              ((record.withStrings area).stretches maxChildren)) ∧
      ∀ cause, encodeBlock record strings blockSize maxChildren = .error cause →
        ∃ field needed, cause = .doesNotFit (.truncatedInput field needed blockSize.toNat) ∧
          blockSize.toNat < needed := by
  obtain ⟨string, hstring⟩ := List.exists_mem_of_ne_nil strings hsome
  have hcells : record.intervals.length ≠ 0 := Nat.ne_zero_of_lt (hnamed string hstring)
  by_cases hroom : StoredString.totalSize strings ≤ blockSize.toNat
  · obtain ⟨area, hstore, hok, herror⟩ :=
      encodeBlock_of_strings hknown hbase hslots hcells hnamed hroom
    refine ⟨?_, ?_, herror⟩
    · simp only [hok, exists_and_left, exists_eq, and_true, hroom]
    · intro block hblock
      exact ⟨area, hstore, ((hok block).mp hblock).2⟩
  · have hencode := encodeBlock_eq_error maxChildren hnamed (Nat.not_le.mp hroom)
    simp only [hencode, reduceCtorEq, exists_false, hroom, and_false, false_implies,
      implies_true, true_and, Except.error.injEq]
    rintro cause rfl
    exact ⟨"string", Address.last, rfl, Address.toNat_lt_last blockSize⟩

end Encode

theorem encodeBlock_room_labelledNode :
    labelledNode.OfKnownKind ∧ intervalsBase? labelledNode.kind 4 = some 34 ∧
      labelledNode.children.length ≤ (4 : UInt32).toNat ∧ nodeLabels ≠ [] ∧
      (∀ string ∈ nodeLabels, string.interval < labelledNode.intervals.length) ∧
      ∃ block, encodeBlock labelledNode nodeLabels 128 4 = .ok block := by
  have hknown : labelledNode.OfKnownKind := .leaf rfl rfl
  have hslots : labelledNode.children.length ≤ (4 : UInt32).toNat := by decide
  have hsome : nodeLabels ≠ [] := by decide
  have hnamed : ∀ string ∈ nodeLabels, string.interval < labelledNode.intervals.length := by
    decide
  have hfits : 34 + 25 * labelledNode.intervals.length ≤ (128 : UInt32).toNat ∧
      StoredString.totalSize nodeLabels ≤ (128 : UInt32).toNat := by
    decide
  exact ⟨hknown, rfl, hslots, hsome, hnamed,
    (encodeBlock_room hknown rfl hslots hsome hnamed).1.mpr hfits⟩

/-- A leaf whose only interval takes the bytes from 34 to 59. -/
def meetingLeaf : NodeRecord where
  kind := .leaf
  start := 0
  stop := 0
  seqNumber := ⟨0⟩
  parent := .root
  intervalCount := 1
  varDataOffset := 0
  done := false
  specific := .leaf
  children := []
  intervals := [⟨1, 2, 7, .int32, 0⟩]

/-- A string that takes the bytes from 52 to 64. -/
def meetingLabels : List StoredString :=
  [⟨0, "overlong"⟩]

/-- The block of both. What is left of the string are its last five letters. -/
def meetingBlock : Bytes :=
  #[2, 0, 0, 0, 0, 0, 0, 0, 0, 0, 0, 0, 0, 0, 0, 0, 0, 0, 0, 0, 0, 255, 255, 255, 255,
    1, 0, 0, 0, 52, 0, 0, 0, 0, 1, 0, 0, 0, 0, 0, 0, 0, 2, 0, 0, 0, 0, 0, 0, 0,
    7, 0, 0, 0, 1, 52, 0, 0, 0, 114, 108, 111, 110, 103]

/-- The interval and the string do not fit in the block together. They are encoded all the
same, and where the interval points to there is no string. -/
theorem encodeBlock_meetingLeaf :
    meetingLeaf.OfKnownKind ∧
      (∀ string ∈ meetingLabels, string.interval < meetingLeaf.intervals.length) ∧
      64 < 34 + 25 * meetingLeaf.intervals.length + StoredString.totalSize meetingLabels ∧
      encodeBlock meetingLeaf meetingLabels 64 0 = .ok meetingBlock ∧
      readString? meetingBlock 52 = none :=
  ⟨.leaf rfl rfl, by decide, by decide, by decide +kernel, by decide⟩

end HistoryTree
