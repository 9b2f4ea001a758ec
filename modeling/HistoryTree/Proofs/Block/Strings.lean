import HistoryTree.Proofs.Block.RoundTrip
import HistoryTree.Proofs.Block.StringArea

/-!
# Records with strings

A record whose intervals and strings both have room in a block is decoded from it with
those intervals pointing to their strings, and following them gives the texts
(`decodeBlock_encodeBlock_withStrings`).
-/

namespace HistoryTree

open Layout

namespace NodeRecord

variable {record : NodeRecord} {maxChildren : UInt32} {area : StringArea}

/-- Pointing intervals to strings keeps the shape of a record. -/
theorem Shape.withStrings (h : record.Shape maxChildren)
    (hlength : area.intervals.length = record.intervals.length) :
    (record.withStrings area).Shape maxChildren := by
  cases h with
  | core extended declared kind specific children intervals =>
    exact .core extended declared kind specific children (hlength.trans intervals)
  | leaf kind specific children intervals =>
    exact .leaf kind specific children (hlength.trans intervals)
  | unknown tag meaningless kind specific children intervals =>
    rw [intervals, List.length_nil, List.length_eq_zero_iff] at hlength
    exact .unknown tag meaningless kind specific children hlength

theorem Canonical.withStrings {top : Nat} {strings : List StoredString}
    (h : record.Canonical maxChildren)
    (hpointed : Pointed top strings record.intervals area.intervals) :
    (record.withStrings area).Canonical maxChildren where
  shape := h.shape.withStrings hpointed.length
  parent := h.parent
  valueType := by
    intro interval hmem tag htag
    rcases hpointed.mem_or_valueType hmem with hbefore | hstr
    · exact h.valueType interval hbefore tag htag
    · rw [hstr]
      exact ValueType.noConfusion

/-- A node of a known kind raises no issue. -/
theorem issue_decoded {base : Nat}
    (hbase : intervalsBase? record.kind maxChildren = some base) :
    record.decoded.issue = none := by
  rw [decoded]
  cases hkind : record.kind with
  | core => rfl
  | leaf => rfl
  | unknown tag =>
    rw [hkind, intervalsBase?_unknown] at hbase
    contradiction

end NodeRecord

/-- An interval that points to a string is interpreted as that string. -/
theorem Interval.interpret_pointingTo {interval : Interval} {offset : Nat} {block : Bytes}
    {text : String} (h : readString? block (UInt32.ofNat offset) = some text) :
    (interval.pointingTo offset).interpret block = .str text := by
  rw [pointingTo, interpret]
  simp only [h]

section Blocks

variable {record : NodeRecord} {strings : List StoredString} {blockSize maxChildren : UInt32}
  {base : Nat} {area : StringArea} {before : List Interval}

/-- Strings lie apart from a record that ends below them. -/
theorem pairwise_stretches_withStrings (hshape : record.Shape maxChildren)
    (hbase : intervalsBase? record.kind maxChildren = some base) {top : Nat}
    (hroom : base + 25 * record.intervals.length + StoredString.totalSize strings ≤ top) :
    (StoredString.stretchesBelow top strings ++ record.stretches maxChildren).Pairwise
      Stretch.Apart := by
  have hstrings : StoredString.totalSize strings ≤ top := by omega
  rw [List.pairwise_append]
  refine ⟨StoredString.pairwise_stretchesBelow hstrings, NodeRecord.pairwise_stretches hshape,
    ?_⟩
  intro upper hupper lower hlower
  have habove := StoredString.within_of_mem_stretchesBelow hstrings upper hupper
  have hbelow := hshape.within_of_mem_stretches hbase lower hlower
  exact (hbelow.apart (habove.mono (by omega) (Nat.le_refl _))).symm

theorem size_block_of_stores (h : (StringArea.ofRecord record blockSize).Stores strings area) :
    area.block.size = blockSize.toNat := by
  rw [h.block, Bytes.size_place]
  exact Bytes.size_zeros _

theorem size_block_le_last_of_stores
    (h : (StringArea.ofRecord record blockSize).Stores strings area) :
    area.block.size ≤ Address.last := by
  have hlast := Bytes.size_zeros_le_last blockSize
  rwa [Bytes.size_zeros, ← size_block_of_stores h] at hlast

/-- The record is written over what the strings leave of the block. -/
theorem write_of_stores (hcanonical : record.Canonical maxChildren)
    (hbase : intervalsBase? record.kind maxChildren = some base)
    (hroom : base + 25 * record.intervals.length + StoredString.totalSize strings ≤
      blockSize.toNat)
    (hstores : (StringArea.ofRecord record blockSize).Stores strings area) :
    (record.withStrings area).write maxChildren area.block =
      .ok ((Bytes.zeros blockSize.toNat).place
        (StoredString.stretchesBelow blockSize.toNat strings ++
          (record.withStrings area).stretches maxChildren)) := by
  have hcanonical := hcanonical.withStrings hstores.pointed
  have hsize := size_block_of_stores hstores
  have hfits : ∀ patch ∈ (record.withStrings area).patches maxChildren,
      patch.stop ≤ area.block.size := by
    apply hcanonical.shape.forall_patches_of_base hbase
    have hlength : (record.withStrings area).intervals.length = record.intervals.length :=
      hstores.pointed.length
    omega
  rw [hcanonical.write_eq_ok_iff (size_block_le_last_of_stores hstores)]
  refine ⟨hfits, ?_⟩
  rw [Bytes.place_append, hstores.block]
  rfl

/-- The texts are found where their intervals point to. -/
theorem interpret_of_stores (hshape : record.Shape maxChildren)
    (hbase : intervalsBase? record.kind maxChildren = some base)
    (hroom : base + 25 * record.intervals.length + StoredString.totalSize strings ≤
      blockSize.toNat)
    (hpointed : Pointed blockSize.toNat strings before record.intervals) {place : Nat}
    (hplace : place < strings.length) :
    ∃ interval, record.intervals[strings[place].interval]? = some interval ∧
      interval.interpret ((Bytes.zeros blockSize.toNat).place
        (StoredString.stretchesBelow blockSize.toNat strings ++
          record.stretches maxChildren)) = .str strings[place].text := by
  obtain ⟨interval, -, hinterval⟩ := hpointed.named place hplace
  refine ⟨_, hinterval, Interval.interpret_pointingTo ?_⟩
  apply StoredString.readString?_place (pairwise_stretches_withStrings hshape hbase hroom)
  · intro stretch hstretch
    exact List.mem_append_left _ (StoredString.mem_stretchesBelow hplace stretch hstretch)
  · rw [Bytes.size_zeros]
    exact StoredString.offsetBelow_add_size_le (by omega) hplace
  · rw [Bytes.size_zeros]
    exact blockSize.toNat_lt_size

end Blocks

/-- A record that has room in a block together with strings for some of its intervals is
decoded from it as it was, but for the offset of its variable data and the values of
those intervals, which lead to the strings. -/
theorem decodeBlock_encodeBlock_withStrings {record : NodeRecord} {strings : List StoredString}
    {blockSize maxChildren : UInt32} {base : Nat} (hcanonical : record.Canonical maxChildren)
    (hbase : intervalsBase? record.kind maxChildren = some base) (hsome : strings ≠ [])
    (hnodup : (strings.map (·.interval)).Nodup)
    (hnamed : ∀ string ∈ strings, string.interval < record.intervals.length)
    (hroom : base + 25 * record.intervals.length + StoredString.totalSize strings ≤
      blockSize.toNat) :
    ∃ block intervals, encodeBlock record strings blockSize maxChildren = .ok block ∧
      block.size = blockSize.toNat ∧
      (decodeBlock block maxChildren).result = .ok {
        record := { record with
          varDataOffset := UInt32.ofNat (blockSize.toNat - StoredString.totalSize strings)
          intervals }
        issue := none } ∧
      Pointed blockSize.toNat strings record.intervals intervals ∧
      ∀ place, (h : place < strings.length) →
        ∃ interval, intervals[strings[place].interval]? = some interval ∧
          interval.interpret block = .str strings[place].text := by
  have hstrings : StoredString.totalSize strings ≤ blockSize.toNat := by omega
  have hzeros : blockSize.toNat ≤ (Bytes.zeros blockSize.toNat).size :=
    Nat.le_of_eq (Bytes.size_zeros _).symm
  obtain ⟨area, hstore, hstores⟩ :=
    StringArea.foldlM_store (.ofRecord record blockSize) hstrings hzeros hnodup hnamed
  have hpointed : Pointed blockSize.toNat strings record.intervals area.intervals :=
    hstores.pointed
  have hwrite := write_of_stores hcanonical hbase hroom hstores
  have hwritten := hcanonical.withStrings hpointed
  refine ⟨(Bytes.zeros blockSize.toNat).place
    (StoredString.stretchesBelow blockSize.toNat strings ++
      (record.withStrings area).stretches maxChildren), area.intervals, ?_, ?_, ?_, hpointed, ?_⟩
  · rw [NodeRecord.encodeBlock_eq, hstore, ok_bind, hwrite]
  · rw [Bytes.size_place, Bytes.size_zeros]
  · have hoffset : area.varDataOffset =
        UInt32.ofNat (blockSize.toNat - StoredString.totalSize strings) := by
      rw [hstores.varDataOffset, if_neg hsome]
      rfl
    have hissue := (record.withStrings area).issue_decoded hbase
    rw [hwritten.decodeBlock_write (size_block_le_last_of_stores hstores) hwrite, ← hoffset,
      ← hissue]
    rfl
  · intro place hplace
    have hlength : (record.withStrings area).intervals.length = record.intervals.length :=
      hpointed.length
    exact interpret_of_stores hwritten.shape hbase (hlength ▸ hroom) hpointed hplace

/-- A leaf with two intervals that get strings, the second one first. -/
def labelledNode : NodeRecord where
  kind := .leaf
  start := 1
  stop := 9
  seqNumber := ⟨1⟩
  parent := .childOf ⟨0⟩
  intervalCount := 3
  varDataOffset := 0
  done := true
  specific := .leaf
  children := []
  intervals := [⟨1, 2, 7, .int32, 0⟩, ⟨2, 3, 7, .other 9, 5⟩, ⟨3, 9, 7, .uint32, 0⟩]

def nodeLabels : List StoredString :=
  [⟨2, "idle"⟩, ⟨0, "läuft"⟩]

theorem canonical_labelledNode : labelledNode.Canonical 4 where
  shape := .leaf rfl rfl rfl rfl
  parent := by decide
  valueType := by
    intro interval hmem tag htag
    have htags : ∀ interval ∈ labelledNode.intervals,
        interval.valueType = .ofTag interval.valueType.tag := by decide
    rw [htags interval hmem]
    exact ValueType.ofTag_ne_other tag htag

theorem decodeBlock_encodeBlock_labelledNode :
    ∃ block intervals, encodeBlock labelledNode nodeLabels 128 4 = .ok block ∧
      block.size = 128 ∧
      (decodeBlock block 4).result = .ok {
        record := { labelledNode with varDataOffset := 110, intervals }
        issue := none } ∧
      Pointed 128 nodeLabels labelledNode.intervals intervals ∧
      ∀ place, (h : place < nodeLabels.length) →
        ∃ interval, intervals[nodeLabels[place].interval]? = some interval ∧
          interval.interpret block = .str nodeLabels[place].text :=
  decodeBlock_encodeBlock_withStrings canonical_labelledNode rfl (by decide) (by decide)
    (by decide) (by decide)

end HistoryTree
