import HistoryTree.Proofs.Block.RoundTrip
import HistoryTree.Proofs.File.Decodings
import HistoryTree.Tree.Sample

/-!
# Files give back their records

A file of canonical records gives them back block by block. How far a walk gets
depends on the declared number of nodes: it stops there, or after all records at
the block that is missing.
-/

namespace HistoryTree

/-- What can be read from a file of `records`. -/
structure HistoryFile.GivesBack (file : HistoryFile) (records : List NodeRecord) : Prop where
  decode (index : UInt32) (h : index.toNat < records.length) :
    (file.decode index).result = .ok records[index.toNat].decoded
  /-- As many records as are declared, if there are that many. -/
  decodeAll (h : file.header.nodeCount.toNat ≤ records.length) :
    file.decodeAll.result = .ok (records.take file.header.nodeCount.toNat)
  /-- If more are declared, a walk gives all records and then one failure. -/
  walk (h : records.length < file.header.nodeCount.toNat)
    (hblock : 0 < file.header.blockSize.toNat) :
    file.walk.map (fun visit => visit.attempt.result) =
      records.map (fun record => .ok record.decoded) ++
        [.error (.truncatedInput "block"
          (4096 + (records.length + 1) * file.header.blockSize.toNat) file.data.size)]
  decodeAll_fails (h : records.length < file.header.nodeCount.toNat)
    (hblock : 0 < file.header.blockSize.toNat) :
    file.decodeAll.result = .error (.truncatedInput "block"
      (4096 + (records.length + 1) * file.header.blockSize.toNat) file.data.size)

theorem map_record_decoded (records : List NodeRecord) :
    (records.map (·.decoded)).map (·.record) = records := by
  rw [List.map_map]
  exact List.map_id records

section Encoded

variable {header : TreeHeader} {record : NodeRecord} {records : List NodeRecord}
  {block : Bytes} {blocks : List Bytes}

theorem EncodesTo.size_eq (h : EncodesTo header record block) :
    block.size = header.blockSize.toNat := by
  rw [EncodesTo, NodeRecord.encodeBlock_nil] at h
  rw [NodeRecord.size_of_write (Bytes.size_zeros_le_last header.blockSize) h, Bytes.size_zeros]

theorem EncodesTo.decodeBlock_eq (h : EncodesTo header record block)
    (hcanonical : record.Canonical header.maxChildren) :
    (decodeBlock block header.maxChildren).result = .ok record.decoded := by
  rw [EncodesTo, NodeRecord.encodeBlock_nil] at h
  exact hcanonical.decodeBlock_write (Bytes.size_zeros_le_last header.blockSize) h

theorem size_eq_of_encodesTo (h : List.Forall₂ (EncodesTo header) records blocks) :
    ∀ block ∈ blocks, block.size = header.blockSize.toNat := by
  induction h with
  | nil => exact List.forall_mem_nil _
  | cons hblock _ ih => exact List.forall_mem_cons.mpr ⟨hblock.size_eq, ih⟩

namespace HistoryFile

variable (hblocks : List.Forall₂ (EncodesTo header) records blocks)
  (hcanonical : ∀ record ∈ records, record.Canonical header.maxChildren)

include hblocks hcanonical

theorem decode_ofBlocks {index : UInt32} (h : index.toNat < records.length) :
    ((ofBlocks header blocks).decode index).result = .ok records[index.toNat].decoded := by
  have hindex : index.toNat < blocks.length := hblocks.length_eq ▸ h
  have hblock : EncodesTo header records[index.toNat] blocks[index.toNat] :=
    hblocks.get h hindex
  rw [result_decode, block_ofBlocks (size_eq_of_encodesTo hblocks) hindex, ok_bind]
  exact hblock.decodeBlock_eq (hcanonical _ (List.getElem_mem h))

/-- The first blocks decode to the first records. -/
theorem decode_range_ofBlocks {count : Nat} (hcount : count ≤ records.length)
    (hword : count ≤ UInt32.size) :
    (List.range count).map (fun index =>
      ((ofBlocks header blocks).decode (UInt32.ofNat index)).result) =
      (records.take count).map fun record => .ok record.decoded := by
  apply List.ext_getElem
  · rw [List.length_map, List.length_range, List.length_map, List.length_take,
      Nat.min_eq_left hcount]
  intro index hleft _
  rw [List.length_map, List.length_range] at hleft
  have hindex : (UInt32.ofNat index).toNat = index :=
    UInt32.toNat_ofNat_of_lt' (Nat.lt_of_lt_of_le hleft hword)
  have hrecord : (UInt32.ofNat index).toNat < records.length :=
    hindex.symm ▸ Nat.lt_of_lt_of_le hleft hcount
  simp only [List.getElem_map, List.getElem_range, List.getElem_take]
  rw [decode_ofBlocks hblocks hcanonical hrecord]
  simp only [hindex]

theorem outcomes_ofBlocks_of_le (h : header.nodeCount.toNat ≤ records.length) :
    (ofBlocks header blocks).outcomes =
      (records.take header.nodeCount.toNat).map fun record => .ok record.decoded := by
  have hword : header.nodeCount.toNat ≤ UInt32.size :=
    Nat.le_of_lt header.nodeCount.toNat_lt_size
  rw [outcomes_eq, header_ofBlocks, decode_range_ofBlocks hblocks hcanonical h hword]
  apply takeThrough_eq_self
  intro outcome hmem
  obtain ⟨record, -, rfl⟩ := List.mem_map.mp hmem
  rfl

theorem outcomes_ofBlocks_of_lt (h : records.length < header.nodeCount.toNat)
    (hsome : 0 < header.blockSize.toNat) :
    (ofBlocks header blocks).outcomes =
      records.map (fun record => .ok record.decoded) ++
        [.error (.truncatedInput "block"
          (4096 + (records.length + 1) * header.blockSize.toNat)
          (ofBlocks header blocks).data.size)] := by
  have hword : records.length < UInt32.size := Nat.lt_trans h header.nodeCount.toNat_lt_size
  have hlast : (UInt32.ofNat records.length).toNat = blocks.length := by
    rw [UInt32.toNat_ofNat_of_lt' hword, hblocks.length_eq]
  have hmissing : ((ofBlocks header blocks).decode (UInt32.ofNat records.length)).result =
      .error (.truncatedInput "block" (4096 + (records.length + 1) * header.blockSize.toNat)
        (ofBlocks header blocks).data.size) := by
    rw [result_decode, block_ofBlocks_length (size_eq_of_encodesTo hblocks) hsome hlast,
      hblocks.length_eq]
    rfl
  obtain ⟨more, hmore⟩ := Nat.exists_eq_add_of_lt h
  have hrange : List.range header.nodeCount.toNat =
      List.range records.length ++ records.length :: List.range' (records.length + 1) more := by
    calc List.range header.nodeCount.toNat
      _ = List.range' 0 (records.length + (more + 1)) := by
        rw [hmore, List.range_eq_range', Nat.add_assoc]
      _ = List.range' 0 records.length ++ List.range' records.length (more + 1) := by
        rw [← List.range'_append_1, Nat.zero_add]
      _ = _ := by rw [List.range'_succ, List.range_eq_range']
  rw [outcomes_eq, header_ofBlocks, hrange, List.map_append, List.map_cons, hmissing,
    decode_range_ofBlocks hblocks hcanonical (Nat.le_refl _) (Nat.le_of_lt hword),
    List.take_length, takeThrough_append, takeThrough_cons_of_last rfl]
  intro outcome hmem
  obtain ⟨record, -, rfl⟩ := List.mem_map.mp hmem
  rfl

theorem decodings_ofBlocks_of_le (h : header.nodeCount.toNat ≤ records.length) :
    (ofBlocks header blocks).decodings =
      ((records.take header.nodeCount.toNat).map (·.decoded)).map .ok := by
  rw [← outcomes_eq_decodings, outcomes_ofBlocks_of_le hblocks hcanonical h, List.map_map]
  rfl

theorem givesBack_ofBlocks : (ofBlocks header blocks).GivesBack records where
  decode index h := decode_ofBlocks hblocks hcanonical h
  decodeAll h := by
    rw [result_decodeAll_of_ok (decodings_ofBlocks_of_le hblocks hcanonical h),
      map_record_decoded]
    rfl
  walk h hblock := outcomes_ofBlocks_of_lt hblocks hcanonical h hblock
  decodeAll_fails h hblock := by
    rw [result_decodeAll_eq_error_iff, ← outcomes_eq_decodings,
      outcomes_ofBlocks_of_lt hblocks hcanonical h hblock]
    exact List.mem_append_right _ List.mem_cons_self

end HistoryFile

end Encoded

/-- A file of canonical records is parsed with exactly its header, and gives back its
records whatever number of nodes the header declares. -/
theorem parse_encodeFile {header : TreeHeader} {records : List NodeRecord} {data : Bytes}
    (hcanonical : ∀ record ∈ records, record.Canonical header.maxChildren)
    (hencode : encodeFile header records = .ok data) :
    data.size = 4096 + records.length * header.blockSize.toNat ∧
      ∃ file, (HistoryFile.parse data).result = .ok file ∧ file.header = header ∧
        file.data = data ∧ file.GivesBack records := by
  obtain ⟨blocks, hblocks, rfl⟩ := encodeFile_eq_ok_iff.mp hencode
  constructor
  · rw [hblocks.length_eq]
    exact HistoryFile.size_ofBlocks (size_eq_of_encodesTo hblocks)
  · exact ⟨HistoryFile.ofBlocks header blocks, HistoryFile.parse_ofBlocks header blocks, rfl,
      rfl, HistoryFile.givesBack_ofBlocks hblocks hcanonical⟩

/-- A header for blocks of 60 bytes with one child slot, that declares three nodes. -/
def threeNodeHeader : TreeHeader where
  magic := expectedMagic
  major := 1
  minor := 0
  blockSize := 60
  maxChildren := 1
  nodeCount := 3
  rootSeq := ⟨0⟩

/-- A header for the two blocks of `twoNodeTree`. -/
def twoNodeHeader : TreeHeader :=
  { threeNodeHeader with nodeCount := 2 }

theorem canonical_twoNodeTree : ∀ record ∈ twoNodeTree, record.Canonical 1 := by
  rw [twoNodeTree, List.forall_mem_cons, List.forall_mem_singleton]
  constructor
  · exact {
      shape := .core false 1 rfl rfl rfl rfl
      parent := by decide
      valueType := List.forall_mem_nil _ }
  · exact {
      shape := .leaf rfl rfl rfl rfl
      parent := by decide
      valueType := List.forall_mem_nil _ }

theorem parse_encodeFile_twoNodeTree :
    ∃ data, encodeFile threeNodeHeader twoNodeTree = .ok data ∧ data.size = 4216 ∧
      ∃ file, (HistoryFile.parse data).result = .ok file ∧ file.header = threeNodeHeader ∧
        file.data = data ∧ file.GivesBack twoNodeTree := by
  have hencode : ∃ data, encodeFile threeNodeHeader twoNodeTree = .ok data := ⟨_, rfl⟩
  obtain ⟨data, hdata⟩ := hencode
  exact ⟨data, hdata, parse_encodeFile canonical_twoNodeTree hdata⟩

end HistoryTree
