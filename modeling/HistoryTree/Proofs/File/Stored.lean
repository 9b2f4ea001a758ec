import HistoryTree.Proofs.File.RoundTrip

/-!
# Stored blocks

Blocks are looked up by multiplying and counted by dividing. Both agree about every file that
was parsed (`HistoryFile.countsBlocks`): the blocks that are found are those that are counted,
and they tile what follows the preamble. Blocks without bytes are found everywhere, counted
nowhere, and cannot be decoded.
-/

namespace HistoryTree

open Layout

/-! ## Tiling -/

namespace Bytes

/-- The bytes of block `index` among blocks of `size` bytes that begin at `base`. -/
def blockFrom (data : Bytes) (base size index : Nat) : Bytes :=
  data.extract (base + index * size) (base + (index + 1) * size)

/-- Blocks that follow one another make up the stretch from the start of the first to the end
of the last. By induction on their number, with the first of them anywhere. -/
theorem join_blockFrom (data : Bytes) (base size start count : Nat) :
    join ((List.range' start count).map (data.blockFrom base size)) =
      data.extract (base + start * size) (base + (start + count) * size) := by
  induction count generalizing start with
  | zero =>
    rw [Nat.add_zero, Array.extract_empty_of_stop_le_start (Nat.le_refl _)]
    rfl
  | succ count ih =>
    have hnext : base + start * size ≤ base + (start + 1) * size :=
      Nat.add_le_add_left (Nat.mul_le_mul_right size (Nat.le_succ start)) base
    have hlast : base + (start + 1) * size ≤ base + (start + 1 + count) * size :=
      Nat.add_le_add_left (Nat.mul_le_mul_right size (Nat.le_add_right _ count)) base
    calc join ((List.range' start (count + 1)).map (data.blockFrom base size))
      _ = data.blockFrom base size start ++
            data.extract (base + (start + 1) * size) (base + (start + 1 + count) * size) := by
        rw [List.range'_succ, List.map_cons, join, ih]
      _ = data.extract (base + start * size) (base + (start + 1 + count) * size) := by
        rw [blockFrom, Array.extract_append_extract, Nat.min_eq_left hnext,
          Nat.max_eq_right hlast]
      _ = data.extract (base + start * size) (base + (start + (count + 1)) * size) := by
        rw [Nat.add_right_comm, Nat.add_assoc start]

end Bytes

/-! ## Counting -/

namespace HistoryFile

variable {file : HistoryFile}

/-- Where block `index` ends, whether or not the file goes that far. -/
def blockStop (file : HistoryFile) (index : Nat) : Nat :=
  4096 + (index + 1) * file.header.blockSize.toNat

/-- The first `count` blocks, one after another, are what follows the preamble. -/
def TiledBy (file : HistoryFile) (count : Nat) : Prop :=
  ∃ blocks : List Bytes, blocks.length = count ∧
    (∀ (index : Nat) (h : index < blocks.length),
      file.block (UInt32.ofNat index) = .ok blocks[index]) ∧
    Bytes.join blocks = file.data.extract 4096 (4096 + count * file.header.blockSize.toNat)

/-- Lookup and count agree about the blocks of the file. -/
structure CountsBlocks (file : HistoryFile) : Prop where
  block_eq (index : UInt32) :
    file.block index =
      if file.blockStop index.toNat ≤ file.data.size then
        .ok (file.data.extract (4096 + index.toNat * file.header.blockSize.toNat)
          (file.blockStop index.toNat))
      else
        .error (.truncatedInput "block" (file.blockStop index.toNat) file.data.size)
  tiled (count : Nat) (words : count ≤ UInt32.size)
    (held : 4096 + count * file.header.blockSize.toNat ≤ file.data.size) : file.TiledBy count
  counted (sized : 0 < file.header.blockSize) (index : UInt32) :
    (∃ block, file.block index = .ok block) ↔ index.toNat < file.storedBlocks
  complete (sized : 0 < file.header.blockSize) :
    ∃ expected, file.header.expectedLength? = some expected ∧
      (expected ≤ file.data.size ↔ file.header.nodeCount.toNat ≤ file.storedBlocks)
  unsized (sizeless : file.header.blockSize = 0) :
    file.storedBlocks = 0 ∧
      ∀ index, file.block index = .ok #[] ∧
        (file.decode index).result = .error (.truncatedInput "type" 1 0)

theorem block_eq_of_blockStop (file : HistoryFile) (index : UInt32) :
    file.block index =
      if file.blockStop index.toNat ≤ file.data.size then
        .ok (file.data.extract (4096 + index.toNat * file.header.blockSize.toNat)
          (file.blockStop index.toNat))
      else
        .error (.truncatedInput "block" (file.blockStop index.toNat) file.data.size) := by
  rw [file.block_eq, blockStop, Nat.succ_mul, Nat.add_assoc]

theorem exists_block_iff {index : UInt32} :
    (∃ block, file.block index = .ok block) ↔ file.blockStop index.toNat ≤ file.data.size := by
  rw [block_eq_of_blockStop]
  split
  · next hfits => exact iff_of_true ⟨_, rfl⟩ hfits
  · next hpast => exact iff_of_false (fun h => nomatch h) hpast

/-- Bytes for so many whole blocks follow the preamble if the count comes to that many. -/
theorem le_storedBlocks_iff (hpreamble : 4096 ≤ file.data.size)
    (hsized : 0 < file.header.blockSize) {count : Nat} :
    count ≤ file.storedBlocks ↔
      4096 + count * file.header.blockSize.toNat ≤ file.data.size := by
  have hsize : 0 < file.header.blockSize.toNat := UInt32.lt_iff_toNat_lt.mp hsized
  rw [storedBlocks, treeHeaderSize, Nat.le_div_iff_mul_le hsize, Nat.le_sub_iff_add_le hpreamble,
    Nat.add_comm]

theorem block_of_size_zero (hpreamble : 4096 ≤ file.data.size)
    (hsizeless : file.header.blockSize = 0) (index : UInt32) : file.block index = .ok #[] := by
  have hstart : index.toNat * (0 : UInt32).toNat = 0 := Nat.mul_zero _
  have hstop : file.blockStop index.toNat = 4096 := by
    rw [blockStop, hsizeless]
    rfl
  rw [block_eq_of_blockStop, hstop, if_pos hpreamble, hsizeless, hstart,
    Array.extract_empty_of_stop_le_start (Nat.le_refl _)]

theorem tiledBy_of_le {count : Nat} (hwords : count ≤ UInt32.size)
    (hheld : 4096 + count * file.header.blockSize.toNat ≤ file.data.size) :
    file.TiledBy count := by
  refine ⟨(List.range' 0 count).map (file.data.blockFrom 4096 file.header.blockSize.toNat),
    ?_, ?_, ?_⟩
  · rw [List.length_map, List.length_range']
  · intro index hindex
    rw [List.length_map, List.length_range'] at hindex
    have hword : (UInt32.ofNat index).toNat = index :=
      UInt32.toNat_ofNat_of_lt' (Nat.lt_of_lt_of_le hindex hwords)
    have hfits : file.blockStop index ≤ file.data.size :=
      Nat.le_trans (Nat.add_le_add_left (Nat.mul_le_mul_right _ hindex) 4096) hheld
    rw [block_eq_of_blockStop, hword, if_pos hfits, List.getElem_map, List.getElem_range',
      Nat.zero_add, Nat.one_mul]
    rfl
  · rw [Bytes.join_blockFrom, Nat.zero_mul, Nat.add_zero, Nat.zero_add]

theorem countsBlocks_of_parse {data : Bytes} (h : (parse data).result = .ok file) :
    file.CountsBlocks := by
  obtain ⟨hdata, rfl⟩ := result_parse_eq_ok_iff.mp h
  have hpreamble : 4096 ≤ (HistoryFile.mk (.declared data) data).data.size := hdata
  exact {
    block_eq := block_eq_of_blockStop _
    tiled := fun _ => tiledBy_of_le
    counted := fun hsized index => by
      rw [exists_block_iff, blockStop, ← le_storedBlocks_iff hpreamble hsized, Nat.succ_le_iff]
    complete := fun hsized =>
      ⟨_, TreeHeader.expectedLength?_eq _, (le_storedBlocks_iff hpreamble hsized).symm⟩
    unsized := fun hsizeless => by
      refine ⟨?_, fun index => ⟨block_of_size_zero hpreamble hsizeless index, ?_⟩⟩
      · rw [storedBlocks, hsizeless]
        exact Nat.div_zero _
      · rw [result_decode, block_of_size_zero hpreamble hsizeless index, ok_bind]
        rfl }

/-- Whatever else follows the preamble, the blocks that a file was made of are counted. -/
theorem storedBlocks_ofBlocks {header : TreeHeader} {blocks : List Bytes}
    (hsize : ∀ block ∈ blocks, block.size = header.blockSize.toNat)
    (hsized : 0 < header.blockSize) : (ofBlocks header blocks).storedBlocks = blocks.length := by
  rw [storedBlocks, size_ofBlocks hsize, header_ofBlocks, treeHeaderSize,
    Nat.add_sub_cancel_left, Nat.mul_div_cancel _ (UInt32.lt_iff_toNat_lt.mp hsized)]

/-- In every file that was parsed, lookup and count agree about the blocks. A file may hold
any number of them, also more than an index can reach. -/
theorem countsBlocks :
    (∀ data file, (parse data).result = .ok file → file.CountsBlocks) ∧
      ∀ count, ∃ file, (parse file.data).result = .ok file ∧ file.storedBlocks = count := by
  refine ⟨fun data file => countsBlocks_of_parse, fun count => ?_⟩
  have hsize : ∀ block ∈ List.replicate count (#[0] : Bytes), block.size = 1 := by
    intro block hmem
    rw [List.eq_of_mem_replicate hmem]
    rfl
  refine ⟨ofBlocks { threeNodeHeader with blockSize := 1 } (List.replicate count #[0]),
    parse_ofBlocks _ _, ?_⟩
  rw [storedBlocks_ofBlocks hsize (by decide), List.length_replicate]

end HistoryFile

/-- A file that ends one byte before its second block is whole. -/
def cutFile : Bytes :=
  TreeHeader.encode { threeNodeHeader with nodeCount := 2 } ++ Bytes.zeros 119

theorem size_cutFile : cutFile.size = 4215 := by
  rw [cutFile, Array.size_append, TreeHeader.size_encode, Bytes.size_zeros]

/-- The length is told apart from the bytes, which are too many to be computed with. -/
theorem exists_parse_cutFile :
    ∃ file, (HistoryFile.parse cutFile).result = .ok file ∧
      file.header = { threeNodeHeader with nodeCount := 2 } ∧ file.data.size = 4215 := by
  have hpreamble : 4096 ≤ cutFile.size := by
    rw [size_cutFile]
    decide
  exact ⟨_, HistoryFile.result_parse_eq_ok_iff.mpr ⟨hpreamble, rfl⟩,
    TreeHeader.declared_encode_append _ _, size_cutFile⟩

theorem countsBlocks_cutFile :
    ∃ file, (HistoryFile.parse cutFile).result = .ok file ∧ file.storedBlocks = 1 ∧
      (∃ block, file.block 0 = .ok block) ∧
      file.block 1 = .error (.truncatedInput "block" 4216 4215) := by
  obtain ⟨file, hparse, hheader, hsize⟩ := exists_parse_cutFile
  have hcounts := HistoryFile.countsBlocks.1 _ _ hparse
  have hstored : file.storedBlocks = 1 := by
    rw [HistoryFile.storedBlocks, hsize, hheader]
    rfl
  have hstop : file.blockStop 1 = 4216 := by
    rw [HistoryFile.blockStop, hheader]
    rfl
  refine ⟨file, hparse, hstored, ?_, ?_⟩
  · rw [hcounts.counted (by rw [hheader]; decide), hstored]
    decide
  · rw [hcounts.block_eq, UInt32.toNat_one, hstop, hsize, if_neg (by decide)]

end HistoryTree
