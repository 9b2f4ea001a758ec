import HistoryTree.File.Basic
import HistoryTree.File.Encode
import HistoryTree.Proofs.Format.Preamble
import Mathlib.Data.List.Forall2

/-!
# The blocks of a file

Where a block lies in a file, whatever its header declares (`HistoryFile.block_eq`),
and what stands there in an encoded file: the preamble is followed by the encoded
records in order (`encodeFile_eq_ok_iff`).
-/

namespace HistoryTree

open Layout

/-! ## Looking up a block -/

/-- A block that a word can count ends below the last address. -/
theorem Layout.blockStop_lt_last (blockSize : UInt32) {index : Nat} (h : index < UInt32.size) :
    4096 + index * blockSize.toNat + blockSize.toNat < Address.last := by
  have hsize : blockSize.toNat ≤ 0xFFFFFFFF := Nat.le_of_lt_succ blockSize.toNat_lt_size
  have hproduct : index * blockSize.toNat ≤ 0xFFFFFFFF * 0xFFFFFFFF :=
    Nat.mul_le_mul (Nat.le_of_lt_succ h) hsize
  rw [Address.last]
  omega

/-- No block that a word can count is out of the address space. -/
theorem Layout.blockOffset?_eq (blockSize : UInt32) {index : Nat} (h : index < UInt32.size) :
    blockOffset? blockSize index = some (4096 + index * blockSize.toNat) ∧
      4096 + index * blockSize.toNat + blockSize.toNat ≤ Address.last := by
  have hstop := Nat.le_of_lt (blockStop_lt_last blockSize h)
  have hstart : 4096 + index * blockSize.toNat ≤ Address.last :=
    Nat.le_trans (Nat.le_add_right _ _) hstop
  have hmul : index * blockSize.toNat ≤ Address.last :=
    Nat.le_trans (Nat.le_add_left _ _) hstart
  refine ⟨?_, hstop⟩
  rw [blockOffset?, Address.mul?_of_le hmul, Option.bind_eq_bind, Option.bind_some]
  exact Address.add?_of_le hstart

theorem TreeHeader.blockRange?_eq (header : TreeHeader) {index : Nat} (h : index < UInt32.size) :
    header.blockRange? index =
      some (4096 + index * header.blockSize.toNat,
        4096 + index * header.blockSize.toNat + header.blockSize.toNat) := by
  obtain ⟨hstart, hstop⟩ := blockOffset?_eq header.blockSize h
  rw [blockRange?, hstart, Option.bind_eq_bind, Option.bind_some, Address.add?_of_le hstop]
  rfl

theorem TreeHeader.expectedLength?_eq (header : TreeHeader) :
    header.expectedLength? = some (4096 + header.nodeCount.toNat * header.blockSize.toNat) :=
  (blockOffset?_eq header.blockSize header.nodeCount.toNat_lt_size).1

/-- A block ends where the next begins, or before it. -/
theorem Layout.blockStop_le {lower upper : Nat} (blockSize : Nat) (h : lower < upper) :
    4096 + lower * blockSize + blockSize ≤ 4096 + upper * blockSize := by
  rw [Nat.add_assoc, ← Nat.succ_mul]
  exact Nat.add_le_add_left (Nat.mul_le_mul_right blockSize h) 4096

namespace HistoryFile

theorem result_parse_eq_ok_iff {data : Bytes} {file : HistoryFile} :
    (parse data).result = .ok file ↔ 4096 ≤ data.size ∧ file = ⟨.declared data, data⟩ := by
  have hparse : (parse data).result =
      TreeHeader.read data >>= fun header => .ok { header, data } := by
    rw [parse, Attempt.result_bind, Attempt.result_lift]
    congr 1
    funext header
    cases header.expectedLength? <;> rfl
  rw [hparse, bind_eq_ok_iff]
  simp only [TreeHeader.read_eq_ok_iff, Except.ok.injEq]
  constructor
  · intro hread
    obtain ⟨header, ⟨hsize, rfl⟩, rfl⟩ := hread
    exact ⟨hsize, rfl⟩
  · intro hdeclared
    obtain ⟨hsize, rfl⟩ := hdeclared
    exact ⟨_, ⟨hsize, rfl⟩, rfl⟩

/-- A block that ends past the file is missing, and its exact end is reported. -/
theorem block_eq (file : HistoryFile) (index : UInt32) :
    file.block index =
      if 4096 + index.toNat * file.header.blockSize.toNat + file.header.blockSize.toNat ≤
          file.data.size then
        .ok (file.data.extract (4096 + index.toNat * file.header.blockSize.toNat)
          (4096 + index.toNat * file.header.blockSize.toNat + file.header.blockSize.toNat))
      else
        .error (.truncatedInput "block"
          (4096 + index.toNat * file.header.blockSize.toNat + file.header.blockSize.toNat)
          file.data.size) := by
  have hstop := (blockOffset?_eq file.header.blockSize index.toNat_lt_size).2
  rw [block, file.header.blockRange?_eq index.toNat_lt_size, Option.map_some,
    Bytes.addressed_some, ok_bind, Bytes.region, Bytes.truncated, Address.clamp_of_le hstop]

theorem result_decode (file : HistoryFile) (index : UInt32) :
    (file.decode index).result =
      file.block index >>= fun block => (decodeBlock block file.header.maxChildren).result := by
  rw [decode, Attempt.result_bind, Attempt.result_lift]

end HistoryFile

/-! ## Blocks one after another -/

namespace Bytes

def join : List Bytes → Bytes
  | [] => #[]
  | block :: rest => block ++ join rest

theorem size_join {blocks : List Bytes} {size : Nat} (h : ∀ block ∈ blocks, block.size = size) :
    (join blocks).size = blocks.length * size := by
  induction blocks with
  | nil => rw [List.length_nil, Nat.zero_mul]; rfl
  | cons block rest ih =>
    rw [List.forall_mem_cons] at h
    rw [join, Array.size_append, h.1, ih h.2, List.length_cons, Nat.succ_mul, Nat.add_comm]

/-- Blocks of one size are found at the multiples of it. -/
theorem extract_join {blocks : List Bytes} {size index : Nat}
    (h : ∀ block ∈ blocks, block.size = size) (hindex : index < blocks.length) :
    (join blocks).extract (index * size) (index * size + size) = blocks[index] := by
  induction blocks generalizing index with
  | nil => exact absurd hindex (Nat.not_lt_zero index)
  | cons block rest ih =>
    rw [List.forall_mem_cons] at h
    rw [join, Array.extract_append]
    cases index with
    | zero =>
      have hrest : (join rest).extract (0 * size - block.size) (0 * size + size - block.size) =
          #[] := by
        apply Array.extract_empty_of_stop_le_start
        omega
      rw [hrest, Array.append_empty, Nat.zero_mul, Nat.zero_add, ← h.1, Array.extract_size]
      rfl
    | succ index =>
      have hfirst : block.extract ((index + 1) * size) ((index + 1) * size + size) = #[] := by
        apply Array.extract_empty_of_size_le_start
        rw [h.1, Nat.succ_mul]
        exact Nat.le_add_left _ _
      have hstart : (index + 1) * size - block.size = index * size := by
        rw [h.1, Nat.succ_mul, Nat.add_sub_cancel]
      have hstop : (index + 1) * size + size - block.size = index * size + size := by
        rw [h.1, Nat.add_sub_cancel, Nat.succ_mul]
      rw [hfirst, Array.empty_append, hstart, hstop]
      exact ih h.2 (Nat.lt_of_succ_lt_succ hindex)

end Bytes

/-! ## Encoded files -/

/-- The block of a record in files with the header. -/
def EncodesTo (header : TreeHeader) (record : NodeRecord) (block : Bytes) : Prop :=
  encodeBlock record [] header.blockSize header.maxChildren = .ok block

/-- A file is encoded exactly if all its records are, and then holds their blocks. -/
theorem encodeFile_eq_ok_iff {header : TreeHeader} {records : List NodeRecord} {data : Bytes} :
    encodeFile header records = .ok data ↔
      ∃ blocks, List.Forall₂ (EncodesTo header) records blocks ∧
        data = header.encode ++ Bytes.join blocks := by
  rw [encodeFile]
  generalize header.encode = start
  induction records generalizing start with
  | nil =>
    simp only [List.foldlM_nil, pure_eq_ok_iff, List.forall₂_nil_left_iff, exists_eq_left,
      Bytes.join, Array.append_empty]
    exact eq_comm
  | cons record rest ih =>
    simp only [List.foldlM_cons, bind_eq_ok_iff, pure_eq_ok_iff, ih]
    constructor
    · intro hencode
      obtain ⟨_, ⟨block, hblock, rfl⟩, blocks, hblocks, rfl⟩ := hencode
      refine ⟨block :: blocks, .cons hblock hblocks, ?_⟩
      rw [Bytes.join, Array.append_assoc]
    · intro hblocks
      obtain ⟨_, hblocks, rfl⟩ := hblocks
      cases hblocks with
      | cons hblock hblocks =>
        refine ⟨_, ⟨_, hblock, rfl⟩, _, hblocks, ?_⟩
        rw [Bytes.join, Array.append_assoc]

theorem exists_encodeFile {header : TreeHeader} {records : List NodeRecord}
    (h : ∀ record ∈ records, ∃ block, EncodesTo header record block) :
    ∃ data, encodeFile header records = .ok data := by
  have hblocks : ∃ blocks, List.Forall₂ (EncodesTo header) records blocks := by
    induction records with
    | nil => exact ⟨[], .nil⟩
    | cons record rest ih =>
      rw [List.forall_mem_cons] at h
      obtain ⟨block, hblock⟩ := h.1
      obtain ⟨blocks, hrest⟩ := ih h.2
      exact ⟨block :: blocks, .cons hblock hrest⟩
  obtain ⟨blocks, hblocks⟩ := hblocks
  exact ⟨_, encodeFile_eq_ok_iff.mpr ⟨blocks, hblocks, rfl⟩⟩

namespace HistoryFile

/-- The file that consists of a preamble and the blocks. -/
def ofBlocks (header : TreeHeader) (blocks : List Bytes) : HistoryFile where
  header := header
  data := header.encode ++ Bytes.join blocks

section OfBlocks

variable {header : TreeHeader} {blocks : List Bytes}

theorem header_ofBlocks (header : TreeHeader) (blocks : List Bytes) :
    (ofBlocks header blocks).header = header := rfl

theorem size_ofBlocks (h : ∀ block ∈ blocks, block.size = header.blockSize.toNat) :
    (ofBlocks header blocks).data.size = 4096 + blocks.length * header.blockSize.toNat := by
  rw [ofBlocks, Array.size_append, header.size_encode, Bytes.size_join h]

/-- A file that was put together is parsed as it is. -/
theorem parse_ofBlocks (header : TreeHeader) (blocks : List Bytes) :
    (parse (ofBlocks header blocks).data).result = .ok (ofBlocks header blocks) := by
  rw [result_parse_eq_ok_iff, ofBlocks]
  constructor
  · rw [Array.size_append, header.size_encode]
    exact Nat.le_add_right 4096 _
  · rw [TreeHeader.declared_encode_append]

theorem block_ofBlocks (hsize : ∀ block ∈ blocks, block.size = header.blockSize.toNat)
    {index : UInt32} (h : index.toNat < blocks.length) :
    (ofBlocks header blocks).block index = .ok blocks[index.toNat] := by
  have hfits : 4096 + index.toNat * header.blockSize.toNat + header.blockSize.toNat ≤
      (ofBlocks header blocks).data.size := by
    rw [size_ofBlocks hsize]
    exact blockStop_le _ h
  have hpreamble : header.encode.extract (4096 + index.toNat * header.blockSize.toNat)
      (4096 + index.toNat * header.blockSize.toNat + header.blockSize.toNat) = #[] := by
    apply Array.extract_empty_of_size_le_start
    rw [header.size_encode]
    exact Nat.le_add_right 4096 _
  calc (ofBlocks header blocks).block index
    _ = .ok ((header.encode ++ Bytes.join blocks).extract
          (4096 + index.toNat * header.blockSize.toNat)
          (4096 + index.toNat * header.blockSize.toNat + header.blockSize.toNat)) := by
      rw [block_eq, header_ofBlocks, if_pos hfits, ofBlocks]
    _ = .ok ((Bytes.join blocks).extract (index.toNat * header.blockSize.toNat)
          (index.toNat * header.blockSize.toNat + header.blockSize.toNat)) := by
      rw [Array.extract_append, hpreamble, Array.empty_append, header.size_encode,
        Nat.add_assoc, Nat.add_sub_cancel_left, Nat.add_sub_cancel_left]
    _ = .ok blocks[index.toNat] := by
      rw [Bytes.extract_join hsize h]

/-- The first block after those of the file is missing, unless blocks have no bytes. -/
theorem block_ofBlocks_length (hsize : ∀ block ∈ blocks, block.size = header.blockSize.toNat)
    (hsome : 0 < header.blockSize.toNat) {index : UInt32} (h : index.toNat = blocks.length) :
    (ofBlocks header blocks).block index =
      .error (.truncatedInput "block" (4096 + (blocks.length + 1) * header.blockSize.toNat)
        (ofBlocks header blocks).data.size) := by
  have hpast : ¬ 4096 + index.toNat * header.blockSize.toNat + header.blockSize.toNat ≤
      (ofBlocks header blocks).data.size := by
    rw [size_ofBlocks hsize, h]
    omega
  rw [block_eq, header_ofBlocks, if_neg hpast, Nat.succ_mul, ← Nat.add_assoc, h]

end OfBlocks

end HistoryFile

end HistoryTree
