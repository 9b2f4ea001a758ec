import HistoryTree.Format.Preamble
import HistoryTree.Proofs.Bytes.Word
import HistoryTree.Proofs.Success

/-!
# Reading the preamble

The preamble is read word by word at fixed offsets, but written as words one after
another. What was written is read back, whatever follows it in the file
(`TreeHeader.declared_encode_append`).
-/

namespace HistoryTree

open Layout

/-! ## Words one after another -/

namespace Bytes

/-- A word at the start of the bytes is read there. -/
theorem wordAt_toBytes_append (word : UInt32) (rest : Bytes) :
    Bytes.wordAt ((LittleEndian.toBytes word).toArray ++ rest) 0 = word := by
  have hlength : (LittleEndian.toBytes word).length = 4 := LittleEndian.length_toBytes word
  have hbytes : Bytes.bytesAt ((LittleEndian.toBytes word).toArray ++ rest) 0 4 =
      LittleEndian.toBytes word := by
    apply List.ext_getElem
    · rw [length_bytesAt, hlength]
    intro index _ hindex
    have hinside : index < (LittleEndian.toBytes word).toArray.size := hindex
    simp [bytesAt, byteAt, Array.getElem?_append_left hinside,
      List.getElem?_eq_getElem hindex]
  rw [← ofBytes_bytesAt_four, hbytes, LittleEndian.ofBytes_toBytes]

/-- Words that are written one after another are read at multiples of four. -/
theorem wordAt_words (words : List UInt32) (rest : Bytes) {index : Nat}
    (h : index < words.length) :
    Bytes.wordAt ((words.flatMap LittleEndian.toBytes).toArray ++ rest) (4 * index) =
      words[index] := by
  induction words generalizing index with
  | nil => exact absurd h (Nat.not_lt_zero index)
  | cons word words ih =>
    have hjoin : ((word :: words).flatMap LittleEndian.toBytes).toArray ++ rest =
        (LittleEndian.toBytes word).toArray ++
          ((words.flatMap LittleEndian.toBytes).toArray ++ rest) := by
      rw [List.flatMap_cons, ← List.append_toArray, Array.append_assoc]
    rw [hjoin]
    cases index with
    | zero => exact wordAt_toBytes_append word _
    | succ index =>
      have hsize : (LittleEndian.toBytes word).toArray.size = 4 := by
        rw [List.size_toArray, LittleEndian.length_toBytes]
        rfl
      have hoffset : 4 * (index + 1) =
          (LittleEndian.toBytes word).toArray.size + 4 * index := by
        rw [hsize, Nat.mul_succ, Nat.add_comm]
      rw [hoffset, wordAt_append_right, List.getElem_cons_succ]
      exact ih (Nat.lt_of_succ_lt_succ h)

end Bytes

/-! ## The header -/

namespace TreeHeader

/-- The header that a file declares with the words it begins with. -/
def declared (data : Bytes) : TreeHeader where
  magic := data.wordAt 0
  major := data.wordAt 4
  minor := data.wordAt 8
  blockSize := data.wordAt 12
  maxChildren := data.wordAt 16
  nodeCount := data.wordAt 20
  rootSeq := ⟨data.wordAt 24⟩

theorem declared_extract {data : Bytes} (hsize : 4096 ≤ data.size) :
    declared (data.extract 0 4096) = declared data := by
  have hword (offset : Nat) (h : offset + 4 ≤ 4096) :
      Bytes.wordAt (data.extract 0 4096) offset = data.wordAt offset := by
    rw [Bytes.wordAt_extract ((Nat.zero_add offset).symm ▸ h) hsize, Nat.zero_add]
  simp (disch := decide) only [declared, hword]

/-- Any file that holds a whole preamble has a header. -/
theorem read_eq_ok_iff {data : Bytes} {header : TreeHeader} :
    read data = .ok header ↔ 4096 ≤ data.size ∧ header = declared data := by
  simp only [read, bind_eq_ok_iff, pure_eq_ok_iff, Field.read_eq_ok_iff, Field.valueIn_word,
    Bytes.region_eq_ok_iff]
  constructor
  · intro hread
    obtain ⟨_, ⟨hsize, rfl⟩, _, ⟨-, rfl⟩, _, ⟨-, rfl⟩, _, ⟨-, rfl⟩, _, ⟨-, rfl⟩, _, ⟨-, rfl⟩,
      _, ⟨-, rfl⟩, _, ⟨-, rfl⟩, rfl⟩ := hread
    exact ⟨hsize, declared_extract hsize⟩
  · intro hdeclared
    obtain ⟨hsize, rfl⟩ := hdeclared
    have hcut : min 4096 data.size = 4096 := Nat.min_eq_left hsize
    have hstop {stop : Nat} (h : stop ≤ 4096) : stop ≤ (data.extract 0 4096).size := by
      rw [Array.size_extract, hcut]
      exact h
    rw [← declared_extract hsize]
    exact ⟨_, ⟨hsize, rfl⟩, _, ⟨hstop (by decide), rfl⟩, _, ⟨hstop (by decide), rfl⟩, _,
      ⟨hstop (by decide), rfl⟩, _, ⟨hstop (by decide), rfl⟩, _, ⟨hstop (by decide), rfl⟩, _,
      ⟨hstop (by decide), rfl⟩, _, ⟨hstop (by decide), rfl⟩, rfl⟩

theorem length_words (header : TreeHeader) :
    (header.words.flatMap LittleEndian.toBytes).length = 28 := rfl

theorem size_encode (header : TreeHeader) : header.encode.size = 4096 := by
  rw [encode, Array.size_append, List.size_toArray, Bytes.size_zeros, length_words]
  rfl

/-- A header that was written at the start of a file is the one it declares. -/
theorem declared_encode_append (header : TreeHeader) (rest : Bytes) :
    declared (header.encode ++ rest) = header := by
  have hword {index : Nat} (h : index < header.words.length) :
      Bytes.wordAt (header.encode ++ rest) (4 * index) = header.words[index] := by
    rw [encode, Array.append_assoc]
    exact Bytes.wordAt_words header.words _ h
  have hmagic : Bytes.wordAt (header.encode ++ rest) 0 = header.magic :=
    hword (by decide : 0 < 7)
  have hmajor : Bytes.wordAt (header.encode ++ rest) 4 = header.major :=
    hword (by decide : 1 < 7)
  have hminor : Bytes.wordAt (header.encode ++ rest) 8 = header.minor :=
    hword (by decide : 2 < 7)
  have hblockSize : Bytes.wordAt (header.encode ++ rest) 12 = header.blockSize :=
    hword (by decide : 3 < 7)
  have hmaxChildren : Bytes.wordAt (header.encode ++ rest) 16 = header.maxChildren :=
    hword (by decide : 4 < 7)
  have hnodeCount : Bytes.wordAt (header.encode ++ rest) 20 = header.nodeCount :=
    hword (by decide : 5 < 7)
  have hrootSeq : Bytes.wordAt (header.encode ++ rest) 24 = header.rootSeq.value :=
    hword (by decide : 6 < 7)
  rw [declared, hmagic, hmajor, hminor, hblockSize, hmaxChildren, hnodeCount, hrootSeq]

end TreeHeader

end HistoryTree
