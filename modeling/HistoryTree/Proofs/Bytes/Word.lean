import HistoryTree.Bytes.Field

/-!
# Bytes and words at an offset

What stands at an offset, as total functions: past the end every byte counts as
zero. A field that lies within the bytes reads exactly the word at its offset
(`Field.read_eq_ok_iff`), and a word determines the bytes that write it
(`toBytes_wordAt`).
-/

namespace HistoryTree

namespace Bytes

/-- The byte at `position`, zero past the end. -/
def byteAt (data : Bytes) (position : Nat) : UInt8 :=
  data[position]?.getD 0

/-- The number that the four bytes from `offset` on write, the first byte being the
least significant. -/
def wordAt (data : Bytes) (offset : Nat) : UInt32 :=
  UInt32.ofNat
    ((data.byteAt offset).toNat + 0x100 * (data.byteAt (offset + 1)).toNat +
      0x10000 * (data.byteAt (offset + 2)).toNat +
      0x1000000 * (data.byteAt (offset + 3)).toNat)

/-- The `length` bytes from `offset` on. -/
def bytesAt (data : Bytes) (offset length : Nat) : List UInt8 :=
  (List.range length).map fun index => data.byteAt (offset + index)

@[simp]
theorem length_bytesAt (data : Bytes) (offset length : Nat) :
    (data.bytesAt offset length).length = length := by
  simp [bytesAt]

theorem byteAt_eq_getElem {data : Bytes} {position : Nat} (h : position < data.size) :
    data.byteAt position = data[position] := by
  simp [byteAt, h]

theorem byteAt_eq_zero {data : Bytes} {position : Nat} (h : data.size ≤ position) :
    data.byteAt position = 0 := by
  rw [byteAt, Array.getElem?_eq_none h, Option.getD_none]

@[simp]
theorem byteAt_zeros (length position : Nat) : (zeros length).byteAt position = 0 := by
  rw [byteAt, zeros, Array.getElem?_replicate]
  split <;> rfl

/-- Within the bytes, a stretch is cut out as it stands. -/
theorem toList_extract_eq_bytesAt {data : Bytes} {offset length : Nat}
    (h : offset + length ≤ data.size) :
    (data.extract offset (offset + length)).toList = data.bytesAt offset length := by
  apply List.ext_getElem
  · simp
    omega
  intro index hleft hright
  simp only [length_bytesAt] at hright
  have hposition : offset + index < data.size := by omega
  simp [bytesAt, byteAt_eq_getElem hposition]

/-- A part of the bytes shows what stands there in the whole. -/
theorem byteAt_extract {data : Bytes} {start stop position : Nat}
    (hposition : start + position < stop) (hstop : stop ≤ data.size) :
    Bytes.byteAt (data.extract start stop) position = data.byteAt (start + position) := by
  have hinside : position < min stop data.size - start := by omega
  have hwhole : start + position < data.size := by omega
  simp [byteAt, hinside, hwhole]

theorem wordAt_extract {data : Bytes} {start stop offset : Nat}
    (hoffset : start + offset + 4 ≤ stop) (hstop : stop ≤ data.size) :
    Bytes.wordAt (data.extract start stop) offset = data.wordAt (start + offset) := by
  unfold wordAt
  rw [byteAt_extract (by omega) hstop, byteAt_extract (by omega) hstop,
    byteAt_extract (by omega) hstop, byteAt_extract (by omega) hstop]
  simp only [Nat.add_assoc]

/-- A word is told by the four bytes that write it. -/
theorem wordAt_congr {left right : Bytes} {offset : Nat}
    (h : ∀ position, offset ≤ position → position < offset + 4 →
      left.byteAt position = right.byteAt position) :
    left.wordAt offset = right.wordAt offset := by
  rw [wordAt, wordAt, h offset (by omega) (by omega), h (offset + 1) (by omega) (by omega),
    h (offset + 2) (by omega) (by omega), h (offset + 3) (by omega) (by omega)]

theorem size_le_append (data more : Bytes) : data.size ≤ (data ++ more).size := by
  rw [Array.size_append]
  exact Nat.le_add_right _ _

/-- Bytes that follow do not change what stands before them. -/
theorem byteAt_append_left {data : Bytes} {position : Nat} (h : position < data.size)
    (more : Bytes) : Bytes.byteAt (data ++ more) position = data.byteAt position := by
  rw [byteAt, Array.getElem?_append_left h, byteAt]

theorem wordAt_append_left {data : Bytes} {offset : Nat} (h : offset + 4 ≤ data.size)
    (more : Bytes) : Bytes.wordAt (data ++ more) offset = data.wordAt offset := by
  apply wordAt_congr
  intro position _ hto
  exact byteAt_append_left (Nat.lt_of_lt_of_le hto h) more

/-- What is cut out before the end does not depend on what follows. -/
theorem extract_append_left {data : Bytes} {start stop : Nat} (h : stop ≤ data.size)
    (more : Bytes) : (data ++ more).extract start stop = data.extract start stop := by
  have hmore : more.extract (start - data.size) (stop - data.size) = #[] := by
    apply Array.extract_empty_of_stop_le_start
    omega
  rw [Array.extract_append, hmore, Array.append_empty]

theorem byteAt_append_right (first second : Bytes) (position : Nat) :
    Bytes.byteAt (first ++ second) (first.size + position) = second.byteAt position := by
  rw [byteAt, Array.getElem?_append_right (Nat.le_add_right _ _), Nat.add_sub_cancel_left,
    byteAt]

theorem wordAt_append_right (first second : Bytes) (offset : Nat) :
    Bytes.wordAt (first ++ second) (first.size + offset) = second.wordAt offset := by
  simp only [wordAt, Nat.add_assoc, byteAt_append_right]

/-- Four bytes write the word at their offset. -/
theorem ofBytes_bytesAt_four (data : Bytes) (offset : Nat) :
    (LittleEndian.ofBytes (data.bytesAt offset 4) : UInt32) = data.wordAt offset := by
  have hbytes : data.bytesAt offset 4 = [data.byteAt offset, data.byteAt (offset + 1),
      data.byteAt (offset + 2), data.byteAt (offset + 3)] := rfl
  rw [hbytes, wordAt]
  change UInt32.ofNat _ = UInt32.ofNat _
  congr 1
  simp only [ofLittleEndian]
  omega

theorem ofBytes_bytesAt_one (data : Bytes) (offset : Nat) :
    (LittleEndian.ofBytes (data.bytesAt offset 1) : UInt8) = data.byteAt offset := by
  change UInt8.ofNat ((data.byteAt offset).toNat + 256 * 0) = data.byteAt offset
  simp

theorem toBytes_wordAt (data : Bytes) (offset : Nat) :
    LittleEndian.toBytes (data.wordAt offset) = data.bytesAt offset 4 := by
  rw [← ofBytes_bytesAt_four]
  exact LittleEndian.toBytes_ofBytes _ (length_bytesAt data offset 4)

/-- Equal words are written by equal bytes. -/
theorem byteAt_eq_of_wordAt_eq {left right : Bytes} {offset position : Nat}
    (hword : left.wordAt offset = right.wordAt offset) (hfrom : offset ≤ position)
    (hto : position < offset + 4) : left.byteAt position = right.byteAt position := by
  have hbytes : left.bytesAt offset 4 = right.bytesAt offset 4 := by
    rw [← toBytes_wordAt, ← toBytes_wordAt, hword]
  have hindex := congrArg (fun bytes => bytes[position - offset]?) hbytes
  have hless : position - offset < 4 := by omega
  have hposition : offset + (position - offset) = position := by omega
  simpa [bytesAt, hless, hposition] using hindex

end Bytes

namespace LittleEndian

theorem width_byte : width UInt8 = 1 := rfl

theorem width_word : width UInt32 = 4 := rfl

end LittleEndian

namespace Field

variable {α : Type} [LittleEndian α]

/-- The word that the field holds in `data`. -/
def valueIn (field : Field α) (data : Bytes) : α :=
  LittleEndian.ofBytes (data.bytesAt field.offset (LittleEndian.width α))

@[simp]
theorem valueIn_byte (field : Field UInt8) (data : Bytes) :
    field.valueIn data = data.byteAt field.offset :=
  data.ofBytes_bytesAt_one field.offset

@[simp]
theorem valueIn_word (field : Field UInt32) (data : Bytes) :
    field.valueIn data = data.wordAt field.offset :=
  data.ofBytes_bytesAt_four field.offset

/-- A field is read as what it holds if it ends within the bytes. -/
theorem read_eq_ok_iff {field : Field α} {data : Bytes} {word : α} :
    field.read data = .ok word ↔ field.stop ≤ data.size ∧ field.valueIn data = word := by
  rw [read_eq]
  by_cases hstop : field.stop ≤ data.size
  · have hbytes := Bytes.toList_extract_eq_bytesAt hstop
    rw [if_pos hstop, valueIn, ← hbytes]
    simp only [Except.ok.injEq, hstop, true_and]
    rfl
  · simp [hstop]

/-- What has been read from the bytes that write a word is that word. -/
theorem valueIn_of_bytesAt {field : Field α} {data : Bytes} {word : α}
    (h : data.bytesAt field.offset (LittleEndian.width α) = LittleEndian.toBytes word) :
    field.valueIn data = word := by
  rw [valueIn, h]
  exact LittleEndian.ofBytes_toBytes word

end Field

end HistoryTree
