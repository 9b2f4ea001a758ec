import HistoryTree.Proofs.Bytes.Word
import HistoryTree.Proofs.Dump.Shown
import HistoryTree.Proofs.Text.Lossy

/-!
# What the offset of a string leads to

A string is followed exactly if its length and as many bytes as that lie within the block
(`readString?_eq`), and then only those bytes matter (`readString?_eq_of_agree`).
How a value is shown tells whether it was followed, and if so, to which text
(`Interval.followsString`).
-/

namespace HistoryTree

open Text

namespace Bytes

variable {block other : Bytes} {offset : UInt32}

/-- Where the string at `offset` ends: behind its length and as many bytes as that says. -/
def stringStop (block : Bytes) (offset : UInt32) : Nat :=
  offset.toNat + 4 + (block.wordAt offset.toNat).toNat

/-- The length of a string lies within the block, and so do the bytes that it counts. -/
def HoldsString (block : Bytes) (offset : UInt32) : Prop :=
  offset.toNat + 4 ≤ block.size ∧ block.stringStop offset ≤ block.size

instance (block : Bytes) (offset : UInt32) : Decidable (block.HoldsString offset) :=
  inferInstanceAs (Decidable (_ ∧ _))

/-- The bytes of the string at `offset`. -/
def stringBytes (block : Bytes) (offset : UInt32) : List UInt8 :=
  (block.extract (offset.toNat + 4) (block.stringStop offset)).toList

/-- Two words together are no address yet that could be out of range. -/
theorem stringStop_le_last (block : Bytes) (offset : UInt32) :
    block.stringStop offset ≤ Address.last := by
  have hoffset := offset.toNat_lt
  have hlength := (block.wordAt offset.toNat).toNat_lt
  rw [stringStop, Address.last]
  omega

/-- The length is read from the block, or misses exactly the bytes up to its end. -/
theorem read_stringLength (block : Bytes) (offset : UInt32) :
    (⟨"string length", offset.toNat⟩ : Field UInt32).read block =
      if offset.toNat + 4 ≤ block.size then .ok (block.wordAt offset.toNat)
      else .error (.truncatedInput "string length" (offset.toNat + 4) block.size) := by
  have hlast : offset.toNat + 4 ≤ Address.last :=
    Nat.le_trans (Nat.le_add_right _ _) (block.stringStop_le_last offset)
  split
  next hlength => exact Field.read_eq_ok_iff.mpr ⟨hlength, Field.valueIn_word _ _⟩
  next hlength =>
    have hstop : (⟨"string length", offset.toNat⟩ : Field UInt32).stop = offset.toNat + 4 := rfl
    rw [Field.read_eq, hstop, if_neg hlength, truncated, Address.clamp_of_le hlast]

/-- The bytes are cut out of the block, or it misses exactly those up to their end. -/
theorem region_string (block : Bytes) (offset : UInt32) :
    block.region "string" (offset.toNat + 4) (block.wordAt offset.toNat).toNat =
      if block.stringStop offset ≤ block.size then
        .ok (block.extract (offset.toNat + 4) (block.stringStop offset))
      else .error (.truncatedInput "string" (block.stringStop offset) block.size) := by
  have hlast := block.stringStop_le_last offset
  rw [stringStop] at hlast ⊢
  rw [region, truncated, Address.clamp_of_le hlast]

/-- Blocks that agree on the bytes of a string hold it both. -/
theorem stringStop_eq_of_agree
    (h : ∀ position, offset.toNat ≤ position → position < block.stringStop offset →
      other.byteAt position = block.byteAt position) :
    other.stringStop offset = block.stringStop offset := by
  have hlength : other.wordAt offset.toNat = block.wordAt offset.toNat := by
    apply wordAt_congr
    intro position hfrom hto
    exact h position hfrom (Nat.lt_of_lt_of_le hto (Nat.le_add_right _ _))
  rw [stringStop, hlength, stringStop]

theorem stringBytes_eq_of_agree (hblock : block.stringStop offset ≤ block.size)
    (hother : block.stringStop offset ≤ other.size)
    (h : ∀ position, offset.toNat ≤ position → position < block.stringStop offset →
      other.byteAt position = block.byteAt position) :
    other.stringBytes offset = block.stringBytes offset := by
  have hlength := stringStop_eq_of_agree h
  rw [stringBytes, hlength, stringBytes, stringStop, toList_extract_eq_bytesAt hother,
    toList_extract_eq_bytesAt hblock]
  apply List.map_congr_left
  intro index hindex
  have hinside := List.mem_range.mp hindex
  rw [stringStop] at h
  exact h _ (by omega) (by omega)

end Bytes

section Reading

variable {block other : Bytes} {offset : UInt32}

theorem readString?_eq (block : Bytes) (offset : UInt32) :
    readString? block offset =
      if block.HoldsString offset then some (Utf8.decodeLossy (block.stringBytes offset))
      else none := by
  have hstart : Address.add? offset.toNat (LittleEndian.width UInt32) =
      some (offset.toNat + 4) :=
    Address.add?_of_le (Nat.le_trans (Nat.le_add_right _ _) (block.stringStop_le_last offset))
  simp only [readString?, block.read_stringLength offset, hstart, Option.bind_eq_bind]
  by_cases hlength : offset.toNat + 4 ≤ block.size
  · rw [if_pos hlength, Except.toOption, Option.bind_some, Option.bind_some,
      block.region_string offset]
    by_cases hstop : block.stringStop offset ≤ block.size
    · rw [if_pos hstop, if_pos ⟨hlength, hstop⟩]
      rfl
    · rw [if_neg hstop, if_neg fun held => hstop held.2]
      rfl
  · rw [if_neg hlength, if_neg fun held => hlength held.1]
    rfl

/-- A string that was followed does not depend on any other bytes. -/
theorem readString?_eq_of_agree (held : block.HoldsString offset)
    (hother : block.stringStop offset ≤ other.size)
    (h : ∀ position, offset.toNat ≤ position → position < block.stringStop offset →
      other.byteAt position = block.byteAt position) :
    readString? other offset = readString? block offset := by
  have hstop := Bytes.stringStop_eq_of_agree h
  have hheld : other.HoldsString offset :=
    ⟨Nat.le_trans (Nat.le_add_right _ _) hother, hstop.symm ▸ hother⟩
  rw [readString?_eq, if_pos hheld, readString?_eq, if_pos held,
    Bytes.stringBytes_eq_of_agree held.2 hother h]

end Reading

/-- Only a text is shown with a quote in front. -/
theorem head?_toString_str (text : String) :
    (toString (Value.str text)).toList.head? = some '"' := by
  change (quote text).toList.head? = some '"'
  rw [quote, String.toList_ofList]
  rfl

theorem head?_toString_raw (word : UInt32) :
    (toString (Value.raw word)).toList.head? ≠ some '"' := by
  have hdigits : Lacks (toString (Value.raw word)) '"' := lacks_word (by decide) word
  exact fun hquote => hdigits (List.mem_of_mem_head? hquote)

namespace Interval

/-- What becomes of an interval whose value is the offset of a string. -/
structure FollowsString (interval : Interval) (block : Bytes) : Prop where
  str_iff (text : String) : interval.interpret block = .str text ↔
    block.HoldsString interval.value ∧
      text = Utf8.decodeLossy (block.extract (interval.value.toNat + 4)
        (interval.value.toNat + 4 + (block.wordAt interval.value.toNat).toNat)).toList
  /-- The text has the characters that the bytes are made of, as far as they are UTF-8. -/
  lossy (text : String) (followed : interval.interpret block = .str text) :
    Utf8.Lossy (block.extract (interval.value.toNat + 4)
      (interval.value.toNat + 4 + (block.wordAt interval.value.toNat).toNat)).toList text.toList
  raw_iff (word : UInt32) : interval.interpret block = .raw word ↔
    ¬ block.HoldsString interval.value ∧ word = interval.value
  /-- The length lies within the block, or its exact end is missed. -/
  lengthRead : (⟨"string length", interval.value.toNat⟩ : Field UInt32).read block =
    if interval.value.toNat + 4 ≤ block.size then .ok (block.wordAt interval.value.toNat)
    else .error (.truncatedInput "string length" (interval.value.toNat + 4) block.size)
  /-- So do the bytes, or their exact end is missed: no sum of offsets is out of range. -/
  bytesRead : block.region "string" (interval.value.toNat + 4)
      (block.wordAt interval.value.toNat).toNat =
    if block.stringStop interval.value ≤ block.size then
      .ok (block.extract (interval.value.toNat + 4) (block.stringStop interval.value))
    else .error (.truncatedInput "string" (block.stringStop interval.value) block.size)
  quoted_iff : (toString (interval.interpret block)).toList.head? = some '"' ↔
    block.HoldsString interval.value
  shown_iff (other : Interval) (otherBlock : Bytes) (text otherText : String)
      (followed : interval.interpret block = .str text)
      (followed' : other.interpret otherBlock = .str otherText) :
    toString (interval.interpret block) = toString (other.interpret otherBlock) ↔
      text = otherText
  /-- Only the length and the bytes of the string matter. -/
  kept (other : Bytes) (held : block.HoldsString interval.value)
      (reaches : block.stringStop interval.value ≤ other.size)
      (agree : ∀ position, interval.value.toNat ≤ position →
        position < block.stringStop interval.value →
          other.byteAt position = block.byteAt position) :
    interval.interpret other = interval.interpret block
  kept_append (more : Bytes) (held : block.HoldsString interval.value) :
    interval.interpret (block ++ more) = interval.interpret block

variable {interval : Interval}

theorem interpret_str (h : interval.valueType = .str) (block : Bytes) :
    interval.interpret block =
      (readString? block interval.value).elim (.raw interval.value) .str := by
  rw [interpret, h]
  cases readString? block interval.value <;> rfl

theorem interpret_of_holdsString (h : interval.valueType = .str) {block : Bytes}
    (held : block.HoldsString interval.value) :
    interval.interpret block = .str (Utf8.decodeLossy (block.stringBytes interval.value)) := by
  rw [interpret_str h, readString?_eq, if_pos held, Option.elim_some]

theorem interpret_of_not_holdsString (h : interval.valueType = .str) {block : Bytes}
    (missing : ¬ block.HoldsString interval.value) :
    interval.interpret block = .raw interval.value := by
  rw [interpret_str h, readString?_eq, if_neg missing, Option.elim_none]

theorem interpret_eq_of_agree (h : interval.valueType = .str) {block other : Bytes}
    (held : block.HoldsString interval.value)
    (hother : block.stringStop interval.value ≤ other.size)
    (hagree : ∀ position, interval.value.toNat ≤ position →
      position < block.stringStop interval.value →
        other.byteAt position = block.byteAt position) :
    interval.interpret other = interval.interpret block := by
  rw [interpret_str h, interpret_str h, readString?_eq_of_agree held hother hagree]

/-- The offset of a string is followed exactly as far as the block goes: to the text that
stands there if all of it does, whatever else the block holds, and otherwise not at all. -/
theorem followsString (h : interval.valueType = .str) (block : Bytes) :
    interval.FollowsString block where
  str_iff text := by
    by_cases held : block.HoldsString interval.value
    · rw [interpret_of_holdsString h held, Value.str.injEq, and_iff_right held]
      exact eq_comm
    · simp [interpret_of_not_holdsString h held, held]
  lossy text followed := by
    by_cases held : block.HoldsString interval.value
    · rw [interpret_of_holdsString h held] at followed
      exact Utf8.lossy_iff.mpr (Value.str.inj followed).symm
    · rw [interpret_of_not_holdsString h held] at followed
      contradiction
  raw_iff word := by
    by_cases held : block.HoldsString interval.value
    · simp [interpret_of_holdsString h held, held]
    · rw [interpret_of_not_holdsString h held, Value.raw.injEq, and_iff_right held]
      exact eq_comm
  lengthRead := block.read_stringLength interval.value
  bytesRead := block.region_string interval.value
  quoted_iff := by
    by_cases held : block.HoldsString interval.value
    · rw [interpret_of_holdsString h held]
      exact iff_of_true (head?_toString_str _) held
    · rw [interpret_of_not_holdsString h held]
      exact iff_of_false (head?_toString_raw _) held
  shown_iff other otherBlock text otherText followed followed' := by
    rw [followed, followed']
    exact ⟨fun hshown => quote_inj hshown, fun htexts => htexts ▸ rfl⟩
  kept other held reaches agree := interpret_eq_of_agree h held reaches agree
  kept_append more held := by
    have hreaches := Nat.le_trans held.2 (Bytes.size_le_append block more)
    refine interpret_eq_of_agree h held hreaches fun position _ hto => ?_
    exact Bytes.byteAt_append_left (Nat.lt_of_lt_of_le hto held.2) more

/-- A block with a string at 2 that is not UTF-8 and has a line break and a quote. -/
def mangledBlock : Bytes :=
  #[9, 9, 4, 0, 0, 0, 97, 255, 10, 34]

/-- The value at 2 leads to the string, and the one at 3, whose length goes past the end, to
nothing. -/
theorem followsString_mangledBlock :
    (Interval.mk 0 9 7 .str 2).interpret mangledBlock = .str "a\uFFFD\n\"" ∧
      (toString ((Interval.mk 0 9 7 .str 2).interpret (mangledBlock ++ #[1, 2]))).toList.head? =
        some '"' ∧
      (Interval.mk 0 9 7 .str 3).interpret mangledBlock = .raw 3 := by
  have hheld : mangledBlock.HoldsString 2 := by decide
  have hmissing : ¬ mangledBlock.HoldsString 3 := by decide
  have hfollows : (Interval.mk 0 9 7 .str 2).FollowsString mangledBlock := followsString rfl _
  have hstays : (Interval.mk 0 9 7 .str 3).FollowsString mangledBlock := followsString rfl _
  refine ⟨(hfollows.str_iff _).mpr ⟨hheld, by decide⟩, ?_, (hstays.raw_iff 3).mpr ⟨hmissing, rfl⟩⟩
  rw [hfollows.kept_append _ hheld]
  exact hfollows.quoted_iff.mpr hheld

end Interval

end HistoryTree
