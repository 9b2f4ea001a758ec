import HistoryTree.Text.Utf8
import Mathlib.Tactic.IntervalCases

/-!
# Decoding encoded text

The decoder reads the bytes of an encoded character and then stands where it stood
before, with that character at the end of its text. What was encoded is therefore
decoded without loss (`decodeLossy_encode`).
-/

namespace HistoryTree.Utf8

/-! ## First bytes -/

theorem ofLead?_two {bits : Nat} (hlow : 2 ≤ bits) (hhigh : bits < 32) :
    Pending.ofLead? (UInt8.ofNat (bits + 0xC0)) = some ⟨1, 0x80, 0xBF, bits⟩ := by
  interval_cases bits <;> rfl

theorem ofLead?_three {bits : Nat} (h : bits < 16) :
    Pending.ofLead? (UInt8.ofNat (bits + 0xE0)) =
      some ⟨2, if bits = 0 then 0xA0 else 0x80, if bits = 13 then 0x9F else 0xBF, bits⟩ := by
  interval_cases bits <;> rfl

theorem ofLead?_four {bits : Nat} (h : bits < 5) :
    Pending.ofLead? (UInt8.ofNat (bits + 0xF0)) =
      some ⟨3, if bits = 0 then 0x90 else 0x80, if bits = 4 then 0x8F else 0xBF, bits⟩ := by
  interval_cases bits <;> rfl

namespace Decoder

/-- A first byte of several begins a character. -/
theorem feed_lead (text : String) {bits : Nat} {pending : Pending} (hlow : 0x80 ≤ bits)
    (hhigh : bits < 0x100) (h : Pending.ofLead? (UInt8.ofNat bits) = some pending) :
    feed ⟨text, none⟩ (UInt8.ofNat bits) = ⟨text, some pending⟩ := by
  have hbyte : (UInt8.ofNat bits).toNat = bits := UInt8.toNat_ofNat_of_lt' hhigh
  have hmany : ¬ UInt8.ofNat bits < 0x80 := by
    rw [UInt8.lt_iff_toNat_lt, hbyte]
    exact Nat.not_lt.mpr hlow
  rw [feed, feedFirst, if_neg hmany, h]

/-- A byte within the bounds gives six more bits of the character. -/
theorem feed_within (text : String) {remaining held bits : Nat} {low high : UInt8}
    (hbits : bits < 64) (hlow : low.toNat ≤ bits + 0x80) (hhigh : bits + 0x80 ≤ high.toNat) :
    feed ⟨text, some ⟨remaining, low, high, held⟩⟩ (UInt8.ofNat (bits + 0x80)) =
      if remaining ≤ 1 then ⟨text.push (Char.ofNat (held * 64 + bits)), none⟩
      else ⟨text, some ⟨remaining - 1, 0x80, 0xBF, held * 64 + bits⟩⟩ := by
  have hbyte : (UInt8.ofNat (bits + 0x80)).toNat = bits + 0x80 :=
    UInt8.toNat_ofNat_of_lt' (by rw [UInt8.size]; omega)
  have hwithin : low ≤ UInt8.ofNat (bits + 0x80) ∧ UInt8.ofNat (bits + 0x80) ≤ high := by
    rw [UInt8.le_iff_toNat_le, UInt8.le_iff_toNat_le, hbyte]
    exact ⟨hlow, hhigh⟩
  rw [feed]
  simp only [hwithin, and_self, if_true, hbyte, Nat.add_sub_cancel]

/-- After the second byte, the bounds leave out only what is no later byte. -/
theorem feed_later (text : String) {remaining held bits : Nat} (hbits : bits < 64) :
    feed ⟨text, some ⟨remaining, 0x80, 0xBF, held⟩⟩ (UInt8.ofNat (bits + 0x80)) =
      if remaining ≤ 1 then ⟨text.push (Char.ofNat (held * 64 + bits)), none⟩
      else ⟨text, some ⟨remaining - 1, 0x80, 0xBF, held * 64 + bits⟩⟩ := by
  have hhigh : bits + 0x80 ≤ (0xBF : UInt8).toNat :=
    Nat.add_le_add_right (Nat.le_of_lt_succ hbits) 0x80
  exact feed_within text hbits (Nat.le_add_left 0x80 bits) hhigh

/-! ## Characters -/

theorem foldl_feed_one (text : String) {number : Nat} (h : number < 0x80) :
    [UInt8.ofNat number].foldl feed ⟨text, none⟩ = ⟨text.push (Char.ofNat number), none⟩ := by
  have hbyte : (UInt8.ofNat number).toNat = number :=
    UInt8.toNat_ofNat_of_lt' (by rw [UInt8.size]; omega)
  have hascii : UInt8.ofNat number < 0x80 := by
    rw [UInt8.lt_iff_toNat_lt, hbyte]
    exact h
  rw [List.foldl_cons, List.foldl_nil, feed, feedFirst, if_pos hascii, hbyte]

theorem foldl_feed_two (text : String) {high low : Nat} (hhigh : 2 ≤ high) (hsmall : high < 32)
    (hlow : low < 64) :
    [UInt8.ofNat (high + 0xC0), UInt8.ofNat (low + 0x80)].foldl feed ⟨text, none⟩ =
      ⟨text.push (Char.ofNat (high * 64 + low)), none⟩ := by
  have hlead := feed_lead text (by omega) (by omega) (ofLead?_two hhigh hsmall)
  rw [List.foldl_cons, hlead, List.foldl_cons, feed_later text hlow, if_pos (Nat.le_refl 1),
    List.foldl_nil]

/-- The second byte is bounded so that the number is neither overlong nor a surrogate. -/
theorem foldl_feed_three (text : String) {high middle low : Nat} (hhigh : high < 16)
    (hmiddle : middle < 64) (hlow : low < 64) (hlong : high = 0 → 32 ≤ middle)
    (hscalar : high = 13 → middle < 32) :
    [UInt8.ofNat (high + 0xE0), UInt8.ofNat (middle + 0x80), UInt8.ofNat (low + 0x80)].foldl
        feed ⟨text, none⟩ =
      ⟨text.push (Char.ofNat ((high * 64 + middle) * 64 + low)), none⟩ := by
  have hlead := feed_lead text (by omega) (by omega) (ofLead?_three hhigh)
  have hfrom : (if high = 0 then (0xA0 : UInt8) else 0x80).toNat ≤ middle + 0x80 := by
    split
    next hzero => exact Nat.add_le_add_right (hlong hzero) 0x80
    next => exact Nat.le_add_left 0x80 middle
  have hto : middle + 0x80 ≤ (if high = 13 then (0x9F : UInt8) else 0xBF).toNat := by
    split
    next hlast => exact Nat.add_le_add_right (Nat.le_of_lt_succ (hscalar hlast)) 0x80
    next => exact Nat.add_le_add_right (Nat.le_of_lt_succ hmiddle) 0x80
  rw [List.foldl_cons, hlead, List.foldl_cons, feed_within text hmiddle hfrom hto,
    if_neg (by decide), List.foldl_cons, feed_later text hlow, if_pos (Nat.le_refl 1),
    List.foldl_nil]

/-- The second byte is bounded so that the number is neither overlong nor too large. -/
theorem foldl_feed_four (text : String) {high upper middle low : Nat} (hhigh : high < 5)
    (hupper : upper < 64) (hmiddle : middle < 64) (hlow : low < 64)
    (hlong : high = 0 → 16 ≤ upper) (hscalar : high = 4 → upper < 16) :
    [UInt8.ofNat (high + 0xF0), UInt8.ofNat (upper + 0x80), UInt8.ofNat (middle + 0x80),
        UInt8.ofNat (low + 0x80)].foldl feed ⟨text, none⟩ =
      ⟨text.push (Char.ofNat (((high * 64 + upper) * 64 + middle) * 64 + low)), none⟩ := by
  have hlead := feed_lead text (by omega) (by omega) (ofLead?_four hhigh)
  have hfrom : (if high = 0 then (0x90 : UInt8) else 0x80).toNat ≤ upper + 0x80 := by
    split
    next hzero => exact Nat.add_le_add_right (hlong hzero) 0x80
    next => exact Nat.le_add_left 0x80 upper
  have hto : upper + 0x80 ≤ (if high = 4 then (0x8F : UInt8) else 0xBF).toNat := by
    split
    next hlast => exact Nat.add_le_add_right (Nat.le_of_lt_succ (hscalar hlast)) 0x80
    next => exact Nat.add_le_add_right (Nat.le_of_lt_succ hupper) 0x80
  rw [List.foldl_cons, hlead, List.foldl_cons, feed_within text hupper hfrom hto,
    if_neg (by decide), List.foldl_cons, feed_later text hmiddle, if_neg (by decide),
    List.foldl_cons, feed_later text hlow, if_pos (Nat.le_refl 1), List.foldl_nil]

/-- A character is read from its bytes. -/
theorem foldl_feed_utf8EncodeChar (text : String) (char : Char) :
    (String.utf8EncodeChar char).foldl feed ⟨text, none⟩ = ⟨text.push char, none⟩ := by
  have hchar : Char.ofNat char.val.toNat = char := Char.ofNat_toNat char
  have hscalar : char.val.toNat < 0xD800 ∨ 0xDFFF < char.val.toNat ∧ char.val.toNat < 0x110000 :=
    char.valid
  -- The number of bytes goes by the size of the code point.
  unfold String.utf8EncodeChar
  generalize char.val.toNat = number at *
  simp only
  split
  next hone => rw [foldl_feed_one text (by omega), hchar]
  split
  next htwo =>
    rw [foldl_feed_two text (by omega) (by omega) (by omega)]
    rw [← hchar]
    congr 3
    omega
  split
  next hthree =>
    rw [foldl_feed_three text (by omega) (by omega) (by omega) (by omega) (by omega), ← hchar]
    congr 3
    omega
  next hfour =>
    rw [foldl_feed_four text (by omega) (by omega) (by omega) (by omega) (by omega) (by omega),
      ← hchar]
    congr 3
    omega

/-- A text is read character by character. -/
theorem foldl_feed_encode (start text : String) :
    (encode text).foldl feed ⟨start, none⟩ = ⟨start ++ text, none⟩ := by
  rw [encode, ← String.ofList_toList (s := text), String.toList_ofList]
  generalize text.toList = chars
  induction chars generalizing start with
  | nil => rw [String.ofList_nil, String.append_empty]; rfl
  | cons char chars ih =>
    rw [List.flatMap_cons, List.foldl_append, foldl_feed_utf8EncodeChar, ih, String.ofList_cons,
      ← String.append_assoc, String.append_singleton]

end Decoder

/-- What was encoded is decoded without loss. -/
theorem decodeLossy_encode (text : String) : decodeLossy (encode text) = text := by
  rw [decodeLossy, Decoder.empty, Decoder.foldl_feed_encode, Decoder.finish, String.empty_append]

/-- The bytes of a text are those that it is stored as. -/
theorem toByteArray_encode (text : String) : (encode text).toByteArray = text.toUTF8 := by
  rw [String.toUTF8, encode, ← List.utf8Encode, ← String.toByteArray_ofList, String.ofList_toList]

theorem toArray_encode (text : String) : (encode text).toArray = text.toUTF8.data := by
  rw [← toByteArray_encode, List.data_toByteArray]

theorem length_encode (text : String) : (encode text).length = text.utf8ByteSize := by
  rw [← List.size_toByteArray, toByteArray_encode, String.toUTF8, String.size_toByteArray]

end HistoryTree.Utf8
