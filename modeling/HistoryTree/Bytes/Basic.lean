/-!
# Bytes

The contents of a file, of a block or of a part of one. The only way to change
bytes is `overwrite`, which keeps their number; `getElem?_overwrite` says what
stands at each position afterwards.
-/

namespace HistoryTree

/-- A stretch of bytes, addressed from 0. -/
abbrev Bytes := Array UInt8

namespace Bytes

def zeros (length : Nat) : Bytes :=
  Array.replicate length 0

@[simp]
theorem size_zeros (length : Nat) : (zeros length).size = length := by
  simp [zeros]

/-- Puts `values` over the bytes from `offset` on. Values that would fall past
the end are dropped. -/
def overwrite (data : Bytes) (offset : Nat) : List UInt8 → Bytes
  | [] => data
  | value :: rest => overwrite (data.setIfInBounds offset value) (offset + 1) rest

@[simp]
theorem size_overwrite (data : Bytes) (offset : Nat) (values : List UInt8) :
    (data.overwrite offset values).size = data.size := by
  induction values generalizing data offset with
  | nil => rfl
  | cons value rest ih => simp [overwrite, ih]

/-- After an overwrite a position shows the value put there, or what it held
before if it lies outside the overwritten stretch. -/
theorem getElem?_overwrite (data : Bytes) (offset : Nat) (values : List UInt8)
    (position : Nat) :
    (data.overwrite offset values)[position]? =
      if offset ≤ position ∧ position < offset + values.length ∧ position < data.size then
        values[position - offset]?
      else data[position]? := by
  induction values generalizing data offset with
  | nil => simp [overwrite]; omega
  | cons value rest ih =>
    rw [overwrite, ih]
    simp only [Array.size_setIfInBounds, Array.getElem?_setIfInBounds, List.length_cons]
    by_cases hsame : offset = position
    · subst hsame
      have hpast : ¬ (offset + 1 ≤ offset) := by omega
      by_cases hin : offset < data.size <;> simp [hin, hpast]
    · by_cases hpast : offset < position
      · have hindex : position - offset = (position - (offset + 1)) + 1 := by omega
        rw [hindex, List.getElem?_cons_succ]
        have : (offset + 1 ≤ position ∧ position < offset + 1 + rest.length ∧
            position < data.size) ↔ (offset ≤ position ∧
            position < offset + (rest.length + 1) ∧ position < data.size) := by omega
        simp only [this, hsame, if_false]
      · have hleft : ¬ (offset + 1 ≤ position ∧ position < offset + 1 + rest.length ∧
            position < data.size) := by omega
        have hright : ¬ (offset ≤ position ∧ position < offset + (rest.length + 1) ∧
            position < data.size) := by omega
        simp only [hleft, hright, hsame, if_false]

end Bytes

end HistoryTree
