import HistoryTree.Format.Layout

/-!
# Exact offsets

For counts and indexes that a word can hold, no offset within a block leaves the
address space: each computation gives the number that the layout describes.
-/

namespace HistoryTree

namespace Layout

theorem childSeqOffset?_eq {index : Nat} (h : index < UInt32.size) :
    childSeqOffset? index = some (42 + 4 * index) := by
  have hword : UInt32.size = 0x100000000 := rfl
  have hproduct : index * childSeqStride ≤ Address.last := by
    simp only [childSeqStride, Address.last]
    omega
  have hsum : childrenBase + index * childSeqStride ≤ Address.last := by
    simp only [childrenBase, commonHeaderSize, coreHeaderSize, childSeqStride, Address.last]
    omega
  simp only [childSeqOffset?, Address.mul?_of_le hproduct, Option.bind_eq_bind,
    Option.bind_some, Address.add?_of_le hsum]
  simp only [childrenBase, commonHeaderSize, coreHeaderSize, childSeqStride]
  rw [Nat.mul_comm]

theorem childStartOffset?_eq (maxChildren : UInt32) {index : Nat} (h : index < UInt32.size) :
    childStartOffset? maxChildren index = some (42 + 4 * maxChildren.toNat + 8 * index) := by
  have hword : UInt32.size = 0x100000000 := rfl
  have hslots := maxChildren.toNat_lt_size
  have hproduct : index * childStartStride ≤ Address.last := by
    simp only [childStartStride, Address.last]
    omega
  have hsum : 42 + 4 * maxChildren.toNat + index * childStartStride ≤ Address.last := by
    simp only [childStartStride, Address.last]
    omega
  simp only [childStartOffset?, childSeqOffset?_eq hslots, Address.mul?_of_le hproduct,
    Option.bind_eq_bind, Option.bind_some, Address.add?_of_le hsum]
  rw [childStartStride, Nat.mul_comm index]

@[simp]
theorem intervalsBase?_core (maxChildren : UInt32) :
    intervalsBase? .core maxChildren = some (42 + 12 * maxChildren.toNat) := by
  have hslots := maxChildren.toNat_lt
  have hproduct : maxChildren.toNat * (childSeqStride + childStartStride) ≤ Address.last := by
    simp only [childSeqStride, childStartStride, Address.last]
    omega
  have hspecific : coreHeaderSize + maxChildren.toNat * (childSeqStride + childStartStride) ≤
      Address.last := by
    simp only [coreHeaderSize, childSeqStride, childStartStride, Address.last]
    omega
  have hsum : commonHeaderSize + (coreHeaderSize +
      maxChildren.toNat * (childSeqStride + childStartStride)) ≤ Address.last := by
    simp only [commonHeaderSize, coreHeaderSize, childSeqStride, childStartStride, Address.last]
    omega
  simp only [intervalsBase?, specificHeaderLength?, Address.mul?_of_le hproduct,
    Option.bind_eq_bind, Option.bind_some, Address.add?_of_le hspecific,
    Address.add?_of_le hsum]
  simp only [commonHeaderSize, coreHeaderSize, childSeqStride, childStartStride]
  congr 1
  omega

@[simp]
theorem intervalsBase?_leaf (maxChildren : UInt32) :
    intervalsBase? .leaf maxChildren = some 34 := rfl

@[simp]
theorem intervalsBase?_unknown (tag : UInt8) (maxChildren : UInt32) :
    intervalsBase? (.unknown tag) maxChildren = none := rfl

/-- The arrays of a core node are the most that stands before the intervals. -/
theorem intervalsBase?_le {kind : NodeKind} {maxChildren : UInt32} {base : Nat}
    (h : intervalsBase? kind maxChildren = some base) : base ≤ 42 + 12 * maxChildren.toNat := by
  cases kind with
  | core =>
    rw [intervalsBase?_core, Option.some.injEq] at h
    exact Nat.le_of_eq h.symm
  | leaf =>
    rw [intervalsBase?_leaf, Option.some.injEq] at h
    omega
  | unknown tag =>
    rw [intervalsBase?_unknown] at h
    contradiction

/-- Interval cells follow one another from the first on. -/
theorem intervalOffset?_eq {kind : NodeKind} {maxChildren : UInt32} {base index : Nat}
    (hbase : intervalsBase? kind maxChildren = some base) (h : index < UInt32.size) :
    intervalOffset? kind maxChildren index = some (base + 25 * index) := by
  have hword : UInt32.size = 0x100000000 := rfl
  have hslots := maxChildren.toNat_lt_size
  have hlow := intervalsBase?_le hbase
  have hproduct : index * intervalSize ≤ Address.last := by
    simp only [intervalSize, Address.last]
    omega
  have hsum : base + index * intervalSize ≤ Address.last := by
    simp only [intervalSize, Address.last]
    omega
  simp only [intervalOffset?, hbase, Address.mul?_of_le hproduct, Option.bind_eq_bind,
    Option.bind_some, Address.add?_of_le hsum]
  rw [intervalSize, Nat.mul_comm index]

end Layout

end HistoryTree
