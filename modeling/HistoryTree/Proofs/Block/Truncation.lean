import HistoryTree.Block.Decode
import HistoryTree.Proofs.Success

/-!
# Decoding fails by truncation alone

Every way to the bytes of a block is an access that may find too few of them, and
nothing else can go wrong: a type that is not known is an issue of a node, not a
failure. Accesses one after another, or once for each entry, keep that.
-/

namespace HistoryTree

theorem DecodeError.isRecoverable_eq_false_iff {cause : DecodeError} :
    cause.isRecoverable = false ↔
      ∃ field needed available, cause = .truncatedInput field needed available := by
  cases cause <;> simp [isRecoverable]

/-- If it fails, then because bytes are missing. -/
def FailsTruncated {α : Type} (result : Except DecodeError α) : Prop :=
  ∀ cause, result = .error cause → cause.isRecoverable = false

namespace FailsTruncated

variable {α β : Type}

theorem ok (value : α) : FailsTruncated (.ok value) :=
  nofun

theorem bind {first : Except DecodeError α} {next : α → Except DecodeError β}
    (hfirst : FailsTruncated first) (hnext : ∀ value, FailsTruncated (next value)) :
    FailsTruncated (first >>= next) := by
  cases first with
  | error cause =>
    intro failure hfailure
    cases hfailure
    exact hfirst cause rfl
  | ok value => exact hnext value

theorem tabulate {count : Nat} {entry : Nat → Except DecodeError α}
    (h : ∀ index, FailsTruncated (entry index)) :
    FailsTruncated (HistoryTree.tabulate count entry) := by
  intro cause hcause
  obtain ⟨index, -, hindex, -⟩ := tabulate_eq_error_iff.mp hcause
  exact h index cause hindex

/-! ## Accesses -/

theorem region (data : Bytes) (field : String) (offset length : Nat) :
    FailsTruncated (data.region field offset length) := by
  intro cause hcause
  rw [Bytes.region] at hcause
  split at hcause
  · contradiction
  · cases hcause
    rfl

theorem addressed (data : Bytes) (field : String) (offset? : Option Nat) :
    FailsTruncated (data.addressed field offset?) := by
  intro cause hcause
  cases offset? with
  | none => cases hcause; rfl
  | some offset => contradiction

theorem read [LittleEndian α] (field : Field α) (data : Bytes) :
    FailsTruncated (field.read data) :=
  (region data field.name field.offset _).bind fun _ => ok _

/-! ## Parts of a block -/

theorem readInterval (bytes : Bytes) : FailsTruncated (Interval.read bytes) := by
  rw [Interval.read]
  refine (region _ _ _ _).bind fun cell => ?_
  refine (read _ _).bind fun _ => (read _ _).bind fun _ => (read _ _).bind fun _ => ?_
  exact (read _ _).bind fun _ => (read _ _).bind fun _ => ok _

theorem readCommonHeader (block : Bytes) : FailsTruncated (CommonHeader.read block) := by
  rw [CommonHeader.read]
  refine (read _ _).bind fun _ => (read _ _).bind fun _ => (read _ _).bind fun _ => ?_
  refine (read _ _).bind fun _ => (read _ _).bind fun _ => (read _ _).bind fun _ => ?_
  exact (read _ _).bind fun _ => (read _ _).bind fun _ => ok _

theorem readChild (block : Bytes) (maxChildren : UInt32) (index : Nat) :
    FailsTruncated (ChildEntry.read block maxChildren index) := by
  rw [ChildEntry.read]
  refine (addressed _ _ _).bind fun _ => (addressed _ _ _).bind fun _ => ?_
  exact (read _ _).bind fun _ => (read _ _).bind fun _ => ok _

theorem readChildren (block : Bytes) (maxChildren declared : UInt32) :
    FailsTruncated (HistoryTree.readChildren block maxChildren declared).result := by
  rw [HistoryTree.readChildren, Attempt.result_bind]
  exact tabulate (readChild block maxChildren)

theorem readIntervals (block : Bytes) (kind : NodeKind) (maxChildren count : UInt32) :
    FailsTruncated (HistoryTree.readIntervals block kind maxChildren count) := by
  rw [HistoryTree.readIntervals]
  split
  · exact ok _
  · refine (addressed _ _ _).bind fun _ => (addressed _ _ _).bind fun _ => ?_
    exact (region _ _ _ _).bind fun _ => tabulate fun _ => readInterval _

theorem decodeBlock (block : Bytes) (maxChildren : UInt32) :
    FailsTruncated (HistoryTree.decodeBlock block maxChildren).result := by
  rw [HistoryTree.decodeBlock]
  simp only [Attempt.result_bind, Attempt.result_lift]
  refine (readCommonHeader block).bind fun common => ?_
  cases common.kind with
  | core =>
    simp only [Attempt.result_bind, Attempt.result_lift]
    refine (read _ _).bind fun _ => (read _ _).bind fun _ => ?_
    exact (readChildren _ _ _).bind fun _ => (readIntervals _ _ _ _).bind fun _ => ok _
  | leaf =>
    simp only [Attempt.result_bind, Attempt.result_lift]
    exact (readIntervals _ _ _ _).bind fun _ => ok _
  | unknown tag => exact ok _

end FailsTruncated

end HistoryTree
