import HistoryTree.Proofs.Block.Outcome

/-!
# Blocks for nodes within limits

The block size that is computed for a tree counts the headers, all child slots and the
most intervals that a node may have. A block of that size has room for every node within
these limits, and no smaller one for a core node with that many intervals. But it is
given as a word: a sum that is no word is cut off, and the block is then too small
(`encodeBlock_blockSizeFor`).
-/

namespace HistoryTree

open Layout

theorem Layout.toNat_blockSizeFor (maxChildren maxIntervals : UInt32) :
    (blockSizeFor maxChildren maxIntervals).toNat =
      (42 + 12 * maxChildren.toNat + 25 * maxIntervals.toNat) % UInt32.size := by
  have hmax : max (42 + 12 * maxChildren.toNat + 25 * maxIntervals.toNat) 34 =
      42 + 12 * maxChildren.toNat + 25 * maxIntervals.toNat := by omega
  calc (blockSizeFor maxChildren maxIntervals).toNat
    _ = max (42 + 12 * maxChildren.toNat + 25 * maxIntervals.toNat) 34 % UInt32.size := rfl
    _ = _ := by rw [hmax]

namespace NodeRecord

/-- A core node or a leaf of a tree with these limits. -/
inductive WithinLimits (record : NodeRecord) (maxChildren maxIntervals : UInt32) : Prop where
  | core (extended : Bool) (declared : UInt32) (kind : record.kind = .core)
      (specific : record.specific = .core extended declared)
      (children : record.children.length ≤ maxChildren.toNat)
      (intervals : record.intervals.length ≤ maxIntervals.toNat)
  | leaf (kind : record.kind = .leaf) (specific : record.specific = .leaf)
      (intervals : record.intervals.length ≤ maxIntervals.toNat)

/-- A core node with all children and intervals that the limits allow. -/
def full (maxChildren maxIntervals : UInt32) : NodeRecord where
  kind := .core
  start := 0
  stop := 0
  seqNumber := ⟨0⟩
  parent := .root
  intervalCount := maxIntervals
  varDataOffset := 0
  done := true
  specific := .core false maxChildren
  children := List.replicate maxChildren.toNat ⟨⟨1⟩, 0⟩
  intervals := List.replicate maxIntervals.toNat ⟨0, 0, 0, .int32, 0⟩

variable {record : NodeRecord} {maxChildren maxIntervals : UInt32}

theorem withinLimits_full (maxChildren maxIntervals : UInt32) :
    (full maxChildren maxIntervals).WithinLimits maxChildren maxIntervals :=
  .core false maxChildren rfl rfl (Nat.le_of_eq List.length_replicate)
    (Nat.le_of_eq List.length_replicate)

theorem WithinLimits.coherent (h : record.WithinLimits maxChildren maxIntervals) :
    record.Coherent := by
  cases h with
  | core extended declared kind specific => exact .core extended declared kind specific
  | leaf kind specific => exact .leaf kind specific

theorem WithinLimits.hasSlots (h : record.WithinLimits maxChildren maxIntervals) :
    record.HasSlots maxChildren := by
  apply h.coherent.hasSlots
  intro hcrowded
  cases h with
  | core _ _ _ _ children => exact Nat.not_lt.mpr children hcrowded.2
  | leaf kind => exact NodeKind.noConfusion (kind.symm.trans hcrowded.1)

theorem leastSize_full (maxChildren maxIntervals : UInt32) :
    (full maxChildren maxIntervals).leastSize maxChildren =
      max 42 (max
        (if maxChildren.toNat = 0 then 0
          else 46 + 4 * maxChildren.toNat + 8 * (maxChildren.toNat - 1))
        (if maxIntervals.toNat = 0 then 0
          else 42 + 12 * maxChildren.toNat + 25 * maxIntervals.toNat)) := by
  rw [leastSize_core rfl, childrenStop, coreCellsStop, full, List.length_replicate,
    List.length_replicate]

/-- Of all nodes within the limits, a full one takes the most room. -/
theorem WithinLimits.leastSize_le (h : record.WithinLimits maxChildren maxIntervals) :
    record.leastSize maxChildren ≤ (full maxChildren maxIntervals).leastSize maxChildren := by
  rw [leastSize_full]
  cases h with
  | core extended declared kind specific children intervals =>
    rw [leastSize_core kind, childrenStop, coreCellsStop]
    split <;> split <;> split <;> split <;> omega
  | leaf kind specific intervals =>
    rw [leastSize_leaf kind]
    split <;> split <;> omega

/-- The last child start has four bytes that are not used, so without intervals a full
node leaves four bytes of the computed size. -/
theorem sum_le_leastSize_full (maxChildren maxIntervals : UInt32) :
    42 + 12 * maxChildren.toNat + 25 * maxIntervals.toNat ≤
      (full maxChildren maxIntervals).leastSize maxChildren + 4 := by
  rw [leastSize_full]
  split <;> split <;> omega

/-- The computed size is enough for a full node exactly if the sum is a word. -/
theorem leastSize_full_le_blockSizeFor_iff (maxChildren maxIntervals : UInt32) :
    (full maxChildren maxIntervals).leastSize maxChildren ≤
        (blockSizeFor maxChildren maxIntervals).toNat ↔
      42 + 12 * maxChildren.toNat + 25 * maxIntervals.toNat < UInt32.size := by
  rw [toNat_blockSizeFor]
  constructor
  · intro hroom
    -- A cut takes the whole range of a word off the sum, and a full node is at most four
    -- bytes smaller than the sum.
    refine Nat.lt_of_not_le fun hcut => ?_
    have hlow := sum_le_leastSize_full maxChildren maxIntervals
    have hrest : (42 + 12 * maxChildren.toNat + 25 * maxIntervals.toNat) % UInt32.size ≤
        42 + 12 * maxChildren.toNat + 25 * maxIntervals.toNat - UInt32.size := by
      rw [Nat.mod_eq_sub_mod hcut]
      exact Nat.mod_le _ _
    have hrange : 4 < UInt32.size := by decide
    omega
  · intro hword
    rw [Nat.mod_eq_of_lt hword, leastSize_full]
    split <;> split <;> omega

/-- A block size is enough for all nodes within the limits if it is for a full one. -/
theorem forall_withinLimits_iff (maxChildren maxIntervals blockSize : UInt32) :
    (∀ record : NodeRecord, record.WithinLimits maxChildren maxIntervals →
        ∃ block, encodeBlock record [] blockSize maxChildren = .ok block) ↔
      (full maxChildren maxIntervals).leastSize maxChildren ≤ blockSize.toNat := by
  constructor
  · intro hall
    obtain ⟨block, hblock⟩ := hall _ (withinLimits_full maxChildren maxIntervals)
    have hcoherent := (withinLimits_full maxChildren maxIntervals).coherent
    exact (hcoherent.encodeBlock_eq_ok_iff.mp hblock).2.1
  · intro hsize record hlimits
    exact ⟨_, hlimits.coherent.encodeBlock_eq_ok_iff.mpr
      ⟨hlimits.hasSlots, hlimits.leastSize_le.trans hsize, rfl⟩⟩

/-- A core node with intervals takes all child slots, used or not. -/
theorem sum_le_of_encodeBlock {extended : Bool} {declared blockSize : UInt32} {block : Bytes}
    (hkind : record.kind = .core) (hspecific : record.specific = .core extended declared)
    (hsome : record.intervals.length ≠ 0)
    (hblock : encodeBlock record [] blockSize maxChildren = .ok block) :
    42 + 12 * maxChildren.toNat + 25 * record.intervals.length ≤ blockSize.toNat := by
  have hcoherent : record.Coherent := .core extended declared hkind hspecific
  have hsize := (hcoherent.encodeBlock_eq_ok_iff.mp hblock).2.1
  rw [leastSize_core hkind, coreCellsStop, if_neg hsome] at hsize
  omega

end NodeRecord

open NodeRecord

/-- The computed size is enough for all nodes within the limits exactly if the sum is a
word. No smaller size is enough for a core node with as many intervals as allowed. -/
theorem encodeBlock_blockSizeFor (maxChildren maxIntervals : UInt32) :
    ((∀ record : NodeRecord, record.WithinLimits maxChildren maxIntervals →
        ∃ block, encodeBlock record [] (blockSizeFor maxChildren maxIntervals) maxChildren =
          .ok block) ↔
      42 + 12 * maxChildren.toNat + 25 * maxIntervals.toNat < UInt32.size) ∧
    ∀ (record : NodeRecord) (extended : Bool) (declared : UInt32), record.kind = .core →
      record.specific = .core extended declared →
      record.intervals.length = maxIntervals.toNat → 1 ≤ maxIntervals →
      ∀ smaller < blockSizeFor maxChildren maxIntervals,
        ¬ ∃ block, encodeBlock record [] smaller maxChildren = .ok block := by
  constructor
  · rw [forall_withinLimits_iff, leastSize_full_le_blockSizeFor_iff]
  · intro record extended declared hkind hspecific hintervals hsome smaller hsmaller hencodes
    obtain ⟨block, hblock⟩ := hencodes
    have hlength : record.intervals.length ≠ 0 := by
      rw [hintervals]
      exact Nat.ne_of_gt (UInt32.le_iff_toNat_le.mp hsome)
    have hroom := sum_le_of_encodeBlock hkind hspecific hlength hblock
    rw [UInt32.lt_iff_toNat_lt, toNat_blockSizeFor, ← hintervals] at hsmaller
    have hrest := Nat.mod_le
      (42 + 12 * maxChildren.toNat + 25 * record.intervals.length) UInt32.size
    omega

/-- `crowdedNode` has one child and one interval, which is all that these limits allow. -/
theorem encodeBlock_blockSizeFor_crowdedNode :
    crowdedNode.WithinLimits 1 1 ∧ crowdedNode.kind = .core ∧
      crowdedNode.specific = .core true 4 ∧
      crowdedNode.intervals.length = (1 : UInt32).toNat ∧ (1 : UInt32) ≤ 1 ∧
      (78 : UInt32) < blockSizeFor 1 1 ∧
      (∃ block, encodeBlock crowdedNode [] (blockSizeFor 1 1) 1 = .ok block) ∧
      ¬ ∃ block, encodeBlock crowdedNode [] 78 1 = .ok block := by
  have hlimits : crowdedNode.WithinLimits 1 1 :=
    .core true 4 rfl rfl (by decide) (by decide)
  have hsmaller : (78 : UInt32) < blockSizeFor 1 1 := by decide
  obtain ⟨hroom, htight⟩ := encodeBlock_blockSizeFor 1 1
  exact ⟨hlimits, rfl, rfl, rfl, by decide, hsmaller, hroom.mpr (by decide) crowdedNode hlimits,
    htight crowdedNode true 4 rfl rfl rfl (by decide) 78 hsmaller⟩

/-- For 357913938 children the sum is `2 ^ 32 + 2` and the computed size 2, too small for
any node, though there is a size that is enough for all. -/
theorem encodeBlock_blockSizeFor_cut :
    blockSizeFor 357913938 0 = 2 ∧
      (full 0 0).WithinLimits 357913938 0 ∧
      encodeBlock (full 0 0) [] (blockSizeFor 357913938 0) 357913938 =
        .error (.doesNotFit (.truncatedInput "start" 5 2)) ∧
      ∀ record : NodeRecord, record.WithinLimits 357913938 0 →
        ∃ block, encodeBlock record [] 4294967294 357913938 = .ok block := by
  refine ⟨by decide, ?_, by decide +kernel, ?_⟩
  · exact .core false 0 rfl rfl (Nat.zero_le _) (Nat.zero_le _)
  · rw [forall_withinLimits_iff, leastSize_full]
    decide

end HistoryTree
