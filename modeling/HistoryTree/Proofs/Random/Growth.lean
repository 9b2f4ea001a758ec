import HistoryTree.Proofs.Random.Draw
import HistoryTree.Proofs.Random.Grown

/-!
# The open nodes of a growing tree

The open nodes are exactly the core nodes with a free child slot (`Growth.Sound`).
There always is one, because a node that takes the last slot of the last open node has
slots itself. So every node finds a place, and a tree of any size can be drawn as long
as its times are words (`yields_drawTree`).
-/

namespace HistoryTree.Random

namespace Growth

/-- The tree is well grown, and its open nodes are those with a free child slot. -/
structure Sound (growth : Growth) (maxChildren maxIntervals : UInt32) : Prop where
  wellGrown : WellGrown growth.records.toList maxChildren maxIntervals
  mem_openNodes_iff (index : Nat) : index ∈ growth.openNodes ↔
    ∃ record, growth.records[index]? = some record ∧ record.kind = .core ∧
      record.children.length < maxChildren.toNat
  nodup : growth.openNodes.toList.Nodup
  someOpen : 0 < growth.records.size → 0 < maxChildren → 0 < growth.openNodes.size

theorem sound_empty (maxChildren maxIntervals : UInt32) :
    empty.Sound maxChildren maxIntervals where
  wellGrown := .nil
  mem_openNodes_iff index := by simp [empty]
  nodup := List.nodup_nil
  someOpen h := absurd h (Nat.lt_irrefl 0)

section Openings

variable {growth : Growth} {maxChildren maxIntervals : UInt32} {parent : Nat}
  {upper record : NodeRecord} {child : ChildEntry} {isOpen : Bool}

theorem size_records_link (growth : Growth) (parent : Nat) (child : ChildEntry)
    (maxChildren : UInt32) :
    (growth.link parent child maxChildren).records.size = growth.records.size :=
  Array.size_modify

/-- A node that is yet to come is not open. -/
theorem size_not_mem_openNodes (growth : Growth) : growth.records.size ∉ growth.openNodes :=
  fun hmem => Nat.lt_irrefl _ (growth.open_lt_size _ hmem)

/-- A node is closed by the child that takes its last slot. -/
theorem openNodes_link (hupper : growth.records[parent]? = some upper) :
    (growth.link parent child maxChildren).openNodes =
      if upper.children.length + 1 = maxChildren.toNat then
        growth.openNodes.filter (· ≠ parent)
      else growth.openNodes := by
  have hlinked : (growth.records.modify parent (addChild · child))[parent]? =
      some (addChild upper child) := by
    rw [Array.getElem?_modify, if_pos rfl, hupper, Option.map_some]
  simp only [link, hlinked, Option.any_some, length_children_addChild, beq_iff_eq]

theorem mem_openNodes_link_iff (hupper : growth.records[parent]? = some upper) (index : Nat) :
    index ∈ (growth.link parent child maxChildren).openNodes ↔
      index ∈ growth.openNodes ∧
        (index = parent → upper.children.length + 1 ≠ maxChildren.toNat) := by
  rw [openNodes_link hupper]
  split
  next hfull => simp [hfull]
  next hroom => simp [hroom]

theorem mem_openNodes_push_iff (growth : Growth) (record : NodeRecord) (isOpen : Bool)
    (index : Nat) :
    index ∈ (growth.push record isOpen).openNodes ↔
      index ∈ growth.openNodes ∨ (isOpen = true ∧ index = growth.records.size) := by
  rw [push]
  cases isOpen with
  | false => simp
  | true => simp

theorem nodup_push (h : growth.openNodes.toList.Nodup) (record : NodeRecord) (isOpen : Bool) :
    (growth.push record isOpen).openNodes.toList.Nodup := by
  rw [push]
  cases isOpen with
  | false => exact h
  | true =>
    simp only [if_true, Array.toList_push]
    rw [List.nodup_append]
    refine ⟨h, List.nodup_singleton _, ?_⟩
    intro index hindex last hlast hsame
    rw [List.mem_singleton.mp hlast] at hsame
    exact growth.size_not_mem_openNodes (hsame ▸ Array.mem_toList_iff.mp hindex)

theorem nodup_link (h : growth.openNodes.toList.Nodup)
    (hupper : growth.records[parent]? = some upper) :
    (growth.link parent child maxChildren).openNodes.toList.Nodup := by
  rw [openNodes_link hupper]
  split
  next => simpa using h.filter _
  next => exact h

theorem toList_records_attach (growth : Growth) (parent : Nat) (record : NodeRecord)
    (maxChildren : UInt32) (isOpen : Bool) :
    ((growth.link parent (entryOf record.toCommonHeader) maxChildren).push record
      isOpen).records.toList = Random.attach growth.records.toList parent record := by
  simp [push, link, Random.attach]

end Openings

section Adding

variable {growth : Growth} {maxChildren maxIntervals : UInt32} {parent : Nat}
  {upper record : NodeRecord} {isOpen : Bool}

/-- Which nodes are open once a node was added below the open node at `parent`. -/
theorem Sound.mem_openNodes_attach_iff (h : growth.Sound maxChildren maxIntervals)
    (hupper : growth.records[parent]? = some upper) (hchildren : record.children = [])
    (hisOpen : isOpen = true ↔ record.kind = .core ∧ 0 < maxChildren)
    (hcore : upper.kind = .core) (hroom : upper.children.length < maxChildren.toNat)
    (index : Nat) :
    index ∈ ((growth.link parent (entryOf record.toCommonHeader) maxChildren).push record
        isOpen).openNodes ↔
      ∃ found, (Random.attach growth.records.toList parent record)[index]? = some found ∧
        found.kind = .core ∧ found.children.length < maxChildren.toNat := by
  rw [mem_openNodes_push_iff, mem_openNodes_link_iff hupper, size_records_link, getElem?_attach,
    Array.length_toList]
  split
  next hlast =>
    simp only [growth.size_not_mem_openNodes, false_and, false_or, hlast, and_true, hisOpen, Option.some.injEq,
      exists_eq_left', hchildren, List.length_nil, UInt32.lt_iff_toNat_lt, UInt32.toNat_zero]
  next hlast =>
    split
    next habove =>
      subst habove
      have hmem : index ∈ growth.openNodes :=
        (h.mem_openNodes_iff index).mpr ⟨upper, hupper, hcore, hroom⟩
      have hkept : (addChild upper (entryOf record.toCommonHeader)).kind = .core := hcore
      simp only [hmem, hlast, and_false, or_false, forall_const, true_and, Array.getElem?_toList,
        hupper, Option.map_some, Option.some.injEq, exists_eq_left', hkept,
        length_children_addChild]
      omega
    next habove =>
      simp only [habove, false_implies, and_true, hlast, and_false, or_false,
        Array.getElem?_toList, h.mem_openNodes_iff index]

/-- Some node is open after a node was added. -/
theorem Sound.exists_open_attach (h : growth.Sound maxChildren maxIntervals)
    (hopen : parent ∈ growth.openNodes) (hupper : growth.records[parent]? = some upper)
    (hisOpen : growth.openNodes.size = 1 → upper.children.length + 1 = maxChildren.toNat →
      isOpen = true) {child : ChildEntry} :
    ∃ index, index ∈ ((growth.link parent child maxChildren).push record isOpen).openNodes := by
  simp only [mem_openNodes_push_iff, mem_openNodes_link_iff hupper, size_records_link]
  by_cases hfull : upper.children.length + 1 = maxChildren.toNat
  · by_cases hone : growth.openNodes.size = 1
    · exact ⟨growth.records.size, Or.inr ⟨hisOpen hone hfull, rfl⟩⟩
    · -- The open nodes differ from one another, so that another one stays open.
      have hmany : growth.openNodes.toList ≠ [parent] := by
        intro hsingle
        rw [← Array.length_toList, hsingle] at hone
        exact hone rfl
      rcases (h.nodup.ne_singleton_iff parent).mp hmany with hnone | ⟨other, hother, hne⟩
      · rw [← Array.mem_toList_iff, hnone] at hopen
        exact absurd hopen List.not_mem_nil
      · exact ⟨other, Or.inl ⟨Array.mem_toList_iff.mp hother, fun heq => absurd heq hne⟩⟩
  · exact ⟨parent, Or.inl ⟨hopen, fun _ => hfull⟩⟩

theorem Sound.attach (h : growth.Sound maxChildren maxIntervals)
    (hsmall : growth.records.size < UInt32.size) (hopen : parent ∈ growth.openNodes)
    (hupper : growth.records[parent]? = some upper)
    (hfresh : Fresh record growth.records.size maxChildren maxIntervals)
    (hparent : record.parent = .childOf ⟨UInt32.ofNat parent⟩)
    (hstart : upper.start ≤ record.start ∧ record.start ≤ upper.stop)
    (hisOpen : isOpen = true ↔ record.kind = .core ∧ 0 < maxChildren)
    (hlast : growth.openNodes.size = 1 → upper.children.length + 1 = maxChildren.toNat →
      record.kind = .core) :
    ((growth.link parent (entryOf record.toCommonHeader) maxChildren).push record
      isOpen).Sound maxChildren maxIntervals := by
  obtain ⟨found, hfound, hcore, hroom⟩ := (h.mem_openNodes_iff parent).mp hopen
  obtain rfl : upper = found := Option.some.inj (hupper.symm.trans hfound)
  have hlist : growth.records.toList[parent]? = some upper := by
    rwa [Array.getElem?_toList]
  have hlength : growth.records.toList.length = growth.records.size := Array.length_toList
  refine ⟨?_, ?_, ?_, ?_⟩
  · rw [toList_records_attach]
    exact h.wellGrown.attach (hlength ▸ hsmall) hlist hcore hroom (hlength ▸ hfresh) hparent hstart
  · intro index
    rw [h.mem_openNodes_attach_iff hupper hfresh.children hisOpen hcore hroom,
      ← Array.getElem?_toList, toList_records_attach]
  · exact nodup_push (nodup_link h.nodup hupper) record isOpen
  · intro _ hslots
    obtain ⟨index, hindex⟩ := h.exists_open_attach hopen hupper
      fun hone hfull => hisOpen.mpr ⟨hlast hone hfull, hslots⟩
    exact Array.size_pos_of_mem hindex

/-- Without nodes there are no open nodes. -/
theorem eq_empty_of_size (h : growth.records.size = 0) : growth = empty := by
  obtain ⟨records, openNodes, open_lt_size⟩ := growth
  obtain rfl : records = #[] := Array.size_eq_zero_iff.mp h
  obtain rfl : openNodes = #[] :=
    Array.eq_empty_iff_forall_not_mem.mpr fun index hindex =>
      Nat.not_lt_zero index (open_lt_size index hindex)
  rfl

/-- A tree of its root. -/
theorem sound_root (hfresh : Fresh record 0 maxChildren maxIntervals)
    (hparent : record.parent = .root) (hkind : record.kind = .core)
    (hisOpen : isOpen = true ↔ record.kind = .core ∧ 0 < maxChildren) :
    (empty.push record isOpen).Sound maxChildren maxIntervals where
  wellGrown := .root hfresh hparent
  mem_openNodes_iff := by
    intro index
    have hrecords : (empty.push record isOpen).records = #[record] := rfl
    have hopenNodes : ¬ index ∈ empty.openNodes := Array.not_mem_empty index
    have hsize : empty.records.size = 0 := rfl
    rw [mem_openNodes_push_iff, hrecords, hsize]
    cases index with
    | zero =>
      simp [hopenNodes, hisOpen, hfresh.children, UInt32.lt_iff_toNat_lt]
    | succ index => simp [hopenNodes]
  nodup := nodup_push List.nodup_nil record isOpen
  someOpen := by
    intro _ hslots
    apply Array.size_pos_of_mem
    rw [mem_openNodes_push_iff]
    exact Or.inr ⟨hisOpen.mpr ⟨hkind, hslots⟩, rfl⟩

end Adding

end Growth

end HistoryTree.Random
