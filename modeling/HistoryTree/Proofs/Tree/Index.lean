import HistoryTree.Tree.Index
import Mathlib.Algebra.BigOperators.Group.Finset.Piecewise
import Mathlib.Data.Fintype.BigOperators
import Mathlib.Data.FinEnum
import Std.Data.TreeMap.Lemmas

/-!
# What an index knows of its records

An index answers by its maps what the list of its records answers by going through
it: the first place of a number, the numbers that were used again, and who names
whom as parent. Each inserted record keeps the two in step
(`HoldsNumbers.insertNumber`, `HoldsLinks.insertLink`), so they agree for every list.
-/

namespace HistoryTree

/-! ## What a list of records says -/

/-- The numbers of records, in walk order. -/
def numbers (records : List NodeRecord) : List SeqNumber :=
  records.map (·.seqNumber)

/-- The numbers of the records that say `parent` of their parent, in walk order. -/
def numbersUnder (records : List NodeRecord) (parent : ParentRef) : List SeqNumber :=
  numbers (records.filter fun record => record.parent = parent)

/-- The number of each record that an earlier record has, too. -/
def repeatedNumbers (records : List NodeRecord) : List SeqNumber :=
  (records.zipIdx.filter fun entry =>
    entry.1.seqNumber ∈ numbers (records.take entry.2)).map fun entry => entry.1.seqNumber

section Lists

variable {records : List NodeRecord} {record : NodeRecord} {parent : ParentRef}

theorem numbers_append (front back : List NodeRecord) :
    numbers (front ++ back) = numbers front ++ numbers back :=
  List.map_append

theorem mem_numbers {seq : SeqNumber} :
    seq ∈ numbers records ↔ ∃ record ∈ records, record.seqNumber = seq :=
  List.mem_map

theorem numbersUnder_snoc (records : List NodeRecord) (record : NodeRecord)
    (parent : ParentRef) :
    numbersUnder (records ++ [record]) parent =
      if record.parent = parent then numbersUnder records parent ++ [record.seqNumber]
      else numbersUnder records parent := by
  rw [numbersUnder, List.filter_append, numbers_append, ← numbersUnder]
  split
  next h => simp [numbers, h]
  next h => simp [numbers, h]

theorem length_numbersUnder_snoc (records : List NodeRecord) (record : NodeRecord)
    (parent : ParentRef) :
    (numbersUnder (records ++ [record]) parent).length =
      (numbersUnder records parent).length + if record.parent = parent then 1 else 0 := by
  rw [numbersUnder_snoc]
  split
  · exact List.length_append
  · rfl

theorem repeatedNumbers_snoc (records : List NodeRecord) (record : NodeRecord) :
    repeatedNumbers (records ++ [record]) =
      if record.seqNumber ∈ numbers records then repeatedNumbers records ++ [record.seqNumber]
      else repeatedNumbers records := by
  -- What stands before a record does not depend on what comes after the list.
  have hfront : records.zipIdx.filter (fun entry =>
      entry.1.seqNumber ∈ numbers ((records ++ [record]).take entry.2)) =
      records.zipIdx.filter (fun entry =>
        entry.1.seqNumber ∈ numbers (records.take entry.2)) := by
    apply List.filter_congr
    intro entry hentry
    have hplace : entry.2 ≤ records.length := by
      have := List.snd_lt_of_mem_zipIdx hentry
      omega
    rw [List.take_append_of_le_length hplace]
  rw [repeatedNumbers, List.zipIdx_append, List.filter_append, hfront, List.map_append,
    ← repeatedNumbers]
  split
  next h => simp [h]
  next h => simp [h]

/-- How many different numbers there are. -/
theorem card_numbers_snoc (records : List NodeRecord) (record : NodeRecord) :
    (numbers (records ++ [record])).toFinset.card =
      if record.seqNumber ∈ numbers records then (numbers records).toFinset.card
      else (numbers records).toFinset.card + 1 := by
  have hinsert : (numbers (records ++ [record])).toFinset =
      insert record.seqNumber (numbers records).toFinset := by
    rw [numbers_append, List.toFinset_append, Finset.union_comm]
    rfl
  rw [hinsert, Finset.card_insert_eq_ite]
  simp only [List.mem_toFinset]

/-- Every number is either new or used again. -/
theorem card_add_length_repeatedNumbers (records : List NodeRecord) :
    (numbers records).toFinset.card + (repeatedNumbers records).length = records.length := by
  induction records using List.reverseRecOn with
  | nil => rfl
  | append_singleton records record ih =>
    rw [card_numbers_snoc, repeatedNumbers_snoc, List.length_append, ← ih]
    split
    next => rw [List.length_append, Nat.add_assoc]; rfl
    next => rw [Nat.add_right_comm]; rfl

/-- A number is used again once for each use but the first. -/
theorem count_repeatedNumbers (records : List NodeRecord) (seq : SeqNumber) :
    (repeatedNumbers records).count seq = (numbers records).count seq - 1 := by
  induction records using List.reverseRecOn with
  | nil => rfl
  | append_singleton records record ih =>
    rw [repeatedNumbers_snoc, numbers_append, List.count_append]
    by_cases hseq : record.seqNumber = seq
    · subst hseq
      have hlast : (numbers [record]).count record.seqNumber = 1 := by simp [numbers]
      rw [hlast]
      split
      next hknown =>
        have hcount := List.count_pos_iff.mpr hknown
        rw [List.count_append, List.count_singleton_self, ih]
        omega
      next hnew =>
        rw [ih, List.count_eq_zero_of_not_mem hnew]
    · have hlast : (numbers [record]).count seq = 0 := by simp [numbers, hseq]
      rw [hlast, Nat.add_zero]
      split
      next =>
        rw [List.count_append, List.count_singleton, if_neg (by simpa using hseq), ih,
          Nat.add_zero]
      next => exact ih

theorem flatMap_filter {α β : Type} (list : List α) (keep : α → Bool) (f : α → List β) :
    (list.filter keep).flatMap f =
      list.flatMap fun entry => if keep entry then f entry else [] := by
  induction list with
  | nil => rfl
  | cons entry rest ih =>
    rw [List.filter_cons, List.flatMap_cons, ← ih]
    split
    next => rfl
    next => rfl

theorem findIdx?_snoc (records : List NodeRecord) (record : NodeRecord) (seq : SeqNumber) :
    (records ++ [record]).findIdx? (fun record => record.seqNumber = seq) =
      (records.findIdx? fun record => record.seqNumber = seq).or
        (if record.seqNumber = seq then some records.length else none) := by
  rw [List.findIdx?_append]
  congr 1
  by_cases hseq : record.seqNumber = seq <;> simp [hseq]

end Lists

namespace TreeIndex

variable {index : TreeIndex} {records : List NodeRecord}

/-! ## Numbers -/

/-- The index has the numbers of the records. -/
structure HoldsNumbers (index : TreeIndex) (records : List NodeRecord) : Prop where
  positions (seq : SeqNumber) :
    index.positions[seq]? = records.findIdx? fun record => record.seqNumber = seq
  size : index.positions.size = (numbers records).toFinset.card
  duplicates : index.duplicates.toList = repeatedNumbers records

theorem HoldsNumbers.contains_iff (h : index.HoldsNumbers records) {seq : SeqNumber} :
    index.positions.contains seq = true ↔ seq ∈ numbers records := by
  rw [Std.TreeMap.contains_eq_isSome_getElem?, h.positions, List.findIdx?_isSome,
    List.any_eq_true, mem_numbers]
  simp only [decide_eq_true_eq]

theorem holdsNumbers_empty : empty.HoldsNumbers [] where
  positions seq := by rw [empty, Std.TreeMap.getElem?_emptyc]; rfl
  size := rfl
  duplicates := rfl

/-- A number that the index has keeps its place and is noted once more. -/
theorem HoldsNumbers.insertNumber_of_mem (h : index.HoldsNumbers records)
    {record : NodeRecord} (hknown : record.seqNumber ∈ numbers records) :
    (index.insertNumber records.length record.seqNumber).HoldsNumbers (records ++ [record]) := by
  have hcontains := h.contains_iff.mpr hknown
  rw [insertNumber, if_pos hcontains]
  constructor
  · intro seq
    rw [findIdx?_snoc, ← h.positions]
    by_cases hseq : record.seqNumber = seq
    · rw [hseq, Std.TreeMap.contains_eq_isSome_getElem?, Option.isSome_iff_exists] at hcontains
      obtain ⟨place, hplace⟩ := hcontains
      rw [hplace, Option.some_or]
    · rw [if_neg hseq, Option.or_none]
  · rw [card_numbers_snoc, if_pos hknown, h.size]
  · rw [repeatedNumbers_snoc, if_pos hknown, Array.toList_push, h.duplicates]

/-- A new number gets the place of its record. -/
theorem HoldsNumbers.insertNumber_of_not_mem (h : index.HoldsNumbers records)
    {record : NodeRecord} (hnew : record.seqNumber ∉ numbers records) :
    (index.insertNumber records.length record.seqNumber).HoldsNumbers (records ++ [record]) := by
  have hcontains : ¬ index.positions.contains record.seqNumber = true :=
    fun hcontains => hnew (h.contains_iff.mp hcontains)
  rw [insertNumber, if_neg hcontains]
  constructor
  · intro seq
    rw [findIdx?_snoc, ← h.positions, Std.TreeMap.getElem?_insert]
    simp only [Std.compare_eq_iff_eq]
    by_cases hseq : record.seqNumber = seq
    · have hnone : index.positions[seq]? = none := by
        rwa [hseq, Std.TreeMap.contains_eq_isSome_getElem?, Option.not_isSome_iff_eq_none]
          at hcontains
      rw [if_pos hseq, if_pos hseq, hnone, Option.none_or]
    · rw [if_neg hseq, if_neg hseq, Option.or_none]
  · rw [Std.TreeMap.size_insert, card_numbers_snoc, if_neg hnew, ← h.size]
    exact if_neg hcontains
  · rw [repeatedNumbers_snoc, if_neg hnew, h.duplicates]

theorem HoldsNumbers.insertNumber (h : index.HoldsNumbers records) (record : NodeRecord) :
    (index.insertNumber records.length record.seqNumber).HoldsNumbers (records ++ [record]) := by
  by_cases hknown : record.seqNumber ∈ numbers records
  · exact h.insertNumber_of_mem hknown
  · exact h.insertNumber_of_not_mem hknown

/-! ## Links -/

/-- The index has what the records say of their parents. -/
structure HoldsLinks (index : TreeIndex) (records : List NodeRecord) : Prop where
  roots : index.roots.toList = numbersUnder records .root
  childrenOf (parent : SeqNumber) :
    index.childrenOf parent = numbersUnder records (.childOf parent)
  /-- Only what some record names as its parent has a list of children. -/
  parents (parent : SeqNumber) :
    parent ∈ index.children ↔ ∃ record ∈ records, record.parent = .childOf parent

theorem holdsLinks_empty : empty.HoldsLinks [] where
  roots := rfl
  childrenOf parent := by rw [TreeIndex.childrenOf, empty, Std.TreeMap.getD_emptyc]; rfl
  parents parent := by simp [empty]

theorem HoldsLinks.insertLink (h : index.HoldsLinks records) (record : NodeRecord) :
    (index.insertLink record.seqNumber record.parent).HoldsLinks (records ++ [record]) := by
  cases hparent : record.parent with
  | root =>
    rw [TreeIndex.insertLink]
    constructor
    · rw [numbersUnder_snoc, if_pos hparent, Array.toList_push, h.roots]
    · intro parent
      rw [numbersUnder_snoc, if_neg (by simp [hparent]), ← h.childrenOf]
      rfl
    · intro parent
      rw [h.parents]
      simp [hparent]
  | childOf named =>
    rw [TreeIndex.insertLink]
    constructor
    · rw [numbersUnder_snoc, if_neg (by simp [hparent]), h.roots]
    · intro parent
      rw [numbersUnder_snoc, ← h.childrenOf, TreeIndex.childrenOf, Std.TreeMap.getD_insert]
      simp only [Std.compare_eq_iff_eq, hparent, ParentRef.childOf.injEq]
      split
      next hsame => rw [← hsame, Array.toList_push]; rfl
      next => rfl
    · intro parent
      rw [Std.TreeMap.mem_insert, h.parents, Std.compare_eq_iff_eq]
      simp [hparent, or_comm]

/-! ## Inserting records -/

/-- A number is noted apart from the links. -/
theorem HoldsLinks.insertNumber (h : index.HoldsLinks records) (position : Nat)
    (seq : SeqNumber) : (index.insertNumber position seq).HoldsLinks records := by
  rw [TreeIndex.insertNumber]
  split
  next => exact ⟨h.roots, h.childrenOf, h.parents⟩
  next => exact ⟨h.roots, h.childrenOf, h.parents⟩

/-- A link is noted apart from the numbers. -/
theorem HoldsNumbers.insertLink (h : index.HoldsNumbers records) (seq : SeqNumber)
    (parent : ParentRef) : (index.insertLink seq parent).HoldsNumbers records := by
  cases parent with
  | root => exact ⟨h.positions, h.size, h.duplicates⟩
  | childOf parent => exact ⟨h.positions, h.size, h.duplicates⟩

theorem ofRecords_snoc (records : List NodeRecord) (record : NodeRecord) :
    ofRecords (records ++ [record]) = (ofRecords records).insert records.length record := by
  simp [ofRecords, List.zipIdx_append]

theorem holds_ofRecords (records : List NodeRecord) :
    (ofRecords records).HoldsNumbers records ∧ (ofRecords records).HoldsLinks records := by
  induction records using List.reverseRecOn with
  | nil => exact ⟨holdsNumbers_empty, holdsLinks_empty⟩
  | append_singleton records record ih =>
    obtain ⟨hnumbers, hlinks⟩ := ih
    rw [ofRecords_snoc, insert]
    exact ⟨(hnumbers.insertNumber record).insertLink _ _,
      (hlinks.insertNumber _ _).insertLink record⟩

theorem holdsNumbers_ofRecords (records : List NodeRecord) :
    (ofRecords records).HoldsNumbers records :=
  (holds_ofRecords records).1

theorem holdsLinks_ofRecords (records : List NodeRecord) :
    (ofRecords records).HoldsLinks records :=
  (holds_ofRecords records).2

/-! ## Answers -/

/-- What is named as a parent and is not the number of a record, in ascending order. -/
structure MissingParents (records : List NodeRecord) (parents : List SeqNumber) : Prop where
  ascending : parents.Pairwise fun first second => first.value < second.value
  mem_iff (parent : SeqNumber) : parent ∈ parents ↔
    parent ∉ numbers records ∧ ∃ record ∈ records, record.parent = .childOf parent

/-- The parents that the index misses. -/
def missingParents (index : TreeIndex) : List SeqNumber :=
  index.children.keys.filter fun parent => !index.positions.contains parent

theorem missingParents_ofRecords (records : List NodeRecord) :
    MissingParents records (ofRecords records).missingParents where
  ascending := by
    apply List.Pairwise.filter
    apply List.Pairwise.imp _ Std.TreeMap.ordered_keys
    intro first second hcompare
    exact compareOfLessAndEq_eq_lt.mp hcompare
  mem_iff parent := by
    rw [missingParents, List.mem_filter, Std.TreeMap.mem_keys,
      (holdsLinks_ofRecords records).parents, Bool.not_eq_true',
      ← Bool.not_eq_true, (holdsNumbers_ofRecords records).contains_iff, and_comm]

/-- Orphans are listed parent by parent. -/
theorem orphans_eq (index : TreeIndex) :
    index.orphans = index.missingParents.flatMap fun parent =>
      (index.childrenOf parent).map fun child => (child, parent) := by
  calc index.orphans
    _ = index.children.toList.flatMap fun entry =>
          if index.positions.contains entry.1 then []
          else (index.childrenOf entry.1).map fun child => (child, entry.1) := by
      apply List.flatMap_congr
      intro entry hentry
      rw [Std.TreeMap.mem_toList_iff_getElem?_eq_some] at hentry
      rw [childrenOf, Std.TreeMap.getD_eq_getD_getElem?, hentry, Option.getD_some]
    _ = index.children.keys.flatMap fun parent =>
          if index.positions.contains parent then []
          else (index.childrenOf parent).map fun child => (child, parent) := by
      rw [← Std.TreeMap.map_fst_toList_eq_keys, List.flatMap_map]
    _ = _ := by
      rw [missingParents, flatMap_filter]
      simp only [Bool.not_eq_true', ← Bool.not_eq_true, ite_not]

/-- A link is that of a root or names one parent. -/
theorem root_add_sum_childOf (parent : ParentRef) :
    (if parent = .root then 1 else 0) +
      ∑ word : UInt32, (if parent = .childOf ⟨word⟩ then 1 else 0) = 1 := by
  cases parent with
  | root => simp only [if_true, reduceCtorEq, if_false, Finset.sum_const_zero, Nat.add_zero]
  | childOf seq =>
    have hword (word : UInt32) : ParentRef.childOf seq = .childOf ⟨word⟩ ↔ seq.value = word := by
      cases seq
      rw [ParentRef.childOf.injEq, SeqNumber.mk.injEq]
    simp only [hword, reduceCtorEq, if_false, Finset.sum_ite_eq, Finset.mem_univ, if_true,
      Nat.zero_add]

/-- So all links are either those of roots or those of the children of some parent. -/
theorem length_roots_add_sum_children (records : List NodeRecord) :
    (numbersUnder records .root).length +
      ∑ word : UInt32, (numbersUnder records (.childOf ⟨word⟩)).length = records.length := by
  induction records using List.reverseRecOn with
  | nil => simp [numbersUnder, numbers]
  | append_singleton records record ih =>
    have hlink := root_add_sum_childOf record.parent
    simp only [length_numbersUnder_snoc, Finset.sum_add_distrib, List.length_append,
      List.length_singleton]
    omega

theorem isEmpty_ofRecords : (ofRecords records).isEmpty = true ↔ records = [] := by
  rw [isEmpty, Std.TreeMap.isEmpty_eq_size_eq_zero, (holdsNumbers_ofRecords records).size,
    beq_iff_eq, Finset.card_eq_zero, List.toFinset_eq_empty_iff, numbers, List.map_eq_nil_iff]

/-- What the answers of an index say of its records. -/
structure Describes (index : TreeIndex) (records : List NodeRecord) : Prop where
  /-- A number stands for the first record that has it. -/
  position_eq_some_iff (seq : SeqNumber) (position : Nat) :
    index.position? seq = some position ↔
      ∃ h : position < records.length, records[position].seqNumber = seq ∧
        ∀ earlier, (hless : earlier < position) → records[earlier].seqNumber ≠ seq
  position_eq_none_iff (seq : SeqNumber) :
    index.position? seq = none ↔ ∀ record ∈ records, record.seqNumber ≠ seq
  size : index.size = (numbers records).toFinset.card
  isEmpty_iff : index.isEmpty = true ↔ records = []
  duplicates : index.duplicates.toList = repeatedNumbers records
  count_duplicates (seq : SeqNumber) :
    index.duplicates.toList.count seq = (numbers records).count seq - 1
  roots : index.roots.toList = numbersUnder records .root
  root_eq_some_iff (seq : SeqNumber) :
    index.root? = some seq ↔ numbersUnder records .root = [seq]
  childrenOf (parent : SeqNumber) :
    index.childrenOf parent = numbersUnder records (.childOf parent)
  /-- A parent is missed only if it is the number of no record at all, before or after. -/
  orphans : ∃ parents, MissingParents records parents ∧
    index.orphans = parents.flatMap fun parent =>
      (numbersUnder records (.childOf parent)).map fun child => (child, parent)
  length_numbers : records.length = index.size + index.duplicates.size
  length_links : records.length =
    index.roots.size + ∑ word : UInt32, (index.childrenOf ⟨word⟩).length

theorem root?_eq_some_iff (index : TreeIndex) {seq : SeqNumber} :
    index.root? = some seq ↔ index.roots.toList = [seq] := by
  rw [root?]
  split
  next root hroots => rw [hroots, Option.some.injEq, List.singleton_inj]
  next hroots => simpa using hroots seq

theorem describes_ofRecords (records : List NodeRecord) :
    (ofRecords records).Describes records := by
  have hnumbers := holdsNumbers_ofRecords records
  have hlinks := holdsLinks_ofRecords records
  exact {
    position_eq_some_iff := by
      intro seq position
      rw [position?, hnumbers.positions, List.findIdx?_eq_some_iff_getElem]
      simp only [decide_eq_true_eq]
    position_eq_none_iff := by
      intro seq
      rw [position?, hnumbers.positions, List.findIdx?_eq_none_iff]
      simp only [decide_eq_false_iff_not]
    size := hnumbers.size
    isEmpty_iff := isEmpty_ofRecords
    duplicates := hnumbers.duplicates
    count_duplicates := by
      intro seq
      rw [hnumbers.duplicates, count_repeatedNumbers]
    roots := hlinks.roots
    root_eq_some_iff := by
      intro seq
      rw [root?_eq_some_iff, hlinks.roots]
    childrenOf := hlinks.childrenOf
    orphans := by
      refine ⟨_, missingParents_ofRecords records, ?_⟩
      simp only [orphans_eq, hlinks.childrenOf]
    length_numbers := by
      rw [size, hnumbers.size, ← Array.length_toList, hnumbers.duplicates,
        card_add_length_repeatedNumbers]
    length_links := by
      rw [← Array.length_toList, hlinks.roots]
      simp only [hlinks.childrenOf, length_roots_add_sum_children] }

end TreeIndex

end HistoryTree
