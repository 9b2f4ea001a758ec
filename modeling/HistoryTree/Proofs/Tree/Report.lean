import HistoryTree.Proofs.Tree.Findings

/-!
# What a report says

A report has at most one finding about the roots, then one for each further use of a
number, then one for each orphan. It has none exactly for one consistent tree and for
no records at all, and whether it has any does not depend on the order of the records
(`TreeIndex.reports_ofRecords`).
-/

namespace HistoryTree

/-- One root, with the number that is expected of it; numbers that tell the records
apart; and only parents that are among the records. -/
structure Consistent (records : List NodeRecord) (rootSeq : SeqNumber) : Prop where
  root : ∃ root, records.filter (fun record => record.parent = .root) = [root] ∧
    root.seqNumber = rootSeq
  nodup : (numbers records).Nodup
  known : ∀ record ∈ records, ∀ parent, record.parent = .childOf parent →
    ∃ other ∈ records, other.seqNumber = parent

section Links

variable {records first second : List NodeRecord} {rootSeq : SeqNumber}

/-- Links fit if there are none, or if they are those of a consistent tree. -/
theorem linksFit_iff : LinksFit records rootSeq ↔ records = [] ∨ Consistent records rootSeq := by
  have hroot : numbersUnder records .root = [rootSeq] ↔
      ∃ root, records.filter (fun record => record.parent = .root) = [root] ∧
        root.seqNumber = rootSeq := by
    rw [numbersUnder, numbers, List.map_eq_singleton_iff]
  constructor
  · intro h
    rcases h.roots with hnone | hone
    · exact Or.inl hnone
    · exact Or.inr {
        root := hroot.mp hone
        nodup := h.nodup
        known := fun record hrecord parent hparent =>
          mem_numbers.mp (h.known record hrecord parent hparent) }
  · rintro (rfl | h)
    · exact {
        roots := Or.inl rfl
        nodup := List.nodup_nil
        known := fun record hrecord => absurd hrecord List.not_mem_nil }
    · exact {
        roots := Or.inr (hroot.mpr h.root)
        nodup := h.nodup
        known := fun record hrecord parent hparent =>
          mem_numbers.mpr (h.known record hrecord parent hparent) }

theorem numbers_perm (h : first.Perm second) : (numbers first).Perm (numbers second) :=
  h.map _

theorem numbersUnder_perm (h : first.Perm second) (parent : ParentRef) :
    (numbersUnder first parent).Perm (numbersUnder second parent) :=
  numbers_perm (h.filter _)

/-- What links have to fit does not depend on the order of the records. -/
theorem LinksFit.of_perm (h : LinksFit first rootSeq) (hperm : first.Perm second) :
    LinksFit second rootSeq where
  roots := by
    rcases h.roots with rfl | hone
    · exact Or.inl hperm.symm.eq_nil
    · have hroots := numbersUnder_perm hperm .root
      rw [hone] at hroots
      exact Or.inr (List.singleton_perm.mp hroots).symm
  nodup := (numbers_perm hperm).nodup h.nodup
  known := by
    intro record hrecord parent hparent
    rw [← (numbers_perm hperm).mem_iff]
    exact h.known record (hperm.mem_iff.mpr hrecord) parent hparent

theorem linksFit_iff_of_perm (hperm : first.Perm second) :
    LinksFit first rootSeq ↔ LinksFit second rootSeq :=
  ⟨fun h => h.of_perm hperm, fun h => h.of_perm hperm.symm⟩

end Links

namespace TreeIndex

/-- What the report of an index says of the records. -/
structure Reports (index : TreeIndex) (records : List NodeRecord) (rootSeq : SeqNumber) :
    Prop where
  hasFindings_iff : index.hasFindings rootSeq = true ↔
    ∃ notice ∈ (index.findings rootSeq).map Notice.inconsistency, notice.severity = .warn
  not_hasFindings_iff : index.hasFindings rootSeq = false ↔
    records = [] ∨ Consistent records rootSeq
  findings : ∃ roots, RootsReported records rootSeq roots ∧
    index.findings rootSeq =
      roots ++ index.duplicates.toList.map .sharedNumber ++
        index.orphans.map fun link => .orphan link.1 link.2
  /-- Any order of the records comes to the same. -/
  hasFindings_perm (other : List NodeRecord) (h : records.Perm other) :
    (ofRecords other).hasFindings rootSeq = index.hasFindings rootSeq

/-- All findings are warnings. -/
theorem hasFindings_iff_exists_warning (index : TreeIndex) (rootSeq : SeqNumber) :
    index.hasFindings rootSeq = true ↔
      ∃ notice ∈ (index.findings rootSeq).map Notice.inconsistency, notice.severity = .warn := by
  rw [hasFindings_eq, Bool.not_eq_true', List.isEmpty_eq_false_iff_exists_mem]
  constructor
  · rintro ⟨finding, hfinding⟩
    exact ⟨_, List.mem_map_of_mem hfinding, rfl⟩
  · rintro ⟨notice, hnotice, -⟩
    obtain ⟨finding, hfinding, -⟩ := List.mem_map.mp hnotice
    exact ⟨finding, hfinding⟩

theorem hasFindings_perm {first second : List NodeRecord} (h : first.Perm second)
    (rootSeq : SeqNumber) :
    (ofRecords first).hasFindings rootSeq = (ofRecords second).hasFindings rootSeq := by
  rw [Bool.eq_iff_iff, ← not_iff_not, Bool.not_eq_true, Bool.not_eq_true,
    hasFindings_eq_false_iff, hasFindings_eq_false_iff]
  exact linksFit_iff_of_perm h

theorem reports_ofRecords (records : List NodeRecord) (rootSeq : SeqNumber) :
    (ofRecords records).Reports records rootSeq where
  hasFindings_iff := hasFindings_iff_exists_warning _ rootSeq
  not_hasFindings_iff := by rw [hasFindings_eq_false_iff, linksFit_iff]
  findings := ⟨_, rootFindings_reported records rootSeq, findings_eq _ rootSeq⟩
  hasFindings_perm _ h := hasFindings_perm h.symm rootSeq

end TreeIndex

end HistoryTree
