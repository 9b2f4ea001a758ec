import HistoryTree.Proofs.Tree.Index

/-!
# What there is to report

A report keeps a flag beside its findings, and sets it with each of them. So the flag
says whether there are any (`TreeIndex.hasFindings_eq`). They come from three places, the
roots, the numbers and the parents that are missing. Each is empty exactly under a
condition on the list of records, so that a report without findings says all three
(`TreeIndex.hasFindings_eq_false_iff`).
-/

namespace HistoryTree

/-! ## Reports -/

namespace Report

variable {α : Type} {report : Report}

/-- The flag is set exactly if there are findings. -/
def Flagged (report : Report) : Prop :=
  report.found = !report.findings.toList.isEmpty

theorem flagged_empty : Report.empty.Flagged := rfl

theorem flagged_add (report : Report) (finding : Finding) : (report.add finding).Flagged := by
  rw [Flagged, findings_add]
  simp [add]

/-- However the flag stood before, one more finding sets it right. -/
theorem Flagged.foldl_add (h : report.Flagged) (finding : α → Finding) (items : List α) :
    (items.foldl (fun report item => report.add (finding item)) report).Flagged := by
  induction items generalizing report with
  | nil => exact h
  | cons item items ih => exact ih (flagged_add report (finding item))

theorem findings_foldl_add (finding : α → Finding) (items : List α) (report : Report) :
    (items.foldl (fun report item => report.add (finding item)) report).findings.toList =
      report.findings.toList ++ items.map finding := by
  induction items generalizing report with
  | nil => exact (List.append_nil _).symm
  | cons item items ih =>
    rw [List.foldl_cons, ih, findings_add, List.append_assoc, List.singleton_append, List.map_cons]

end Report

namespace TreeIndex

/-- What is reported about the roots. -/
def rootFindings (index : TreeIndex) (rootSeq : SeqNumber) : List Finding :=
  (index.reportRoots rootSeq).findings.toList

theorem flagged_reportRoots (index : TreeIndex) (rootSeq : SeqNumber) :
    (index.reportRoots rootSeq).Flagged := by
  rw [reportRoots]
  split
  · split
    · exact Report.flagged_empty
    · exact Report.flagged_add _ _
  · split
    · exact Report.flagged_empty
    · exact Report.flagged_add _ _
  · exact Report.flagged_add _ _

theorem flagged_report (index : TreeIndex) (rootSeq : SeqNumber) :
    (index.report rootSeq).Flagged := by
  rw [report, ← Array.foldl_toList]
  exact ((flagged_reportRoots index rootSeq).foldl_add _ _).foldl_add _ _

theorem findings_eq (index : TreeIndex) (rootSeq : SeqNumber) :
    index.findings rootSeq =
      index.rootFindings rootSeq ++ index.duplicates.toList.map .sharedNumber ++
        index.orphans.map fun link => .orphan link.1 link.2 := by
  rw [findings, report, Report.findings_foldl_add, ← Array.foldl_toList,
    Report.findings_foldl_add, rootFindings]

/-- The flag and the findings say the same. -/
theorem hasFindings_eq (index : TreeIndex) (rootSeq : SeqNumber) :
    index.hasFindings rootSeq = !(index.findings rootSeq).isEmpty :=
  flagged_report index rootSeq

end TreeIndex

/-! ## Records without findings -/

/-- What an index checks of records: their parent links, one at a time. -/
structure LinksFit (records : List NodeRecord) (rootSeq : SeqNumber) : Prop where
  roots : records = [] ∨ numbersUnder records .root = [rootSeq]
  nodup : (numbers records).Nodup
  known : ∀ record ∈ records, ∀ parent, record.parent = .childOf parent → parent ∈ numbers records

/-- What there is to say of the roots of records. -/
inductive RootsReported (records : List NodeRecord) (rootSeq : SeqNumber) : List Finding → Prop
  | nothing (h : records = [] ∨ numbersUnder records .root = [rootSeq]) :
    RootsReported records rootSeq []
  | missing (some : records ≠ []) (none : numbersUnder records .root = []) :
    RootsReported records rootSeq [.noRoot]
  | other (root : SeqNumber) (one : numbersUnder records .root = [root])
      (differs : root ≠ rootSeq) : RootsReported records rootSeq [.otherRoot root rootSeq]
  | several (h : 1 < (numbersUnder records .root).length) :
    RootsReported records rootSeq [.severalRoots (numbersUnder records .root)]

section Lists

variable {records : List NodeRecord}

theorem mem_numbersUnder {parent : ParentRef} {seq : SeqNumber} :
    seq ∈ numbersUnder records parent ↔
      ∃ record ∈ records, record.parent = parent ∧ record.seqNumber = seq := by
  simp only [numbersUnder, mem_numbers, List.mem_filter, decide_eq_true_eq, and_assoc]

theorem repeatedNumbers_eq_nil_iff : repeatedNumbers records = [] ↔ (numbers records).Nodup := by
  rw [List.nodup_iff_count_le_one]
  constructor
  · intro hnil seq
    have hcount := count_repeatedNumbers records seq
    rw [hnil, List.count_nil] at hcount
    omega
  · intro hcount
    rw [List.eq_nil_iff_forall_not_mem]
    intro seq hmem
    have hpositive := List.count_pos_iff.mpr hmem
    have hless := hcount seq
    rw [count_repeatedNumbers] at hpositive
    omega

theorem RootsReported.eq_nil_iff {rootSeq : SeqNumber} {findings : List Finding}
    (h : RootsReported records rootSeq findings) :
    findings = [] ↔ records = [] ∨ numbersUnder records .root = [rootSeq] := by
  cases h with
  | nothing h => exact iff_of_true rfl h
  | missing some none =>
    refine iff_of_false (List.cons_ne_nil _ _) (not_or.mpr ⟨some, ?_⟩)
    rw [none]
    exact (List.cons_ne_nil _ _).symm
  | other root one differs =>
    refine iff_of_false (List.cons_ne_nil _ _) (not_or.mpr ⟨?_, ?_⟩)
    · rintro rfl
      exact absurd one (List.cons_ne_nil _ _).symm
    · rw [one]
      exact fun hsame => differs (List.singleton_inj.mp hsame)
  | several h =>
    refine iff_of_false (List.cons_ne_nil _ _) (not_or.mpr ⟨?_, ?_⟩)
    · rintro rfl
      exact absurd h (Nat.not_lt_zero _)
    · intro hone
      rw [hone] at h
      exact absurd h (Nat.lt_irrefl 1)

end Lists

namespace TreeIndex

variable {records : List NodeRecord} {rootSeq : SeqNumber}

theorem rootFindings_reported (records : List NodeRecord) (rootSeq : SeqNumber) :
    RootsReported records rootSeq ((ofRecords records).rootFindings rootSeq) := by
  rw [rootFindings, reportRoots, (holdsLinks_ofRecords records).roots]
  cases hroots : numbersUnder records .root with
  | nil =>
    by_cases hnone : records = []
    · simp only [isEmpty_ofRecords.mpr hnone, if_true]
      exact .nothing (Or.inl hnone)
    · have hsome : ¬ (ofRecords records).isEmpty = true :=
        fun hempty => hnone (isEmpty_ofRecords.mp hempty)
      simp only [hsome]
      exact .missing hnone hroots
  | cons root others =>
    cases others with
    | nil =>
      by_cases hsame : root = rootSeq
      · simp only [hsame, if_true]
        exact .nothing (Or.inr (hsame ▸ hroots))
      · simp only [hsame, if_false]
        exact .other root hroots hsame
    | cons next others =>
      have hmany : 1 < (numbersUnder records .root).length := by
        rw [hroots]
        exact Nat.one_lt_succ_succ others.length
      have hseveral : RootsReported records rootSeq _ := .several hmany
      rwa [hroots] at hseveral

theorem orphans_eq_nil_iff :
    (ofRecords records).orphans = [] ↔
      ∀ record ∈ records, ∀ parent, record.parent = .childOf parent → parent ∈ numbers records := by
  rw [orphans_eq, List.flatMap_eq_nil_iff]
  simp only [(missingParents_ofRecords records).mem_iff, List.map_eq_nil_iff,
    (holdsLinks_ofRecords records).childrenOf]
  constructor
  · intro hnone record hrecord parent hparent
    by_contra hmissing
    have hchild : record.seqNumber ∈ numbersUnder records (.childOf parent) :=
      mem_numbersUnder.mpr ⟨record, hrecord, hparent, rfl⟩
    rw [hnone parent ⟨hmissing, record, hrecord, hparent⟩] at hchild
    exact List.not_mem_nil hchild
  · rintro hknown parent ⟨hmissing, record, hrecord, hparent⟩
    exact absurd (hknown record hrecord parent hparent) hmissing

/-- Nothing is reported exactly if each link fits. -/
theorem hasFindings_eq_false_iff :
    (ofRecords records).hasFindings rootSeq = false ↔ LinksFit records rootSeq := by
  rw [hasFindings_eq, Bool.not_eq_false', List.isEmpty_iff, findings_eq, List.append_eq_nil_iff,
    List.append_eq_nil_iff, List.map_eq_nil_iff, List.map_eq_nil_iff,
    (rootFindings_reported records rootSeq).eq_nil_iff,
    (holdsNumbers_ofRecords records).duplicates, repeatedNumbers_eq_nil_iff, orphans_eq_nil_iff]
  constructor
  · rintro ⟨⟨hroots, hnodup⟩, hknown⟩
    exact ⟨hroots, hnodup, hknown⟩
  · intro hfit
    exact ⟨⟨hfit.roots, hfit.nodup⟩, hfit.known⟩

end TreeIndex

end HistoryTree
