import HistoryTree.Proofs.Tree.Findings
import Mathlib.Data.Fintype.Card
import Mathlib.Logic.Relation
import Mathlib.Order.WellFounded

/-!
# When parent links form a tree

The links of records form a tree if going up from any record, from parent to parent,
ends at the root. An index looks at each link by itself: that it leads to a record,
that it leads to one record only, and that one record has none. Going up may then
still go round in a circle, and that is all that can go wrong.
-/

namespace HistoryTree

open Relation

/-- One step up. The child names the number that the parent has. -/
def StepsUp (records : List NodeRecord) (child parent : NodeRecord) : Prop :=
  parent ∈ records ∧ child.parent = .childOf parent.seqNumber

/-- Going up from any record ends at the root with the given number. -/
def Rooted (records : List NodeRecord) (rootSeq : SeqNumber) : Prop :=
  ∀ record ∈ records, ∃ root ∈ records, root.parent = .root ∧ root.seqNumber = rootSeq ∧
    ReflTransGen (StepsUp records) record root

/-- A tree in which the records are told apart by their numbers. -/
structure FormsTree (records : List NodeRecord) (rootSeq : SeqNumber) : Prop where
  nodup : (numbers records).Nodup
  rooted : Rooted records rootSeq

/-- Going up never leads back to where it began. -/
def Acyclic (records : List NodeRecord) : Prop :=
  ∀ record ∈ records, ¬ TransGen (StepsUp records) record record

variable {records : List NodeRecord} {rootSeq : SeqNumber}

/-! ## Single steps -/

/-- There is no step up from a root. -/
theorem StepsUp.parent_ne_root {child parent : NodeRecord} (h : StepsUp records child parent) :
    child.parent ≠ .root := by
  rw [h.2]
  exact ParentRef.noConfusion

/-- If numbers tell the records apart, there is only one way up. -/
theorem stepsUp_rightUnique (hnodup : (numbers records).Nodup) :
    Relator.RightUnique (StepsUp records) := by
  intro child first second hfirst hsecond
  apply List.inj_on_of_nodup_map hnodup hfirst.1 hsecond.1
  exact ParentRef.childOf.inj (hfirst.2.symm.trans hsecond.2)

/-- A record whose parent is known is a root or has a step up. -/
theorem LinksFit.root_or_stepsUp (h : LinksFit records rootSeq) {record : NodeRecord}
    (hrecord : record ∈ records) :
    record.parent = .root ∨ ∃ parent, StepsUp records record parent := by
  cases hparent : record.parent with
  | root => exact Or.inl rfl
  | childOf seq =>
    obtain ⟨parent, hmem, rfl⟩ := mem_numbers.mp (h.known record hrecord seq hparent)
    exact Or.inr ⟨parent, hmem, hparent⟩

theorem LinksFit.seqNumber_of_root (h : LinksFit records rootSeq) {root : NodeRecord}
    (hmem : root ∈ records) (hroot : root.parent = .root) : root.seqNumber = rootSeq := by
  have hnumber : root.seqNumber ∈ numbersUnder records .root :=
    mem_numbersUnder.mpr ⟨root, hmem, hroot, rfl⟩
  cases h.roots with
  | inl hnil => exact absurd (hnil ▸ hmem) List.not_mem_nil
  | inr hone => exact List.mem_singleton.mp (hone ▸ hnumber)

/-! ## Going all the way up -/

/-- Among finitely many records, going up without a circle comes to an end. -/
theorem Acyclic.wellFounded (h : Acyclic records) :
    WellFounded fun upper lower : { record // record ∈ records } =>
      TransGen (StepsUp records) lower upper := by
  have htrans : IsTrans { record // record ∈ records } fun upper lower =>
      TransGen (StepsUp records) lower upper := ⟨fun _ _ _ hupper hlower => hlower.trans hupper⟩
  have hirrefl : Std.Irrefl fun upper lower : { record // record ∈ records } =>
      TransGen (StepsUp records) lower upper := ⟨fun record => h record record.2⟩
  exact Finite.wellFounded_of_trans_of_irrefl _

theorem LinksFit.rooted_of_acyclic (h : LinksFit records rootSeq) (hacyclic : Acyclic records) :
    Rooted records rootSeq := by
  intro record hrecord
  -- The induction goes down from the root: what holds of all records above holds below.
  induction hlower : (⟨record, hrecord⟩ : { record // record ∈ records }) using
    hacyclic.wellFounded.induction generalizing record with
  | _ lower ih =>
    subst hlower
    rcases h.root_or_stepsUp hrecord with hroot | ⟨parent, hstep⟩
    · exact ⟨record, hrecord, hroot, h.seqNumber_of_root hrecord hroot, .refl⟩
    · obtain ⟨root, hmem, hroot, hseq, hclimb⟩ :=
        ih ⟨parent, hstep.1⟩ (.single hstep) parent hstep.1 rfl
      exact ⟨root, hmem, hroot, hseq, hclimb.head hstep⟩

/-- Whoever goes up from a circle stays on it. -/
theorem transGen_self_of_reflTransGen (hnodup : (numbers records).Nodup)
    {first last : NodeRecord} (hcircle : TransGen (StepsUp records) first first)
    (hclimb : ReflTransGen (StepsUp records) first last) :
    TransGen (StepsUp records) last last := by
  induction hclimb with
  | refl => exact hcircle
  | tail _ hstep ih =>
    obtain ⟨next, hnext, hback⟩ := TransGen.head'_iff.mp ih
    have hsame := stepsUp_rightUnique hnodup hnext hstep
    subst hsame
    exact TransGen.tail' hback hstep

theorem FormsTree.acyclic (h : FormsTree records rootSeq) : Acyclic records := by
  intro record hrecord hcircle
  obtain ⟨root, -, hroot, -, hclimb⟩ := h.rooted record hrecord
  obtain ⟨next, hstep, -⟩ :=
    TransGen.head'_iff.mp (transGen_self_of_reflTransGen h.nodup hcircle hclimb)
  exact hstep.parent_ne_root hroot

/-- A record without a parent is where going up ends. -/
theorem Rooted.seqNumber_of_root (h : Rooted records rootSeq) {record : NodeRecord}
    (hmem : record ∈ records) (hparent : record.parent = .root) :
    record.seqNumber = rootSeq := by
  obtain ⟨root, -, -, hseq, hclimb⟩ := h record hmem
  rcases hclimb.cases_head with rfl | ⟨next, hstep, -⟩
  · exact hseq
  · exact absurd hparent hstep.parent_ne_root

/-- A tree has one root, unless it has no records at all. -/
theorem FormsTree.numbersUnder_root (h : FormsTree records rootSeq) :
    records = [] ∨ numbersUnder records .root = [rootSeq] := by
  cases hrecords : records with
  | nil => exact Or.inl rfl
  | cons first rest =>
    rw [← hrecords]
    have hnodup : (numbersUnder records .root).Nodup :=
      h.nodup.sublist (List.filter_sublist.map _)
    obtain ⟨root, hmem, hroot, hseq, -⟩ := h.rooted first (hrecords ▸ List.mem_cons_self)
    have hsame (seq : SeqNumber) : seq ∈ numbersUnder records .root ↔ seq ∈ [rootSeq] := by
      rw [List.mem_singleton, mem_numbersUnder]
      constructor
      · rintro ⟨record, hrecord, hparent, rfl⟩
        exact h.rooted.seqNumber_of_root hrecord hparent
      · rintro rfl
        exact ⟨root, hmem, hroot, hseq⟩
    exact Or.inr (List.perm_singleton.mp
      ((List.perm_ext_iff_of_nodup hnodup (List.nodup_singleton rootSeq)).mpr hsame))

theorem FormsTree.linksFit (h : FormsTree records rootSeq) : LinksFit records rootSeq where
  roots := h.numbersUnder_root
  nodup := h.nodup
  known := by
    intro record hrecord parent hparent
    obtain ⟨root, -, hroot, -, hclimb⟩ := h.rooted record hrecord
    rcases hclimb.cases_head with rfl | ⟨next, hstep, -⟩
    · exact absurd (hroot.symm.trans hparent) ParentRef.noConfusion
    · have hsame := ParentRef.childOf.inj (hstep.2.symm.trans hparent)
      exact mem_numbers.mpr ⟨next, hstep.1, hsame⟩

/-- Parent links form a tree exactly if there is nothing to report and no record is
above itself. The report does not look for such circles. -/
theorem formsTree_iff (records : List NodeRecord) (rootSeq : SeqNumber) :
    FormsTree records rootSeq ↔
      (TreeIndex.ofRecords records).hasFindings rootSeq = false ∧ Acyclic records := by
  rw [TreeIndex.hasFindings_eq_false_iff]
  constructor
  · intro htree
    exact ⟨htree.linksFit, htree.acyclic⟩
  · intro hlinks
    obtain ⟨hfit, hacyclic⟩ := hlinks
    exact ⟨hfit.nodup, hfit.rooted_of_acyclic hacyclic⟩

/-! ## A circle that is not reported -/

/-- A node without content. -/
def bareNode (seq : SeqNumber) (parent : ParentRef) : NodeRecord where
  kind := .leaf
  start := 0
  stop := 0
  seqNumber := seq
  parent := parent
  intervalCount := 0
  varDataOffset := 0
  done := true
  specific := .leaf
  children := []
  intervals := []

/-- A root, and beside it two nodes that name each other as parent. -/
def rootBesideCircle : List NodeRecord :=
  [bareNode ⟨0⟩ .root, bareNode ⟨1⟩ (.childOf ⟨2⟩), bareNode ⟨2⟩ (.childOf ⟨1⟩)]

/-- Nothing is reported, and yet going up from the other two never ends. -/
theorem hasFindings_rootBesideCircle :
    rootBesideCircle ≠ [] ∧
      (TreeIndex.ofRecords rootBesideCircle).hasFindings ⟨0⟩ = false ∧
      ¬ Rooted rootBesideCircle ⟨0⟩ := by
  refine ⟨List.cons_ne_nil _ _, by decide, ?_⟩
  intro hrooted
  have htree : FormsTree rootBesideCircle ⟨0⟩ := ⟨by decide, hrooted⟩
  have hfirst : bareNode ⟨1⟩ (.childOf ⟨2⟩) ∈ rootBesideCircle := by decide
  have hsecond : bareNode ⟨2⟩ (.childOf ⟨1⟩) ∈ rootBesideCircle := by decide
  exact htree.acyclic _ hfirst (.tail (.single ⟨hsecond, rfl⟩) ⟨hfirst, rfl⟩)

end HistoryTree
