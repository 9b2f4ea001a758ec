import HistoryTree.Proofs.Text.Numbers
import HistoryTree.Proofs.Tree.Graph
import Mathlib.Algebra.Ring.Nat

/-!
# Graphs as drawings of the links

A graph shows the link of every record and nothing else of it: the lines between the fixed
ones are those of the records (`Graph.linesOf_render`), and a line gives its link back
(`Statement.line_injective`, `Statement.ofLink_injective`). The arrows of a text can be
counted between any marks that an arrow does not have (`occurrences_append_cons`).
-/

namespace HistoryTree

/-! ## Occurrences -/

/-- How many times the pattern stands in the text. -/
def occurrences (pattern text : List Char) : Nat :=
  text.tails.countP (pattern <+: ·)

theorem occurrences_cons (pattern text : List Char) (char : Char) :
    occurrences pattern (char :: text) =
      (if pattern <+: char :: text then 1 else 0) + occurrences pattern text := by
  rw [occurrences, List.tails_cons, List.countP_cons, Nat.add_comm]
  simp [occurrences]

section Marks

variable {pattern : List Char} {mark : Char}

/-- A pattern does not reach over a mark that it lacks. -/
theorem prefix_append_cons_iff (h : mark ∉ pattern) (front back : List Char) :
    pattern <+: front ++ mark :: back ↔ pattern <+: front := by
  induction front generalizing pattern with
  | nil =>
    cases pattern with
    | nil => simp
    | cons first pattern => simp [List.cons_prefix_cons, (List.ne_of_not_mem_cons h).symm]
  | cons char front ih =>
    cases pattern with
    | nil => simp
    | cons first pattern =>
      rw [List.cons_append, List.cons_prefix_cons, List.cons_prefix_cons,
        ih (List.not_mem_of_not_mem_cons h)]

theorem occurrences_append_cons (h : mark ∉ pattern) (front back : List Char) :
    occurrences pattern (front ++ mark :: back) =
      occurrences pattern front + occurrences pattern back := by
  induction front with
  | nil =>
    have hmark := prefix_append_cons_iff h [] back
    rw [List.nil_append] at hmark
    rw [List.nil_append, occurrences_cons, if_congr hmark rfl rfl]
    simp [occurrences]
  | cons char front ih =>
    have hmark := prefix_append_cons_iff h (char :: front) back
    rw [List.cons_append] at hmark
    rw [List.cons_append, occurrences_cons, occurrences_cons, ih, if_congr hmark rfl rfl,
      Nat.add_assoc]

theorem occurrences_flatMap_cons (h : mark ∉ pattern) (front : List Char)
    (parts : List (List Char)) :
    occurrences pattern (front ++ parts.flatMap (mark :: ·)) =
      occurrences pattern front + (parts.map (occurrences pattern)).sum := by
  induction parts generalizing front with
  | nil => simp
  | cons part rest ih =>
    rw [List.flatMap_cons, ← List.append_assoc, ih, occurrences_append_cons h, List.map_cons,
      List.sum_cons, Nat.add_assoc]

theorem occurrences_eq_zero (mark : Char) {text : List Char} (hpattern : mark ∈ pattern)
    (htext : mark ∉ text) : occurrences pattern text = 0 := by
  rw [occurrences, List.countP_eq_zero]
  intro tail htail hprefix
  have hsuffix : tail <:+ text := (List.mem_tails _ _).mp htail
  exact htext (hsuffix.subset ((of_decide_eq_true hprefix).subset hpattern))

end Marks

/-! ## What a statement shows -/

theorem SeqNumber.digits_append_inj {left right : SeqNumber} {restLeft restRight : List Char}
    (h : left.digits ++ '"' :: restLeft = right.digits ++ '"' :: restRight) :
    left = right ∧ restLeft = restRight := by
  obtain ⟨hdigits, hrest⟩ := (append_cons_inj_of_not_mem (left.not_mem_digits (by decide))
    (right.not_mem_digits (by decide))).mp h
  have hvalue : left.value = right.value :=
    UInt32.toNat_inj.mp (Text.toDigits_inj (by decide) (by decide) hdigits)
  exact ⟨congrArg SeqNumber.mk hvalue, hrest⟩

namespace Statement

theorem line_node (seq : SeqNumber) :
    (node seq).line = ['\t'] ++ '"' :: (seq.digits ++ '"' :: [';']) := by
  simp [line]

theorem line_edge (parent child : SeqNumber) :
    (edge parent child).line =
      ['\t'] ++ '"' :: (parent.digits ++ '"' :: (arrow ++ '"' :: (child.digits ++ '"' :: [';']))) := by
  simp [line]

/-- What follows the first number tells a lone node from an edge. -/
theorem line_node_ne_line_edge (seq parent child : SeqNumber) :
    (node seq).line ≠ (edge parent child).line := by
  intro h
  rw [line_node, line_edge, List.append_right_inj] at h
  obtain ⟨-, hrest⟩ := SeqNumber.digits_append_inj (List.tail_eq_of_cons_eq h)
  exact absurd (List.head_eq_of_cons_eq hrest) (by decide)

theorem line_injective {first second : Statement} (h : first.line = second.line) :
    first = second := by
  cases first with
  | node seq =>
    cases second with
    | node other =>
      rw [line_node, line_node, List.append_right_inj] at h
      obtain ⟨rfl, -⟩ := SeqNumber.digits_append_inj (List.tail_eq_of_cons_eq h)
      rfl
    | edge parent child => exact absurd h (line_node_ne_line_edge seq parent child)
  | edge parent child =>
    cases second with
    | node seq => exact absurd h.symm (line_node_ne_line_edge seq parent child)
    | edge otherParent otherChild =>
      rw [line_edge, line_edge, List.append_right_inj] at h
      obtain ⟨rfl, hrest⟩ := SeqNumber.digits_append_inj (List.tail_eq_of_cons_eq h)
      obtain ⟨rfl, -⟩ :=
        SeqNumber.digits_append_inj (List.tail_eq_of_cons_eq (List.append_cancel_left hrest))
      rfl

theorem ofLink_injective {first second : SeqNumber × ParentRef}
    (h : ofLink first = ofLink second) : first = second := by
  obtain ⟨seq, parent⟩ := first
  obtain ⟨other, otherParent⟩ := second
  cases parent <;> cases otherParent <;> simp_all [ofLink]

/-- The quotes take a line apart into pieces without arrows and, in an edge, the arrow. -/
theorem occurrences_line (statement : Statement) :
    occurrences arrow statement.line = if statement.isEdge then 1 else 0 := by
  have hquote : '"' ∉ arrow := by decide
  have hdigits (seq : SeqNumber) : occurrences arrow seq.digits = 0 :=
    occurrences_eq_zero '>' (by decide) (seq.not_mem_digits (by decide))
  have htab : occurrences arrow ['\t'] = 0 := by decide
  have hend : occurrences arrow [';'] = 0 := by decide
  have harrow : occurrences arrow arrow = 1 := by decide
  cases statement with
  | node seq =>
    rw [line_node, occurrences_append_cons hquote, occurrences_append_cons hquote, htab, hdigits,
      hend]
    rfl
  | edge parent child =>
    rw [line_edge, occurrences_append_cons hquote, occurrences_append_cons hquote,
      occurrences_append_cons hquote, occurrences_append_cons hquote, htab, hdigits, hdigits,
      hend, harrow]
    rfl

end Statement

/-! ## What a graph shows -/

/-- The quoted number of a node. -/
def SeqNumber.quoted (seq : SeqNumber) : String :=
  "\"" ++ toString seq ++ "\""

/-- A record as a graph draws it: a root as a lone node, any other node as an edge from its
parent. -/
def NodeRecord.drawn (record : NodeRecord) : String :=
  match record.parent with
  | .root => record.seqNumber.quoted
  | .childOf parent => parent.quoted ++ " -> " ++ record.seqNumber.quoted

namespace NodeRecord

theorem toList_drawn (record : NodeRecord) :
    ("\t" ++ record.drawn ++ ";").toList = (Statement.ofRecord record).line := by
  rw [drawn, Statement.ofRecord]
  cases record.parent with
  | root => simp [SeqNumber.quoted, SeqNumber.toList_toString, Statement.line]
  | childOf parent => simp [SeqNumber.quoted, SeqNumber.toList_toString, Statement.line, arrow]

theorem drawn_eq_quoted_iff (record : NodeRecord) :
    record.drawn = record.seqNumber.quoted ↔ record.parent = .root := by
  have hquoted : Text.Lacks record.seqNumber.quoted '>' := by
    rw [SeqNumber.quoted, Text.lacks_append, Text.lacks_append]
    exact ⟨⟨by decide, Text.lacks_nat (by decide) _⟩, by decide⟩
  rw [drawn]
  cases record.parent with
  | root => exact iff_of_true rfl rfl
  | childOf parent =>
    refine iff_of_false (hquoted.ne fun hlacks => ?_).symm nofun
    rw [Text.lacks_append, Text.lacks_append] at hlacks
    exact absurd hlacks.1.2 (by decide)

end NodeRecord

namespace Graph

/-- The text draws each of the records once, in their order, and nothing else. -/
structure Draws (records : List NodeRecord) (text : String) : Prop where
  text_eq : text =
    "digraph hf \x7b\n\tsize=\"6,6\";\n\tnode [color=lightblue2, style=filled];\n" ++
      String.join (records.map fun record => "\n\t" ++ record.drawn ++ ";") ++ "\n\x7d\n"
  lines : linesOf text =
    ["digraph hf \x7b", "\tsize=\"6,6\";", "\tnode [color=lightblue2, style=filled];", ""].map
        String.toList ++
      records.map (fun record => ("\t" ++ record.drawn ++ ";").toList) ++
      ["\x7d", ""].map String.toList
  lone : ∀ record ∈ records,
    (record.drawn = record.seqNumber.quoted ↔ record.parent = .root)
  arrows : occurrences arrow text.toList = records.countP (·.parent ≠ .root)

/-- Each line between the fixed ones gives the link of its record. -/
theorem render_inj {first second : List NodeRecord} :
    render first = render second ↔ first.map NodeRecord.link = second.map NodeRecord.link := by
  refine ⟨fun h => ?_, render_congr⟩
  have hlines := congrArg linesOf h
  rw [linesOf_render, linesOf_render] at hlines
  have hstatements := List.append_cancel_left (List.append_cancel_right hlines)
  have hsplit (records : List NodeRecord) :
      records.map (fun record => (Statement.ofRecord record).line) =
        (records.map NodeRecord.link).map fun link => (Statement.ofLink link).line := by
    rw [List.map_map]
    rfl
  rw [hsplit, hsplit] at hstatements
  exact List.map_injective_iff.mpr
    (fun _ _ hline => Statement.ofLink_injective (Statement.line_injective hline)) hstatements

theorem sum_occurrences_statements (records : List NodeRecord) :
    ((records.map fun record => (Statement.ofRecord record).line).map
      (occurrences arrow)).sum = records.countP (·.parent ≠ .root) := by
  induction records with
  | nil => rfl
  | cons record rest ih =>
    rw [List.map_cons, List.map_cons, List.sum_cons, ih, List.countP_cons,
      Statement.occurrences_line, Statement.isEdge_ofRecord, NodeRecord.isRoot_eq, Nat.add_comm]
    simp

/-- The fixed lines have no arrows, and of the others the edges have one each. -/
theorem occurrences_render (records : List NodeRecord) :
    occurrences arrow (render records).toList = records.countP (·.parent ≠ .root) := by
  have hfixed {line : String} (h : line ∈ title :: styleLines ++ closingLines) :
      occurrences arrow line.toList = 0 :=
    occurrences_eq_zero '>' (by decide) (not_mem_fixed_line h).2
  have hsum {lines : List String} (h : lines ⊆ title :: styleLines ++ closingLines) :
      ((lines.map String.toList).map (occurrences arrow)).sum = 0 := by
    rw [List.sum_eq_zero_iff_forall_eq_nat, List.map_map, List.forall_mem_map]
    exact fun line hline => hfixed (h hline)
  have hstyles : styleLines ⊆ title :: styleLines ++ closingLines :=
    fun _ hline => List.mem_append_left _ (List.mem_cons_of_mem _ hline)
  rw [toList_render_eq_lines, occurrences_flatMap_cons (by decide), List.map_append,
    List.map_append, List.sum_append, List.sum_append, hfixed List.mem_cons_self, hsum hstyles,
    hsum (List.subset_append_right _ _), sum_occurrences_statements, Nat.zero_add, Nat.zero_add,
    Nat.add_zero]

theorem draws_render (records : List NodeRecord) : Draws records (render records) where
  text_eq := by
    have hstatements : (records.foldl add empty).statements.toList.map toString =
        records.map fun record => "\n\t" ++ record.drawn ++ ";" := by
      rw [statements_foldl_add, empty, List.nil_append, List.map_map]
      refine List.map_congr_left fun record _ => String.toList_injective ?_
      rw [Function.comp_apply, Statement.toList_toString, ← NodeRecord.toList_drawn]
      simp
    rw [render, text, hstatements]
    rfl
  lines := by
    simp only [linesOf_render, NodeRecord.toList_drawn]
    rfl
  lone record _ := record.drawn_eq_quoted_iff
  arrows := occurrences_render records

/-- Graphs are the same exactly if their records have the same links, so that a root is not
drawn like a node whose parent has the number that is stored for a root. Each record is drawn
once, and the arrows are as many as the records that name a parent. -/
theorem render_faithful :
    (∀ first second : List NodeRecord,
      render first = render second ↔ first.map NodeRecord.link = second.map NodeRecord.link) ∧
    (∀ (before after : List NodeRecord) (first second : NodeRecord),
      render (before ++ { first with parent := .root } :: after) ≠
        render (before ++ { second with parent := .childOf ⟨4294967295⟩ } :: after)) ∧
    ∀ records, Draws records (render records) := by
  refine ⟨fun first second => render_inj, fun before after first second h => ?_, draws_render⟩
  have hlinks := render_inj.mp h
  rw [List.map_append, List.map_append, List.append_right_inj] at hlinks
  have hparent := congrArg Prod.snd (List.head_eq_of_cons_eq hlinks)
  exact ParentRef.noConfusion hparent

end Graph

end HistoryTree
