import HistoryTree.Proofs.Text.Lines
import HistoryTree.Tree.Graph

/-!
# The lines of a graph

Each record adds one line to the text of its graph (`Graph.lines_render`), which is an
edge line exactly if the record names a parent (`Graph.edgeLines_render`).
-/

namespace HistoryTree

/-- The arrow of an edge, set off by blanks. -/
def arrow : List Char := [' ', '-', '>', ' ']

/-- The lines of a text that have an arrow. -/
def edgeLines (text : String) : List (List Char) :=
  (linesOf text).filter fun line => arrow <:+: line

namespace SeqNumber

def digits (seq : SeqNumber) : List Char :=
  Nat.toDigits 10 seq.value.toNat

theorem toList_toString (seq : SeqNumber) : (toString seq).toList = seq.digits :=
  String.toList_ofList

theorem not_mem_digits {char : Char} (h : char.isDigit = false) (seq : SeqNumber) :
    char ∉ seq.digits := by
  intro hmem
  rw [Nat.isDigit_of_mem_toDigits (by decide) (by decide) hmem] at h
  contradiction

end SeqNumber

/-- What a record says of its place in the tree. -/
def NodeRecord.link (record : NodeRecord) : SeqNumber × ParentRef :=
  (record.seqNumber, record.parent)

theorem NodeRecord.isRoot_eq (record : NodeRecord) :
    record.isRoot = decide (record.parent = .root) := by
  rw [NodeRecord.isRoot]
  cases record.parent with
  | root => rfl
  | childOf parent => rfl

namespace Statement

def ofLink (link : SeqNumber × ParentRef) : Statement :=
  match link.2 with
  | .root => .node link.1
  | .childOf parent => .edge parent link.1

/-- What follows the line break that a statement begins with. -/
def line : Statement → List Char
  | .node seq => ['\t', '"'] ++ seq.digits ++ ['"', ';']
  | .edge parent child =>
    ['\t', '"'] ++ parent.digits ++ '"' :: arrow ++ ['"'] ++ child.digits ++ ['"', ';']

theorem toList_toString (statement : Statement) :
    (toString statement).toList = '\n' :: statement.line := by
  cases statement with
  | node seq =>
    change ("\n\t\"" ++ toString seq ++ "\";").toList = _
    rw [String.toList_append, String.toList_append, seq.toList_toString]
    rfl
  | edge parent child =>
    change ("\n\t\"" ++ toString parent ++ "\" -> \"" ++ toString child ++ "\";").toList = _
    simp [SeqNumber.toList_toString, line, arrow]

theorem newline_not_mem_line (statement : Statement) : '\n' ∉ statement.line := by
  have hdigits (seq : SeqNumber) : '\n' ∉ seq.digits := seq.not_mem_digits (by decide)
  cases statement with
  | node seq => simp [line, hdigits]
  | edge parent child => simp [line, hdigits, arrow]

def isEdge : Statement → Bool
  | .node _ => false
  | .edge _ _ => true

theorem isEdge_ofRecord (record : NodeRecord) : (ofRecord record).isEdge = !record.isRoot := by
  rw [ofRecord, NodeRecord.isRoot]
  cases record.parent with
  | root => rfl
  | childOf parent => rfl

theorem arrow_infix_line_iff (statement : Statement) :
    arrow <:+: statement.line ↔ statement.isEdge = true := by
  cases statement with
  | node seq =>
    have hdigits : ' ' ∉ seq.digits := seq.not_mem_digits (by decide)
    have hblank : ' ' ∉ (Statement.node seq).line := by simp [line, hdigits]
    constructor
    · exact fun harrow => absurd (harrow.subset List.mem_cons_self) hblank
    · exact nofun
  | edge parent child =>
    refine iff_of_true ⟨['\t', '"'] ++ parent.digits ++ ['"'],
      ['"'] ++ child.digits ++ ['"', ';'], ?_⟩ rfl
    simp [line]

end Statement

namespace Graph

theorem statements_foldl_add (graph : Graph) (records : List NodeRecord) :
    (records.foldl add graph).statements.toList =
      graph.statements.toList ++ records.map .ofRecord := by
  induction records generalizing graph with
  | nil => simp
  | cons record rest ih =>
    rw [List.foldl_cons, ih, add, Array.toList_push, List.append_assoc]
    rfl

/-- A graph is told from the links of its records. -/
theorem render_congr {first second : List NodeRecord}
    (h : first.map NodeRecord.link = second.map NodeRecord.link) :
    render first = render second := by
  have hstatements (records : List NodeRecord) :
      (records.foldl add empty).statements.toList =
        (records.map NodeRecord.link).map Statement.ofLink := by
    rw [statements_foldl_add, List.map_map]
    rfl
  rw [render, render, text, text, hstatements, hstatements, h]

theorem toList_render (records : List NodeRecord) :
    (render records).toList =
      preamble.toList ++ (records.flatMap fun record => '\n' :: (Statement.ofRecord record).line) ++
        closing.toList := by
  rw [render, text, statements_foldl_add, String.toList_append, String.toList_append,
    String.toList_join]
  simp [empty, List.flatMap_map, Statement.toList_toString]

/-- The line that opens a graph. -/
def title : String := "digraph hf \x7b"

/-- The lines between the first one and the statements. -/
def styleLines : List String :=
  ["\tsize=\"6,6\";", "\tnode [color=lightblue2, style=filled];", ""]

def closingLines : List String :=
  ["\x7d", ""]

theorem toList_join_lines (lines : List String) :
    (String.join (lines.map ("\n" ++ ·))).toList =
      (lines.map String.toList).flatMap ('\n' :: ·) := by
  rw [String.toList_join, List.flatMap_map, List.flatMap_map]
  congr 1
  funext line
  rw [String.toList_append]
  rfl

theorem toList_preamble :
    preamble.toList = title.toList ++ (styleLines.map String.toList).flatMap ('\n' :: ·) := by
  have hpreamble : preamble = title ++ String.join (styleLines.map ("\n" ++ ·)) := by decide
  rw [hpreamble, String.toList_append, toList_join_lines]

theorem toList_closing :
    closing.toList = (closingLines.map String.toList).flatMap ('\n' :: ·) := by
  have hclosing : closing = String.join (closingLines.map ("\n" ++ ·)) := by decide
  rw [hclosing, toList_join_lines]

/-- Neither line breaks nor arrows are in the fixed lines. -/
theorem not_mem_fixed_line {line : String} (h : line ∈ title :: styleLines ++ closingLines) :
    '\n' ∉ line.toList ∧ '>' ∉ line.toList := by
  have hfixed : ∀ line ∈ title :: styleLines ++ closingLines,
      '\n' ∉ line.toList ∧ '>' ∉ line.toList := by
    simp [title, styleLines, closingLines]
  exact hfixed line h

/-- Every line of a graph but the first follows a line break. -/
theorem toList_render_eq_lines (records : List NodeRecord) :
    (render records).toList = title.toList ++
      (styleLines.map String.toList ++
        records.map (fun record => (Statement.ofRecord record).line) ++
        closingLines.map String.toList).flatMap ('\n' :: ·) := by
  rw [toList_render, toList_preamble, toList_closing, List.flatMap_append, List.flatMap_append,
    List.flatMap_map _ _ records, List.append_assoc, List.append_assoc, List.append_assoc]

/-- The lines of a graph are those of its records between fixed ones. -/
theorem linesOf_render (records : List NodeRecord) :
    linesOf (render records) =
      (title :: styleLines).map String.toList ++
        records.map (fun record => (Statement.ofRecord record).line) ++
        closingLines.map String.toList := by
  have hnewline {line : String} (h : line ∈ title :: styleLines ++ closingLines) :
      '\n' ∉ line.toList := (not_mem_fixed_line h).1
  rw [linesOf, toList_render_eq_lines, splitOn_flatMap_cons,
    splitOn_of_not_mem (hnewline List.mem_cons_self)]
  · rfl
  · simp only [List.forall_mem_append, List.forall_mem_map]
    refine ⟨⟨fun line hline => hnewline ?_, fun record _ => ?_⟩,
      fun line hline => hnewline ?_⟩
    · exact List.mem_append_left _ (List.mem_cons_of_mem _ hline)
    · exact (Statement.ofRecord record).newline_not_mem_line
    · exact List.mem_append_right _ hline

/-- The edge lines of a graph are the lines of the records that name a parent. -/
theorem edgeLines_render (records : List NodeRecord) :
    edgeLines (render records) =
      (records.filter fun record => !record.isRoot).map
        fun record => (Statement.ofRecord record).line := by
  have hfixed {lines : List String} (h : lines ⊆ title :: styleLines ++ closingLines) :
      (lines.map String.toList).filter (arrow <:+: ·) = [] := by
    simp only [List.filter_eq_nil_iff, List.forall_mem_map, decide_eq_true_eq]
    intro line hline harrow
    have hhead : '>' ∈ arrow := by decide
    exact (not_mem_fixed_line (h hline)).2 (harrow.subset hhead)
  rw [edgeLines, linesOf_render, List.filter_append, List.filter_append,
    hfixed (List.subset_append_left _ _), hfixed (List.subset_append_right _ _),
    List.nil_append, List.append_nil, List.filter_map]
  congr 1
  apply List.filter_congr
  intro record _
  rw [Function.comp_apply, Bool.eq_iff_iff, decide_eq_true_eq, Statement.arrow_infix_line_iff,
    Statement.isEdge_ofRecord]

end Graph

end HistoryTree
