import HistoryTree.Proofs.Conversion
import HistoryTree.Proofs.Dump.Shown

/-!
# The lines of dumps and of progress

Whatever the fields of a file are, each of them is shown on one line that begins with a tab
(`FieldLine`). So the lines without a tab are those that a dump and a conversion write
themselves, and they can be told from the nodes alone.
-/

namespace HistoryTree

open Text

/-! ## Texts that are made of lines -/

/-- The lines of a text that line breaks end. -/
def fullLines (text : String) : List (List Char) :=
  (linesOf text).dropLast

theorem toList_unlines (lines : List String) :
    (unlines lines).toList = (lines.map String.toList).flatMap (· ++ ['\n']) := by
  rw [unlines, String.toList_join, List.flatMap_map, List.flatMap_map]
  congr 1
  funext line
  rw [String.toList_append]
  rfl

theorem getLast?_unlines {lines : List String} (h : lines ≠ []) :
    (unlines lines).toList.getLast? = some '\n' := by
  rw [toList_unlines, ← List.dropLast_append_getLast h]
  simp

section Whole

variable {lines : List String} (h : ∀ line ∈ lines, Lacks line '\n')

include h

theorem fullLines_unlines : fullLines (unlines lines) = lines.map String.toList := by
  have hlines : ∀ line ∈ lines.map String.toList, '\n' ∉ line := List.forall_mem_map.mpr h
  rw [fullLines, linesOf, toList_unlines, splitOn_flatMap_snoc hlines, List.dropLast_concat]

theorem count_unlines : (unlines lines).toList.count '\n' = lines.length := by
  rw [toList_unlines]
  induction lines with
  | nil => rfl
  | cons line rest ih =>
    rw [List.forall_mem_cons] at h
    have hline : line.toList.count '\n' = 0 := List.count_eq_zero.mpr h.1
    rw [List.map_cons, List.flatMap_cons, List.count_append, List.count_append, hline, ih h.2,
      List.length_cons, Nat.add_comm]
    rfl

end Whole

/-- Lines can be told from the text that they make. -/
theorem unlines_inj {left right : List String} (hleft : ∀ line ∈ left, Lacks line '\n')
    (hright : ∀ line ∈ right, Lacks line '\n') (h : unlines left = unlines right) :
    left = right := by
  have hlines := congrArg fullLines h
  rw [fullLines_unlines hleft, fullLines_unlines hright] at hlines
  exact List.map_injective_iff.mpr (fun _ _ => String.toList_injective) hlines

/-! ## Lines about fields -/

/-- A line about a field begins with a tab and has no line break. -/
structure FieldLine (line : String) : Prop where
  indented : line.toList.head? = some '\t'
  lacks : Lacks line '\n'

instance (line : String) : Decidable (FieldLine line) :=
  decidable_of_iff (line.toList.head? = some '\t' ∧ '\n' ∉ line.toList)
    ⟨fun h => ⟨h.1, h.2⟩, fun h => ⟨h.1, h.2⟩⟩

theorem FieldLine.append {front back : String} (h : FieldLine front) (hback : Lacks back '\n') :
    FieldLine (front ++ back) where
  indented := by
    rw [String.toList_append, List.head?_append, h.indented]
    rfl
  lacks := lacks_append.mpr ⟨h.lacks, hback⟩

theorem TreeHeader.fieldLine_of_mem_lines {header : TreeHeader} {line : String}
    (h : line ∈ header.lines) : FieldLine line := by
  have hword (word : UInt32) : Lacks (toString word) '\n' := lacks_word (by decide) word
  have hlines : ∀ line ∈ header.lines, FieldLine line := by
    simp only [TreeHeader.lines, List.forall_mem_cons]
    refine ⟨?magic, ?major, ?minor, ?blockSize, ?maxChildren, ?nodeCount, ?rootSeq,
      List.forall_mem_nil _⟩
    case magic => exact .append (by decide) (lacks_hexWord (by decide) header.magic)
    case rootSeq => exact .append (by decide) (lacks_seqNumber (by decide) header.rootSeq)
    all_goals exact .append (by decide) (hword _)
  exact hlines line h

theorem CommonHeader.fieldLine_of_mem_lines {common : CommonHeader} {line : String}
    (h : line ∈ common.lines) : FieldLine line := by
  have hword (word : UInt32) : Lacks (toString word) '\n' := lacks_word (by decide) word
  have hlines : ∀ line ∈ common.lines, FieldLine line := by
    simp only [CommonHeader.lines, List.forall_mem_cons]
    refine ⟨?kind, ?range, ?seqNumber, ?parent, ?intervalCount, ?varDataOffset, ?done,
      List.forall_mem_nil _⟩
    case kind => exact .append (by decide) (lacks_nodeKind common.kind)
    case range =>
      have hstart : FieldLine ("\trange: [" ++ toString common.start) :=
        .append (by decide) (hword common.start)
      exact ((hstart.append (by decide)).append (hword common.stop)).append (by decide)
    case seqNumber => exact .append (by decide) (lacks_seqNumber (by decide) common.seqNumber)
    case parent => exact .append (by decide) (lacks_parentRef common.parent)
    case done => exact .append (by decide) (lacks_yesNo common.done)
    all_goals exact .append (by decide) (hword _)
  exact hlines line h

theorem SpecificHeader.fieldLine_of_mem_lines {specific : SpecificHeader} {line : String}
    (h : line ∈ specific.lines) : FieldLine line := by
  cases specific with
  | core extended childrenCount =>
    rw [SpecificHeader.lines, List.mem_pair] at h
    rcases h with rfl | rfl
    · exact .append (by decide) (lacks_yesNo extended)
    · exact .append (by decide) (lacks_word (by decide) childrenCount)
  | leaf => contradiction
  | unknown => contradiction

theorem ChildEntry.fieldLine_line (child : ChildEntry) : FieldLine child.line := by
  have hseq : FieldLine ("\tchild: seq. number " ++ toString child.seqNumber) :=
    .append (by decide) (lacks_seqNumber (by decide) child.seqNumber)
  exact (hseq.append (by decide)).append (lacks_word (by decide) child.start)

theorem Interval.fieldLine_line (interval : Interval) (block : Bytes) :
    FieldLine (interval.line block) := by
  have hword (word : UInt32) : Lacks (toString word) '\n' := lacks_word (by decide) word
  have hattribute : FieldLine ("\tinterval: attribute " ++ toString interval.attributeId) :=
    .append (by decide) (hword interval.attributeId)
  have htype : Lacks (toString interval.valueType) '\n' :=
    lacks_valueType (by decide) (by decide) interval.valueType
  have hrange : Lacks s!"[{interval.start}, {interval.stop}]" '\n' := by
    change Lacks ("[" ++ toString interval.start ++ ", " ++ toString interval.stop ++ "]") '\n'
    rw [lacks_append, lacks_append, lacks_append, lacks_append]
    exact ⟨⟨⟨⟨by decide, hword _⟩, by decide⟩, hword _⟩, by decide⟩
  exact (((((hattribute.append (by decide)).append htype).append (by decide)).append hrange).append
    (by decide)).append (lacks_value _)

namespace NodeRecord

theorem fieldLine_of_mem_lines {record : NodeRecord} {block : Bytes} {line : String}
    (h : line ∈ record.lines block) : FieldLine line := by
  rw [NodeRecord.lines, List.mem_append, List.mem_append, List.mem_append, List.mem_map,
    List.mem_map] at h
  rcases h with ((hcommon | hspecific) | ⟨child, -, rfl⟩) | ⟨interval, -, rfl⟩
  · exact CommonHeader.fieldLine_of_mem_lines hcommon
  · exact SpecificHeader.fieldLine_of_mem_lines hspecific
  · exact child.fieldLine_line
  · exact interval.fieldLine_line block

/-- How many lines are about the record. -/
def lineCount (record : NodeRecord) : Nat :=
  7 + (if record.specific matches .core .. then 2 else 0) + record.children.length +
    record.intervals.length

theorem length_lines (record : NodeRecord) (block : Bytes) :
    (record.lines block).length = record.lineCount := by
  have hspecific : record.specific.lines.length =
      if record.specific matches .core .. then 2 else 0 := by
    cases record.specific <;> rfl
  rw [lines, lineCount, List.length_append, List.length_append, List.length_append,
    List.length_map, List.length_map, hspecific]
  rfl

end NodeRecord

end HistoryTree
