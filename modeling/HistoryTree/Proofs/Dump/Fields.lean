import HistoryTree.Proofs.Block.Canonical
import HistoryTree.Proofs.Dump.Headings

/-!
# The fields in a dump

A dump of a node gives its fields back: each line gives those that it shows, and which lines
are about children and which about intervals is told by how they begin. Of a value, what is
shown is given back (`Interval.ShownAlike`).
-/

namespace HistoryTree

open Text

/-! ## Fields that are told from lines -/

theorem CommonHeader.lines_inj {left right : CommonHeader} (h : left.lines = right.lines) :
    left = right := by
  have hrange (common : CommonHeader) : s!"\trange: [{common.start}, {common.stop}]" =
      "\trange: [" ++ (toString common.start ++ (", " ++ (toString common.stop ++ "]"))) := by
    change "\trange: [" ++ toString common.start ++ ", " ++ toString common.stop ++ "]" = _
    simp only [String.append_assoc]
  simp only [CommonHeader.lines, hrange, List.cons.injEq, and_true] at h
  obtain ⟨hkind, hrange, hseqNumber, hparent, hintervalCount, hvarDataOffset, hdone⟩ := h
  have hkind := toString_nodeKind_inj ((String.append_right_inj _).mp hkind)
  have hseqNumber := toString_seqNumber_inj ((String.append_right_inj _).mp hseqNumber)
  have hparent := toString_parentRef_inj ((String.append_right_inj _).mp hparent)
  have hintervalCount := toString_word_inj ((String.append_right_inj _).mp hintervalCount)
  have hvarDataOffset := toString_word_inj ((String.append_right_inj _).mp hvarDataOffset)
  have hdone := yesNo_inj ((String.append_right_inj _).mp hdone)
  obtain ⟨hstart, hstop⟩ := append_separator_inj rfl (lacks_word (by decide) _)
    (lacks_word (by decide) _) ((String.append_right_inj _).mp hrange)
  have hstart := toString_word_inj hstart
  have hstop := toString_word_inj ((String.append_left_inj _).mp hstop)
  cases left
  cases right
  rw [CommonHeader.mk.injEq]
  exact ⟨hkind, hstart, hstop, hseqNumber, hparent, hintervalCount, hvarDataOffset, hdone⟩

theorem ChildEntry.line_eq (child : ChildEntry) :
    child.line = "\tchild: seq. number " ++
      (toString child.seqNumber ++ (", start " ++ toString child.start)) := by
  change "\tchild: seq. number " ++ toString child.seqNumber ++ ", start " ++
    toString child.start = _
  simp only [String.append_assoc]

theorem ChildEntry.line_inj {left right : ChildEntry} (h : left.line = right.line) :
    left = right := by
  rw [line_eq, line_eq, String.append_right_inj] at h
  obtain ⟨hseqNumber, hstart⟩ := append_separator_inj rfl (lacks_seqNumber (by decide) _)
    (lacks_seqNumber (by decide) _) h
  have hseqNumber := toString_seqNumber_inj hseqNumber
  have hstart := toString_word_inj hstart
  cases left
  cases right
  rw [ChildEntry.mk.injEq]
  exact ⟨hseqNumber, hstart⟩

theorem SpecificHeader.lines_core_inj {extended otherExtended : Bool} {count otherCount : UInt32}
    (h : (core extended count).lines = (core otherExtended otherCount).lines) :
    core extended count = core otherExtended otherCount := by
  simp only [lines, List.cons.injEq, and_true] at h
  rw [yesNo_inj ((String.append_right_inj _).mp h.1),
    toString_word_inj ((String.append_right_inj _).mp h.2)]

/-! ## Intervals -/

/-- The intervals have the same fields but for the stored words of strings and floats. Strings
lead to the same text, or nowhere from the same offset. -/
structure Interval.ShownAlike (leftBlock rightBlock : Bytes) (left right : Interval) : Prop where
  start : left.start = right.start
  stop : left.stop = right.stop
  attributeId : left.attributeId = right.attributeId
  valueType : left.valueType = right.valueType
  value : left.valueType ≠ .str → left.valueType ≠ .float → left.value = right.value
  string : left.valueType = .str →
    (∃ text, left.interpret leftBlock = .str text ∧ right.interpret rightBlock = .str text) ∨
    (left.interpret leftBlock = .raw left.value ∧ right.interpret rightBlock = .raw right.value ∧
      left.value = right.value)

namespace Interval

variable {leftBlock rightBlock : Bytes} {left right : Interval}

theorem line_eq (interval : Interval) (block : Bytes) :
    interval.line block = "\tinterval: attribute " ++ (toString interval.attributeId ++
      (", " ++ (toString interval.valueType ++ (", " ++ ("[" ++ (toString interval.start ++
        (", " ++ (toString interval.stop ++ ("]" ++ (": " ++
          toString (interval.interpret block))))))))))) := by
  change "\tinterval: attribute " ++ toString interval.attributeId ++ ", " ++
    toString interval.valueType ++ ", " ++ ("[" ++ toString interval.start ++ ", " ++
      toString interval.stop ++ "]") ++ ": " ++ toString (interval.interpret block) = _
  simp only [String.append_assoc]

theorem interpret_of_str {interval : Interval} (h : interval.valueType = .str) (block : Bytes) :
    (∃ text, interval.interpret block = .str text) ∨
      interval.interpret block = .raw interval.value := by
  rw [interpret, h]
  cases readString? block interval.value with
  | some text => exact Or.inl ⟨text, rfl⟩
  | none => exact Or.inr rfl

section Values

variable (htype : left.valueType = right.valueType)
  (h : toString (left.interpret leftBlock) = toString (right.interpret rightBlock))

include htype h

theorem value_eq_of_shown (hstr : left.valueType ≠ .str) (hfloat : left.valueType ≠ .float) :
    left.value = right.value := by
  rw [interpret, interpret, ← htype] at h
  cases hcase : left.valueType with
  | int32 =>
    rw [hcase] at h
    exact toString_int32_inj h
  | uint32 =>
    rw [hcase] at h
    exact toString_word_inj h
  | other tag =>
    rw [hcase] at h
    exact toString_word_inj h
  | str => contradiction
  | float => contradiction

theorem string_of_shown (hstr : left.valueType = .str) :
    (∃ text, left.interpret leftBlock = .str text ∧ right.interpret rightBlock = .str text) ∨
    (left.interpret leftBlock = .raw left.value ∧ right.interpret rightBlock = .raw right.value ∧
      left.value = right.value) := by
  rcases interpret_of_str hstr leftBlock with ⟨text, hleft⟩ | hleft
  · rcases interpret_of_str (htype ▸ hstr) rightBlock with ⟨other, hright⟩ | hright
    · rw [hleft, hright] at h
      obtain rfl := quote_inj h
      exact Or.inl ⟨text, hleft, hright⟩
    · rw [hleft, hright] at h
      exact absurd h (toString_str_ne_raw _ _)
  · rcases interpret_of_str (htype ▸ hstr) rightBlock with ⟨other, hright⟩ | hright
    · rw [hleft, hright] at h
      exact absurd h.symm (toString_str_ne_raw _ _)
    · rw [hleft, hright] at h
      exact Or.inr ⟨hleft, hright, toString_word_inj h⟩

end Values

/-- By taking the line apart from the front, at the separators that no field has. -/
theorem shownAlike_of_line_eq (h : left.line leftBlock = right.line rightBlock) :
    ShownAlike leftBlock rightBlock left right := by
  have hword (word : UInt32) : Lacks (toString word) ',' := lacks_word (by decide) word
  have htype (valueType : ValueType) : Lacks (toString valueType) ',' :=
    lacks_valueType (by decide) (by decide) valueType
  rw [line_eq, line_eq, String.append_right_inj] at h
  obtain ⟨hattributeId, h⟩ := append_separator_inj rfl (hword _) (hword _) h
  obtain ⟨hvalueType, h⟩ := append_separator_inj rfl (htype _) (htype _) h
  rw [String.append_right_inj] at h
  obtain ⟨hstart, h⟩ := append_separator_inj rfl (hword _) (hword _) h
  obtain ⟨hstop, h⟩ := append_separator_inj rfl (lacks_word (by decide) _)
    (lacks_word (by decide) _) h
  rw [String.append_right_inj] at h
  have hvalueType := toString_valueType_inj hvalueType
  exact {
    start := toString_word_inj hstart
    stop := toString_word_inj hstop
    attributeId := toString_word_inj hattributeId
    valueType := hvalueType
    value := value_eq_of_shown hvalueType h
    string := string_of_shown hvalueType h }

end Interval

/-! ## Whole nodes -/

/-- The nodes have the same fields, as far as the fields are shown. -/
structure DecodedNode.ShownAlike (leftBlock rightBlock : Bytes) (left right : DecodedNode) :
    Prop where
  issue : left.issue = right.issue
  common : left.record.toCommonHeader = right.record.toCommonHeader
  specific : left.record.specific = right.record.specific
  children : left.record.children = right.record.children
  intervals : List.Forall₂ (Interval.ShownAlike leftBlock rightBlock) left.record.intervals
    right.record.intervals

/-- Two lists that are put together from entries of two sorts have the same entries of each
sort. -/
theorem append_inj_of_filter {α : Type} {sort : α → Bool} {left right restLeft restRight : List α}
    (hleft : ∀ entry ∈ left, sort entry = true) (hright : ∀ entry ∈ right, sort entry = true)
    (hrestLeft : ∀ entry ∈ restLeft, ¬ sort entry = true)
    (hrestRight : ∀ entry ∈ restRight, ¬ sort entry = true)
    (h : left ++ restLeft = right ++ restRight) : left = right ∧ restLeft = restRight := by
  have hfilter := congrArg (List.filter sort) h
  rw [List.filter_append, List.filter_append, List.filter_eq_self.mpr hleft,
    List.filter_eq_self.mpr hright, List.filter_eq_nil_iff.mpr hrestLeft,
    List.filter_eq_nil_iff.mpr hrestRight, List.append_nil, List.append_nil] at hfilter
  subst hfilter
  exact ⟨rfl, List.append_cancel_left h⟩

/-- Whether a line about a child or an interval is about a child. -/
def isChildLine (line : String) : Bool :=
  line.toList[1]? = some 'c'

theorem isChildLine_append {front : String} (h : 1 < front.toList.length) (back : String) :
    isChildLine (front ++ back) = isChildLine front := by
  rw [isChildLine, isChildLine, String.toList_append, List.getElem?_append_left h]

theorem isChildLine_child (child : ChildEntry) : isChildLine child.line = true := by
  rw [ChildEntry.line_eq, isChildLine_append (by decide)]
  decide

theorem isChildLine_interval (interval : Interval) (block : Bytes) :
    ¬ isChildLine (interval.line block) = true := by
  rw [Interval.line_eq, isChildLine_append (by decide)]
  decide

theorem entries_shownAlike {leftChildren rightChildren : List ChildEntry}
    {leftIntervals rightIntervals : List Interval} {leftBlock rightBlock : Bytes}
    (h : leftChildren.map ChildEntry.line ++ leftIntervals.map (·.line leftBlock) =
      rightChildren.map ChildEntry.line ++ rightIntervals.map (·.line rightBlock)) :
    leftChildren = rightChildren ∧
      List.Forall₂ (Interval.ShownAlike leftBlock rightBlock) leftIntervals rightIntervals := by
  have hchild (children : List ChildEntry) :
      ∀ line ∈ children.map ChildEntry.line, isChildLine line = true :=
    List.forall_mem_map.mpr fun child _ => isChildLine_child child
  have hinterval (intervals : List Interval) (block : Bytes) :
      ∀ line ∈ intervals.map (·.line block), ¬ isChildLine line = true :=
    List.forall_mem_map.mpr fun interval _ => isChildLine_interval interval block
  obtain ⟨hchildren, hintervals⟩ := append_inj_of_filter (hchild leftChildren)
    (hchild rightChildren) (hinterval leftIntervals leftBlock)
    (hinterval rightIntervals rightBlock) h
  rw [← List.forall₂_eq_eq_eq, List.forall₂_map_left_iff, List.forall₂_map_right_iff]
    at hintervals
  exact ⟨List.map_injective_iff.mpr (fun _ _ => ChildEntry.line_inj) hchildren,
    hintervals.imp fun _ _ => Interval.shownAlike_of_line_eq⟩

section Nodes

variable {leftBlock rightBlock : Bytes} {maxLeft maxRight : UInt32} {left right : DecodedNode}

theorem known_of_decodeBlock {block : Bytes} {maxChildren : UInt32} {node : DecodedNode}
    (h : (decodeBlock block maxChildren).result = .ok node) :
    node.issue = none ∨ ∃ tag, node.issue = some (.unknownNodeType tag) := by
  obtain ⟨-, rfl⟩ := result_decodeBlock_eq_ok_iff.mp h
  cases Block.kinds block with
  | core tag => exact Or.inl (by rw [Block.node_core tag]; rfl)
  | leaf tag => exact Or.inl (by rw [Block.node_leaf tag]; rfl)
  | unknown notCore notLeaf =>
    exact Or.inr ⟨_, by rw [Block.node_unknown notCore notLeaf]; rfl⟩

theorem shape_of_decodeBlock {block : Bytes} {maxChildren : UInt32} {node : DecodedNode}
    (h : (decodeBlock block maxChildren).result = .ok node) : node.record.Shape maxChildren := by
  obtain ⟨-, rfl⟩ := result_decodeBlock_eq_ok_iff.mp h
  exact Block.shape_node block maxChildren

theorem issue_eq_of_lines_eq
    (hleft : left.issue = none ∨ ∃ tag, left.issue = some (.unknownNodeType tag))
    (hright : right.issue = none ∨ ∃ tag, right.issue = some (.unknownNodeType tag))
    (h : (left.issue.map Dump.Entry.issueLine).toList ++ left.record.lines leftBlock =
      (right.issue.map Dump.Entry.issueLine).toList ++ right.record.lines rightBlock) :
    left.issue = right.issue ∧ left.record.lines leftBlock = right.record.lines rightBlock := by
  have hlabels (kind : NodeKind) (issue : DecodeError) :
      s!"\ttype: {kind}" ≠ Dump.Entry.issueLine issue :=
    append_ne_append (by decide) (by decide)
  rcases hleft with hnone | ⟨tag, hsome⟩
  · rcases hright with hnoneRight | ⟨other, hsomeRight⟩
    · rw [hnone, hnoneRight] at h
      exact ⟨by rw [hnone, hnoneRight], h⟩
    · rw [hnone, hsomeRight] at h
      exact absurd (List.head_eq_of_cons_eq h) (hlabels _ _)
  · rcases hright with hnoneRight | ⟨other, hsomeRight⟩
    · rw [hsome, hnoneRight] at h
      exact absurd (List.head_eq_of_cons_eq h).symm (hlabels _ _)
    · rw [hsome, hsomeRight] at h
      obtain ⟨hline, hrecord⟩ := List.cons.inj h
      have hmessage : "unknown node type " ++ toString tag = "unknown node type " ++ toString other :=
        (String.append_right_inj _).mp hline
      rw [toString_byte_inj ((String.append_right_inj _).mp hmessage)] at hsome
      exact ⟨by rw [hsome, hsomeRight], hrecord⟩

/-- Of the headers that go with a kind, only that of core nodes has fields. -/
theorem specific_cases {record : NodeRecord} {maxChildren : UInt32}
    (h : record.Shape maxChildren) :
    (record.kind = .core ∧ ∃ extended declared, record.specific = .core extended declared) ∨
    (record.kind ≠ .core ∧
      record.specific = if record.kind = .leaf then .leaf else .unknown) := by
  cases h with
  | core extended declared kind specific => exact Or.inl ⟨kind, extended, declared, specific⟩
  | leaf kind specific => exact Or.inr (by simp [kind, specific])
  | unknown tag _ kind specific => exact Or.inr (by simp [kind, specific])

theorem specific_eq_of_lines_eq (hkind : left.record.kind = right.record.kind)
    (hleft : left.record.Shape maxLeft) (hright : right.record.Shape maxRight)
    {restLeft restRight : List String}
    (h : left.record.specific.lines ++ restLeft = right.record.specific.lines ++ restRight) :
    left.record.specific = right.record.specific ∧ restLeft = restRight := by
  rcases specific_cases hleft with ⟨hcore, _, _, hspecific⟩ | ⟨hother, hspecific⟩
  · rcases specific_cases hright with ⟨-, _, _, hspecificRight⟩ | ⟨hotherRight, -⟩
    · rw [hspecific, hspecificRight] at h ⊢
      obtain ⟨hlines, hrest⟩ := List.append_inj h rfl
      exact ⟨SpecificHeader.lines_core_inj hlines, hrest⟩
    · exact absurd (hkind.symm.trans hcore) hotherRight
  · rcases specific_cases hright with ⟨hcoreRight, -⟩ | ⟨-, hspecificRight⟩
    · exact absurd (hkind.trans hcoreRight) hother
    · have hsame : left.record.specific = right.record.specific := by
        rw [hspecific, hspecificRight, hkind]
      rw [hsame] at h ⊢
      exact ⟨rfl, List.append_cancel_left h⟩

/-- Nodes that are dumped alike have been decoded alike, but for what the values do not
show. -/
theorem shownAlike_of_dumps (hleft : (decodeBlock leftBlock maxLeft).result = .ok left)
    (hright : (decodeBlock rightBlock maxRight).result = .ok right) (index : Nat)
    (h : unlines (left.lines index leftBlock) = unlines (right.lines index rightBlock)) :
    left.ShownAlike leftBlock rightBlock right := by
  let leftEntry : Dump.Entry := ⟨index, left, leftBlock, known_of_decodeBlock hleft⟩
  let rightEntry : Dump.Entry := ⟨index, right, rightBlock, known_of_decodeBlock hright⟩
  have hlines : leftEntry.lines = rightEntry.lines :=
    unlines_inj leftEntry.headings_lines.lacks rightEntry.headings_lines.lacks h
  rw [Dump.Entry.lines_eq, Dump.Entry.lines_eq] at hlines
  obtain ⟨hissue, hrecord⟩ := issue_eq_of_lines_eq leftEntry.known rightEntry.known
    (List.tail_eq_of_cons_eq hlines)
  rw [NodeRecord.lines, NodeRecord.lines, List.append_assoc, List.append_assoc, List.append_assoc,
    List.append_assoc] at hrecord
  obtain ⟨hheader, hrest⟩ := List.append_inj hrecord rfl
  have hcommon := CommonHeader.lines_inj hheader
  obtain ⟨hspecific, hentries⟩ := specific_eq_of_lines_eq (congrArg CommonHeader.kind hcommon)
    (shape_of_decodeBlock hleft) (shape_of_decodeBlock hright) hrest
  obtain ⟨hchildren, hintervals⟩ := entries_shownAlike hentries
  exact ⟨hissue, hcommon, hspecific, hchildren, hintervals⟩

end Nodes

/-- A leaf with one string, whose length stands at `offset` behind some bytes that are not
read. -/
def labelledLeaf (offset : UInt8) (unread : List UInt8) : Bytes :=
  ([2, 0, 0, 0, 0, 0, 0, 0, 0, 9, 0, 0, 0, 0, 0, 0, 0, 3, 0, 0, 0, 255, 255, 255, 255,
    1, 0, 0, 0, 0, 0, 0, 0, 1] ++
    [0, 0, 0, 0, 0, 0, 0, 0, 9, 0, 0, 0, 0, 0, 0, 0, 7, 0, 0, 0, 1, offset, 0, 0, 0] ++
    unread ++ [3, 0, 0, 0, 111, 10, 34]).toArray

/-- What is decoded from `labelledLeaf`. -/
def labelledLeafNode (offset : UInt32) : DecodedNode where
  record := {
    kind := .leaf
    start := 0
    stop := 9
    seqNumber := ⟨3⟩
    parent := .root
    intervalCount := 1
    varDataOffset := 0
    done := true
    specific := .leaf
    children := []
    intervals := [⟨0, 9, 7, .str, offset⟩] }
  issue := none

/-- The same string at two places is shown alike. -/
theorem shownAlike_of_dumps_labelledLeaf :
    (decodeBlock (labelledLeaf 59 []) 0).result = .ok (labelledLeafNode 59) ∧
    (decodeBlock (labelledLeaf 61 [34, 34]) 5).result = .ok (labelledLeafNode 61) ∧
    unlines ((labelledLeafNode 59).lines 0 (labelledLeaf 59 [])) =
      unlines ((labelledLeafNode 61).lines 0 (labelledLeaf 61 [34, 34])) ∧
    (labelledLeafNode 59).ShownAlike (labelledLeaf 59 []) (labelledLeaf 61 [34, 34])
      (labelledLeafNode 61) := by
  have hleft : (decodeBlock (labelledLeaf 59 []) 0).result = .ok (labelledLeafNode 59) := rfl
  have hright : (decodeBlock (labelledLeaf 61 [34, 34]) 5).result = .ok (labelledLeafNode 61) :=
    rfl
  have hstring : Interval.interpret ⟨0, 9, 7, .str, 59⟩ (labelledLeaf 59 []) =
      Interval.interpret ⟨0, 9, 7, .str, 61⟩ (labelledLeaf 61 [34, 34]) := by decide
  have hline : Interval.line ⟨0, 9, 7, .str, 59⟩ (labelledLeaf 59 []) =
      Interval.line ⟨0, 9, 7, .str, 61⟩ (labelledLeaf 61 [34, 34]) := by
    rw [Interval.line_eq, Interval.line_eq, hstring]
  have hlines : unlines ((labelledLeafNode 59).lines 0 (labelledLeaf 59 [])) =
      unlines ((labelledLeafNode 61).lines 0 (labelledLeaf 61 [34, 34])) := by
    simp only [DecodedNode.lines, NodeRecord.lines, labelledLeafNode, List.map_cons, List.map_nil,
      hline]
  exact ⟨hleft, hright, hlines, shownAlike_of_dumps hleft hright 0 hlines⟩

end HistoryTree
