import HistoryTree.Proofs.Dump.Lines
import Mathlib.Algebra.Ring.Nat

/-!
# The lines that are not about fields

In a dump these are the title and one line for each node (`Dump.headings_ofEntries`); in the
progress of a conversion they are those that the conversion writes itself
(`headings_progress`). No field can add one, whatever bytes its strings are made of.
-/

namespace HistoryTree

open Text

/-! ## Headings among lines -/

/-- Whether a line is none about a field. -/
def unindented (line : List Char) : Bool :=
  line.head? ≠ some '\t'

/-- The beginning of a line tells whether it begins with a tab. -/
theorem unindented_append {front : String} {char : Char} (h : front.toList.head? = some char)
    (hchar : char ≠ '\t') (back : String) : unindented (front ++ back).toList = true := by
  rw [unindented, String.toList_append, List.head?_append, h]
  simpa using hchar

/-- Of the lines, the headings are those that are not about fields. -/
structure Headings (headings lines : List String) : Prop where
  lacks : ∀ line ∈ lines, Lacks line '\n'
  filter : lines.filter (fun line => unindented line.toList) = headings

namespace Headings

variable {headings lines moreHeadings moreLines : List String}

theorem nil : Headings [] [] where
  lacks := List.forall_mem_nil _
  filter := rfl

theorem append (h : Headings headings lines) (hmore : Headings moreHeadings moreLines) :
    Headings (headings ++ moreHeadings) (lines ++ moreLines) where
  lacks := List.forall_mem_append.mpr ⟨h.lacks, hmore.lacks⟩
  filter := by rw [List.filter_append, h.filter, hmore.filter]

theorem of_fields (h : ∀ line ∈ lines, FieldLine line) : Headings [] lines where
  lacks line hline := (h line hline).lacks
  filter := by
    rw [List.filter_eq_nil_iff]
    intro line hline
    simp [unindented, (h line hline).indented]

theorem cons {line : String} (hlacks : Lacks line '\n')
    (hunindented : unindented line.toList = true) (h : Headings headings lines) :
    Headings (line :: headings) (line :: lines) where
  lacks := List.forall_mem_cons.mpr ⟨hlacks, h.lacks⟩
  filter := by rw [List.filter_cons, if_pos hunindented, h.filter]

theorem flatMap {α : Type} {heading lines : α → List String} {list : List α}
    (h : ∀ entry ∈ list, Headings (heading entry) (lines entry)) :
    Headings (list.flatMap heading) (list.flatMap lines) := by
  induction list with
  | nil => exact nil
  | cons entry rest ih =>
    rw [List.forall_mem_cons] at h
    exact h.1.append (ih h.2)

theorem filter_fullLines (h : Headings headings lines) :
    (fullLines (unlines lines)).filter unindented = headings.map String.toList := by
  rw [fullLines_unlines h.lacks, List.filter_map, ← h.filter]
  rfl

end Headings

/-! ## Dumps -/

namespace Dump

/-- A node that is added to a dump, with the block that it was decoded from. Decoding got
past the block, if need be with its type unknown. -/
structure Entry where
  index : Nat
  node : DecodedNode
  block : Bytes
  known : node.issue = none ∨ ∃ tag, node.issue = some (.unknownNodeType tag)

def ofEntries (header : TreeHeader) (entries : List Entry) : Dump :=
  entries.foldl (fun dump entry => dump.add entry.index entry.node entry.block) (ofHeader header)

namespace Entry

def heading (entry : Entry) : String :=
  s!"node {entry.index}:"

def issueLine (issue : DecodeError) : String :=
  s!"\terror: {issue.message}"

def lines (entry : Entry) : List String :=
  entry.node.lines entry.index entry.block

/-- The lines about the entry but the first. -/
def fieldLines (entry : Entry) : List String :=
  (entry.node.issue.map issueLine).toList ++ entry.node.record.lines entry.block

theorem lines_eq (entry : Entry) : entry.lines = entry.heading :: entry.fieldLines := rfl

theorem headings_heading (entry : Entry) : Headings [entry.heading] [entry.heading] := by
  have hheading : entry.heading = "node " ++ (toString entry.index ++ ":") := String.append_assoc
  refine .cons ?_ ?_ .nil
  · rw [hheading, lacks_append, lacks_append]
    exact ⟨by decide, lacks_nat (by decide) entry.index, by decide⟩
  · rw [hheading]
    exact unindented_append rfl (by decide) _

theorem fieldLine_of_mem {entry : Entry} {line : String} (h : line ∈ entry.fieldLines) :
    FieldLine line := by
  rcases List.mem_append.mp h with hissue | hrecord
  · rcases entry.known with hnone | ⟨tag, hunknown⟩
    · rw [hnone] at hissue
      contradiction
    · rw [hunknown] at hissue
      obtain rfl := List.mem_singleton.mp hissue
      have htag : Lacks ("unknown node type " ++ toString tag) '\n' :=
        lacks_append.mpr ⟨by decide, lacks_byte (by decide) tag⟩
      exact .append (by decide) htag
  · exact NodeRecord.fieldLine_of_mem_lines hrecord

theorem headings_lines (entry : Entry) : Headings [entry.heading] entry.lines :=
  entry.headings_heading.append (.of_fields fun _ => fieldLine_of_mem)

theorem length_lines (entry : Entry) :
    entry.lines.length =
      1 + (if entry.node.issue.isSome then 1 else 0) + entry.node.record.lineCount := by
  rw [lines_eq, fieldLines, List.length_cons, List.length_append, NodeRecord.length_lines,
    Option.length_toList, Option.isSome_map]
  omega

end Entry

variable {entries : List Entry}

theorem lines_ofEntries (header : TreeHeader) (entries : List Entry) :
    (ofEntries header entries).lines.toList =
      "tree header:" :: header.lines ++ entries.flatMap Entry.lines := by
  have hentries (dump : Dump) :
      (entries.foldl (fun dump entry => dump.add entry.index entry.node entry.block)
        dump).lines.toList = dump.lines.toList ++ entries.flatMap Entry.lines := by
    induction entries generalizing dump with
    | nil => simp
    | cons entry rest ih =>
      rw [List.foldl_cons, ih, add, Array.toList_appendList, List.flatMap_cons, List.append_assoc]
      rfl
  rw [ofEntries, hentries, ofHeader]

theorem headings_ofEntries (header : TreeHeader) (entries : List Entry) :
    Headings ("tree header:" :: entries.map Entry.heading)
      (ofEntries header entries).lines.toList := by
  have hheader : Headings [] header.lines :=
    .of_fields fun _ => TreeHeader.fieldLine_of_mem_lines
  have hentries : Headings (entries.flatMap fun entry => [entry.heading])
      (entries.flatMap Entry.lines) :=
    .flatMap fun entry _ => entry.headings_lines
  rw [lines_ofEntries, List.map_eq_flatMap]
  exact .cons (by decide) (by decide) (hheader.append hentries)

/-- The text is made of the lines of a header and of the entries, and nothing in them makes
another one. -/
structure Lists (entries : List Entry) (text : String) : Prop where
  last : text.toList.getLast? = some '\n'
  breaks : text.toList.count '\n' = 8 + (entries.map fun entry =>
    1 + (if entry.node.issue.isSome then 1 else 0) + entry.node.record.lineCount).sum
  title : (fullLines text).head? = some "tree header:".toList
  headings : (fullLines text).filter unindented =
    "tree header:".toList :: entries.map fun entry => s!"node {entry.index}:".toList

theorem lists_ofEntries (header : TreeHeader) (entries : List Entry) :
    Lists entries (ofEntries header entries).text where
  last := by
    refine getLast?_unlines ?_
    rw [lines_ofEntries]
    exact List.cons_ne_nil _ _
  breaks := by
    rw [text, count_unlines (headings_ofEntries header entries).lacks, lines_ofEntries,
      List.length_append, List.length_flatMap]
    congr 2
    exact List.map_congr_left fun entry _ => entry.length_lines
  title := by
    rw [text, fullLines_unlines (headings_ofEntries header entries).lacks, lines_ofEntries]
    rfl
  headings := by
    rw [text, (headings_ofEntries header entries).filter_fullLines, List.map_cons, List.map_map]
    rfl

end Dump

/-! ## Single records -/

/-- The text is made of lines about fields, as many as the record has. -/
structure NodeRecord.Lists (record : NodeRecord) (text : String) : Prop where
  last : text.toList.getLast? = some '\n'
  breaks : text.toList.count '\n' = record.lineCount
  length : (fullLines text).length = record.lineCount
  indented : ∀ line ∈ fullLines text, line.head? = some '\t'

theorem NodeRecord.lists_lines (record : NodeRecord) (block : Bytes) :
    record.Lists (unlines (record.lines block)) := by
  have hlines (line : String) (h : line ∈ record.lines block) : Lacks line '\n' :=
    (fieldLine_of_mem_lines h).lacks
  refine ⟨getLast?_unlines (List.cons_ne_nil _ _), ?_, ?_, ?_⟩
  · rw [count_unlines hlines, length_lines]
  · rw [fullLines_unlines hlines, List.length_map, length_lines]
  · rw [fullLines_unlines hlines, List.forall_mem_map]
    exact fun line h => (fieldLine_of_mem_lines h).indented

/-! ## Progress -/

/-- The line about a type that is unknown. -/
def DecodedNode.complaint (node : DecodedNode) : List String :=
  match node.issue with
  | some (.unknownNodeType tag) => [s!"error: unknown type {tag}"]
  | _ => []

/-- What a conversion writes itself about a visit. -/
def Visit.ownLines (visit : Visit) : List String :=
  s!"> reading node {visit.index}..." ::
    match visit.attempt.result with
    | .ok node => node.complaint
    | .error _ => []

/-- What a conversion writes itself. -/
def ownLines (data : Bytes) (form : DocumentForm) : List String :=
  "> reading tree header..." ::
    match (HistoryFile.parse data).result with
    | .error _ => []
    | .ok file =>
      file.walk.flatMap Visit.ownLines ++
        match (convert data form).output with
        | .error _ => []
        | .ok _ => [if form = .dump then "> writing text output..." else "> writing dot output..."]

theorem headings_complaint (node : DecodedNode) : Headings node.complaint node.complaint := by
  rw [DecodedNode.complaint]
  split
  next _ tag _ =>
    refine .cons ?_ ?_ .nil
    · exact lacks_append.mpr ⟨by decide, lacks_byte (by decide) tag⟩
    · exact unindented_append rfl (by decide) _
  next => exact .nil

theorem headings_nodeProgress (node : DecodedNode) (block : Bytes) :
    Headings node.complaint (Draft.nodeProgress node block) := by
  have hprogress : Draft.nodeProgress node block = node.complaint ++ node.record.lines block := by
    obtain ⟨record, _ | (_ | tag)⟩ := node <;> rfl
  have hrecord : Headings [] (node.record.lines block) :=
    .of_fields fun _ => NodeRecord.fieldLine_of_mem_lines
  have happend := (headings_complaint node).append hrecord
  rwa [List.append_nil, ← hprogress] at happend

theorem headings_readingNode (index : Nat) :
    Headings [s!"> reading node {index}..."] [s!"> reading node {index}..."] := by
  have hline : s!"> reading node {index}..." = "> reading node " ++ (toString index ++ "...") :=
    String.append_assoc
  rw [hline]
  refine .cons ?_ (unindented_append rfl (by decide) _) .nil
  rw [lacks_append, lacks_append]
  exact ⟨by decide, lacks_nat (by decide) index, by decide⟩

namespace HistoryFile

variable {file : HistoryFile} {index : Nat}

theorem ownLines_visit_of_ok {node : DecodedNode} (hword : index < UInt32.size)
    (h : file.decoding index = .ok node) :
    (file.visit index).ownLines = s!"> reading node {index}..." :: node.complaint := by
  have hresult : (file.visit index).attempt.result = .ok node := (result_visit file index).trans h
  have hindex : toString (file.visit index).index = toString index := toString_ofNat hword
  rw [Visit.ownLines, hresult, hindex]

theorem ownLines_visit_of_error {cause : DecodeError} (hword : index < UInt32.size)
    (h : file.decoding index = .error cause) :
    (file.visit index).ownLines = [s!"> reading node {index}..."] := by
  have hresult : (file.visit index).attempt.result = .error cause :=
    (result_visit file index).trans h
  have hindex : toString (file.visit index).index = toString index := toString_ofNat hword
  rw [Visit.ownLines, hresult, hindex]

theorem headings_nodeReport {node : DecodedNode} (hword : index < UInt32.size)
    (h : file.decoding index = .ok node) :
    Headings (file.visit index).ownLines (file.nodeReport index node) := by
  rw [ownLines_visit_of_ok hword h, nodeReport,
    ← Block.nodeProgress_of_decodeBlock (block_of_decoding hword h).2]
  exact (headings_readingNode index).append (headings_nodeProgress node _)

/-- By induction on the nodes from the back, so that the indexes stay as they are. -/
theorem headings_report {nodes : List DecodedNode} (hword : nodes.length < UInt32.size)
    (h : file.Decodes nodes) :
    Headings (((List.range nodes.length).map file.visit).flatMap Visit.ownLines)
      (file.report nodes) := by
  induction nodes using List.reverseRecOn with
  | nil => exact .nil
  | append_singleton nodes node ih =>
    obtain ⟨hnodes, hnode⟩ := decodes_snoc.mp h
    rw [List.length_append, List.length_singleton] at hword ⊢
    have hbefore : nodes.length < UInt32.size := Nat.lt_of_succ_lt hword
    rw [List.range_succ, List.map_append, List.flatMap_append, List.map_singleton,
      List.flatMap_singleton, report_snoc]
    exact (ih hbefore hnodes).append (headings_nodeReport hbefore hnode)

end HistoryFile

theorem headings_progress (data : Bytes) (form : DocumentForm) :
    Headings (ownLines data form) (convert data form).progress := by
  have hstart : Headings ["> reading tree header..."] ["> reading tree header..."] :=
    .cons (by decide) (by decide) .nil
  cases hparsed : (HistoryFile.parse data).result with
  | error cause =>
    simp only [ownLines, hparsed, (convert_of_parse_error hparsed form).1]
    exact hstart
  | ok file =>
    have hheader : Headings [] file.header.lines :=
      .of_fields fun _ => TreeHeader.fieldLine_of_mem_lines
    rcases file.decodings_cases with ⟨nodes, hall⟩ | ⟨nodes, cause, hsome⟩
    · have hnodes := HistoryFile.headings_report (HistoryFile.length_lt_size_of_eq hall)
        (HistoryFile.decodes_of_eq hall)
      obtain ⟨hprogress, houtput⟩ := convert_of_ok hparsed hall form
      simp only [ownLines, hparsed, hprogress, houtput, HistoryFile.walk_of_eq hall]
      refine hstart.append ((hheader.append hnodes).append ?_)
      cases form <;> exact .cons (by decide) (by decide) .nil
    · obtain ⟨hlength, hnodes, hcause⟩ := HistoryFile.decoding_of_eq hsome
      have hword : nodes.length < UInt32.size :=
        Nat.lt_trans hlength file.length_decodings_lt_size
      obtain ⟨hprogress, houtput⟩ := convert_of_node_error hparsed hsome form
      have hlast := headings_readingNode nodes.length
      simp only [ownLines, hparsed, hprogress, houtput, HistoryFile.walk_of_eq_error hsome,
        List.flatMap_append, List.flatMap_singleton,
        HistoryFile.ownLines_visit_of_error hword hcause, List.append_nil]
      exact hstart.append ((hheader.append (HistoryFile.headings_report hword hnodes)).append hlast)

/-- No field makes a line of its own: dumps, records and progress have as many lines as their
nodes call for, and those that do not begin with a tab are the ones that are written about the
nodes themselves. -/
theorem lines_unforged :
    (∀ (header : TreeHeader) (entries : List Dump.Entry),
      Dump.Lists entries (Dump.ofEntries header entries).text) ∧
    (∀ (record : NodeRecord) (block : Bytes), record.Lists (unlines (record.lines block))) ∧
    ∀ (data : Bytes) (form : DocumentForm),
      (fullLines (unlines (convert data form).progress)).filter unindented =
        (ownLines data form).map String.toList :=
  ⟨Dump.lists_ofEntries, NodeRecord.lists_lines,
    fun data form => (headings_progress data form).filter_fullLines⟩

end HistoryTree
