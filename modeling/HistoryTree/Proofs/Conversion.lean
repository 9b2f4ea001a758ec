import HistoryTree.Conversion
import HistoryTree.Proofs.Block.Declared
import HistoryTree.Proofs.Dump

/-!
# What a conversion gives

A conversion looks up blocks, reports progress, builds a document and collects records
all in one loop. The draft of that loop is taken apart here: after any number of blocks
that could be decoded (`Draft.through`), each part of it is what going through the
nodes for that part alone gives. So the documents are those of the separate ways to a
graph and to a dump.
-/

namespace HistoryTree

/-- A word shows as its number. -/
theorem toString_ofNat {index : Nat} (hword : index < UInt32.size) :
    toString (UInt32.ofNat index) = toString index :=
  congrArg toString (UInt32.toNat_ofNat_of_lt' hword)

/-! ## The report on a node -/

namespace Block

/-- The line about a type that is unknown. -/
def complaint (block : Bytes) : List String :=
  if typeTag block = 1 ∨ typeTag block = 2 then []
  else [s!"error: unknown type {typeTag block}"]

theorem nodeProgress_of_decodeBlock {block : Bytes} {maxChildren : UInt32} {node : DecodedNode}
    (h : (decodeBlock block maxChildren).result = .ok node) :
    Draft.nodeProgress node block = complaint block ++ node.record.lines block := by
  obtain ⟨-, rfl⟩ := result_decodeBlock_eq_ok_iff.mp h
  rw [complaint]
  cases kinds block with
  | core tag =>
    rw [if_pos (Or.inl tag), node_core tag]
    rfl
  | leaf tag =>
    rw [if_pos (Or.inr tag), node_leaf tag]
    rfl
  | unknown notCore notLeaf =>
    rw [if_neg (not_or.mpr ⟨notCore, notLeaf⟩), node_unknown notCore notLeaf]
    rfl

end Block

namespace HistoryFile

variable {file : HistoryFile}

/-- The progress on one node. -/
def nodeReport (file : HistoryFile) (index : Nat) (node : DecodedNode) : List String :=
  s!"> reading node {index}..." ::
    (Block.complaint (file.blockBytes index) ++ node.record.lines (file.blockBytes index))

/-- The progress on the nodes of the first blocks. -/
def report (file : HistoryFile) (nodes : List DecodedNode) : List String :=
  nodes.zipIdx.flatMap fun entry => file.nodeReport entry.2 entry.1

theorem report_snoc (file : HistoryFile) (nodes : List DecodedNode) (node : DecodedNode) :
    file.report (nodes ++ [node]) = file.report nodes ++ file.nodeReport nodes.length node := by
  rw [report, zipIdx_snoc, List.flatMap_append, List.flatMap_singleton, report]

/-! ## Visits of blocks that can be decoded -/

theorem readNode_of_ok {index : Nat} {node : DecodedNode} (hword : index < UInt32.size)
    (h : file.decoding index = .ok node) :
    Draft.readNode file (file.visit index) = .ok (node, file.blockBytes index) := by
  have hblock : file.block (file.visit index).index = .ok (file.blockBytes index) :=
    (block_of_decoding hword h).1
  rw [Draft.readNode, result_visit, ← decoding, h, hblock]
  rfl

theorem readNode_of_error {index : Nat} {cause : DecodeError}
    (h : file.decoding index = .error cause) :
    Draft.readNode file (file.visit index) = .error cause := by
  rw [Draft.readNode, result_visit, ← decoding, h]
  rfl

end HistoryFile

/-! ## Drafts -/

namespace Draft

variable {file : HistoryFile} {form : DocumentForm}

/-- One round of a conversion, for a block that can be decoded. -/
def round (file : HistoryFile) (draft : Draft) (entry : DecodedNode × Nat) : Draft :=
  (draft.announce (file.visit entry.2)).add (UInt32.ofNat entry.2) entry.1
    (file.blockBytes entry.2)

/-- The draft after the nodes of the first blocks. -/
def through (file : HistoryFile) (draft : Draft) (nodes : List DecodedNode) : Draft :=
  nodes.zipIdx.foldl (round file) draft

theorem through_snoc (draft : Draft) (nodes : List DecodedNode) (node : DecodedNode) :
    draft.through file (nodes ++ [node]) =
      round file (draft.through file nodes) (node, nodes.length) := by
  rw [through, zipIdx_snoc, List.foldl_concat, through]

theorem readNodes_cons_of_ok (draft : Draft) {index : Nat} {node : DecodedNode}
    (hword : index < UInt32.size) (h : file.decoding index = .ok node) (rest : List Visit) :
    readNodes file form draft (file.visit index :: rest) =
      readNodes file form (round file draft (node, index)) rest := by
  rw [readNodes, HistoryFile.readNode_of_ok hword h]
  rfl

theorem readNodes_cons_of_error (draft : Draft) {index : Nat} {cause : DecodeError}
    (h : file.decoding index = .error cause) (rest : List Visit) :
    readNodes file form draft (file.visit index :: rest) =
      (draft.announce (file.visit index)).fail (.node (UInt32.ofNat index) cause) := by
  rw [readNodes, HistoryFile.readNode_of_error h]
  rfl

/-- By induction on the nodes from the back, so that the indexes stay as they are. -/
theorem readNodes_through (form : DocumentForm) (draft : Draft) {nodes : List DecodedNode}
    (hword : nodes.length < UInt32.size) (h : file.Decodes nodes) (rest : List Visit) :
    readNodes file form draft ((List.range nodes.length).map file.visit ++ rest) =
      readNodes file form (draft.through file nodes) rest := by
  induction nodes using List.reverseRecOn generalizing rest with
  | nil => rfl
  | append_singleton nodes node ih =>
    obtain ⟨hnodes, hnode⟩ := HistoryFile.decodes_snoc.mp h
    rw [List.length_append, List.length_singleton] at hword ⊢
    have hbefore : nodes.length < UInt32.size := Nat.lt_of_succ_lt hword
    rw [List.range_succ, List.map_append, List.append_assoc, ih hbefore hnodes, through_snoc]
    exact readNodes_cons_of_ok _ hbefore hnode rest

/-! ## The parts of a draft -/

theorem readingNode_visit (file : HistoryFile) {index : Nat} (hword : index < UInt32.size) :
    readingNode (file.visit index).index = s!"> reading node {index}..." :=
  congrArg (fun shown : String => s!"> reading node {shown}...") (toString_ofNat hword)

theorem progress_round (draft : Draft) {index : Nat} {node : DecodedNode}
    (hword : index < UInt32.size) (h : file.decoding index = .ok node) :
    (round file draft (node, index)).progress.toList =
      draft.progress.toList ++ file.nodeReport index node := by
  have hblock := (HistoryFile.block_of_decoding hword h).2
  have hline := readingNode_visit file hword
  simp only [round, add, announce, hline, Block.nodeProgress_of_decodeBlock hblock,
    Array.toList_appendList, Array.toList_push, List.append_assoc, List.singleton_append]
  rfl

theorem progress_fail_announce (draft : Draft) {index : Nat} (hword : index < UInt32.size)
    (error : ConversionError) :
    ((draft.announce (file.visit index)).fail error).progress =
      draft.progress.toList ++ [s!"> reading node {index}..."] := by
  have hline := readingNode_visit file hword
  rw [fail, announce, hline, Array.toList_push]

theorem progress_through (draft : Draft) {nodes : List DecodedNode}
    (hword : nodes.length < UInt32.size) (h : file.Decodes nodes) :
    (draft.through file nodes).progress.toList = draft.progress.toList ++ file.report nodes := by
  induction nodes using List.reverseRecOn with
  | nil => exact (List.append_nil _).symm
  | append_singleton nodes node ih =>
    obtain ⟨hnodes, hnode⟩ := HistoryFile.decodes_snoc.mp h
    rw [List.length_append, List.length_singleton] at hword
    have hbefore : nodes.length < UInt32.size := Nat.lt_of_succ_lt hword
    rw [through_snoc, progress_round _ hbefore hnode, ih hbefore hnodes, HistoryFile.report_snoc,
      List.append_assoc]

theorem notices_through (draft : Draft) (nodes : List DecodedNode) :
    (draft.through file nodes).notices.toList =
      draft.notices.toList ++
        (List.range nodes.length).flatMap fun index => (file.visit index).attempt.notices := by
  induction nodes using List.reverseRecOn with
  | nil => exact (List.append_nil _).symm
  | append_singleton nodes node ih =>
    rw [through_snoc, List.length_append, List.length_singleton, List.range_succ,
      List.flatMap_append, List.flatMap_singleton, ← List.append_assoc, ← ih]
    exact Array.toList_appendList ..

theorem records_through (draft : Draft) (nodes : List DecodedNode) :
    (draft.through file nodes).records.toList =
      draft.records.toList ++ nodes.map (·.record) := by
  induction nodes using List.reverseRecOn with
  | nil => exact (List.append_nil _).symm
  | append_singleton nodes node ih =>
    rw [through_snoc, List.map_append, List.map_singleton, ← List.append_assoc, ← ih]
    exact Array.toList_push ..

theorem document_through (draft : Draft) (nodes : List DecodedNode) :
    (draft.through file nodes).document =
      nodes.zipIdx.foldl (fun document entry =>
        document.add (UInt32.ofNat entry.2) entry.1 (file.blockBytes entry.2)) draft.document :=
  (List.foldl_hom document fun _ _ => rfl).symm

/-- The graph is that of the records. -/
theorem text_document_through_graph {draft : Draft} (nodes : List DecodedNode)
    (h : draft.document = .graph .empty) :
    (draft.through file nodes).document.text = Graph.render (nodes.map (·.record)) := by
  have hgraph : (draft.through file nodes).document =
      .graph (nodes.zipIdx.foldl (fun graph entry => graph.add entry.1.record) .empty) := by
    rw [document_through, h]
    exact List.foldl_hom Document.graph fun _ _ => rfl
  have hrecords : nodes.zipIdx.map (fun entry => entry.1.record) = nodes.map (·.record) :=
    calc
      nodes.zipIdx.map (fun entry => entry.1.record)
        = (nodes.zipIdx.map Prod.fst).map (·.record) := List.map_map.symm
      _ = nodes.map (·.record) := by rw [List.zipIdx_map_fst]
  rw [hgraph, Graph.render, ← hrecords, List.foldl_map]
  rfl

/-- The dump is the one that goes through the same nodes. -/
theorem text_document_through_dump {draft : Draft} {dump : Dump} (nodes : List DecodedNode)
    (h : draft.document = .dump dump) :
    (draft.through file nodes).document.text = (dump.through file nodes).text := by
  have hdump : (draft.through file nodes).document = .dump (dump.through file nodes) := by
    rw [document_through, h]
    exact List.foldl_hom Document.dump fun _ _ => rfl
  rw [hdump]
  rfl

end Draft

/-! ## Whole conversions -/

section Whole

variable {data : Bytes} {file : HistoryFile} {nodes : List DecodedNode} {cause : DecodeError}

theorem convert_of_parse_error (h : (HistoryFile.parse data).result = .error cause)
    (form : DocumentForm) :
    (convert data form).progress = ["> reading tree header..."] ∧
      (convert data form).output = .error (.treeHeader cause) := by
  rw [convert]
  simp only [h, and_true]
  rfl

theorem convert_of_parse_ok (h : (HistoryFile.parse data).result = .ok file)
    (form : DocumentForm) :
    convert data form =
      Draft.readNodes file form (.ofFile file (HistoryFile.parse data).notices form) file.walk := by
  rw [convert]
  simp only [h]

theorem convert_of_node_error (hparsed : (HistoryFile.parse data).result = .ok file)
    (h : file.decodings = nodes.map .ok ++ [.error cause]) (form : DocumentForm) :
    (convert data form).progress = "> reading tree header..." ::
        (file.header.lines ++ file.report nodes ++ [s!"> reading node {nodes.length}..."]) ∧
      (convert data form).output = .error (.node (UInt32.ofNat nodes.length) cause) := by
  obtain ⟨hlength, hnodes, hcause⟩ := HistoryFile.decoding_of_eq h
  have hword : nodes.length < UInt32.size := Nat.lt_trans hlength file.length_decodings_lt_size
  rw [convert_of_parse_ok hparsed, HistoryFile.walk_of_eq_error h,
    Draft.readNodes_through _ _ hword hnodes, Draft.readNodes_cons_of_error _ hcause]
  constructor
  · rw [Draft.progress_fail_announce _ hword, Draft.progress_through _ hword hnodes]
    rfl
  · rfl

theorem convert_of_ok (hparsed : (HistoryFile.parse data).result = .ok file)
    (h : file.decodings = nodes.map .ok) (form : DocumentForm) :
    (convert data form).progress = "> reading tree header..." ::
        (file.header.lines ++ file.report nodes ++ [Draft.writingOutput form]) ∧
      (convert data form).output = .ok
        ((Draft.ofFile file (HistoryFile.parse data).notices form).through file
          nodes).document.text := by
  have hword := HistoryFile.length_lt_size_of_eq h
  have hnodes := HistoryFile.decodes_of_eq h
  have hvisits := Draft.readNodes_through form
    (.ofFile file (HistoryFile.parse data).notices form) hword hnodes []
  rw [List.append_nil, ← HistoryFile.walk_of_eq h, ← convert_of_parse_ok hparsed] at hvisits
  rw [hvisits]
  constructor
  · rw [Draft.readNodes, Draft.finish]
    simp only [Draft.progress_through _ hword hnodes]
    rfl
  · rfl

theorem output_graph_of_ok (hparsed : (HistoryFile.parse data).result = .ok file)
    (h : file.decodings = nodes.map .ok) :
    (convert data .graph).output = .ok (Graph.render (nodes.map (·.record))) := by
  rw [(convert_of_ok hparsed h .graph).2, Draft.text_document_through_graph nodes rfl]

theorem output_dump_of_ok (hparsed : (HistoryFile.parse data).result = .ok file)
    (h : file.decodings = nodes.map .ok) :
    (convert data .dump).output = .ok ((Dump.ofHeader file.header).through file nodes).text := by
  rw [(convert_of_ok hparsed h .dump).2, Draft.text_document_through_dump nodes rfl]

end Whole

theorem ConversionError.chain_node (index : UInt32) (cause : DecodeError) :
    (ConversionError.node index cause).chain =
      [s!"Failed to read node {index}", cause.message] := rfl

/-- How the conversions of some bytes go. -/
inductive Conversions (data : Bytes) : Prop where
  /-- The header cannot be read. -/
  | noHeader (cause : DecodeError) (parsed : (HistoryFile.parse data).result = .error cause)
      (output : ∀ form, ∃ error, (convert data form).output = .error error ∧
        error.chain = ["Failed to read tree header", cause.message])
      (progress : ∀ form, (convert data form).progress = ["> reading tree header..."])
  /-- The block after those of the nodes is the first that cannot be decoded. -/
  | noNode (file : HistoryFile) (nodes : List DecodedNode) (cause : DecodeError)
      (parsed : (HistoryFile.parse data).result = .ok file)
      (more : nodes.length < file.header.nodeCount.toNat)
      (decodes : file.Decodes nodes)
      (fails : file.decoding nodes.length = .error cause)
      (blocks : ∀ index < nodes.length,
        file.block (UInt32.ofNat index) = .ok (file.blockBytes index))
      (output : ∀ form, ∃ error, (convert data form).output = .error error ∧
        error.chain = [s!"Failed to read node {nodes.length}", cause.message])
      (progress : ∀ form, (convert data form).progress = "> reading tree header..." ::
        (file.header.lines ++ file.report nodes ++ [s!"> reading node {nodes.length}..."]))
  /-- All blocks can be decoded. -/
  | complete (file : HistoryFile) (nodes : List DecodedNode) (records : List NodeRecord)
      (text : String)
      (parsed : (HistoryFile.parse data).result = .ok file)
      (all : nodes.length = file.header.nodeCount.toNat)
      (decodes : file.Decodes nodes)
      (blocks : ∀ index < nodes.length,
        file.block (UInt32.ofNat index) = .ok (file.blockBytes index))
      (decoded : file.decodeAll.result = .ok records)
      (dumped : file.dump.result = .ok text)
      (graph : (convert data .graph).output = .ok (Graph.render records))
      (dump : (convert data .dump).output = .ok text)
      (progress : ∀ form, (convert data form).progress = "> reading tree header..." ::
        (file.header.lines ++ file.report nodes ++
          [if form = .dump then "> writing text output..." else "> writing dot output..."]))

theorem conversions_of_error {data : Bytes} {file : HistoryFile} {nodes : List DecodedNode}
    {cause : DecodeError} (hparsed : (HistoryFile.parse data).result = .ok file)
    (h : file.decodings = nodes.map .ok ++ [.error cause]) : Conversions data := by
  obtain ⟨hlength, hnodes, hcause⟩ := HistoryFile.decoding_of_eq h
  have hmore := Nat.lt_of_lt_of_le hlength file.length_decodings_le
  have hword := Nat.lt_trans hlength file.length_decodings_lt_size
  have hconvert := convert_of_node_error hparsed h
  have hchain : (ConversionError.node (UInt32.ofNat nodes.length) cause).chain =
      [s!"Failed to read node {nodes.length}", cause.message] := by
    rw [ConversionError.chain_node, toString_ofNat hword]
  exact .noNode file nodes cause hparsed hmore hnodes hcause (hnodes.block hword)
    (fun form => ⟨_, (hconvert form).2, hchain⟩) fun form => (hconvert form).1

theorem conversions_of_ok {data : Bytes} {file : HistoryFile} {nodes : List DecodedNode}
    (hparsed : (HistoryFile.parse data).result = .ok file)
    (h : file.decodings = nodes.map .ok) : Conversions data := by
  have hnodes := HistoryFile.decodes_of_eq h
  have hword := HistoryFile.length_lt_size_of_eq h
  have hconvert := convert_of_ok hparsed h
  have hgraph := output_graph_of_ok hparsed h
  have hdump := output_dump_of_ok hparsed h
  have hall := HistoryFile.length_of_decodings_eq h
  have hdecoded := HistoryFile.result_decodeAll_of_ok h
  have hdumped := HistoryFile.result_dump_of_ok h
  refine .complete file nodes _ _ hparsed hall hnodes (hnodes.block hword) hdecoded hdumped
    hgraph hdump ?_
  intro form
  rw [(hconvert form).1]
  cases form <;> rfl

theorem output_eq_error_iff (data : Bytes) (form : DocumentForm) :
    (∃ error, (convert data form).output = .error error) ↔
      (∃ cause, (HistoryFile.parse data).result = .error cause) ∨
        ∃ file, (HistoryFile.parse data).result = .ok file ∧
          ∃ cause, .error cause ∈ file.outcomes := by
  cases hparsed : (HistoryFile.parse data).result with
  | error cause =>
    rw [(convert_of_parse_error hparsed form).2]
    exact ⟨fun _ => Or.inl ⟨cause, rfl⟩, fun _ => ⟨_, rfl⟩⟩
  | ok file =>
    rcases file.decodings_cases with ⟨nodes, hall⟩ | ⟨nodes, cause, hsome⟩
    · rw [(convert_of_ok hparsed hall form).2]
      simp [HistoryFile.outcomes_eq_decodings, hall]
    · rw [(convert_of_node_error hparsed hsome form).2]
      simp [HistoryFile.outcomes_eq_decodings, hsome]

/-- A conversion fails, to either form, if the header or the walk does; all that is
reported and given is that of the walk, and the documents are those made apart. -/
theorem convert_conversions (data : Bytes) :
    (∀ form, (∃ error, (convert data form).output = .error error) ↔
      (∃ cause, (HistoryFile.parse data).result = .error cause) ∨
        ∃ file, (HistoryFile.parse data).result = .ok file ∧
          ∃ cause, .error cause ∈ file.outcomes) ∧
      Conversions data := by
  refine ⟨output_eq_error_iff data, ?_⟩
  cases hparsed : (HistoryFile.parse data).result with
  | error cause =>
    have hconvert := convert_of_parse_error hparsed
    exact .noHeader cause hparsed (fun form => ⟨_, (hconvert form).2, rfl⟩)
      fun form => (hconvert form).1
  | ok file =>
    rcases file.decodings_cases with ⟨nodes, hall⟩ | ⟨nodes, cause, hsome⟩
    · exact conversions_of_ok hparsed hall
    · exact conversions_of_error hparsed hsome

end HistoryTree
