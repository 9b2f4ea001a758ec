import HistoryTree.Proofs.Block.Influence
import HistoryTree.Proofs.File.Extension

/-!
# What is noted

The notices on a file come from the header, from each block that a walk comes to and, if the
whole of it could be converted, from the comparison of its nodes. Each way through a file gives
their lines in that order and no others (`notices_lines`).
-/

namespace HistoryTree

/-! ## Lines -/

theorem toString_readingNode {index : Nat} (hword : index < UInt32.size) :
    toString (Notice.readingNode (UInt32.ofNat index)) = s!"DEBUG reading node {index}" :=
  congrArg (fun shown : String => s!"DEBUG reading node {shown}") (toString_ofNat hword)

theorem toString_unknownNodeType {index : Nat} (hword : index < UInt32.size) (tag : UInt8) :
    toString (Notice.nodeIssue (UInt32.ofNat index) (.unknownNodeType tag)) =
      s!"WARN node {index}: unknown node type {tag}" := by
  change "WARN " ++ ("node " ++ toString (UInt32.ofNat index) ++ ": " ++
    ("unknown node type " ++ toString tag)) = _
  rw [toString_ofNat hword]
  have hmiddle : ": unknown node type " = ": " ++ "unknown node type " := rfl
  have hfront : "WARN node " = "WARN " ++ "node " := rfl
  simp only [hmiddle, hfront, toString, String.append_assoc]

namespace HistoryFile

variable {file : HistoryFile}

/-! ## The lines on a block -/

/-- The file holds block `index` with the whole header of a core node, which declares more
children than there are slots. -/
def ExceedsSlots (file : HistoryFile) (index : Nat) : Prop :=
  4096 + index * file.header.blockSize.toNat + file.header.blockSize.toNat ≤ file.data.size ∧
    Block.typeTag (file.blockBytes index) = 1 ∧ 42 ≤ (file.blockBytes index).size ∧
      file.header.maxChildren < (file.blockBytes index).wordAt 38

instance (file : HistoryFile) (index : Nat) : Decidable (file.ExceedsSlots index) :=
  inferInstanceAs (Decidable (_ ∧ _))

/-- The lines on block `index` as it is read. -/
def readingLines (file : HistoryFile) (index : Nat) : List String :=
  let declared := (file.blockBytes index).wordAt 38
  let capacity := file.header.maxChildren
  s!"DEBUG reading node {index}" ::
    if file.ExceedsSlots index then
      [s!"DEBUG children count {declared} exceeds capacity {capacity}, reading {capacity}"]
    else []

/-- The line on the type of block `index`, if it can be decoded without knowing the type. -/
def issueLines (file : HistoryFile) (index : Nat) : List String :=
  match file.decoding index with
  | .error _ => []
  | .ok _ =>
    let tag := Block.typeTag (file.blockBytes index)
    if tag = 1 ∨ tag = 2 then [] else [s!"WARN node {index}: unknown node type {tag}"]

/-- The blocks that a walk comes to: the declared ones, up to the first that fails. -/
def walked (file : HistoryFile) : List Nat :=
  takeThrough (fun index => isFailure (file.decoding index))
    (List.range file.header.nodeCount.toNat)

theorem walked_eq_range (file : HistoryFile) :
    file.walked = List.range file.decodings.length := by
  have hprefix : file.walked <+: List.range file.header.nodeCount.toNat := takeThrough_prefix _ _
  have hlength : file.walked.length = file.decodings.length := by
    rw [decodings, ← map_takeThrough (fun index => rfl), List.length_map, walked]
  rw [List.prefix_iff_eq_take.mp hprefix, List.take_range, hlength,
    Nat.min_eq_left file.length_decodings_le]

theorem walk_eq_map_walked (file : HistoryFile) : file.walk = file.walked.map file.visit := by
  rw [walk_eq_map_range, walked_eq_range]

theorem lt_size_of_mem_walked {index : Nat} (h : index ∈ file.walked) : index < UInt32.size := by
  rw [walked_eq_range] at h
  exact Nat.lt_trans (List.mem_range.mp h) file.length_decodings_lt_size

/-- Reading a block is noted, and whether it declares too many children. -/
theorem notices_visit {index : Nat} (hword : index < UInt32.size) :
    (file.visit index).attempt.notices.map toString = file.readingLines index := by
  have hblock := file.block_eq (UInt32.ofNat index)
  rw [UInt32.toNat_ofNat_of_lt' hword, ← blockBytes] at hblock
  have hdecode : (file.decode (UInt32.ofNat index)).notices =
      if file.ExceedsSlots index then
        [.excessChildren ((file.blockBytes index).wordAt 38) file.header.maxChildren]
      else [] := by
    rw [decode, hblock]
    split
    next held =>
      rw [Attempt.lift_ok_bind, notices_decodeBlock]
      simp only [ExceedsSlots, held, true_and]
    next missing =>
      rw [Attempt.notices_lift_error_bind, if_neg fun h => missing h.1]
  have hnotices : (file.visit index).attempt.notices =
      .readingNode (UInt32.ofNat index) :: (file.decode (UInt32.ofNat index)).notices := by
    rw [visit, Attempt.notices_bind]
    rfl
  rw [hnotices, hdecode, List.map_cons, toString_readingNode hword, readingLines]
  split <;> rfl

/-! ## Full decodings -/

/-- What a full decoding makes of a visit. -/
def recordOf (visit : Visit) : Attempt NodeRecord := do
  let node ← visit.attempt
  match node.issue with
  | some issue =>
    Attempt.note (.nodeIssue visit.index issue)
    return node.record
  | none => return node.record

theorem result_recordOf (visit : Visit) :
    isFailure (recordOf visit).result = visit.fails := by
  rw [recordOf, Attempt.result_bind, Visit.fails]
  cases visit.attempt.result with
  | error cause => rfl
  | ok node =>
    rw [ok_bind]
    cases node.issue <;> rfl

theorem notices_recordOf {index : Nat} (hword : index < UInt32.size) :
    (recordOf (file.visit index)).notices.map toString =
      file.readingLines index ++ file.issueLines index := by
  rw [recordOf, Attempt.notices_bind, List.map_append, notices_visit hword, result_visit,
    ← decoding, issueLines]
  congr 1
  cases hdecoding : file.decoding index with
  | error cause => rfl
  | ok node =>
    obtain ⟨-, rfl⟩ := size_blockBytes_of_decoding hword hdecoding
    have hissue := Block.issue_node (file.blockBytes index) file.header.maxChildren
    by_cases hknown : Block.typeTag (file.blockBytes index) = 1 ∨
        Block.typeTag (file.blockBytes index) = 2
    · rw [if_pos hknown] at hissue
      simp only [hissue, if_pos hknown]
      rfl
    · rw [if_neg hknown] at hissue
      simp only [hissue, if_neg hknown]
      exact congrArg (fun line => [line]) (toString_unknownNodeType hword _)

/-- A full decoding logs the lines on each block that it comes to, and on its type. -/
theorem notices_decodeAll (file : HistoryFile) :
    file.decodeAll.notices.map toString =
      file.walked.flatMap fun index => file.readingLines index ++ file.issueLines index := by
  have hwalk : takeThrough (fun visit => isFailure (recordOf visit).result) file.walk =
      file.walk := by
    simp only [result_recordOf]
    rw [walk_eq, takeThrough_takeThrough]
  have hrun : file.decodeAll = file.walk.mapM recordOf := rfl
  rw [hrun, Attempt.notices_mapM, hwalk, walk_eq_map_walked, List.flatMap_map, List.map_flatMap]
  apply List.flatMap_congr
  intro index hindex
  exact notices_recordOf (lt_size_of_mem_walked hindex)

end HistoryFile

/-! ## Conversions -/

namespace Draft

theorem notices_ofFile (file : HistoryFile) (notices : List Notice) (form : DocumentForm) :
    (ofFile file notices form).notices.toList =
      notices ++ if file.header.magic = 0x05FFA900 then []
        else [.unexpectedMagic file.header.magic] := by
  have hexpected : expectedMagic = 0x05FFA900 := rfl
  simp only [ofFile, TreeHeader.hasExpectedMagic, decide_eq_true_eq, hexpected]
  split
  · exact (List.append_nil _).symm
  · exact Array.toList_push ..

end Draft

/-! ## The lines on a file -/

namespace HistoryFile

/-- The line on what follows the declared blocks. -/
def trailingLines (file : HistoryFile) : List String :=
  let expected := 4096 + file.header.nodeCount.toNat * file.header.blockSize.toNat
  let count := file.data.size - expected
  if expected < file.data.size then
    [s!"DEBUG ignoring {count} trailing bytes after block {file.header.nodeCount}"]
  else []

/-- The line on a magic number that is not the expected one. -/
def magicLines (file : HistoryFile) : List String :=
  if file.header.magic = 0x05FFA900 then []
  else [s!"WARN unexpected magic number {Text.hexWord file.header.magic}"]

/-- The lines on how the nodes of the file fit together, if all of them can be decoded. -/
def reportLines (file : HistoryFile) : List String :=
  match file.decodeAll.result with
  | .error _ => []
  | .ok records =>
    ((TreeIndex.ofRecords records).findings file.header.rootSeq).map fun finding =>
      s!"WARN {finding.message}"

/-- The lines on the header and on each block that is read. -/
def linesUpToReport (file : HistoryFile) : List String :=
  file.trailingLines ++ file.magicLines ++ file.walked.flatMap file.readingLines

variable {data : Bytes} {file : HistoryFile} {nodes : List DecodedNode} {cause : DecodeError}

theorem notices_parse_of_error (h : (parse data).result = .error cause) :
    (parse data).notices = [] := by
  cases hread : TreeHeader.read data with
  | error cause => rw [parse, hread, Attempt.notices_lift_error_bind]
  | ok header =>
    have hparsed : (parse data).result = .ok ⟨header, data⟩ := by
      rw [parse, hread, Attempt.lift_ok_bind]
      cases header.expectedLength? <;> rfl
    rw [hparsed] at h
    contradiction

theorem notices_parse_of_ok (h : (parse data).result = .ok file) :
    (parse data).notices.map toString = file.trailingLines := by
  have hnotes := notesTrailing_of_parse h
  obtain ⟨-, rfl⟩ := result_parse_eq_ok_iff.mp h
  rw [NotesTrailing] at hnotes
  rw [hnotes, trailingLines]
  split <;> rfl

theorem notices_ofFile (h : (parse data).result = .ok file) (form : DocumentForm) :
    (Draft.ofFile file (parse data).notices form).notices.toList.map toString =
      file.trailingLines ++ file.magicLines := by
  rw [Draft.notices_ofFile, List.map_append, notices_parse_of_ok h, magicLines]
  split <;> rfl

theorem notices_visits {count : Nat} (h : count ≤ UInt32.size) :
    ((List.range count).flatMap fun index => (file.visit index).attempt.notices).map toString =
      (List.range count).flatMap file.readingLines := by
  rw [List.map_flatMap]
  apply List.flatMap_congr
  intro index hindex
  exact notices_visit (Nat.lt_of_lt_of_le (List.mem_range.mp hindex) h)

/-- A conversion that comes to an end logs what does not fit. -/
theorem notices_convert_of_ok (hparsed : (parse data).result = .ok file)
    (h : file.decodings = nodes.map .ok) (form : DocumentForm) :
    (convert data form).notices.map toString = file.linesUpToReport ++ file.reportLines := by
  have hword := length_lt_size_of_eq h
  have hvisits := Draft.readNodes_through form (.ofFile file (parse data).notices form) hword
    (decodes_of_eq h) []
  rw [List.append_nil, ← walk_of_eq h, ← convert_of_parse_ok hparsed] at hvisits
  have hreport : file.reportLines =
      ((TreeIndex.ofRecords (nodes.map (·.record))).findings file.header.rootSeq).map
        fun finding => s!"WARN {finding.message}" := by
    rw [reportLines, result_decodeAll_of_ok h]
  have hrecords :
      ((Draft.ofFile file (parse data).notices form).through file nodes).records.toList =
        nodes.map (·.record) :=
    Draft.records_through _ nodes
  rw [hvisits, Draft.readNodes, Draft.finish, hreport, linesUpToReport, walked_eq_range, h,
    List.length_map]
  simp only [Draft.notices_through, hrecords, List.map_append, notices_ofFile hparsed,
    notices_visits (Nat.le_of_lt hword), List.map_map]
  rfl

/-- A conversion that fails logs the block at which it does, and nothing after it. -/
theorem notices_convert_of_error (hparsed : (parse data).result = .ok file)
    (h : file.decodings = nodes.map .ok ++ [.error cause]) (form : DocumentForm) :
    (convert data form).notices.map toString = file.linesUpToReport ++ file.reportLines := by
  obtain ⟨hlength, hnodes, hcause⟩ := decoding_of_eq h
  have hword := Nat.lt_trans hlength file.length_decodings_lt_size
  have hreport : file.reportLines = [] := by
    rw [reportLines, result_decodeAll_of_error h]
  rw [convert_of_parse_ok hparsed, walk_of_eq_error h, Draft.readNodes_through _ _ hword hnodes,
    Draft.readNodes_cons_of_error _ hcause, hreport, List.append_nil, linesUpToReport,
    walked_eq_range, h, List.length_append, List.length_map, List.length_singleton,
    List.range_succ, List.flatMap_append, List.flatMap_singleton, ← notices_visit hword,
    ← notices_visits (Nat.le_of_lt hword), ← notices_ofFile hparsed form, ← List.map_append,
    ← List.map_append, ← List.append_assoc, ← Draft.notices_through]
  exact congrArg (List.map toString) Array.toList_appendList ..

end HistoryFile

/-- What is logged about the bytes of a file. -/
inductive Logs (data : Bytes) : Prop where
  /-- Nothing is logged about a file without a header. -/
  | noHeader (cause : DecodeError) (parsed : (HistoryFile.parse data).result = .error cause)
      (parse : (HistoryFile.parse data).notices = [])
      (convert : ∀ form, (convert data form).notices = [])
  | lines (file : HistoryFile) (parsed : (HistoryFile.parse data).result = .ok file)
      (expected : file.header.expectedLength? =
        some (4096 + file.header.nodeCount.toNat * file.header.blockSize.toNat))
      (parse : (HistoryFile.parse data).notices.map toString = file.trailingLines)
      (convert : ∀ form, (convert data form).notices.map toString =
        file.trailingLines ++ file.magicLines ++ file.walked.flatMap file.readingLines ++
          file.reportLines)
      (succeeds : ∀ form, (∃ text, (HistoryTree.convert data form).output = .ok text) ↔
        ∃ records, file.decodeAll.result = .ok records)

theorem exists_output_iff {data : Bytes} {file : HistoryFile}
    (h : (HistoryFile.parse data).result = .ok file) (form : DocumentForm) :
    (∃ text, (convert data form).output = .ok text) ↔
      ∃ records, file.decodeAll.result = .ok records := by
  rcases file.decodings_cases with ⟨nodes, hall⟩ | ⟨nodes, cause, hsome⟩
  · rw [(convert_of_ok h hall form).2, HistoryFile.result_decodeAll_of_ok hall]
    exact ⟨fun _ => ⟨_, rfl⟩, fun _ => ⟨_, rfl⟩⟩
  · rw [(convert_of_node_error h hsome form).2, HistoryFile.result_decodeAll_of_error hsome]
    exact ⟨nofun, nofun⟩

theorem convert_logs (data : Bytes) : Logs data := by
  cases hparsed : (HistoryFile.parse data).result with
  | error cause =>
    have hnothing := HistoryFile.notices_parse_of_error hparsed
    refine .noHeader cause hparsed hnothing fun form => ?_
    rw [convert]
    simp only [hparsed, hnothing]
  | ok file =>
    refine .lines file hparsed (TreeHeader.expectedLength?_eq _)
      (HistoryFile.notices_parse_of_ok hparsed) (fun form => ?_) (exists_output_iff hparsed)
    rcases file.decodings_cases with ⟨nodes, hall⟩ | ⟨nodes, cause, hsome⟩
    · exact HistoryFile.notices_convert_of_ok hparsed hall form
    · exact HistoryFile.notices_convert_of_error hparsed hsome form

/-- Nothing is logged about a file but the lines on its header, on each block that is come to
and, from a conversion that succeeds, on how the nodes fit together. -/
theorem notices_lines :
    (∀ file : HistoryFile, file.decodeAll.notices.map toString =
      file.walked.flatMap fun index => file.readingLines index ++ file.issueLines index) ∧
      ∀ data, Logs data :=
  ⟨HistoryFile.notices_decodeAll, convert_logs⟩

end HistoryTree
