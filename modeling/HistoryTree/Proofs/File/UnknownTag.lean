import HistoryTree.Proofs.Conversion
import HistoryTree.Proofs.File.RoundTrip
import HistoryTree.Proofs.Tree.Graph

/-!
# Files with an unknown tag

A type tag without a meaning costs a file no more than what its own block says past the
common header (`HistoryFile.decodings_retag`). Graphs and indexes are made from the links
of the records, which stand in the common header, so they do not change (`parse_overwrite_tag`).
-/

namespace HistoryTree

open Layout

/-- An index is told from the links of the records. -/
theorem TreeIndex.ofRecords_congr {first second : List NodeRecord}
    (h : first.map NodeRecord.link = second.map NodeRecord.link) :
    ofRecords first = ofRecords second := by
  have hlinks (records : List NodeRecord) :
      ofRecords records = (records.map NodeRecord.link).zipIdx.foldl (fun index entry =>
        (index.insertNumber entry.2 entry.1.1).insertLink entry.1.1 entry.1.2) empty := by
    rw [List.zipIdx_map, List.foldl_map]
    rfl
  rw [hlinks, hlinks, h]

/-! ## Degraded records -/

/-- What a block of unknown type keeps of a record. -/
def NodeRecord.degraded (record : NodeRecord) (tag : UInt8) : NodeRecord :=
  { record with kind := .unknown tag, specific := .unknown, children := [], intervals := [] }

/-- The degraded record with the issue about its type. -/
def DecodedNode.degraded (node : DecodedNode) (tag : UInt8) : DecodedNode where
  record := node.record.degraded tag
  issue := some (.unknownNodeType tag)

theorem NodeRecord.link_degraded (record : NodeRecord) (tag : UInt8) :
    (record.degraded tag).link = record.link := rfl

theorem map_link_modify (records : List NodeRecord) (index : Nat) (tag : UInt8) :
    (records.modify index (·.degraded tag)).map NodeRecord.link =
      records.map NodeRecord.link :=
  map_modify_of_kept (fun record => record.link_degraded tag) records index

theorem map_record_modify (nodes : List DecodedNode) (index : Nat) (tag : UInt8) :
    (nodes.modify index (·.degraded tag)).map (·.record) =
      (nodes.map (·.record)).modify index (·.degraded tag) := by
  apply map_modify
  intro node
  rfl

/-! ## Blocks with another tag -/

namespace Block

variable {block : Bytes} {maxChildren : UInt32} {tag : UInt8}

theorem typeTag_retag (hsize : 0 < block.size) : typeTag (block.overwrite 0 [tag]) = tag := by
  rw [typeTag, Bytes.byteAt, Bytes.getElem?_overwrite, if_pos ⟨Nat.le_refl 0, by simp, hsize⟩]
  rfl

theorem not_known_retag (hsize : 0 < block.size) (hcore : tag ≠ 1) (hleaf : tag ≠ 2) :
    typeTag (block.overwrite 0 [tag]) ≠ 1 ∧ typeTag (block.overwrite 0 [tag]) ≠ 2 := by
  rw [typeTag_retag hsize]
  exact ⟨hcore, hleaf⟩

/-- The rest of the common header lies behind the tag. -/
theorem commonHeader_retag (hsize : 0 < block.size) (hcore : tag ≠ 1) (hleaf : tag ≠ 2) :
    commonHeader (block.overwrite 0 [tag]) = { commonHeader block with kind := .unknown tag } := by
  obtain ⟨hnotCore, hnotLeaf⟩ := not_known_retag hsize hcore hleaf
  have hkind : NodeKind.ofTag (typeTag (block.overwrite 0 [tag])) = .unknown tag := by
    rw [← kind_commonHeader, kind_unknown hnotCore hnotLeaf, typeTag_retag hsize]
  have hword {offset : Nat} (h : 1 ≤ offset) :
      (block.overwrite 0 [tag]).wordAt offset = block.wordAt offset :=
    Bytes.wordAt_overwrite_of_apart (Or.inr h)
  have hdone : (block.overwrite 0 [tag]).byteAt 33 = block.byteAt 33 :=
    Bytes.byteAt_overwrite_of_apart (Or.inr (by simp))
  simp (disch := decide) only [commonHeader, hkind, hword, hdone]

/-- With an unknown tag, a block that is long enough for the common header gives the
degraded record. -/
theorem decodeBlock_retag (hsize : 34 ≤ block.size) (hcore : tag ≠ 1) (hleaf : tag ≠ 2) :
    (decodeBlock (block.overwrite 0 [tag]) maxChildren).result =
      .ok ((node block maxChildren).degraded tag) := by
  have hsome : 0 < block.size := by omega
  obtain ⟨hnotCore, hnotLeaf⟩ := not_known_retag hsome hcore hleaf
  rw [result_decodeBlock_eq_ok_iff, fits_unknown_iff hnotCore hnotLeaf, Bytes.size_overwrite,
    node_unknown hnotCore hnotLeaf, unknownNode, commonHeader_retag hsome hcore hleaf,
    typeTag_retag hsome, DecodedNode.degraded, NodeRecord.degraded, node_record_header]
  exact ⟨hsize, rfl⟩

end Block

/-! ## Files with another tag -/

namespace HistoryFile

/-- The file with `tag` as the type of block `index`. -/
def retag (file : HistoryFile) (index : Nat) (tag : UInt8) : HistoryFile :=
  { file with data := file.data.overwrite (4096 + index * file.header.blockSize.toNat) [tag] }

variable {file : HistoryFile} {index : Nat} {tag : UInt8}

theorem size_retag : (file.retag index tag).data.size = file.data.size :=
  Bytes.size_overwrite _ _ _

/-- The tag lies in no other block. -/
theorem block_retag_of_ne (hsome : 0 < file.header.blockSize.toNat) {other : UInt32}
    (h : other.toNat ≠ index) : (file.retag index tag).block other = file.block other := by
  have hapart : 4096 + index * file.header.blockSize.toNat + [tag].length ≤
      4096 + other.toNat * file.header.blockSize.toNat ∨
      4096 + other.toNat * file.header.blockSize.toNat + file.header.blockSize.toNat ≤
        4096 + index * file.header.blockSize.toNat := by
    rcases Nat.lt_or_gt_of_ne h with hbefore | hafter
    · exact Or.inr (blockStop_le _ hbefore)
    · exact Or.inl (Nat.le_trans (Nat.add_le_add_left hsome _) (blockStop_le _ hafter))
  rw [block_eq, block_eq, size_retag]
  simp only [retag, Bytes.extract_overwrite_of_apart hapart]

theorem visit_retag_of_ne (hsome : 0 < file.header.blockSize.toNat) {other : Nat}
    (hword : other < UInt32.size) (h : other ≠ index) :
    (file.retag index tag).visit other = file.visit other := by
  have hother : (UInt32.ofNat other).toNat ≠ index := by
    rwa [UInt32.toNat_ofNat_of_lt' hword]
  rw [visit, visit, decode, decode, block_retag_of_ne hsome hother]
  rfl

/-- Within its own block, the tag is the first byte. -/
theorem blockBytes_retag (hsome : 0 < file.header.blockSize.toNat) :
    (file.retag index tag).blockBytes index = (file.blockBytes index).overwrite 0 [tag] :=
  Bytes.extract_overwrite_self (Nat.add_le_add_left hsome _)

theorem decoding_retag {node : DecodedNode} (hword : index < UInt32.size)
    (h : file.decoding index = .ok node) (hcore : tag ≠ 1) (hleaf : tag ≠ 2) :
    (file.retag index tag).decoding index = .ok (node.degraded tag) := by
  obtain ⟨hsize, rfl⟩ := size_blockBytes_of_decoding hword h
  have hblock := (block_of_decoding hword h).1
  have hretag : (file.retag index tag).block (UInt32.ofNat index) =
      .ok ((file.blockBytes index).overwrite 0 [tag]) := by
    rw [block_eq, UInt32.toNat_ofNat_of_lt' hword] at hblock ⊢
    rw [size_retag]
    split at hblock
    next hfits =>
      rw [← blockBytes_retag (blockSize_of_decoding hword h)]
      exact if_pos hfits
    next => contradiction
  rw [decoding, result_decode, hretag, ok_bind]
  exact Block.decodeBlock_retag hsize hcore hleaf

section Decoded

variable {nodes : List DecodedNode} (h : file.decodings = nodes.map .ok)
  (hindex : index < nodes.length) (hcore : tag ≠ 1) (hleaf : tag ≠ 2)

include h hindex hcore hleaf

/-- The results of the file with another tag differ in one node. -/
theorem decodings_retag :
    (file.retag index tag).decodings = (nodes.modify index (·.degraded tag)).map .ok := by
  have hnodes := decodes_of_eq h
  have hlength := length_of_decodings_eq h
  have hword := length_lt_size_of_eq h
  have hsome := blockSize_of_decoding (Nat.lt_trans hindex hword) (hnodes index hindex)
  apply decodings_of_decodes
  · rw [List.length_modify]
    exact hlength
  intro place hplace
  rw [List.getElem_modify]
  rw [List.length_modify] at hplace
  have hplaced := hnodes place hplace
  split
  next hsame =>
    subst hsame
    exact decoding_retag (Nat.lt_trans hplace hword) hplaced hcore hleaf
  next hother =>
    rw [decoding, ← result_visit, visit_retag_of_ne hsome (Nat.lt_trans hplace hword)
      (Ne.symm hother), result_visit]
    exact hplaced

theorem decodeAll_retag :
    (file.retag index tag).decodeAll.result =
      .ok ((nodes.map (·.record)).modify index (·.degraded tag)) := by
  rw [result_decodeAll_of_ok (decodings_retag h hindex hcore hleaf), map_record_modify]

/-- The walk makes the same visits elsewhere. -/
theorem getElem?_walk_retag_of_ne {other : Nat} (hother : other ≠ index) :
    (file.retag index tag).walk[other]? = file.walk[other]? := by
  have hword := length_lt_size_of_eq h
  have hsome := blockSize_of_decoding (Nat.lt_trans hindex hword) (decodes_of_eq h index hindex)
  rw [getElem?_walk_of_eq (decodings_retag h hindex hcore hleaf), getElem?_walk_of_eq h,
    List.length_modify]
  split
  next hin => rw [visit_retag_of_ne hsome (Nat.lt_trans hin hword) hother]
  next => rfl

theorem getElem?_walk_retag_self :
    (file.retag index tag).walk[index]? = some ((file.retag index tag).visit index) ∧
      ((file.retag index tag).visit index).attempt.result = .ok (nodes[index].degraded tag) := by
  constructor
  · rw [getElem?_walk_of_eq (decodings_retag h hindex hcore hleaf), List.length_modify,
      if_pos hindex]
  · rw [result_visit]
    exact decoding_retag (Nat.lt_trans hindex (length_lt_size_of_eq h))
      (decodes_of_eq h index hindex) hcore hleaf

end Decoded

theorem parse_retag {data : Bytes} (h : (parse data).result = .ok file) (index : Nat)
    (tag : UInt8) :
    (parse (data.overwrite (4096 + index * file.header.blockSize.toNat) [tag])).result =
      .ok (file.retag index tag) := by
  obtain ⟨hsize, rfl⟩ := result_parse_eq_ok_iff.mp h
  have hword (start : Nat) (hstart : start + 4 ≤ 4096) :
      Bytes.wordAt (data.overwrite
        (4096 + index * (TreeHeader.declared data).blockSize.toNat) [tag]) start =
      data.wordAt start :=
    Bytes.wordAt_overwrite_of_apart (Or.inl (Nat.le_trans hstart (Nat.le_add_right _ _)))
  have hheader : TreeHeader.declared (data.overwrite
      (4096 + index * (TreeHeader.declared data).blockSize.toNat) [tag]) = .declared data := by
    rw [TreeHeader.declared]
    simp (disch := decide) only [hword]
    rfl
  rw [result_parse_eq_ok_iff, hheader, Bytes.size_overwrite]
  exact ⟨hsize, rfl⟩

end HistoryFile

/-- One of the records has been degraded. -/
structure DegradedAt (records degraded : List NodeRecord) (index : Nat) (tag : UInt8) : Prop where
  length : degraded.length = records.length
  others (other : Nat) (h : other ≠ index) : degraded[other]? = records[other]?
  record : ∃ record, records[index]? = some record ∧
    degraded[index]? = some (record.degraded tag)

theorem degradedAt_modify {records : List NodeRecord} {index : Nat} (h : index < records.length)
    (tag : UInt8) : DegradedAt records (records.modify index (·.degraded tag)) index tag where
  length := List.length_modify _ _ _
  others other hother := List.getElem?_modify_ne _ _ (Ne.symm hother)
  record := by
    refine ⟨records[index], List.getElem?_eq_getElem h, ?_⟩
    rw [List.getElem?_modify_eq, List.getElem?_eq_getElem h]
    rfl

/-- A tag without a meaning degrades one record and leaves the header, the other records,
the graph and the index as they are. The walk goes on past it and tells of it. -/
theorem parse_overwrite_tag {data : Bytes} {file : HistoryFile} {records : List NodeRecord}
    {index : Nat} {tag : UInt8} (hparse : (HistoryFile.parse data).result = .ok file)
    (hdecode : file.decodeAll.result = .ok records)
    (hindex : index < file.header.nodeCount.toNat) (hcore : tag ≠ 1) (hleaf : tag ≠ 2) :
    ∃ (retagged : HistoryFile) (degraded : List NodeRecord),
      (HistoryFile.parse
        (data.overwrite (4096 + index * file.header.blockSize.toNat) [tag])).result =
          .ok retagged ∧
      retagged.header = file.header ∧
      retagged.decodeAll.result = .ok degraded ∧
      DegradedAt records degraded index tag ∧
      (∀ other ≠ index, retagged.walk[other]? = file.walk[other]?) ∧
      (∃ visit node, retagged.walk[index]? = some visit ∧ visit.attempt.result = .ok node ∧
        degraded[index]? = some node.record ∧ node.issue = some (.unknownNodeType tag)) ∧
      Graph.render degraded = Graph.render records ∧
      (convert (data.overwrite (4096 + index * file.header.blockSize.toNat) [tag]) .graph).output =
        (convert data .graph).output ∧
      TreeIndex.ofRecords degraded = TreeIndex.ofRecords records := by
  obtain ⟨nodes, hnodes, rfl⟩ := HistoryFile.result_decodeAll_eq_ok_iff.mp hdecode
  rw [← HistoryFile.length_of_decodings_eq hnodes] at hindex
  have hparsed := HistoryFile.parse_retag hparse index tag
  have hlinks := map_link_modify (nodes.map (·.record)) index tag
  have hat : DegradedAt (nodes.map (·.record))
      ((nodes.map (·.record)).modify index (·.degraded tag)) index tag :=
    degradedAt_modify (by rwa [List.length_map]) tag
  obtain ⟨hvisit, hresult⟩ := HistoryFile.getElem?_walk_retag_self hnodes hindex hcore hleaf
  refine ⟨file.retag index tag, (nodes.map (·.record)).modify index (·.degraded tag), hparsed,
    rfl, HistoryFile.decodeAll_retag hnodes hindex hcore hleaf, hat, ?_, ?_, ?_, ?_,
    TreeIndex.ofRecords_congr hlinks⟩
  · intro other hother
    exact HistoryFile.getElem?_walk_retag_of_ne hnodes hindex hcore hleaf hother
  · refine ⟨_, nodes[index].degraded tag, hvisit, hresult, ?_, rfl⟩
    rw [List.getElem?_modify_eq, List.getElem?_map, List.getElem?_eq_getElem hindex]
    rfl
  · rw [Graph.render_congr hlinks]
  · rw [output_graph_of_ok hparsed (HistoryFile.decodings_retag hnodes hindex hcore hleaf),
      output_graph_of_ok hparse hnodes, map_record_modify, Graph.render_congr hlinks]

theorem parse_overwrite_tag_twoNodeTree :
    ∃ file : HistoryFile, (HistoryFile.parse file.data).result = .ok file ∧
      file.decodeAll.result = .ok twoNodeTree ∧ 0 < file.header.nodeCount.toNat ∧
      (5 : UInt8) ≠ 1 ∧ (5 : UInt8) ≠ 2 ∧
      ∃ (retagged : HistoryFile) (degraded : List NodeRecord),
        (HistoryFile.parse (file.data.overwrite
          (4096 + 0 * file.header.blockSize.toNat) [5])).result = .ok retagged ∧
        retagged.decodeAll.result = .ok degraded ∧ DegradedAt twoNodeTree degraded 0 5 ∧
        Graph.render degraded = Graph.render twoNodeTree := by
  have hencode : ∃ data, encodeFile twoNodeHeader twoNodeTree = .ok data := ⟨_, rfl⟩
  obtain ⟨data, hdata⟩ := hencode
  obtain ⟨blocks, hblocks, -⟩ := encodeFile_eq_ok_iff.mp hdata
  have hparse := HistoryFile.parse_ofBlocks twoNodeHeader blocks
  have hdecode : (HistoryFile.ofBlocks twoNodeHeader blocks).decodeAll.result =
      .ok twoNodeTree :=
    (HistoryFile.givesBack_ofBlocks hblocks canonical_twoNodeTree).decodeAll
      (by rw [HistoryFile.header_ofBlocks]; decide)
  have hindex : 0 < (HistoryFile.ofBlocks twoNodeHeader blocks).header.nodeCount.toNat := by
    rw [HistoryFile.header_ofBlocks]
    decide
  have hcore : (5 : UInt8) ≠ 1 := by decide
  have hleaf : (5 : UInt8) ≠ 2 := by decide
  obtain ⟨retagged, degraded, hretagged, -, hdegraded, hat, -, -, hrender, -, -⟩ :=
    parse_overwrite_tag hparse hdecode hindex hcore hleaf
  exact ⟨_, hparse, hdecode, hindex, hcore, hleaf, retagged, degraded, hretagged, hdegraded, hat,
    hrender⟩

end HistoryTree
