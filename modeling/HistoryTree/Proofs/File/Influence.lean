import HistoryTree.Proofs.Block.Influence
import HistoryTree.Proofs.File.Extension

/-!
# Files that agree

Two files of one length with one header, whose blocks agree where decoding reads, cannot be
told apart by anything but the texts of their intervals (`reads_alike`). The rest of the
preamble and all other bytes of the blocks may be anything.
-/

namespace HistoryTree

open Layout

namespace HistoryFile

variable {left right : HistoryFile} {index : UInt32}

/-- Files of one length with one header, which agree in every declared block on the bytes
that decoding reads from the first. -/
structure Alike (left right : HistoryFile) : Prop where
  header : right.header = left.header
  size : right.data.size = left.data.size
  blocks (index : UInt32) (declared : index < left.header.nodeCount) (first second : Bytes)
    (held : left.block index = .ok first) (held' : right.block index = .ok second) :
    Block.AgreeWithin first second left.header.maxChildren

namespace Alike

/-! ## Blocks and walks -/

/-- A block is missing from both files, or they hold blocks of one size. -/
theorem block_cases (h : left.Alike right) (index : UInt32) :
    (∃ cause, left.block index = .error cause ∧ right.block index = .error cause) ∨
      ∃ first second, left.block index = .ok first ∧ right.block index = .ok second ∧
        second.size = first.size := by
  rw [block_eq, block_eq, h.header, h.size]
  split
  · refine Or.inr ⟨_, _, rfl, rfl, ?_⟩
    rw [Array.size_extract, Array.size_extract, h.size]
  · exact Or.inl ⟨_, rfl, rfl⟩

theorem decode_eq (h : left.Alike right) (hdeclared : index < left.header.nodeCount) :
    right.decode index = left.decode index := by
  rw [decode, decode, h.header]
  rcases h.block_cases index with ⟨cause, hleft, hright⟩ | ⟨first, second, hleft, hright, hsize⟩
  · rw [hleft, hright]
  · rw [hleft, hright, Attempt.lift_ok_bind, Attempt.lift_ok_bind]
    exact decodeBlock_eq_of_agree (h.blocks index hdeclared first second hleft hright) hsize

theorem walk_eq (h : left.Alike right) : right.walk = left.walk := by
  rw [HistoryFile.walk_eq, HistoryFile.walk_eq, visits, visits, h.header]
  congr 1
  apply List.map_congr_left
  intro index hindex
  have hcount := List.mem_range.mp hindex
  have hword : (UInt32.ofNat index).toNat = index :=
    UInt32.toNat_ofNat_of_lt' (Nat.lt_trans hcount left.header.nodeCount.toNat_lt_size)
  rw [visit, visit, h.decode_eq (UInt32.lt_iff_toNat_lt.mpr (hword.symm ▸ hcount))]

theorem decodeAll_eq (h : left.Alike right) : right.decodeAll = left.decodeAll := by
  rw [decodeAll, decodeAll, h.walk_eq]

theorem decodings_eq (h : left.Alike right) : right.decodings = left.decodings := by
  rw [← outcomes_eq_decodings, ← outcomes_eq_decodings, outcomes, outcomes, h.walk_eq]

/-- A conversion gets the same node from both files, though maybe not the same bytes. -/
theorem readNode_eq (h : left.Alike right) (visit : Visit) :
    (Draft.readNode right visit).map Prod.fst = (Draft.readNode left visit).map Prod.fst := by
  rw [Draft.readNode, Draft.readNode]
  rcases h.block_cases visit.index with
    ⟨cause, hleft, hright⟩ | ⟨first, second, hleft, hright, -⟩
  · rw [hleft, hright]
  · rw [hleft, hright]
    cases visit.attempt.result <;> rfl

end Alike

end HistoryFile

/-! ## Conversions -/

namespace Draft

/-- Drafts that came by the same notices and records. -/
structure Alike (left right : Draft) : Prop where
  notices : right.notices = left.notices
  records : right.records = left.records

variable {first second : Draft}

theorem Alike.announce (h : first.Alike second) (visit : Visit) :
    (first.announce visit).Alike (second.announce visit) where
  notices := by rw [Draft.announce, Draft.announce, h.notices]
  records := h.records

/-- The bytes of the block show in the progress and in the document alone. -/
theorem Alike.add (h : first.Alike second) (index : UInt32) (node : DecodedNode)
    (block other : Bytes) : (first.add index node block).Alike (second.add index node other) where
  notices := h.notices
  records := congrArg (·.push node.record) h.records

theorem Alike.notices_finish (h : first.Alike second) (form : DocumentForm)
    (rootSeq : SeqNumber) :
    (second.finish form rootSeq).notices = (first.finish form rootSeq).notices := by
  rw [finish, finish, h.notices, h.records]

/-- Conversions that get the same nodes issue the same notices. -/
theorem Alike.notices_readNodes {left right : HistoryFile} (h : first.Alike second)
    (halike : left.Alike right) (form : DocumentForm) (visits : List Visit) :
    (readNodes right form second visits).notices = (readNodes left form first visits).notices := by
  induction visits generalizing first second with
  | nil =>
    rw [readNodes, readNodes, halike.header]
    exact h.notices_finish form left.header.rootSeq
  | cons visit rest ih =>
    have hannounced := h.announce visit
    have hread := halike.readNode_eq visit
    rw [readNodes, readNodes]
    cases hleft : readNode left visit with
    | error cause =>
      cases hright : readNode right visit with
      | error cause' => exact congrArg Array.toList hannounced.notices
      | ok read =>
        rw [hleft, hright] at hread
        contradiction
    | ok read =>
      cases hright : readNode right visit with
      | error cause =>
        rw [hleft, hright] at hread
        contradiction
      | ok read' =>
        rw [hleft, hright] at hread
        have hnode : read'.1 = read.1 := Except.ok.inj hread
        simp only [hnode]
        exact ih (hannounced.add visit.index read.1 read.2 read'.2)

end Draft

namespace HistoryFile

variable {left right : HistoryFile}

/-- What is made of one file is what is made of the other, apart from the texts of intervals. -/
structure SameReading (left right : HistoryFile) : Prop where
  walk : right.walk = left.walk
  decodeAll : right.decodeAll = left.decodeAll
  graph : right.decodeAll.result.map Graph.render = left.decodeAll.result.map Graph.render
  report : right.decodeAll.result.map
      (fun records => (TreeIndex.ofRecords records).findings right.header.rootSeq) =
    left.decodeAll.result.map
      fun records => (TreeIndex.ofRecords records).findings left.header.rootSeq
  output : (convert right.data .graph).output = (convert left.data .graph).output
  notices (form : DocumentForm) :
    (convert right.data form).notices = (convert left.data form).notices

section Parsed

variable (hleft : (parse left.data).result = .ok left)
  (hright : (parse right.data).result = .ok right) (h : left.Alike right)

include hleft hright h

theorem Alike.notices_parse : (parse right.data).notices = (parse left.data).notices := by
  have hnotices := notesTrailing_of_parse hright
  rw [NotesTrailing, h.header, h.size] at hnotices
  exact hnotices.trans (notesTrailing_of_parse hleft).symm

theorem Alike.output_graph :
    (convert right.data .graph).output = (convert left.data .graph).output := by
  rcases left.decodings_cases with ⟨nodes, hnodes⟩ | ⟨nodes, cause, hnodes⟩
  · rw [output_graph_of_ok hleft hnodes, output_graph_of_ok hright (h.decodings_eq.trans hnodes)]
  · rw [(convert_of_node_error hleft hnodes .graph).2,
      (convert_of_node_error hright (h.decodings_eq.trans hnodes) .graph).2]

theorem Alike.notices_convert (form : DocumentForm) :
    (convert right.data form).notices = (convert left.data form).notices := by
  have hdraft : (Draft.ofFile left (parse left.data).notices form).Alike
      (Draft.ofFile right (parse right.data).notices form) :=
    ⟨by rw [Draft.ofFile, Draft.ofFile, h.notices_parse hleft hright, h.header], rfl⟩
  rw [convert_of_parse_ok hleft, convert_of_parse_ok hright, h.walk_eq]
  exact hdraft.notices_readNodes h form left.walk

end Parsed

/-- Files that agree where decoding reads are read in the same way: their walks and records
are the same, and so are graph and findings, whether or not all nodes can be decoded. -/
theorem reads_alike (hleft : (parse left.data).result = .ok left)
    (hright : (parse right.data).result = .ok right) (h : left.Alike right) :
    left.SameReading right where
  walk := h.walk_eq
  decodeAll := h.decodeAll_eq
  graph := congrArg (fun attempt => attempt.result.map Graph.render) h.decodeAll_eq
  report := by rw [h.decodeAll_eq, h.header]
  output := h.output_graph hleft hright
  notices := h.notices_convert hleft hright

end HistoryFile

/-- The leaf of `untidyLeaf` with zeros in the bytes that are not read. -/
def tidyLeaf : Bytes :=
  #[2, 1, 0, 0, 0, 0, 0, 0, 0, 8, 0, 0, 0, 0, 0, 0, 0, 3, 0, 0, 0, 255, 255, 255, 255,
    0, 0, 0, 0, 0, 0, 0, 0, 5, 0, 0]

theorem agreeWithin_tidyLeaf (maxChildren : UInt32) :
    Block.AgreeWithin untidyLeaf tidyLeaf maxChildren := by
  have hsame : ∀ position < 36,
      position < 5 ∨ 9 ≤ position ∧ position < 13 ∨ 17 ≤ position ∧ position < 34 →
        untidyLeaf.byteAt position = tidyLeaf.byteAt position := by decide
  intro position hinside hread
  cases hread with
  | common within => exact hsame position hinside within
  | coreHeader core | childSeq core | childStart core => exact absurd core (by decide)
  | interval base hbase index held => exact absurd held (Nat.not_lt_zero index)

/-- A header for one block of 36 bytes. -/
def leafHeader : TreeHeader :=
  { threeNodeHeader with blockSize := 36, nodeCount := 1 }

theorem block_ofBlocks_singleton {block : Bytes} (hsize : block.size = 36) :
    (HistoryFile.ofBlocks leafHeader [block]).block 0 = .ok block := by
  have hindex : (0 : UInt32).toNat < [block].length := Nat.zero_lt_one
  exact HistoryFile.block_ofBlocks (List.forall_mem_singleton.mpr hsize) hindex

theorem alike_tidyLeaf :
    (HistoryFile.ofBlocks leafHeader [untidyLeaf]).Alike
      (HistoryFile.ofBlocks leafHeader [tidyLeaf]) where
  header := rfl
  size := by
    rw [HistoryFile.size_ofBlocks (List.forall_mem_singleton.mpr rfl),
      HistoryFile.size_ofBlocks (List.forall_mem_singleton.mpr rfl)]
    rfl
  blocks index hdeclared first second hfirst hsecond := by
    have hzero : index = 0 := UInt32.toNat_inj.mp (Nat.lt_one_iff.mp hdeclared)
    rw [hzero, block_ofBlocks_singleton rfl, Except.ok.injEq] at hfirst hsecond
    rw [← hfirst, ← hsecond]
    exact agreeWithin_tidyLeaf _

theorem reads_alike_tidyLeaf :
    ∃ left right : HistoryFile,
      (HistoryFile.parse left.data).result = .ok left ∧
      (HistoryFile.parse right.data).result = .ok right ∧ left.Alike right ∧
      left.block 0 = .ok untidyLeaf ∧ right.block 0 = .ok tidyLeaf ∧
      left.SameReading right := by
  have hleft := HistoryFile.parse_ofBlocks leafHeader [untidyLeaf]
  have hright := HistoryFile.parse_ofBlocks leafHeader [tidyLeaf]
  exact ⟨_, _, hleft, hright, alike_tidyLeaf, block_ofBlocks_singleton rfl,
    block_ofBlocks_singleton rfl, HistoryFile.reads_alike hleft hright alike_tidyLeaf⟩

end HistoryTree
