import HistoryTree.Dump
import HistoryTree.Proofs.File.Decodings
import Mathlib.Data.List.Induction

/-!
# What a dump goes through

The dump of a file of which all blocks can be decoded goes through its nodes, each with
the bytes of the block it comes from.
-/

namespace HistoryTree

/-- The dump after the nodes of the first blocks. -/
def Dump.through (file : HistoryFile) (dump : Dump) (nodes : List DecodedNode) : Dump :=
  nodes.zipIdx.foldl (fun dump entry =>
    dump.add (UInt32.ofNat entry.2).toNat entry.1 (file.blockBytes entry.2)) dump

theorem Dump.through_snoc {file : HistoryFile} (dump : Dump) (nodes : List DecodedNode)
    (node : DecodedNode) :
    dump.through file (nodes ++ [node]) =
      (dump.through file nodes).add (UInt32.ofNat nodes.length).toNat node
        (file.blockBytes nodes.length) := by
  rw [Dump.through, zipIdx_snoc, List.foldl_concat, Dump.through]

namespace HistoryFile

variable {file : HistoryFile}

/-- One visit of a dump. -/
def dumpVisit (file : HistoryFile) (dump : Dump) (visit : Visit) : Attempt Dump := do
  let node ← visit.attempt
  let block ← file.block visit.index
  return dump.add visit.index.toNat node block

theorem dump_eq (file : HistoryFile) :
    file.dump = (do
      let dump ← file.walk.foldlM file.dumpVisit (Dump.ofHeader file.header)
      return dump.text) := rfl

theorem result_dumpVisit_of_ok (dump : Dump) {index : Nat} {node : DecodedNode}
    (hword : index < UInt32.size) (h : file.decoding index = .ok node) :
    (file.dumpVisit dump (file.visit index)).result =
      .ok (dump.add (UInt32.ofNat index).toNat node (file.blockBytes index)) := by
  have hblock : file.block (file.visit index).index = .ok (file.blockBytes index) :=
    (block_of_decoding hword h).1
  rw [dumpVisit, Attempt.result_bind, result_visit, ← decoding, h, hblock]
  rfl

theorem foldlM_dumpVisit {nodes : List DecodedNode} (hword : nodes.length < UInt32.size)
    (h : file.Decodes nodes) (dump : Dump) :
    (((List.range nodes.length).map file.visit).foldlM file.dumpVisit dump).result =
      .ok (dump.through file nodes) := by
  induction nodes using List.reverseRecOn with
  | nil => rfl
  | append_singleton nodes node ih =>
    obtain ⟨hnodes, hnode⟩ := decodes_snoc.mp h
    rw [List.length_append, List.length_singleton] at hword ⊢
    have hbefore : nodes.length < UInt32.size := Nat.lt_of_succ_lt hword
    rw [List.range_succ, List.map_append, List.foldlM_append, Attempt.result_bind,
      ih hbefore hnodes, Dump.through_snoc, ← result_dumpVisit_of_ok _ hbefore hnode]
    simp

/-- A file of which all blocks can be decoded has a dump. -/
theorem result_dump_of_ok {nodes : List DecodedNode} (h : file.decodings = nodes.map .ok) :
    file.dump.result = .ok ((Dump.ofHeader file.header).through file nodes).text := by
  have hfold := foldlM_dumpVisit (length_lt_size_of_eq h) (decodes_of_eq h)
    (Dump.ofHeader file.header)
  rw [dump_eq, Attempt.result_bind, walk_of_eq h, hfold]
  rfl

end HistoryFile

end HistoryTree
