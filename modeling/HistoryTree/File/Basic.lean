import HistoryTree.Block.Decode
import HistoryTree.Format.Preamble

/-!
# History tree files

A file is its header and all its bytes. Blocks are looked up by index, whether or
not the header declares that many.
-/

namespace HistoryTree

structure HistoryFile where
  header : TreeHeader
  data : Bytes
  deriving DecidableEq

namespace HistoryFile

open Layout

def parse (data : Bytes) : Attempt HistoryFile := do
  let header ← TreeHeader.read data
  match header.expectedLength? with
  | some expected =>
    Attempt.noteIf (expected < data.size)
      (.trailingBytes (data.size - expected) header.nodeCount)
    return { header, data }
  | none => return { header, data }

/-- The bytes of block `index`. -/
def block (file : HistoryFile) (index : UInt32) : Except DecodeError Bytes := do
  let range? := file.header.blockRange? index.toNat
  let start ← file.data.addressed "block" (range?.map Prod.fst)
  file.data.region "block" start file.header.blockSize.toNat

/-- The number of whole blocks that the file holds, however many are declared.
Blocks without bytes are not counted. -/
def storedBlocks (file : HistoryFile) : Nat :=
  (file.data.size - treeHeaderSize) / file.header.blockSize.toNat

def decode (file : HistoryFile) (index : UInt32) : Attempt DecodedNode := do
  let block ← file.block index
  decodeBlock block file.header.maxChildren

end HistoryFile

end HistoryTree
