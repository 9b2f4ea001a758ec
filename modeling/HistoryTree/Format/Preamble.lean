import HistoryTree.Format.Layout

/-!
# The preamble of a file

Seven words at the start of 4096 bytes, the rest of which is not used. Magic
number and version are kept as found: a file with other values can still be read.
-/

namespace HistoryTree

structure TreeHeader where
  magic : UInt32
  major : UInt32
  minor : UInt32
  blockSize : UInt32
  maxChildren : UInt32
  nodeCount : UInt32
  rootSeq : SeqNumber
  deriving DecidableEq, Repr

namespace TreeHeader

open Layout

/-- Reads the header from the start of a file. -/
def read (data : Bytes) : Except DecodeError TreeHeader := do
  let preamble ← data.region "tree header" 0 treeHeaderSize
  return {
    magic := ← Preamble.magic.read preamble
    major := ← Preamble.major.read preamble
    minor := ← Preamble.minor.read preamble
    blockSize := ← Preamble.blockSize.read preamble
    maxChildren := ← Preamble.maxChildren.read preamble
    nodeCount := ← Preamble.nodeCount.read preamble
    rootSeq := ⟨← Preamble.rootSeq.read preamble⟩ }

def words (header : TreeHeader) : List UInt32 :=
  [header.magic, header.major, header.minor, header.blockSize, header.maxChildren,
    header.nodeCount, header.rootSeq.value]

/-- The preamble: the words one after another, padded with zeros. -/
def encode (header : TreeHeader) : Bytes :=
  let bytes := header.words.flatMap LittleEndian.toBytes
  bytes.toArray ++ Bytes.zeros (treeHeaderSize - bytes.length)

def hasExpectedMagic (header : TreeHeader) : Bool :=
  header.magic = expectedMagic

/-- Where block `index` begins and ends, if those are addresses. -/
def blockRange? (header : TreeHeader) (index : Nat) : Option (Nat × Nat) := do
  let start ← blockOffset? header.blockSize index
  return (start, ← Address.add? start header.blockSize.toNat)

/-- The length of a file that holds the declared blocks and nothing more. -/
def expectedLength? (header : TreeHeader) : Option Nat :=
  blockOffset? header.blockSize header.nodeCount.toNat

end TreeHeader

end HistoryTree
