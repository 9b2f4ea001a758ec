import HistoryTree.Bytes.Field
import HistoryTree.Record.Node

/-!
# Layout of a history tree file

A file is a preamble followed by blocks of one size, one node each. Within a
block the offsets depend on the kind of node and on `maxChildren`, the number of
child slots that every core node of the tree has:

* common header at 0;
* core nodes only: core header at 34, `maxChildren` child numbers of 4 bytes at
  42, then as many child starts of 8 bytes;
* interval cells of 25 bytes, for a leaf at 34.

Times take 8 bytes, of which the low 4 are used. Offsets that are no addresses
are `none`.
-/

namespace HistoryTree

/-- The number that a history tree file begins with. -/
def expectedMagic : UInt32 := 0x05FFA900

namespace Layout

def treeHeaderSize : Nat := 4096
def commonHeaderSize : Nat := 34
def coreHeaderSize : Nat := 8
def childrenBase : Nat := commonHeaderSize + coreHeaderSize
def childSeqStride : Nat := 4
def childStartStride : Nat := 8
def intervalSize : Nat := 25

/-! ## Fields of the preamble -/

namespace Preamble

def magic : Field UInt32 := ⟨"magic", 0⟩
def major : Field UInt32 := ⟨"major", 4⟩
def minor : Field UInt32 := ⟨"minor", 8⟩
def blockSize : Field UInt32 := ⟨"block size", 12⟩
def maxChildren : Field UInt32 := ⟨"max children", 16⟩
def nodeCount : Field UInt32 := ⟨"node count", 20⟩
def rootSeq : Field UInt32 := ⟨"root seq number", 24⟩

end Preamble

/-! ## Fields of a block -/

namespace Common

def typeTag : Field UInt8 := ⟨"type", 0⟩
def start : Field UInt32 := ⟨"start", 1⟩
def stop : Field UInt32 := ⟨"end", 9⟩
def seqNumber : Field UInt32 := ⟨"seq number", 17⟩
def parentSeqNumber : Field UInt32 := ⟨"parent seq number", 21⟩
def intervalCount : Field UInt32 := ⟨"interval count", 25⟩
def varDataOffset : Field UInt32 := ⟨"var data offset", 29⟩
def done : Field UInt8 := ⟨"done", 33⟩

end Common

namespace Core

def extended : Field UInt32 := ⟨"extended", 34⟩
def childrenCount : Field UInt32 := ⟨"children count", 38⟩

end Core

/-! ## Fields of an interval cell, from the start of the cell -/

namespace Cell

def start : Field UInt32 := ⟨"interval start", 0⟩
def stop : Field UInt32 := ⟨"interval end", 8⟩
def attributeId : Field UInt32 := ⟨"interval attribute", 16⟩
def valueType : Field UInt8 := ⟨"interval value type", 20⟩
def value : Field UInt32 := ⟨"interval value", 21⟩

end Cell

/-! ## Offsets -/

/-- Where the number of child `index` is stored. -/
def childSeqOffset? (index : Nat) : Option Nat := do
  Address.add? childrenBase (← Address.mul? index childSeqStride)

/-- Where the start of child `index` is stored, after all child numbers. -/
def childStartOffset? (maxChildren : UInt32) (index : Nat) : Option Nat := do
  let base ← childSeqOffset? maxChildren.toNat
  Address.add? base (← Address.mul? index childStartStride)

/-- The bytes between the common header and the first interval. Unknown kinds
have no known layout there. -/
def specificHeaderLength? (kind : NodeKind) (maxChildren : UInt32) : Option Nat :=
  match kind with
  | .core => do
    let arrays ← Address.mul? maxChildren.toNat (childSeqStride + childStartStride)
    Address.add? coreHeaderSize arrays
  | .leaf => some 0
  | .unknown _ => none

/-- The number of child slots. -/
def childrenCapacity (kind : NodeKind) (maxChildren : UInt32) : UInt32 :=
  match kind with
  | .core => maxChildren
  | .leaf | .unknown _ => 0

/-- Where the interval cells begin. -/
def intervalsBase? (kind : NodeKind) (maxChildren : UInt32) : Option Nat := do
  Address.add? commonHeaderSize (← specificHeaderLength? kind maxChildren)

/-- Where interval cell `index` begins. -/
def intervalOffset? (kind : NodeKind) (maxChildren : UInt32) (index : Nat) : Option Nat := do
  let base ← intervalsBase? kind maxChildren
  Address.add? base (← Address.mul? index intervalSize)

/-- Where block `index` begins in the file. -/
def blockOffset? (blockSize : UInt32) (index : Nat) : Option Nat := do
  Address.add? treeHeaderSize (← Address.mul? index blockSize.toNat)

/-- The size of a block for core nodes of up to `maxIntervals` intervals, as far as a
word holds it. -/
def blockSizeFor (maxChildren maxIntervals : UInt32) : UInt32 :=
  let arrays := (childSeqStride + childStartStride) * maxChildren.toNat
  let cells := intervalSize * maxIntervals.toNat
  UInt32.ofNat (max (childrenBase + arrays + cells) commonHeaderSize)

end Layout

end HistoryTree
