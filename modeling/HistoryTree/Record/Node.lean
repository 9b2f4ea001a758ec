import HistoryTree.DecodeError
import HistoryTree.Record.Interval
import HistoryTree.Record.SeqNumber

/-!
# Node records

What a block says about its node: the header common to all nodes, the header of
the node's kind, the children and the intervals. The declared counts are kept as
declared, apart from the lists themselves.
-/

namespace HistoryTree

inductive NodeKind where
  | core
  | leaf
  /-- A type tag without a meaning. -/
  | unknown (tag : UInt8)
  deriving DecidableEq, Repr

namespace NodeKind

def ofTag (tag : UInt8) : NodeKind :=
  match tag with
  | 1 => .core
  | 2 => .leaf
  | tag => .unknown tag

def tag : NodeKind → UInt8
  | .core => 1
  | .leaf => 2
  | .unknown tag => tag

instance : ToString NodeKind where
  toString
    | .core => "core"
    | .leaf => "leaf"
    | .unknown tag => s!"unknown ({tag.toNat})"

@[simp]
theorem tag_ofTag (tag : UInt8) : (ofTag tag).tag = tag := by
  unfold ofTag
  split <;> rfl

end NodeKind

/-- The fields that depend on the kind of node. -/
inductive SpecificHeader where
  | core (extended : Bool) (childrenCount : UInt32)
  | leaf
  | unknown
  deriving DecidableEq, Repr

structure ChildEntry where
  seqNumber : SeqNumber
  start : UInt32
  deriving DecidableEq, Repr

/-- The fields that every block starts with. -/
structure CommonHeader where
  kind : NodeKind
  start : UInt32
  stop : UInt32
  seqNumber : SeqNumber
  parent : ParentRef
  intervalCount : UInt32
  varDataOffset : UInt32
  done : Bool
  deriving DecidableEq, Repr

structure NodeRecord extends CommonHeader where
  specific : SpecificHeader
  children : List ChildEntry
  intervals : List Interval
  deriving DecidableEq, Repr

namespace NodeRecord

def isRoot (record : NodeRecord) : Bool :=
  record.parent.isRoot

/-- The declared number of children, which only core nodes declare. -/
def childrenCount (record : NodeRecord) : UInt32 :=
  match record.specific with
  | .core _ count => count
  | .leaf | .unknown => 0

end NodeRecord

/-- A decoded block, with the problem that decoding got past, if there was one. -/
structure DecodedNode where
  record : NodeRecord
  issue : Option DecodeError
  deriving DecidableEq, Repr

end HistoryTree
