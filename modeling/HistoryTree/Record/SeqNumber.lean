/-!
# Sequence numbers and parents

A node is known by its sequence number, wherever its block is stored. It names
its parent by that number; the root names no parent and stores a sentinel.
-/

namespace HistoryTree

/-- The identifier of a node. -/
structure SeqNumber where
  value : UInt32
  deriving DecidableEq, Repr, Inhabited

namespace SeqNumber

instance : ToString SeqNumber where
  toString seq := toString seq.value.toNat

/-- Sequence numbers are ordered as numbers. -/
instance : Ord SeqNumber where
  compare := compareOn value

end SeqNumber

/-- What a node says of its parent. -/
inductive ParentRef where
  | root
  | childOf (parent : SeqNumber)
  deriving DecidableEq, Repr, Inhabited

namespace ParentRef

/-- The stored parent number of a root. -/
def rootSentinel : UInt32 := 0xFFFFFFFF

def ofRaw (raw : UInt32) : ParentRef :=
  if raw = rootSentinel then .root else .childOf ⟨raw⟩

def toRaw : ParentRef → UInt32
  | .root => rootSentinel
  | .childOf parent => parent.value

def seqNumber? : ParentRef → Option SeqNumber
  | .root => none
  | .childOf parent => some parent

def isRoot : ParentRef → Bool
  | .root => true
  | .childOf _ => false

instance : ToString ParentRef where
  toString
    | .root => "root"
    | .childOf parent => toString parent

@[simp]
theorem toRaw_ofRaw (raw : UInt32) : (ofRaw raw).toRaw = raw := by
  unfold ofRaw
  split <;> simp [toRaw, *]

/-- A parent survives being stored unless its number is the sentinel. -/
theorem ofRaw_toRaw {parent : ParentRef} (h : parent ≠ .childOf ⟨rootSentinel⟩) :
    ofRaw parent.toRaw = parent := by
  cases parent with
  | root => simp [ofRaw, toRaw]
  | childOf seq =>
    have hvalue : seq.value ≠ rootSentinel := fun hequal => h (by rw [← hequal])
    simp [ofRaw, toRaw, hvalue]

end ParentRef

end HistoryTree
