/-!
# Intervals

An interval gives an attribute a value over a range of time. The value is stored
as a word, together with a tag that says how to take it.
-/

namespace HistoryTree

/-- How a stored value is to be taken. -/
inductive ValueType where
  | int32
  | str
  | uint32
  | float
  /-- A tag without a meaning, kept as it is. -/
  | other (tag : UInt8)
  deriving DecidableEq, Repr

namespace ValueType

def ofTag (tag : UInt8) : ValueType :=
  match tag with
  | 0 => .int32
  | 1 => .str
  | 2 => .uint32
  | 3 => .float
  | tag => .other tag

def tag : ValueType → UInt8
  | .int32 => 0
  | .str => 1
  | .uint32 => 2
  | .float => 3
  | .other tag => tag

instance : ToString ValueType where
  toString
    | .int32 => "int32"
    | .str => "str"
    | .uint32 => "uint32"
    | .float => "float"
    | .other tag => toString tag.toNat

@[simp]
theorem tag_ofTag (tag : UInt8) : (ofTag tag).tag = tag := by
  unfold ofTag
  split <;> rfl

end ValueType

/-- The word `value` for an attribute from `start` to `stop`. For strings the word
is the offset of the string in the block. -/
structure Interval where
  start : UInt32
  stop : UInt32
  attributeId : UInt32
  valueType : ValueType
  value : UInt32
  deriving DecidableEq, Repr

end HistoryTree
