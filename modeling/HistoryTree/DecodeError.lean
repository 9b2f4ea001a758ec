/-!
# Causes of a failed decoding
-/

namespace HistoryTree

/-- Why a block or a file could not be read as declared. -/
inductive DecodeError where
  /-- The stretch of `field` ends at `needed`, past the `available` bytes. -/
  | truncatedInput (field : String) (needed available : Nat)
  /-- The type tag is neither that of a core node nor that of a leaf. -/
  | unknownNodeType (tag : UInt8)
  deriving DecidableEq, Repr

namespace DecodeError

def message : DecodeError → String
  | .truncatedInput field needed available =>
    s!"truncated input: {field} needs {needed} bytes but only {available} are available"
  | .unknownNodeType tag => s!"unknown node type {tag}"

/-- Whether other nodes can still be decoded. An unknown type leaves the common
header of its block readable; a truncation ends the walk. -/
def isRecoverable : DecodeError → Bool
  | .truncatedInput .. => false
  | .unknownNodeType _ => true

end DecodeError

end HistoryTree
