import HistoryTree.DecodeError
import HistoryTree.Record.SeqNumber
import HistoryTree.Text.Hex

/-!
# Notices

What is worth a remark while a file is read, apart from results and failures. A
notice is a value; its wording is in `Notice.message` alone.
-/

namespace HistoryTree

/-- A way in which parent links fail to form one tree. -/
inductive Finding where
  | noRoot
  | otherRoot (root declared : SeqNumber)
  | severalRoots (roots : List SeqNumber)
  | sharedNumber (seq : SeqNumber)
  | orphan (child parent : SeqNumber)
  deriving DecidableEq, Repr

def Finding.message : Finding → String
  | .noRoot => "no root node"
  | .otherRoot root declared => s!"root node is {root} but the header says {declared}"
  | .severalRoots roots =>
    let listed := ", ".intercalate (roots.map fun root => s!"SeqNumber({root})")
    s!"{roots.length} root nodes: [{listed}]"
  | .sharedNumber seq => s!"seq number {seq} used by more than one node"
  | .orphan child parent => s!"node {child} has parent {parent} which is not in the file"

inductive Severity where
  | debug
  | warn
  deriving DecidableEq, Repr

instance : ToString Severity where
  toString
    | .debug => "DEBUG"
    | .warn => "WARN"

inductive Notice where
  | trailingBytes (count : Nat) (nodeCount : UInt32)
  | unexpectedMagic (magic : UInt32)
  | readingNode (index : UInt32)
  /-- A core node declares more children than there are slots. -/
  | excessChildren (declared capacity : UInt32)
  | nodeIssue (index : UInt32) (issue : DecodeError)
  | inconsistency (finding : Finding)
  deriving DecidableEq, Repr

namespace Notice

def severity : Notice → Severity
  | .trailingBytes .. | .readingNode _ | .excessChildren .. => .debug
  | .unexpectedMagic _ | .nodeIssue .. | .inconsistency _ => .warn

def message : Notice → String
  | .trailingBytes count nodeCount =>
    s!"ignoring {count} trailing bytes after block {nodeCount}"
  | .unexpectedMagic magic => s!"unexpected magic number {Text.hexWord magic}"
  | .readingNode index => s!"reading node {index}"
  | .excessChildren declared capacity =>
    s!"children count {declared} exceeds capacity {capacity}, reading {capacity}"
  | .nodeIssue index issue => s!"node {index}: {issue.message}"
  | .inconsistency finding => finding.message

instance : ToString Notice where
  toString notice := s!"{notice.severity} {notice.message}"

end Notice

end HistoryTree
