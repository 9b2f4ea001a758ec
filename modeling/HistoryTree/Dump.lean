import HistoryTree.File.Walk
import HistoryTree.Value

/-!
# Text dumps

A dump shows every field of a file, one to a line. Lines about a field begin with a
tab; the others head the preamble and each node.
-/

namespace HistoryTree

def yesNo (flag : Bool) : String :=
  if flag then "yes" else "no"

/-- Lines as a text, each ended by a line break. -/
def unlines (lines : List String) : String :=
  String.join (lines.map (· ++ "\n"))

def TreeHeader.lines (header : TreeHeader) : List String := [
  s!"\tmagic number: {Text.hexWord header.magic}",
  s!"\tmajor: {header.major}",
  s!"\tminor: {header.minor}",
  s!"\tblock size: {header.blockSize}",
  s!"\tmax. children: {header.maxChildren}",
  s!"\tnode count: {header.nodeCount}",
  s!"\troot seq. number: {header.rootSeq}"]

def CommonHeader.lines (common : CommonHeader) : List String := [
  s!"\ttype: {common.kind}",
  s!"\trange: [{common.start}, {common.stop}]",
  s!"\tseq. number: {common.seqNumber}",
  s!"\tparent seq. number: {common.parent}",
  s!"\tinterval count: {common.intervalCount}",
  s!"\tvar. data offset: {common.varDataOffset}",
  s!"\tdone?: {yesNo common.done}"]

def SpecificHeader.lines : SpecificHeader → List String
  | .core extended childrenCount =>
    [s!"\textended?: {yesNo extended}", s!"\tchildren count: {childrenCount}"]
  | .leaf | .unknown => []

def ChildEntry.line (child : ChildEntry) : String :=
  s!"\tchild: seq. number {child.seqNumber}, start {child.start}"

def Interval.line (interval : Interval) (block : Bytes) : String :=
  let range := s!"[{interval.start}, {interval.stop}]"
  let value := interval.interpret block
  s!"\tinterval: attribute {interval.attributeId}, {interval.valueType}, {range}: {value}"

/-- Every field of a record. The block it was decoded from shows its strings. -/
def NodeRecord.lines (record : NodeRecord) (block : Bytes) : List String :=
  record.toCommonHeader.lines ++ record.specific.lines ++
    record.children.map ChildEntry.line ++ record.intervals.map (·.line block)

/-- The part of a dump about one node. -/
def DecodedNode.lines (node : DecodedNode) (index : Nat) (block : Bytes) : List String :=
  s!"node {index}:" :: (node.issue.map fun issue => s!"\terror: {issue.message}").toList ++
    node.record.lines block

/-- A dump that is built one node at a time. -/
structure Dump where
  lines : Array String

namespace Dump

def ofHeader (header : TreeHeader) : Dump :=
  ⟨("tree header:" :: header.lines).toArray⟩

def add (dump : Dump) (index : Nat) (node : DecodedNode) (block : Bytes) : Dump :=
  ⟨dump.lines ++ node.lines index block⟩

def text (dump : Dump) : String :=
  unlines dump.lines.toList

end Dump

namespace HistoryFile

/-- The dump of the whole file, if all its nodes can be read. -/
def dump (file : HistoryFile) : Attempt String := do
  let dump ← file.walk.foldlM (fun dump visit => do
    let node ← visit.attempt
    let block ← file.block visit.index
    return dump.add visit.index.toNat node block) (Dump.ofHeader file.header)
  return dump.text

end HistoryFile

end HistoryTree
