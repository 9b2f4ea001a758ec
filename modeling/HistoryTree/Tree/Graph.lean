import HistoryTree.Record.Node

/-!
# Graphs in the dot language

The shape of a tree as Graphviz reads it: the root as a lone node, every other node
as an edge from its parent.
-/

namespace HistoryTree

inductive Statement where
  | node (seq : SeqNumber)
  | edge (parent child : SeqNumber)
  deriving DecidableEq, Repr

namespace Statement

def ofRecord (record : NodeRecord) : Statement :=
  match record.parent with
  | .root => .node record.seqNumber
  | .childOf parent => .edge parent record.seqNumber

instance : ToString Statement where
  toString
    | .node seq => s!"\n\t\"{seq}\";"
    | .edge parent child => s!"\n\t\"{parent}\" -> \"{child}\";"

end Statement

/-- A graph that is built one record at a time. -/
structure Graph where
  statements : Array Statement

namespace Graph

def preamble : String :=
  "digraph hf \x7b\n\tsize=\"6,6\";\n\tnode [color=lightblue2, style=filled];\n"

def closing : String := "\n\x7d\n"

def empty : Graph :=
  ⟨#[]⟩

def add (graph : Graph) (record : NodeRecord) : Graph :=
  ⟨graph.statements.push (.ofRecord record)⟩

def text (graph : Graph) : String :=
  preamble ++ String.join (graph.statements.toList.map toString) ++ closing

/-- The text of the graph of all records. -/
def render (records : List NodeRecord) : String :=
  (records.foldl add empty).text

end Graph

end HistoryTree
