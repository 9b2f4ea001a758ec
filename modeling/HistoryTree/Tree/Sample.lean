import HistoryTree.Record.Node

/-!
# A small tree
-/

namespace HistoryTree

/-- A core node as the root and one leaf as its child. -/
def twoNodeTree : List NodeRecord := [
  { kind := .core
    start := 0
    stop := 100
    seqNumber := ⟨0⟩
    parent := .root
    intervalCount := 0
    varDataOffset := 0
    done := true
    specific := .core false 1
    children := [⟨⟨1⟩, 0⟩]
    intervals := [] },
  { kind := .leaf
    start := 0
    stop := 100
    seqNumber := ⟨1⟩
    parent := .childOf ⟨0⟩
    intervalCount := 0
    varDataOffset := 0
    done := true
    specific := .leaf
    children := []
    intervals := [] }]

end HistoryTree
