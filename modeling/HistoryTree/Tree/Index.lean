import HistoryTree.Notice
import HistoryTree.Record.Node
import Std.Data.TreeMap

/-!
# Index of parent links

Decoding does not compare nodes with one another. The index does: it takes records
in walk order and keeps where each number was first seen, and who names whom as
parent. Parents are looked up when the index is asked, so a child may come first.
-/

namespace HistoryTree

instance : Std.TransOrd SeqNumber :=
  inferInstanceAs (Std.TransCmp (compareOn SeqNumber.value))

instance : Std.LawfulEqOrd SeqNumber where
  eq_of_compare {left right} h := by
    have hvalue : left.value = right.value := Std.LawfulEqOrd.eq_of_compare h
    cases left
    cases right
    simpa using hvalue

/-- What has been reported so far. -/
structure Report where
  findings : Array Finding
  /-- Set with every finding. -/
  found : Bool

namespace Report

def empty : Report :=
  ⟨#[], false⟩

def add (report : Report) (finding : Finding) : Report where
  findings := report.findings.push finding
  found := true

@[simp]
theorem findings_add (report : Report) (finding : Finding) :
    (report.add finding).findings.toList = report.findings.toList ++ [finding] :=
  Array.toList_push

end Report

structure TreeIndex where
  /-- The position of the first record with each number. -/
  positions : Std.TreeMap SeqNumber Nat
  /-- The children of each parent, in walk order. -/
  children : Std.TreeMap SeqNumber (Array SeqNumber)
  roots : Array SeqNumber
  /-- Numbers that had been seen before, once for each further use. -/
  duplicates : Array SeqNumber

namespace TreeIndex

def empty : TreeIndex :=
  ⟨∅, ∅, #[], #[]⟩

/-- Notes the number of a record at `position`. -/
def insertNumber (index : TreeIndex) (position : Nat) (seq : SeqNumber) : TreeIndex :=
  if index.positions.contains seq then
    { index with duplicates := index.duplicates.push seq }
  else
    { index with positions := index.positions.insert seq position }

/-- Notes what a record says of its parent. -/
def insertLink (index : TreeIndex) (seq : SeqNumber) (parent : ParentRef) : TreeIndex :=
  match parent with
  | .root => { index with roots := index.roots.push seq }
  | .childOf parent =>
    let siblings := index.children.getD parent #[]
    { index with children := index.children.insert parent (siblings.push seq) }

def insert (index : TreeIndex) (position : Nat) (record : NodeRecord) : TreeIndex :=
  (index.insertNumber position record.seqNumber).insertLink record.seqNumber record.parent

/-- The index of records in walk order, each at its place in the list. -/
def ofRecords (records : List NodeRecord) : TreeIndex :=
  records.zipIdx.foldl (fun index entry => index.insert entry.2 entry.1) empty

/-- How many different numbers there are. -/
def size (index : TreeIndex) : Nat :=
  index.positions.size

def isEmpty (index : TreeIndex) : Bool :=
  index.positions.isEmpty

def position? (index : TreeIndex) (seq : SeqNumber) : Option Nat :=
  index.positions[seq]?

/-- The root, if there is exactly one. -/
def root? (index : TreeIndex) : Option SeqNumber :=
  match index.roots.toList with
  | [root] => some root
  | _ => none

def childrenOf (index : TreeIndex) (parent : SeqNumber) : List SeqNumber :=
  (index.children.getD parent #[]).toList

/-- Nodes whose parent is not among the records, each with that parent, by
ascending parent. -/
def orphans (index : TreeIndex) : List (SeqNumber × SeqNumber) :=
  index.children.toList.flatMap fun (parent, children) =>
    if index.positions.contains parent then []
    else children.toList.map fun child => (child, parent)

/-- Reports what is wrong about the roots. Without any record a root is not missed. -/
def reportRoots (index : TreeIndex) (rootSeq : SeqNumber) : Report :=
  match index.roots.toList with
  | [] => if index.isEmpty then .empty else Report.empty.add .noRoot
  | [root] => if root = rootSeq then .empty else Report.empty.add (.otherRoot root rootSeq)
  | roots => Report.empty.add (.severalRoots roots)

/-- Reports everything that does not look like a single tree rooted at `rootSeq`. -/
def report (index : TreeIndex) (rootSeq : SeqNumber) : Report :=
  let afterNumbers := index.duplicates.foldl (fun report seq => report.add (.sharedNumber seq))
    (index.reportRoots rootSeq)
  index.orphans.foldl (fun report link => report.add (.orphan link.1 link.2)) afterNumbers

def findings (index : TreeIndex) (rootSeq : SeqNumber) : List Finding :=
  (index.report rootSeq).findings.toList

/-- Whether there was anything to report. -/
def hasFindings (index : TreeIndex) (rootSeq : SeqNumber) : Bool :=
  (index.report rootSeq).found

end TreeIndex

end HistoryTree
