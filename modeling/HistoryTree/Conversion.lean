import HistoryTree.Dump
import HistoryTree.Tree.Graph
import HistoryTree.Tree.Index

/-!
# Conversions

A conversion goes through a file once. It reports every field as progress, builds the
document asked for on the way, and in the end compares the nodes with one another.
The progress and the notices up to a failure are kept.
-/

namespace HistoryTree

/-- What a file can be converted to. -/
inductive DocumentForm where
  | graph
  | dump
  deriving DecidableEq, Repr

/-- A document that is built one node at a time. -/
inductive Document where
  | graph (graph : Graph)
  | dump (dump : Dump)

namespace Document

/-- The document of a file of which no node has been read. -/
def ofHeader (form : DocumentForm) (header : TreeHeader) : Document :=
  match form with
  | .graph => .graph .empty
  | .dump => .dump (.ofHeader header)

def add (document : Document) (index : UInt32) (node : DecodedNode) (block : Bytes) : Document :=
  match document with
  | .graph begun => .graph (begun.add node.record)
  | .dump begun => .dump (begun.add index.toNat node block)

def text : Document → String
  | .graph built => built.text
  | .dump built => built.text

end Document

inductive ConversionError where
  | treeHeader (cause : DecodeError)
  | node (index : UInt32) (cause : DecodeError)
  deriving DecidableEq, Repr

namespace ConversionError

/-- What could not be done. -/
def what : ConversionError → String
  | .treeHeader _ => "Failed to read tree header"
  | .node index _ => s!"Failed to read node {index}"

/-- Why it could not be done. -/
def cause : ConversionError → DecodeError
  | .treeHeader cause => cause
  | .node _ cause => cause

def chain (error : ConversionError) : List String :=
  [error.what, error.cause.message]

end ConversionError

/-- A conversion that is over. -/
structure Conversion where
  /-- The lines of the progress. -/
  progress : List String
  notices : List Notice
  output : Except ConversionError String

/-- A conversion under way. -/
structure Draft where
  progress : Array String
  notices : Array Notice
  document : Document
  records : Array NodeRecord

namespace Draft

def readingHeader : String := "> reading tree header..."

def readingNode (index : UInt32) : String := s!"> reading node {index}..."

def writingOutput : DocumentForm → String
  | .graph => "> writing dot output..."
  | .dump => "> writing text output..."

/-- The progress on a node after the line that announces it. -/
def nodeProgress (node : DecodedNode) (block : Bytes) : List String :=
  match node.issue with
  | some (.unknownNodeType tag) => s!"error: unknown type {tag}" :: node.record.lines block
  | _ => node.record.lines block

/-- The conversion of a file whose header has been read. -/
def ofFile (file : HistoryFile) (notices : List Notice) (form : DocumentForm) : Draft where
  progress := (readingHeader :: file.header.lines).toArray
  notices :=
    if file.header.hasExpectedMagic then notices.toArray
    else notices.toArray.push (.unexpectedMagic file.header.magic)
  document := .ofHeader form file.header
  records := #[]

/-- Announces the block that a visit attempts to decode. -/
def announce (draft : Draft) (visit : Visit) : Draft :=
  { draft with
    progress := draft.progress.push (readingNode visit.index)
    notices := draft.notices ++ visit.attempt.notices }

def add (draft : Draft) (index : UInt32) (node : DecodedNode) (block : Bytes) : Draft :=
  { draft with
    progress := draft.progress ++ nodeProgress node block
    document := draft.document.add index node block
    records := draft.records.push node.record }

def fail (draft : Draft) (error : ConversionError) : Conversion where
  progress := draft.progress.toList
  notices := draft.notices.toList
  output := .error error

/-- Compares the nodes with one another and hands over the document. -/
def finish (draft : Draft) (form : DocumentForm) (rootSeq : SeqNumber) : Conversion :=
  let findings := (TreeIndex.ofRecords draft.records.toList).findings rootSeq
  { progress := draft.progress.toList ++ [writingOutput form]
    notices := draft.notices.toList ++ findings.map .inconsistency
    output := .ok draft.document.text }

/-- A visited node with the block it was decoded from. -/
def readNode (file : HistoryFile) (visit : Visit) : Except DecodeError (DecodedNode × Bytes) := do
  let node ← visit.attempt.result
  let block ← file.block visit.index
  return (node, block)

/-- Goes on through the visits of a walk. -/
def readNodes (file : HistoryFile) (form : DocumentForm) (draft : Draft) :
    List Visit → Conversion
  | [] => draft.finish form file.header.rootSeq
  | visit :: rest =>
    let draft := draft.announce visit
    match readNode file visit with
    | .error cause => draft.fail (.node visit.index cause)
    | .ok (node, block) => readNodes file form (draft.add visit.index node block) rest

end Draft

/-- Converts the bytes of a whole file. -/
def convert (data : Bytes) (form : DocumentForm) : Conversion :=
  let attempt := HistoryFile.parse data
  match attempt.result with
  | .error cause =>
    { progress := [Draft.readingHeader]
      notices := attempt.notices
      output := .error (.treeHeader cause) }
  | .ok file => Draft.readNodes file form (.ofFile file attempt.notices form) file.walk

end HistoryTree
