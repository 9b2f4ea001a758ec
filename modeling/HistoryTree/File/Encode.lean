import HistoryTree.Block.Encode
import HistoryTree.Format.Preamble

/-!
# Encoding a file
-/

namespace HistoryTree

/-- The preamble followed by one block for each record, whatever number of nodes the
header declares. -/
def encodeFile (header : TreeHeader) (records : List NodeRecord) : Except EncodeError Bytes :=
  records.foldlM (fun data record => do
    let block ← encodeBlock record [] header.blockSize header.maxChildren
    return data ++ block) header.encode

end HistoryTree
