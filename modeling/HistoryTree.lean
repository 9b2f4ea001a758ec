import HistoryTree.Main
import HistoryTree.Proofs.Block.Declared
import HistoryTree.Proofs.Block.NormalForm
import HistoryTree.Proofs.File.RoundTrip
import HistoryTree.Random.SplitMix
import HistoryTree.Random.Tree
import HistoryTree.Command.FileSystem
import HistoryTree.Command.Session
import HistoryTree.Proofs.Tree.Findings
import HistoryTree.Proofs.Block.Truncation
import HistoryTree.Proofs.File.Decodings
import HistoryTree.Proofs.Tree.Rooted
import HistoryTree.Proofs.File.Walkers
import HistoryTree.Proofs.Conversion
import HistoryTree.Proofs.Block.Strings
import HistoryTree.Proofs.Tree.Report
import HistoryTree.Proofs.Random.File
import HistoryTree.Proofs.Block.Reads
import HistoryTree.Proofs.Block.Room
import HistoryTree.Proofs.Block.Outcome
import HistoryTree.Proofs.File.Extension
import HistoryTree.Proofs.File.UnknownTag
import HistoryTree.Proofs.File.Stored
import HistoryTree.Proofs.File.AddressSpace
import HistoryTree.Proofs.File.Influence
import HistoryTree.Proofs.File.Reach
import HistoryTree.Proofs.Tree.Drawing
import HistoryTree.Proofs.Dump.Fields
import HistoryTree.Proofs.Value
import HistoryTree.Proofs.File.Notices
import HistoryTree.Proofs.Command.FileSystem
import HistoryTree.Proofs.Command.Run
import HistoryTree.Proofs.Command.Arguments
import HistoryTree.Proofs.Bytes.Accesses
import HistoryTree.Proofs.Block.BlockSize
import HistoryTree.Proofs.Command.Session
