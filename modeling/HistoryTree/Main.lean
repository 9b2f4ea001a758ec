import HistoryTree.Command.Run

/-!
# The command

Converts a history tree file to a Graphviz graph or a text dump.
-/

namespace HistoryTree.Command

/-- The number and the wording of a refusal. -/
def OsError.ofIO : IO.Error → OsError
  | .alreadyExists _ code details | .inappropriateType _ code details
  | .permissionDenied _ code details | .resourceExhausted _ code details
  | .invalidArgument _ code details => ⟨code.toNat, details⟩
  | .noFileOrDirectory _ code details | .interrupted _ code details =>
    ⟨code.toNat, details⟩
  | .otherError code details | .resourceBusy code details | .resourceVanished code details
  | .unsupportedOperation code details | .hardwareFault code details
  | .unsatisfiedConstraints code details | .illegalOperation code details
  | .protocolError code details | .timeExpired code details | .noSuchThing _ code details =>
    ⟨code.toNat, details⟩
  | .unexpectedEof => ⟨0, "unexpected end of file"⟩
  | .userError message => ⟨0, message⟩

def ioAccess : Access IO where
  read path := do
    match ← (IO.FS.readBinFile path).toBaseIO with
    | .ok bytes => return .ok bytes.data
    | .error error => return .error (.ofIO error)
  write path data := do
    match ← (IO.FS.writeBinFile path ⟨data⟩).toBaseIO with
    | .ok () => return .ok ()
    | .error error => return .error (.ofIO error)
  print text := do
    let output ← IO.getStdout
    output.putStr text
    output.flush
  complain text := do
    (← IO.getStderr).putStr text

end HistoryTree.Command

def main (arguments : List String) : IO UInt32 :=
  HistoryTree.Command.run HistoryTree.Command.ioAccess arguments
