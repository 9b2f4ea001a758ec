import HistoryTree.Command.Arguments
import HistoryTree.Conversion

/-!
# Running the command

The command reads one file, converts it and writes one file. It reaches the world only
through an `Access`, and writes only after the whole conversion has succeeded. The
progress is printed before the file is written.
-/

namespace HistoryTree.Command

/-- A refusal of the operating system. -/
structure OsError where
  code : Nat
  description : String
  deriving DecidableEq, Repr

instance : ToString OsError where
  toString error := s!"{error.description} (os error {error.code})"

/-- What a run can do to the world. -/
structure Access (m : Type → Type) where
  /-- Reads a whole file. -/
  read (path : String) : m (Except OsError Bytes)
  /-- Writes a whole file, which need not exist. -/
  write (path : String) (data : Bytes) : m (Except OsError Unit)
  /-- Adds to the standard output. -/
  print (text : String) : m Unit
  /-- Adds to the standard error. -/
  complain (text : String) : m Unit

def versionText : String := "htf2dot 0.1.0\n"

def usageLine : String := "Usage: htf2dot [OPTIONS] <HTF> <DOT>"

def helpText : String := unlines [
  "Creates a Graphviz dot file from a history tree file. Do not use this with a large history " ++
    "tree file: it is read into memory at once",
  "",
  usageLine,
  "",
  "Arguments:",
  "  <HTF>  History tree file (input)",
  "  <DOT>  Dot file (output)",
  "",
  "Options:",
  "      --text     Write a textual dump of every node instead of a dot graph",
  "  -h, --help     Print help",
  "  -V, --version  Print version"]

/-- The report of a failure: what could not be done, and why. -/
def failureText (what why : String) : String :=
  unlines [s!"Error: {what}", "", "Caused by:", s!"    {why}"]

def refusalText (error : UsageError) : String :=
  unlines [s!"error: {error.message}", "", usageLine, "", "For more information, try '--help'."]

def Arguments.form (arguments : Arguments) : DocumentForm :=
  if arguments.text then .dump else .graph

variable {m : Type → Type} [Monad m]

/-- Ends a run that failed. -/
def fail (access : Access m) (what why : String) : m UInt32 := do
  access.complain (failureText what why)
  return 1

/-- Converts one file to another and gives the exit code. -/
def runConversion (access : Access m) (arguments : Arguments) : m UInt32 := do
  match ← access.read arguments.input with
  | .error cause => fail access s!"Failed to read {arguments.input}" (toString cause)
  | .ok data =>
    let conversion := convert data arguments.form
    access.print (unlines conversion.progress)
    match conversion.output with
    | .error error => fail access error.what error.cause.message
    | .ok output =>
      match ← access.write arguments.output (Utf8.encode output).toArray with
      | .error cause => fail access s!"Failed to write {arguments.output}" (toString cause)
      | .ok () =>
        access.print "> done.\n"
        return 0

/-- Runs the command and gives the exit code. -/
def run (access : Access m) (arguments : List String) : m UInt32 :=
  match Request.ofArguments arguments with
  | .error error => do
    access.complain (refusalText error)
    return 2
  | .ok .help => do
    access.print helpText
    return 0
  | .ok .version => do
    access.print versionText
    return 0
  | .ok (.convert arguments) => runConversion access arguments

end HistoryTree.Command
