/-!
# Command line arguments

The command declares two required paths and a flag, and no more than that. How a list of
arguments is matched with them is not its own doing: `Scan` assumes the rules of the
library that reads the arguments, clap 4, for two required positional values and one
flag that takes no value.

* The paths and the flag come in any order. An argument that starts with a dash is a path
  only if it is a lone dash or follows the first `--`.
* Help and version end the reading, whatever is missing or follows.
* Only the first reason to refuse the arguments, from left to right, is given. That a
  path is missing shows at the end, that it is empty when the next argument that is
  accepted has been read, or at the end.
-/

namespace HistoryTree.Command

/-- What the command is to do. -/
structure Arguments where
  input : String
  output : String
  /-- Whether a text dump is to be written instead of a graph. -/
  text : Bool
  deriving DecidableEq, Repr

inductive Request where
  | convert (arguments : Arguments)
  | help
  | version
  deriving DecidableEq, Repr

/-- Why arguments are refused. -/
inductive UsageError where
  | missingPath
  | unexpectedArgument (argument : String)
  | repeatedFlag
  | valueForFlag (argument : String)
  | emptyPath
  deriving DecidableEq, Repr

def UsageError.message : UsageError → String
  | .missingPath => "the following required arguments were not provided: <HTF> <DOT>"
  | .unexpectedArgument argument => s!"unexpected argument '{argument}' found"
  | .repeatedFlag => "the argument '--text' cannot be used multiple times"
  | .valueForFlag argument => s!"unexpected value in '{argument}' found; no more were expected"
  | .emptyPath => "a value is required but none was supplied"

/-- What an argument before `--` is. -/
inductive ArgumentKind where
  | path
  | endOfFlags
  | textFlag
  | help
  | version
  | flagWithValue
  | unknownFlag
  deriving DecidableEq, Repr

namespace ArgumentKind

/-- The kind of `--name` or `--name=value`, from what follows the dashes. -/
def ofLongFlag (flag : List Char) : ArgumentKind :=
  let name := flag.takeWhile (· ≠ '=')
  let kind :=
    if name = "text".toList then .textFlag
    else if name = "help".toList then .help
    else if name = "version".toList then .version
    else .unknownFlag
  if '=' ∈ flag ∧ kind ≠ .unknownFlag then .flagWithValue else kind

/-- A lone dash is a path. Of a bundle of short flags the first one counts. -/
def ofChars : List Char → ArgumentKind
  | ['-'] => .path
  | ['-', '-'] => .endOfFlags
  | '-' :: '-' :: flag => ofLongFlag flag
  | '-' :: 'h' :: _ => .help
  | '-' :: 'V' :: _ => .version
  | '-' :: _ => .unknownFlag
  | _ => .path

end ArgumentKind

/-- The arguments read so far, by the rules that are assumed of the library. -/
structure Scan where
  paths : List String
  text : Bool

namespace Scan

def empty : Scan :=
  ⟨[], false⟩

/-- Refuses an empty path as the latest one. -/
def checkLatest (scan : Scan) : Except UsageError Unit :=
  if scan.paths.getLast? = some "" then .error .emptyPath else .ok ()

def addPath (scan : Scan) (path : String) : Except UsageError Scan := do
  if 2 ≤ scan.paths.length then
    throw (.unexpectedArgument path)
  scan.checkLatest
  return { scan with paths := scan.paths ++ [path] }

def addTextFlag (scan : Scan) : Except UsageError Scan := do
  scan.checkLatest
  if scan.text then
    throw .repeatedFlag
  return { scan with text := true }

def finish (scan : Scan) : Except UsageError Request := do
  scan.checkLatest
  match scan.paths with
  | [input, output] => return .convert { input, output, text := scan.text }
  | _ => throw .missingPath

/-- Reads the rest of the arguments. -/
def read (scan : Scan) : List String → Except UsageError Request
  | [] => scan.finish
  | argument :: rest =>
    match ArgumentKind.ofChars argument.toList with
    | .path => do read (← scan.addPath argument) rest
    | .endOfFlags => do (← rest.foldlM addPath scan).finish
    | .textFlag => do read (← scan.addTextFlag) rest
    | .help => do
      scan.checkLatest
      return .help
    | .version => do
      scan.checkLatest
      return .version
    | .flagWithValue => throw (.valueForFlag argument)
    | .unknownFlag => throw (.unexpectedArgument argument)

end Scan

/-- Reads the arguments that follow the name of the command. -/
def Request.ofArguments (arguments : List String) : Except UsageError Request :=
  Scan.empty.read arguments

end HistoryTree.Command
