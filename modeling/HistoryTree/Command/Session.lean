import HistoryTree.Command.FileSystem

/-!
# Sessions

A session is all that a run can see and change: the files and its three streams. Some
places of the file system are streams, so what is written there is printed.
-/

namespace HistoryTree.Command

structure Session where
  files : FileSystem
  /-- What is to be read from the standard input. -/
  input : Bytes
  /-- What the standard output has been given. -/
  output : Bytes
  /-- What the standard error has been given. -/
  errors : Bytes

namespace Session

/-- A session in which nothing has happened. -/
def start (files : FileSystem) : Session :=
  ⟨files, #[], #[], #[]⟩

def print (session : Session) (data : Bytes) : Session :=
  { session with output := session.output ++ data }

def complain (session : Session) (data : Bytes) : Session :=
  { session with errors := session.errors ++ data }

def read (session : Session) (path : String) : Except OsError Bytes := do
  let location ← session.files.follow false path
  match session.files.lookup? location with
  | none => throw .noSuchFile
  | some (.directory _) => throw .isDirectory
  | some (.file data) => return data
  | some (.device endless _) => if endless then throw .outOfMemory else return #[]
  | some (.stream .input) => return session.input
  | some (.stream _) => return #[]
  | some (.link _) => throw .tooManyLinks
  | some (.closed cause) => throw cause

/-- Writes a file, which need not exist. -/
def write (session : Session) (path : String) (data : Bytes) : Except OsError Session := do
  let location ← session.files.follow true path
  match session.files.lookup? location with
  | none =>
    if session.files.lookup? location.dropLast = some (.directory true) then throw .noSuchFile
    else return { session with files := session.files.insert location (.file data) }
  | some (.directory _) => throw .isDirectory
  | some (.file _) => return { session with files := session.files.insert location (.file data) }
  | some (.device _ full) => if full ∧ data ≠ #[] then throw .noSpace else return session
  | some (.stream .input) => return session
  | some (.stream .output) => return session.print data
  | some (.stream .errors) => return session.complain data
  | some (.link _) => throw .tooManyLinks
  | some (.closed cause) => throw cause

/-- Access to a session that is passed on from one step to the next. -/
def access : Access (StateM Session) where
  read path session := (session.read path, session)
  write path data session :=
    match session.write path data with
    | .ok written => (.ok (), written)
    | .error error => (.error error, session)
  print text session := ((), session.print (Utf8.encode text).toArray)
  complain text session := ((), session.complain (Utf8.encode text).toArray)

end Session

end HistoryTree.Command
