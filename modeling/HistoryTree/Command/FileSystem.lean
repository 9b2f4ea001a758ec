import HistoryTree.Command.Run

/-!
# File systems as values

Everything in a file system has a place, given by the names on the way from the root.
A path is followed as the operating system does: every part but the last has to lead
to a directory, and the last one names what is to be read or written. Nobody is denied
access. What stands at each place after a change is said by `lookup?_insert`.
-/

namespace HistoryTree.Command

namespace OsError

def noSuchFile : OsError := ⟨2, "No such file or directory"⟩
def noSuchDevice : OsError := ⟨6, "No such device or address"⟩
def outOfMemory : OsError := ⟨12, "Cannot allocate memory"⟩
def notDirectory : OsError := ⟨20, "Not a directory"⟩
def isDirectory : OsError := ⟨21, "Is a directory"⟩
def noSpace : OsError := ⟨28, "No space left on device"⟩
def nameTooLong : OsError := ⟨36, "File name too long"⟩
def tooManyLinks : OsError := ⟨40, "Too many levels of symbolic links"⟩

end OsError

/-- The names on the way from the root, the root itself being without any. -/
abbrev Location := List String

inductive Stream where
  | input
  | output
  | errors
  deriving DecidableEq, Repr

/-- What stands at a place. -/
inductive Entry where
  /-- In a sealed directory nothing can be created. -/
  | directory (sealed : Bool)
  | file (data : Bytes)
  /-- Reads as nothing, or as bytes without end. What is written vanishes, or does
  not fit. -/
  | device (endless full : Bool)
  /-- One of the streams of the run. -/
  | stream (stream : Stream)
  /-- Stands for what is at another place. -/
  | link (target : Location)
  /-- Cannot be opened. -/
  | closed (cause : OsError)
  deriving DecidableEq

structure FileSystem where
  /-- What there is besides the root. Of several entries for a place the first counts. -/
  entries : List (Location × Entry)
  /-- The directory that a path starts from unless it begins with a slash. -/
  working : Location

namespace FileSystem

def lookup? (system : FileSystem) (location : Location) : Option Entry :=
  if location = [] then some (.directory false) else system.entries.lookup location

/-- The file system with `entry` at a place, whatever stood there. -/
def insert (system : FileSystem) (location : Location) (entry : Entry) : FileSystem :=
  { system with
    entries := (location, entry) :: system.entries.filter fun old => old.1 != location }

theorem lookup?_insert (system : FileSystem) {location : Location} (h : location ≠ [])
    (entry : Entry) (other : Location) :
    (system.insert location entry).lookup? other =
      if other = location then some entry else system.lookup? other := by
  unfold lookup?
  by_cases hsame : other = location
  · simp [insert, hsame, h]
  · have hfilter : ∀ entries : List (Location × Entry),
        (entries.filter fun old => old.1 != location).lookup other = entries.lookup other := by
      intro entries
      induction entries with
      | nil => rfl
      | cons old rest ih =>
        obtain ⟨place, value⟩ := old
        by_cases hplace : place = location
        · have hother : (other == place) = false := by simpa [hplace] using hsame
          rw [List.filter_cons_of_neg (by simpa using hplace), ih, List.lookup_cons, hother]
        · rw [List.filter_cons_of_pos (by simpa using hplace), List.lookup_cons, ih,
            ← List.lookup_cons]
    have hother : (other == location) = false := by simpa using hsame
    rw [insert, List.lookup_cons, hother, hfilter, if_neg hsame]

/-- The files of the working directory by name. -/
def workingFiles (system : FileSystem) : List (String × Bytes) :=
  system.entries.filterMap fun (location, entry) =>
    match entry, location.getLast? with
    | .file data, some name =>
      if location = system.working ++ [name] then some (name, data) else none
    | _, _ => none

/-! ## Paths -/

/-- The longest name that anything can have, in bytes. -/
def longestName : Nat := 255

/-- The longest path that can be followed, in bytes. -/
def longestPath : Nat := 4095

/-- The names between the slashes of a path. Slashes in a row count as one. -/
def pathParts (path : String) : List String :=
  ((path.toList.splitOn '/').filter (· ≠ [])).map String.ofList

/-- The place itself, or that which the link there stands for. A link is not followed
to another link. -/
def settle (system : FileSystem) (location : Location) : Location :=
  match system.lookup? location with
  | some (.link target) => target
  | _ => location

/-- Goes from a directory through a part of a path. -/
def enter (system : FileSystem) (here : Location) (part : String) : Except OsError Location :=
  if part = "." then .ok here
  else if part = ".." then .ok here.dropLast
  else if longestName < part.utf8ByteSize then .error .nameTooLong
  else
    let next := system.settle (here ++ [part])
    match system.lookup? next with
    | some (.directory _) => .ok next
    | some _ => .error .notDirectory
    | none => .error .noSuchFile

/-- The place that the last part of a path names in a directory, whether or not there is
anything. With a slash after its name a file can be neither read nor created. -/
def enterLast (system : FileSystem) (creating slash : Bool) (here : Location) (part : String) :
    Except OsError Location :=
  if part = "." ∨ part = ".." then system.enter here part
  else if creating ∧ slash then .error .isDirectory
  else if longestName < part.utf8ByteSize then .error .nameTooLong
  else
    let next := system.settle (here ++ [part])
    match slash, system.lookup? next with
    | false, _ | true, none | true, some (.directory _) => .ok next
    | true, some _ => .error .notDirectory

/-- Follows a path to the place that it leads to. -/
def follow (system : FileSystem) (creating : Bool) (path : String) : Except OsError Location := do
  if path = "" then
    throw .noSuchFile
  if longestPath < path.utf8ByteSize then
    throw .nameTooLong
  let start := if path.toList.head? = some '/' then [] else system.working
  let slash := path.toList.getLast? = some '/'
  match (pathParts path).getLast? with
  | none => return start
  | some last =>
    let parent ← (pathParts path).dropLast.foldlM system.enter start
    system.enterLast creating slash parent last

/-! ## The usual places -/

def usualDirectories : List String := [
  "bin", "boot", "dev", "dev/pts", "dev/shm", "etc", "home", "lib", "media", "mnt", "opt",
  "root", "run", "sbin", "srv", "sys", "tmp", "usr", "usr/bin", "usr/include", "usr/lib",
  "usr/local", "usr/local/bin", "usr/local/include", "usr/local/lib", "usr/local/sbin",
  "usr/local/share", "usr/sbin", "usr/share", "usr/src", "var", "var/cache", "var/lib",
  "var/log", "var/spool", "var/tmp"]

def usualDevices : List (String × Entry) := [
  ("dev/null", .device false false),
  ("dev/zero", .device true false),
  ("dev/full", .device true true),
  ("dev/random", .device true false),
  ("dev/urandom", .device true false),
  ("dev/tty", .closed .noSuchDevice),
  ("dev/stdin", .stream .input),
  ("dev/stdout", .stream .output),
  ("dev/stderr", .stream .errors),
  ("dev/fd", .link ["proc", "self", "fd"])]

/-- The places that show a run its own surroundings. -/
def ownPlaces (working : Location) : List (String × Entry) := [
  ("proc", .directory true),
  ("proc/self", .directory true),
  ("proc/self/cwd", .link working),
  ("proc/self/root", .link []),
  ("proc/self/fd", .directory true),
  ("proc/self/fd/0", .stream .input),
  ("proc/self/fd/1", .stream .output),
  ("proc/self/fd/2", .stream .errors)]

/-- The usual directories and devices, and an empty working directory. -/
def standard (working : Location) : FileSystem where
  entries :=
    (List.range working.length).map (fun above => (working.take (above + 1), .directory false)) ++
      usualDirectories.map (fun path => (pathParts path, .directory false)) ++
      (usualDevices ++ ownPlaces working).map fun (path, entry) => (pathParts path, entry)
  working

end FileSystem

end HistoryTree.Command
