import HistoryTree.Command.Session
import HistoryTree.Proofs.Command.FileSystem
import HistoryTree.Proofs.Command.Run

/-!
# What runs do to a session

In a session several paths can lead to one place, and a place can be a stream of the run
itself. A write changes at most the place that its path leads to (`Session.Written`), and
what it puts in a file is read by every path that leads there
(`Session.read_of_takesFile`). A run over a session ends as one over a directory does,
with the whole result at the output path or with all files as they were
(`Session.runConversion_allOrNothing`). After any number of runs, what a path reads is
what it read before, unless one of the output paths leads to the same place
(`Session.read_runs`).
-/

namespace HistoryTree.Command

namespace Session

variable {session after : Session} {path : String} {data : Bytes} {place : Location}

/-! ## Writes -/

/-- What a write leaves if it succeeds. -/
inductive Written (session : Session) (path : String) (data : Bytes) : Session → Prop
  | file (place : Location) (leads : session.files.follow true path = .ok place)
      (takes : session.files.TakesFile place) :
    Written session path data { session with files := session.files.insert place (.file data) }
  | vanished (place : Location) (leads : session.files.follow true path = .ok place)
      (takes : (∃ endless full, session.files.lookup? place = some (.device endless full)) ∨
        session.files.lookup? place = some (.stream .input)) :
    Written session path data session
  | printed (place : Location) (leads : session.files.follow true path = .ok place)
      (stream : session.files.lookup? place = some (.stream .output)) :
    Written session path data (session.print data)
  | complained (place : Location) (leads : session.files.follow true path = .ok place)
      (stream : session.files.lookup? place = some (.stream .errors)) :
    Written session path data (session.complain data)

theorem written_of_write (h : session.write path data = .ok after) :
    session.Written path data after := by
  rw [write] at h
  obtain ⟨place, hleads, hplace⟩ := bind_eq_ok_iff.mp h
  split at hplace
  next hnothing =>
    split at hplace
    · contradiction
    obtain rfl := Except.ok.inj hplace
    exact .file place hleads fun entry hentry => by
      rw [hnothing] at hentry
      contradiction
  next => contradiction
  next old hfile =>
    obtain rfl := Except.ok.inj hplace
    exact .file place hleads fun entry hentry => ⟨old, Option.some.inj (hentry.symm.trans hfile)⟩
  next endless full hdevice =>
    split at hplace
    · contradiction
    obtain rfl := Except.ok.inj hplace
    exact .vanished place hleads (Or.inl ⟨endless, full, hdevice⟩)
  next hstream =>
    obtain rfl := Except.ok.inj hplace
    exact .vanished place hleads (Or.inr hstream)
  next hstream =>
    obtain rfl := Except.ok.inj hplace
    exact .printed place hleads hstream
  next hstream =>
    obtain rfl := Except.ok.inj hplace
    exact .complained place hleads hstream
  next => contradiction
  next => contradiction

/-- Where nothing is, a file can be created unless that is forbidden in the directory. -/
theorem write_of_takesFile (session : Session) (hleads : session.files.follow true path = .ok place)
    (htakes : session.files.TakesFile place)
    (hopen : session.files.lookup? place.dropLast ≠ some (.directory true)) (data : Bytes) :
    session.write path data =
      .ok { session with files := session.files.insert place (.file data) } := by
  rw [write, hleads, ok_bind]
  cases hentry : session.files.lookup? place with
  | none =>
    simp only
    rw [if_neg hopen]
    rfl
  | some entry =>
    obtain ⟨old, rfl⟩ := htakes entry hentry
    rfl

/-! ## What is kept -/

/-- Only files were changed, and only where one of the paths leads. -/
structure Keeps (before after : Session) (paths : List String) : Prop where
  tree : before.files.SharesTree after.files
  input_eq : after.input = before.input
  lookup?_eq (place : Location)
      (h : ∀ path ∈ paths, before.files.follow true path ≠ .ok place) :
    after.files.lookup? place = before.files.lookup? place

namespace Keeps

variable {before middle : Session} {paths others : List String}

theorem of_same (before after : Session) (hfiles : after.files = before.files)
    (hinput : after.input = before.input) (paths : List String) : before.Keeps after paths where
  tree := by
    rw [hfiles]
    exact .refl before.files
  input_eq := hinput
  lookup?_eq place _ := by rw [hfiles]

theorem print (session : Session) (data : Bytes) : session.Keeps (session.print data) [] :=
  .of_same session (session.print data) rfl rfl []

theorem complain (session : Session) (data : Bytes) : session.Keeps (session.complain data) [] :=
  .of_same session (session.complain data) rfl rfl []

theorem trans (h : before.Keeps middle paths) (hnext : middle.Keeps after others) :
    before.Keeps after (paths ++ others) where
  tree := h.tree.trans hnext.tree
  input_eq := hnext.input_eq.trans h.input_eq
  lookup?_eq place hplace := by
    have hfirst : ∀ path ∈ paths, before.files.follow true path ≠ .ok place := fun path hpath =>
      hplace path (List.mem_append_left _ hpath)
    rw [← h.lookup?_eq place hfirst]
    refine hnext.lookup?_eq place fun path hpath hfollow => ?_
    exact hplace path (List.mem_append_right _ hpath) (h.tree.follow_creating_iff.mp hfollow)

end Keeps

theorem Written.keeps (h : session.Written path data after) : session.Keeps after [path] := by
  cases h with
  | file place leads takes =>
    exact {
      tree := takes.sharesTree_insert data
      input_eq := rfl
      lookup?_eq := fun other hother => takes.lookup?_insert_of_ne data fun hsame =>
        hother path List.mem_cons_self (hsame ▸ leads) }
  | vanished => exact .of_same session session rfl rfl _
  | printed => exact .of_same session (session.print data) rfl rfl _
  | complained => exact .of_same session (session.complain data) rfl rfl _

/-! ## Reads -/

theorem read_print (session : Session) (data : Bytes) (path : String) :
    (session.print data).read path = session.read path := rfl

/-- A read that succeeds depends only on what is at the place that its path leads to. -/
theorem Keeps.read {before : Session} {paths : List String} (h : before.Keeps after paths)
    {old : Bytes} (hread : before.read path = .ok old)
    (hother : ∀ output ∈ paths, before.files.follow true output ≠
      before.files.follow false path) : after.read path = .ok old := by
  rw [Session.read] at hread ⊢
  obtain ⟨place, hplace, hold⟩ := bind_eq_ok_iff.mp hread
  have hlookup : after.files.lookup? place = before.files.lookup? place :=
    h.lookup?_eq place fun output houtput hleads =>
      hother output houtput (hleads.trans hplace.symm)
  rw [h.tree.follow_of_lookup? hlookup hplace, ok_bind, hlookup, h.input_eq]
  exact hold

/-- By whichever path a file was put there, each path that leads to its place reads it. -/
theorem read_of_takesFile (hleads : session.files.follow true path = .ok place)
    (htakes : session.files.TakesFile place) (data : Bytes) :
    read { session with files := session.files.insert place (.file data) } path = .ok data := by
  rw [read, (htakes.sharesTree_insert data).follow_of_creating hleads, ok_bind,
    htakes.lookup?_insert_self]
  rfl

example :
    ((start (.standard ["work"])).write "/proc/self/cwd/../work//new" #[7]).bind (·.read "new") =
      .ok #[7] := by
  cbv

/-! ## Runs -/

/-- How a conversion to `form` may end in a session. -/
structure AllOrNothing (session : Session) (arguments : Arguments) (form : DocumentForm)
    (ended : UInt32 × Session) : Prop where
  unread (cause : OsError) (read : session.read arguments.input = .error cause) :
    ended = (1, session.complain (unlines
      [s!"Error: Failed to read {arguments.input}", "", "Caused by:",
        s!"    {cause}"]).toUTF8.data)
  unconverted (data : Bytes) (error : ConversionError)
      (read : session.read arguments.input = .ok data)
      (converted : (convert data form).output = .error error) :
    ended = (1, (session.print (unlines (convert data form).progress).toUTF8.data).complain
      (unlines
        [s!"Error: {error.what}", "", "Caused by:", s!"    {error.cause.message}"]).toUTF8.data)
  unwritten (data : Bytes) (text : String) (cause : OsError)
      (read : session.read arguments.input = .ok data)
      (converted : (convert data form).output = .ok text)
      (refused : (session.print (unlines (convert data form).progress).toUTF8.data).write
        arguments.output text.toUTF8.data = .error cause) :
    ended = (1, (session.print (unlines (convert data form).progress).toUTF8.data).complain
      (unlines
        [s!"Error: Failed to write {arguments.output}", "", "Caused by:",
          s!"    {cause}"]).toUTF8.data)
  written (data : Bytes) (text : String) (after : Session)
      (read : session.read arguments.input = .ok data)
      (converted : (convert data form).output = .ok text)
      (granted : (session.print (unlines (convert data form).progress).toUTF8.data).write
        arguments.output text.toUTF8.data = .ok after) :
    ended = (0, after.print "> done.\n".toUTF8.data)
  /-- A run that fails leaves all files. -/
  failed (h : ended.1 ≠ 0) : ended.2.files = session.files
  keeps : session.Keeps ended.2 [arguments.output]

section Ways

variable {arguments : Arguments} {cause : OsError} {text : String}

theorem read_access (path : String) (session : Session) :
    access.read path session = (session.read path, session) := rfl

theorem print_access (text : String) (session : Session) :
    access.print text session = ((), session.print text.toUTF8.data) := by
  rw [← Utf8.toArray_encode]
  rfl

theorem fail_access (what why : String) (session : Session) :
    fail access what why session = (1, session.complain (failureText what why).toUTF8.data) := by
  rw [← Utf8.toArray_encode]
  rfl

theorem write_access_of_error (h : session.write path data = .error cause) :
    access.write path data session = (.error cause, session) := by
  simp only [access, h]

theorem write_access_of_ok (h : session.write path data = .ok after) :
    access.write path data session = (.ok (), after) := by
  simp only [access, h]

theorem runConversion_unread (hread : session.read arguments.input = .error cause) :
    runConversion access arguments session = (1, session.complain
      (failureText s!"Failed to read {arguments.input}" (toString cause)).toUTF8.data) := by
  have hanswer : access.read arguments.input session = (.error cause, session) := by
    rw [read_access, hread]
  rw [runConversion_of_unread hanswer, fail_access]

variable (hread : session.read arguments.input = .ok data)

include hread

theorem read_access_of_ok : access.read arguments.input session = (.ok data, session) := by
  rw [read_access, hread]

theorem runConversion_unconverted {error : ConversionError}
    (hconvert : (convert data arguments.form).output = .error error) :
    runConversion access arguments session =
      (1, (session.print (unlines (convert data arguments.form).progress).toUTF8.data).complain
        (failureText error.what error.cause.message).toUTF8.data) := by
  rw [runConversion_of_unconverted (read_access_of_ok hread) (print_access _ session) hconvert,
    fail_access]

variable (hconvert : (convert data arguments.form).output = .ok text)

include hconvert

theorem runConversion_unwritten
    (hwrite : (session.print (unlines (convert data arguments.form).progress).toUTF8.data).write
      arguments.output text.toUTF8.data = .error cause) :
    runConversion access arguments session =
      (1, (session.print (unlines (convert data arguments.form).progress).toUTF8.data).complain
        (failureText s!"Failed to write {arguments.output}" (toString cause)).toUTF8.data) := by
  rw [runConversion_of_unwritten (read_access_of_ok hread) (print_access _ session) hconvert
    (write_access_of_error hwrite), fail_access]

theorem runConversion_written
    (hwrite : (session.print (unlines (convert data arguments.form).progress).toUTF8.data).write
      arguments.output text.toUTF8.data = .ok after) :
    runConversion access arguments session = (0, after.print "> done.\n".toUTF8.data) := by
  rw [runConversion_of_written (read_access_of_ok hread) (print_access _ session) hconvert
    (write_access_of_ok hwrite), print_access]

end Ways

/-- A run fails and leaves all files, or it ends with a write to the output path. -/
theorem runConversion_cases (session : Session) (arguments : Arguments) :
    ((runConversion access arguments session).2.files = session.files ∧
        (runConversion access arguments session).2.input = session.input) ∨
      (runConversion access arguments session).1 = 0 ∧
        ∃ shown text after written, (session.print shown).Written arguments.output text after ∧
          (runConversion access arguments session).2 = after.print written := by
  cases hread : session.read arguments.input with
  | error cause =>
    rw [runConversion_unread hread]
    exact Or.inl ⟨rfl, rfl⟩
  | ok data =>
    cases hconvert : (convert data arguments.form).output with
    | error error =>
      rw [runConversion_unconverted hread hconvert]
      exact Or.inl ⟨rfl, rfl⟩
    | ok text =>
      let shown := (unlines (convert data arguments.form).progress).toUTF8.data
      cases hwrite : (session.print shown).write arguments.output text.toUTF8.data with
      | error cause =>
        rw [runConversion_unwritten hread hconvert hwrite]
        exact Or.inl ⟨rfl, rfl⟩
      | ok after =>
        rw [runConversion_written hread hconvert hwrite]
        exact Or.inr ⟨rfl, shown, _, after, _, written_of_write hwrite, rfl⟩

theorem keeps_runConversion (session : Session) (arguments : Arguments) :
    session.Keeps (runConversion access arguments session).2 [arguments.output] := by
  rcases runConversion_cases session arguments with
    ⟨hfiles, hinput⟩ | ⟨-, shown, text, after, written, hwritten, hended⟩
  · exact .of_same session _ hfiles hinput _
  · rw [hended]
    exact ((Keeps.print session shown).trans hwritten.keeps).trans (.print after written)

theorem runConversion_allOrNothing (session : Session) (arguments : Arguments) :
    session.AllOrNothing arguments (if arguments.text then .dump else .graph)
      (runConversion access arguments session) where
  unread cause read := runConversion_unread read
  unconverted data error read converted := runConversion_unconverted read converted
  unwritten data text cause read converted refused :=
    runConversion_unwritten read converted refused
  written data text after read converted granted := runConversion_written read converted granted
  failed h := by
    rcases runConversion_cases session arguments with ⟨hfiles, -⟩ | ⟨hdone, -⟩
    · exact hfiles
    · exact absurd hdone h
  keeps := keeps_runConversion session arguments

/-- If the output path is one for a file, the conversion cannot fail any more once there is
a result, and each path that leads to the same place reads it. -/
theorem read_runConversion {arguments : Arguments} {text : String}
    (hread : session.read arguments.input = .ok data)
    (hconvert : (convert data (if arguments.text then .dump else .graph)).output = .ok text)
    (hleads : session.files.follow true arguments.output = .ok place)
    (htakes : session.files.TakesFile place)
    (hopen : session.files.lookup? place.dropLast ≠ some (.directory true))
    (hpath : session.files.follow true path = .ok place) :
    (runConversion access arguments session).1 = 0 ∧
      (runConversion access arguments session).2.read path = .ok text.toUTF8.data := by
  have hconvert : (convert data arguments.form).output = .ok text := hconvert
  have hwrite := write_of_takesFile
    (session.print (unlines (convert data arguments.form).progress).toUTF8.data) hleads htakes
    hopen text.toUTF8.data
  rw [runConversion_written hread hconvert hwrite]
  refine ⟨rfl, ?_⟩
  rw [read_print]
  exact read_of_takesFile hpath htakes _

/-! ## Any number of runs -/

/-- The path that a run with these arguments may write to. -/
def outputPaths (list : List String) : List String :=
  match Request.ofArguments list with
  | .ok (.convert arguments) => [arguments.output]
  | _ => []

/-- The session after some runs, each with its own arguments. -/
def runs (session : Session) (lists : List (List String)) : Session :=
  lists.foldl (fun session list => (run access list session).2) session

theorem keeps_say (text : String) (exitCode : UInt32) (session : Session) :
    session.Keeps
      ((do access.print text; return exitCode : StateM Session UInt32) session).2 [] :=
  .print session (Utf8.encode text).toArray

theorem keeps_run (session : Session) (list : List String) :
    session.Keeps (run access list session).2 (outputPaths list) := by
  rw [run, outputPaths]
  cases Request.ofArguments list with
  | error error => exact .complain session (Utf8.encode (refusalText error)).toArray
  | ok request =>
    cases request with
    | help => exact keeps_say helpText 0 session
    | version => exact keeps_say versionText 0 session
    | convert arguments => exact keeps_runConversion session arguments

/-- By induction on the runs. The paths of later ones lead where they led at the start,
since files alone were changed in between. -/
theorem keeps_runs (session : Session) (lists : List (List String)) :
    session.Keeps (session.runs lists) (lists.flatMap outputPaths) := by
  induction lists generalizing session with
  | nil => exact .of_same session session rfl rfl _
  | cons list lists ih => exact (keeps_run session list).trans (ih (run access list session).2)

theorem read_runs {lists : List (List String)} (hread : session.read path = .ok data)
    (hother : ∀ list ∈ lists, ∀ output ∈ outputPaths list,
      session.files.follow true output ≠ session.files.follow false path) :
    (session.runs lists).read path = .ok data := by
  refine (keeps_runs session lists).read hread fun output houtput => ?_
  obtain ⟨list, hlist, hpath⟩ := List.mem_flatMap.mp houtput
  exact hother list hlist output hpath

end Session

end HistoryTree.Command
