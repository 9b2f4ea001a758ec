import HistoryTree.Command.FileSystem
import HistoryTree.Proofs.Dump.Headings
import HistoryTree.Proofs.File.RoundTrip
import HistoryTree.Proofs.Text.Utf8
import Mathlib.Logic.Function.Basic

/-!
# What a run leaves behind

A run reads one file and writes one. Whatever the operating system refuses, and wherever the
conversion fails, the directory is left as it was until there is a whole result to be written;
and the line that ends the progress is printed only after that was written
(`run_allOrNothing`).
-/

namespace HistoryTree.Command

open Text

/-! ## Directories -/

/-- The content at each path where there is a file. -/
abbrev Directory := String → Option Bytes

/-- An operating system, which may refuse what it is asked for. -/
structure Host where
  /-- Why a file is not read. -/
  refusesRead : Directory → String → Option OsError
  /-- Why a file is not written, and what is at its path after that. -/
  refusesWrite : Directory → String → Bytes → Option (OsError × Option Bytes)

/-- A directory and what has been written to the two streams of a run. -/
structure World where
  files : Directory
  printed : String
  complained : String

namespace Host

def read (host : Host) (files : Directory) (path : String) : Except OsError Bytes :=
  match host.refusesRead files path, files path with
  | some cause, _ => .error cause
  | none, none => .error .noSuchFile
  | none, some data => .ok data

def write (host : Host) (files : Directory) (path : String) (data : Bytes) :
    Except OsError Unit × Directory :=
  match host.refusesWrite files path data with
  | some (cause, left) => (.error cause, Function.update files path left)
  | none => (.ok (), Function.update files path (some data))

def access (host : Host) : Access (StateM World) where
  read path world := (host.read world.files path, world)
  write path data world :=
    let (answer, files) := host.write world.files path data
    (answer, { world with files })
  print text world := ((), { world with printed := world.printed ++ text })
  complain text world := ((), { world with complained := world.complained ++ text })

theorem read_access (host : Host) (path : String) (world : World) :
    host.access.read path world = (host.read world.files path, world) := rfl

theorem write_access (host : Host) (path : String) (data : Bytes) (world : World) :
    host.access.write path data world =
      ((host.write world.files path data).1,
        { world with files := (host.write world.files path data).2 }) := rfl

theorem print_access (host : Host) (text : String) (world : World) :
    host.access.print text world = ((), { world with printed := world.printed ++ text }) := rfl

/-- A conversion ends with its exit code and the world that it leaves. -/
def runConversion (host : Host) (files : Directory) (arguments : Arguments) : UInt32 × World :=
  Command.runConversion host.access arguments ⟨files, "", ""⟩

/-- How a conversion to `form` may end: with its whole result at the output path, or with
nothing. -/
structure AllOrNothing (host : Host) (files : Directory) (arguments : Arguments)
    (form : DocumentForm) (ended : UInt32 × World) : Prop where
  unread (cause : OsError) (read : host.read files arguments.input = .error cause) :
    ended = (1, {
      files
      printed := ""
      complained := unlines
        [s!"Error: Failed to read {arguments.input}", "", "Caused by:", s!"    {cause}"] })
  unconverted (data : Bytes) (error : ConversionError)
      (read : host.read files arguments.input = .ok data)
      (converted : (convert data form).output = .error error) :
    ended = (1, {
      files
      printed := unlines (convert data form).progress
      complained := unlines
        [s!"Error: {error.what}", "", "Caused by:", s!"    {error.cause.message}"] })
  /-- Only what could not be written may have been damaged. -/
  unwritten (data : Bytes) (text : String) (cause : OsError) (left : Option Bytes)
      (read : host.read files arguments.input = .ok data)
      (converted : (convert data form).output = .ok text)
      (refused : host.refusesWrite files arguments.output text.toUTF8.data =
        some (cause, left)) :
    ended = (1, {
      files := Function.update files arguments.output left
      printed := unlines (convert data form).progress
      complained := unlines
        [s!"Error: Failed to write {arguments.output}", "", "Caused by:", s!"    {cause}"] })
  written (data : Bytes) (text : String)
      (read : host.read files arguments.input = .ok data)
      (converted : (convert data form).output = .ok text)
      (granted : host.refusesWrite files arguments.output text.toUTF8.data = none) :
    ended = (0, {
      files := Function.update files arguments.output (some text.toUTF8.data)
      printed := unlines (convert data form).progress ++ "> done.\n"
      complained := "" })
  kept (path : String) (other : path ≠ arguments.output) : ended.2.files path = files path
  /-- The last line is printed by a run that succeeds and by no other. -/
  done_iff : "> done.".toList ∈ fullLines ended.2.printed ↔ ended.1 = 0

end Host

/-! ## The last line -/

theorem third_append {front : String} {char : Char} (h : front.toList[2]? = some char)
    (back : String) : (front ++ back).toList[2]? = some char := by
  rw [String.toList_append, List.getElem?_append_left (List.getElem?_eq_some_iff.mp h).1, h]

theorem third_of_mem_ownLines_visit {visit : Visit} {line : String} (h : line ∈ visit.ownLines) :
    line.toList[2]? = some 'r' := by
  rw [Visit.ownLines, List.mem_cons] at h
  rcases h with rfl | hcomplaint
  · have hfront : (s!"> reading node {visit.index}").toList[2]? = some 'r' :=
      third_append (by decide) _
    exact third_append hfront _
  · cases hresult : visit.attempt.result with
    | error cause =>
      rw [hresult] at hcomplaint
      contradiction
    | ok node =>
      rw [hresult] at hcomplaint
      obtain ⟨record, _ | (_ | tag)⟩ := node
      · contradiction
      · contradiction
      · obtain rfl := List.mem_singleton.mp hcomplaint
        exact third_append (by decide) _

/-- What a conversion writes itself says what it is reading or writing, or an error. -/
theorem third_of_mem_ownLines {data : Bytes} {form : DocumentForm} {line : String}
    (h : line ∈ ownLines data form) : line.toList[2]? ≠ some 'd' := by
  rw [ownLines, List.mem_cons] at h
  rcases h with rfl | hrest
  · decide
  cases hparsed : (HistoryFile.parse data).result with
  | error cause =>
    rw [hparsed] at hrest
    contradiction
  | ok file =>
    rw [hparsed, List.mem_append, List.mem_flatMap] at hrest
    rcases hrest with ⟨visit, -, hvisit⟩ | hlast
    · rw [third_of_mem_ownLines_visit hvisit]
      decide
    · cases houtput : (convert data form).output with
      | error error =>
        rw [houtput] at hlast
        contradiction
      | ok text =>
        rw [houtput] at hlast
        obtain rfl := List.mem_singleton.mp hlast
        cases form <;> decide

theorem done_not_mem_progress (data : Bytes) (form : DocumentForm) :
    "> done." ∉ (convert data form).progress := by
  intro hdone
  have hown : "> done." ∈ ownLines data form := by
    rw [← (headings_progress data form).filter]
    exact List.mem_filter.mpr ⟨hdone, by decide⟩
  exact third_of_mem_ownLines hown (by decide)

theorem done_not_mem_fullLines (data : Bytes) (form : DocumentForm) :
    "> done.".toList ∉ fullLines (unlines (convert data form).progress) := by
  rw [fullLines_unlines (headings_progress data form).lacks,
    List.mem_map_of_injective (fun _ _ => String.toList_injective)]
  exact done_not_mem_progress data form

theorem done_mem_fullLines (data : Bytes) (form : DocumentForm) :
    "> done.".toList ∈ fullLines (unlines (convert data form).progress ++ "> done.\n") := by
  have hlines : unlines (convert data form).progress ++ "> done.\n" =
      unlines ((convert data form).progress ++ ["> done."]) := by
    rw [← String.toList_inj, String.toList_append, toList_unlines, toList_unlines, List.map_append,
      List.flatMap_append]
    rfl
  rw [hlines, fullLines_unlines]
  · exact List.mem_map_of_mem (List.mem_append_right _ List.mem_cons_self)
  · exact List.forall_mem_append.mpr ⟨(headings_progress data form).lacks, by decide⟩

/-! ## The ways to end -/

section Ways

variable {State : Type} {access : Access (StateM State)} {arguments : Arguments}
  {before read printed after : State} {cause : OsError} {data : Bytes} {text : String}

theorem runConversion_of_unread
    (hread : access.read arguments.input before = (.error cause, after)) :
    runConversion access arguments before =
      fail access s!"Failed to read {arguments.input}" (toString cause) after := by
  simp only [runConversion, bind, StateT.bind, hread]

variable (hread : access.read arguments.input before = (.ok data, read))
  (hprint : access.print (unlines (convert data arguments.form).progress) read = ((), printed))

include hread hprint

theorem runConversion_of_unconverted {error : ConversionError}
    (hconvert : (convert data arguments.form).output = .error error) :
    runConversion access arguments before =
      fail access error.what error.cause.message printed := by
  simp only [runConversion, bind, StateT.bind, hread, hprint, hconvert]

variable (hconvert : (convert data arguments.form).output = .ok text)

include hconvert

theorem runConversion_of_unwritten
    (hwrite : access.write arguments.output text.toUTF8.data printed = (.error cause, after)) :
    runConversion access arguments before =
      fail access s!"Failed to write {arguments.output}" (toString cause) after := by
  simp only [runConversion, bind, StateT.bind, hread, hprint, hconvert, Utf8.toArray_encode,
    hwrite]

theorem runConversion_of_written
    (hwrite : access.write arguments.output text.toUTF8.data printed = (.ok (), after)) :
    runConversion access arguments before = (0, (access.print "> done.\n" after).2) := by
  simp only [runConversion, bind, StateT.bind, hread, hprint, hconvert, Utf8.toArray_encode,
    hwrite]
  rfl

end Ways

section Cases

variable {host : Host} {files : Directory} {arguments : Arguments} {data : Bytes} {text : String}

theorem fail_access (host : Host) (what why : String) (world : World) :
    fail host.access what why world =
      (1, { world with complained := world.complained ++ failureText what why }) := rfl

theorem runConversion_unread {cause : OsError}
    (hread : host.read files arguments.input = .error cause) :
    host.runConversion files arguments =
      (1, ⟨files, "", failureText s!"Failed to read {arguments.input}" (toString cause)⟩) := by
  have hanswer : host.access.read arguments.input ⟨files, "", ""⟩ =
      (.error cause, ⟨files, "", ""⟩) := by rw [host.read_access, hread]
  rw [Host.runConversion, runConversion_of_unread hanswer, fail_access, String.empty_append]

section Read

variable (hread : host.read files arguments.input = .ok data)

include hread

theorem read_access_of_ok :
    host.access.read arguments.input ⟨files, "", ""⟩ = (.ok data, ⟨files, "", ""⟩) := by
  rw [host.read_access, hread]

theorem runConversion_unconverted {error : ConversionError}
    (hconvert : (convert data arguments.form).output = .error error) :
    host.runConversion files arguments =
      (1, ⟨files, unlines (convert data arguments.form).progress,
        failureText error.what error.cause.message⟩) := by
  rw [Host.runConversion, runConversion_of_unconverted (read_access_of_ok hread)
    (host.print_access _ _) hconvert, fail_access, String.empty_append, String.empty_append]

variable (hconvert : (convert data arguments.form).output = .ok text)

include hconvert

theorem runConversion_unwritten {cause : OsError} {left : Option Bytes}
    (hrefused : host.refusesWrite files arguments.output text.toUTF8.data = some (cause, left)) :
    host.runConversion files arguments =
      (1, ⟨Function.update files arguments.output left,
        unlines (convert data arguments.form).progress,
        failureText s!"Failed to write {arguments.output}" (toString cause)⟩) := by
  have hwrite (world : World) (hfiles : world.files = files) :
      host.access.write arguments.output text.toUTF8.data world =
        (.error cause, { world with files := Function.update files arguments.output left }) := by
    rw [host.write_access, Host.write, hfiles, hrefused]
  rw [Host.runConversion, runConversion_of_unwritten (read_access_of_ok hread)
    (host.print_access _ _) hconvert (hwrite _ rfl), fail_access, String.empty_append,
    String.empty_append]

theorem runConversion_written
    (hgranted : host.refusesWrite files arguments.output text.toUTF8.data = none) :
    host.runConversion files arguments =
      (0, ⟨Function.update files arguments.output (some text.toUTF8.data),
        unlines (convert data arguments.form).progress ++ "> done.\n", ""⟩) := by
  have hwrite (world : World) (hfiles : world.files = files) :
      host.access.write arguments.output text.toUTF8.data world =
        (.ok (), { world with
          files := Function.update files arguments.output (some text.toUTF8.data) }) := by
    rw [host.write_access, Host.write, hfiles, hgranted]
  rw [Host.runConversion, runConversion_of_written (read_access_of_ok hread)
    (host.print_access _ _) hconvert (hwrite _ rfl), host.print_access, String.empty_append]

end Read

/-- All cases change at most the output path, and print the last line if they succeed. -/
theorem exists_runConversion_eq (host : Host) (files : Directory) (arguments : Arguments) :
    ∃ exitCode left printed complained,
      host.runConversion files arguments =
        (exitCode, ⟨Function.update files arguments.output left, printed, complained⟩) ∧
      ("> done.".toList ∈ fullLines printed ↔ exitCode = 0) := by
  have hfailure : (1 : UInt32) ≠ 0 := by decide
  cases hread : host.read files arguments.input with
  | error cause =>
    refine ⟨1, files arguments.output, "",
      failureText s!"Failed to read {arguments.input}" (toString cause), ?_,
      iff_of_false (by decide) hfailure⟩
    rw [runConversion_unread hread, Function.update_eq_self]
  | ok data =>
    have hprogress := done_not_mem_fullLines data arguments.form
    cases hconvert : (convert data arguments.form).output with
    | error error =>
      refine ⟨1, files arguments.output, unlines (convert data arguments.form).progress,
        failureText error.what error.cause.message, ?_, iff_of_false hprogress hfailure⟩
      rw [runConversion_unconverted hread hconvert, Function.update_eq_self]
    | ok text =>
      cases hwrite : host.refusesWrite files arguments.output text.toUTF8.data with
      | some refusal =>
        obtain ⟨cause, left⟩ := refusal
        exact ⟨1, left, _, _, runConversion_unwritten hread hconvert hwrite,
          iff_of_false hprogress hfailure⟩
      | none =>
        exact ⟨0, _, _, _, runConversion_written hread hconvert hwrite,
          iff_of_true (done_mem_fullLines data arguments.form) rfl⟩

theorem allOrNothing_runConversion (host : Host) (files : Directory) (arguments : Arguments) :
    host.AllOrNothing files arguments arguments.form (host.runConversion files arguments) where
  unread cause read := runConversion_unread read
  unconverted data error read converted := runConversion_unconverted read converted
  unwritten data text cause left read converted refused :=
    runConversion_unwritten read converted refused
  written data text read converted granted := runConversion_written read converted granted
  kept path other := by
    obtain ⟨exitCode, left, printed, complained, hended, -⟩ :=
      exists_runConversion_eq host files arguments
    rw [hended]
    exact Function.update_of_ne other left files
  done_iff := by
    obtain ⟨exitCode, left, printed, complained, hended, hdone⟩ :=
      exists_runConversion_eq host files arguments
    rw [hended]
    exact hdone

end Cases

/-- Whatever fails, nothing is left at the output path but what was there before or, if its
writing fails, what the operating system leaves there. The input path may be the same one. -/
theorem run_allOrNothing (host : Host) (files : Directory) (arguments : Arguments) :
    host.AllOrNothing files arguments (if arguments.text then .dump else .graph)
        (host.runConversion files arguments) ∧
      ∀ list, Request.ofArguments list = .ok (.convert arguments) →
        run host.access list ⟨files, "", ""⟩ = host.runConversion files arguments := by
  refine ⟨allOrNothing_runConversion host files arguments, fun list h => ?_⟩
  rw [run, h]
  rfl

/-! ## Runs over two files -/

/-- An operating system that refuses nothing. -/
def Host.granting : Host where
  refusesRead _ _ := none
  refusesWrite _ _ _ := none

/-- A directory with an input and an older output. -/
def twoFiles (input output : Bytes) : Directory :=
  fun path =>
    if path = "tree.htf" then some input else if path = "tree.out" then some output else none

theorem update_twoFiles_input (input output data : Bytes) :
    Function.update (twoFiles input output) "tree.htf" (some data) = twoFiles data output := by
  funext path
  by_cases hpath : path = "tree.htf" <;> simp [twoFiles, hpath]

theorem update_twoFiles_output (input output data : Bytes) :
    Function.update (twoFiles input output) "tree.out" (some data) = twoFiles input data := by
  funext path
  by_cases hpath : path = "tree.out" <;> simp [twoFiles, hpath]

theorem exists_wholeFile :
    ∃ (whole : Bytes) (file : HistoryFile) (dump : String),
      encodeFile twoNodeHeader twoNodeTree = .ok whole ∧
      (HistoryFile.parse whole).result = .ok file ∧ file.dump.result = .ok dump ∧
      (convert whole .graph).output = .ok (Graph.render twoNodeTree) ∧
      (convert whole .dump).output = .ok dump := by
  have hencode : ∃ data, encodeFile twoNodeHeader twoNodeTree = .ok data := ⟨_, rfl⟩
  obtain ⟨whole, hwhole⟩ := hencode
  obtain ⟨blocks, hblocks, rfl⟩ := encodeFile_eq_ok_iff.mp hwhole
  have hparsed := HistoryFile.parse_ofBlocks twoNodeHeader blocks
  have hnodes := HistoryFile.decodings_ofBlocks_of_le hblocks canonical_twoNodeTree (by decide)
  have hgraph := output_graph_of_ok hparsed hnodes
  rw [map_record_decoded] at hgraph
  exact ⟨_, _, _, hwhole, hparsed, HistoryFile.result_dump_of_ok hnodes, hgraph,
    output_dump_of_ok hparsed hnodes⟩

/-- A file that lacks the last of its nodes. -/
theorem exists_shortFile :
    ∃ short : Bytes, encodeFile threeNodeHeader twoNodeTree = .ok short ∧
      ∀ form, ∃ error, (convert short form).output = .error error := by
  have hencode : ∃ data, encodeFile threeNodeHeader twoNodeTree = .ok data := ⟨_, rfl⟩
  obtain ⟨short, hshort⟩ := hencode
  obtain ⟨blocks, hblocks, rfl⟩ := encodeFile_eq_ok_iff.mp hshort
  have hparsed := HistoryFile.parse_ofBlocks threeNodeHeader blocks
  have hmissing := HistoryFile.outcomes_ofBlocks_of_lt hblocks canonical_twoNodeTree (by decide)
    (by decide)
  refine ⟨_, hshort, fun form => (output_eq_error_iff _ form).mpr (Or.inr ⟨_, hparsed, ?_⟩)⟩
  rw [hmissing]
  exact ⟨_, List.mem_append_right _ List.mem_cons_self⟩

/-- A file of two nodes becomes a dump beside it, or a graph in its own place. One that
lacks a node leaves the older output as it was. -/
theorem run_allOrNothing_twoFiles :
    ∃ (whole short : Bytes) (file : HistoryFile) (dump : String),
      encodeFile twoNodeHeader twoNodeTree = .ok whole ∧
      encodeFile threeNodeHeader twoNodeTree = .ok short ∧
      (HistoryFile.parse whole).result = .ok file ∧ file.dump.result = .ok dump ∧
      (let ended := run Host.granting.access ["tree.htf", "--text", "tree.out"]
        ⟨twoFiles whole #[7], "", ""⟩
      ended.1 = 0 ∧ ended.2.files = twoFiles whole dump.toUTF8.data) ∧
      (let ended := run Host.granting.access ["tree.htf", "tree.htf"]
        ⟨twoFiles whole #[7], "", ""⟩
      ended.1 = 0 ∧ ended.2.files = twoFiles (Graph.render twoNodeTree).toUTF8.data #[7]) ∧
      (let ended := run Host.granting.access ["--text", "tree.htf", "tree.out"]
        ⟨twoFiles short #[7], "", ""⟩
      ended.1 = 1 ∧ ended.2.files = twoFiles short #[7]) := by
  obtain ⟨whole, file, dump, hwhole, hparsed, hdumped, hgraph, hdump⟩ := exists_wholeFile
  obtain ⟨short, hshort, hfails⟩ := exists_shortFile
  obtain ⟨error, herror⟩ := hfails .dump
  refine ⟨whole, short, file, dump, hwhole, hshort, hparsed, hdumped, ?_, ?_, ?_⟩
  · have hruns := run_allOrNothing .granting (twoFiles whole #[7]) ⟨"tree.htf", "tree.out", true⟩
    have hended := hruns.1.written whole dump rfl hdump rfl
    rw [hruns.2 _ rfl, hended, update_twoFiles_output]
    exact ⟨rfl, rfl⟩
  · have hruns := run_allOrNothing .granting (twoFiles whole #[7]) ⟨"tree.htf", "tree.htf", false⟩
    have hended := hruns.1.written whole _ rfl hgraph rfl
    rw [hruns.2 _ rfl, hended, update_twoFiles_input]
    exact ⟨rfl, rfl⟩
  · have hruns := run_allOrNothing .granting (twoFiles short #[7]) ⟨"tree.htf", "tree.out", true⟩
    have hended := hruns.1.unconverted short error rfl herror
    rw [hruns.2 _ rfl, hended]
    exact ⟨rfl, rfl⟩

end HistoryTree.Command
