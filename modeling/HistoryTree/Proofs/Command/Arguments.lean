import HistoryTree.Command.Arguments
import Mathlib.Data.List.Basic

/-!
# What arguments ask for

Arguments without other flags than `--text` can be told apart at the first `--`: before it the
flags are counted, and all else is paths. What is read from them depends on the paths and the
number of flags alone, unless there are too many of both (`Request.ofArguments_followsGrammar`).
-/

namespace HistoryTree.Command

/-! ## Arguments as a whole -/

/-- The flag, the mark that ends the flags, or what can only be a path. -/
def IsOrdinary (argument : String) : Prop :=
  argument = "--text" ∨ argument = "--" ∨
    argument ≠ "" ∧ argument.toList.head? ≠ some '-'

instance (argument : String) : Decidable (IsOrdinary argument) :=
  inferInstanceAs (Decidable (_ ∨ _ ∨ _ ∧ _))

/-- The arguments before the first `--`. -/
def frontOf (arguments : List String) : List String :=
  arguments.takeWhile (· ≠ "--")

/-- The arguments behind the first `--`, if there is one. -/
def backOf (arguments : List String) : List String :=
  (arguments.dropWhile (· ≠ "--")).tail

def pathsOf (arguments : List String) : List String :=
  (frontOf arguments).filter (· ≠ "--text") ++ backOf arguments

def flagsOf (arguments : List String) : Nat :=
  (frontOf arguments).count "--text"

section Parts

variable (rest : List String)

theorem pathsOf_nil : pathsOf [] = [] := rfl

theorem flagsOf_nil : flagsOf [] = 0 := rfl

theorem pathsOf_dashes : pathsOf ("--" :: rest) = rest := rfl

theorem flagsOf_dashes : flagsOf ("--" :: rest) = 0 := rfl

theorem frontOf_cons {argument : String} (h : argument ≠ "--") :
    frontOf (argument :: rest) = argument :: frontOf rest := by
  rw [frontOf, List.takeWhile_cons_of_pos (by simpa using h), frontOf]

theorem backOf_cons {argument : String} (h : argument ≠ "--") :
    backOf (argument :: rest) = backOf rest := by
  rw [backOf, List.dropWhile_cons_of_pos (by simpa using h), backOf]

theorem pathsOf_flag : pathsOf ("--text" :: rest) = pathsOf rest := by
  have hflag : "--text" ≠ "--" := by decide
  rw [pathsOf, frontOf_cons rest hflag, backOf_cons rest hflag, List.filter_cons_of_neg (by decide),
    pathsOf]

theorem flagsOf_flag : flagsOf ("--text" :: rest) = flagsOf rest + 1 := by
  rw [flagsOf, frontOf_cons rest (by decide), List.count_cons_self, flagsOf]

variable {argument : String} (hflag : argument ≠ "--text") (hdashes : argument ≠ "--")

include hflag hdashes

theorem pathsOf_cons : pathsOf (argument :: rest) = argument :: pathsOf rest := by
  rw [pathsOf, frontOf_cons rest hdashes, backOf_cons rest hdashes,
    List.filter_cons_of_pos (by simpa using hflag), List.cons_append, pathsOf]

theorem flagsOf_cons : flagsOf (argument :: rest) = flagsOf rest := by
  rw [flagsOf, frontOf_cons rest hdashes, List.count_cons_of_ne hflag, flagsOf]

end Parts

/-- What two paths and a flag ask for, and why other paths are refused. -/
def outcome (paths : List String) (text : Bool) : Except UsageError Request :=
  match paths with
  | [input, output] => .ok (.convert { input, output, text })
  | _ :: _ :: extra :: _ => .error (.unexpectedArgument extra)
  | _ => .error .missingPath

theorem outcome_full {paths : List String} (h : paths.length = 2) (extra : String)
    (rest : List String) (text : Bool) :
    outcome (paths ++ extra :: rest) text = .error (.unexpectedArgument extra) := by
  obtain ⟨input, output, rfl⟩ := List.length_eq_two.mp h
  rfl

theorem outcome_eq_ok_iff {paths : List String} {text : Bool} {request : Request} :
    outcome paths text = .ok request ↔
      ∃ input output, paths = [input, output] ∧ request = .convert { input, output, text } := by
  match paths with
  | [] => simp [outcome]
  | [_] => simp [outcome]
  | [input, output] =>
    constructor
    · intro h
      exact ⟨input, output, rfl, (Except.ok.inj h).symm⟩
    · rintro ⟨_, _, hpaths, rfl⟩
      cases hpaths
      rfl
  | _ :: _ :: _ :: _ => simp [outcome]

theorem outcome_of_lt {paths : List String} (h : paths.length < 2) (text : Bool) :
    outcome paths text = .error .missingPath := by
  match paths, h with
  | [], _ => rfl
  | [_], _ => rfl

theorem outcome_of_gt {paths : List String} (h : 2 < paths.length) (text : Bool) :
    outcome paths text = .error (.unexpectedArgument paths[2]) := by
  match paths, h with
  | _ :: _ :: _ :: _, _ => rfl

/-! ## One argument -/

theorem ofChars_path {argument : String} (h : argument.toList.head? ≠ some '-') :
    ArgumentKind.ofChars argument.toList = .path := by
  cases hchars : argument.toList with
  | nil => rfl
  | cons char rest =>
    have hchar : char ≠ '-' := by
      rintro rfl
      exact h (by rw [hchars]; rfl)
    unfold ArgumentKind.ofChars
    split <;> simp_all

namespace Scan

variable {scan : Scan} {path : String}

/-- No path is empty, and there are at most two. -/
structure Sound (scan : Scan) : Prop where
  nonempty : "" ∉ scan.paths
  few : scan.paths.length ≤ 2

theorem sound_empty : Sound .empty where
  nonempty := List.not_mem_nil
  few := Nat.zero_le 2

theorem Sound.checkLatest (h : scan.Sound) : scan.checkLatest = .ok () := by
  rw [Scan.checkLatest, if_neg]
  exact fun hlatest => h.nonempty (List.mem_of_getLast? hlatest)

/-- The scan after one more path. -/
def withPath (scan : Scan) (path : String) : Scan :=
  { scan with paths := scan.paths ++ [path] }

theorem Sound.snoc (h : scan.Sound) (hpath : path ≠ "") (hroom : scan.paths.length < 2) :
    (scan.withPath path).Sound where
  nonempty := by
    rw [Scan.withPath, List.mem_append, List.mem_singleton, not_or]
    exact ⟨h.nonempty, hpath.symm⟩
  few := by
    rw [Scan.withPath, List.length_append]
    exact hroom

theorem Sound.addPath_eq (h : scan.Sound) (path : String) :
    scan.addPath path =
      if scan.paths.length < 2 then .ok (scan.withPath path)
      else .error (.unexpectedArgument path) := by
  rw [Scan.addPath, h.checkLatest]
  by_cases hroom : scan.paths.length < 2
  · rw [if_pos hroom, if_neg (Nat.not_le.mpr hroom)]
    rfl
  · rw [if_neg hroom, if_pos (Nat.not_lt.mp hroom)]
    rfl

theorem Sound.addTextFlag_eq (h : scan.Sound) :
    scan.addTextFlag =
      if scan.text then .error .repeatedFlag else .ok { scan with text := true } := by
  rw [Scan.addTextFlag, h.checkLatest]
  cases scan.text <;> rfl

theorem Sound.finish_eq (h : scan.Sound) : scan.finish = outcome scan.paths scan.text := by
  rw [Scan.finish, h.checkLatest]
  obtain ⟨paths, text⟩ := scan
  match paths, h.few with
  | [], _ => rfl
  | [_], _ => rfl
  | [_, _], _ => rfl

/-! ## All arguments -/

/-- After `--` everything is a path. -/
theorem Sound.foldlM_addPath (h : scan.Sound) {rest : List String} (hrest : "" ∉ rest) :
    (rest.foldlM addPath scan >>= Scan.finish) = outcome (scan.paths ++ rest) scan.text := by
  induction rest generalizing scan with
  | nil =>
    rw [List.append_nil]
    exact h.finish_eq
  | cons path rest ih =>
    rw [List.mem_cons, not_or] at hrest
    rw [List.foldlM_cons, h.addPath_eq]
    by_cases hroom : scan.paths.length < 2
    · have hnext := ih (h.snoc (Ne.symm hrest.1) hroom) hrest.2
      rw [withPath, List.append_assoc] at hnext
      rw [if_pos hroom]
      exact hnext
    · have hfull : scan.paths.length = 2 := Nat.le_antisymm h.few (Nat.not_lt.mp hroom)
      rw [if_neg hroom, outcome_full hfull]
      rfl

theorem read_flag (scan : Scan) (rest : List String) :
    scan.read ("--text" :: rest) = scan.addTextFlag >>= fun next => next.read rest := rfl

theorem read_dashes (scan : Scan) (rest : List String) :
    scan.read ("--" :: rest) = rest.foldlM addPath scan >>= Scan.finish := rfl

theorem read_path (hpath : path.toList.head? ≠ some '-') (rest : List String) :
    scan.read (path :: rest) = scan.addPath path >>= fun next => next.read rest := by
  rw [Scan.read, ofChars_path hpath]

/-- The flags that there are if a scan goes on through the arguments. -/
def flagsThrough (scan : Scan) (arguments : List String) : Nat :=
  scan.text.toNat + flagsOf arguments

/-- The paths that there are if a scan goes on through the arguments. -/
def pathsThrough (scan : Scan) (arguments : List String) : List String :=
  scan.paths ++ pathsOf arguments

/-- What a scan comes to that goes on through the arguments. -/
structure Reads (scan : Scan) (arguments : List String) : Prop where
  once (flags : scan.flagsThrough arguments ≤ 1) :
    scan.read arguments =
      outcome (scan.pathsThrough arguments) (scan.flagsThrough arguments = 1)
  /-- A third path is unexpected if it comes before the second flag. -/
  twice (flags : 1 < scan.flagsThrough arguments) :
    scan.read arguments = .error .repeatedFlag ∨
      ∃ extra, (scan.pathsThrough arguments)[2]? = some extra ∧
        scan.read arguments = .error (.unexpectedArgument extra)

theorem Sound.reads_nil (h : scan.Sound) : scan.Reads [] where
  once _ := by
    have htext : decide (scan.flagsThrough [] = 1) = scan.text := by
      rw [flagsThrough, flagsOf_nil]
      cases scan.text <;> rfl
    rw [htext, pathsThrough, pathsOf_nil, List.append_nil]
    exact h.finish_eq
  twice flags := by
    rw [flagsThrough, flagsOf_nil] at flags
    exact absurd scan.text.toNat_le (Nat.not_le.mpr flags)

theorem Sound.reads_dashes (h : scan.Sound) {rest : List String} (hrest : "" ∉ rest) :
    scan.Reads ("--" :: rest) where
  once _ := by
    have htext : decide (scan.flagsThrough ("--" :: rest) = 1) = scan.text := by
      rw [flagsThrough, flagsOf_dashes]
      cases scan.text <;> rfl
    rw [htext, pathsThrough, pathsOf_dashes, read_dashes]
    exact h.foldlM_addPath hrest
  twice flags := by
    rw [flagsThrough, flagsOf_dashes] at flags
    exact absurd scan.text.toNat_le (Nat.not_le.mpr flags)

theorem Sound.reads_flag (h : scan.Sound) {rest : List String}
    (hnext : Reads { scan with text := true } rest) : scan.Reads ("--text" :: rest) := by
  have hread := scan.read_flag rest
  rw [h.addTextFlag_eq] at hread
  cases htext : scan.text with
  | true =>
    have hrefused : scan.read ("--text" :: rest) = .error .repeatedFlag := by
      rw [hread, htext]
      rfl
    refine ⟨fun flags => ?_, fun _ => Or.inl hrefused⟩
    rw [flagsThrough, flagsOf_flag, htext, Bool.toNat_true] at flags
    omega
  | false =>
    have hsame : scan.read ("--text" :: rest) = Scan.read { scan with text := true } rest := by
      rw [hread, htext]
      rfl
    have hflags : scan.flagsThrough ("--text" :: rest) =
        flagsThrough { scan with text := true } rest := by
      rw [flagsThrough, flagsThrough, flagsOf_flag, htext, Bool.toNat_false, Bool.toNat_true]
      omega
    have hpaths : scan.pathsThrough ("--text" :: rest) =
        pathsThrough { scan with text := true } rest := by
      rw [pathsThrough, pathsThrough, pathsOf_flag]
    constructor
    · rw [hsame, hflags, hpaths]
      exact hnext.once
    · rw [hsame, hflags, hpaths]
      exact hnext.twice

theorem Sound.reads_path (h : scan.Sound) (hpath : path.toList.head? ≠ some '-')
    {rest : List String} (hnext : scan.paths.length < 2 → (scan.withPath path).Reads rest) :
    scan.Reads (path :: rest) := by
  have hflag : path ≠ "--text" := by
    rintro rfl
    exact hpath (by decide)
  have hdashes : path ≠ "--" := by
    rintro rfl
    exact hpath (by decide)
  have hread := scan.read_path hpath rest
  have hflags : scan.flagsThrough (path :: rest) = (scan.withPath path).flagsThrough rest := by
    rw [flagsThrough, flagsThrough, flagsOf_cons rest hflag hdashes, withPath]
  have hpaths : scan.pathsThrough (path :: rest) = scan.paths ++ path :: pathsOf rest := by
    rw [pathsThrough, pathsOf_cons rest hflag hdashes]
  rw [h.addPath_eq] at hread
  by_cases hroom : scan.paths.length < 2
  · have hsame : scan.pathsThrough (path :: rest) = (scan.withPath path).pathsThrough rest := by
      rw [hpaths, pathsThrough, withPath, List.append_assoc, List.singleton_append]
    rw [if_pos hroom] at hread
    constructor
    · rw [hread, hflags, hsame]
      exact (hnext hroom).once
    · rw [hread, hflags, hsame]
      exact (hnext hroom).twice
  · have hfull : scan.paths.length = 2 := Nat.le_antisymm h.few (Nat.not_lt.mp hroom)
    rw [if_neg hroom] at hread
    constructor
    · intro _
      rw [hpaths, outcome_full hfull]
      exact hread
    · intro _
      refine Or.inr ⟨path, ?_, hread⟩
      rw [hpaths, ← hfull, List.getElem?_append_right (Nat.le_refl _), Nat.sub_self]
      rfl

/-- By induction on the arguments, whatever has been read before them. -/
theorem Sound.reads (h : scan.Sound) {arguments : List String}
    (hordinary : ∀ argument ∈ arguments, IsOrdinary argument) : scan.Reads arguments := by
  induction arguments generalizing scan with
  | nil => exact h.reads_nil
  | cons argument rest ih =>
    rw [List.forall_mem_cons] at hordinary
    obtain ⟨rfl | rfl | ⟨hsome, hpath⟩, hrest⟩ := hordinary
    · exact h.reads_flag (ih ⟨h.nonempty, h.few⟩ hrest)
    · refine h.reads_dashes fun hempty => ?_
      exact absurd (hrest "" hempty) (by decide)
    · exact h.reads_path hpath fun hroom => ih (h.snoc hsome hroom) hrest

end Scan

/-! ## Requests -/

/-- What is made of arguments. -/
structure Request.FollowsGrammar (arguments : List String) : Prop where
  ok_iff (request : Request) : Request.ofArguments arguments = .ok request ↔
    (∃ input output, pathsOf arguments = [input, output] ∧
      request = .convert { input, output, text := "--text" ∈ frontOf arguments }) ∧
      flagsOf arguments ≤ 1
  missing (paths : (pathsOf arguments).length < 2) (flags : flagsOf arguments ≤ 1) :
    Request.ofArguments arguments = .error .missingPath
  unexpected (paths : 2 < (pathsOf arguments).length) (flags : flagsOf arguments ≤ 1) :
    Request.ofArguments arguments = .error (.unexpectedArgument (pathsOf arguments)[2])
  repeated (paths : (pathsOf arguments).length ≤ 2) (flags : 1 < flagsOf arguments) :
    Request.ofArguments arguments = .error .repeatedFlag
  /-- Whichever comes first is refused. -/
  both (paths : 2 < (pathsOf arguments).length) (flags : 1 < flagsOf arguments) :
    Request.ofArguments arguments = .error .repeatedFlag ∨
      Request.ofArguments arguments = .error (.unexpectedArgument (pathsOf arguments)[2])
  /-- The place of the flag before `--` does not matter. -/
  moved (other : List String) (ordinary : ∀ argument ∈ other, IsOrdinary argument)
      (paths : pathsOf other = pathsOf arguments) (flags : flagsOf other = flagsOf arguments)
      (once : flagsOf arguments ≤ 1) :
    Request.ofArguments other = Request.ofArguments arguments

namespace Request

variable {arguments : List String}

theorem ofArguments_once (h : ∀ argument ∈ arguments, IsOrdinary argument)
    (hflags : flagsOf arguments ≤ 1) :
    ofArguments arguments = outcome (pathsOf arguments) ("--text" ∈ frontOf arguments) := by
  have hnone : Scan.empty.flagsThrough arguments = flagsOf arguments := Nat.zero_add _
  have hread := (Scan.sound_empty.reads h).once (hnone.symm ▸ hflags)
  have htext : flagsOf arguments = 1 ↔ "--text" ∈ frontOf arguments := by
    rw [← List.count_pos_iff, ← flagsOf]
    omega
  simp only [hnone, htext] at hread
  exact hread

theorem ofArguments_twice (h : ∀ argument ∈ arguments, IsOrdinary argument)
    (hflags : 1 < flagsOf arguments) :
    ofArguments arguments = .error .repeatedFlag ∨
      ∃ extra, (pathsOf arguments)[2]? = some extra ∧
        ofArguments arguments = .error (.unexpectedArgument extra) := by
  have hnone : Scan.empty.flagsThrough arguments = flagsOf arguments := Nat.zero_add _
  exact (Scan.sound_empty.reads h).twice (hnone.symm ▸ hflags)

/-- Arguments are accepted exactly if they have two paths and at most one flag, and otherwise
refused for what there is too much or too little of. -/
theorem ofArguments_followsGrammar (h : ∀ argument ∈ arguments, IsOrdinary argument) :
    FollowsGrammar arguments where
  ok_iff request := by
    rcases Nat.lt_or_ge 1 (flagsOf arguments) with hmany | honce
    · rcases ofArguments_twice h hmany with hrefused | ⟨extra, -, hrefused⟩
      · rw [hrefused]
        exact ⟨nofun, fun hgood => absurd hgood.2 (Nat.not_le.mpr hmany)⟩
      · rw [hrefused]
        exact ⟨nofun, fun hgood => absurd hgood.2 (Nat.not_le.mpr hmany)⟩
    · rw [ofArguments_once h honce, outcome_eq_ok_iff, and_iff_left honce]
  missing paths flags := by
    rw [ofArguments_once h flags, outcome_of_lt paths]
  unexpected paths flags := by
    rw [ofArguments_once h flags, outcome_of_gt paths]
  repeated paths flags := by
    rcases ofArguments_twice h flags with hrefused | ⟨extra, hextra, -⟩
    · exact hrefused
    · rw [List.getElem?_eq_none paths] at hextra
      contradiction
  both paths flags := by
    rcases ofArguments_twice h flags with hrefused | ⟨extra, hextra, hrefused⟩
    · exact Or.inl hrefused
    · rw [List.getElem?_eq_getElem paths, Option.some.injEq] at hextra
      exact Or.inr (hextra ▸ hrefused)
  moved other ordinary paths flags once := by
    have hmember : "--text" ∈ frontOf other ↔ "--text" ∈ frontOf arguments := by
      rw [← List.count_pos_iff, ← List.count_pos_iff, ← flagsOf, ← flagsOf, flags]
    rw [ofArguments_once ordinary (flags ▸ once), ofArguments_once h once, paths]
    simp only [hmember]

/-- A flag between the paths, of which the second is behind `--`. -/
theorem ofArguments_followsGrammar_flagBetween :
    (∀ argument ∈ ["in.htf", "--text", "--", "--text"], IsOrdinary argument) ∧
      ofArguments ["in.htf", "--text", "--", "--text"] =
        .ok (.convert ⟨"in.htf", "--text", true⟩) := by
  have hordinary : ∀ argument ∈ ["in.htf", "--text", "--", "--text"], IsOrdinary argument := by
    decide
  refine ⟨hordinary, ((ofArguments_followsGrammar hordinary).ok_iff _).mpr ⟨?_, by decide⟩⟩
  exact ⟨"in.htf", "--text", by decide, by decide⟩

end Request

end HistoryTree.Command
