import HistoryTree.Command.FileSystem
import HistoryTree.Proofs.Success

/-!
# File systems that differ in files

A path leads through directories and links, never through a file. So if two file systems
have the same of everything but files, a path that something can be created by leads to
the same place in both (`SharesTree.follow_creating_iff`), and one that leads to the same
entry does too (`SharesTree.follow_of_lookup?`). Putting a file where there is a file or
nothing changes nothing else (`TakesFile.sharesTree_insert`).
-/

namespace HistoryTree.Command.FileSystem

/-! ## Steps of a path -/

section Steps

variable {system second : FileSystem} {here next : Location} {part : String}
  {creating slash : Bool}

theorem enter_of_dots (system : FileSystem) (here : Location) (h : part = "." ∨ part = "..") :
    system.enter here part = .ok (if part = "." then here else here.dropLast) := by
  rcases h with rfl | rfl <;> rfl

theorem enterLast_of_dots (system : FileSystem) (creating slash : Bool) (here : Location)
    (h : part = "." ∨ part = "..") :
    system.enterLast creating slash here part =
      .ok (if part = "." then here else here.dropLast) := by
  rw [enterLast, if_pos h, enter_of_dots system here h]

/-- Without a slash after its name it does not matter what is there. -/
theorem enterLast_noSlash (system : FileSystem) (creating : Bool) (here : Location)
    (h : ¬ (part = "." ∨ part = "..")) :
    system.enterLast creating false here part =
      if longestName < part.utf8ByteSize then .error .nameTooLong
      else .ok (system.settle (here ++ [part])) := by
  rw [enterLast, if_neg h, if_neg fun hslash => Bool.false_ne_true hslash.2]

theorem settle_of_no_link {place : Location}
    (h : ∀ target, system.lookup? place ≠ some (.link target)) : system.settle place = place := by
  rw [settle]
  split
  next target hlink => exact absurd hlink (h target)
  next => rfl

theorem settle_of_enter (h : ¬ (part = "." ∨ part = ".."))
    (henter : system.enter here part = .ok next) :
    system.settle (here ++ [part]) = next ∧
      ∃ closed, system.lookup? next = some (.directory closed) := by
  rw [enter, if_neg fun hdot => h (Or.inl hdot), if_neg fun hdots => h (Or.inr hdots)] at henter
  split at henter
  · contradiction
  simp only at henter
  split at henter
  next closed hdirectory =>
    obtain rfl := Except.ok.inj henter
    exact ⟨rfl, closed, hdirectory⟩
  next => contradiction
  next => contradiction

theorem settle_of_enterLast (h : ¬ (part = "." ∨ part = ".."))
    (henter : system.enterLast creating slash here part = .ok next) :
    system.settle (here ++ [part]) = next := by
  rw [enterLast, if_neg h] at henter
  split at henter
  · contradiction
  split at henter
  · contradiction
  simp only at henter
  split at henter
  next => exact Except.ok.inj henter
  next => exact Except.ok.inj henter
  next => exact Except.ok.inj henter
  next => contradiction

/-- A step through a name depends only on what is at the place that it names. -/
theorem enter_congr (hsettle : second.settle (here ++ [part]) = system.settle (here ++ [part]))
    (hlookup : second.lookup? (system.settle (here ++ [part])) =
      system.lookup? (system.settle (here ++ [part]))) :
    second.enter here part = system.enter here part := by
  simp only [enter, hsettle, hlookup]

theorem enterLast_congr
    (hsettle : second.settle (here ++ [part]) = system.settle (here ++ [part]))
    (hlookup : second.lookup? (system.settle (here ++ [part])) =
      system.lookup? (system.settle (here ++ [part]))) :
    second.enterLast creating slash here part = system.enterLast creating slash here part := by
  simp only [enterLast, enter_congr hsettle hlookup, hsettle, hlookup]

theorem foldlM_enter_of_steps {parts : List String} {last : Location}
    (henter : ∀ here part next, system.enter here part = .ok next →
      second.enter here part = .ok next)
    (hsteps : parts.foldlM system.enter here = .ok last) :
    parts.foldlM second.enter here = .ok last := by
  induction parts generalizing here with
  | nil => exact hsteps
  | cons part parts ih =>
    rw [List.foldlM_cons] at hsteps ⊢
    obtain ⟨next, hnext, hrest⟩ := bind_eq_ok_iff.mp hsteps
    exact bind_eq_ok_iff.mpr ⟨next, henter here part next hnext, ih hrest⟩

/-- A path leads to the same place in another file system if each of its steps does. -/
theorem follow_of_steps {later : Bool} {path : String} {found : Location}
    (henter : ∀ here part next, system.enter here part = .ok next →
      second.enter here part = .ok next)
    (hlast : ∀ slash here part, system.enterLast creating slash here part = .ok found →
      second.enterLast later slash here part = .ok found)
    (hworking : second.working = system.working)
    (hfollow : system.follow creating path = .ok found) :
    second.follow later path = .ok found := by
  rw [follow] at hfollow ⊢
  by_cases hempty : path = ""
  · rw [if_pos hempty] at hfollow
    contradiction
  by_cases hlong : longestPath < path.utf8ByteSize
  · rw [if_neg hempty, if_pos hlong] at hfollow
    contradiction
  rw [if_neg hempty, if_neg hlong] at hfollow ⊢
  simp only [hworking] at hfollow ⊢
  split at hfollow
  next => exact hfollow
  next last hsome =>
    obtain ⟨parent, hparent, hfound⟩ := bind_eq_ok_iff.mp hfollow
    exact bind_eq_ok_iff.mpr
      ⟨parent, foldlM_enter_of_steps henter hparent, hlast _ parent last hfound⟩

end Steps

/-! ## File systems that differ in files -/

/-- Whatever is no file stands at the same places in both. -/
structure SharesTree (first second : FileSystem) : Prop where
  working_eq : second.working = first.working
  lookup?_iff (place : Location) (entry : Entry) (h : ∀ data, entry ≠ .file data) :
    second.lookup? place = some entry ↔ first.lookup? place = some entry

namespace SharesTree

variable {first second third : FileSystem}

theorem refl (system : FileSystem) : system.SharesTree system where
  working_eq := rfl
  lookup?_iff _ _ _ := Iff.rfl

theorem symm (h : first.SharesTree second) : second.SharesTree first where
  working_eq := h.working_eq.symm
  lookup?_iff place entry hentry := (h.lookup?_iff place entry hentry).symm

theorem trans (h : first.SharesTree second) (hnext : second.SharesTree third) :
    first.SharesTree third where
  working_eq := hnext.working_eq.trans h.working_eq
  lookup?_iff place entry hentry :=
    (hnext.lookup?_iff place entry hentry).trans (h.lookup?_iff place entry hentry)

variable (h : first.SharesTree second)

include h

theorem settle_eq (place : Location) : second.settle place = first.settle place := by
  by_cases hlink : ∃ target, first.lookup? place = some (.link target)
  · obtain ⟨target, hfirst⟩ := hlink
    have hsecond := (h.lookup?_iff place (.link target) nofun).mpr hfirst
    rw [settle, settle, hfirst, hsecond]
  · rw [settle_of_no_link fun target hfirst => hlink ⟨target, hfirst⟩, settle_of_no_link]
    intro target hsecond
    exact hlink ⟨target, (h.lookup?_iff place (.link target) nofun).mp hsecond⟩

theorem enter (here : Location) (part : String) (next : Location)
    (henter : first.enter here part = .ok next) : second.enter here part = .ok next := by
  by_cases hdots : part = "." ∨ part = ".."
  · rwa [enter_of_dots _ here hdots] at henter ⊢
  · obtain ⟨rfl, closed, hdirectory⟩ := settle_of_enter hdots henter
    have hsecond := (h.lookup?_iff _ (.directory closed) nofun).mpr hdirectory
    rwa [enter_congr (h.settle_eq _) (hsecond.trans hdirectory.symm)]

/-- A path that something can be created by leads to the same place, and can be read by. -/
theorem follow_of_creating {later : Bool} {path : String} {found : Location}
    (hfollow : first.follow true path = .ok found) : second.follow later path = .ok found := by
  refine follow_of_steps h.enter (fun slash here part hlast => ?_) h.working_eq hfollow
  by_cases hdots : part = "." ∨ part = ".."
  · rwa [enterLast_of_dots _ _ slash here hdots] at hlast ⊢
  cases slash with
  | true =>
    rw [enterLast, if_neg hdots, if_pos ⟨rfl, rfl⟩] at hlast
    contradiction
  | false =>
    rw [enterLast_noSlash _ _ here hdots] at hlast ⊢
    rwa [h.settle_eq]

theorem follow_creating_iff {path : String} {place : Location} :
    second.follow true path = .ok place ↔ first.follow true path = .ok place :=
  ⟨h.symm.follow_of_creating, h.follow_of_creating⟩

theorem follow_of_lookup? {creating : Bool} {path : String} {found : Location}
    (hsame : second.lookup? found = first.lookup? found)
    (hfollow : first.follow creating path = .ok found) :
    second.follow creating path = .ok found := by
  refine follow_of_steps h.enter (fun slash here part hlast => ?_) h.working_eq hfollow
  by_cases hdots : part = "." ∨ part = ".."
  · rwa [enterLast_of_dots _ creating slash here hdots] at hlast ⊢
  · obtain rfl := settle_of_enterLast hdots hlast
    rwa [enterLast_congr (h.settle_eq _) hsame]

end SharesTree

/-! ## Places for files -/

/-- Nothing but a file stands at the place. -/
def TakesFile (system : FileSystem) (place : Location) : Prop :=
  ∀ entry, system.lookup? place = some entry → ∃ data, entry = .file data

namespace TakesFile

variable {system : FileSystem} {place : Location} (h : system.TakesFile place) (data : Bytes)

include h

theorem ne_nil : place ≠ [] := by
  rintro rfl
  obtain ⟨data, hdata⟩ := h (.directory false) rfl
  contradiction

theorem lookup?_insert_self :
    (system.insert place (.file data)).lookup? place = some (.file data) := by
  rw [lookup?_insert system h.ne_nil, if_pos rfl]

theorem lookup?_insert_of_ne {other : Location} (hother : other ≠ place) :
    (system.insert place (.file data)).lookup? other = system.lookup? other := by
  rw [lookup?_insert system h.ne_nil, if_neg hother]

theorem sharesTree_insert : system.SharesTree (system.insert place (.file data)) where
  working_eq := rfl
  lookup?_iff other entry hentry := by
    by_cases hsame : other = place
    · rw [hsame, h.lookup?_insert_self]
      refine iff_of_false (fun hfile => hentry data (Option.some.inj hfile).symm) fun hplace => ?_
      obtain ⟨old, hold⟩ := h entry hplace
      exact hentry old hold
    · rw [h.lookup?_insert_of_ne data hsame]

end TakesFile

end HistoryTree.Command.FileSystem
