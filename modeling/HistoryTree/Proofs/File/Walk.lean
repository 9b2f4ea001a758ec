import HistoryTree.File.Walk
import HistoryTree.Proofs.Success

/-!
# What a walk visits

A walk is a list that does not depend on how it is walked: the visits of all
declared blocks, cut off after the first one that fails (`HistoryFile.walk_eq`).
-/

namespace HistoryTree

/-! ## Cutting off a list -/

section Through

variable {α : Type}

/-- The entries up to the first one with the property, and that one. -/
def takeThrough (last : α → Bool) : List α → List α
  | [] => []
  | entry :: rest => if last entry then [entry] else entry :: takeThrough last rest

theorem takeThrough_append {last : α → Bool} {before : List α}
    (h : ∀ entry ∈ before, last entry = false) (after : List α) :
    takeThrough last (before ++ after) = before ++ takeThrough last after := by
  induction before with
  | nil => rfl
  | cons entry rest ih =>
    rw [List.forall_mem_cons] at h
    simp only [List.cons_append, takeThrough, h.1, Bool.false_eq_true, if_false, ih h.2]

theorem takeThrough_eq_self {last : α → Bool} {list : List α}
    (h : ∀ entry ∈ list, last entry = false) : takeThrough last list = list := by
  have happend := takeThrough_append h []
  simpa only [List.append_nil, takeThrough] using happend

theorem takeThrough_cons_of_last {last : α → Bool} {entry : α} (h : last entry = true)
    (rest : List α) : takeThrough last (entry :: rest) = [entry] := by
  rw [takeThrough, if_pos h]

theorem takeThrough_takeThrough (last : α → Bool) (list : List α) :
    takeThrough last (takeThrough last list) = takeThrough last list := by
  induction list with
  | nil => rfl
  | cons entry rest ih =>
    cases hlast : last entry with
    | true => rw [takeThrough_cons_of_last hlast, takeThrough_cons_of_last hlast]
    | false => simp only [takeThrough, hlast, Bool.false_eq_true, if_false, ih]

theorem map_takeThrough {β : Type} {last : α → Bool} {last' : β → Bool} {f : α → β}
    (h : ∀ entry, last' (f entry) = last entry) (list : List α) :
    (takeThrough last list).map f = takeThrough last' (list.map f) := by
  induction list with
  | nil => rfl
  | cons entry rest ih =>
    rw [List.map_cons, takeThrough, takeThrough, h, ← ih]
    split <;> rfl

end Through

/-! ## Attempts one after another -/

/-- A run of attempts succeeds or fails as their results do. -/
theorem Attempt.result_mapM {α β : Type} (attempt : α → Attempt β) (list : List α) :
    (list.mapM attempt).result = list.mapM fun entry => (attempt entry).result := by
  induction list with
  | nil => rfl
  | cons entry rest ih =>
    simp only [List.mapM_cons, Attempt.result_bind, Attempt.result_pure, ih]
    rfl

/-! ## Walks -/

namespace HistoryFile

/-- The visit of a block, whether or not a walk gets there. -/
def visit (file : HistoryFile) (index : Nat) : Visit where
  index := UInt32.ofNat index
  attempt := do
    Attempt.note (.readingNode (UInt32.ofNat index))
    file.decode (UInt32.ofNat index)

theorem result_visit (file : HistoryFile) (index : Nat) :
    (file.visit index).attempt.result = (file.decode (UInt32.ofNat index)).result := by
  rw [visit, Attempt.result_bind]
  rfl

/-- All that a walk would visit without failures. -/
def visits (file : HistoryFile) : List Visit :=
  (List.range file.header.nodeCount.toNat).map file.visit

end HistoryFile

/-- Whether the result is a failure. -/
def isFailure {ε α : Type} (result : Except ε α) : Bool :=
  result matches .error _

/-- A run of attempts issues the notices of each, in order, up to the first that fails. -/
theorem Attempt.notices_mapM {α β : Type} (attempt : α → Attempt β) (list : List α) :
    (list.mapM attempt).notices =
      (takeThrough (fun entry => isFailure (attempt entry).result) list).flatMap
        fun entry => (attempt entry).notices := by
  induction list with
  | nil => rfl
  | cons entry rest ih =>
    rw [List.mapM_cons, Attempt.notices_bind, takeThrough]
    cases hresult : (attempt entry).result with
    | error cause => rw [isFailure, if_pos rfl, List.flatMap_singleton, List.append_nil]
    | ok value =>
      simp only [Attempt.notices_bind_of_silent _ fun _ => Attempt.notices_pure _, ih, isFailure,
        Bool.false_eq_true, if_false, List.flatMap_cons]

def Visit.fails (visit : Visit) : Bool :=
  visit.attempt.result matches .error _

theorem Visit.isFailure_result (visit : Visit) :
    isFailure visit.attempt.result = visit.fails := by
  rw [fails]
  cases visit.attempt.result <;> rfl

namespace Walker

variable {file : HistoryFile}

theorem next_of_lt {position : Nat} (h : position < file.header.nodeCount.toNat) :
    next ⟨file, UInt32.ofNat position, false⟩ =
      some (file.visit position,
        ⟨file, UInt32.ofNat (position + 1), (file.visit position).fails⟩) := by
  have hcount := file.header.nodeCount.toNat_lt
  have hposition : (UInt32.ofNat position).toNat = position :=
    UInt32.toNat_ofNat_of_lt' (Nat.lt_trans h hcount)
  have hmore : ¬ file.header.nodeCount ≤ UInt32.ofNat position := by
    rw [UInt32.le_iff_toNat_le, hposition]
    exact Nat.not_le.mpr h
  have hnext : UInt32.ofNat position + 1 = UInt32.ofNat (position + 1) := by
    apply UInt32.toNat_inj.mp
    simp
  rw [next]
  simp only [Bool.false_eq_true, hmore, or_self, if_false, hnext]
  rfl

theorem next_of_failed {walker : Walker} (h : walker.failed = true) : walker.next = none := by
  rw [next, if_pos (Or.inl h)]

theorem next_of_le {walker : Walker} (h : walker.file.header.nodeCount ≤ walker.position) :
    walker.next = none := by
  rw [next, if_pos (Or.inr h)]

/-- By induction on the number of blocks that are left. -/
theorem rest_eq_takeThrough {position left : Nat}
    (h : position + left = file.header.nodeCount.toNat) :
    rest ⟨file, UInt32.ofNat position, false⟩ =
      takeThrough Visit.fails ((List.range' position left).map file.visit) := by
  induction left generalizing position with
  | zero =>
    have hlast : UInt32.ofNat position = file.header.nodeCount := by
      rw [← Nat.add_zero position, h, UInt32.ofNat_toNat]
    have hnone : next ⟨file, UInt32.ofNat position, false⟩ = none :=
      next_of_le (hlast ▸ UInt32.le_refl _)
    rw [rest_eq, hnone]
    rfl
  | succ left ih =>
    rw [rest_eq, next_of_lt (by omega), List.range'_succ, List.map_cons, takeThrough]
    cases hfails : (file.visit position).fails with
    | true =>
      have hnone : next ⟨file, UInt32.ofNat (position + 1), true⟩ = none := next_of_failed rfl
      simp only [rest_eq ⟨file, UInt32.ofNat (position + 1), true⟩, hnone, if_true]
    | false =>
      simp only [Bool.false_eq_true, if_false]
      rw [ih (by omega)]

end Walker

namespace HistoryFile

/-- A walk goes through the declared blocks, to the first that fails. -/
theorem walk_eq (file : HistoryFile) : file.walk = takeThrough Visit.fails file.visits := by
  rw [walk, visits, List.range_eq_range']
  exact Walker.rest_eq_takeThrough (Nat.zero_add _)

/-- What the visits of a walk come to. -/
def outcomes (file : HistoryFile) : List (Except DecodeError DecodedNode) :=
  file.walk.map fun visit => visit.attempt.result

theorem outcomes_eq (file : HistoryFile) :
    file.outcomes = takeThrough isFailure
      ((List.range file.header.nodeCount.toNat).map fun index =>
        (file.decode (UInt32.ofNat index)).result) := by
  have hresults : file.visits.map (fun visit => visit.attempt.result) =
      (List.range file.header.nodeCount.toNat).map fun index =>
        (file.decode (UInt32.ofNat index)).result := by
    rw [visits, List.map_map]
    apply List.map_congr_left
    intro index _
    exact file.result_visit index
  rw [outcomes, walk_eq, ← hresults]
  exact map_takeThrough Visit.isFailure_result file.visits

/-- A full decoding gives the records of a walk if no visit fails. -/
theorem result_decodeAll (file : HistoryFile) :
    file.decodeAll.result =
      file.outcomes.mapM fun outcome => outcome >>= fun node => .ok node.record := by
  rw [decodeAll, Attempt.result_mapM, outcomes, List.mapM_map]
  congr 1
  funext visit
  rw [Attempt.result_bind, Function.comp]
  congr 1
  funext node
  cases node.issue <;> rfl

end HistoryFile

end HistoryTree
