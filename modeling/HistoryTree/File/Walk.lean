import HistoryTree.File.Basic

/-!
# Walks

A walk visits the declared blocks in storage order. A node of unknown type does
not end it; the first block that cannot be read does, after it has been visited.
Everything that goes through a whole file does so over `HistoryFile.walk`, which
`Walker.rest_eq` unfolds visit by visit.
-/

namespace HistoryTree

/-- Where a walk stands: the block it comes to next, and whether one failed. -/
structure Walker where
  file : HistoryFile
  position : UInt32
  failed : Bool

/-- The attempt to decode one block. -/
structure Visit where
  index : UInt32
  attempt : Attempt DecodedNode

namespace Walker

def next (walker : Walker) : Option (Visit × Walker) :=
  if walker.failed ∨ walker.file.header.nodeCount ≤ walker.position then
    none
  else
    let attempt := do
      Attempt.note (.readingNode walker.position)
      walker.file.decode walker.position
    let failed := attempt.result matches .error _
    some (⟨walker.position, attempt⟩, { walker with position := walker.position + 1, failed })

/-- The fewest and the most blocks that may still be visited. -/
def sizeHint (walker : Walker) : Nat × Nat :=
  if walker.failed then (0, 0)
  else (0, walker.file.header.nodeCount.toNat - walker.position.toNat)

/-- Goes on for at most `count` visits, after those made already. -/
def visitsFrom (visits : Array Visit) : (count : Nat) → Walker → List Visit
  | 0, _ => visits.toList
  | count + 1, walker =>
    match walker.next with
    | none => visits.toList
    | some (visit, walker) => visitsFrom (visits.push visit) count walker

/-- All visits that the walk has yet to make. -/
def rest (walker : Walker) : List Visit :=
  visitsFrom #[] walker.sizeHint.2 walker

theorem visitsFrom_eq (visits : Array Visit) (count : Nat) (walker : Walker) :
    visitsFrom visits count walker = visits.toList ++ visitsFrom #[] count walker := by
  induction count generalizing visits walker with
  | zero => simp [visitsFrom]
  | succ count ih =>
    rw [visitsFrom, visitsFrom]
    cases walker.next with
    | none => simp
    | some step =>
      obtain ⟨visit, after⟩ := step
      simp only
      rw [ih, ih (#[].push visit)]
      simp

/-- A visit uses up at least one of those that may still be made. -/
theorem sizeHint_next {walker after : Walker} {visit : Visit}
    (h : walker.next = some (visit, after)) : after.sizeHint.2 < walker.sizeHint.2 := by
  unfold next at h
  split at h
  · contradiction
  next hmore =>
    simp only [Option.some.injEq, Prod.mk.injEq] at h
    obtain ⟨-, rfl⟩ := h
    have hposition : walker.position.toNat < walker.file.header.nodeCount.toNat := by
      simpa [UInt32.le_iff_toNat_le] using fun hle => hmore (Or.inr hle)
    have hfailed : walker.failed = false := by
      simpa using fun hfail => hmore (Or.inl hfail)
    have hcount := walker.file.header.nodeCount.toNat_lt
    have hafter : (walker.position + 1).toNat = walker.position.toNat + 1 := by
      simp only [UInt32.toNat_add, UInt32.toNat_one]
      omega
    simp only [sizeHint, hfailed, hafter]
    split <;> simp <;> omega

theorem next_eq_none_of_sizeHint {walker : Walker} (h : walker.sizeHint.2 = 0) :
    walker.next = none := by
  cases hnext : walker.next with
  | none => rfl
  | some step =>
    obtain ⟨visit, after⟩ := step
    have hless := sizeHint_next hnext
    omega

/-- Only the visits that may still be made matter. -/
theorem visitsFrom_eq_of_le {walker : Walker} {count more : Nat}
    (hcount : walker.sizeHint.2 ≤ count) (hmore : walker.sizeHint.2 ≤ more) :
    visitsFrom #[] count walker = visitsFrom #[] more walker := by
  induction count generalizing more walker with
  | zero =>
    have hnone := next_eq_none_of_sizeHint (Nat.le_zero.mp hcount)
    cases more <;> simp [visitsFrom, hnone]
  | succ count ih =>
    cases more with
    | zero =>
      have hnone := next_eq_none_of_sizeHint (Nat.le_zero.mp hmore)
      simp [visitsFrom, hnone]
    | succ more =>
      rw [visitsFrom, visitsFrom]
      cases hnext : walker.next with
      | none => rfl
      | some step =>
        obtain ⟨visit, after⟩ := step
        have hless := sizeHint_next hnext
        have hsame : visitsFrom #[] count after = visitsFrom #[] more after :=
          ih (by omega) (by omega)
        simp only
        rw [visitsFrom_eq, visitsFrom_eq (#[].push visit) more, hsame]

/-- A walk goes on with the next visit, if there is one. -/
theorem rest_eq (walker : Walker) :
    walker.rest = match walker.next with
      | none => []
      | some (visit, after) => visit :: after.rest := by
  rw [rest, visitsFrom_eq_of_le (Nat.le_refl _) (Nat.le_succ _), visitsFrom]
  cases hnext : walker.next with
  | none => rfl
  | some step =>
    obtain ⟨visit, after⟩ := step
    have hless := sizeHint_next hnext
    have hsame : visitsFrom #[] walker.sizeHint.2 after = after.rest :=
      visitsFrom_eq_of_le (by omega) (Nat.le_refl _)
    simp only
    rw [visitsFrom_eq, hsame]
    rfl

end Walker

namespace HistoryFile

/-- A walk that has not begun. -/
def nodes (file : HistoryFile) : Walker :=
  { file, position := 0, failed := false }

def walk (file : HistoryFile) : List Visit :=
  file.nodes.rest

/-- The records of all nodes, with a notice for every issue. -/
def decodeAll (file : HistoryFile) : Attempt (List NodeRecord) :=
  file.walk.mapM fun visit => do
    let node ← visit.attempt
    match node.issue with
    | some issue =>
      Attempt.note (.nodeIssue visit.index issue)
      return node.record
    | none => return node.record

end HistoryFile

end HistoryTree
