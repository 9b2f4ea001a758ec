import HistoryTree.Proofs.File.Decodings
import Mathlib.Data.List.Infix

/-!
# Many walkers over one file

Walkers of a file may be begun, copied and moved on in any order. Each of them has
given a part of the same list of results, the decodings of the file, and what it has
given and what it is still to give make up that list. That is kept by every action
(`HistoryFile.accounts_act`), and the position, the failure and the size hint of a
walker are told from it (`Trail.Accounts.follows`).
-/

namespace HistoryTree

/-! ## Single walkers -/

namespace Walker

variable {walker after : Walker} {visit : Visit}

theorem next_eq_none_iff :
    walker.next = none ↔
      walker.failed = true ∨ walker.file.header.nodeCount.toNat ≤ walker.position.toNat := by
  rw [next, ← UInt32.le_iff_toNat_le]
  split <;> simp [*]

/-- All that a walker does when it moves on. -/
theorem eq_of_next_eq_some (h : walker.next = some (visit, after)) :
    walker.failed = false ∧ walker.position.toNat < walker.file.header.nodeCount.toNat ∧
      visit = walker.file.visit walker.position.toNat ∧
      after = ⟨walker.file, UInt32.ofNat (walker.position.toNat + 1), visit.fails⟩ := by
  have hsome : ¬ walker.next = none := by
    rw [h]
    exact Option.some_ne_none _
  rw [next_eq_none_iff, not_or, Bool.not_eq_true, Nat.not_le] at hsome
  obtain ⟨hfailed, hposition⟩ := hsome
  obtain ⟨file, position, failed⟩ := walker
  subst hfailed
  have hnext := next_of_lt hposition
  rw [UInt32.ofNat_toNat, h, Option.some.injEq, Prod.mk.injEq] at hnext
  obtain ⟨rfl, rfl⟩ := hnext
  exact ⟨rfl, hposition, rfl, rfl⟩

/-- The index of a walker does not overflow. -/
theorem position_of_next (h : walker.next = some (visit, after)) :
    after.position.toNat = walker.position.toNat + 1 := by
  obtain ⟨-, hposition, -, rfl⟩ := eq_of_next_eq_some h
  exact UInt32.toNat_ofNat_of_lt' (Nat.lt_of_le_of_lt hposition (UInt32.toNat_lt_size _))

theorem length_visitsFrom_le (visits : Array Visit) (count : Nat) (walker : Walker) :
    (visitsFrom visits count walker).length ≤ visits.size + count := by
  induction count generalizing visits walker with
  | zero => simp [visitsFrom]
  | succ count ih =>
    rw [visitsFrom]
    cases walker.next with
    | none => simp
    | some step =>
      have hrest := ih (visits.push step.1) step.2
      rw [Array.size_push] at hrest
      simp only
      omega

/-- The size hint is enough for all visits to come. -/
theorem length_rest_le (walker : Walker) : walker.rest.length ≤ walker.sizeHint.2 := by
  have hlength := length_visitsFrom_le #[] walker.sizeHint.2 walker
  rwa [Array.size_empty, Nat.zero_add] at hlength

theorem rest_eq_nil_iff : walker.rest = [] ↔ walker.next = none := by
  rw [rest_eq]
  cases walker.next <;> simp

end Walker

/-! ## Walkers and what they have given -/

/-- A walker with the results that it has given, those given before it was copied
included. -/
structure Trail where
  walker : Walker
  given : List (Except DecodeError DecodedNode)

/-- What can be done with the walkers of a file, which are counted as they come. -/
inductive WalkAction where
  | start
  | copy (which : Nat)
  | next (which : Nat)
  deriving DecidableEq, Repr

def Trail.advance (trail : Trail) : Trail :=
  match trail.walker.next with
  | none => trail
  | some (visit, after) => ⟨after, trail.given ++ [visit.attempt.result]⟩

namespace HistoryFile

/-- One action on the walkers. A walker that does not exist stays out of it. -/
def act (file : HistoryFile) (trails : List Trail) : WalkAction → List Trail
  | .start => trails ++ [⟨file.nodes, []⟩]
  | .copy which => trails ++ trails[which]?.toList
  | .next which => trails.modify which Trail.advance

/-- The walkers after some actions, of which none was begun before. -/
def run (file : HistoryFile) (actions : List WalkAction) : List Trail :=
  actions.foldl file.act []

end HistoryFile

/-! ## One action -/

/-- What has been given and what is still to come are all results of the file. -/
structure Trail.Accounts (trail : Trail) (file : HistoryFile) : Prop where
  file_eq : trail.walker.file = file
  position : trail.walker.position.toNat = trail.given.length
  results : trail.given ++ trail.walker.rest.map (fun visit => visit.attempt.result) =
    file.decodings
  failed_iff : trail.walker.failed = true ↔ ∃ cause, trail.given.getLast? = some (.error cause)

variable {file : HistoryFile} {trail : Trail}

theorem HistoryFile.accounts_nodes (file : HistoryFile) : Trail.Accounts ⟨file.nodes, []⟩ file where
  file_eq := rfl
  position := rfl
  results := file.outcomes_eq_decodings
  failed_iff := by simp [nodes]

theorem Trail.Accounts.advance (h : trail.Accounts file) : trail.advance.Accounts file := by
  rw [Trail.advance]
  cases hnext : trail.walker.next with
  | none => exact h
  | some step =>
    obtain ⟨visit, after⟩ := step
    obtain ⟨-, -, -, hafter⟩ := Walker.eq_of_next_eq_some hnext
    constructor
    · rw [hafter]
      exact h.file_eq
    · rw [Walker.position_of_next hnext, h.position, List.length_append, List.length_singleton]
    · rw [← h.results, Walker.rest_eq trail.walker, hnext]
      simp
    · rw [hafter, List.getLast?_append, List.getLast?_singleton, Option.some_or]
      rw [Visit.fails]
      cases visit.attempt.result <;> simp

theorem HistoryFile.accounts_act {trails : List Trail}
    (h : ∀ trail ∈ trails, trail.Accounts file) (action : WalkAction) :
    ∀ trail ∈ file.act trails action, trail.Accounts file := by
  cases action with
  | start =>
    rw [act, List.forall_mem_append]
    exact ⟨h, List.forall_mem_singleton.mpr file.accounts_nodes⟩
  | copy which =>
    rw [act, List.forall_mem_append]
    refine ⟨h, fun trail hmem => h trail ?_⟩
    rw [Option.mem_toList] at hmem
    exact List.mem_of_getElem? hmem
  | next which =>
    intro trail hmem
    rw [act, List.mem_iff_getElem?] at hmem
    obtain ⟨place, hplace⟩ := hmem
    rw [List.getElem?_modify, Option.map_eq_map, Option.map_eq_some_iff] at hplace
    obtain ⟨before, hbefore, rfl⟩ := hplace
    have haccounts := h before (List.mem_of_getElem? hbefore)
    split
    · exact haccounts.advance
    · exact haccounts

/-- A walker that has come to its end stays as it is, whatever is done with others. -/
theorem HistoryFile.getElem?_act_of_ended {trails : List Trail} {which : Nat}
    (htrail : trails[which]? = some trail) (hend : trail.walker.next = none)
    (action : WalkAction) : (file.act trails action)[which]? = some trail := by
  have hwhich := (List.getElem?_eq_some_iff.mp htrail).1
  cases action with
  | start => rw [act, List.getElem?_append_left hwhich, htrail]
  | copy other => rw [act, List.getElem?_append_left hwhich, htrail]
  | next other =>
    have hadvance : trail.advance = trail := by rw [Trail.advance, hend]
    rw [act, List.getElem?_modify, htrail]
    simp only [Option.map_eq_map, Option.map_some, hadvance, ite_self]

/-! ## Any number of actions -/

theorem HistoryFile.accounts_run (file : HistoryFile) (actions : List WalkAction) :
    ∀ trail ∈ file.run actions, trail.Accounts file := by
  induction actions using List.reverseRecOn with
  | nil => exact List.forall_mem_nil _
  | append_singleton actions action ih =>
    rw [run, List.foldl_append]
    exact accounts_act ih action

theorem HistoryFile.getElem?_run_of_ended {actions : List WalkAction} {which : Nat}
    (htrail : (file.run actions)[which]? = some trail) (hend : trail.walker.next = none)
    (more : List WalkAction) : (file.run (actions ++ more))[which]? = some trail := by
  induction more using List.reverseRecOn with
  | nil => rwa [List.append_nil]
  | append_singleton more action ih =>
    rw [← List.append_assoc, run, List.foldl_append]
    exact getElem?_act_of_ended ih hend action

/-! ## What a walker has given -/

/-- A walker stands behind what it has given, a first part of the results of the file. -/
structure Trail.Follows (trail : Trail) (file : HistoryFile) : Prop where
  given_prefix : trail.given <+: file.decodings
  position : trail.walker.position.toNat = trail.given.length
  position_le : trail.walker.position ≤ file.header.nodeCount
  position_next (visit : Visit) (after : Walker) (h : trail.walker.next = some (visit, after)) :
    after.position.toNat = trail.walker.position.toNat + 1
  next_eq_none_iff : trail.walker.next = none ↔ trail.given = file.decodings
  /-- After a node, with or without an issue, only the declared number ends the walk. -/
  goes_on (node : DecodedNode) (h : trail.given.getLast? = some (.ok node)) :
    trail.walker.next = none ↔ trail.walker.position = file.header.nodeCount
  /-- A failure is a truncation and ends the walk, one past the block that fails. -/
  stops (cause : DecodeError) (h : trail.given.getLast? = some (.error cause)) :
    trail.walker.next = none ∧
      (∃ field needed available, cause = .truncatedInput field needed available) ∧
      ∃ index : UInt32, trail.walker.position.toNat = index.toNat + 1 ∧
        (file.decode index).result = .error cause
  hint : trail.walker.sizeHint.1 ≤ file.decodings.length - trail.given.length ∧
    file.decodings.length - trail.given.length ≤ trail.walker.sizeHint.2
  hint_of_ok (h : ∀ index < file.header.nodeCount, ∃ node, (file.decode index).result = .ok node) :
    trail.walker.sizeHint.2 = file.decodings.length - trail.given.length
  hint_of_error (cause : DecodeError) (h : .error cause ∈ trail.given) :
    trail.walker.sizeHint = (0, 0)

namespace Trail.Accounts

theorem given_prefix (h : trail.Accounts file) : trail.given <+: file.decodings :=
  ⟨_, h.results⟩

theorem length_rest (h : trail.Accounts file) :
    trail.walker.rest.length = file.decodings.length - trail.given.length := by
  rw [← h.results, List.length_append, List.length_map, Nat.add_sub_cancel_left]

theorem position_le (h : trail.Accounts file) :
    trail.walker.position.toNat ≤ file.header.nodeCount.toNat := by
  rw [h.position]
  exact h.given_prefix.length_le.trans file.length_decodings_le

theorem next_eq_none_iff (h : trail.Accounts file) :
    trail.walker.next = none ↔ trail.given = file.decodings := by
  rw [← Walker.rest_eq_nil_iff, ← h.results, List.self_eq_append_right, List.map_eq_nil_iff]

/-- A failure can only be the last that was given. -/
theorem getLast?_of_error_mem (h : trail.Accounts file) {cause : DecodeError}
    (hmem : .error cause ∈ trail.given) : trail.given.getLast? = some (.error cause) := by
  obtain ⟨nodes, hnodes⟩ := HistoryFile.error_mem_decodings_iff.mp (h.given_prefix.subset hmem)
  have hprefix := h.given_prefix
  rw [hnodes, List.prefix_concat_iff] at hprefix
  rcases hprefix with hall | hpart
  · rw [hall, List.getLast?_concat]
  · have hnode := hpart.subset hmem
    simp at hnode

/-- The block that failed is the one before the position. -/
theorem decode_of_getLast? (h : trail.Accounts file) {result : Except DecodeError DecodedNode}
    (hlast : trail.given.getLast? = some result) :
    ∃ index : UInt32, trail.walker.position.toNat = index.toNat + 1 ∧
      (file.decode index).result = result := by
  rw [List.getLast?_eq_getElem?, List.getElem?_eq_some_iff] at hlast
  obtain ⟨hindex, hresult⟩ := hlast
  have hplace : trail.given.length - 1 < file.decodings.length :=
    Nat.lt_of_lt_of_le hindex h.given_prefix.length_le
  have hword : trail.given.length - 1 < UInt32.size :=
    Nat.lt_of_lt_of_le hplace (file.length_decodings_le.trans (UInt32.toNat_lt_size _).le)
  refine ⟨UInt32.ofNat (trail.given.length - 1), ?_, ?_⟩
  · rw [UInt32.toNat_ofNat_of_lt' hword, h.position]
    omega
  · rw [← hresult, h.given_prefix.getElem hindex, HistoryFile.getElem_decodings hplace]
    rfl

theorem not_failed_of_ok (h : trail.Accounts file)
    (hall : ∀ index < file.header.nodeCount, ∃ node, (file.decode index).result = .ok node) :
    trail.walker.failed = false := by
  rw [← Bool.not_eq_true, h.failed_iff]
  rintro ⟨cause, hlast⟩
  obtain ⟨index, hposition, hfails⟩ := h.decode_of_getLast? hlast
  have hindex : index < file.header.nodeCount := by
    have hle := h.position_le
    rw [hposition] at hle
    exact UInt32.lt_iff_toNat_lt.mpr hle
  obtain ⟨node, hnode⟩ := hall index hindex
  rw [hfails] at hnode
  contradiction

theorem sizeHint_of_ok (h : trail.Accounts file)
    (hall : ∀ index < file.header.nodeCount, ∃ node, (file.decode index).result = .ok node) :
    trail.walker.sizeHint.2 = file.decodings.length - trail.given.length := by
  have hlength : file.decodings.length = file.header.nodeCount.toNat := by
    apply HistoryFile.length_decodings_of_ok
    intro index hindex
    have hword : (UInt32.ofNat index).toNat = index :=
      UInt32.toNat_ofNat_of_lt' (hindex.trans (UInt32.toNat_lt_size _))
    exact hall (UInt32.ofNat index) (UInt32.lt_iff_toNat_lt.mpr (hword.symm ▸ hindex))
  rw [Walker.sizeHint, h.not_failed_of_ok hall, h.file_eq, hlength, h.position]
  rfl

theorem follows (h : trail.Accounts file) : trail.Follows file where
  given_prefix := h.given_prefix
  position := h.position
  position_le := UInt32.le_iff_toNat_le.mpr h.position_le
  position_next _ _ hnext := Walker.position_of_next hnext
  next_eq_none_iff := h.next_eq_none_iff
  goes_on node hlast := by
    have hgoes : ¬ trail.walker.failed = true := by
      rw [h.failed_iff, hlast]
      rintro ⟨cause, hcause⟩
      cases hcause
    rw [Walker.next_eq_none_iff, or_iff_right hgoes, h.file_eq, ← UInt32.toNat_inj]
    exact ⟨fun hle => Nat.le_antisymm h.position_le hle, fun heq => heq.ge⟩
  stops cause hlast := by
    obtain ⟨index, hposition, hfails⟩ := h.decode_of_getLast? hlast
    refine ⟨Walker.next_of_failed (h.failed_iff.mpr ⟨cause, hlast⟩), ?_, index, hposition, hfails⟩
    exact DecodeError.isRecoverable_eq_false_iff.mp (file.failsTruncated_decode index cause hfails)
  hint := by
    rw [← h.length_rest]
    refine ⟨?_, Walker.length_rest_le _⟩
    rw [Walker.sizeHint]
    split <;> exact Nat.zero_le _
  hint_of_ok := h.sizeHint_of_ok
  hint_of_error cause hmem := by
    have hfailed := h.failed_iff.mpr ⟨cause, h.getLast?_of_error_mem hmem⟩
    rw [Walker.sizeHint, if_pos hfailed]

end Trail.Accounts

/-- However walkers are begun, copied and moved on, each follows the results of the
file, for good once it has come to its end; and the results decide what decoding the
whole file gives. -/
theorem HistoryFile.run_follows (file : HistoryFile) (actions : List WalkAction) :
    (∀ trail ∈ file.run actions, trail.Follows file) ∧
      (∀ (which : Nat) (trail : Trail), (file.run actions)[which]? = some trail →
        trail.walker.next = none → ∀ more, (file.run (actions ++ more))[which]? = some trail) ∧
      (∀ records, file.decodeAll.result = .ok records ↔
        ∃ nodes : List DecodedNode,
          file.decodings = nodes.map .ok ∧ records = nodes.map (·.record)) ∧
      ∀ cause, file.decodeAll.result = .error cause ↔ .error cause ∈ file.decodings := by
  refine ⟨?_, ?_, ?_, ?_⟩
  · intro trail hmem
    exact (file.accounts_run actions trail hmem).follows
  · intro which trail htrail hend more
    exact getElem?_run_of_ended htrail hend more
  · intro records
    exact result_decodeAll_eq_ok_iff
  · intro cause
    exact result_decodeAll_eq_error_iff

/-- A file of zeros that declares two blocks and ends within the second. -/
def shortFile : HistoryFile where
  header := {
    magic := 0, major := 0, minor := 0, blockSize := 34, maxChildren := 0, nodeCount := 2
    rootSeq := ⟨0⟩ }
  data := Bytes.zeros 4140

theorem run_follows_shortFile :
    ∃ trail, (shortFile.run [.start, .next 0, .copy 0, .next 1, .next 1])[1]? = some trail ∧
      trail.walker.next = none ∧ trail.given.length = 2 ∧ trail.Follows shortFile ∧
      (shortFile.run ([.start, .next 0, .copy 0, .next 1, .next 1] ++ [.next 1]))[1]? =
        some trail := by
  have hrun : ((shortFile.run [.start, .next 0, .copy 0, .next 1, .next 1])[1]?.map fun trail =>
      (trail.walker.next.isNone, trail.given.length)) = some (true, 2) := by decide +kernel
  obtain ⟨trail, htrail, hanswers⟩ := Option.map_eq_some_iff.mp hrun
  obtain ⟨hnone, hgiven⟩ := Prod.mk.inj hanswers
  have hend := Option.isNone_iff_eq_none.mp hnone
  have hfollows := shortFile.run_follows [.start, .next 0, .copy 0, .next 1, .next 1]
  exact ⟨trail, htrail, hend, hgiven, hfollows.1 trail (List.mem_of_getElem? htrail),
    hfollows.2.1 1 trail htrail hend [.next 1]⟩

end HistoryTree
