import HistoryTree.Attempt
import HistoryTree.Tabulate

/-!
# Sequences that succeed

What it takes for steps that may fail to succeed one after another, said by
equivalences that can be rewritten with.
-/

namespace HistoryTree

variable {ε ε' α β : Type}

/-- A sequence succeeds if its first part does, and the second on what that gives. -/
@[simp]
theorem bind_eq_ok_iff {first : Except ε α} {next : α → Except ε β} {value : β} :
    first >>= next = .ok value ↔ ∃ middle, first = .ok middle ∧ next middle = .ok value := by
  cases first with
  | error cause => simp [bind, Except.bind]
  | ok middle => simp [bind, Except.bind]

@[simp]
theorem ok_bind (value : α) (next : α → Except ε β) : Except.ok value >>= next = next value :=
  rfl

@[simp]
theorem pure_eq_ok_iff {given value : α} :
    (pure given : Except ε α) = .ok value ↔ given = value :=
  ⟨fun h => Except.ok.inj h, fun h => congrArg Except.ok h⟩

@[simp]
theorem mapError_eq_ok_iff {result : Except ε α} {change : ε → ε'} {value : α} :
    result.mapError change = .ok value ↔ result = .ok value := by
  cases result with
  | error cause => exact ⟨nofun, nofun⟩
  | ok given =>
    change Except.ok given = .ok value ↔ _
    rw [Except.ok.injEq, Except.ok.injEq]

theorem mapError_eq_error_iff {result : Except ε α} {change : ε → ε'} {cause : ε'} :
    result.mapError change = .error cause ↔
      ∃ inner, result = .error inner ∧ cause = change inner := by
  cases result with
  | error given =>
    change Except.error (change given) = .error cause ↔ _
    simp [eq_comm]
  | ok value => exact ⟨nofun, nofun⟩

theorem mapError_bind (first : Except ε α) (next : α → Except ε β) (change : ε → ε') :
    (first >>= next).mapError change =
      first.mapError change >>= fun value => (next value).mapError change := by
  cases first with
  | error cause => rfl
  | ok value => rfl

/-- A loop may take another body that does the same with the entries and the states
that it meets. -/
theorem foldlM_congr {list : List α} {first second : β → α → Except ε β} {start : β}
    (invariant : β → Prop) (hstart : invariant start)
    (hsame : ∀ entry ∈ list, ∀ state, invariant state → first state entry = second state entry)
    (hkeep : ∀ entry ∈ list, ∀ state next, invariant state →
      second state entry = .ok next → invariant next) :
    list.foldlM first start = list.foldlM second start := by
  induction list generalizing start with
  | nil => rfl
  | cons entry rest ih =>
    rw [List.foldlM_cons, List.foldlM_cons, hsame entry List.mem_cons_self start hstart]
    cases hstep : second start entry with
    | error cause => rfl
    | ok next =>
      exact ih (hkeep entry List.mem_cons_self start next hstart hstep)
        (fun later hlater => hsame later (List.mem_cons_of_mem _ hlater))
        (fun later hlater => hkeep later (List.mem_cons_of_mem _ hlater))

/-- A loop over a list with its indexes comes to the last entry in the end. -/
theorem zipIdx_snoc (list : List α) (entry : α) :
    (list ++ [entry]).zipIdx = list.zipIdx ++ [(entry, list.length)] := by
  rw [List.zipIdx_append, Nat.zero_add, List.zipIdx_singleton]

/-- What a loop over a list with its indexes collects, round by round. -/
theorem mem_flatMap_zipIdx {list : List α} {collect : α × Nat → List β} {value : β} :
    value ∈ list.zipIdx.flatMap collect ↔
      ∃ index, ∃ h : index < list.length, value ∈ collect (list[index], index) := by
  rw [List.mem_flatMap]
  constructor
  · intro hmem
    obtain ⟨⟨entry, index⟩, hentry, hvalue⟩ := hmem
    obtain ⟨hindex, hat⟩ := List.mem_zipIdx' hentry
    exact ⟨index, hindex, hat ▸ hvalue⟩
  · intro hround
    obtain ⟨index, hindex, hvalue⟩ := hround
    refine ⟨(list[index], index), ?_, hvalue⟩
    rw [List.mem_zipIdx_iff_getElem?]
    exact List.getElem?_eq_getElem hindex

/-- A change of one entry shows in what is taken from a list as a change of it. -/
theorem map_modify {change : α → α} {change' : β → β} {take : α → β}
    (h : ∀ entry, take (change entry) = change' (take entry)) (list : List α) (index : Nat) :
    (list.modify index change).map take = (list.map take).modify index change' := by
  apply List.ext_getElem?
  intro place
  rw [List.getElem?_map, List.getElem?_modify, List.getElem?_modify, List.getElem?_map]
  cases list[place]? with
  | none => rfl
  | some entry =>
    simp only [Option.map_eq_map, Option.map_some]
    split
    · rw [h]
    · rfl

/-- So a list of what the change keeps stays the same. -/
theorem map_modify_of_kept {change : α → α} {take : α → β}
    (h : ∀ entry, take (change entry) = take entry) (list : List α) (index : Nat) :
    (list.modify index change).map take = list.map take :=
  (map_modify h list index).trans (List.modify_id index _)

/-- If all entries can be read, so can the list of them. -/
theorem tabulate_eq_map {entry : Nat → Except ε α} {count : Nat} {value : Nat → α}
    (h : ∀ index < count, entry index = .ok (value index)) :
    tabulate count entry = .ok ((List.range count).map value) := by
  rw [tabulate_eq_ok_iff]
  constructor
  · rw [List.length_map, List.length_range]
  intro index hindex
  rw [List.length_map, List.length_range] at hindex
  rw [h index hindex, List.getElem_map, List.getElem_range]

namespace Attempt

/-- An attempt is its notices and its result. -/
theorem eq_of_parts {first second : Attempt α} (hnotices : first.notices = second.notices)
    (hresult : first.result = second.result) : first = second := by
  cases first
  cases second
  cases hnotices
  cases hresult
  rfl

theorem lift_ok_bind (value : α) (next : α → Attempt β) :
    liftM (Except.ok value : Except DecodeError α) >>= next = next value := rfl

theorem notices_lift_error_bind (cause : DecodeError) (next : α → Attempt β) :
    (liftM (Except.error cause : Except DecodeError α) >>= next).notices = [] := rfl

/-- What issues no notices leaves those that were issued before. -/
theorem notices_bind_of_silent (first : Attempt α) {next : α → Attempt β}
    (h : ∀ value, (next value).notices = []) : (first >>= next).notices = first.notices := by
  rw [notices_bind]
  cases first.result with
  | error cause => exact List.append_nil _
  | ok value => simp only [h, List.append_nil]

theorem notices_lift_bind_pure (result : Except DecodeError α) (value : α → β) :
    (liftM result >>= fun given => (pure (value given) : Attempt β)).notices = [] :=
  notices_bind_of_silent _ fun _ => rfl

end Attempt

end HistoryTree
