/-!
# Tabulation

Reading a declared number of entries one after another. The first entry that
cannot be read ends it, so a count may be far larger than what is there. What
comes of it is said by `tabulate_eq_ok_iff` and `tabulate_eq_error_iff`.
-/

namespace HistoryTree

variable {ε α : Type}

/-- Appends `count` more entries to `entries`, which is how many there are already. -/
def tabulateFrom (entry : Nat → Except ε α) (entries : Array α) :
    (count : Nat) → Except ε (List α)
  | 0 => .ok entries.toList
  | count + 1 => do
    let next ← entry entries.size
    tabulateFrom entry (entries.push next) count

/-- The entries `0` to `count - 1`, or the failure of the first that has none. -/
def tabulate (count : Nat) (entry : Nat → Except ε α) : Except ε (List α) :=
  tabulateFrom entry #[] count

theorem tabulateFrom_eq_ok_iff {entry : Nat → Except ε α} {entries : Array α} {count : Nat}
    {list : List α} :
    tabulateFrom entry entries count = .ok list ↔
      list.length = entries.size + count ∧ entries.toList <+: list ∧
        ∀ index, entries.size ≤ index → (h : index < list.length) →
          entry index = .ok list[index] := by
  induction count generalizing entries with
  | zero =>
    simp only [tabulateFrom, Except.ok.injEq]
    constructor
    · rintro rfl
      refine ⟨by simp, List.prefix_rfl, ?_⟩
      intro index hsize hlength
      simp at hlength
      omega
    · rintro ⟨hlength, hprefix, -⟩
      exact hprefix.eq_of_length (by simpa using hlength.symm)
  | succ count ih =>
    rw [tabulateFrom]
    cases hnext : entry entries.size with
    | error failure =>
      simp only [bind, Except.bind, reduceCtorEq, false_iff]
      rintro ⟨hlength, -, hentries⟩
      simpa [hnext] using hentries entries.size (Nat.le_refl _) (by omega)
    | ok next =>
      simp only [bind, Except.bind, ih, Array.size_push, Array.toList_push]
      constructor
      · rintro ⟨hlength, hprefix, hentries⟩
        have hbefore := (List.prefix_append entries.toList [next]).trans hprefix
        refine ⟨by omega, hbefore, ?_⟩
        intro index hsize hindex
        by_cases hsame : index = entries.size
        · subst hsame
          obtain ⟨rest, rfl⟩ := hprefix
          simp [hnext]
        · exact hentries index (by omega) hindex
      · rintro ⟨hlength, ⟨rest, rfl⟩, hentries⟩
        cases rest with
        | nil => simp at hlength
        | cons first rest =>
          have hfirst := hentries entries.size (Nat.le_refl _) (by simp)
          simp [hnext] at hfirst
          subst hfirst
          refine ⟨by omega, ⟨rest, by simp⟩, ?_⟩
          intro index hsize hindex
          exact hentries index (by omega) hindex

theorem tabulateFrom_eq_error_iff {entry : Nat → Except ε α} {entries : Array α} {count : Nat}
    {failure : ε} :
    tabulateFrom entry entries count = .error failure ↔
      ∃ index, entries.size ≤ index ∧ index < entries.size + count ∧
        entry index = .error failure ∧
        ∀ earlier, entries.size ≤ earlier → earlier < index →
          ∃ value, entry earlier = .ok value := by
  induction count generalizing entries with
  | zero =>
    simp only [tabulateFrom, reduceCtorEq, false_iff]
    rintro ⟨index, hsize, hindex, -⟩
    omega
  | succ count ih =>
    rw [tabulateFrom]
    cases hnext : entry entries.size with
    | error cause =>
      simp only [bind, Except.bind, Except.error.injEq]
      constructor
      · rintro rfl
        exact ⟨entries.size, Nat.le_refl _, by omega, hnext, fun _ _ _ => by omega⟩
      · rintro ⟨index, hsize, -, hindex, hearlier⟩
        by_cases hsame : index = entries.size
        · simpa [hsame, hnext] using hindex
        · obtain ⟨value, hvalue⟩ := hearlier entries.size (Nat.le_refl _) (by omega)
          simp [hnext] at hvalue
    | ok next =>
      simp only [bind, Except.bind, ih, Array.size_push]
      constructor
      · rintro ⟨index, hsize, hcount, hindex, hearlier⟩
        refine ⟨index, by omega, by omega, hindex, ?_⟩
        intro earlier hbefore hafter
        by_cases hsame : earlier = entries.size
        · exact ⟨next, by rw [hsame, hnext]⟩
        · exact hearlier earlier (by omega) hafter
      · rintro ⟨index, hsize, hcount, hindex, hearlier⟩
        have hlater : index ≠ entries.size := by
          rintro rfl
          simp [hnext] at hindex
        exact ⟨index, by omega, by omega, hindex,
          fun earlier hbefore => hearlier earlier (by omega)⟩

/-- All entries can be read, and the list holds each at its place. -/
theorem tabulate_eq_ok_iff {entry : Nat → Except ε α} {count : Nat} {list : List α} :
    tabulate count entry = .ok list ↔
      list.length = count ∧
        ∀ index, (h : index < list.length) → entry index = .ok list[index] := by
  simp [tabulate, tabulateFrom_eq_ok_iff]

/-- There is an entry that cannot be read, and all before it can. -/
theorem tabulate_eq_error_iff {entry : Nat → Except ε α} {count : Nat} {failure : ε} :
    tabulate count entry = .error failure ↔
      ∃ index < count, entry index = .error failure ∧
        ∀ earlier < index, ∃ value, entry earlier = .ok value := by
  simp [tabulate, tabulateFrom_eq_error_iff]

end HistoryTree
