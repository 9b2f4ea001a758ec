import HistoryTree.Proofs.Text.Numbers
import HistoryTree.Text.Quoted

/-!
# Quoted texts give themselves back

A character is quoted in one of three ways (`Escape`), and none of them is the beginning of
another (`Escape.append_inj`). So quoted texts are the same only for the same text
(`quote_inj`). None of the ways has a line break (`Escape.newline_not_mem`), whatever is
quoted.
-/

namespace HistoryTree.Text

/-- The characters with an escape of their own, each with the mark behind the backslash. -/
def shortEscapes : List (Char × Char) :=
  [('\x00', '0'), ('\t', 't'), ('\n', 'n'), ('\r', 'r'), ('"', '"'), ('\\', '\\')]

/-- How a character is quoted. -/
inductive Escape : Char → List Char → Prop where
  | plain {char : Char} (notBackslash : char ≠ '\\') (notQuote : char ≠ '"')
      (notNewline : char ≠ '\n') : Escape char [char]
  | short {char mark : Char} (known : (char, mark) ∈ shortEscapes) : Escape char ['\\', mark]
  | long (char : Char) : Escape char ('\\' :: 'u' :: '\x7b' :: (hexDigits char.toNat ++ ['\x7d']))

theorem escape_escapeChar (char : Char) : Escape char (escapeChar char) := by
  unfold escapeChar
  split
  case h_7 _ _ hnewline _ hquote hbackslash =>
    split
    · exact .long char
    · exact .plain hbackslash hquote hnewline
  all_goals exact .short (by decide)

namespace Escape

variable {first second char : Char} {left right chars restLeft restRight : List Char}

theorem newline_not_mem (h : Escape char chars) : '\n' ∉ chars := by
  cases h with
  | plain _ _ notNewline => exact fun hmem => notNewline (List.mem_singleton.mp hmem).symm
  | @short mark known =>
    have hmark : ∀ entry ∈ shortEscapes, '\n' ∉ ['\\', entry.2] := by decide
    exact hmark (char, mark) known
  | long =>
    have hdigits : '\n' ∉ hexDigits char.toNat := not_mem_hexDigits (by decide) _
    simp [hdigits]

theorem ne_nil (h : Escape char chars) : chars ≠ [] := by
  cases h <;> exact List.cons_ne_nil _ _

/-- What follows an escape does not change how it is read. -/
theorem append_inj (hleft : Escape first left) (hright : Escape second right)
    (h : left ++ restLeft = right ++ restRight) : first = second ∧ restLeft = restRight := by
  have hmark : ∀ entry ∈ shortEscapes, entry.2 ≠ 'u' := by decide
  have hmarks : ∀ entry ∈ shortEscapes, ∀ other ∈ shortEscapes,
      entry.2 = other.2 → entry.1 = other.1 := by decide
  cases hleft with
  | plain notBackslash =>
    cases hright with
    | plain => exact List.cons.inj h
    | short => exact absurd (List.head_eq_of_cons_eq h) notBackslash
    | long => exact absurd (List.head_eq_of_cons_eq h) notBackslash
  | short known =>
    cases hright with
    | plain notBackslash => exact absurd (List.head_eq_of_cons_eq h).symm notBackslash
    | short knownRight =>
      obtain ⟨hequal, hrest⟩ := List.cons.inj (List.tail_eq_of_cons_eq h)
      exact ⟨hmarks _ known _ knownRight hequal, hrest⟩
    | long => exact absurd (List.head_eq_of_cons_eq (List.tail_eq_of_cons_eq h)) (hmark _ known)
  | long =>
    cases hright with
    | plain notBackslash => exact absurd (List.head_eq_of_cons_eq h).symm notBackslash
    | short known =>
      exact absurd (List.head_eq_of_cons_eq (List.tail_eq_of_cons_eq h)).symm (hmark _ known)
    | long =>
      -- The digits of a code point end at the closing brace.
      have hend (number : Nat) : '\x7d' ∉ hexDigits number := not_mem_hexDigits (by decide) number
      have hdigits : hexDigits first.toNat ++ '\x7d' :: restLeft =
          hexDigits second.toNat ++ '\x7d' :: restRight := by
        simpa using h
      obtain ⟨hnumber, hrest⟩ := (append_cons_inj_of_not_mem (hend _) (hend _)).mp hdigits
      exact ⟨Char.toNat_inj.mp (hexDigits_inj hnumber), hrest⟩

end Escape

theorem flatMap_escapeChar_inj {left right : List Char}
    (h : left.flatMap escapeChar = right.flatMap escapeChar) : left = right := by
  induction left generalizing right with
  | nil =>
    cases right with
    | nil => rfl
    | cons second right =>
      exact absurd (List.append_eq_nil_iff.mp h.symm).1 (escape_escapeChar second).ne_nil
  | cons first left ih =>
    cases right with
    | nil => exact absurd (List.append_eq_nil_iff.mp h).1 (escape_escapeChar first).ne_nil
    | cons second right =>
      rw [List.flatMap_cons, List.flatMap_cons] at h
      obtain ⟨rfl, hrest⟩ := (escape_escapeChar first).append_inj (escape_escapeChar second) h
      rw [ih hrest]

theorem quote_inj {left right : String} (h : quote left = quote right) : left = right := by
  have hlists := List.append_cancel_right (String.ofList_injective h)
  exact String.toList_injective (flatMap_escapeChar_inj (List.tail_eq_of_cons_eq hlists))

theorem lacks_quote (text : String) : Lacks (quote text) '\n' := by
  have hescapes : '\n' ∉ text.toList.flatMap escapeChar := by
    rw [List.mem_flatMap]
    rintro ⟨char, -, hmem⟩
    exact (escape_escapeChar char).newline_not_mem hmem
  rw [Lacks, quote, String.toList_ofList]
  simp [hescapes]

example : quote "end\nnode 7:\t\"" = "\"end\\nnode 7:\\t\\\"\"" := by decide

theorem not_lacks_quote (text : String) : ¬ Lacks (quote text) '"' := by
  rw [Lacks, quote, String.toList_ofList, Classical.not_not]
  exact List.mem_cons_self

end HistoryTree.Text
