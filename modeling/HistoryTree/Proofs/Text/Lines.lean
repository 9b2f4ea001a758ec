import Mathlib.Data.List.Infix

/-!
# Lines

A text is taken apart at its line breaks. Lines without line breaks of their own are the
lines of the text that they are put together to, whether each is begun by a line break
(`splitOn_flatMap_cons`) or ended by one (`splitOn_flatMap_snoc`).
-/

namespace HistoryTree

/-- The parts of a text between its line breaks. -/
def linesOf (text : String) : List (List Char) :=
  text.toList.splitOn '\n'

theorem splitOn_of_not_mem {line : List Char} (h : '\n' ∉ line) :
    line.splitOn '\n' = [line] := by
  apply List.splitOnP_eq_singleton
  intro char hchar
  exact beq_false_of_ne fun hequal => h (hequal ▸ hchar)

/-- Each line that is added after a line break is a line of the whole text. -/
theorem splitOn_flatMap_cons {lines : List (List Char)} (h : ∀ line ∈ lines, '\n' ∉ line)
    (front : List Char) :
    (front ++ lines.flatMap ('\n' :: ·)).splitOn '\n' = front.splitOn '\n' ++ lines := by
  induction lines generalizing front with
  | nil => simp
  | cons line rest ih =>
    rw [List.forall_mem_cons] at h
    have hfront : (front ++ '\n' :: line).splitOn '\n' =
        front.splitOn '\n' ++ line.splitOn '\n' :=
      List.splitOnP_append_cons front line rfl
    rw [List.flatMap_cons, ← List.append_assoc, ih h.2, hfront, splitOn_of_not_mem h.1,
      List.append_assoc]
    rfl

/-- Nothing follows the line break that ends the last line. -/
theorem splitOn_flatMap_snoc {lines : List (List Char)} (h : ∀ line ∈ lines, '\n' ∉ line) :
    (lines.flatMap (· ++ ['\n'])).splitOn '\n' = lines ++ [[]] := by
  induction lines with
  | nil => rfl
  | cons line rest ih =>
    rw [List.forall_mem_cons] at h
    have hline : (line ++ '\n' :: rest.flatMap (· ++ ['\n'])).splitOn '\n' =
        line.splitOn '\n' ++ (rest.flatMap (· ++ ['\n'])).splitOn '\n' :=
      List.splitOnP_append_cons line _ rfl
    rw [List.flatMap_cons, List.append_assoc, List.singleton_append, hline,
      splitOn_of_not_mem h.1, ih h.2]
    rfl

/-- A mark that two stretches lack shows where they end. -/
theorem append_cons_inj_of_not_mem {α : Type} {left right restLeft restRight : List α} {mark : α}
    (hleft : mark ∉ left) (hright : mark ∉ right) :
    left ++ mark :: restLeft = right ++ mark :: restRight ↔
      left = right ∧ restLeft = restRight := by
  constructor
  · intro hequal
    induction left generalizing right with
    | nil =>
      cases right with
      | nil => exact ⟨rfl, List.tail_eq_of_cons_eq hequal⟩
      | cons first right => exact absurd (List.head_eq_of_cons_eq hequal ▸ List.mem_cons_self) hright
    | cons first left ih =>
      cases right with
      | nil => exact absurd (List.head_eq_of_cons_eq hequal ▸ List.mem_cons_self) hleft
      | cons second right =>
        rw [List.mem_cons, not_or] at hleft hright
        obtain ⟨rfl, hrest⟩ := List.cons.inj hequal
        obtain ⟨rfl, hrests⟩ := ih hleft.2 hright.2 hrest
        exact ⟨rfl, hrests⟩
  · rintro ⟨rfl, rfl⟩
    rfl

end HistoryTree
