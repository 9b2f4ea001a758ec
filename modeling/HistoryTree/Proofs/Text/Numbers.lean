import HistoryTree.Proofs.Text.Lines
import HistoryTree.Text.Hex
import Std.Data.String.ToInt

/-!
# Numbers in texts

A number is shown by its digits alone, so whatever is no digit shows where it ends; and
numbers that are shown alike are the same.
-/

namespace HistoryTree.Text

/-- The character does not occur in the text. -/
def Lacks (text : String) (char : Char) : Prop :=
  char ∉ text.toList

instance (text : String) (char : Char) : Decidable (Lacks text char) :=
  inferInstanceAs (Decidable (char ∉ text.toList))

theorem lacks_append {left right : String} {char : Char} :
    Lacks (left ++ right) char ↔ Lacks left char ∧ Lacks right char := by
  rw [Lacks, Lacks, Lacks, String.toList_append, List.mem_append, not_or]

/-- A text that has a character is none that lacks it. -/
theorem Lacks.ne {left right : String} {char : Char} (hleft : Lacks left char)
    (hright : ¬ Lacks right char) : left ≠ right := by
  rintro rfl
  exact hright hleft

/-- Texts that lack the mark of a separator end where the separator stands. -/
theorem append_separator_inj {left right separator restLeft restRight : String} {mark : Char}
    (hmark : separator.toList.head? = some mark) (hleft : Lacks left mark)
    (hright : Lacks right mark)
    (h : left ++ (separator ++ restLeft) = right ++ (separator ++ restRight)) :
    left = right ∧ restLeft = restRight := by
  obtain ⟨tail, htail⟩ := List.head?_eq_some_iff.mp hmark
  have hlists := congrArg String.toList h
  simp only [String.toList_append, htail, List.cons_append] at hlists
  obtain ⟨hfront, hrest⟩ := (append_cons_inj_of_not_mem hleft hright).mp hlists
  exact ⟨String.toList_injective hfront, String.toList_injective (List.append_cancel_left hrest)⟩

/-- Texts with labels of which neither begins the other are not the same. -/
theorem append_ne_append {left right label other : String}
    (hleft : ¬ label.toList <+: other.toList) (hright : ¬ other.toList <+: label.toList) :
    label ++ left ≠ other ++ right := by
  intro h
  have hlabel : label.toList <+: (label ++ left).toList := by
    rw [String.toList_append]
    exact List.prefix_append _ _
  have hother : other.toList <+: (label ++ left).toList := by
    rw [h, String.toList_append]
    exact List.prefix_append _ _
  exact (List.prefix_or_prefix_of_prefix hlabel hother).elim hleft hright

/-! ## Digits -/

theorem exists_digitChar_of_mem_toDigits {base number : Nat} {char : Char} (hbase : 1 < base)
    (h : char ∈ Nat.toDigits base number) : ∃ digit < base, char = Nat.digitChar digit := by
  induction number using Nat.strongRecOn with
  | ind number ih =>
    rw [Nat.toDigits_eq_if hbase] at h
    split at h
    next hsmall => exact ⟨number, hsmall, List.mem_singleton.mp h⟩
    next hlarge =>
      have hpositive : 0 < number := by omega
      rcases List.mem_append.mp h with hfront | hlast
      · exact ih (number / base) (Nat.div_lt_self hpositive hbase) hfront
      · exact ⟨number % base, Nat.mod_lt _ (Nat.zero_lt_of_lt hbase), List.mem_singleton.mp hlast⟩

theorem digitChar_inj : ∀ left < 16, ∀ right < 16,
    Nat.digitChar left = Nat.digitChar right → left = right := by
  decide

/-- Numbers with the same digits are the same, by induction on the digits from the back. -/
theorem toDigits_inj {base left right : Nat} (hbase : 1 < base) (hdigits : base ≤ 16)
    (h : Nat.toDigits base left = Nat.toDigits base right) : left = right := by
  have hdigit {first second : Nat} (hfirst : first < base) (hsecond : second < base)
      (hchar : Nat.digitChar first = Nat.digitChar second) : first = second :=
    digitChar_inj first (Nat.lt_of_lt_of_le hfirst hdigits) second
      (Nat.lt_of_lt_of_le hsecond hdigits) hchar
  have hpositive : 0 < base := Nat.zero_lt_of_lt hbase
  induction left using Nat.strongRecOn generalizing right with
  | ind left ih =>
    rw [Nat.toDigits_eq_if hbase, Nat.toDigits_eq_if (n := right) hbase] at h
    split at h
    next hleft =>
      split at h
      next hright => exact hdigit hleft hright (List.singleton_inj.mp h)
      next =>
        rw [List.singleton_eq_append_iff] at h
        simp [Nat.toDigits_ne_nil] at h
    next hleft =>
      split at h
      next =>
        rw [List.append_eq_singleton_iff] at h
        simp [Nat.toDigits_ne_nil] at h
      next =>
        obtain ⟨hfront, hlast⟩ := List.append_inj' h rfl
        have hquotient := ih (left / base) (Nat.div_lt_self (by omega) hbase) hfront
        have hremainder := hdigit (Nat.mod_lt left hpositive) (Nat.mod_lt right hpositive)
          (List.singleton_inj.mp hlast)
        rw [← Nat.div_add_mod left base, hquotient, hremainder, Nat.div_add_mod]

theorem hexDigits_inj {left right : Nat} (h : hexDigits left = hexDigits right) : left = right :=
  toDigits_inj (by decide) (by decide) h

theorem not_mem_hexDigits {char : Char} (h : ∀ digit < 16, char ≠ Nat.digitChar digit)
    (number : Nat) : char ∉ hexDigits number := by
  intro hmem
  obtain ⟨digit, hsmall, hchar⟩ := exists_digitChar_of_mem_toDigits (by decide) hmem
  exact h digit hsmall hchar

/-! ## Shown numbers -/

theorem lacks_nat {char : Char} (h : char.isDigit = false) (number : Nat) :
    Lacks (toString number) char := by
  rw [Lacks, Nat.toString_eq_ofList_toDigits, String.toList_ofList]
  intro hmem
  rw [Nat.isDigit_of_mem_toDigits (by decide) (by decide) hmem] at h
  contradiction

theorem lacks_int {char : Char} (h : char.isDigit = false) (hminus : char ≠ '-') (number : Int) :
    Lacks (toString number) char := by
  cases number with
  | ofNat number => exact lacks_nat h number
  | negSucc number =>
    change Lacks ("-" ++ toString number.succ) char
    rw [lacks_append]
    exact ⟨fun hmem => hminus (List.mem_singleton.mp hmem), lacks_nat h number.succ⟩

theorem lacks_word {char : Char} (h : char.isDigit = false) (word : UInt32) :
    Lacks (toString word) char :=
  lacks_nat h word.toNat

theorem lacks_byte {char : Char} (h : char.isDigit = false) (byte : UInt8) :
    Lacks (toString byte) char :=
  lacks_nat h byte.toNat

theorem lacks_hexWord {char : Char} (h : ∀ digit < 16, char ≠ Nat.digitChar digit)
    (word : UInt32) : Lacks (hexWord word) char := by
  rw [Lacks, hexWord, String.toList_ofList, List.leftpad, List.mem_append, not_or]
  refine ⟨fun hmem => ?_, not_mem_hexDigits h word.toNat⟩
  exact h 0 (by decide) (List.eq_of_mem_replicate hmem)

theorem toString_word_inj {left right : UInt32} (h : toString left = toString right) :
    left = right :=
  UInt32.toNat_inj.mp (Nat.repr_injective h)

theorem toString_byte_inj {left right : UInt8} (h : toString left = toString right) :
    left = right :=
  UInt8.toNat_inj.mp (Nat.repr_injective h)

end HistoryTree.Text
