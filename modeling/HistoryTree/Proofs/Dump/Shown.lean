import HistoryTree.Dump
import HistoryTree.Proofs.Text.Quoted

/-!
# What single fields are shown as

No field of a file is shown with a line break, strings included (`lacks_value`), and fields
that are shown alike are the same. Of values that is so for integers and for words without a
meaning: a float that is no number does not show which one it is, and a string does not show
where it is stored.
-/

namespace HistoryTree

open Text

/-! ## No line breaks -/

theorem lacks_yesNo (flag : Bool) : Lacks (yesNo flag) '\n' := by
  cases flag <;> decide

theorem lacks_seqNumber {char : Char} (h : char.isDigit = false) (seq : SeqNumber) :
    Lacks (toString seq) char :=
  lacks_word h seq.value

theorem lacks_parentRef (parent : ParentRef) : Lacks (toString parent) '\n' := by
  cases parent with
  | root => decide
  | childOf seq => exact lacks_seqNumber (by decide) seq

theorem lacks_nodeKind (kind : NodeKind) : Lacks (toString kind) '\n' := by
  cases kind with
  | core => decide
  | leaf => decide
  | unknown tag =>
    change Lacks ("unknown (" ++ toString tag.toNat ++ ")") '\n'
    rw [lacks_append, lacks_append]
    exact ⟨⟨by decide, lacks_nat (by decide) _⟩, by decide⟩

/-- The types with a name of their own. -/
def ValueType.named : List ValueType :=
  [.int32, .str, .uint32, .float]

theorem ValueType.mem_named_or_eq_other (valueType : ValueType) :
    valueType ∈ named ∨ ∃ tag, valueType = .other tag := by
  cases valueType with
  | other tag => exact Or.inr ⟨tag, rfl⟩
  | _ => exact Or.inl (by decide)

theorem lacks_valueType {char : Char} (h : char.isDigit = false)
    (hnames : ∀ named ∈ ValueType.named, Lacks (toString named) char) (valueType : ValueType) :
    Lacks (toString valueType) char := by
  rcases valueType.mem_named_or_eq_other with hnamed | ⟨tag, rfl⟩
  · exact hnames valueType hnamed
  · exact lacks_byte h tag

theorem lacks_positional (decimal : Decimal) : Lacks decimal.positional '\n' := by
  have hdigits : '\n' ∉ Nat.toDigits 10 decimal.digits :=
    fun hmem => absurd (Nat.isDigit_of_mem_toDigits (by decide) (by decide) hmem) (by decide)
  have hzeros (count : Nat) : '\n' ∉ List.replicate count '0' :=
    fun hmem => absurd (List.eq_of_mem_replicate hmem) (by decide)
  rw [Lacks, Decimal.positional]
  split
  · rw [String.toList_ofList, List.mem_append, not_or]
    exact ⟨hdigits, hzeros _⟩
  · have hpadded : '\n' ∉ List.replicate ((-decimal.exponent).toNat + 1 -
        (Nat.toDigits 10 decimal.digits).length) '0' ++ Nat.toDigits 10 decimal.digits := by
      rw [List.mem_append, not_or]
      exact ⟨hzeros _, hdigits⟩
    rw [String.toList_ofList, List.mem_append, List.mem_cons, not_or, not_or]
    exact ⟨fun hmem => hpadded (List.mem_of_mem_take hmem), by decide,
      fun hmem => hpadded (List.mem_of_mem_drop hmem)⟩

theorem lacks_binary32 (number : Binary32) : Lacks (toString number) '\n' := by
  have hmagnitude : Lacks number.magnitudeText '\n' := by
    unfold Binary32.magnitudeText
    split
    · decide
    · split
      · decide
      · exact lacks_positional _
  change Lacks (if _ then "NaN" else if _ then "-" ++ number.magnitudeText
    else number.magnitudeText) '\n'
  split
  · decide
  · split
    · rw [lacks_append]
      exact ⟨by decide, hmagnitude⟩
    · exact hmagnitude

theorem lacks_value (value : Value) : Lacks (toString value) '\n' := by
  cases value with
  | int32 number => exact lacks_int (by decide) (by decide) number.toInt
  | uint32 number => exact lacks_word (by decide) number
  | float number => exact lacks_binary32 number
  | str text => exact lacks_quote text
  | raw word => exact lacks_word (by decide) word

/-! ## Fields that are shown alike -/

theorem yesNo_inj : ∀ {left right : Bool}, yesNo left = yesNo right → left = right := by
  decide

theorem toString_seqNumber_inj {left right : SeqNumber} (h : toString left = toString right) :
    left = right :=
  congrArg SeqNumber.mk (toString_word_inj h)

theorem toString_parentRef_inj {left right : ParentRef} (h : toString left = toString right) :
    left = right := by
  have hdigits (seq : SeqNumber) : Lacks (toString (ParentRef.childOf seq)) 'r' :=
    lacks_seqNumber (by decide) seq
  have hroot (seq : SeqNumber) : toString (ParentRef.childOf seq) ≠ toString ParentRef.root :=
    (hdigits seq).ne (by decide)
  cases left with
  | root =>
    cases right with
    | root => rfl
    | childOf seq => exact absurd h.symm (hroot seq)
  | childOf seq =>
    cases right with
    | root => exact absurd h (hroot seq)
    | childOf other => rw [toString_seqNumber_inj h]

theorem toString_nodeKind_inj {left right : NodeKind} (h : toString left = toString right) :
    left = right := by
  have hunknown (tag : UInt8) : toString (NodeKind.unknown tag) =
      "unknown (" ++ (toString tag.toNat ++ ")") :=
    String.append_assoc
  have hbracket (tag : UInt8) : ¬ Lacks (toString (NodeKind.unknown tag)) '(' := by
    rw [hunknown, lacks_append]
    exact fun hlacks => absurd hlacks.1 (by decide)
  have hcore (tag : UInt8) : toString NodeKind.core ≠ toString (NodeKind.unknown tag) :=
    Lacks.ne (by decide) (hbracket tag)
  have hleaf (tag : UInt8) : toString NodeKind.leaf ≠ toString (NodeKind.unknown tag) :=
    Lacks.ne (by decide) (hbracket tag)
  cases left with
  | core =>
    cases right with
    | core => rfl
    | leaf => exact absurd h (by decide)
    | unknown tag => exact absurd h (hcore tag)
  | leaf =>
    cases right with
    | core => exact absurd h (by decide)
    | leaf => rfl
    | unknown tag => exact absurd h (hleaf tag)
  | unknown tag =>
    cases right with
    | core => exact absurd h.symm (hcore tag)
    | leaf => exact absurd h.symm (hleaf tag)
    | unknown other =>
      rw [hunknown, hunknown, String.append_right_inj, String.append_left_inj] at h
      rw [toString_byte_inj h]

theorem toString_valueType_inj {left right : ValueType} (h : toString left = toString right) :
    left = right := by
  have hnames : ∀ named ∈ ValueType.named, ¬ Lacks (toString named) 't' := by decide
  have hnamed : ∀ named ∈ ValueType.named, ∀ other ∈ ValueType.named,
      toString named = toString other → named = other := by decide
  have hother (tag : UInt8) : Lacks (toString (ValueType.other tag)) 't' :=
    lacks_byte (by decide) tag
  rcases left.mem_named_or_eq_other with hleft | ⟨tag, rfl⟩
  · rcases right.mem_named_or_eq_other with hright | ⟨tag, rfl⟩
    · exact hnamed left hleft right hright h
    · exact absurd h.symm ((hother tag).ne (hnames left hleft))
  · rcases right.mem_named_or_eq_other with hright | ⟨other, rfl⟩
    · exact absurd h ((hother tag).ne (hnames right hright))
    · exact congrArg ValueType.other (toString_byte_inj h)

theorem toString_int32_inj {left right : UInt32}
    (h : toString (Value.int32 left.toInt32) = toString (Value.int32 right.toInt32)) :
    left = right := by
  have hnumber : left.toInt32 = right.toInt32 := Int32.toInt_inj.mp (Int.repr_injective h)
  rw [← UInt32.toUInt32_toInt32 left, hnumber, UInt32.toUInt32_toInt32]

/-- A text is shown in quotes, which a word is not. -/
theorem toString_str_ne_raw (text : String) (word : UInt32) :
    toString (Value.str text) ≠ toString (Value.raw word) := by
  have hdigits : Lacks (toString (Value.raw word)) '"' := lacks_word (by decide) word
  exact (hdigits.ne (not_lacks_quote text)).symm

end HistoryTree
