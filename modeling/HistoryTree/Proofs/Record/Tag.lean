import HistoryTree.Record.Node

/-!
# Tags

Reading a tag loses nothing, so equal kinds, value types and parents come from
equal stored values. Storing one loses something only for the values that no tag
reads as: a kind or value type without a meaning under a tag that has one.
-/

namespace HistoryTree

namespace NodeKind

theorem ofTag_eq_ite (tag : UInt8) :
    ofTag tag = if tag = 1 then .core else if tag = 2 then .leaf else .unknown tag := by
  unfold ofTag
  split <;> grind

theorem ofTag_injective {left right : UInt8} (h : ofTag left = ofTag right) : left = right := by
  rw [← tag_ofTag left, h, tag_ofTag]

@[simp]
theorem ofTag_eq_core_iff {tag : UInt8} : ofTag tag = .core ↔ tag = 1 :=
  ⟨fun h => ofTag_injective h, fun h => h ▸ rfl⟩

@[simp]
theorem ofTag_eq_leaf_iff {tag : UInt8} : ofTag tag = .leaf ↔ tag = 2 :=
  ⟨fun h => ofTag_injective h, fun h => h ▸ rfl⟩

@[simp]
theorem ofTag_eq_unknown_iff {tag tag' : UInt8} :
    ofTag tag = .unknown tag' ↔ tag = tag' ∧ tag ≠ 1 ∧ tag ≠ 2 := by
  unfold ofTag
  split <;> grind

end NodeKind

namespace ValueType

theorem ofTag_injective {left right : UInt8} (h : ofTag left = ofTag right) : left = right := by
  rw [← tag_ofTag left, h, tag_ofTag]

/-- A tag that is kept without a meaning is none of those with one. -/
theorem ofTag_ne_other {tag : UInt8} (other : UInt8) (h : other < 4) :
    ofTag tag ≠ .other other := by
  intro heq
  have htag : tag = other := by rw [← tag_ofTag tag, heq, ValueType.tag]
  subst htag
  unfold ofTag at heq
  split at heq <;> grind

/-- A value type can be told from its tag unless it is one without a meaning under
a tag that has one. -/
theorem ofTag_tag {valueType : ValueType}
    (h : ∀ tag : UInt8, tag < 4 → valueType ≠ .other tag) : ofTag valueType.tag = valueType := by
  cases valueType with
  | int32 => rfl
  | str => rfl
  | uint32 => rfl
  | float => rfl
  | other tag =>
    have htag : ¬ tag < 4 := fun hless => h tag hless rfl
    rw [ValueType.tag]
    unfold ofTag
    split
    · exact absurd (by decide) htag
    · exact absurd (by decide) htag
    · exact absurd (by decide) htag
    · exact absurd (by decide) htag
    · rfl

end ValueType

namespace ParentRef

theorem ofRaw_injective {left right : UInt32} (h : ofRaw left = ofRaw right) : left = right := by
  rw [← toRaw_ofRaw left, h, toRaw_ofRaw]

/-- No stored number reads as a parent with the number of the sentinel. -/
theorem ofRaw_ne_sentinel (raw : UInt32) : ofRaw raw ≠ .childOf ⟨rootSentinel⟩ := by
  unfold ofRaw
  split <;> simp [*]

end ParentRef

end HistoryTree
