/-!
# Sources of random choice

A sampler answers each question with a value of the range asked for; which one is
its own matter. What is grown with a sampler therefore has every property that
follows from the ranges alone.
-/

namespace HistoryTree.Random

/-- Answers from a state `σ`, each with the state for the next answer. -/
structure Sampler (σ : Type) where
  /-- One of `count` places. -/
  place (count : Nat) (nonempty : 0 < count) : σ → Fin count × σ
  /-- A word with both bounds in the range. -/
  between (low high : UInt32) (nonempty : low ≤ high) :
    σ → { word : UInt32 // low ≤ word ∧ word ≤ high } × σ
  /-- One of a few kinds of things. -/
  kind (count : Nat) (nonempty : 0 < count) : σ → Fin count × σ
  /-- Any word. -/
  word : σ → UInt32 × σ
  /-- True with the chance `weight / 2 ^ 64`. -/
  coin (weight : UInt64) : σ → Bool × σ

/-- Why no tree could be grown. -/
inductive GrowthError where
  /-- More than one node, but no room for children. -/
  | noRoomForChildren
  /-- A value was asked for of a range without any. -/
  | emptyRange
  /-- A node would end past the last time. -/
  | timeOverflow
  deriving DecidableEq, Repr

def GrowthError.message : GrowthError → String
  | .noRoomForChildren => "assertion failed: max_children > 0 || node_count <= 1"
  | .emptyRange => "cannot sample empty range"
  | .timeOverflow => "attempt to add with overflow"

/-- A computation that draws from a sampler and may fail. -/
abbrev Draw (σ : Type) := StateT σ (Except GrowthError)

variable {σ α : Type}

/-- Asks one question. -/
def Draw.ask (answer : σ → α × σ) : Draw σ α := fun state => .ok (answer state)

namespace Sampler

/-- One of the entries. -/
def member (sampler : Sampler σ) (entries : Array α) : Draw σ { entry // entry ∈ entries } :=
  if nonempty : 0 < entries.size then do
    let index ← Draw.ask (sampler.place entries.size nonempty)
    return ⟨entries[index], Array.getElem_mem index.isLt⟩
  else
    throw .emptyRange

/-- A word from `low` to `high`. -/
def wordBetween (sampler : Sampler σ) (low high : UInt32) :
    Draw σ { word : UInt32 // low ≤ word ∧ word ≤ high } :=
  if nonempty : low ≤ high then Draw.ask (sampler.between low high nonempty)
  else throw .emptyRange

end Sampler

/-- The results of `count` draws, one after another. -/
def Draw.times (draw : Draw σ α) : (count : Nat) → Draw σ (List α)
  | 0 => return []
  | count + 1 => do
    let first ← draw
    return first :: (← times draw count)

end HistoryTree.Random
