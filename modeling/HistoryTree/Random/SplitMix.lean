import HistoryTree.Random.Sampler

/-!
# SplitMix64

A generator of 64-bit words from a counter. A value below a bound is taken from the
high half of the product of the bound and a drawn word. Words whose low half lies
past a zone are drawn again, which makes all values equally likely.

The counter runs through all its values before it repeats, and the words are a
rearrangement of the counters, so `attempts` draws meet every word there is.
-/

namespace HistoryTree.Random

structure SplitMix where
  state : UInt64
  deriving DecidableEq, Repr

namespace SplitMix

def next (generator : SplitMix) : UInt64 × SplitMix :=
  let state := generator.state + 0x9E3779B97F4A7C15
  let mixed := (state ^^^ (state >>> 30)) * 0xBF58476D1CE4E5B9
  let mixed := (mixed ^^^ (mixed >>> 27)) * 0x94D049BB133111EB
  (mixed ^^^ (mixed >>> 31), ⟨state⟩)

def nextWord (generator : SplitMix) : UInt32 × SplitMix :=
  let (drawn, generator) := generator.next
  (drawn.toUInt32, generator)

/-- How many draws there can be before all words have been drawn. -/
def attempts : Nat := UInt64.size

/-- The zone that needs no division: the bound, moved up to the highest bit. -/
def shiftedZone (width bound : Nat) : Nat :=
  bound <<< (width - 1 - bound.log2) - 1

/-- The widest zone in which all values are equally likely. -/
def widestZone (width bound : Nat) : Nat :=
  Nat.pow 2 width - 1 - Nat.pow 2 width % bound

/-- A value below `bound` from words of `width` bits, or 0 if no word is accepted. -/
def below (width bound zone : Nat) : (attempts : Nat) → SplitMix → Nat × SplitMix
  | 0, generator => (0, generator)
  | attempts + 1, generator =>
    let (drawn, generator) := generator.next
    let product := drawn.toNat % Nat.pow 2 width * bound
    if product % Nat.pow 2 width ≤ zone then (product / Nat.pow 2 width, generator)
    else below width bound zone attempts generator

theorem below_lt {bound : Nat} (hbound : 0 < bound) (width zone attempts : Nat)
    (generator : SplitMix) : (below width bound zone attempts generator).1 < bound := by
  induction attempts generalizing generator with
  | zero => exact hbound
  | succ attempts ih =>
    simp only [below]
    split
    · apply Nat.div_lt_of_lt_mul
      exact Nat.mul_lt_mul_of_pos_right (Nat.mod_lt _ (Nat.two_pow_pos width)) hbound
    · exact ih _

/-- One of `count` values. -/
def choose (width zone count : Nat) (nonempty : 0 < count) (generator : SplitMix) :
    Fin count × SplitMix :=
  let drawn := below width count zone attempts generator
  (⟨drawn.1, below_lt nonempty width zone attempts generator⟩, drawn.2)

/-- A word from `low` to `high`. -/
def chooseBetween (low high : UInt32) (nonempty : low ≤ high) (generator : SplitMix) :
    { word : UInt32 // low ≤ word ∧ word ≤ high } × SplitMix :=
  let count := high.toNat - low.toNat + 1
  let drawn := choose 32 (shiftedZone 32 count) count (Nat.succ_pos _) generator
  let word := UInt32.ofNat (low.toNat + drawn.1)
  have hword : word.toNat = low.toNat + drawn.1 := by
    have hhigh := high.toNat_lt
    have hdrawn := drawn.1.isLt
    have hle := UInt32.le_iff_toNat_le.mp nonempty
    simp only [word, UInt32.toNat_ofNat']
    omega
  have hrange : low ≤ word ∧ word ≤ high := by
    have hdrawn := drawn.1.isLt
    have hle := UInt32.le_iff_toNat_le.mp nonempty
    simp only [UInt32.le_iff_toNat_le, hword]
    omega
  (⟨word, hrange⟩, drawn.2)

def sampler : Sampler SplitMix where
  place count := choose 64 (shiftedZone 64 count) count
  between := chooseBetween
  kind count := choose 32 (widestZone 32 count) count
  word := nextWord
  coin weight generator :=
    let (drawn, generator) := generator.next
    (drawn < weight, generator)

end SplitMix

end HistoryTree.Random
