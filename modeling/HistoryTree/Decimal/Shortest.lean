/-!
# Shortest decimals

A binary number stands for all the numbers that round to it. Among the decimals
in that interval `RoundingInterval.shortest` picks one with the fewest digits,
and of those the nearest to the number itself; of two equally near ones it takes
the greater.

The decimals with a given last place form a grid. Grids are tried from the
coarsest on, and on each only the two points next to the number can be nearest.
-/

namespace HistoryTree

/-- The positive numbers that round to `value`, in units of `2 ^ exponent`. The
ends belong to the interval if it is `closed`. -/
structure RoundingInterval where
  lower : Nat
  value : Nat
  upper : Nat
  exponent : Int
  closed : Bool

/-- The number `digits * 10 ^ exponent`. -/
structure Decimal where
  digits : Nat
  exponent : Int
  deriving DecidableEq, Repr

namespace RoundingInterval

/-- The step of the grid with last place `place`, in a unit in which it and
`binaryStep` are both whole. -/
def gridStep (interval : RoundingInterval) (place : Int) : Nat :=
  Nat.pow 10 place.toNat * Nat.pow 2 (-interval.exponent).toNat

/-- The step `2 ^ exponent` in the unit of `gridStep`. -/
def binaryStep (interval : RoundingInterval) (place : Int) : Nat :=
  Nat.pow 10 (-place).toNat * Nat.pow 2 interval.exponent.toNat

/-- Whether `digits * 10 ^ place` rounds to the number. -/
def contains (interval : RoundingInterval) (place : Int) (digits : Nat) : Bool :=
  let point := digits * interval.gridStep place
  let lower := interval.lower * interval.binaryStep place
  let upper := interval.upper * interval.binaryStep place
  if interval.closed then lower ≤ point && point ≤ upper
  else lower < point && point < upper

/-- The point of the grid nearest to the number, if one lies in the interval. -/
def nearestOnGrid? (interval : RoundingInterval) (place : Int) : Option Decimal :=
  let value := interval.value * interval.binaryStep place
  let step := interval.gridStep place
  let below := value / step
  let above := below + 1
  match interval.contains place below, interval.contains place above with
  | true, true =>
    if value - below * step < above * step - value then some ⟨below, place⟩
    else some ⟨above, place⟩
  | true, false => some ⟨below, place⟩
  | false, true => some ⟨above, place⟩
  | false, false => none

/-- A place whose grid has no point but zero below the upper end. -/
def topPlace (interval : RoundingInterval) : Nat :=
  (Nat.toDigits 10 (interval.upper * Nat.pow 2 interval.exponent.toNat)).length

/-- The places to try, down to one whose grid is as fine as the binary one. -/
def places (interval : RoundingInterval) : List Int :=
  (List.range (interval.topPlace + (-interval.exponent).toNat + 1)).map
    fun (index : Nat) => (interval.topPlace : Int) - index

def shortest (interval : RoundingInterval) : Decimal :=
  (interval.places.findSome? interval.nearestOnGrid?).getD ⟨0, 0⟩

end RoundingInterval

/-- The decimal without an exponent, padded with zeros on either side. -/
def Decimal.positional (decimal : Decimal) : String :=
  let digits := Nat.toDigits 10 decimal.digits
  if 0 ≤ decimal.exponent then
    String.ofList (digits ++ List.replicate decimal.exponent.toNat '0')
  else
    let places := (-decimal.exponent).toNat
    let padded := List.replicate (places + 1 - digits.length) '0' ++ digits
    let whole := padded.length - places
    String.ofList (padded.take whole ++ '.' :: padded.drop whole)

end HistoryTree
