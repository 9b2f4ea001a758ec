import HistoryTree.Decimal.Shortest

/-!
# Binary floating-point numbers of 32 bits

The text of such a number is the shortest decimal that rounds to it, never with an
exponent.
-/

namespace HistoryTree

/-- A floating-point number by its bits: sign, 8 bits of exponent, 23 of fraction. -/
structure Binary32 where
  bits : UInt32
  deriving DecidableEq, Repr

namespace Binary32

def isNegative (number : Binary32) : Bool :=
  0x80000000 ≤ number.bits.toNat

def biasedExponent (number : Binary32) : Nat :=
  number.bits.toNat / 0x800000 % 0x100

def fraction (number : Binary32) : Nat :=
  number.bits.toNat % 0x800000

/-- The whole number that the power of two is multiplied by. -/
def significand (number : Binary32) : Nat :=
  if number.biasedExponent = 0 then number.fraction else 0x800000 + number.fraction

/-- What rounds to the magnitude of a nonzero finite number, in quarters of its
last bit. Below a power of two the numbers lie twice as close, and an end belongs
to the even neighbour. -/
def interval (number : Binary32) : RoundingInterval where
  lower := 4 * number.significand -
    (if number.fraction = 0 ∧ 1 < number.biasedExponent then 1 else 2)
  value := 4 * number.significand
  upper := 4 * number.significand + 2
  exponent := (max number.biasedExponent 1 : Nat) - 152
  closed := number.significand % 2 = 0

def magnitudeText (number : Binary32) : String :=
  if number.biasedExponent = 255 then "inf"
  else if number.significand = 0 then "0"
  else number.interval.shortest.positional

instance : ToString Binary32 where
  toString number :=
    if number.biasedExponent = 255 ∧ number.fraction ≠ 0 then "NaN"
    else if number.isNegative then "-" ++ number.magnitudeText
    else number.magnitudeText

end Binary32

end HistoryTree
