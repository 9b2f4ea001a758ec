/-!
# Addresses

Offsets are natural numbers, but only those of a 64-bit address space can be
used. Each operation gives the exact result, or `none` where that is no address.
-/

namespace HistoryTree.Address

/-- The highest address. -/
def last : Nat :=
  0xFFFFFFFFFFFFFFFF

/-- The number itself if it is an address. -/
def ofNat? (number : Nat) : Option Nat :=
  if number ≤ last then some number else none

def add? (left right : Nat) : Option Nat :=
  ofNat? (left + right)

def mul? (left right : Nat) : Option Nat :=
  ofNat? (left * right)

def sub? (left right : Nat) : Option Nat :=
  if right ≤ left then some (left - right) else none

/-- The number itself, or the highest address for numbers past it. -/
def clamp (number : Nat) : Nat :=
  min number last

theorem ofNat?_of_le {number : Nat} (h : number ≤ last) : ofNat? number = some number := by
  simp [ofNat?, h]

theorem ofNat?_eq_some_iff {number address : Nat} :
    ofNat? number = some address ↔ number = address ∧ address ≤ last := by
  unfold ofNat?
  split <;> grind

theorem add?_of_le {left right : Nat} (h : left + right ≤ last) :
    add? left right = some (left + right) :=
  ofNat?_of_le h

theorem mul?_of_le {left right : Nat} (h : left * right ≤ last) :
    mul? left right = some (left * right) :=
  ofNat?_of_le h

theorem sub?_eq_some_iff {left right difference : Nat} :
    sub? left right = some difference ↔ left = right + difference := by
  unfold sub?
  split <;> grind

theorem clamp_of_le {number : Nat} (h : number ≤ last) : clamp number = number :=
  Nat.min_eq_left h

end HistoryTree.Address
