/-!
# Base 16
-/

namespace HistoryTree.Text

/-- A number in lower-case base 16, without leading zeros. -/
def hexDigits (number : Nat) : List Char :=
  Nat.toDigits 16 number

/-- A word in base 16, padded to eight digits. -/
def hexWord (word : UInt32) : String :=
  String.ofList (List.leftpad 8 '0' (hexDigits word.toNat))

end HistoryTree.Text
