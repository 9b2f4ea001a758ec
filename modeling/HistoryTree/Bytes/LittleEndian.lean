/-!
# Little-endian numbers

A number written in base 256, least significant byte first. Writing and reading
undo one another: `ofLittleEndian_littleEndian` and `littleEndian_ofLittleEndian`.
The class `LittleEndian` collects the word types that a field can hold.
-/

namespace HistoryTree

/-- The lowest `width` bytes of `number`, least significant first. -/
def littleEndian : (width number : Nat) → List UInt8
  | 0, _ => []
  | width + 1, number => UInt8.ofNat number :: littleEndian width (number / 256)

/-- The number that the bytes write, whatever their count. -/
def ofLittleEndian : List UInt8 → Nat
  | [] => 0
  | byte :: rest => byte.toNat + 256 * ofLittleEndian rest

@[simp]
theorem length_littleEndian (width number : Nat) :
    (littleEndian width number).length = width := by
  induction width generalizing number with
  | zero => rfl
  | succ width ih => simp [littleEndian, ih]

theorem ofLittleEndian_littleEndian (width number : Nat) :
    ofLittleEndian (littleEndian width number) = number % Nat.pow 256 width := by
  rw [Nat.pow_eq]
  induction width generalizing number with
  | zero => simp [littleEndian, ofLittleEndian, Nat.mod_one]
  | succ width ih =>
    have hbyte : (UInt8.ofNat number).toNat = number % 256 := UInt8.toNat_ofNat'
    rw [littleEndian, ofLittleEndian, ih, hbyte, Nat.pow_succ, Nat.mul_comm _ 256, Nat.mod_mul]

theorem ofLittleEndian_lt (bytes : List UInt8) :
    ofLittleEndian bytes < Nat.pow 256 bytes.length := by
  rw [Nat.pow_eq]
  induction bytes with
  | nil => simp [ofLittleEndian]
  | cons byte rest ih =>
    have hbyte := byte.toNat_lt
    simp only [ofLittleEndian, List.length_cons, Nat.pow_succ]
    omega

theorem littleEndian_ofLittleEndian (bytes : List UInt8) :
    littleEndian bytes.length (ofLittleEndian bytes) = bytes := by
  induction bytes with
  | nil => rfl
  | cons byte rest ih =>
    have hbyte := byte.toNat_lt
    have hlow : UInt8.ofNat (byte.toNat + 256 * ofLittleEndian rest) = byte := by
      apply UInt8.toNat_inj.mp
      simp only [UInt8.toNat_ofNat']
      omega
    have hhigh : (byte.toNat + 256 * ofLittleEndian rest) / 256 = ofLittleEndian rest := by
      omega
    simp only [List.length_cons, ofLittleEndian, littleEndian, hlow, hhigh, ih]

/-- Words of a fixed width in bytes. Every word has one written form, and every
`width` bytes are the written form of one word. -/
class LittleEndian (α : Type) where
  width : Nat
  toBytes : α → List UInt8
  ofBytes : List UInt8 → α
  length_toBytes : ∀ word, (toBytes word).length = width
  ofBytes_toBytes : ∀ word, ofBytes (toBytes word) = word
  toBytes_ofBytes : ∀ bytes, bytes.length = width → toBytes (ofBytes bytes) = bytes

attribute [simp] LittleEndian.length_toBytes LittleEndian.ofBytes_toBytes

instance : LittleEndian UInt8 where
  width := 1
  toBytes word := littleEndian 1 word.toNat
  ofBytes bytes := UInt8.ofNat (ofLittleEndian bytes)
  length_toBytes word := by simp
  ofBytes_toBytes word := by
    have hword := word.toNat_lt
    apply UInt8.toNat_inj.mp
    simp only [ofLittleEndian_littleEndian, Nat.pow_eq, UInt8.toNat_ofNat']
    omega
  toBytes_ofBytes bytes hlength := by
    have hbound := ofLittleEndian_lt bytes
    rw [hlength, Nat.pow_eq] at hbound
    have hnumber : (UInt8.ofNat (ofLittleEndian bytes)).toNat = ofLittleEndian bytes := by
      simp only [UInt8.toNat_ofNat']
      omega
    rw [hnumber, ← hlength, littleEndian_ofLittleEndian]

instance : LittleEndian UInt32 where
  width := 4
  toBytes word := littleEndian 4 word.toNat
  ofBytes bytes := UInt32.ofNat (ofLittleEndian bytes)
  length_toBytes word := by simp
  ofBytes_toBytes word := by
    have hword := word.toNat_lt
    apply UInt32.toNat_inj.mp
    simp only [ofLittleEndian_littleEndian, Nat.pow_eq, UInt32.toNat_ofNat']
    omega
  toBytes_ofBytes bytes hlength := by
    have hbound := ofLittleEndian_lt bytes
    rw [hlength, Nat.pow_eq] at hbound
    have hnumber : (UInt32.ofNat (ofLittleEndian bytes)).toNat = ofLittleEndian bytes := by
      simp only [UInt32.toNat_ofNat']
      omega
    rw [hnumber, ← hlength, littleEndian_ofLittleEndian]

end HistoryTree
