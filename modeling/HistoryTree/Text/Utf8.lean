import HistoryTree.Bytes.Basic

/-!
# UTF-8

Every byte string can be decoded: a stretch of bytes that begins a character and
breaks off, and every byte that begins none, becomes one replacement character.
The decoder reads one byte at a time and remembers the character it is in.
-/

namespace HistoryTree.Utf8

def encode (text : String) : List UInt8 :=
  text.toList.flatMap String.utf8EncodeChar

def replacement : Char := '\uFFFD'

/-- A character that has begun: how many bytes are to come, the bounds of the
next one, and the bits read so far. -/
structure Pending where
  remaining : Nat
  low : UInt8
  high : UInt8
  bits : Nat

/-- The character that a first byte begins. The bounds of the second byte leave
out overlong forms, surrogates and numbers that are no code points. -/
def Pending.ofLead? (byte : UInt8) : Option Pending :=
  if 0xC2 ≤ byte ∧ byte ≤ 0xDF then some ⟨1, 0x80, 0xBF, byte.toNat - 0xC0⟩
  else if byte = 0xE0 then some ⟨2, 0xA0, 0xBF, 0⟩
  else if byte = 0xED then some ⟨2, 0x80, 0x9F, 0xD⟩
  else if 0xE1 ≤ byte ∧ byte ≤ 0xEF then some ⟨2, 0x80, 0xBF, byte.toNat - 0xE0⟩
  else if byte = 0xF0 then some ⟨3, 0x90, 0xBF, 0⟩
  else if 0xF1 ≤ byte ∧ byte ≤ 0xF3 then some ⟨3, 0x80, 0xBF, byte.toNat - 0xF0⟩
  else if byte = 0xF4 then some ⟨3, 0x80, 0x8F, 4⟩
  else none

/-- The text decoded so far and the character that the next byte may go on with. -/
structure Decoder where
  text : String
  pending : Option Pending

namespace Decoder

def empty : Decoder :=
  ⟨"", none⟩

/-- Reads a byte outside of any character. -/
def feedFirst (text : String) (byte : UInt8) : Decoder :=
  if byte < 0x80 then ⟨text.push (Char.ofNat byte.toNat), none⟩
  else match Pending.ofLead? byte with
    | some pending => ⟨text, some pending⟩
    | none => ⟨text.push replacement, none⟩

/-- Reads the next byte. One that cannot go on with the character replaces what
there is of it and is read anew. -/
def feed (decoder : Decoder) (byte : UInt8) : Decoder :=
  match decoder.pending with
  | none => feedFirst decoder.text byte
  | some pending =>
    if pending.low ≤ byte ∧ byte ≤ pending.high then
      let bits := pending.bits * 64 + (byte.toNat - 0x80)
      if pending.remaining ≤ 1 then ⟨decoder.text.push (Char.ofNat bits), none⟩
      else ⟨decoder.text, some ⟨pending.remaining - 1, 0x80, 0xBF, bits⟩⟩
    else feedFirst (decoder.text.push replacement) byte

def finish (decoder : Decoder) : String :=
  match decoder.pending with
  | none => decoder.text
  | some _ => decoder.text.push replacement

end Decoder

def decodeLossy (bytes : List UInt8) : String :=
  (bytes.foldl Decoder.feed Decoder.empty).finish

end HistoryTree.Utf8
