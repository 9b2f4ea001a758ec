import HistoryTree.Bytes.Basic
import HistoryTree.Bytes.Address
import HistoryTree.Bytes.LittleEndian
import HistoryTree.DecodeError

/-!
# Named stretches of bytes

Every access names what it is after, so that a stretch which runs past the end
is reported by that name. An access succeeds exactly when its end, as a natural
number, lies within the bytes (`region_eq_ok_iff`, `read_eq`, `write_eq`).

A field is also read and set in place, in a buffer that is passed on whether or not
that succeeds. Setting it in place does what `write` does (`run_store_eq_write`), and
leaves every byte outside of the field and, if it fails, every byte there is
(`getElem?_store_of_not_covers`, `store_of_error`).
-/

namespace HistoryTree

namespace Bytes

/-- The failure to reach `stop`, which is past the end. An end that is no address
is reported as the highest one. -/
def truncated (data : Bytes) (field : String) (stop : Nat) : DecodeError :=
  .truncatedInput field (Address.clamp stop) data.size

/-- The `length` bytes from `offset` on. -/
def region (data : Bytes) (field : String) (offset length : Nat) :
    Except DecodeError Bytes :=
  if offset + length ≤ data.size then
    .ok (data.extract offset (offset + length))
  else
    .error (data.truncated field (offset + length))

/-- An offset that was computed for `data`. One that is no address fails as a
stretch past the end does. -/
def addressed (data : Bytes) (field : String) (offset? : Option Nat) :
    Except DecodeError Nat :=
  match offset? with
  | some offset => .ok offset
  | none => .error (.truncatedInput field Address.last data.size)

@[simp]
theorem addressed_some (data : Bytes) (field : String) (offset : Nat) :
    data.addressed field (some offset) = .ok offset := rfl

theorem region_eq_ok_iff {data part : Bytes} {field : String} {offset length : Nat} :
    data.region field offset length = .ok part ↔
      offset + length ≤ data.size ∧ part = data.extract offset (offset + length) := by
  unfold region
  split <;> grind

end Bytes

/-- What is done with a buffer in place. A failure leaves a buffer as well. -/
abbrev InPlace (α : Type) :=
  ExceptT DecodeError (StateM Bytes) α

namespace InPlace

variable {α β : Type}

theorem run_get_bind (next : Bytes → InPlace β) (buffer : Bytes) :
    (get >>= next).run.run buffer = (next buffer).run.run buffer := rfl

theorem run_lift_bind (given : Except DecodeError α) (next : α → InPlace β) (buffer : Bytes) :
    (liftM given >>= next).run.run buffer =
      match given with
      | .ok value => (next value).run.run buffer
      | .error cause => (.error cause, buffer) := by
  cases given <;> rfl

end InPlace

/-- A word at a fixed offset. -/
structure Field (α : Type) where
  name : String
  offset : Nat

namespace Field

variable {α : Type} [LittleEndian α]

/-- The end of the field's bytes. -/
def stop (field : Field α) : Nat :=
  field.offset + LittleEndian.width α

def read (field : Field α) (data : Bytes) : Except DecodeError α := do
  let bytes ← data.region field.name field.offset (LittleEndian.width α)
  return LittleEndian.ofBytes bytes.toList

/-- The bytes with the field set to `word`. -/
def write (field : Field α) (data : Bytes) (word : α) : Except DecodeError Bytes := do
  let _ ← data.region field.name field.offset (LittleEndian.width α)
  return data.overwrite field.offset (LittleEndian.toBytes word)

def fetch (field : Field α) : InPlace α := do
  field.read (← get)

/-- Sets the field to `word` in place. Whether it is there is looked up first. -/
def store (field : Field α) (word : α) : InPlace Unit := do
  let _ ← (← get).region field.name field.offset (LittleEndian.width α)
  modify fun buffer => buffer.overwrite field.offset (LittleEndian.toBytes word)

omit [LittleEndian α] in
/-- The same field counted from `base`. -/
def relativeTo (field : Field α) (base : Nat) : Field α :=
  { field with offset := base + field.offset }

omit [LittleEndian α] in
/-- The same field counted from `base`, if it then begins at an address. -/
def shifted? (field : Field α) (base : Nat) : Option (Field α) :=
  (Address.add? base field.offset).map fun _ => field.relativeTo base

theorem read_eq (field : Field α) (data : Bytes) :
    field.read data =
      if field.stop ≤ data.size then
        .ok (LittleEndian.ofBytes (data.extract field.offset field.stop).toList)
      else .error (data.truncated field.name field.stop) := by
  unfold read Bytes.region stop
  split <;> rfl

theorem write_eq (field : Field α) (data : Bytes) (word : α) :
    field.write data word =
      if field.stop ≤ data.size then
        .ok (data.overwrite field.offset (LittleEndian.toBytes word))
      else .error (data.truncated field.name field.stop) := by
  unfold write Bytes.region stop
  split <;> rfl

theorem run_fetch (field : Field α) (buffer : Bytes) :
    field.fetch.run.run buffer = (field.read buffer, buffer) := rfl

theorem run_store (field : Field α) (word : α) (buffer : Bytes) :
    (field.store word).run.run buffer =
      if field.stop ≤ buffer.size then
        (.ok (), buffer.overwrite field.offset (LittleEndian.toBytes word))
      else (.error (buffer.truncated field.name field.stop), buffer) := by
  rw [store, InPlace.run_get_bind, InPlace.run_lift_bind, Bytes.region, ← stop]
  by_cases hstop : field.stop ≤ buffer.size
  · rw [if_pos hstop, if_pos hstop]
    rfl
  · rw [if_neg hstop, if_neg hstop]

theorem run_store_eq_write (field : Field α) (word : α) (buffer : Bytes) :
    (field.store word).run.run buffer =
      match field.write buffer word with
      | .ok after => (.ok (), after)
      | .error cause => (.error cause, buffer) := by
  rw [run_store, write_eq]
  split <;> rfl

section Frame

variable {field : Field α} {word : α} {buffer : Bytes}

theorem store_of_error {cause : DecodeError}
    (h : ((field.store word).run.run buffer).1 = .error cause) :
    ((field.store word).run.run buffer).2 = buffer := by
  rw [run_store] at h ⊢
  split at h
  · contradiction
  next hstop => rw [if_neg hstop]

/-- Whether or not the field can be set, the bytes on either side of it stay. -/
theorem getElem?_store_of_not_covers {position : Nat}
    (h : position < field.offset ∨ field.stop ≤ position) :
    ((field.store word).run.run buffer).2[position]? = buffer[position]? := by
  rw [run_store]
  split
  · rw [Bytes.getElem?_overwrite, LittleEndian.length_toBytes, ← stop, if_neg]
    omega
  · rfl

end Frame

end Field

end HistoryTree
