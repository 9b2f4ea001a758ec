import HistoryTree.Proofs.Bytes.Word
import Mathlib.Algebra.Ring.Nat
import Mathlib.Data.List.Induction

/-!
# Runs of accesses

Fields of one buffer are read and set one after another, wherever they lie and
however they overlap. Each access is kept with its answer. After any run of them a
byte is the one that the latest successful write has put there, and an access
succeeds exactly if its field ends within the buffer (`TracedBuffer.keepsLatest_run`).
-/

namespace HistoryTree

/-! ## Accesses -/

/-- What is done with a field: it is read, or set to a value. -/
inductive Access.Task where
  | readByte
  | readWord
  | writeByte (value : UInt8)
  | writeWord (value : UInt32)
  deriving DecidableEq, Repr

/-- What an access gives back. -/
inductive Access.Answer where
  | byte (value : UInt8)
  | word (value : UInt32)
  | written
  deriving DecidableEq, Repr

structure Access where
  name : String
  offset : Nat
  task : Access.Task
  deriving DecidableEq, Repr

/-- The number of bytes that are read or written. -/
def Access.Task.width : Access.Task → Nat
  | .readByte | .writeByte _ => 1
  | .readWord | .writeWord _ => 4

/-- The number that is written. -/
def Access.Task.number? : Access.Task → Option Nat
  | .readByte | .readWord => none
  | .writeByte value => some value.toNat
  | .writeWord value => some value.toNat

namespace Access

def field (access : Access) (α : Type) : Field α where
  name := access.name
  offset := access.offset

/-- The end of the bytes that are read or written. -/
def stop (access : Access) : Nat :=
  access.offset + access.task.width

/-- What is done with the buffer. -/
def action (access : Access) : InPlace Answer :=
  match access.task with
  | .readByte => return .byte (← (access.field UInt8).fetch)
  | .readWord => return .word (← (access.field UInt32).fetch)
  | .writeByte value => do
    (access.field UInt8).store value
    return .written
  | .writeWord value => do
    (access.field UInt32).store value
    return .written

/-- The answer of an access, and the buffer after it. -/
def perform (access : Access) (buffer : Bytes) : Except DecodeError Answer × Bytes :=
  access.action.run.run buffer

/-- The answer if the bytes are there: those that are read, as a little-endian number. -/
def answerIn (access : Access) (buffer : Bytes) : Answer :=
  match access.task with
  | .readByte => .byte (buffer.byteAt access.offset)
  | .readWord => .word (buffer.wordAt access.offset)
  | .writeByte _ | .writeWord _ => .written

/-- The byte that a write puts at `position`: that of its number, counted from the least
significant one. -/
def puts? (access : Access) (position : Nat) : Option UInt8 :=
  if access.offset ≤ position ∧ position < access.stop then
    access.task.number?.map fun number =>
      UInt8.ofNat (number / 256 ^ (position - access.offset))
  else none

/-- An access and its answer. -/
structure Event where
  access : Access
  answer : Except DecodeError Answer

/-- The byte that a successful write has put at `position`. -/
def Event.puts? (event : Event) (position : Nat) : Option UInt8 :=
  match event.answer with
  | .ok _ => event.access.puts? position
  | .error _ => none

end Access

/-- A buffer with all accesses to it so far. -/
structure TracedBuffer where
  bytes : Bytes
  events : List Access.Event

namespace TracedBuffer

def perform (buffer : TracedBuffer) (access : Access) : TracedBuffer where
  bytes := (access.perform buffer.bytes).2
  events := buffer.events ++ [⟨access, (access.perform buffer.bytes).1⟩]

/-- A buffer of the bytes `initial` after some accesses. -/
def run (initial : Bytes) (accesses : List Access) : TracedBuffer :=
  accesses.foldl perform ⟨initial, []⟩

/-- The byte that the latest successful write has put at `position`. -/
def latest? (buffer : TracedBuffer) (position : Nat) : Option UInt8 :=
  buffer.events.reverse.findSome? (·.puts? position)

/-- The size is the initial one, and each byte is the one that was written last. -/
structure Accounts (buffer : TracedBuffer) (initial : Bytes) : Prop where
  size_eq : buffer.bytes.size = initial.size
  byte (position : Nat) :
    buffer.bytes[position]? = (buffer.latest? position).or initial[position]?

/-- What the buffer holds after a run, and what comes of one more access, as each access of
a run is one more after those before it. -/
structure KeepsLatest (buffer : TracedBuffer) (initial : Bytes) : Prop
    extends buffer.Accounts initial where
  succeeds_iff (access : Access) :
    (∃ answer, (access.perform buffer.bytes).1 = .ok answer) ↔
      access.offset + access.task.width ≤ initial.size
  answer (access : Access) (answer : Access.Answer)
    (succeeds : (access.perform buffer.bytes).1 = .ok answer) :
    answer = access.answerIn buffer.bytes
  failure (access : Access) (cause : DecodeError)
    (fails : (access.perform buffer.bytes).1 = .error cause) :
    (access.perform buffer.bytes).2 = buffer.bytes ∧
      cause = .truncatedInput access.name
        (if access.offset + access.task.width < 2 ^ 64 then access.offset + access.task.width
          else 2 ^ 64 - 1)
        initial.size

end TracedBuffer

/-! ## One access -/

theorem getElem?_littleEndian (width number index : Nat) :
    (littleEndian width number)[index]? =
      if index < width then some (UInt8.ofNat (number / 256 ^ index)) else none := by
  induction width generalizing number index with
  | zero => rfl
  | succ width ih =>
    rw [littleEndian]
    cases index with
    | zero => simp
    | succ index =>
      rw [List.getElem?_cons_succ, ih, Nat.div_div_eq_div_mul, ← Nat.pow_succ']
      simp only [Nat.add_lt_add_iff_right]

theorem Address.clamp_eq (number : Nat) :
    clamp number = if number < 2 ^ 64 then number else 2 ^ 64 - 1 := by
  rw [clamp, last]
  split <;> omega

theorem InPlace.run_bind_pure {α β : Type} (action : InPlace α) (f : α → β) (buffer : Bytes) :
    (action >>= fun value => pure (f value)).run.run buffer =
      ((action.run.run buffer).1.map f, (action.run.run buffer).2) := by
  rw [bind_pure_comp, ExceptT.run_map, StateT.run_map]
  rfl

namespace Field

variable {α : Type} [LittleEndian α]

theorem run_fetch_answer (field : Field α) (answer : α → Access.Answer) (buffer : Bytes) :
    (field.fetch >>= fun value => pure (answer value)).run.run buffer =
      if field.stop ≤ buffer.size then (.ok (answer (field.valueIn buffer)), buffer)
      else (.error (buffer.truncated field.name field.stop), buffer) := by
  rw [InPlace.run_bind_pure, run_fetch]
  split
  next hstop =>
    have hread : field.read buffer = .ok (field.valueIn buffer) :=
      read_eq_ok_iff.mpr ⟨hstop, rfl⟩
    rw [hread]
    rfl
  next hstop =>
    rw [read_eq, if_neg hstop]
    rfl

theorem run_store_answer (field : Field α) (value : α) (buffer : Bytes) :
    (field.store value >>= fun _ => pure Access.Answer.written).run.run buffer =
      if field.stop ≤ buffer.size then
        (.ok .written, buffer.overwrite field.offset (LittleEndian.toBytes value))
      else (.error (buffer.truncated field.name field.stop), buffer) := by
  rw [InPlace.run_bind_pure, run_store]
  split <;> rfl

end Field

namespace Access

variable {access : Access} {buffer : Bytes}

/-- The buffer with what the access writes to it, if it writes. -/
def changed (access : Access) (buffer : Bytes) : Bytes :=
  match access.task.number? with
  | some number => buffer.overwrite access.offset (littleEndian access.task.width number)
  | none => buffer

/-- All that an access does. -/
theorem perform_eq (access : Access) (buffer : Bytes) :
    access.perform buffer =
      if access.stop ≤ buffer.size then (.ok (access.answerIn buffer), access.changed buffer)
      else (.error (buffer.truncated access.name access.stop), buffer) := by
  obtain ⟨name, offset, task⟩ := access
  cases task with
  | readByte =>
    refine (Field.run_fetch_answer ⟨name, offset⟩ .byte buffer).trans ?_
    rw [Field.valueIn_byte]
    rfl
  | readWord =>
    refine (Field.run_fetch_answer ⟨name, offset⟩ .word buffer).trans ?_
    rw [Field.valueIn_word]
    rfl
  | writeByte value => exact Field.run_store_answer ⟨name, offset⟩ value buffer
  | writeWord value => exact Field.run_store_answer ⟨name, offset⟩ value buffer

theorem perform_of_le (h : access.stop ≤ buffer.size) :
    access.perform buffer = (.ok (access.answerIn buffer), access.changed buffer) := by
  rw [perform_eq, if_pos h]

theorem perform_of_lt (h : buffer.size < access.stop) :
    access.perform buffer = (.error (buffer.truncated access.name access.stop), buffer) := by
  rw [perform_eq, if_neg (Nat.not_le.mpr h)]

theorem size_changed (access : Access) (buffer : Bytes) :
    (access.changed buffer).size = buffer.size := by
  rw [changed]
  split
  · exact Bytes.size_overwrite _ _ _
  · rfl

theorem getElem?_changed (h : access.stop ≤ buffer.size) (position : Nat) :
    (access.changed buffer)[position]? = (access.puts? position).or buffer[position]? := by
  rw [changed, puts?]
  cases access.task.number? with
  | none => simp
  | some number =>
    simp only [Bytes.getElem?_overwrite, length_littleEndian]
    by_cases hcovers : access.offset ≤ position ∧ position < access.stop
    · obtain ⟨hfrom, hto⟩ := hcovers
      have hindex : position - access.offset < access.task.width := by
        rw [stop] at hto
        omega
      have hsize : position < buffer.size := Nat.lt_of_lt_of_le hto h
      rw [if_pos ⟨hfrom, hto, hsize⟩, if_pos ⟨hfrom, hto⟩, getElem?_littleEndian, if_pos hindex]
      rfl
    · rw [if_neg hcovers, if_neg fun hinside => hcovers ⟨hinside.1, hinside.2.1⟩]
      rfl

end Access

/-! ## Any number of accesses -/

namespace TracedBuffer

variable {buffer : TracedBuffer} {initial : Bytes}

theorem latest?_perform (buffer : TracedBuffer) (access : Access) (position : Nat) :
    (buffer.perform access).latest? position =
      (Access.Event.puts? ⟨access, (access.perform buffer.bytes).1⟩ position).or
        (buffer.latest? position) := by
  rw [latest?, perform, List.reverse_concat, List.findSome?_cons, latest?]
  cases Access.Event.puts? ⟨access, (access.perform buffer.bytes).1⟩ position <;> rfl

theorem accounts_start (initial : Bytes) : Accounts ⟨initial, []⟩ initial where
  size_eq := rfl
  byte _ := rfl

theorem Accounts.perform (h : buffer.Accounts initial) (access : Access) :
    (buffer.perform access).Accounts initial := by
  rcases Nat.lt_or_ge buffer.bytes.size access.stop with hlt | hle
  · have hperform := Access.perform_of_lt hlt
    constructor
    · rw [TracedBuffer.perform, hperform]
      exact h.size_eq
    · intro position
      rw [latest?_perform, TracedBuffer.perform, hperform]
      exact h.byte position
  · have hperform := Access.perform_of_le hle
    constructor
    · rw [TracedBuffer.perform, hperform]
      exact (access.size_changed buffer.bytes).trans h.size_eq
    · intro position
      rw [latest?_perform, TracedBuffer.perform, hperform, Option.or_assoc, ← h.byte]
      exact Access.getElem?_changed hle position

theorem accounts_run (initial : Bytes) (accesses : List Access) :
    (run initial accesses).Accounts initial := by
  induction accesses using List.reverseRecOn with
  | nil => exact accounts_start initial
  | append_singleton accesses access ih =>
    rw [run, List.foldl_append]
    exact ih.perform access

/-- However fields are read and set, each byte is the one that was written last, and an
access fails only for want of room, which it reports. -/
theorem keepsLatest_run (initial : Bytes) (accesses : List Access) :
    (run initial accesses).KeepsLatest initial where
  toAccounts := accounts_run initial accesses
  succeeds_iff access := by
    rw [← (accounts_run initial accesses).size_eq, Access.perform_eq, ← Access.stop]
    split
    next hstop => simpa using hstop
    next hstop => simpa using Nat.not_le.mp hstop
  answer access answer hsucceeds := by
    rw [Access.perform_eq] at hsucceeds
    split at hsucceeds
    · exact (Except.ok.inj hsucceeds).symm
    · contradiction
  failure access cause hfails := by
    rw [← (accounts_run initial accesses).size_eq, ← Access.stop, ← Address.clamp_eq]
    rw [Access.perform_eq] at hfails ⊢
    split at hfails
    · contradiction
    next hstop =>
      rw [if_neg hstop]
      exact ⟨rfl, (Except.error.inj hfails).symm⟩

/-- The second word is written over the upper half of the first. -/
example :
    let buffer := run (Bytes.zeros 6) [⟨"low", 0, .writeWord 0x04030201⟩,
      ⟨"high", 2, .writeWord 0x0D0C0B0A⟩, ⟨"past", 3, .writeWord 7⟩, ⟨"low", 0, .readWord⟩,
      ⟨"far", 0xFFFFFFFFFFFFFFFF, .readByte⟩]
    buffer.bytes = #[0x01, 0x02, 0x0A, 0x0B, 0x0C, 0x0D] ∧
      buffer.events.map (·.answer) = [.ok .written, .ok .written,
        .error (.truncatedInput "past" 7 6), .ok (.word 0x0B0A0201),
        .error (.truncatedInput "far" 0xFFFFFFFFFFFFFFFF 6)] := by
  decide +kernel

end TracedBuffer

end HistoryTree
