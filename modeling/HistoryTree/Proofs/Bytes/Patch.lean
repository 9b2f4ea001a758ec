import HistoryTree.Proofs.Bytes.Stretch
import HistoryTree.Proofs.Success

/-!
# Writes under a name

A write either places its stretches or fails by its name. A run of writes succeeds
exactly when each of them fits in the buffer by itself, and then places all their
stretches (`Patch.applyAll_eq_ok_iff`).
-/

namespace HistoryTree

/-- Stretches that are placed together if the buffer reaches up to `stop`. -/
structure Patch where
  field : String
  stop : Nat
  stretches : List Stretch
  stop_le : ∀ stretch ∈ stretches, stretch.stop ≤ stop

namespace Patch

def apply (patch : Patch) (data : Bytes) : Except DecodeError Bytes :=
  if patch.stop ≤ data.size then .ok (data.place patch.stretches)
  else .error (data.truncated patch.field patch.stop)

/-- Applies the patches one after another. -/
def applyAll (patches : List Patch) (data : Bytes) : Except DecodeError Bytes :=
  patches.foldlM (fun data patch => patch.apply data) data

theorem apply_eq_ok_iff {patch : Patch} {data result : Bytes} :
    patch.apply data = .ok result ↔
      patch.stop ≤ data.size ∧ result = data.place patch.stretches := by
  rw [apply]
  split
  next hstop => simp [hstop, eq_comm]
  next hstop => simp [hstop]

theorem applyAll_cons (patch : Patch) (patches : List Patch) (data : Bytes) :
    applyAll (patch :: patches) data = patch.apply data >>= fun data => applyAll patches data :=
  rfl

theorem applyAll_nil (data : Bytes) : applyAll [] data = pure data := rfl

theorem applyAll_singleton (patch : Patch) (data : Bytes) :
    applyAll [patch] data = patch.apply data :=
  bind_pure (patch.apply data)

theorem size_of_apply {patch : Patch} {data result : Bytes} (h : patch.apply data = .ok result) :
    result.size = data.size := by
  rw [(apply_eq_ok_iff.mp h).2, Bytes.size_place]

theorem applyAll_append (first second : List Patch) (data : Bytes) :
    applyAll (first ++ second) data =
      applyAll first data >>= fun data => applyAll second data :=
  List.foldlM_append

/-- A loop whose body applies patches applies the patches of all rounds. -/
theorem foldlM_applyAll {α : Type} (patches : α → List Patch) (list : List α) (data : Bytes) :
    list.foldlM (fun data entry => applyAll (patches entry) data) data =
      applyAll (list.flatMap patches) data := by
  induction list generalizing data with
  | nil => rfl
  | cons entry rest ih =>
    rw [List.foldlM_cons, List.flatMap_cons, applyAll_append]
    congr 1
    funext placed
    exact ih placed

/-- The writes of a run do not get in one another's way: each one needs the room that
it needs by itself. -/
theorem applyAll_eq_ok_iff {patches : List Patch} {data result : Bytes} :
    applyAll patches data = .ok result ↔
      (∀ patch ∈ patches, patch.stop ≤ data.size) ∧
        result = data.place (patches.flatMap stretches) := by
  induction patches generalizing data with
  | nil =>
    simp only [applyAll_nil, pure_eq_ok_iff, List.not_mem_nil, false_implies, implies_true,
      true_and, List.flatMap_nil, Bytes.place]
    exact eq_comm
  | cons patch rest ih =>
    simp only [applyAll_cons, bind_eq_ok_iff, apply_eq_ok_iff, ih, List.forall_mem_cons,
      List.flatMap_cons, Bytes.place_append]
    constructor
    · intro happlied
      obtain ⟨_, ⟨hfirst, rfl⟩, hrest, rfl⟩ := happlied
      simp only [Bytes.size_place] at hrest
      exact ⟨⟨hfirst, hrest⟩, rfl⟩
    · intro hplaced
      obtain ⟨⟨hfirst, hrest⟩, rfl⟩ := hplaced
      refine ⟨_, ⟨hfirst, rfl⟩, ?_, rfl⟩
      simpa only [Bytes.size_place] using hrest

/-- A run of writes fails by one that does not fit. -/
theorem exists_of_applyAll_eq_error {patches : List Patch} {data : Bytes} {cause : DecodeError}
    (h : applyAll patches data = .error cause) :
    ∃ patch ∈ patches, data.size < patch.stop ∧
      cause = data.truncated patch.field patch.stop := by
  induction patches generalizing data with
  | nil => contradiction
  | cons patch rest ih =>
    rw [applyAll_cons] at h
    cases hfirst : patch.apply data with
    | error failure =>
      rw [hfirst] at h
      cases h
      rw [apply] at hfirst
      split at hfirst
      · contradiction
      next hstop =>
        cases hfirst
        exact ⟨patch, List.mem_cons_self, Nat.not_le.mp hstop, rfl⟩
    | ok middle =>
      rw [hfirst, ok_bind] at h
      obtain ⟨later, hmem, hstop, hcause⟩ := ih h
      rw [Bytes.truncated, size_of_apply hfirst] at hcause
      rw [size_of_apply hfirst] at hstop
      exact ⟨later, List.mem_cons_of_mem _ hmem, hstop, hcause⟩

/-- In a loop whose rounds end later and later, all writes have room if those of the
last round have. -/
theorem forall_flatMap_zipIdx_iff {α : Type} {list : List α} {patches : α × Nat → List Patch}
    {low stride size : Nat}
    (hround : ∀ index, (h : index < list.length) →
      ((∀ patch ∈ patches (list[index], index), patch.stop ≤ size) ↔
        low + stride * index ≤ size)) :
    (∀ patch ∈ list.zipIdx.flatMap patches, patch.stop ≤ size) ↔
      list.length = 0 ∨ low + stride * (list.length - 1) ≤ size := by
  constructor
  · intro hall
    by_cases hnone : list.length = 0
    · exact Or.inl hnone
    · have hlast : list.length - 1 < list.length := by omega
      right
      rw [← hround _ hlast]
      intro patch hpatch
      exact hall patch (mem_flatMap_zipIdx.mpr ⟨_, hlast, hpatch⟩)
  · intro hlast patch hpatch
    obtain ⟨index, hindex, hmem⟩ := mem_flatMap_zipIdx.mp hpatch
    have hstride : stride * index ≤ stride * (list.length - 1) :=
      Nat.mul_le_mul_left stride (by omega)
    exact (hround index hindex).mpr (by omega) patch hmem

theorem size_of_applyAll {patches : List Patch} {data result : Bytes}
    (h : applyAll patches data = .ok result) : result.size = data.size := by
  rw [(applyAll_eq_ok_iff.mp h).2, Bytes.size_place]

end Patch

namespace Field

variable {α : Type} [LittleEndian α]

/-- The bytes that the field has when it holds `word`. -/
def stretch (field : Field α) (word : α) : Stretch :=
  ⟨field.offset, LittleEndian.toBytes word⟩

@[simp]
theorem stop_stretch (field : Field α) (word : α) : (field.stretch word).stop = field.stop := by
  rw [Stretch.stop, stretch, LittleEndian.length_toBytes, stop]

/-- Setting the field to `word`. -/
def patch (field : Field α) (word : α) : Patch where
  field := field.name
  stop := field.stop
  stretches := [field.stretch word]
  stop_le := by
    intro stretch hstretch
    have hself : stretch = field.stretch word := List.mem_singleton.mp hstretch
    exact Nat.le_of_eq (hself ▸ stop_stretch field word)

theorem within_stretch {field : Field α} {low high : Nat} (word : α)
    (hlow : low ≤ field.offset) (hhigh : field.stop ≤ high) :
    (field.stretch word).Within low high :=
  ⟨hlow, (stop_stretch field word).symm ▸ hhigh⟩

theorem before_stretch {β : Type} [LittleEndian β] {left : Field α} {right : Field β}
    (leftWord : α) (rightWord : β) (h : left.stop ≤ right.offset) :
    (left.stretch leftWord).Before (right.stretch rightWord) := by
  rw [Stretch.Before, stop_stretch]
  exact h

theorem apart_stretch {β : Type} [LittleEndian β] {left : Field α} {right : Field β}
    (leftWord : α) (rightWord : β) (h : left.stop ≤ right.offset ∨ right.stop ≤ left.offset) :
    (left.stretch leftWord).Apart (right.stretch rightWord) := by
  rw [Stretch.Apart, stop_stretch, stop_stretch]
  exact h

theorem stop_relativeTo (field : Field α) (base : Nat) :
    (field.relativeTo base).stop = base + field.stop :=
  Nat.add_assoc base field.offset (LittleEndian.width α)

theorem write_eq_apply (field : Field α) (data : Bytes) (word : α) :
    field.write data word = (field.patch word).apply data :=
  write_eq field data word

theorem covers_stretch_iff {field : Field α} {word : α} {position : Nat} :
    (field.stretch word).Covers position ↔ field.offset ≤ position ∧ position < field.stop := by
  rw [Stretch.Covers, stop_stretch]
  rfl

/-- A field that was placed apart from everything else holds its word in the end. -/
theorem valueIn_place {field : Field α} {data : Bytes} {stretches : List Stretch} {word : α}
    (hapart : stretches.Pairwise Stretch.Apart) (hmem : field.stretch word ∈ stretches)
    (hstop : field.stop ≤ data.size) : field.valueIn (data.place stretches) = word := by
  have hplaced := Bytes.bytesAt_place_of_mem hapart hmem (by rwa [stop_stretch])
  simp only [stretch, LittleEndian.length_toBytes] at hplaced
  exact valueIn_of_bytesAt hplaced

theorem byteAt_place (field : Field UInt8) {data : Bytes} {stretches : List Stretch}
    {word : UInt8} (hapart : stretches.Pairwise Stretch.Apart)
    (hmem : field.stretch word ∈ stretches) (hstop : field.stop ≤ data.size) :
    (data.place stretches).byteAt field.offset = word := by
  rw [← valueIn_byte]
  exact valueIn_place hapart hmem hstop

theorem wordAt_place (field : Field UInt32) {data : Bytes} {stretches : List Stretch}
    {word : UInt32} (hapart : stretches.Pairwise Stretch.Apart)
    (hmem : field.stretch word ∈ stretches) (hstop : field.stop ≤ data.size) :
    (data.place stretches).wordAt field.offset = word := by
  rw [← valueIn_word]
  exact valueIn_place hapart hmem hstop

end Field

end HistoryTree
