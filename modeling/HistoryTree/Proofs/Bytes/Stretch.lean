import HistoryTree.Proofs.Bytes.Word
import Mathlib.Data.List.Chain

/-!
# Placing stretches

A buffer that is filled by many writes is the initial buffer with a list of
stretches placed in it. If they lie apart, the order does not matter: every
stretch is found again where it was placed (`bytesAt_place_of_mem`), and all
other positions keep their bytes (`byteAt_place_of_not_covers`).
-/

namespace HistoryTree

/-- Bytes that stand at an offset. -/
structure Stretch where
  offset : Nat
  values : List UInt8

namespace Stretch

/-- The end of the stretch. -/
def stop (stretch : Stretch) : Nat :=
  stretch.offset + stretch.values.length

def Covers (stretch : Stretch) (position : Nat) : Prop :=
  stretch.offset ≤ position ∧ position < stretch.stop

/-- One stretch ends before the other begins. -/
def Apart (left right : Stretch) : Prop :=
  left.stop ≤ right.offset ∨ right.stop ≤ left.offset

/-- The stretch lies between two positions. -/
def Within (stretch : Stretch) (low high : Nat) : Prop :=
  low ≤ stretch.offset ∧ stretch.stop ≤ high

def Before (left right : Stretch) : Prop :=
  left.stop ≤ right.offset

instance : Trans Before Before Before where
  trans {_ middle _} hfirst hsecond :=
    Nat.le_trans hfirst (Nat.le_trans (Nat.le_add_right middle.offset _) hsecond)

/-- Stretches that follow one another lie apart. -/
theorem pairwise_apart_of_isChain {stretches : List Stretch} (h : stretches.IsChain Before) :
    stretches.Pairwise Apart :=
  (List.isChain_iff_pairwise.mp h).imp Or.inl

/-- Stretches on either side of a position lie apart. -/
theorem Within.apart {left right : Stretch} {low middle high : Nat}
    (hleft : left.Within low middle) (hright : right.Within middle high) :
    left.Apart right :=
  Or.inl (Nat.le_trans hleft.2 hright.1)

theorem Within.mono {stretch : Stretch} {low high low' high' : Nat}
    (h : stretch.Within low high) (hlow : low' ≤ low) (hhigh : high ≤ high') :
    stretch.Within low' high' :=
  ⟨Nat.le_trans hlow h.1, Nat.le_trans h.2 hhigh⟩

/-- The stretches of a loop lie apart if those of each round and of any two rounds do. -/
theorem pairwise_apart_flatMap_zipIdx {α : Type} {list : List α}
    {cells : α × Nat → List Stretch}
    (hself : ∀ entry ∈ list.zipIdx, (cells entry).Pairwise Apart)
    (hother : ∀ first ∈ list.zipIdx, ∀ second ∈ list.zipIdx, first.2 < second.2 →
      ∀ left ∈ cells first, ∀ right ∈ cells second, left.Apart right) :
    (list.zipIdx.flatMap cells).Pairwise Apart := by
  have hindexes : (list.zipIdx.map Prod.snd).Pairwise (· < ·) := by
    rw [List.zipIdx_map_snd]
    exact List.pairwise_lt_range'
  rw [List.pairwise_map] at hindexes
  rw [List.pairwise_flatMap]
  refine ⟨hself, hindexes.imp_of_mem ?_⟩
  intro first second hfirst hsecond hless
  exact hother first hfirst second hsecond hless

/-- Lists on either side of a position can be joined. -/
theorem pairwise_apart_append {left right : List Stretch} {low middle high : Nat}
    (hleft : left.Pairwise Apart) (hright : right.Pairwise Apart)
    (hbefore : ∀ stretch ∈ left, stretch.Within low middle)
    (hafter : ∀ stretch ∈ right, stretch.Within middle high) :
    (left ++ right).Pairwise Apart := by
  rw [List.pairwise_append]
  refine ⟨hleft, hright, ?_⟩
  intro first hfirst second hsecond
  exact (hbefore first hfirst).apart (hafter second hsecond)

end Stretch

namespace Bytes

theorem byteAt_overwrite_of_apart {data : Bytes} {offset position : Nat} {values : List UInt8}
    (h : position < offset ∨ offset + values.length ≤ position) :
    (data.overwrite offset values).byteAt position = data.byteAt position := by
  have houtside : ¬ (offset ≤ position ∧ position < offset + values.length ∧
      position < data.size) := by omega
  rw [byteAt, getElem?_overwrite, if_neg houtside, byteAt]

theorem wordAt_overwrite_of_apart {data : Bytes} {offset start : Nat} {values : List UInt8}
    (h : start + 4 ≤ offset ∨ offset + values.length ≤ start) :
    (data.overwrite offset values).wordAt start = data.wordAt start := by
  apply wordAt_congr
  intro position hfrom hto
  exact byteAt_overwrite_of_apart (by omega)

theorem byteAt_overwrite_of_not_covers {data : Bytes} {stretch : Stretch} {position : Nat}
    (h : ¬ stretch.Covers position) :
    (data.overwrite stretch.offset stretch.values).byteAt position = data.byteAt position := by
  apply byteAt_overwrite_of_apart
  rcases Nat.lt_or_ge position stretch.offset with hbefore | hfrom
  · exact Or.inl hbefore
  · exact Or.inr (Nat.not_lt.mp fun hto => h ⟨hfrom, hto⟩)

/-- What lies apart from an overwritten stretch is left alone. -/
theorem bytesAt_overwrite_of_apart {data : Bytes} {stretch other : Stretch}
    (h : stretch.Apart other) :
    (data.overwrite stretch.offset stretch.values).bytesAt other.offset other.values.length =
      data.bytesAt other.offset other.values.length := by
  apply List.map_congr_left
  intro index hindex
  have hless : index < other.values.length := List.mem_range.mp hindex
  apply byteAt_overwrite_of_not_covers
  intro hcovers
  obtain ⟨hfrom, hto⟩ := hcovers
  rcases h with hbefore | hafter
  · exact absurd hto (by omega)
  · rw [Stretch.stop] at hafter
    omega

theorem bytesAt_overwrite_self {data : Bytes} {stretch : Stretch}
    (h : stretch.stop ≤ data.size) :
    (data.overwrite stretch.offset stretch.values).bytesAt stretch.offset
      stretch.values.length = stretch.values := by
  apply List.ext_getElem
  · exact length_bytesAt _ _ _
  intro index _ hindex
  rw [Stretch.stop] at h
  have hinside : stretch.offset ≤ stretch.offset + index ∧
      stretch.offset + index < stretch.offset + stretch.values.length ∧
      stretch.offset + index < data.size := by omega
  simp [bytesAt, byteAt, getElem?_overwrite, hinside, hindex]

/-- What is cut out apart from an overwritten stretch does not show it. -/
theorem extract_overwrite_of_apart {data : Bytes} {offset start stop : Nat}
    {values : List UInt8} (h : offset + values.length ≤ start ∨ stop ≤ offset) :
    (data.overwrite offset values).extract start stop = data.extract start stop := by
  apply Array.ext_getElem?
  intro index
  rw [Array.getElem?_extract, Array.getElem?_extract, size_overwrite, getElem?_overwrite]
  split
  next hindex =>
    have houtside : ¬ (offset ≤ start + index ∧ start + index < offset + values.length ∧
        start + index < data.size) := by omega
    rw [if_neg houtside]
  next => rfl

/-- What is cut out from an overwritten stretch on begins with its values. -/
theorem extract_overwrite_self {data : Bytes} {start stop : Nat} {values : List UInt8}
    (h : start + values.length ≤ stop) :
    (data.overwrite start values).extract start stop =
      Bytes.overwrite (data.extract start stop) 0 values := by
  apply Array.ext_getElem?
  intro index
  rw [Array.getElem?_extract, size_overwrite, getElem?_overwrite, getElem?_overwrite,
    Array.getElem?_extract, Array.size_extract, Nat.add_sub_cancel_left, Nat.sub_zero]
  split
  next hindex =>
    have hinside : (start ≤ start + index ∧ start + index < start + values.length ∧
        start + index < data.size) ↔ (0 ≤ index ∧ index < 0 + values.length ∧
          index < min stop data.size - start) := by omega
    simp only [hinside]
  next hindex =>
    have houtside : ¬ (0 ≤ index ∧ index < 0 + values.length ∧
        index < min stop data.size - start) := by omega
    rw [if_neg houtside]

/-- Overwrites the stretches one after another. -/
def place (data : Bytes) : List Stretch → Bytes
  | [] => data
  | stretch :: rest => place (data.overwrite stretch.offset stretch.values) rest

@[simp]
theorem size_place (data : Bytes) (stretches : List Stretch) :
    (data.place stretches).size = data.size := by
  induction stretches generalizing data with
  | nil => rfl
  | cons stretch rest ih => rw [place, ih, size_overwrite]

theorem place_append (data : Bytes) (first second : List Stretch) :
    data.place (first ++ second) = (data.place first).place second := by
  induction first generalizing data with
  | nil => rfl
  | cons stretch rest ih => exact ih _

/-- A position that no stretch covers keeps its byte. -/
theorem byteAt_place_of_not_covers {data : Bytes} {stretches : List Stretch} {position : Nat}
    (h : ∀ stretch ∈ stretches, ¬ stretch.Covers position) :
    (data.place stretches).byteAt position = data.byteAt position := by
  induction stretches generalizing data with
  | nil => rfl
  | cons stretch rest ih =>
    rw [place, ih fun other hother => h other (List.mem_cons_of_mem _ hother)]
    exact byteAt_overwrite_of_not_covers (h stretch List.mem_cons_self)

theorem bytesAt_place_of_apart {data : Bytes} {stretches : List Stretch} {stretch : Stretch}
    (h : ∀ other ∈ stretches, other.Apart stretch) :
    (data.place stretches).bytesAt stretch.offset stretch.values.length =
      data.bytesAt stretch.offset stretch.values.length := by
  induction stretches generalizing data with
  | nil => rfl
  | cons other rest ih =>
    rw [place, ih fun later hlater => h later (List.mem_cons_of_mem _ hlater)]
    exact bytesAt_overwrite_of_apart (h other List.mem_cons_self)

/-- A stretch that lies apart from all others is found again after all are placed. -/
theorem bytesAt_place_of_mem {data : Bytes} {stretches : List Stretch} {stretch : Stretch}
    (hapart : stretches.Pairwise Stretch.Apart) (hmem : stretch ∈ stretches)
    (hstop : stretch.stop ≤ data.size) :
    (data.place stretches).bytesAt stretch.offset stretch.values.length = stretch.values := by
  induction stretches generalizing data with
  | nil => exact absurd hmem List.not_mem_nil
  | cons first rest ih =>
    rw [List.pairwise_cons] at hapart
    rw [place]
    rcases List.mem_cons.mp hmem with hfirst | hrest
    · subst hfirst
      have hlater : ∀ other ∈ rest, other.Apart stretch :=
        fun other hother => (hapart.1 other hother).symm
      rw [bytesAt_place_of_apart hlater]
      exact bytesAt_overwrite_self hstop
    · exact ih hapart.2 hrest (by rwa [size_overwrite])

end Bytes

end HistoryTree
