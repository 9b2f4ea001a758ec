import HistoryTree.Proofs.Bytes.Word
import HistoryTree.Proofs.Format.Offsets

/-!
# The parts of a block

The layout divides a block into fields, child cells and interval cells, where a time counts
with the four unused bytes behind it. In a core node and in a leaf they follow one another
without a gap (`Layout.tiles_coreParts`, `Layout.tiles_leafParts`), so no byte belongs to two
of them, whatever the number of slots and of intervals (`Layout.regions`).
-/

namespace HistoryTree

namespace Layout

/-- A stretch of a block. -/
structure Part where
  start : Nat
  length : Nat

namespace Part

def stop (part : Part) : Nat :=
  part.start + part.length

def Covers (part : Part) (position : Nat) : Prop :=
  part.start ≤ position ∧ position < part.stop

/-- No byte belongs to both. -/
def Apart (left right : Part) : Prop :=
  ∀ position, left.Covers position → ¬ right.Covers position

end Part

/-! ## Tilings -/

/-- The parts follow one another from `low` to `high`. -/
def Tiles : List Part → (low high : Nat) → Prop
  | [], low, high => low = high
  | part :: rest, low, high => part.start = low ∧ Tiles rest part.stop high

namespace Tiles

variable {parts first second : List Part} {low middle high : Nat}

theorem append (hfirst : Tiles first low middle) (hsecond : Tiles second middle high) :
    Tiles (first ++ second) low high := by
  induction first generalizing low with
  | nil =>
    cases hfirst
    exact hsecond
  | cons part rest ih => exact ⟨hfirst.1, ih hfirst.2⟩

theorem le (h : Tiles parts low high) : low ≤ high := by
  induction parts generalizing low with
  | nil => exact Nat.le_of_eq h
  | cons part rest ih =>
    obtain ⟨rfl, hrest⟩ := h
    exact Nat.le_trans (Nat.le_add_right _ _) (ih hrest)

theorem le_start (h : Tiles parts low high) : ∀ part ∈ parts, low ≤ part.start := by
  induction parts generalizing low with
  | nil => exact List.forall_mem_nil _
  | cons part rest ih =>
    obtain ⟨rfl, hrest⟩ := h
    rw [List.forall_mem_cons]
    refine ⟨Nat.le_refl _, fun other hother => ?_⟩
    exact Nat.le_trans (Nat.le_add_right _ _) (ih hrest other hother)

/-- Each part ends before those that follow it begin. -/
theorem pairwise_apart (h : Tiles parts low high) : parts.Pairwise Part.Apart := by
  induction parts generalizing low with
  | nil => exact .nil
  | cons part rest ih =>
    refine .cons (fun other hother position hpart hcovers => ?_) (ih h.2)
    have hafter := h.2.le_start other hother
    exact Nat.not_lt.mpr (Nat.le_trans hafter hcovers.1) hpart.2

/-- No position between the ends is left out, and none elsewhere is covered. -/
theorem exists_covers_iff (h : Tiles parts low high) (position : Nat) :
    (∃ part ∈ parts, part.Covers position) ↔ low ≤ position ∧ position < high := by
  induction parts generalizing low with
  | nil =>
    cases h
    simp only [List.not_mem_nil, false_and, exists_false, false_iff]
    omega
  | cons part rest ih =>
    obtain ⟨rfl, hrest⟩ := h
    have hstop : part.start ≤ part.stop := Nat.le_add_right _ _
    have hlast := hrest.le
    simp only [List.mem_cons, exists_eq_or_imp, ih hrest]
    rw [Part.Covers]
    omega

end Tiles

/-- So many cells of `size` bytes, the first of them at `base`. -/
def cells (base size count : Nat) : List Part :=
  (List.range count).map fun index => ⟨base + size * index, size⟩

theorem tiles_cells (base size count : Nat) :
    Tiles (cells base size count) base (base + size * count) := by
  induction count with
  | zero => rfl
  | succ count ih =>
    rw [cells, List.range_succ, List.map_append]
    exact ih.append ⟨rfl, Nat.add_assoc base (size * count) size⟩

theorem start_getElem?_cells {base size count index : Nat} (h : index < count) :
    (cells base size count)[index]?.map Part.start = some (base + size * index) := by
  rw [cells, List.getElem?_map, List.getElem?_range h]
  rfl

/-! ## What a block consists of -/

end Layout

/-- The bytes of a field, with so many unused ones behind them. -/
def Field.part {α : Type} [LittleEndian α] (field : Field α) (unused : Nat) : Layout.Part where
  start := field.offset
  length := LittleEndian.width α + unused

namespace Layout

def commonParts : List Part :=
  [Common.typeTag.part 0, Common.start.part 4, Common.stop.part 4, Common.seqNumber.part 0,
    Common.parentSeqNumber.part 0, Common.intervalCount.part 0, Common.varDataOffset.part 0,
    Common.done.part 0]

def coreHeaderParts : List Part :=
  [Core.extended.part 0, Core.childrenCount.part 0]

def childSeqCells (maxChildren : UInt32) : List Part :=
  cells 42 childSeqStride maxChildren.toNat

def childStartCells (maxChildren : UInt32) : List Part :=
  cells (42 + 4 * maxChildren.toNat) childStartStride maxChildren.toNat

def intervalCells (base count : Nat) : List Part :=
  cells base intervalSize count

/-- The parts of a core node with room for `count` intervals. -/
def coreParts (maxChildren : UInt32) (count : Nat) : List Part :=
  commonParts ++ coreHeaderParts ++ childSeqCells maxChildren ++ childStartCells maxChildren ++
    intervalCells (42 + 12 * maxChildren.toNat) count

def leafParts (count : Nat) : List Part :=
  commonParts ++ intervalCells 34 count

theorem tiles_commonParts : Tiles commonParts 0 34 :=
  ⟨rfl, rfl, rfl, rfl, rfl, rfl, rfl, rfl, rfl⟩

theorem tiles_coreHeaderParts : Tiles coreHeaderParts 34 42 :=
  ⟨rfl, rfl, rfl⟩

theorem tiles_childCells (maxChildren : UInt32) :
    Tiles (childSeqCells maxChildren ++ childStartCells maxChildren) 42
      (42 + 12 * maxChildren.toNat) := by
  have hstop : 42 + 12 * maxChildren.toNat =
      42 + 4 * maxChildren.toNat + 8 * maxChildren.toNat := by omega
  rw [hstop]
  exact (tiles_cells 42 4 _).append (tiles_cells _ 8 _)

theorem tiles_coreParts (maxChildren : UInt32) (count : Nat) :
    Tiles (coreParts maxChildren count) 0 (42 + 12 * maxChildren.toNat + 25 * count) := by
  rw [coreParts, List.append_assoc (commonParts ++ coreHeaderParts)]
  have hheaders := tiles_commonParts.append tiles_coreHeaderParts
  exact (hheaders.append (tiles_childCells maxChildren)).append (tiles_cells _ 25 count)

theorem tiles_leafParts (count : Nat) : Tiles (leafParts count) 0 (34 + 25 * count) :=
  tiles_commonParts.append (tiles_cells 34 25 count)

/-! ## Where the parts lie -/

/-- How the blocks of trees with so many child slots are divided. -/
structure Regions (maxChildren : UInt32) : Prop where
  coreApart (count : Nat) : (coreParts maxChildren count).Pairwise Part.Apart
  leafApart (count : Nat) : (leafParts count).Pairwise Part.Apart
  childSeq (index : UInt32) (slot : index < maxChildren) :
    childSeqOffset? index.toNat = (childSeqCells maxChildren)[index.toNat]?.map Part.start
  childStart (index : UInt32) (slot : index < maxChildren) :
    childStartOffset? maxChildren index.toNat =
      (childStartCells maxChildren)[index.toNat]?.map Part.start
  interval (kind : NodeKind) (base count : Nat)
    (known : intervalsBase? kind maxChildren = some base) (index : UInt32)
    (held : index.toNat < count) :
    intervalOffset? kind maxChildren index.toNat =
      (intervalCells base count)[index.toNat]?.map Part.start
  arrays (base : Nat) (known : intervalsBase? .core maxChildren = some base) (position : Nat) :
    (∃ part ∈ childSeqCells maxChildren ++ childStartCells maxChildren,
      part.Covers position) ↔ 42 ≤ position ∧ position < base
  leaf : intervalsBase? .leaf maxChildren = some Common.done.stop

theorem regions (maxChildren : UInt32) : Regions maxChildren where
  coreApart count := (tiles_coreParts maxChildren count).pairwise_apart
  leafApart count := (tiles_leafParts count).pairwise_apart
  childSeq index slot := by
    rw [childSeqOffset?_eq index.toNat_lt_size, childSeqCells,
      start_getElem?_cells (UInt32.lt_iff_toNat_lt.mp slot)]
    rfl
  childStart index slot := by
    rw [childStartOffset?_eq maxChildren index.toNat_lt_size, childStartCells,
      start_getElem?_cells (UInt32.lt_iff_toNat_lt.mp slot)]
    rfl
  interval kind base count known index held := by
    rw [intervalOffset?_eq known index.toNat_lt_size, intervalCells, start_getElem?_cells held]
    rfl
  arrays base known position := by
    rw [intervalsBase?_core, Option.some.injEq] at known
    rw [← known, (tiles_childCells maxChildren).exists_covers_iff]
  leaf := rfl

/-! ## The bytes that fields take -/

/-- The byte at `position` belongs to a field of a node with so many children and intervals.
Of the 8 bytes that a time has, its field takes the low 4. -/
inductive FieldAt (kind : NodeKind) (maxChildren : UInt32) (children intervals position : Nat) :
    Prop where
  | common (within : position < 5 ∨ 9 ≤ position ∧ position < 13 ∨ 17 ≤ position ∧ position < 34)
  | coreHeader (core : kind = .core) (within : 34 ≤ position ∧ position < 42)
  | childSeq (core : kind = .core) (index : Nat) (held : index < children)
      (within : 42 + 4 * index ≤ position ∧ position < 42 + 4 * index + 4)
  | childStart (core : kind = .core) (index : Nat) (held : index < children)
      (within : 42 + 4 * maxChildren.toNat + 8 * index ≤ position ∧
        position < 42 + 4 * maxChildren.toNat + 8 * index + 4)
  | interval (base : Nat) (known : intervalsBase? kind maxChildren = some base) (index : Nat)
      (held : index < intervals)
      (within : base + 25 * index ≤ position ∧ position < base + 25 * index + 4 ∨
        base + 25 * index + 8 ≤ position ∧ position < base + 25 * index + 12 ∨
        base + 25 * index + 16 ≤ position ∧ position < base + 25 * index + 25)

end Layout

end HistoryTree
