import HistoryTree.Proofs.Bytes.Patch
import HistoryTree.Proofs.Text.Utf8
import HistoryTree.Block.Encode
import HistoryTree.Value

/-!
# Strings at the end of a block

Strings are stored from the end of a block downwards, each directly below the one
before. If there is room for all of them, storing them succeeds and only adds their
stretches to the block (`StringArea.foldlM_store`), and each is found again at its
offset, whatever else is placed apart from it (`StoredString.readString?_place`).
-/

namespace HistoryTree

/-! ## Where strings lie -/

namespace StoredString

/-- A string takes a word for its length and then its bytes. -/
def size (string : StoredString) : Nat :=
  4 + string.text.utf8ByteSize

def lengthField (offset : Nat) : Field UInt32 :=
  ⟨"string length", offset⟩

/-- The length and the bytes of a string that begins at `offset`. -/
def stretches (string : StoredString) (offset : Nat) : List Stretch :=
  [(lengthField offset).stretch (UInt32.ofNat string.text.utf8ByteSize),
    ⟨offset + 4, Utf8.encode string.text⟩]

/-- The bytes that strings take together. -/
def totalSize (strings : List StoredString) : Nat :=
  (strings.map size).sum

theorem totalSize_cons (string : StoredString) (rest : List StoredString) :
    totalSize (string :: rest) = string.size + totalSize rest := by
  rw [totalSize, List.map_cons, List.sum_cons, totalSize]

/-- Where the string at `place` begins, if the first one ends at `top`. -/
def offsetBelow (top : Nat) (strings : List StoredString) (place : Nat) : Nat :=
  top - totalSize (strings.take (place + 1))

theorem offsetBelow_cons_zero (top : Nat) (string : StoredString) (rest : List StoredString) :
    offsetBelow top (string :: rest) 0 = top - string.size := by
  rw [offsetBelow, List.take_succ_cons, List.take_zero, totalSize_cons]
  rfl

theorem offsetBelow_cons_succ (top : Nat) (string : StoredString) (rest : List StoredString)
    (place : Nat) :
    offsetBelow top (string :: rest) (place + 1) = offsetBelow (top - string.size) rest place := by
  rw [offsetBelow, offsetBelow, List.take_succ_cons, totalSize_cons, Nat.sub_add_eq]

/-- The stretches of all strings. -/
def stretchesBelow (top : Nat) : List StoredString → List Stretch
  | [] => []
  | string :: rest =>
    string.stretches (top - string.size) ++ stretchesBelow (top - string.size) rest

theorem within_of_mem_stretches {string : StoredString} {offset : Nat} :
    ∀ stretch ∈ string.stretches offset, stretch.Within offset (offset + string.size) := by
  simp only [stretches, List.forall_mem_cons, List.not_mem_nil, false_implies, implies_true,
    and_true]
  constructor
  · apply Field.within_stretch _ (Nat.le_refl offset)
    exact Nat.add_le_add_left (Nat.le_add_right 4 _) offset
  · refine ⟨Nat.le_add_right offset 4, Nat.le_of_eq ?_⟩
    rw [Stretch.stop, Utf8.length_encode, size, Nat.add_assoc]

theorem pairwise_stretches (string : StoredString) (offset : Nat) :
    (string.stretches offset).Pairwise Stretch.Apart := by
  rw [stretches, List.pairwise_pair]
  exact Or.inl (Nat.le_refl (offset + 4))

theorem within_of_mem_stretchesBelow {top : Nat} {strings : List StoredString}
    (h : totalSize strings ≤ top) :
    ∀ stretch ∈ stretchesBelow top strings, stretch.Within (top - totalSize strings) top := by
  induction strings generalizing top with
  | nil => exact List.forall_mem_nil _
  | cons string rest ih =>
    rw [totalSize_cons] at h ⊢
    rw [stretchesBelow, List.forall_mem_append]
    constructor
    · intro stretch hstretch
      have hwithin := within_of_mem_stretches stretch hstretch
      exact hwithin.mono (by omega) (by omega)
    · intro stretch hstretch
      have hwithin := ih (by omega) stretch hstretch
      exact hwithin.mono (by omega) (Nat.sub_le top string.size)

/-- Each string lies below those stored before it. -/
theorem pairwise_stretchesBelow {top : Nat} {strings : List StoredString}
    (h : totalSize strings ≤ top) : (stretchesBelow top strings).Pairwise Stretch.Apart := by
  induction strings generalizing top with
  | nil => exact .nil
  | cons string rest ih =>
    rw [totalSize_cons] at h
    have hrest : totalSize rest ≤ top - string.size := by omega
    rw [stretchesBelow, List.pairwise_append]
    refine ⟨string.pairwise_stretches _, ih hrest, ?_⟩
    intro upper hupper lower hlower
    have hbelow := within_of_mem_stretchesBelow hrest lower hlower
    exact (hbelow.apart (within_of_mem_stretches upper hupper)).symm

/-- The string at `place` lies at its offset. -/
theorem mem_stretchesBelow {top : Nat} {strings : List StoredString} {place : Nat}
    (h : place < strings.length) :
    ∀ stretch ∈ strings[place].stretches (offsetBelow top strings place),
      stretch ∈ stretchesBelow top strings := by
  induction strings generalizing top place with
  | nil => exact absurd h (Nat.not_lt_zero place)
  | cons string rest ih =>
    intro stretch hstretch
    rw [stretchesBelow, List.mem_append]
    cases place with
    | zero =>
      rw [offsetBelow_cons_zero] at hstretch
      exact Or.inl hstretch
    | succ place =>
      rw [offsetBelow_cons_succ] at hstretch
      exact Or.inr (ih (Nat.lt_of_succ_lt_succ h) stretch hstretch)

theorem offsetBelow_add_size_le {top : Nat} {strings : List StoredString} {place : Nat}
    (hroom : totalSize strings ≤ top) (h : place < strings.length) :
    offsetBelow top strings place + strings[place].size ≤ top := by
  induction strings generalizing top place with
  | nil => exact absurd h (Nat.not_lt_zero place)
  | cons string rest ih =>
    rw [totalSize_cons] at hroom
    cases place with
    | zero =>
      rw [offsetBelow_cons_zero, List.getElem_cons_zero]
      omega
    | succ place =>
      rw [offsetBelow_cons_succ, List.getElem_cons_succ]
      have hplace : place < rest.length := Nat.lt_of_succ_lt_succ h
      have hbelow : offsetBelow (top - string.size) rest place + rest[place].size ≤
          top - string.size := ih (by omega) hplace
      omega

/-- A string that was placed apart from everything else is read at its offset. -/
theorem readString?_place {string : StoredString} {offset : Nat} {stretches : List Stretch}
    {data : Bytes} (hapart : stretches.Pairwise Stretch.Apart)
    (hmem : ∀ stretch ∈ string.stretches offset, stretch ∈ stretches)
    (hstop : offset + string.size ≤ data.size) (hsize : data.size < UInt32.size) :
    readString? (data.place stretches) (UInt32.ofNat offset) = some string.text := by
  simp only [StoredString.stretches, List.forall_mem_cons] at hmem
  obtain ⟨hlength, htext, -⟩ := hmem
  rw [size] at hstop
  have hoffset : (UInt32.ofNat offset).toNat = offset :=
    UInt32.toNat_ofNat_of_lt' (by omega)
  have hcount : (UInt32.ofNat string.text.utf8ByteSize).toNat = string.text.utf8ByteSize :=
    UInt32.toNat_ofNat_of_lt' (by omega)
  have hread : (lengthField offset).read (data.place stretches) =
      .ok (UInt32.ofNat string.text.utf8ByteSize) := by
    have hfits : (lengthField offset).stop ≤ data.size := by
      have hfield : (lengthField offset).stop = offset + 4 := rfl
      omega
    rw [Field.read_eq_ok_iff, Bytes.size_place]
    exact ⟨hfits, Field.valueIn_place hapart hlength hfits⟩
  have hregion : (data.place stretches).region "string" (offset + 4) string.text.utf8ByteSize =
      .ok ((data.place stretches).extract (offset + 4)
        (offset + 4 + string.text.utf8ByteSize)) := by
    rw [Bytes.region_eq_ok_iff, Bytes.size_place]
    exact ⟨by omega, rfl⟩
  have hend : Stretch.stop ⟨offset + 4, Utf8.encode string.text⟩ ≤ data.size := by
    change offset + 4 + (Utf8.encode string.text).length ≤ data.size
    rw [Utf8.length_encode]
    omega
  have hbytes : ((data.place stretches).extract (offset + 4)
      (offset + 4 + string.text.utf8ByteSize)).toList = Utf8.encode string.text := by
    have hplaced := Bytes.bytesAt_place_of_mem hapart htext hend
    simp only [Utf8.length_encode] at hplaced
    rw [Bytes.toList_extract_eq_bytesAt (by rw [Bytes.size_place]; omega), hplaced]
  have haddress : Address.add? offset (LittleEndian.width UInt32) = some (offset + 4) := by
    apply Address.add?_of_le
    have hword : UInt32.size ≤ Address.last := by decide
    change offset + 4 ≤ Address.last
    omega
  have hfield : (⟨"string length", offset⟩ : Field UInt32) = lengthField offset := rfl
  rw [readString?, hoffset, hfield]
  simp only [hread, haddress, hcount, hregion, Except.toOption, Option.bind_eq_bind,
    Option.bind_some, hbytes, Utf8.decodeLossy_encode]
  rfl

end StoredString

/-! ## Storing strings -/

/-- The interval with a string at `offset` as its value. -/
def Interval.pointingTo (interval : Interval) (offset : Nat) : Interval :=
  { interval with valueType := .str, value := UInt32.ofNat offset }

/-- Intervals after those that strings are stored for point to their own string. -/
structure Pointed (top : Nat) (strings : List StoredString) (before after : List Interval) :
    Prop where
  length : after.length = before.length
  named (place : Nat) (h : place < strings.length) :
    ∃ interval, before[strings[place].interval]? = some interval ∧
      after[strings[place].interval]? =
        some (interval.pointingTo (StoredString.offsetBelow top strings place))
  others (index : Nat) (h : index ∉ strings.map (·.interval)) : after[index]? = before[index]?

namespace Pointed

variable {top : Nat} {string : StoredString} {strings : List StoredString}
  {before after : List Interval}

theorem nil (top : Nat) (intervals : List Interval) : Pointed top [] intervals intervals where
  length := rfl
  named place h := absurd h (Nat.not_lt_zero place)
  others _ _ := rfl

/-- The first string points its interval, and the others leave it alone. -/
theorem cons {interval : Interval} (hfresh : string.interval ∉ strings.map (·.interval))
    (hinterval : before[string.interval]? = some interval)
    (hrest : Pointed (top - string.size) strings
      (before.set string.interval (interval.pointingTo (top - string.size))) after) :
    Pointed top (string :: strings) before after where
  length := by rw [hrest.length, List.length_set]
  named place h := by
    cases place with
    | zero =>
      have hindex : string.interval < before.length := (List.getElem?_eq_some_iff.mp hinterval).1
      refine ⟨interval, hinterval, ?_⟩
      rw [List.getElem_cons_zero, hrest.others _ hfresh, StoredString.offsetBelow_cons_zero,
        List.getElem?_set_self hindex]
    | succ place =>
      have hplace : place < strings.length := Nat.lt_of_succ_lt_succ h
      have hother : string.interval ≠ strings[place].interval := by
        intro hsame
        exact hfresh (hsame ▸ List.mem_map_of_mem (List.getElem_mem hplace))
      obtain ⟨other, hbefore, hafter⟩ := hrest.named place hplace
      rw [List.getElem?_set_ne hother] at hbefore
      rw [List.getElem_cons_succ, StoredString.offsetBelow_cons_succ]
      exact ⟨other, hbefore, hafter⟩
  others index h := by
    rw [List.map_cons, List.mem_cons, not_or] at h
    rw [hrest.others index h.2, List.getElem?_set_ne (Ne.symm h.1)]

/-- Every interval is one from before or points to a string. -/
theorem mem_or_valueType (h : Pointed top strings before after) {interval : Interval}
    (hmem : interval ∈ after) : interval ∈ before ∨ interval.valueType = .str := by
  obtain ⟨index, hindex⟩ := List.mem_iff_getElem?.mp hmem
  by_cases hnamed : index ∈ strings.map (·.interval)
  · obtain ⟨string, hstring, rfl⟩ := List.mem_map.mp hnamed
    obtain ⟨place, hplace, rfl⟩ := List.getElem_of_mem hstring
    obtain ⟨other, -, hafter⟩ := h.named place hplace
    rw [hafter, Option.some.injEq] at hindex
    exact Or.inr (hindex ▸ rfl)
  · rw [h.others index hnamed] at hindex
    exact Or.inl (List.mem_of_getElem? hindex)

end Pointed

namespace StringArea

variable {area after : StringArea} {string : StoredString} {strings : List StoredString}

/-- What storing strings makes of an area. -/
structure Stores (area : StringArea) (strings : List StoredString) (after : StringArea) :
    Prop where
  block : after.block = area.block.place (StoredString.stretchesBelow area.cursor strings)
  pointed : Pointed area.cursor strings area.intervals after.intervals
  /-- The variable data begins at the last string, if there is one. -/
  varDataOffset : after.varDataOffset =
    if strings = [] then area.varDataOffset
    else UInt32.ofNat (area.cursor - StoredString.totalSize strings)

/-- The area with a string for `interval` below the others. -/
def below (area : StringArea) (string : StoredString) (interval : Interval) : StringArea where
  block := area.block.place (string.stretches (area.cursor - string.size))
  cursor := area.cursor - string.size
  intervals := area.intervals.set string.interval
    (interval.pointingTo (area.cursor - string.size))
  varDataOffset := UInt32.ofNat (area.cursor - string.size)

theorem cursor_below (interval : Interval) :
    (area.below string interval).cursor = area.cursor - string.size := rfl

theorem size_block_below (interval : Interval) :
    (area.below string interval).block.size = area.block.size :=
  Bytes.size_place _ _

/-- A string is stored below the others if there is room and an interval for it. -/
theorem store_eq_ok {interval : Interval} (hroom : string.size ≤ area.cursor)
    (hcursor : area.cursor ≤ area.block.size)
    (hinterval : area.intervals[string.interval]? = some interval) :
    area.store string = .ok (area.below string interval) := by
  have hlength : LittleEndian.width UInt32 + string.text.utf8ByteSize = string.size := rfl
  have hcut : Address.sub? area.cursor string.size = some (area.cursor - string.size) :=
    if_pos hroom
  have hfits : (StoredString.lengthField (area.cursor - string.size)).stop ≤
      area.block.size := by
    change area.cursor - string.size + 4 ≤ area.block.size
    rw [StoredString.size] at hroom ⊢
    omega
  have hwrite : (StoredString.lengthField (area.cursor - string.size)).write area.block
      (UInt32.ofNat string.text.utf8ByteSize) =
      .ok (area.block.overwrite (area.cursor - string.size)
        (LittleEndian.toBytes (UInt32.ofNat string.text.utf8ByteSize))) := by
    rw [Field.write_eq, if_pos hfits]
    rfl
  have hfield (offset : Nat) : (⟨"string length", offset⟩ : Field UInt32) =
      StoredString.lengthField offset := rfl
  simp only [store, Utf8.length_encode, hlength, hcut, Bytes.addressed_some, hfield, hwrite,
    hinterval, Except.mapError, ok_bind]
  rfl

/-- Without room below the others, a string is not stored. -/
theorem store_eq_error (hroom : area.cursor < string.size) :
    area.store string =
      .error (.doesNotFit (.truncatedInput "string" Address.last area.block.size)) := by
  have hlength : LittleEndian.width UInt32 + string.text.utf8ByteSize = string.size := rfl
  have hcut : Address.sub? area.cursor string.size = none := if_neg (Nat.not_le.mpr hroom)
  rw [store, Utf8.length_encode, hlength, hcut]
  rfl

/-- The first string is stored, and then the others below it. -/
theorem Stores.cons {interval : Interval}
    (hfresh : string.interval ∉ strings.map (·.interval))
    (hinterval : area.intervals[string.interval]? = some interval)
    (hrest : (area.below string interval).Stores strings after) :
    area.Stores (string :: strings) after where
  block := by
    rw [hrest.block, below, ← Bytes.place_append]
    rfl
  pointed := Pointed.cons hfresh hinterval hrest.pointed
  varDataOffset := by
    rw [hrest.varDataOffset, if_neg (List.cons_ne_nil _ _), StoredString.totalSize_cons,
      Nat.sub_add_eq]
    split
    next hlast => rw [hlast]; rfl
    next => rw [cursor_below]

/-- If there is room for all strings and each has an interval of its own, all of them
are stored. -/
theorem foldlM_store (area : StringArea)
    (hroom : StoredString.totalSize strings ≤ area.cursor)
    (hcursor : area.cursor ≤ area.block.size)
    (hnodup : (strings.map (·.interval)).Nodup)
    (hnamed : ∀ string ∈ strings, string.interval < area.intervals.length) :
    ∃ after, strings.foldlM store area = .ok after ∧ area.Stores strings after := by
  induction strings generalizing area with
  | nil => exact ⟨area, rfl, rfl, Pointed.nil _ _, rfl⟩
  | cons string rest ih =>
    rw [StoredString.totalSize_cons] at hroom
    rw [List.map_cons, List.nodup_cons] at hnodup
    rw [List.forall_mem_cons] at hnamed
    have hinterval : area.intervals[string.interval]? = some area.intervals[string.interval] :=
      List.getElem?_eq_getElem hnamed.1
    have hstore := store_eq_ok (by omega) hcursor hinterval
    have hbelow : StoredString.totalSize rest ≤
        (area.below string area.intervals[string.interval]).cursor := by
      rw [cursor_below]
      omega
    have hblock : (area.below string area.intervals[string.interval]).cursor ≤
        (area.below string area.intervals[string.interval]).block.size := by
      rw [cursor_below, size_block_below]
      omega
    have hothers : ∀ other ∈ rest, other.interval <
        (area.below string area.intervals[string.interval]).intervals.length := by
      simpa only [below, List.length_set] using hnamed.2
    obtain ⟨after, hafter, hstores⟩ := ih _ hbelow hblock hnodup.2 hothers
    refine ⟨after, ?_, hstores.cons hnodup.1 hinterval⟩
    rw [List.foldlM_cons, hstore, ok_bind, hafter]

end StringArea

end HistoryTree
