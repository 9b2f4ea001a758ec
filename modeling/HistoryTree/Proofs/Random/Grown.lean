import HistoryTree.Random.Tree
import HistoryTree.Proofs.Record.Tag
import HistoryTree.Proofs.Success
import HistoryTree.Proofs.Tree.Findings

/-!
# Trees that grow node by node

What a tree is like to which every node was added below an earlier one
(`WellGrown`). A tree stays so when a node is added (`WellGrown.attach`), and its
links fit together (`WellGrown.linksFit`).
-/

namespace HistoryTree.Random

open Growth (addChild)

/-! ## Nodes of a grown tree -/

/-- The entry of a node among the children of its parent. -/
def entryOf (header : CommonHeader) : ChildEntry :=
  ⟨header.seqNumber, header.start⟩

/-- The parts of the records that stay as they are when children are added. -/
def headersOf (records : List NodeRecord) : List CommonHeader :=
  records.map (·.toCommonHeader)

/-- The entries of the nodes that name `parent` as their parent, in the order of the nodes. -/
def entriesUnder (headers : List CommonHeader) (parent : SeqNumber) : List ChildEntry :=
  (headers.filter fun header => header.parent = .childOf parent).map entryOf

/-- Where a node may be: the first one is the root, and every other one goes below an
earlier core node and starts within it. -/
inductive Placed (headers : List CommonHeader) : Nat → CommonHeader → Prop
  | root {header : CommonHeader} (parent : header.parent = .root) : Placed headers 0 header
  | below {header : CommonHeader} {index : Nat} (above : Nat) (upper : CommonHeader)
      (earlier : above < index) (found : headers[above]? = some upper)
      (parent : header.parent = .childOf ⟨UInt32.ofNat above⟩) (core : upper.kind = .core)
      (start_le : upper.start ≤ header.start) (le_stop : header.start ≤ upper.stop) :
      Placed headers index header

/-- The interval lies in the range, and its type can be told from a tag. -/
structure Inside (interval : Interval) (start stop : UInt32) : Prop where
  start_le : start ≤ interval.start
  start_le_stop : interval.start ≤ interval.stop
  le_stop : interval.stop ≤ stop
  tagged : ∃ tag, interval.valueType = .ofTag tag

/-- Core nodes count their children and have slots for them; leaves have none. -/
inductive Sized (record : NodeRecord) (maxChildren : UInt32) : Prop
  | core (count : UInt32) (kind : record.kind = .core)
      (specific : record.specific = .core false count)
      (counted : count.toNat = record.children.length)
      (room : record.children.length ≤ maxChildren.toNat)
  | leaf (kind : record.kind = .leaf) (specific : record.specific = .leaf)
      (children : record.children = [])

/-- What holds of each record by itself. -/
structure WellFormed (record : NodeRecord) (maxChildren maxIntervals : UInt32) : Prop where
  start_le_stop : record.start ≤ record.stop
  sized : Sized record maxChildren
  counted : record.intervalCount.toNat = record.intervals.length
  length_le : record.intervals.length ≤ maxIntervals.toNat
  inside : ∀ interval ∈ record.intervals, Inside interval record.start record.stop

/-- What holds of a record by its place in the tree. -/
structure InPlace (headers : List CommonHeader) (index : Nat) (record : NodeRecord) : Prop where
  seqNumber : record.seqNumber = ⟨UInt32.ofNat index⟩
  placed : Placed headers index record.toCommonHeader
  stop_le : record.stop.toNat ≤ 999 * (index + 1)
  children : record.children = entriesUnder headers record.seqNumber

/-- The records of a tree to which every node was added below an earlier one. -/
structure WellGrown (records : List NodeRecord) (maxChildren maxIntervals : UInt32) : Prop where
  wellFormed : ∀ record ∈ records, WellFormed record maxChildren maxIntervals
  inPlace (index : Nat) (record : NodeRecord) (h : records[index]? = some record) :
    InPlace (headersOf records) index record

/-- A node without children that is about to come after `index` others. -/
structure Fresh (record : NodeRecord) (index : Nat) (maxChildren maxIntervals : UInt32) :
    Prop where
  wellFormed : WellFormed record maxChildren maxIntervals
  seqNumber : record.seqNumber = ⟨UInt32.ofNat index⟩
  stop_le : record.stop.toNat ≤ 999 * (index + 1)
  children : record.children = []

/-! ## Adding a node -/

section Headers

variable {headers : List CommonHeader} {header new : CommonHeader} {index : Nat}

theorem entriesUnder_snoc (headers : List CommonHeader) (header : CommonHeader)
    (parent : SeqNumber) :
    entriesUnder (headers ++ [header]) parent =
      if header.parent = .childOf parent then entriesUnder headers parent ++ [entryOf header]
      else entriesUnder headers parent := by
  rw [entriesUnder, List.filter_append, List.map_append]
  by_cases hparent : header.parent = .childOf parent
  · simp [hparent, entriesUnder]
  · simp [hparent, entriesUnder]

theorem Placed.snoc (h : Placed headers index header) (new : CommonHeader) :
    Placed (headers ++ [new]) index header := by
  cases h with
  | root parent => exact .root parent
  | below above upper earlier found parent core start_le le_stop =>
    have hbefore := (List.getElem?_eq_some_iff.mp found).1
    exact .below above upper earlier ((List.getElem?_append_left hbefore).trans found) parent core
      start_le le_stop

/-- A node stays in place when a node is added that goes below another one. -/
theorem InPlace.snoc {record : NodeRecord} (h : InPlace headers index record)
    (hother : new.parent ≠ .childOf record.seqNumber) :
    InPlace (headers ++ [new]) index record where
  seqNumber := h.seqNumber
  placed := h.placed.snoc new
  stop_le := h.stop_le
  children := by rw [entriesUnder_snoc, if_neg hother, h.children]

/-- A node stays in place when a node is added below it, along with its entry. -/
theorem InPlace.addChild {record : NodeRecord} (h : InPlace headers index record)
    (hbelow : new.parent = .childOf record.seqNumber) :
    InPlace (headers ++ [new]) index (addChild record (entryOf new)) where
  seqNumber := h.seqNumber
  placed := h.placed.snoc new
  stop_le := h.stop_le
  children := by
    change record.children ++ [entryOf new] = entriesUnder (headers ++ [new]) record.seqNumber
    rw [entriesUnder_snoc, if_pos hbelow, h.children]

end Headers

@[simp]
theorem length_children_addChild (record : NodeRecord) (child : ChildEntry) :
    (addChild record child).children.length = record.children.length + 1 :=
  List.length_append

theorem Sized.addChild {record : NodeRecord} {maxChildren : UInt32} (h : Sized record maxChildren)
    (hkind : record.kind = .core) (hroom : record.children.length < maxChildren.toNat)
    (child : ChildEntry) : Sized (addChild record child) maxChildren := by
  cases h with
  | core count kind specific counted room =>
    have hless := maxChildren.toNat_lt
    refine .core (count + 1) kind ?_ ?_ ?_
    · rw [Growth.addChild, specific]
    · rw [length_children_addChild, UInt32.toNat_add, counted]
      exact Nat.mod_eq_of_lt (by simp only [UInt32.toNat_one]; omega)
    · rw [length_children_addChild]
      exact hroom
  | leaf kind =>
    rw [hkind] at kind
    contradiction

theorem WellFormed.addChild {record : NodeRecord} {maxChildren maxIntervals : UInt32}
    (h : WellFormed record maxChildren maxIntervals) (hkind : record.kind = .core)
    (hroom : record.children.length < maxChildren.toNat) (child : ChildEntry) :
    WellFormed (addChild record child) maxChildren maxIntervals where
  start_le_stop := h.start_le_stop
  sized := h.sized.addChild hkind hroom child
  counted := h.counted
  length_le := h.length_le
  inside := h.inside

/-- The tree with one more node below the node at `above`. -/
def attach (records : List NodeRecord) (above : Nat) (record : NodeRecord) : List NodeRecord :=
  records.modify above (addChild · (entryOf record.toCommonHeader)) ++ [record]

section Attach

variable {records : List NodeRecord} {maxChildren maxIntervals : UInt32} {above : Nat}
  {record : NodeRecord}

theorem headersOf_attach (records : List NodeRecord) (above : Nat) (record : NodeRecord) :
    headersOf (attach records above record) = headersOf records ++ [record.toCommonHeader] := by
  have hkept (found : NodeRecord) :
      (addChild found (entryOf record.toCommonHeader)).toCommonHeader = found.toCommonHeader := rfl
  rw [headersOf, attach, List.map_append, map_modify_of_kept hkept]
  rfl

theorem getElem?_attach (index : Nat) :
    (attach records above record)[index]? =
      if index = records.length then some record
      else if index = above then
        records[above]?.map (addChild · (entryOf record.toCommonHeader))
      else records[index]? := by
  rw [attach]
  rcases Nat.lt_trichotomy index records.length with hless | rfl | hpast
  · rw [List.getElem?_append_left (by rwa [List.length_modify]), List.getElem?_modify,
      if_neg (Nat.ne_of_lt hless)]
    by_cases habove : index = above
    · simp [habove]
    · simp [habove, Ne.symm habove]
  · simp
  · rw [List.getElem?_append_right (by rw [List.length_modify]; omega), List.length_modify,
      List.getElem?_singleton, if_neg (by omega), if_neg (by omega)]
    split
    next habove => rw [List.getElem?_eq_none (by omega), Option.map_none]
    next => rw [List.getElem?_eq_none (by omega)]

/-- Each node of the larger tree is the new one, or its parent with one more child, or
as it was. -/
theorem attach_cases {index : Nat} {found : NodeRecord}
    (h : (attach records above record)[index]? = some found) :
    (index = records.length ∧ found = record) ∨
    (∃ upper, index = above ∧ records[above]? = some upper ∧
      found = addChild upper (entryOf record.toCommonHeader)) ∨
    (index ≠ above ∧ records[index]? = some found) := by
  rw [getElem?_attach] at h
  split at h
  next hlast => exact Or.inl ⟨hlast, (Option.some.inj h).symm⟩
  next =>
    split at h
    next habove =>
      obtain ⟨upper, hupper, rfl⟩ := Option.map_eq_some_iff.mp h
      exact Or.inr (Or.inl ⟨upper, habove, hupper, rfl⟩)
    next hother => exact Or.inr (Or.inr ⟨hother, h⟩)

theorem getElem?_headersOf {index : Nat} {found : NodeRecord}
    (h : records[index]? = some found) :
    (headersOf records)[index]? = some found.toCommonHeader := by
  rw [headersOf, List.getElem?_map, h, Option.map_some]

/-- Numbers tell nodes apart as long as there are words for them. -/
theorem seqNumber_inj {first second : Nat} (hfirst : first < UInt32.size)
    (hsecond : second < UInt32.size) :
    (⟨UInt32.ofNat first⟩ : SeqNumber) = ⟨UInt32.ofNat second⟩ ↔ first = second := by
  rw [SeqNumber.mk.injEq, ← UInt32.toNat_inj, UInt32.toNat_ofNat_of_lt' hfirst,
    UInt32.toNat_ofNat_of_lt' hsecond]

/-- Nothing is below a node that is yet to come. -/
theorem WellGrown.entriesUnder_length (h : WellGrown records maxChildren maxIntervals)
    (hsmall : records.length < UInt32.size) :
    entriesUnder (headersOf records) ⟨UInt32.ofNat records.length⟩ = [] := by
  rw [entriesUnder, List.map_eq_nil_iff, List.filter_eq_nil_iff]
  intro header hheader
  obtain ⟨found, hfound, rfl⟩ := List.mem_map.mp hheader
  obtain ⟨index, hindex, rfl⟩ := List.getElem_of_mem hfound
  have hplaced := (h.inPlace index _ (List.getElem?_eq_getElem hindex)).placed
  rw [decide_eq_true_eq]
  cases hplaced with
  | root parent =>
    rw [parent]
    exact ParentRef.noConfusion
  | below above upper earlier found parent =>
    rw [parent, ParentRef.childOf.injEq, seqNumber_inj (by omega) hsmall]
    omega

theorem WellGrown.attach {upper : NodeRecord} (h : WellGrown records maxChildren maxIntervals)
    (hsmall : records.length < UInt32.size) (hupper : records[above]? = some upper)
    (hcore : upper.kind = .core) (hroom : upper.children.length < maxChildren.toNat)
    (hfresh : Fresh record records.length maxChildren maxIntervals)
    (hparent : record.parent = .childOf ⟨UInt32.ofNat above⟩)
    (hstart : upper.start ≤ record.start ∧ record.start ≤ upper.stop) :
    WellGrown (attach records above record) maxChildren maxIntervals := by
  have habove : above < records.length := (List.getElem?_eq_some_iff.mp hupper).1
  -- Both parts go through the new node, its parent, and the nodes that stay as they were.
  constructor
  · intro found hfound
    obtain ⟨index, hindex⟩ := List.mem_iff_getElem?.mp hfound
    rcases attach_cases hindex with ⟨-, rfl⟩ | ⟨old, -, hold, rfl⟩ | ⟨-, hold⟩
    · exact hfresh.wellFormed
    · obtain rfl := Option.some.inj (hold.symm.trans hupper)
      exact (h.wellFormed old (List.mem_of_getElem? hold)).addChild hcore hroom _
    · exact h.wellFormed found (List.mem_of_getElem? hold)
  · intro index found hindex
    rw [headersOf_attach]
    rcases attach_cases hindex with ⟨rfl, rfl⟩ | ⟨old, rfl, hold, rfl⟩ | ⟨hother, hold⟩
    · refine ⟨hfresh.seqNumber, Placed.snoc ?_ _, hfresh.stop_le, ?_⟩
      · exact .below above upper.toCommonHeader habove (getElem?_headersOf hupper) hparent hcore
          hstart.1 hstart.2
      · have hself : found.parent ≠ .childOf found.seqNumber := by
          rw [hparent, hfresh.seqNumber, Ne, ParentRef.childOf.injEq,
            seqNumber_inj (by omega) hsmall]
          omega
        rw [entriesUnder_snoc, if_neg hself, hfresh.seqNumber, h.entriesUnder_length hsmall,
          hfresh.children]
    · have hplace := h.inPlace index old hold
      exact hplace.addChild (hparent.trans (by rw [hplace.seqNumber]))
    · have hplace := h.inPlace index found hold
      have hindex : index < records.length := (List.getElem?_eq_some_iff.mp hold).1
      refine hplace.snoc ?_
      rw [hparent, hplace.seqNumber, Ne, ParentRef.childOf.injEq,
        seqNumber_inj (by omega) (by omega)]
      exact fun heq => hother heq.symm

theorem WellGrown.nil : WellGrown [] maxChildren maxIntervals where
  wellFormed := List.forall_mem_nil _
  inPlace := nofun

/-- A tree begins with its root. -/
theorem WellGrown.root (hfresh : Fresh record 0 maxChildren maxIntervals)
    (hparent : record.parent = .root) : WellGrown [record] maxChildren maxIntervals where
  wellFormed := List.forall_mem_singleton.mpr hfresh.wellFormed
  inPlace := by
    intro index found hfound
    obtain ⟨rfl, rfl⟩ : index = 0 ∧ record = found := by
      simpa [List.getElem?_singleton, Option.ite_none_right_eq_some] using hfound
    refine ⟨hfresh.seqNumber, .root hparent, hfresh.stop_le, ?_⟩
    rw [hfresh.children, headersOf, List.map_singleton, entriesUnder, List.filter_cons_of_neg]
    · rfl
    · simp [hparent]

end Attach

/-! ## The links of a grown tree -/

namespace WellGrown

variable {records : List NodeRecord} {maxChildren maxIntervals : UInt32}

/-- The nodes are numbered in their order. -/
theorem numbers_eq (h : WellGrown records maxChildren maxIntervals) :
    numbers records = (List.range records.length).map fun index => ⟨UInt32.ofNat index⟩ := by
  apply List.ext_getElem?
  intro index
  rw [numbers, List.getElem?_map, List.getElem?_map]
  cases hindex : records[index]? with
  | none =>
    have hpast : (List.range records.length).length ≤ index := by
      rw [List.length_range]
      exact List.getElem?_eq_none_iff.mp hindex
    rw [List.getElem?_eq_none hpast]
    rfl
  | some found =>
    have hlength := (List.getElem?_eq_some_iff.mp hindex).1
    rw [List.getElem?_range hlength, Option.map_some, Option.map_some,
      (h.inPlace index found hindex).seqNumber]

theorem nodup_numbers (h : WellGrown records maxChildren maxIntervals)
    (hsmall : records.length ≤ UInt32.size) : (numbers records).Nodup := by
  rw [h.numbers_eq]
  refine List.Nodup.map_on ?_ List.nodup_range
  intro first hfirst second hsecond
  rw [List.mem_range] at hfirst hsecond
  exact (seqNumber_inj (by omega) (by omega)).mp

theorem numbersUnder_root (h : WellGrown records maxChildren maxIntervals) (hsome : records ≠ []) :
    numbersUnder records .root = [⟨0⟩] := by
  obtain ⟨first, rest, rfl⟩ := List.exists_cons_of_ne_nil hsome
  have hfirst := h.inPlace 0 first rfl
  have hroot : first.parent = .root := by
    cases hfirst.placed with
    | root parent => exact parent
    | below above upper earlier => exact absurd earlier (Nat.not_lt_zero above)
  have hrest : rest.filter (fun record => record.parent = .root) = [] := by
    rw [List.filter_eq_nil_iff]
    intro record hrecord
    obtain ⟨index, hindex⟩ := List.mem_iff_getElem?.mp hrecord
    have hplaced := (h.inPlace (index + 1) record hindex).placed
    rw [decide_eq_true_eq]
    cases hplaced with
    | below above upper earlier found parent =>
      rw [parent]
      exact ParentRef.noConfusion
  rw [numbersUnder, List.filter_cons_of_pos (by simpa using hroot), hrest, numbers,
    List.map_singleton, hfirst.seqNumber]
  rfl

theorem linksFit (h : WellGrown records maxChildren maxIntervals)
    (hsmall : records.length ≤ UInt32.size) : LinksFit records ⟨0⟩ where
  roots := by
    by_cases hsome : records = []
    · exact Or.inl hsome
    · exact Or.inr (h.numbersUnder_root hsome)
  nodup := h.nodup_numbers hsmall
  known := by
    intro record hrecord parent hparent
    obtain ⟨index, hindex⟩ := List.mem_iff_getElem?.mp hrecord
    cases (h.inPlace index record hindex).placed with
    | root hroot =>
      rw [hroot] at hparent
      contradiction
    | below above upper earlier found hbelow =>
      obtain rfl : _ = parent := ParentRef.childOf.inj (hbelow.symm.trans hparent)
      have hlength := (List.getElem?_eq_some_iff.mp hindex).1
      rw [h.numbers_eq]
      exact List.mem_map_of_mem (List.mem_range.mpr (earlier.trans hlength))

/-- An index knows the children of each node. -/
theorem childrenOf_ofRecords (h : WellGrown records maxChildren maxIntervals)
    {record : NodeRecord} (hrecord : record ∈ records) :
    (TreeIndex.ofRecords records).childrenOf record.seqNumber =
      record.children.map (·.seqNumber) := by
  obtain ⟨index, hindex⟩ := List.mem_iff_getElem?.mp hrecord
  rw [(TreeIndex.holdsLinks_ofRecords records).childrenOf, (h.inPlace index record hindex).children,
    numbersUnder, numbers, entriesUnder, headersOf, List.filter_map, List.map_map, List.map_map]
  rfl

end WellGrown

end HistoryTree.Random
