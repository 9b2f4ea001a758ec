import HistoryTree.Proofs.Random.Growth
import HistoryTree.Random.SplitMix

/-!
# Drawing a tree

Every question of the generator has an answer: a node within whose range to start, a
time that is still a word, intervals within the node. So a tree is drawn whatever the
sampler answers, and it is a well-grown one (`yields_drawTree`).
-/

namespace HistoryTree.Random

variable {σ : Type} (sampler : Sampler σ) {growth : Growth} {maxChildren maxIntervals : UInt32}

theorem yields_drawInterval {start stop : UInt32} (h : start ≤ stop) :
    Draw.Yields (drawInterval sampler start stop) fun interval => Inside interval start stop := by
  refine (sampler.yields_wordBetween h).bind fun first _ => ?_
  refine (sampler.yields_wordBetween first.2.2).bind fun last _ => ?_
  refine (sampler.yields_wordBetween (by decide)).bind fun attributeId _ => ?_
  refine (Draw.yields_ask _).bind fun tag _ => (Draw.yields_ask _).bind fun value _ => ?_
  exact Draw.yields_pure ⟨first.2.1, last.2.1, last.2.2, _, rfl⟩

theorem yields_drawStop {start : UInt32} (h : start.toNat + 999 < UInt32.size) :
    Draw.Yields (drawStop sampler start) fun stop =>
      start ≤ stop ∧ stop.toNat ≤ start.toNat + 999 := by
  refine (sampler.yields_wordBetween (by decide)).bind fun length _ => ?_
  have hlength : length.val.toNat ≤ 999 := length.2.2
  have hstop : (start + length.val).toNat = start.toNat + length.val.toNat := by
    rw [UInt32.toNat_add]
    exact Nat.mod_eq_of_lt (Nat.lt_of_le_of_lt (Nat.add_le_add_left hlength _) h)
  rw [if_pos (by omega)]
  apply Draw.yields_pure
  rw [UInt32.le_iff_toNat_le, hstop]
  omega

/-- What `grow` draws first of all, the node to go below. -/
abbrev Growth.Parent (growth : Growth) : Type :=
  Option { index : Nat // index < growth.records.size }

/-- Where a new node goes. -/
inductive Goes (growth : Growth) : growth.Parent → Prop
  | first (empty : growth.records.size = 0) : Goes growth none
  | below (index : Nat) (bound : index < growth.records.size)
      (isOpen : index ∈ growth.openNodes) : Goes growth (some ⟨index, bound⟩)

/-- When a new node starts: within its parent, or at 0. -/
inductive Starts (growth : Growth) : growth.Parent → UInt32 → Prop
  | first : Starts growth none 0
  | below (index : Nat) (bound : index < growth.records.size) {start : UInt32}
      (start_le : growth.records[index].start ≤ start)
      (le_stop : start ≤ growth.records[index].stop) : Starts growth (some ⟨index, bound⟩) start

theorem yields_drawParent (h : growth.Sound maxChildren maxIntervals)
    (hslots : 0 < growth.records.size → 0 < maxChildren) :
    Draw.Yields (drawParent sampler growth) (Goes growth) := by
  rw [drawParent]
  split
  next hempty => exact Draw.yields_pure (.first (by simpa using hempty))
  next hempty =>
    have hsome : 0 < growth.records.size := by
      rw [Nat.pos_iff_ne_zero]
      simpa using hempty
    refine (sampler.yields_member (h.someOpen hsome (hslots hsome))).bind fun parent _ => ?_
    exact Draw.yields_pure (.below _ _ parent.2)

theorem getElem?_toList_records {index : Nat} (h : index < growth.records.size) :
    growth.records.toList[index]? = some growth.records[index] := by
  rw [Array.getElem?_toList, Array.getElem?_eq_getElem h]

/-- Times grow by less than 1000 with each node. -/
theorem Starts.toNat_le {parent? : growth.Parent} {start : UInt32}
    (hstarts : Starts growth parent? start)
    (h : growth.Sound maxChildren maxIntervals) : start.toNat ≤ 999 * growth.records.size := by
  cases hstarts with
  | first => exact Nat.zero_le _
  | below index bound start_le le_stop =>
    have hstop := (h.wellGrown.inPlace _ _ (getElem?_toList_records bound)).stop_le
    rw [UInt32.le_iff_toNat_le] at le_stop
    omega

/-! ## One more node -/

def drawStart (sampler : Sampler σ) (growth : Growth) : growth.Parent → Draw σ UInt32
  | some ⟨index, _⟩ => do
    let above := growth.records[index]
    let within ← sampler.wordBetween above.start above.stop
    return within.val
  | none => return 0

def mustBeCore (growth : Growth) (maxChildren : UInt32) : growth.Parent → Bool
  | some ⟨index, _⟩ =>
    growth.openNodes.size == 1 &&
      growth.records[index].children.length + 1 == maxChildren.toNat
  | none => true

def drawIsCore (sampler : Sampler σ) (mustBeCore : Bool) : Draw σ Bool :=
  if mustBeCore then return true else Draw.ask (sampler.coin evenWeight)

/-- The record of a node without children. -/
def newRecord (growth : Growth) (parent? : growth.Parent) (start stop : UInt32)
    (isCore : Bool) (intervals : List Interval) (done : Bool) : NodeRecord where
  kind := if isCore then .core else .leaf
  start
  stop
  seqNumber := ⟨UInt32.ofNat growth.records.size⟩
  parent := match parent? with
    | some parent => .childOf ⟨UInt32.ofNat parent⟩
    | none => .root
  intervalCount := UInt32.ofNat intervals.length
  varDataOffset := 0
  done
  specific := if isCore then .core false 0 else .leaf
  children := []
  intervals

/-- The tree with a record below its parent. -/
def Growth.add (growth : Growth) (parent? : growth.Parent) (record : NodeRecord)
    (maxChildren : UInt32) (isOpen : Bool) : Growth :=
  match parent? with
  | some parent =>
    (growth.link parent (entryOf record.toCommonHeader) maxChildren).push record isOpen
  | none => growth.push record isOpen

/-- A node is grown from the answers to one question after another. -/
theorem grow_eq (sampler : Sampler σ) (maxChildren maxIntervals : UInt32) (growth : Growth) :
    grow sampler maxChildren maxIntervals growth = (do
      let parent? ← drawParent sampler growth
      let start ← drawStart sampler growth parent?
      let stop ← drawStop sampler start
      let isCore ← drawIsCore sampler (mustBeCore growth maxChildren parent?)
      let count ← sampler.wordBetween 0 maxIntervals
      let intervals ← (drawInterval sampler start stop).times count.val.toNat
      let done ← Draw.ask (sampler.coin mostlyWeight)
      return growth.add parent? (newRecord growth parent? start stop isCore intervals done)
        maxChildren (isCore && 0 < maxChildren)) := by
  rw [grow]
  congr 1
  funext parent?
  cases parent? with
  | none => simp [drawStart, drawIsCore, mustBeCore, Growth.add, newRecord]
  | some parent =>
    -- `grow` asks for the kind only where it is left open, and goes on alike in both cases.
    simp only [drawStart, bind_assoc, pure_bind]
    congr 1
    funext within
    congr 1
    funext stop
    rw [drawIsCore, mustBeCore]
    split
    next => simp [Growth.add, newRecord, entryOf]
    next => rfl

section NewNode

variable {parent? : growth.Parent} {start stop : UInt32} {intervals : List Interval}

theorem yields_drawStart (h : growth.Sound maxChildren maxIntervals) (parent? : growth.Parent) :
    Draw.Yields (drawStart sampler growth parent?) (Starts growth parent?) := by
  cases parent? with
  | none => exact Draw.yields_pure .first
  | some parent =>
    obtain ⟨index, hindex⟩ := parent
    have hfound := List.mem_of_getElem? (getElem?_toList_records hindex)
    have hrange := (h.wellGrown.wellFormed _ hfound).start_le_stop
    refine (sampler.yields_wordBetween hrange).bind fun within _ => ?_
    exact Draw.yields_pure (.below index hindex within.2.1 within.2.2)

theorem yields_drawIsCore (must : Bool) :
    Draw.Yields (drawIsCore sampler must) fun isCore => must = true → isCore = true := by
  cases must with
  | true => exact Draw.yields_pure fun _ => rfl
  | false => exact (Draw.yields_ask _).mono fun _ _ => nofun

theorem fresh_newRecord (hrange : start ≤ stop)
    (hstop : stop.toNat ≤ 999 * (growth.records.size + 1))
    (hlength : intervals.length ≤ maxIntervals.toNat)
    (hinside : ∀ interval ∈ intervals, Inside interval start stop) (isCore done : Bool) :
    Fresh (newRecord growth parent? start stop isCore intervals done) growth.records.size
      maxChildren maxIntervals where
  wellFormed := {
    start_le_stop := hrange
    sized := by
      cases isCore with
      | true => exact .core 0 rfl rfl rfl (Nat.zero_le _)
      | false => exact .leaf rfl rfl rfl
    counted := UInt32.toNat_ofNat_of_lt' (Nat.lt_of_le_of_lt hlength maxIntervals.toNat_lt)
    length_le := hlength
    inside := hinside }
  seqNumber := rfl
  stop_le := hstop
  children := rfl

theorem sound_add {isCore done : Bool} (h : growth.Sound maxChildren maxIntervals)
    (hsmall : growth.records.size < UInt32.size) (hgoes : Goes growth parent?)
    (hstarts : Starts growth parent? start)
    (hcore : mustBeCore growth maxChildren parent? = true → isCore = true)
    (hfresh : Fresh (newRecord growth parent? start stop isCore intervals done)
      growth.records.size maxChildren maxIntervals) :
    (growth.add parent? (newRecord growth parent? start stop isCore intervals done) maxChildren
      (isCore && 0 < maxChildren)).Sound maxChildren maxIntervals := by
  have hkind : (newRecord growth parent? start stop isCore intervals done).kind = .core ↔
      isCore = true := by cases isCore <;> simp [newRecord]
  have hisOpen : (isCore && decide (0 < maxChildren)) = true ↔
      (newRecord growth parent? start stop isCore intervals done).kind = .core ∧
        0 < maxChildren := by rw [hkind, Bool.and_eq_true, decide_eq_true_eq]
  cases hgoes with
  | first hempty =>
    obtain rfl := Growth.eq_empty_of_size hempty
    exact Growth.sound_root hfresh rfl (hkind.mpr (hcore rfl)) hisOpen
  | below index hindex hopen =>
    cases hstarts with
    | below _ _ start_le le_stop =>
      refine h.attach hsmall hopen (Array.getElem?_eq_getElem hindex) hfresh rfl
        ⟨start_le, le_stop⟩ hisOpen ?_
      intro hone hfull
      apply hkind.mpr (hcore _)
      rw [mustBeCore, hone, hfull]
      simp

theorem size_add (growth : Growth) (parent? : growth.Parent) (record : NodeRecord)
    (maxChildren : UInt32) (isOpen : Bool) :
    (growth.add parent? record maxChildren isOpen).records.size = growth.records.size + 1 := by
  cases parent? with
  | none => exact Array.size_push ..
  | some parent =>
    rw [Growth.add, Growth.push, Array.size_push, Growth.size_records_link]

end NewNode

/-- A node can be added as long as its time is a word. -/
theorem yields_grow (h : growth.Sound maxChildren maxIntervals)
    (hslots : 0 < growth.records.size → 0 < maxChildren)
    (htimes : 999 * (growth.records.size + 1) < UInt32.size) :
    Draw.Yields (grow sampler maxChildren maxIntervals growth) fun grown =>
      grown.Sound maxChildren maxIntervals ∧
        grown.records.size = growth.records.size + 1 := by
  rw [grow_eq]
  refine (yields_drawParent sampler h hslots).bind fun parent? hgoes => ?_
  refine (yields_drawStart sampler h parent?).bind fun start hstarts => ?_
  have hbound := hstarts.toNat_le h
  refine (yields_drawStop sampler (by omega)).bind fun stop hstop => ?_
  refine (yields_drawIsCore sampler _).bind fun isCore hcore => ?_
  refine (sampler.yields_wordBetween UInt32.zero_le).bind fun count _ => ?_
  refine ((yields_drawInterval sampler hstop.1).times _).bind fun intervals hintervals => ?_
  refine (Draw.yields_ask _).bind fun done _ => Draw.yields_pure ⟨?_, size_add ..⟩
  have hlength : intervals.length ≤ maxIntervals.toNat := by
    rw [hintervals.1]
    exact count.2.2
  have hfresh : Fresh (newRecord growth parent? start stop isCore intervals done) _ maxChildren
      maxIntervals := fresh_newRecord hstop.1 (by omega) hlength hintervals.2 isCore done
  exact sound_add h (by omega) hgoes hstarts hcore hfresh

theorem yields_growMany (count : Nat) (h : growth.Sound maxChildren maxIntervals)
    (hslots : 0 < maxChildren ∨ growth.records.size + count ≤ 1)
    (htimes : 999 * (growth.records.size + count) < UInt32.size) :
    Draw.Yields (growMany sampler maxChildren maxIntervals count growth) fun grown =>
      grown.Sound maxChildren maxIntervals ∧ grown.records.size = growth.records.size + count := by
  induction count generalizing growth with
  | zero => exact Draw.yields_pure ⟨h, rfl⟩
  | succ count ih =>
    rw [growMany]
    -- The nodes there are and those to come add up to the same, and so both bounds stay.
    have hroom (hsome : 0 < growth.records.size) : 0 < maxChildren :=
      hslots.resolve_right (by omega)
    refine (yields_grow sampler h hroom (by omega)).bind fun grown hgrown => ?_
    have hsize := hgrown.2
    refine (ih hgrown.1 ?_ (by omega)).mono ?_
    · exact hslots.imp_right fun hsingle => by omega
    · rintro final ⟨hsound, hfinal⟩
      exact ⟨hsound, by omega⟩

/-- No node of four million ends past the last word. -/
theorem times_fit {nodeCount : UInt32} (h : nodeCount ≤ 4000000) :
    999 * nodeCount.toNat < UInt32.size := by
  have hcount : nodeCount.toNat ≤ 4000000 := h
  have hsize : UInt32.size = 4294967296 := rfl
  omega

/-- Any number of nodes that have room and times can be drawn, as a well-grown tree. -/
theorem yields_drawTree {nodeCount : UInt32} (hslots : 0 < maxChildren ∨ nodeCount ≤ 1)
    (htimes : 999 * nodeCount.toNat < UInt32.size) :
    Draw.Yields (drawTree sampler nodeCount maxChildren maxIntervals) fun records =>
      records.length = nodeCount.toNat ∧ WellGrown records maxChildren maxIntervals := by
  have hroom : ¬ (maxChildren = 0 ∧ 1 < nodeCount) := by
    rintro ⟨rfl, hmany⟩
    rcases hslots with hpositive | hfew
    · exact absurd hpositive (UInt32.lt_irrefl 0)
    · exact absurd hmany (UInt32.not_lt.mpr hfew)
  have hsound := Growth.sound_empty maxChildren maxIntervals
  have hsize : Growth.empty.records.size = 0 := rfl
  rw [drawTree, if_neg hroom]
  refine (yields_growMany sampler nodeCount.toNat hsound ?_ ?_).bind fun grown hgrown => ?_
  · rw [hsize, Nat.zero_add]
    exact hslots.imp_right UInt32.le_iff_toNat_le.mp
  · rwa [hsize, Nat.zero_add]
  · apply Draw.yields_pure
    rw [Array.length_toList, hgrown.2, hsize, Nat.zero_add]
    exact ⟨rfl, hgrown.1.wellGrown⟩

/-- From every state of every sampler a tree is drawn in which all links fit. -/
theorem exists_run_drawTree (state : σ) {nodeCount : UInt32} (hcount : nodeCount ≤ 4000000)
    (hslots : 0 < maxChildren ∨ nodeCount ≤ 1) :
    ∃ records next,
      (drawTree sampler nodeCount maxChildren maxIntervals).run state = .ok (records, next) ∧
      records.length = nodeCount.toNat ∧
      WellGrown records maxChildren maxIntervals ∧
      (TreeIndex.ofRecords records).hasFindings ⟨0⟩ = false ∧
      ∀ record ∈ records, (TreeIndex.ofRecords records).childrenOf record.seqNumber =
        record.children.map (·.seqNumber) := by
  obtain ⟨records, next, hrun, hlength, hgrown⟩ :=
    yields_drawTree sampler hslots (times_fit hcount) state
  have hsmall : records.length ≤ UInt32.size := hlength ▸ Nat.le_of_lt nodeCount.toNat_lt
  exact ⟨records, next, hrun, hlength, hgrown,
    TreeIndex.hasFindings_eq_false_iff.mpr (hgrown.linksFit hsmall),
    fun record hrecord => hgrown.childrenOf_ofRecords hrecord⟩

theorem exists_run_drawTree_splitMix :
    ∃ records next, (drawTree SplitMix.sampler 50 2 3).run ⟨1⟩ = .ok (records, next) ∧
      records.length = 50 ∧
      WellGrown records 2 3 ∧
      (TreeIndex.ofRecords records).hasFindings ⟨0⟩ = false ∧
      ∀ record ∈ records, (TreeIndex.ofRecords records).childrenOf record.seqNumber =
        record.children.map (·.seqNumber) :=
  exists_run_drawTree SplitMix.sampler ⟨1⟩ (by decide) (Or.inl (by decide))

end HistoryTree.Random
