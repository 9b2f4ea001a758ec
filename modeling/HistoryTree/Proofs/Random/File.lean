import HistoryTree.Proofs.Block.BlockSize
import HistoryTree.Proofs.File.RoundTrip
import HistoryTree.Proofs.Random.Tree
import HistoryTree.Proofs.Tree.Graph

/-!
# Files of random trees

The records of a well-grown tree are canonical and fit the blocks that are made for
them. So every file that is drawn is encoded, is as long as its header says, and gives
back the tree (`exists_drawTreeFile`).
-/

namespace HistoryTree.Random

open Layout

section Records

variable {records : List NodeRecord} {record : NodeRecord} {maxChildren maxIntervals : UInt32}

/-! ## The records are stored -/

theorem WellFormed.shape (h : WellFormed record maxChildren maxIntervals) :
    record.Shape maxChildren := by
  cases h.sized with
  | core count kind specific counted room =>
    refine .core false count kind specific ?_ h.counted.symm
    rw [counted, Nat.min_eq_left room]
  | leaf kind specific children => exact .leaf kind specific children h.counted.symm

theorem Placed.parent_ne_sentinel {headers : List CommonHeader} {header : CommonHeader}
    {index : Nat} (h : Placed headers index header) (hindex : index < UInt32.size) :
    header.parent ≠ .childOf ⟨ParentRef.rootSentinel⟩ := by
  cases h with
  | root parent =>
    rw [parent]
    exact ParentRef.noConfusion
  | below above upper earlier found parent =>
    have hsentinel : ParentRef.rootSentinel = UInt32.ofNat (UInt32.size - 1) := rfl
    rw [parent, hsentinel, Ne, ParentRef.childOf.injEq, seqNumber_inj (by omega) (by decide)]
    omega

theorem WellGrown.canonical (h : WellGrown records maxChildren maxIntervals)
    (hsmall : records.length ≤ UInt32.size) (hrecord : record ∈ records) :
    record.Canonical maxChildren where
  shape := (h.wellFormed record hrecord).shape
  parent := by
    obtain ⟨index, hindex⟩ := List.mem_iff_getElem?.mp hrecord
    have hlength := (List.getElem?_eq_some_iff.mp hindex).1
    exact (h.inPlace index record hindex).placed.parent_ne_sentinel (by omega)
  valueType := by
    intro interval hinterval other hless
    obtain ⟨tag, htag⟩ := ((h.wellFormed record hrecord).inside interval hinterval).tagged
    rw [htag]
    exact ValueType.ofTag_ne_other other hless

theorem Sized.decoded (h : Sized record maxChildren) : record.decoded = ⟨record, none⟩ := by
  cases h with
  | core count kind => rw [NodeRecord.decoded, kind]
  | leaf kind => rw [NodeRecord.decoded, kind]

theorem WellFormed.withinLimits (h : WellFormed record maxChildren maxIntervals) :
    record.WithinLimits maxChildren maxIntervals := by
  cases h.sized with
  | core count kind specific _ room => exact .core false count kind specific room h.length_le
  | leaf kind specific => exact .leaf kind specific h.length_le

/-- The blocks of a random tree have room for each of its records. -/
theorem WellFormed.forall_patches (h : WellFormed record maxChildren maxIntervals)
    (hfits : 42 + 12 * maxChildren.toNat + 25 * maxIntervals.toNat < UInt32.size) :
    ∀ patch ∈ record.patches maxChildren,
      patch.stop ≤ (blockSizeFor maxChildren maxIntervals).toNat := by
  rw [h.withinLimits.coherent.forall_patches_iff]
  exact h.withinLimits.leastSize_le.trans
    ((NodeRecord.leastSize_full_le_blockSizeFor_iff maxChildren maxIntervals).mpr hfits)

theorem exists_encodesTo (nodeCount : UInt32) (h : WellGrown records maxChildren maxIntervals)
    (hsmall : records.length ≤ UInt32.size)
    (hfits : 42 + 12 * maxChildren.toNat + 25 * maxIntervals.toNat < UInt32.size)
    (hrecord : record ∈ records) :
    ∃ block, EncodesTo (treeHeader nodeCount maxChildren maxIntervals) record block := by
  have hcanonical := h.canonical hsmall hrecord
  have hroom := (h.wellFormed record hrecord).forall_patches hfits
  rw [← Bytes.size_zeros (blockSizeFor maxChildren maxIntervals).toNat] at hroom
  have hwrite := (hcanonical.write_eq_ok_iff (Bytes.size_zeros_le_last _)).mpr ⟨hroom, rfl⟩
  exact ⟨_, (NodeRecord.encodeBlock_nil record _ maxChildren).trans hwrite⟩

/-! ## The graph of the tree -/

/-- All nodes but the first one are below another node. -/
theorem WellGrown.length_edges (h : WellGrown records maxChildren maxIntervals) :
    (records.filter fun record => !record.isRoot).length = max records.length 1 - 1 := by
  by_cases hsome : records = []
  · rw [hsome]
    rfl
  · have hroots : (records.filter (·.isRoot)).length = 1 := by
      have hroot := congrArg List.length (h.numbersUnder_root hsome)
      rw [numbersUnder, numbers, List.length_map] at hroot
      simpa only [NodeRecord.isRoot_eq, List.length_singleton] using hroot
    have htotal := List.length_eq_length_filter_add (l := records) (·.isRoot)
    omega

end Records

/-! ## Whole files -/

/-- A file that holds the tree of its records, and says so in its header. -/
structure ValidFile (file : TreeFile) : Prop where
  length : file.header.expectedLength? = some file.data.size
  parse : ∃ parsed, (HistoryFile.parse file.data).result = .ok parsed ∧
    parsed.header = file.header ∧ parsed.data = file.data ∧
    parsed.decodeAll.result = .ok file.records ∧
    parsed.walk.map (fun visit => visit.attempt.result) =
      file.records.map fun record => .ok { record, issue := none }
  clean : (TreeIndex.ofRecords file.records).hasFindings file.header.rootSeq = false
  edges : (edgeLines (Graph.render file.records)).length =
    max file.header.nodeCount.toNat 1 - 1

section Files

variable {records : List NodeRecord} {nodeCount maxChildren maxIntervals : UInt32}

theorem validFile_of_encodeFile {data : Bytes} (h : WellGrown records maxChildren maxIntervals)
    (hlength : records.length = nodeCount.toNat)
    (hencode : encodeFile (treeHeader nodeCount maxChildren maxIntervals) records = .ok data) :
    ValidFile ⟨treeHeader nodeCount maxChildren maxIntervals, records, data⟩ := by
  have hsmall : records.length ≤ UInt32.size := hlength ▸ Nat.le_of_lt nodeCount.toNat_lt
  obtain ⟨blocks, hblocks, rfl⟩ := encodeFile_eq_ok_iff.mp hencode
  have hcanonical : ∀ record ∈ records,
      record.Canonical (treeHeader nodeCount maxChildren maxIntervals).maxChildren :=
    fun record hrecord => h.canonical hsmall hrecord
  have hdeclared : nodeCount.toNat ≤ records.length := Nat.le_of_eq hlength.symm
  have htake : records.take nodeCount.toNat = records := hlength ▸ List.take_length
  refine ⟨?_, ⟨.ofBlocks _ blocks, HistoryFile.parse_ofBlocks _ blocks, rfl, rfl, ?_, ?_⟩, ?_, ?_⟩
  · have hsize := HistoryFile.size_ofBlocks (size_eq_of_encodesTo hblocks)
    rw [← hblocks.length_eq, hlength] at hsize
    have hoffset := Layout.blockOffset?_eq (blockSizeFor maxChildren maxIntervals)
      nodeCount.toNat_lt
    exact hoffset.1.trans (congrArg some hsize.symm)
  · have hdecode := (HistoryFile.givesBack_ofBlocks hblocks hcanonical).decodeAll hdeclared
    exact hdecode.trans (congrArg Except.ok htake)
  · have houtcomes := HistoryFile.outcomes_ofBlocks_of_le hblocks hcanonical hdeclared
    change _ = (records.take nodeCount.toNat).map _ at houtcomes
    refine houtcomes.trans ?_
    rw [htake]
    apply List.map_congr_left
    intro record hrecord
    rw [(h.wellFormed record hrecord).sized.decoded]
  · exact TreeIndex.hasFindings_eq_false_iff.mpr (h.linksFit hsmall)
  · rw [Graph.edgeLines_render, List.length_map, h.length_edges, hlength]
    rfl

end Files

/-- From every state of every sampler a valid file is drawn. -/
theorem exists_drawTreeFile {σ : Type} (sampler : Sampler σ) (state : σ)
    {nodeCount maxChildren maxIntervals : UInt32} (hcount : nodeCount ≤ 4000000)
    (hslots : 0 < maxChildren ∨ nodeCount ≤ 1)
    (hfits : 42 + 12 * maxChildren.toNat + 25 * maxIntervals.toNat < UInt32.size) :
    ∃ file next, drawTreeFile sampler state nodeCount maxChildren maxIntervals = .ok file ∧
      (drawTree sampler nodeCount maxChildren maxIntervals).run state =
        .ok (file.records, next) ∧
      file.header = treeHeader nodeCount maxChildren maxIntervals ∧
      ValidFile file := by
  obtain ⟨records, next, hrun, hlength, hgrown⟩ :=
    yields_drawTree sampler hslots (times_fit hcount) state
  have hsmall : records.length ≤ UInt32.size := hlength ▸ Nat.le_of_lt nodeCount.toNat_lt
  obtain ⟨data, hencode⟩ := exists_encodeFile fun record hrecord =>
    exists_encodesTo nodeCount hgrown hsmall hfits hrecord
  refine ⟨⟨treeHeader nodeCount maxChildren maxIntervals, records, data⟩, next, ?_, hrun, rfl,
    validFile_of_encodeFile hgrown hlength hencode⟩
  rw [drawTreeFile, hrun]
  simp only [Except.mapError, ok_bind, hencode]
  rfl

theorem exists_drawTreeFile_splitMix :
    ∃ file next, drawTreeFile SplitMix.sampler ⟨1⟩ 30 2 2 = .ok file ∧
      (drawTree SplitMix.sampler 30 2 2).run ⟨1⟩ = .ok (file.records, next) ∧
      file.header = treeHeader 30 2 2 ∧
      ValidFile file :=
  exists_drawTreeFile SplitMix.sampler ⟨1⟩ (by decide) (Or.inl (by decide)) (by decide)

end HistoryTree.Random
