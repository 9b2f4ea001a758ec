import HistoryTree.Proofs.File.Stored
import HistoryTree.Proofs.File.Walkers

/-!
# How far a walk goes

The number of blocks that a header declares is a limit of its walks and no more. A block
that can be decoded is one that the file stores, so a walk comes at most one block past the
stored ones, however many are declared (`HistoryFile.length_decodings_le_succ`); and what
was decoded as a whole is stored as a whole.
-/

namespace HistoryTree

namespace HistoryFile

variable {file : HistoryFile}

/-! ## Blocks that can be decoded are stored -/

theorem lt_storedBlocks_of_decoding (hpreamble : 4096 ≤ file.data.size) {index : Nat}
    {node : DecodedNode} (hword : index < UInt32.size) (h : file.decoding index = .ok node) :
    index < file.storedBlocks := by
  have hsized : 0 < file.header.blockSize :=
    UInt32.lt_iff_toNat_lt.mpr (blockSize_of_decoding hword h)
  have hstop := exists_block_iff.mp ⟨_, (block_of_decoding hword h).1⟩
  rwa [UInt32.toNat_ofNat_of_lt' hword, blockStop, ← le_storedBlocks_iff hpreamble hsized] at hstop

theorem Decodes.length_le_storedBlocks {nodes : List DecodedNode} (h : file.Decodes nodes)
    (hpreamble : 4096 ≤ file.data.size) (hword : nodes.length < UInt32.size) :
    nodes.length ≤ file.storedBlocks := by
  induction nodes using List.reverseRecOn with
  | nil => exact Nat.zero_le _
  | append_singleton nodes node _ =>
    rw [List.length_append, List.length_singleton] at hword ⊢
    exact lt_storedBlocks_of_decoding hpreamble (Nat.lt_of_succ_lt hword) (decodes_snoc.mp h).2

/-- A first block that can be decoded has room for a common header. -/
theorem Decodes.le_blockSize {nodes : List DecodedNode} (h : file.Decodes nodes)
    (hsome : nodes ≠ []) : 34 ≤ file.header.blockSize.toNat :=
  le_blockSize_of_decoding (by decide) (h 0 (List.length_pos_iff.mpr hsome))

/-! ## The length of a walk -/

theorem length_walk (file : HistoryFile) : file.walk.length = file.decodings.length := by
  rw [walk_eq_map_range, List.length_map, List.length_range]

/-- Only one of the results can be that of a block which is not stored: a failure. -/
theorem length_decodings_le_succ (hpreamble : 4096 ≤ file.data.size) :
    file.decodings.length ≤ file.storedBlocks + 1 := by
  rcases file.decodings_cases with ⟨nodes, hall⟩ | ⟨nodes, cause, hsome⟩
  · have hstored := (decodes_of_eq hall).length_le_storedBlocks hpreamble
      (length_lt_size_of_eq hall)
    rw [hall, List.length_map]
    exact Nat.le_succ_of_le hstored
  · obtain ⟨hlength, hnodes, -⟩ := decoding_of_eq hsome
    have hstored := hnodes.length_le_storedBlocks hpreamble
      (Nat.lt_trans hlength file.length_decodings_lt_size)
    rw [hsome, List.length_append, List.length_map, List.length_singleton]
    exact Nat.succ_le_succ hstored

theorem length_decodings_le_min (hpreamble : 4096 ≤ file.data.size) :
    file.decodings.length ≤ min file.header.nodeCount.toNat (file.storedBlocks + 1) :=
  Nat.le_min.mpr ⟨file.length_decodings_le, length_decodings_le_succ hpreamble⟩

/-- Blocks without room for a common header fail at once. -/
theorem length_decodings_le_one (hshort : file.header.blockSize.toNat < 34) :
    file.decodings.length ≤ 1 := by
  have hnone {nodes : List DecodedNode} (h : file.Decodes nodes) : nodes = [] := by
    by_contra hsome
    exact Nat.not_le.mpr hshort (h.le_blockSize hsome)
  rcases file.decodings_cases with ⟨nodes, hall⟩ | ⟨nodes, cause, hsome⟩
  · rw [hall, hnone (decodes_of_eq hall)]
    exact Nat.zero_le 1
  · rw [hsome, hnone (decoding_of_eq hsome).2.1]
    exact Nat.le_refl 1

/-! ## Full decodings -/

/-- The declared blocks lie within the file exactly if so many are stored. -/
theorem nodeCount_le_storedBlocks_iff (hpreamble : 4096 ≤ file.data.size)
    (hsized : 0 < file.header.blockSize) :
    file.header.nodeCount.toNat ≤ file.storedBlocks ↔
      ∀ index < file.header.nodeCount, ∃ block, file.block index = .ok block := by
  have hblock (index : UInt32) :
      (∃ block, file.block index = .ok block) ↔ index.toNat < file.storedBlocks := by
    rw [exists_block_iff, blockStop, ← le_storedBlocks_iff hpreamble hsized, Nat.succ_le_iff]
  simp only [hblock]
  constructor
  · intro hstored index hindex
    exact Nat.lt_of_lt_of_le (UInt32.lt_iff_toNat_lt.mp hindex) hstored
  · intro hall
    by_contra hless
    have hword : (UInt32.ofNat file.storedBlocks).toNat = file.storedBlocks :=
      UInt32.toNat_ofNat_of_lt' (Nat.lt_trans (Nat.not_le.mp hless) (UInt32.toNat_lt_size _))
    have hindex : UInt32.ofNat file.storedBlocks < file.header.nodeCount := by
      rw [UInt32.lt_iff_toNat_lt, hword]
      exact Nat.not_le.mp hless
    have hself := hall _ hindex
    rw [hword] at hself
    exact Nat.lt_irrefl _ hself

/-- What a declared number of blocks can do to the walks of a file. -/
structure BoundsWalks (file : HistoryFile) : Prop where
  length_walk : file.walk.length ≤ min file.header.nodeCount.toNat (file.storedBlocks + 1)
  /-- No walker gives more, however often it is moved on. -/
  length_given (actions : List WalkAction) (trail : Trail) (begun : trail ∈ file.run actions) :
    trail.given.length ≤ min file.header.nodeCount.toNat (file.storedBlocks + 1)
  short (headless : file.header.blockSize < 34) : file.walk.length ≤ 1
  /-- Only a failure ends a walk before the declared number. -/
  ended : file.walk.length = file.header.nodeCount.toNat ∨
    ∃ cause, file.outcomes.getLast? = some (.error cause)
  stored (records : List NodeRecord) (decoded : file.decodeAll.result = .ok records) :
    file.header.nodeCount = 0 ∨
      34 ≤ file.header.blockSize ∧ file.header.nodeCount.toNat ≤ file.storedBlocks
  inside (sized : 0 < file.header.blockSize) :
    file.header.nodeCount.toNat ≤ file.storedBlocks ↔
      ∀ index < file.header.nodeCount, ∃ block, file.block index = .ok block
  length_records (records : List NodeRecord) (decoded : file.decodeAll.result = .ok records) :
    records.length = file.header.nodeCount.toNat ∧
      records.length ≤ min file.storedBlocks file.header.nodeCount.toNat

/-- A declared number of blocks, however large, makes no walk run past what is stored by
more than one block, and no decoding succeed on a file that does not hold that many. -/
theorem boundsWalks {data : Bytes} (h : (parse data).result = .ok file) : file.BoundsWalks := by
  obtain ⟨hdata, rfl⟩ := result_parse_eq_ok_iff.mp h
  have hpreamble : 4096 ≤ (HistoryFile.mk (.declared data) data).data.size := hdata
  generalize HistoryFile.mk (.declared data) data = file at hpreamble
  constructor
  case length_walk =>
    rw [file.length_walk]
    exact length_decodings_le_min hpreamble
  case length_given =>
    intro actions trail hbegun
    have haccounts := file.accounts_run actions trail hbegun
    exact haccounts.given_prefix.length_le.trans (length_decodings_le_min hpreamble)
  case short =>
    intro hheadless
    rw [file.length_walk]
    exact length_decodings_le_one (UInt32.lt_iff_toNat_lt.mp hheadless)
  case ended =>
    rw [file.length_walk, outcomes_eq_decodings]
    rcases file.decodings_cases with ⟨nodes, hall⟩ | ⟨nodes, cause, hsome⟩
    · rw [hall, List.length_map, length_of_decodings_eq hall]
      exact Or.inl rfl
    · exact Or.inr ⟨cause, by rw [hsome, List.getLast?_concat]⟩
  case stored =>
    intro records hdecoded
    obtain ⟨nodes, hall, -⟩ := result_decodeAll_eq_ok_iff.mp hdecoded
    have hnodes := decodes_of_eq hall
    have hlength := length_of_decodings_eq hall
    rw [or_iff_not_imp_left]
    intro hcount
    have hsome : nodes ≠ [] := by
      rintro rfl
      exact hcount (UInt32.toNat_inj.mp hlength.symm)
    refine ⟨UInt32.le_iff_toNat_le.mpr (hnodes.le_blockSize hsome), ?_⟩
    rw [← hlength]
    exact hnodes.length_le_storedBlocks hpreamble (length_lt_size_of_eq hall)
  case inside => exact nodeCount_le_storedBlocks_iff hpreamble
  case length_records =>
    intro records hdecoded
    obtain ⟨nodes, hall, rfl⟩ := result_decodeAll_eq_ok_iff.mp hdecoded
    have hlength := length_of_decodings_eq hall
    have hstored := (decodes_of_eq hall).length_le_storedBlocks hpreamble
      (length_lt_size_of_eq hall)
    rw [List.length_map]
    exact ⟨hlength, Nat.le_min.mpr ⟨hstored, hlength.le⟩⟩

end HistoryFile

/-- A file that declares as many blocks as a word can count and holds one. -/
def boastfulFile : HistoryFile :=
  .ofBlocks { threeNodeHeader with nodeCount := 0xFFFFFFFF } [Bytes.zeros 60]

theorem boundsWalks_boastfulFile :
    (HistoryFile.parse boastfulFile.data).result = .ok boastfulFile ∧
      boastfulFile.header.nodeCount.toNat = 4294967295 ∧ boastfulFile.walk.length ≤ 2 ∧
      ∀ records, boastfulFile.decodeAll.result ≠ .ok records := by
  have hsize : ∀ block ∈ [Bytes.zeros 60], block.size = 60 :=
    List.forall_mem_singleton.mpr (Bytes.size_zeros 60)
  have hparse : (HistoryFile.parse boastfulFile.data).result = .ok boastfulFile :=
    HistoryFile.parse_ofBlocks _ _
  have hstored : boastfulFile.storedBlocks = 1 :=
    HistoryFile.storedBlocks_ofBlocks hsize (by decide)
  have hbounds := HistoryFile.boundsWalks hparse
  have hwalk := hbounds.length_walk
  rw [hstored] at hwalk
  refine ⟨hparse, rfl, hwalk.trans (Nat.min_le_right _ _), fun records hdecoded => ?_⟩
  have hheld := hbounds.stored records hdecoded
  rw [hstored] at hheld
  revert hheld
  decide

end HistoryTree
