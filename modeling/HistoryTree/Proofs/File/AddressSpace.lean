import HistoryTree.Proofs.Block.Reads
import HistoryTree.Proofs.File.Blocks
import HistoryTree.Proofs.File.Decodings
import HistoryTree.Proofs.Format.Parts

/-!
# Offsets stay within the address space

With words for counts and indexes, no offset of the layout leaves the address space
(`Layout.exact`). So whenever bytes are missing, the end that is reported is where they would
end, and never the address that stands for all ends beyond the last (`offsets_exact`).
-/

namespace HistoryTree

open Layout

/-- Every offset is the number that the layout describes. -/
structure Layout.Exact : Prop where
  block (blockSize index : UInt32) :
    blockOffset? blockSize index.toNat = some (4096 + index.toNat * blockSize.toNat)
  childSeq (index : UInt32) : childSeqOffset? index.toNat = some (42 + 4 * index.toNat)
  childStart (maxChildren index : UInt32) :
    childStartOffset? maxChildren index.toNat =
      some (42 + 4 * maxChildren.toNat + 8 * index.toNat)
  coreBase (maxChildren : UInt32) :
    intervalsBase? .core maxChildren = some (42 + 12 * maxChildren.toNat)
  leafBase (maxChildren : UInt32) : intervalsBase? .leaf maxChildren = some 34
  unknownBase (tag : UInt8) (maxChildren : UInt32) :
    intervalsBase? (.unknown tag) maxChildren = none
  coreInterval (maxChildren index : UInt32) :
    intervalOffset? .core maxChildren index.toNat =
      some (42 + 12 * maxChildren.toNat + 25 * index.toNat)
  leafInterval (maxChildren index : UInt32) :
    intervalOffset? .leaf maxChildren index.toNat = some (34 + 25 * index.toNat)
  unknownInterval (tag : UInt8) (maxChildren index : UInt32) :
    intervalOffset? (.unknown tag) maxChildren index.toNat = none
  range (header : TreeHeader) (index : UInt32) :
    header.blockRange? index.toNat =
      some (4096 + index.toNat * header.blockSize.toNat,
        4096 + index.toNat * header.blockSize.toNat + header.blockSize.toNat)
  expected (header : TreeHeader) :
    header.expectedLength? = some (4096 + header.nodeCount.toNat * header.blockSize.toNat)

theorem Layout.exact : Layout.Exact where
  block blockSize index := (blockOffset?_eq blockSize index.toNat_lt_size).1
  childSeq index := childSeqOffset?_eq index.toNat_lt_size
  childStart maxChildren index := childStartOffset?_eq maxChildren index.toNat_lt_size
  coreBase := intervalsBase?_core
  leafBase := intervalsBase?_leaf
  unknownBase := intervalsBase?_unknown
  coreInterval maxChildren index :=
    intervalOffset?_eq (intervalsBase?_core maxChildren) index.toNat_lt_size
  leafInterval maxChildren index :=
    intervalOffset?_eq (intervalsBase?_leaf maxChildren) index.toNat_lt_size
  unknownInterval _ _ _ := rfl
  range header index := header.blockRange?_eq index.toNat_lt_size
  expected header := header.expectedLength?_eq

/-! ## The ends that are reported -/

/-- Bytes are missing, and their end is one that bytes can have. -/
def DecodeError.IsExact (cause : DecodeError) : Prop :=
  ∃ field needed available,
    cause = .truncatedInput field needed available ∧ needed < Address.last

namespace Block

variable {block : Bytes} {maxChildren : UInt32} {read : Read} {count : Nat}

theorem stop_lt_last_of_mem_childrenReads (hcount : count ≤ maxChildren.toNat)
    (h : read ∈ childrenReads maxChildren count) : read.stop < Address.last := by
  have hslots := maxChildren.toNat_lt
  obtain ⟨index, hindex, hmem⟩ := List.mem_flatMap.mp h
  have hless : index < maxChildren.toNat :=
    Nat.lt_of_lt_of_le (List.mem_range.mp hindex) hcount
  rw [Address.last]
  rcases List.mem_pair.mp hmem with rfl | rfl
  · change 46 + 4 * index < _
    omega
  · change 46 + 4 * maxChildren.toNat + 8 * index < _
    omega

theorem stop_lt_last_of_mem_cellReads {base : Nat} (hbase : base ≤ 42 + 12 * maxChildren.toNat)
    (hcount : count < UInt32.size) (h : read ∈ cellReads base count) :
    read.stop < Address.last := by
  have hslots := maxChildren.toNat_lt
  have hword : UInt32.size = 0x100000000 := rfl
  rw [cellReads] at h
  split at h
  · contradiction
  · rw [List.mem_singleton.mp h, Address.last]
    change base + 25 * count < _
    omega

/-- Whatever a block declares, no read asks for more than could be addressed. -/
theorem stop_lt_last_of_mem_reads (h : read ∈ reads block maxChildren) :
    read.stop < Address.last := by
  have hcommon : ∀ read ∈ commonReads, read.stop < Address.last := by decide
  have hcount : intervalCount block < UInt32.size := UInt32.toNat_lt_size _
  rw [reads, List.mem_append] at h
  refine h.elim (hcommon read) fun hspecific => ?_
  cases kinds block with
  | core tag =>
    rw [specificReads_core tag, List.mem_cons, List.mem_append] at hspecific
    obtain rfl | hchildren | hcells := hspecific
    · decide
    · exact stop_lt_last_of_mem_childrenReads (Nat.min_le_right _ _) hchildren
    · exact stop_lt_last_of_mem_cellReads (Nat.le_refl _) hcount hcells
  | leaf tag =>
    rw [specificReads_leaf tag] at hspecific
    exact stop_lt_last_of_mem_cellReads (intervalsBase?_le (intervalsBase?_leaf maxChildren))
      hcount hspecific
  | unknown notCore notLeaf =>
    rw [specificReads_unknown notCore notLeaf] at hspecific
    contradiction

end Block

theorem isExact_of_decodeBlock {block : Bytes} {maxChildren : UInt32} {cause : DecodeError}
    (h : (decodeBlock block maxChildren).result = .error cause) : cause.IsExact := by
  rw [Block.result_decodeBlock_eq_through, Block.through_eq_error_iff] at h
  obtain ⟨read, hmissing, rfl⟩ := h
  exact ⟨_, _, _, rfl, Block.stop_lt_last_of_mem_reads (Block.mem_of_firstMissing hmissing)⟩

namespace HistoryFile

variable {file : HistoryFile} {index : UInt32} {cause : DecodeError}

/-- Whatever fails about the file, the end that is reported is the one that was needed. -/
structure FailsExactly (file : HistoryFile) : Prop where
  block (index : UInt32) (cause : DecodeError) (fails : file.block index = .error cause) :
    cause.IsExact
  decode (index : UInt32) (cause : DecodeError)
    (fails : (file.decode index).result = .error cause) : cause.IsExact
  walk (visit : Visit) (visited : visit ∈ file.walk) (cause : DecodeError)
    (fails : visit.attempt.result = .error cause) : cause.IsExact
  decodeAll (cause : DecodeError) (fails : file.decodeAll.result = .error cause) : cause.IsExact

theorem isExact_of_block (h : file.block index = .error cause) : cause.IsExact := by
  rw [block_eq] at h
  split at h
  · contradiction
  · exact ⟨_, _, _, (Except.error.inj h).symm,
      blockStop_lt_last file.header.blockSize index.toNat_lt_size⟩

theorem isExact_of_decode (h : (file.decode index).result = .error cause) : cause.IsExact := by
  rw [result_decode] at h
  cases hblock : file.block index with
  | error missing =>
    rw [hblock] at h
    cases h
    exact isExact_of_block hblock
  | ok bytes =>
    rw [hblock, ok_bind] at h
    exact isExact_of_decodeBlock h

theorem failsExactly (file : HistoryFile) : file.FailsExactly where
  block _ _ := isExact_of_block
  decode _ _ := isExact_of_decode
  walk visit hvisit cause hfails := by
    obtain ⟨index, -, rfl⟩ := exists_of_mem_walk hvisit
    rw [result_visit] at hfails
    exact isExact_of_decode hfails
  decodeAll cause hfails := by
    have hmem := file.decodings_prefix.subset (result_decodeAll_eq_error_iff.mp hfails)
    obtain ⟨index, -, hindex⟩ := List.mem_map.mp hmem
    exact isExact_of_decode hindex

end HistoryFile

/-- No offset overflows and no two parts of a block overlap, however large the counts and
indexes are, and no failure to decode a block or a file is due to an overflow. -/
theorem offsets_exact :
    Layout.Exact ∧ (∀ maxChildren, Layout.Regions maxChildren) ∧
      (∀ block maxChildren cause, (decodeBlock block maxChildren).result = .error cause →
        cause.IsExact) ∧
      ∀ file : HistoryFile, file.FailsExactly :=
  ⟨Layout.exact, Layout.regions, fun _ _ _ => isExact_of_decodeBlock, HistoryFile.failsExactly⟩

end HistoryTree
