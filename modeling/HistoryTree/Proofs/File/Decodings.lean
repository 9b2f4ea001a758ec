import HistoryTree.Proofs.Block.Declared
import HistoryTree.Proofs.Block.Truncation
import HistoryTree.Proofs.File.Blocks
import HistoryTree.Proofs.File.Walk

/-!
# The results of a file

Decoding the declared blocks one after another, up to the first that fails, gives a
list of results: nodes, and in the end perhaps one failure
(`HistoryFile.decodings_cases`). Walks and full decodings are told from that list
alone.
-/

namespace HistoryTree

/-! ## Results up to a failure -/

section Through

variable {ε α β : Type}

theorem takeThrough_prefix (last : α → Bool) (list : List α) :
    takeThrough last list <+: list := by
  induction list with
  | nil => exact List.prefix_rfl
  | cons entry rest ih =>
    rw [takeThrough]
    split
    · exact ⟨rest, rfl⟩
    · exact (List.prefix_cons_inj entry).mpr ih

/-- A list without a last entry is not cut off. -/
theorem takeThrough_eq_self_of_forall_mem {last : α → Bool} {list : List α}
    (h : ∀ entry ∈ takeThrough last list, last entry = false) :
    takeThrough last list = list := by
  induction list with
  | nil => rfl
  | cons entry rest ih =>
    rw [takeThrough] at h ⊢
    split at h
    next hlast =>
      have hnot := h entry List.mem_cons_self
      rw [hlast] at hnot
      contradiction
    next hlast =>
      rw [if_neg hlast, ih fun other hother => h other (List.mem_cons_of_mem entry hother)]

/-- Only the last result can be a failure. -/
theorem takeThrough_isFailure_cases (list : List (Except ε α)) :
    (∃ values : List α, takeThrough isFailure list = values.map .ok) ∨
      ∃ (values : List α) (cause : ε),
        takeThrough isFailure list = values.map .ok ++ [.error cause] := by
  induction list with
  | nil => exact Or.inl ⟨[], rfl⟩
  | cons result rest ih =>
    cases result with
    | error cause => exact Or.inr ⟨[], cause, rfl⟩
    | ok value =>
      have hgoes : takeThrough isFailure (.ok value :: rest) =
          .ok value :: takeThrough isFailure rest := rfl
      rcases ih with ⟨values, hvalues⟩ | ⟨values, cause, hvalues⟩
      · exact Or.inl ⟨value :: values, by rw [hgoes, hvalues, List.map_cons]⟩
      · exact Or.inr ⟨value :: values, cause, by rw [hgoes, hvalues, List.map_cons]; rfl⟩

/-- What is made of each value is made of them all. -/
theorem mapM_bind_ok (values : List α) (f : α → β) :
    (values.map .ok).mapM (fun result : Except ε α => result >>= fun value => .ok (f value)) =
      .ok (values.map f) := by
  induction values with
  | nil => rfl
  | cons value rest ih =>
    rw [List.map_cons, List.mapM_cons, ih]
    rfl

/-- A failure after any values is the failure of all. -/
theorem mapM_bind_error (values : List α) (cause : ε) (f : α → β) :
    ((values.map .ok ++ [.error cause] : List (Except ε α))).mapM
      (fun result : Except ε α => result >>= fun value => .ok (f value)) =
      (.error cause : Except ε (List β)) := by
  rw [List.mapM_append, mapM_bind_ok]
  rfl

end Through

/-! ## Decodings of a file -/

namespace HistoryFile

variable {file : HistoryFile} {nodes : List DecodedNode} {cause : DecodeError}

/-- The result of decoding block `index`. -/
def decoding (file : HistoryFile) (index : Nat) : Except DecodeError DecodedNode :=
  (file.decode (UInt32.ofNat index)).result

/-- The results of decoding the declared blocks, up to the first failure. -/
def decodings (file : HistoryFile) : List (Except DecodeError DecodedNode) :=
  takeThrough isFailure ((List.range file.header.nodeCount.toNat).map file.decoding)

theorem outcomes_eq_decodings (file : HistoryFile) : file.outcomes = file.decodings :=
  file.outcomes_eq

theorem decodings_prefix (file : HistoryFile) :
    file.decodings <+: (List.range file.header.nodeCount.toNat).map file.decoding :=
  takeThrough_prefix isFailure _

theorem length_decodings_le (file : HistoryFile) :
    file.decodings.length ≤ file.header.nodeCount.toNat := by
  have hlength := file.decodings_prefix.length_le
  rwa [List.length_map, List.length_range] at hlength

theorem length_decodings_lt_size (file : HistoryFile) : file.decodings.length < UInt32.size :=
  Nat.lt_of_le_of_lt file.length_decodings_le file.header.nodeCount.toNat_lt_size

theorem getElem_decodings {index : Nat} (h : index < file.decodings.length) :
    file.decodings[index] = file.decoding index := by
  rw [file.decodings_prefix.getElem h, List.getElem_map, List.getElem_range]

/-- A walk visits as many blocks as there are results. -/
theorem walk_eq_map_range (file : HistoryFile) :
    file.walk = (List.range file.decodings.length).map file.visit := by
  have hprefix : file.walk <+: file.visits := by
    rw [walk_eq]
    exact takeThrough_prefix _ _
  have hlength : file.walk.length = file.decodings.length := by
    rw [← outcomes_eq_decodings, outcomes, List.length_map]
  rw [List.prefix_iff_eq_take.mp hprefix, visits, ← List.map_take, List.take_range, hlength,
    Nat.min_eq_left file.length_decodings_le]

theorem exists_of_mem_walk {visit : Visit} (h : visit ∈ file.walk) :
    ∃ index < file.header.nodeCount.toNat, visit = file.visit index := by
  rw [walk_eq] at h
  have hvisits := takeThrough_prefix Visit.fails file.visits
  obtain ⟨index, hindex, rfl⟩ := List.mem_map.mp (hvisits.subset h)
  exact ⟨index, List.mem_range.mp hindex, rfl⟩

theorem decodings_cases (file : HistoryFile) :
    (∃ nodes : List DecodedNode, file.decodings = nodes.map .ok) ∨
      ∃ (nodes : List DecodedNode) (cause : DecodeError),
        file.decodings = nodes.map .ok ++ [.error cause] :=
  takeThrough_isFailure_cases _

/-- Without a failure, all declared blocks have been decoded. -/
theorem length_of_decodings_eq (h : file.decodings = nodes.map .ok) :
    nodes.length = file.header.nodeCount.toNat := by
  have hall : file.decodings =
      (List.range file.header.nodeCount.toNat).map file.decoding := by
    apply takeThrough_eq_self_of_forall_mem
    intro result hmem
    change result ∈ file.decodings at hmem
    rw [h] at hmem
    obtain ⟨node, -, rfl⟩ := List.mem_map.mp hmem
    rfl
  have hlength := congrArg List.length (h.symm.trans hall)
  rwa [List.length_map, List.length_map, List.length_range] at hlength

/-- If all blocks can be decoded, none is left out. -/
theorem length_decodings_of_ok
    (h : ∀ index < file.header.nodeCount.toNat, ∃ node, file.decoding index = .ok node) :
    file.decodings.length = file.header.nodeCount.toNat := by
  rw [decodings, takeThrough_eq_self, List.length_map, List.length_range]
  intro result hmem
  obtain ⟨index, hindex, rfl⟩ := List.mem_map.mp hmem
  obtain ⟨node, hnode⟩ := h index (List.mem_range.mp hindex)
  rw [hnode]
  rfl

/-- A block that cannot be decoded is missing or too short. -/
theorem failsTruncated_decode (file : HistoryFile) (index : UInt32) :
    FailsTruncated (file.decode index).result := by
  have hblock : FailsTruncated (file.block index) := by
    rw [block]
    exact (FailsTruncated.addressed _ _ _).bind fun _ => FailsTruncated.region _ _ _ _
  rw [result_decode]
  exact hblock.bind fun block => FailsTruncated.decodeBlock block _

/-! ## Blocks that were decoded -/

/-- The bytes that belong to block `index`, as far as the file goes. -/
def blockBytes (file : HistoryFile) (index : Nat) : Bytes :=
  file.data.extract (4096 + index * file.header.blockSize.toNat)
    (4096 + index * file.header.blockSize.toNat + file.header.blockSize.toNat)

/-- The nodes are those of the first blocks. -/
def Decodes (file : HistoryFile) (nodes : List DecodedNode) : Prop :=
  ∀ index, (h : index < nodes.length) → file.decoding index = .ok nodes[index]

theorem decodes_of_prefix (h : nodes.map .ok <+: file.decodings) :
    file.Decodes nodes := by
  intro index hindex
  have hplace : index < (nodes.map (Except.ok (ε := DecodeError))).length := by
    rwa [List.length_map]
  rw [← getElem_decodings (Nat.lt_of_lt_of_le hplace h.length_le), ← h.getElem hplace,
    List.getElem_map]

theorem decodes_of_eq (h : file.decodings = nodes.map .ok) : file.Decodes nodes :=
  decodes_of_prefix (h ▸ List.prefix_rfl)

/-- If all declared blocks can be decoded, their nodes are the results of the file. -/
theorem decodings_of_decodes {nodes : List DecodedNode}
    (hlength : nodes.length = file.header.nodeCount.toNat) (h : file.Decodes nodes) :
    file.decodings = nodes.map .ok := by
  have hall : (List.range file.header.nodeCount.toNat).map file.decoding = nodes.map .ok := by
    apply List.ext_getElem
    · rw [List.length_map, List.length_map, List.length_range, hlength]
    intro place _ hplace
    rw [List.length_map] at hplace
    rw [List.getElem_map, List.getElem_map, List.getElem_range, h place hplace]
  rw [decodings, hall]
  apply takeThrough_eq_self
  intro result hmem
  obtain ⟨node, -, rfl⟩ := List.mem_map.mp hmem
  rfl

/-- The block after the nodes is the one that cannot be decoded. -/
theorem decoding_of_eq (h : file.decodings = nodes.map .ok ++ [.error cause]) :
    nodes.length < file.decodings.length ∧ file.Decodes nodes ∧
      file.decoding nodes.length = .error cause := by
  have hlength : nodes.length < file.decodings.length := by
    rw [h, List.length_append, List.length_map]
    exact Nat.lt_add_one _
  refine ⟨hlength, decodes_of_prefix (h ▸ List.prefix_append _ _), ?_⟩
  rw [← getElem_decodings hlength, ← Option.some_inj, ← List.getElem?_eq_getElem, h,
    ← List.length_map (f := Except.ok (ε := DecodeError)), List.getElem?_concat_length]

theorem length_lt_size_of_eq (h : file.decodings = nodes.map .ok) :
    nodes.length < UInt32.size := by
  have hlength := file.length_decodings_lt_size
  rwa [h, List.length_map] at hlength

theorem walk_of_eq (h : file.decodings = nodes.map .ok) :
    file.walk = (List.range nodes.length).map file.visit := by
  rw [walk_eq_map_range, h, List.length_map]

theorem getElem?_walk_of_eq (h : file.decodings = nodes.map .ok) (index : Nat) :
    file.walk[index]? = if index < nodes.length then some (file.visit index) else none := by
  rw [walk_of_eq h, List.getElem?_map]
  split
  next hindex => rw [List.getElem?_range hindex, Option.map_some]
  next hindex => rw [List.getElem?_eq_none (by simpa using hindex), Option.map_none]

theorem walk_of_eq_error (h : file.decodings = nodes.map .ok ++ [.error cause]) :
    file.walk = (List.range nodes.length).map file.visit ++ [file.visit nodes.length] := by
  rw [walk_eq_map_range, h, List.length_append, List.length_map, List.length_singleton,
    List.range_succ, List.map_append, List.map_singleton]

theorem decodes_snoc {node : DecodedNode} :
    file.Decodes (nodes ++ [node]) ↔
      file.Decodes nodes ∧ file.decoding nodes.length = .ok node := by
  constructor
  · intro hnodes
    constructor
    · intro index hindex
      have hplace := hnodes index (by rw [List.length_append]; exact Nat.lt_add_right _ hindex)
      rwa [List.getElem_append_left hindex] at hplace
    · have hlast := hnodes nodes.length (by rw [List.length_append]; exact Nat.lt_add_one _)
      rwa [List.getElem_concat_length rfl] at hlast
  · intro ⟨hnodes, hnode⟩ index hindex
    rw [List.getElem_append]
    split
    next hbefore => exact hnodes index hbefore
    next hlast =>
      have hlength : index = nodes.length := by
        rw [List.length_append, List.length_singleton] at hindex
        omega
      subst hlength
      rw [hnode]
      simp only [Nat.sub_self, List.getElem_cons_zero]

/-- Whatever is decoded stands in a block that is there. -/
theorem block_of_decoding {index : Nat} {node : DecodedNode} (hword : index < UInt32.size)
    (h : file.decoding index = .ok node) :
    file.block (UInt32.ofNat index) = .ok (file.blockBytes index) ∧
      (decodeBlock (file.blockBytes index) file.header.maxChildren).result = .ok node := by
  rw [decoding, result_decode, block_eq, UInt32.toNat_ofNat_of_lt' hword] at h
  rw [block_eq, UInt32.toNat_ofNat_of_lt' hword]
  split at h
  next hfits => exact ⟨if_pos hfits, h⟩
  next => contradiction

/-- A block that was decoded has room for a common header. -/
theorem size_blockBytes_of_decoding {index : Nat} {node : DecodedNode}
    (hword : index < UInt32.size) (h : file.decoding index = .ok node) :
    34 ≤ (file.blockBytes index).size ∧
      node = Block.node (file.blockBytes index) file.header.maxChildren := by
  obtain ⟨hfits, hnode⟩ := result_decodeBlock_eq_ok_iff.mp (block_of_decoding hword h).2
  exact ⟨hfits.1, hnode⟩

theorem le_blockSize_of_decoding {index : Nat} {node : DecodedNode}
    (hword : index < UInt32.size) (h : file.decoding index = .ok node) :
    34 ≤ file.header.blockSize.toNat := by
  have hsize := (size_blockBytes_of_decoding hword h).1
  rw [blockBytes, Array.size_extract] at hsize
  omega

theorem blockSize_of_decoding {index : Nat} {node : DecodedNode}
    (hword : index < UInt32.size) (h : file.decoding index = .ok node) :
    0 < file.header.blockSize.toNat :=
  Nat.lt_of_lt_of_le (by decide) (le_blockSize_of_decoding hword h)

theorem Decodes.block (h : file.Decodes nodes) (hword : nodes.length < UInt32.size)
    (index : Nat) (hindex : index < nodes.length) :
    file.block (UInt32.ofNat index) = .ok (file.blockBytes index) :=
  (block_of_decoding (Nat.lt_trans hindex hword) (h index hindex)).1

/-! ## Decoding a whole file -/

theorem result_decodeAll_of_ok (h : file.decodings = nodes.map .ok) :
    file.decodeAll.result = .ok (nodes.map (·.record)) := by
  rw [result_decodeAll, outcomes_eq_decodings, h, mapM_bind_ok]

theorem result_decodeAll_of_error (h : file.decodings = nodes.map .ok ++ [.error cause]) :
    file.decodeAll.result = .error cause := by
  rw [result_decodeAll, outcomes_eq_decodings, h, mapM_bind_error]

theorem error_mem_decodings_iff :
    .error cause ∈ file.decodings ↔
      ∃ nodes : List DecodedNode, file.decodings = nodes.map .ok ++ [.error cause] := by
  constructor
  · intro hmem
    rcases file.decodings_cases with ⟨nodes, hnodes⟩ | ⟨nodes, last, hnodes⟩
    · simp [hnodes] at hmem
    · simp only [hnodes, List.mem_append, List.mem_map, reduceCtorEq, and_false, exists_false,
        List.mem_singleton, Except.error.injEq, false_or] at hmem
      exact ⟨nodes, hmem ▸ hnodes⟩
  · rintro ⟨nodes, hnodes⟩
    rw [hnodes]
    exact List.mem_append_right _ List.mem_cons_self

theorem result_decodeAll_eq_ok_iff {records : List NodeRecord} :
    file.decodeAll.result = .ok records ↔
      ∃ nodes : List DecodedNode,
        file.decodings = nodes.map .ok ∧ records = nodes.map (·.record) := by
  constructor
  · intro hdecoded
    rcases file.decodings_cases with ⟨nodes, hnodes⟩ | ⟨nodes, cause, hnodes⟩
    · rw [result_decodeAll_of_ok hnodes] at hdecoded
      exact ⟨nodes, hnodes, (Except.ok.inj hdecoded).symm⟩
    · rw [result_decodeAll_of_error hnodes] at hdecoded
      contradiction
  · rintro ⟨nodes, hnodes, rfl⟩
    exact result_decodeAll_of_ok hnodes

theorem result_decodeAll_eq_error_iff :
    file.decodeAll.result = .error cause ↔ .error cause ∈ file.decodings := by
  rw [error_mem_decodings_iff]
  constructor
  · intro hfailed
    rcases file.decodings_cases with ⟨nodes, hnodes⟩ | ⟨nodes, last, hnodes⟩
    · rw [result_decodeAll_of_ok hnodes] at hfailed
      contradiction
    · rw [result_decodeAll_of_error hnodes] at hfailed
      exact ⟨nodes, Except.error.inj hfailed ▸ hnodes⟩
  · rintro ⟨nodes, hnodes⟩
    exact result_decodeAll_of_error hnodes

end HistoryFile

end HistoryTree
