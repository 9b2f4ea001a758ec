import HistoryTree.Proofs.Block.Canonical
import HistoryTree.Proofs.Block.Declared

/-!
# Decoding undoes encoding

A canonical record is decoded from the block that it was encoded into, whatever
else the block holds. Its shape leaves no choice to the decoder, and its parts lie
apart.
-/

namespace HistoryTree

open Layout

namespace NodeRecord

variable {record : NodeRecord} {maxChildren : UInt32} {block written : Bytes}

theorem Shape.hasSlots (h : record.Shape maxChildren) : record.HasSlots maxChildren := by
  intro extended declared hspecific
  cases h with
  | core _ _ _ _ children => exact children ▸ Nat.min_le_right _ _
  | leaf _ _ children => exact children ▸ Nat.zero_le _
  | unknown _ _ _ _ children => exact children ▸ Nat.zero_le _

/-- A canonical record is written exactly if there is room for all of it. -/
theorem Canonical.write_eq_ok_iff (h : record.Canonical maxChildren)
    (hsize : block.size ≤ Address.last) :
    record.write maxChildren block = .ok written ↔
      (∀ patch ∈ record.patches maxChildren, patch.stop ≤ block.size) ∧
        written = block.place (record.stretches maxChildren) := by
  rw [NodeRecord.write_eq_ok_iff hsize]
  exact and_iff_right h.shape.hasSlots

/-- A canonical record that was written over a block is decoded from it. -/
theorem Canonical.decodeBlock_write (h : record.Canonical maxChildren)
    (hsize : block.size ≤ Address.last) (hwrite : record.write maxChildren block = .ok written) :
    (decodeBlock written maxChildren).result = .ok record.decoded := by
  obtain ⟨hfits, rfl⟩ := (h.write_eq_ok_iff hsize).mp hwrite
  have hnode := Block.node_place h hfits
  rw [result_decodeBlock_eq_ok_iff, Block.fits_iff_patches, hnode, Bytes.size_place]
  exact ⟨hfits, rfl⟩

theorem size_of_write (hsize : block.size ≤ Address.last)
    (hwrite : record.write maxChildren block = .ok written) : written.size = block.size := by
  rw [((NodeRecord.write_eq_ok_iff hsize).mp hwrite).2.2, Bytes.size_place]

end NodeRecord

/-- Blocks have far less than the highest address. -/
theorem Bytes.size_zeros_le_last (length : UInt32) :
    (Bytes.zeros length.toNat).size ≤ Address.last := by
  have hlength := length.toNat_lt
  rw [Bytes.size_zeros, Address.last]
  omega

/-- Decoding the block of a canonical record gives all of the record again, with an
issue exactly if its kind is unknown. -/
theorem decodeBlock_encodeBlock {record : NodeRecord} {blockSize maxChildren : UInt32}
    {block : Bytes} (hcanonical : record.Canonical maxChildren)
    (hencode : encodeBlock record [] blockSize maxChildren = .ok block) :
    block.size = blockSize.toNat ∧
      ∃ node, (decodeBlock block maxChildren).result = .ok node ∧ node.record = record ∧
        node.issue = match record.kind with
          | .unknown tag => some (.unknownNodeType tag)
          | .core | .leaf => none := by
  have hsize := Bytes.size_zeros_le_last blockSize
  rw [NodeRecord.encodeBlock_nil] at hencode
  constructor
  · rw [NodeRecord.size_of_write hsize hencode, Bytes.size_zeros]
  · refine ⟨record.decoded, hcanonical.decodeBlock_write hsize hencode, rfl, ?_⟩
    rw [NodeRecord.decoded]
    cases record.kind <;> rfl

/-- A core node that declares more children than it has slots for. -/
def crowdedNode : NodeRecord where
  kind := .core
  start := 1
  stop := 9
  seqNumber := ⟨3⟩
  parent := .childOf ⟨2⟩
  intervalCount := 1
  varDataOffset := 0
  done := true
  specific := .core true 4
  children := [⟨⟨5⟩, 1⟩]
  intervals := [⟨1, 9, 6, .other 4, 60⟩]

theorem canonical_crowdedNode : crowdedNode.Canonical 1 where
  shape := .core true 4 rfl rfl rfl rfl
  parent := by decide
  valueType := by
    intro interval hmem tag htag hother
    rw [List.mem_singleton.mp hmem] at hother
    have hlarge : ¬ (4 : UInt8) < 4 := by decide
    rw [← ValueType.other.inj hother] at htag
    exact hlarge htag

theorem decodeBlock_encodeBlock_crowdedNode :
    ∃ block, encodeBlock crowdedNode [] 79 1 = .ok block ∧ block.size = 79 ∧
      ∃ node, (decodeBlock block 1).result = .ok node ∧ node.record = crowdedNode ∧
        node.issue = none := by
  have hencode : ∃ block, encodeBlock crowdedNode [] 79 1 = .ok block := ⟨_, rfl⟩
  obtain ⟨block, hblock⟩ := hencode
  exact ⟨block, hblock, decodeBlock_encodeBlock canonical_crowdedNode hblock⟩

end HistoryTree
