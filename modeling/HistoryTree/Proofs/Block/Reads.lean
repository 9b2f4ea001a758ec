import HistoryTree.Proofs.Block.Agreement
import HistoryTree.Proofs.Block.Declared

/-!
# The reads of a block

Decoding goes through a list of reads, each of which asks for the bytes up to its stop.
The first that asks for more than there are is the failure, and otherwise the node is
what the block declares (`result_decodeBlock_eq_through`). The list depends only on
bytes that earlier reads have asked for, so a block that goes on gets stuck at the same
read or at a later stop (`decodeBlock_truncation`).
-/

namespace HistoryTree

open Layout

namespace Block

/-- An access to the bytes of `field`, which end at `stop`. -/
structure Read where
  field : String
  stop : Nat
  deriving DecidableEq, Repr

namespace Read

/-- The failure of a read in a block of `available` bytes. -/
def missing (read : Read) (available : Nat) : DecodeError :=
  .truncatedInput read.field read.stop available

end Read

/-! ## The order of the reads -/

def commonReads : List Read :=
  [⟨"type", 1⟩, ⟨"start", 5⟩, ⟨"end", 13⟩, ⟨"seq number", 21⟩, ⟨"parent seq number", 25⟩,
    ⟨"interval count", 29⟩, ⟨"var data offset", 33⟩, ⟨"done", 34⟩]

def childReads (maxChildren : UInt32) (index : Nat) : List Read :=
  [⟨"child seq number", 46 + 4 * index⟩,
    ⟨"child start", 46 + 4 * maxChildren.toNat + 8 * index⟩]

/-- The reads of `count` children. The two arrays are read in turns. -/
def childrenReads (maxChildren : UInt32) (count : Nat) : List Read :=
  (List.range count).flatMap (childReads maxChildren)

/-- The interval cells from `base` on are asked for as a whole, if there are any. -/
def cellReads (base count : Nat) : List Read :=
  if count = 0 then [] else [⟨"interval", base + 25 * count⟩]

/-- The reads that follow the common header. -/
def specificReads (block : Bytes) (maxChildren : UInt32) : List Read :=
  match NodeKind.ofTag (typeTag block) with
  | .core =>
    ⟨"children count", 42⟩ :: childrenReads maxChildren (childCount block maxChildren) ++
      cellReads (42 + 12 * maxChildren.toNat) (intervalCount block)
  | .leaf => cellReads 34 (intervalCount block)
  | .unknown _ => []

/-- What decoding reads, in its order. -/
def reads (block : Bytes) (maxChildren : UInt32) : List Read :=
  commonReads ++ specificReads block maxChildren

/-- The first of the reads that asks for more bytes than there are. -/
def firstMissing (available : Nat) (reads : List Read) : Option Read :=
  reads.find? fun read => available < read.stop

/-! ## Going through reads -/

/-- The failure of the first read that asks for too much, or `value` if none does. -/
def through {α : Type} (block : Bytes) (reads : List Read) (value : α) : Except DecodeError α :=
  match firstMissing block.size reads with
  | some read => .error (read.missing block.size)
  | none => .ok value

section Through

variable {α β : Type} {block : Bytes}

theorem through_nil (value : α) : through block [] value = .ok value := rfl

theorem through_append {first second : List Read} {value : α} {result : β}
    {next : α → Except DecodeError β} (h : next value = through block second result) :
    through block first value >>= next = through block (first ++ second) result := by
  rw [through, through, firstMissing, firstMissing, List.find?_append]
  cases first.find? fun read => block.size < read.stop with
  | some read => rfl
  | none =>
    rw [ok_bind, h]
    rfl

/-- After the last reads there is nothing left that could be missing. -/
theorem through_last {reads : List Read} {value : α} {result : β}
    {next : α → Except DecodeError β} (h : next value = .ok result) :
    through block reads value >>= next = through block reads result := by
  have hjoin : through block reads value >>= next = through block (reads ++ []) result :=
    through_append h
  rwa [List.append_nil] at hjoin

/-- A field is one read, and what follows may rely on its bytes. -/
theorem read_bind [LittleEndian α] {field : Field α} {rest : List Read} {result : β}
    {next : α → Except DecodeError β} (hlast : field.stop ≤ Address.last)
    (h : field.stop ≤ block.size → next (field.valueIn block) = through block rest result) :
    field.read block >>= next = through block (⟨field.name, field.stop⟩ :: rest) result := by
  by_cases hstop : field.stop ≤ block.size
  · have hread : field.read block = .ok (field.valueIn block) :=
      Field.read_eq_ok_iff.mpr ⟨hstop, rfl⟩
    have hfits : ¬ block.size < field.stop := Nat.not_lt.mpr hstop
    rw [hread, ok_bind, h hstop, through, through, firstMissing, firstMissing,
      List.find?_cons_of_neg (by simpa using hfits)]
  · have hmissing : block.size < field.stop := Nat.not_le.mp hstop
    rw [Field.read_eq, if_neg hstop, through, firstMissing,
      List.find?_cons_of_pos (by simpa using hmissing), Bytes.truncated,
      Address.clamp_of_le hlast]
    rfl

theorem tabulateFrom_eq_through {entry : Nat → Except DecodeError α}
    {entryReads : Nat → List Read} {value : Nat → α} {entries : Array α} {count : Nat}
    (h : ∀ index < entries.size + count,
      entry index = through block (entryReads index) (value index)) :
    tabulateFrom entry entries count =
      through block ((List.range' entries.size count).flatMap entryReads)
        (entries.toList ++ (List.range' entries.size count).map value) := by
  induction count generalizing entries with
  | zero =>
    rw [tabulateFrom, List.range'_zero, List.flatMap_nil, List.map_nil, List.append_nil,
      through_nil]
  | succ count ih =>
    rw [tabulateFrom, h entries.size (by omega), List.range'_succ, List.flatMap_cons]
    apply through_append
    rw [ih (by simpa [Nat.add_right_comm, Nat.add_assoc] using h)]
    simp

/-- A list is read entry by entry. -/
theorem tabulate_eq_through {entry : Nat → Except DecodeError α}
    {entryReads : Nat → List Read} {value : Nat → α} {count : Nat}
    (h : ∀ index < count, entry index = through block (entryReads index) (value index)) :
    tabulate count entry =
      through block ((List.range count).flatMap entryReads) ((List.range count).map value) := by
  rw [tabulate, tabulateFrom_eq_through (by simpa using h), List.range_eq_range']
  simp

theorem through_eq_ok_iff {reads : List Read} {value result : α} :
    through block reads value = .ok result ↔
      firstMissing block.size reads = none ∧ result = value := by
  rw [through]
  cases firstMissing block.size reads with
  | some read => simp
  | none => simp [eq_comm]

theorem through_eq_error_iff {reads : List Read} {value : α} {cause : DecodeError} :
    through block reads value = .error cause ↔
      ∃ read, firstMissing block.size reads = some read ∧ cause = read.missing block.size := by
  rw [through]
  cases firstMissing block.size reads with
  | some read => simp [eq_comm]
  | none => simp

end Through

/-! ## The parts of a block -/

section Parts

variable (block : Bytes) (maxChildren : UInt32)

theorem readCommonHeader_eq_through :
    CommonHeader.read block = through block commonReads (commonHeader block) := by
  rw [CommonHeader.read]
  refine read_bind (by decide) fun _ => read_bind (by decide) fun _ => ?_
  refine read_bind (by decide) fun _ => read_bind (by decide) fun _ => ?_
  refine read_bind (by decide) fun _ => read_bind (by decide) fun _ => ?_
  refine read_bind (by decide) fun _ => read_bind (by decide) fun _ => ?_
  simp only [Field.valueIn_byte, Field.valueIn_word]
  rfl

theorem readChild_eq_through {index : Nat} (hindex : index < maxChildren.toNat) :
    ChildEntry.read block maxChildren index =
      through block (childReads maxChildren index) (child block maxChildren index) := by
  have hslots := maxChildren.toNat_lt_size
  have hword : UInt32.size = 0x100000000 := rfl
  have hseq : (⟨"child seq number", 42 + 4 * index⟩ : Field UInt32).stop = 46 + 4 * index := by
    change 42 + 4 * index + 4 = _
    omega
  have hstart : (⟨"child start", 42 + 4 * maxChildren.toNat + 8 * index⟩ : Field UInt32).stop =
      46 + 4 * maxChildren.toNat + 8 * index := by
    change 42 + 4 * maxChildren.toNat + 8 * index + 4 = _
    omega
  have hlast : 46 + 4 * maxChildren.toNat + 8 * index ≤ Address.last := by
    rw [Address.last]
    omega
  rw [ChildEntry.read, childSeqOffset?_eq (Nat.lt_trans hindex hslots),
    childStartOffset?_eq maxChildren (Nat.lt_trans hindex hslots), Bytes.addressed_some,
    Bytes.addressed_some, ok_bind, ok_bind, childReads, ← hseq, ← hstart]
  refine read_bind (by omega) fun _ => read_bind (by omega) fun _ => ?_
  rw [Field.valueIn_word, Field.valueIn_word]
  rfl

theorem readChildren_eq_through (declared : UInt32) :
    (readChildren block maxChildren declared).result =
      through block (childrenReads maxChildren (min declared.toNat maxChildren.toNat))
        ((List.range (min declared.toNat maxChildren.toNat)).map (child block maxChildren)) := by
  rw [readChildren, Attempt.result_bind, Attempt.result_noteIf, ok_bind, Attempt.result_lift]
  apply tabulate_eq_through
  intro index hindex
  exact readChild_eq_through block maxChildren (Nat.lt_of_lt_of_le hindex (Nat.min_le_right _ _))

theorem readIntervals_eq_through {kind : NodeKind} {base : Nat}
    (hbase : intervalsBase? kind maxChildren = some base) (count : UInt32) :
    readIntervals block kind maxChildren count =
      through block (cellReads base count.toNat)
        ((List.range count.toNat).map fun index => interval block (base + 25 * index)) := by
  by_cases hnone : count = 0
  · rw [readIntervals, if_pos hnone, hnone]
    rfl
  have hsome : count.toNat ≠ 0 := fun hzero => hnone (UInt32.toNat_inj.mp hzero)
  rw [cellReads, if_neg hsome]
  by_cases hstop : base + 25 * count.toNat ≤ block.size
  · rw [(readIntervals_eq_ok_iff hbase).mpr ⟨Or.inr hstop, rfl⟩, eq_comm, through_eq_ok_iff]
    simpa [firstMissing] using hstop
  · have hslots := maxChildren.toNat_lt
    have hcount := count.toNat_lt
    have hlow := intervalsBase?_le hbase
    have hlength : count.toNat * intervalSize ≤ Address.last := by
      rw [intervalSize, Address.last]
      omega
    have hlast : base + 25 * count.toNat ≤ Address.last := by
      rw [Address.last]
      omega
    have hmissing : block.size < base + 25 * count.toNat := Nat.not_le.mp hstop
    rw [readIntervals, if_neg hnone, hbase, Address.mul?_of_le hlength, Bytes.addressed_some,
      Bytes.addressed_some, ok_bind, ok_bind, Bytes.region, intervalSize,
      Nat.mul_comm count.toNat, if_neg hstop, Bytes.truncated, Address.clamp_of_le hlast, eq_comm]
    change through block _ _ = Except.error _
    rw [through_eq_error_iff]
    exact ⟨⟨"interval", base + 25 * count.toNat⟩, by simpa [firstMissing] using hmissing, rfl⟩

end Parts

section Kinds

variable {block : Bytes} {maxChildren : UInt32}

theorem specificReads_core (h : typeTag block = 1) :
    specificReads block maxChildren =
      ⟨"children count", 42⟩ :: (childrenReads maxChildren (childCount block maxChildren) ++
        cellReads (42 + 12 * maxChildren.toNat) (intervalCount block)) := by
  rw [specificReads, h]
  rfl

theorem specificReads_leaf (h : typeTag block = 2) :
    specificReads block maxChildren = cellReads 34 (intervalCount block) := by
  rw [specificReads, h]
  rfl

theorem specificReads_unknown (hcore : typeTag block ≠ 1) (hleaf : typeTag block ≠ 2) :
    specificReads block maxChildren = [] := by
  rw [specificReads, ← kind_commonHeader, kind_unknown hcore hleaf]

end Kinds

/-- Decoding goes through the reads of the block. -/
theorem result_decodeBlock_eq_through (block : Bytes) (maxChildren : UInt32) :
    (decodeBlock block maxChildren).result =
      through block (reads block maxChildren) (node block maxChildren) := by
  rw [decodeBlock, Attempt.result_bind, Attempt.result_lift, readCommonHeader_eq_through]
  apply through_append
  cases kinds block with
  | core tag =>
    rw [kind_core tag, specificReads_core tag, node_core tag]
    simp only [Attempt.result_bind, Attempt.result_lift, Attempt.result_pure]
    refine read_bind (by decide) fun hheader => ?_
    -- The bytes of the flag lie before those of the count, which is read first.
    have hextended : Core.extended.read block = .ok (block.wordAt 34) :=
      Field.read_eq_ok_iff.mpr ⟨Nat.le_trans (by decide) hheader, Field.valueIn_word _ _⟩
    rw [hextended, ok_bind, readChildren_eq_through, Field.valueIn_word]
    apply through_append
    rw [readIntervals_eq_through block maxChildren (intervalsBase?_core maxChildren)]
    exact through_last rfl
  | leaf tag =>
    rw [kind_leaf tag, specificReads_leaf tag, node_leaf tag]
    simp only [Attempt.result_bind, Attempt.result_lift, Attempt.result_pure]
    rw [readIntervals_eq_through block maxChildren (intervalsBase?_leaf maxChildren)]
    exact through_last rfl
  | unknown notCore notLeaf =>
    rw [kind_unknown notCore notLeaf, specificReads_unknown notCore notLeaf,
      node_unknown notCore notLeaf]
    rfl

/-! ## Which read is missing -/

section Missing

variable {available larger : Nat} {first second : List Read} {read : Read}

theorem lt_stop_of_firstMissing (h : firstMissing available first = some read) :
    available < read.stop := by
  simpa using List.find?_some h

theorem mem_of_firstMissing (h : firstMissing available first = some read) : read ∈ first :=
  List.mem_of_find?_eq_some h

theorem firstMissing_eq_none_iff :
    firstMissing available first = none ↔ ∀ read ∈ first, read.stop ≤ available := by
  simp [firstMissing]

theorem firstMissing_append :
    firstMissing available (first ++ second) =
      (firstMissing available first).or (firstMissing available second) :=
  List.find?_append

/-- With more bytes, the reads before the missing one still find theirs. -/
theorem firstMissing_of_le (h : firstMissing available first = some read)
    (hgrow : available ≤ larger) (hmissing : larger < read.stop) :
    firstMissing larger first = some read := by
  obtain ⟨-, before, after, hsplit, hbefore⟩ := List.find?_eq_some_iff_append.mp h
  refine List.find?_eq_some_iff_append.mpr ⟨by simpa using hmissing, before, after, hsplit, ?_⟩
  intro earlier hearlier
  have hfits : earlier.stop ≤ available := by simpa using hbefore earlier hearlier
  simpa using Nat.le_trans hfits hgrow

/-- If one of the first reads is missing, those that follow do not matter. -/
theorem firstMissing_append_of_mem (hmem : read ∈ first) (hmissing : available < read.stop) :
    firstMissing available (first ++ second) = firstMissing available first := by
  have hsome : (firstMissing available first).isSome := by
    rw [firstMissing, List.find?_isSome]
    exact ⟨read, hmem, by simpa using hmissing⟩
  rw [firstMissing_append, Option.or_of_isSome hsome]

end Missing

theorem childrenReads_succ (maxChildren : UInt32) (count : Nat) :
    childrenReads maxChildren (count + 1) =
      childrenReads maxChildren count ++ childReads maxChildren count := by
  rw [childrenReads, childrenReads, List.range_succ, List.flatMap_append, List.flatMap_singleton]

/-- Of the numbers of children only the first can be missing: the start of each child ends
no earlier than the number of the next. -/
theorem stop_of_firstMissing_childrenReads {available count : Nat} {maxChildren : UInt32}
    {read : Read} (hcount : count ≤ maxChildren.toNat)
    (h : firstMissing available (childrenReads maxChildren count) = some read)
    (hfield : read.field = "child seq number") : read.stop = 46 := by
  induction count with
  | zero => contradiction
  | succ count ih =>
    rw [childrenReads_succ, firstMissing_append, Option.or_eq_some_iff] at h
    rcases h with hearlier | ⟨hnone, hlast⟩
    · exact ih (Nat.le_of_succ_le hcount) hearlier
    have hmissing := lt_stop_of_firstMissing hlast
    have hread : read = ⟨"child seq number", 46 + 4 * count⟩ := by
      rcases List.mem_pair.mp (mem_of_firstMissing hlast) with hseq | hstart
      · exact hseq
      · simp [hstart] at hfield
    rw [hread] at hmissing ⊢
    cases count with
    | zero => rfl
    | succ before =>
      have hstart : 46 + 4 * maxChildren.toNat + 8 * before ≤ available := by
        rw [childrenReads_succ] at hnone
        exact firstMissing_eq_none_iff.mp hnone
          ⟨"child start", 46 + 4 * maxChildren.toNat + 8 * before⟩ (by simp [childReads])
      change available < 46 + 4 * (before + 1) at hmissing
      omega

/-! ## The names of the reads -/

theorem field_of_mem_childrenReads {maxChildren : UInt32} {count : Nat} {read : Read}
    (h : read ∈ childrenReads maxChildren count) :
    read.field = "child seq number" ∨ read.field = "child start" := by
  obtain ⟨index, -, hmem⟩ := List.mem_flatMap.mp h
  rcases List.mem_pair.mp hmem with rfl | rfl
  · exact Or.inl rfl
  · exact Or.inr rfl

theorem field_of_mem_cellReads {base count : Nat} {read : Read}
    (h : read ∈ cellReads base count) : read.field = "interval" := by
  rw [cellReads] at h
  split at h
  · contradiction
  · rw [List.mem_singleton.mp h]

section Names

variable {block : Bytes} {maxChildren : UInt32} {read : Read}

/-- The flag of a core node has no read of its own: its bytes are found with those of the
count behind it. -/
theorem field_ne_extended (h : read ∈ reads block maxChildren) : read.field ≠ "extended" := by
  have hcommon : ∀ read ∈ commonReads, read.field ≠ "extended" := by decide
  rw [reads, List.mem_append] at h
  refine h.elim (hcommon read) fun hspecific => ?_
  cases kinds block with
  | core tag =>
    rw [specificReads_core tag, List.mem_cons, List.mem_append] at hspecific
    obtain rfl | hchildren | hcells := hspecific
    · decide
    · rcases field_of_mem_childrenReads hchildren with hfield | hfield <;> rw [hfield] <;> decide
    · rw [field_of_mem_cellReads hcells]
      decide
  | leaf tag =>
    rw [specificReads_leaf tag] at hspecific
    rw [field_of_mem_cellReads hspecific]
    decide
  | unknown notCore notLeaf =>
    rw [specificReads_unknown notCore notLeaf] at hspecific
    contradiction

theorem stop_of_firstMissing_childSeq {available : Nat}
    (h : firstMissing available (reads block maxChildren) = some read)
    (hfield : read.field = "child seq number") : read.stop = 46 := by
  have hcommon : ∀ read ∈ commonReads, read.field ≠ "child seq number" := by decide
  have hnoCell {base count : Nat}
      (hcell : firstMissing available (cellReads base count) = some read) : False := by
    rw [field_of_mem_cellReads (mem_of_firstMissing hcell)] at hfield
    contradiction
  rw [reads, firstMissing_append, Option.or_eq_some_iff] at h
  rcases h with hearly | ⟨-, hspecific⟩
  · exact absurd hfield (hcommon read (mem_of_firstMissing hearly))
  cases kinds block with
  | core tag =>
    rw [specificReads_core tag, ← List.singleton_append, firstMissing_append,
      firstMissing_append, Option.or_eq_some_iff, Option.or_eq_some_iff] at hspecific
    obtain hcount | ⟨-, hchildren | ⟨-, hcells⟩⟩ := hspecific
    · rw [List.mem_singleton.mp (mem_of_firstMissing hcount)] at hfield
      contradiction
    · exact stop_of_firstMissing_childrenReads (Nat.min_le_right _ _) hchildren hfield
    · exact absurd hcells hnoCell
  | leaf tag =>
    rw [specificReads_leaf tag] at hspecific
    exact absurd hspecific hnoCell
  | unknown notCore notLeaf =>
    rw [specificReads_unknown notCore notLeaf] at hspecific
    contradiction

end Names

/-! ## Blocks that go on -/

section More

variable {block : Bytes} {maxChildren : UInt32} {read : Read}

/-- Bytes that follow change the list of reads only past a read that is missing without
them. -/
theorem reads_append (block more : Bytes) (maxChildren : UInt32) :
    reads (block ++ more) maxChildren = reads block maxChildren ∨
      ∃ shared, (∃ read ∈ shared, block.size < read.stop) ∧
        shared <+: reads block maxChildren ∧ shared <+: reads (block ++ more) maxChildren := by
  by_cases hcommon : block.size < 34
  · exact Or.inr ⟨commonReads, ⟨⟨"done", 34⟩, by decide, hcommon⟩, List.prefix_append _ _,
      List.prefix_append _ _⟩
  have htag : typeTag (block ++ more) = typeTag block :=
    Bytes.byteAt_append_left (by omega) more
  have hcount : intervalCount (block ++ more) = intervalCount block :=
    congrArg UInt32.toNat (Bytes.wordAt_append_left (by omega) more)
  cases kinds block with
  | core tag =>
    by_cases hheader : block.size < 42
    · refine Or.inr ⟨commonReads ++ [⟨"children count", 42⟩],
        ⟨⟨"children count", 42⟩, by simp, hheader⟩, ?_⟩
      rw [reads, reads, specificReads_core tag, specificReads_core (htag.trans tag),
        List.prefix_append_right_inj, List.prefix_append_right_inj]
      exact ⟨List.prefix_append _ _, List.prefix_append _ _⟩
    · have hdeclared : Bytes.wordAt (block ++ more) 38 = block.wordAt 38 :=
        Bytes.wordAt_append_left (by omega) more
      left
      rw [reads, reads, specificReads_core tag, specificReads_core (htag.trans tag), childCount,
        childCount, hdeclared, hcount]
  | leaf tag =>
    left
    rw [reads, reads, specificReads_leaf tag, specificReads_leaf (htag.trans tag), hcount]
  | unknown notCore notLeaf =>
    left
    rw [reads, reads, specificReads_unknown notCore notLeaf,
      specificReads_unknown (htag ▸ notCore) (htag ▸ notLeaf)]

/-- As long as the missing read does not find its bytes, it stays the first. -/
theorem firstMissing_reads_append {more : Bytes}
    (h : firstMissing block.size (reads block maxChildren) = some read)
    (hmissing : (block ++ more).size < read.stop) :
    firstMissing (block ++ more).size (reads (block ++ more) maxChildren) = some read := by
  have hgrow := Bytes.size_le_append block more
  rcases reads_append block more maxChildren with hsame | hshared
  · rw [hsame]
    exact firstMissing_of_le h hgrow hmissing
  obtain ⟨shared, ⟨short, hmem, hshort⟩, ⟨rest, hreads⟩, ⟨rest', hreads'⟩⟩ := hshared
  rw [← hreads, firstMissing_append_of_mem hmem hshort] at h
  rw [← hreads', firstMissing_append_of_mem (mem_of_firstMissing h) hmissing]
  exact firstMissing_of_le h hgrow hmissing

/-- What is known if `read` is the first that asks for more than a block has. -/
structure TruncatedAt (block : Bytes) (maxChildren : UInt32) (read : Read) : Prop where
  first : firstMissing block.size (reads block maxChildren) = some read
  missing : block.size < read.stop
  notExtended : read.field ≠ "extended"
  firstChild : read.field = "child seq number" → read.stop = 46
  /-- As long as the bytes that follow do not reach the stop, decoding fails there. -/
  same (more : Bytes) (h : (block ++ more).size < read.stop) :
    (decodeBlock (block ++ more) maxChildren).result =
      .error (.truncatedInput read.field read.stop (block ++ more).size)
  /-- Once they do, it fails at a later stop if at all. -/
  later (more : Bytes) (h : read.stop ≤ (block ++ more).size) (cause : DecodeError)
    (hfails : (decodeBlock (block ++ more) maxChildren).result = .error cause) :
    ∃ field needed available, cause = .truncatedInput field needed available ∧
      read.stop < needed

theorem truncatedAt_of_firstMissing
    (h : firstMissing block.size (reads block maxChildren) = some read) :
    TruncatedAt block maxChildren read where
  first := h
  missing := lt_stop_of_firstMissing h
  notExtended := field_ne_extended (mem_of_firstMissing h)
  firstChild := stop_of_firstMissing_childSeq h
  same more hmissing := by
    rw [result_decodeBlock_eq_through, through_eq_error_iff]
    exact ⟨read, firstMissing_reads_append h hmissing, rfl⟩
  later more hstop cause hfails := by
    rw [result_decodeBlock_eq_through, through_eq_error_iff] at hfails
    obtain ⟨next, hnext, rfl⟩ := hfails
    exact ⟨_, _, _, rfl, Nat.lt_of_le_of_lt hstop (lt_stop_of_firstMissing hnext)⟩

end More

end Block

/-- Decoding fails exactly at the first of its reads that asks for more bytes than there
are. Bytes that follow the block move the failure to a later stop or do away with it, and
they do not change what has been decoded. -/
theorem decodeBlock_truncation (block : Bytes) (maxChildren : UInt32) :
    (∀ cause, (decodeBlock block maxChildren).result = .error cause ↔
        ∃ read : Block.Read, cause = .truncatedInput read.field read.stop block.size ∧
          Block.TruncatedAt block maxChildren read) ∧
      ∀ node, (decodeBlock block maxChildren).result = .ok node →
        ∀ more, (decodeBlock (block ++ more) maxChildren).result = .ok node := by
  constructor
  · intro cause
    rw [Block.result_decodeBlock_eq_through, Block.through_eq_error_iff]
    constructor
    · intro hfails
      obtain ⟨read, hfirst, rfl⟩ := hfails
      exact ⟨read, rfl, Block.truncatedAt_of_firstMissing hfirst⟩
    · intro htruncated
      obtain ⟨read, rfl, hat⟩ := htruncated
      exact ⟨read, hat.first, rfl⟩
  · intro node hdecode more
    obtain ⟨hfits, rfl⟩ := result_decodeBlock_eq_ok_iff.mp hdecode
    exact result_decodeBlock_eq_ok_iff.mpr
      ⟨Block.fits_append hfits more, (Block.node_append hfits more).symm⟩

end HistoryTree
