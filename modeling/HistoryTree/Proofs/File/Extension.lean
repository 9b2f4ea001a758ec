import HistoryTree.Proofs.Conversion
import HistoryTree.Proofs.File.RoundTrip

/-!
# Files that go on

What has been decoded from a file stays as it is when more bytes follow. A walk that was
not cut short by a missing block stays the same, and one that was goes on from there
(`HistoryFile.extends_followedBy`). If the file holds all its declared blocks, the rest is
ignored in everything that is made of it (`parse_append`).
-/

namespace HistoryTree

open Layout

/-! ## Lists that agree until something is missing -/

/-- If two lists agree wherever nothing is missing in the first, and what is missing ends
it, then the second goes on from where the first ends for that reason. -/
theorem takeThrough_map_cases {ι α : Type} {last : α → Bool} {missing : α → Prop}
    {first second : ι → α} {list : List ι}
    (hlast : ∀ entry, missing (first entry) → last (first entry) = true)
    (hsame : ∀ entry ∈ list, second entry = first entry ∨ missing (first entry)) :
    takeThrough last (list.map second) = takeThrough last (list.map first) ∨
      ∃ front entry, missing entry ∧ takeThrough last (list.map first) = front ++ [entry] ∧
        front <+: takeThrough last (list.map second) := by
  induction list with
  | nil => exact Or.inl rfl
  | cons entry rest ih =>
    rw [List.forall_mem_cons] at hsame
    rw [List.map_cons, List.map_cons]
    rcases hsame.1 with heq | hmissing
    · rw [heq, takeThrough, takeThrough]
      split
      · exact Or.inl rfl
      · rcases ih hsame.2 with hall | ⟨front, final, hmissing, hfirst, hsecond⟩
        · exact Or.inl (by rw [hall])
        · refine Or.inr ⟨first entry :: front, final, hmissing, ?_, ?_⟩
          · rw [hfirst, List.cons_append]
          · exact (List.prefix_cons_inj _).mpr hsecond
    · refine Or.inr ⟨[], first entry, hmissing, ?_, List.nil_prefix⟩
      rw [takeThrough_cons_of_last (hlast entry hmissing), List.nil_append]

/-- The block that was to be visited is not there as a whole. -/
def Visit.IsMissing (visit : Visit) : Prop :=
  ∃ needed available, visit.attempt.result = .error (.truncatedInput "block" needed available)

theorem Visit.IsMissing.fails {visit : Visit} (h : visit.IsMissing) : visit.fails = true := by
  obtain ⟨needed, available, hresult⟩ := h
  rw [Visit.fails, hresult]

namespace HistoryFile

variable {file : HistoryFile}

/-! ## Blocks and walks -/

/-- The file with more bytes behind it. -/
def followedBy (file : HistoryFile) (more : Bytes) : HistoryFile :=
  { file with data := file.data ++ more }

theorem header_followedBy (file : HistoryFile) (more : Bytes) :
    (file.followedBy more).header = file.header := rfl

theorem block_followedBy {index : UInt32} {bytes : Bytes} (h : file.block index = .ok bytes)
    (more : Bytes) : (file.followedBy more).block index = .ok bytes := by
  rw [block_eq] at h
  split at h
  next hfits =>
    have hgrown := Nat.le_trans hfits (Bytes.size_le_append file.data more)
    rw [block_eq, header_followedBy, followedBy, if_pos hgrown, ← h,
      Bytes.extract_append_left hfits]
  next => contradiction

theorem decode_followedBy {index : UInt32} {bytes : Bytes} (h : file.block index = .ok bytes)
    (more : Bytes) : (file.followedBy more).decode index = file.decode index := by
  rw [decode, decode, block_followedBy h, h, header_followedBy]

theorem visit_followedBy {index : Nat} {bytes : Bytes}
    (h : file.block (UInt32.ofNat index) = .ok bytes) (more : Bytes) :
    (file.followedBy more).visit index = file.visit index := by
  rw [visit, visit, decode_followedBy h]

/-- A block that cannot be read is reported as missing. -/
theorem isMissing_visit {index : Nat} {cause : DecodeError}
    (h : file.block (UInt32.ofNat index) = .error cause) : (file.visit index).IsMissing := by
  have hresult : (file.visit index).attempt.result = .error cause := by
    rw [result_visit, result_decode, h]
    rfl
  rw [block_eq] at h
  split at h
  · contradiction
  · cases h
    exact ⟨_, _, hresult⟩

/-- The walk visits `front` and then ends at a missing block. -/
def EndsMissing (file : HistoryFile) (front : List Visit) : Prop :=
  ∃ visit : Visit, visit.IsMissing ∧ file.walk = front ++ [visit]

theorem walk_followedBy (file : HistoryFile) (more : Bytes) :
    (file.followedBy more).walk = file.walk ∨
      ∃ front, file.EndsMissing front ∧ front <+: (file.followedBy more).walk := by
  have hsame : ∀ index ∈ List.range file.header.nodeCount.toNat,
      (file.followedBy more).visit index = file.visit index ∨ (file.visit index).IsMissing := by
    intro index _
    cases hblock : file.block (UInt32.ofNat index) with
    | ok bytes => exact Or.inl (visit_followedBy hblock more)
    | error cause => exact Or.inr (isMissing_visit hblock)
  have hcases := takeThrough_map_cases (fun _ => Visit.IsMissing.fails) hsame
  rw [walk_eq (file.followedBy more)]
  rcases hcases with hall | ⟨front, final, hmissing, hfirst, hsecond⟩
  · exact Or.inl (hall.trans file.walk_eq.symm)
  · exact Or.inr ⟨front, ⟨final, hmissing, file.walk_eq.trans hfirst⟩, hsecond⟩

/-- What has been read from a file is the same in another that begins with its bytes. -/
structure Extends (longer file : HistoryFile) : Prop where
  block (index : UInt32) (bytes : Bytes) (h : file.block index = .ok bytes) :
    longer.block index = .ok bytes ∧ longer.decode index = file.decode index
  walk (h : ∀ front, ¬ file.EndsMissing front) : longer.walk = file.walk
  walk_prefix (front : List Visit) (h : file.EndsMissing front) : front <+: longer.walk

theorem extends_followedBy (file : HistoryFile) (more : Bytes) :
    (file.followedBy more).Extends file where
  block index bytes h := ⟨block_followedBy h more, decode_followedBy h more⟩
  walk hno := by
    rcases file.walk_followedBy more with hall | ⟨front, hends, -⟩
    · exact hall
    · exact absurd hends (hno front)
  walk_prefix front hends := by
    obtain ⟨final, hmissing, hwalk⟩ := hends
    rcases file.walk_followedBy more with hall | ⟨other, ⟨_, -, hother⟩, hprefix⟩
    · rw [hall, hwalk]
      exact List.prefix_append _ _
    · rw [hwalk] at hother
      rwa [(List.append_inj' hother rfl).1]

/-! ## Files that hold all their blocks -/

/-- All declared blocks lie within the file. -/
def IsComplete (file : HistoryFile) : Prop :=
  4096 + file.header.nodeCount.toNat * file.header.blockSize.toNat ≤ file.data.size

theorem IsComplete.exists_block (h : file.IsComplete) {index : Nat}
    (hindex : index < file.header.nodeCount.toNat) :
    ∃ bytes, file.block (UInt32.ofNat index) = .ok bytes := by
  have hword : (UInt32.ofNat index).toNat = index :=
    UInt32.toNat_ofNat_of_lt' (Nat.lt_trans hindex file.header.nodeCount.toNat_lt_size)
  have hfits : 4096 + (UInt32.ofNat index).toNat * file.header.blockSize.toNat +
      file.header.blockSize.toNat ≤ file.data.size := by
    rw [hword]
    exact Nat.le_trans (blockStop_le _ hindex) h
  exact ⟨_, by rw [block_eq, if_pos hfits]⟩

namespace IsComplete

theorem walk_followedBy (h : file.IsComplete) (more : Bytes) :
    (file.followedBy more).walk = file.walk := by
  rw [walk_eq, walk_eq]
  congr 1
  apply List.map_congr_left
  intro index hindex
  obtain ⟨bytes, hblock⟩ := h.exists_block (List.mem_range.mp hindex)
  exact HistoryFile.visit_followedBy hblock more

/-- The blocks that are visited are the same. -/
theorem block_followedBy (h : file.IsComplete) (more : Bytes) {visit : Visit}
    (hvisit : visit ∈ file.walk) :
    (file.followedBy more).block visit.index = file.block visit.index := by
  obtain ⟨index, hindex, rfl⟩ := exists_of_mem_walk hvisit
  obtain ⟨bytes, hblock⟩ := h.exists_block hindex
  exact (HistoryFile.block_followedBy hblock more).trans hblock.symm

theorem decodeAll_followedBy (h : file.IsComplete) (more : Bytes) :
    (file.followedBy more).decodeAll = file.decodeAll := by
  rw [decodeAll, decodeAll, h.walk_followedBy]

end IsComplete

/-- A dump looks at no other blocks than those of its visits. -/
theorem foldlM_dumpVisit_congr {longer : HistoryFile} {visits : List Visit}
    (h : ∀ visit ∈ visits, longer.block visit.index = file.block visit.index) (dump : Dump) :
    visits.foldlM longer.dumpVisit dump = visits.foldlM file.dumpVisit dump := by
  induction visits generalizing dump with
  | nil => rfl
  | cons visit rest ih =>
    rw [List.forall_mem_cons] at h
    have hvisit : longer.dumpVisit dump visit = file.dumpVisit dump visit := by
      rw [dumpVisit, dumpVisit, h.1]
    rw [List.foldlM_cons, List.foldlM_cons, hvisit]
    congr 1
    funext after
    exact ih h.2 after

theorem IsComplete.dump_followedBy (h : file.IsComplete) (more : Bytes) :
    (file.followedBy more).dump = file.dump := by
  rw [dump_eq, dump_eq, h.walk_followedBy, header_followedBy,
    foldlM_dumpVisit_congr fun _ => h.block_followedBy more]

end HistoryFile

/-! ## Notices before a conversion -/

/-- The conversion with notices that were issued before it. -/
def Conversion.after (conversion : Conversion) (notices : List Notice) : Conversion :=
  { conversion with notices := notices ++ conversion.notices }

namespace Draft

/-- The draft with notices that were issued before it. -/
def after (draft : Draft) (notices : List Notice) : Draft :=
  { draft with notices := notices.toArray ++ draft.notices }

variable (draft : Draft) (notices : List Notice)

theorem announce_after (visit : Visit) :
    (draft.after notices).announce visit = (draft.announce visit).after notices := by
  have hnotices : notices.toArray ++ draft.notices ++ visit.attempt.notices =
      notices.toArray ++ (draft.notices ++ visit.attempt.notices) := by
    simp [← Array.toList_inj]
  rw [announce, after, announce, after, hnotices]

theorem add_after (index : UInt32) (node : DecodedNode) (block : Bytes) :
    (draft.after notices).add index node block = (draft.add index node block).after notices := rfl

theorem fail_after (error : ConversionError) :
    (draft.after notices).fail error = (draft.fail error).after notices := by
  simp only [fail, after, Conversion.after, Array.toList_append]

theorem finish_after (form : DocumentForm) (rootSeq : SeqNumber) :
    (draft.after notices).finish form rootSeq = (draft.finish form rootSeq).after notices := by
  simp only [finish, after, Conversion.after, Array.toList_append, List.append_assoc]

/-- Earlier notices stay in front and change nothing else. -/
theorem readNodes_after (file : HistoryFile) (form : DocumentForm) (visits : List Visit) :
    readNodes file form (draft.after notices) visits =
      (readNodes file form draft visits).after notices := by
  induction visits generalizing draft with
  | nil => exact finish_after draft notices form file.header.rootSeq
  | cons visit rest ih =>
    rw [readNodes, readNodes, announce_after]
    cases readNode file visit with
    | error cause => exact fail_after _ notices _
    | ok read => simp only [add_after, ih]

theorem ofFile_eq_after (file : HistoryFile) (form : DocumentForm) :
    ofFile file notices form = (ofFile file [] form).after notices := by
  rw [ofFile, ofFile, after]
  split <;> simp

/-- A conversion looks at no other blocks than those of its visits. -/
theorem readNodes_congr {longer file : HistoryFile} (hheader : longer.header = file.header)
    (form : DocumentForm) {visits : List Visit}
    (h : ∀ visit ∈ visits, longer.block visit.index = file.block visit.index) :
    readNodes longer form draft visits = readNodes file form draft visits := by
  induction visits generalizing draft with
  | nil => rw [readNodes, readNodes, hheader]
  | cons visit rest ih =>
    rw [List.forall_mem_cons] at h
    have hread : readNode longer visit = readNode file visit := by
      rw [readNode, readNode, h.1]
    rw [readNodes, readNodes, hread]
    cases readNode file visit with
    | error cause => rfl
    | ok read => exact ih _ h.2

end Draft

/-! ## Whole files -/

section Whole

variable {data : Bytes}

theorem TreeHeader.declared_append (hsize : 4096 ≤ data.size) (more : Bytes) :
    declared (data ++ more) = declared data := by
  have hword (offset : Nat) (h : offset + 4 ≤ 4096) :
      Bytes.wordAt (data ++ more) offset = data.wordAt offset :=
    Bytes.wordAt_append_left (Nat.le_trans h hsize) more
  simp (disch := decide) only [declared, hword]

/-- What is made of the longer of two files is what is made of the other, apart from what
is noted on parsing. -/
structure HistoryFile.SameContent (longer file : HistoryFile) : Prop where
  walk : longer.walk = file.walk
  decodeAll : longer.decodeAll = file.decodeAll
  graph : longer.decodeAll.result.map Graph.render = file.decodeAll.result.map Graph.render
  dump : longer.dump = file.dump
  progress (form : DocumentForm) :
    (convert longer.data form).progress = (convert file.data form).progress
  output (form : DocumentForm) :
    (convert longer.data form).output = (convert file.data form).output
  notices (form : DocumentForm) :
    ∃ rest, (convert longer.data form).notices = (parse longer.data).notices ++ rest ∧
      (convert file.data form).notices = (parse file.data).notices ++ rest

/-- All that is noted on parsing is how many bytes follow the declared blocks, if any do. -/
def HistoryFile.NotesTrailing (file : HistoryFile) (expected : Nat) : Prop :=
  (parse file.data).notices =
    if expected < file.data.size then
      [.trailingBytes (file.data.size - expected) file.header.nodeCount]
    else []

theorem HistoryFile.parse_followedBy (hsize : 4096 ≤ data.size) (more : Bytes) :
    (parse (data ++ more)).result = .ok (followedBy ⟨.declared data, data⟩ more) := by
  rw [result_parse_eq_ok_iff, TreeHeader.declared_append hsize]
  exact ⟨Nat.le_trans hsize (Bytes.size_le_append data more), rfl⟩

theorem HistoryFile.notesTrailing_of_parse {file : HistoryFile}
    (h : (parse data).result = .ok file) :
    file.NotesTrailing (4096 + file.header.nodeCount.toNat * file.header.blockSize.toNat) := by
  obtain ⟨hsize, rfl⟩ := result_parse_eq_ok_iff.mp h
  have hread : TreeHeader.read data = .ok (.declared data) :=
    TreeHeader.read_eq_ok_iff.mpr ⟨hsize, rfl⟩
  rw [NotesTrailing, parse, Attempt.notices_bind, Attempt.notices_lift, Attempt.result_lift, hread]
  simp only [TreeHeader.expectedLength?_eq, Attempt.notices_bind, Attempt.notices_noteIf,
    Attempt.result_noteIf, Attempt.notices_pure, List.nil_append, List.append_nil]

/-- The part of a conversion that comes after parsing is the same with more bytes behind a
complete file. -/
theorem exists_convert_append (hsize : 4096 ≤ data.size) (more : Bytes)
    (hcomplete : HistoryFile.IsComplete ⟨.declared data, data⟩) (form : DocumentForm) :
    ∃ rest : Conversion,
      convert (data ++ more) form = rest.after (HistoryFile.parse (data ++ more)).notices ∧
        convert data form = rest.after (HistoryFile.parse data).notices := by
  have hparse : (HistoryFile.parse data).result = .ok ⟨.declared data, data⟩ :=
    HistoryFile.result_parse_eq_ok_iff.mpr ⟨hsize, rfl⟩
  refine ⟨Draft.readNodes ⟨.declared data, data⟩ form (.ofFile ⟨.declared data, data⟩ [] form)
    (HistoryFile.walk ⟨.declared data, data⟩), ?_, ?_⟩
  · rw [convert_of_parse_ok (HistoryFile.parse_followedBy hsize more), Draft.ofFile_eq_after,
      Draft.readNodes_after, hcomplete.walk_followedBy,
      Draft.readNodes_congr _ (HistoryFile.header_followedBy _ more) form
        fun _ => hcomplete.block_followedBy more]
    rfl
  · rw [convert_of_parse_ok hparse, Draft.ofFile_eq_after, Draft.readNodes_after]

theorem sameContent_append (hsize : 4096 ≤ data.size) (more : Bytes)
    (hcomplete : HistoryFile.IsComplete ⟨.declared data, data⟩) :
    HistoryFile.SameContent ⟨.declared data, data ++ more⟩ ⟨.declared data, data⟩ where
  walk := hcomplete.walk_followedBy more
  decodeAll := hcomplete.decodeAll_followedBy more
  graph := congrArg (fun attempt => attempt.result.map Graph.render)
    (hcomplete.decodeAll_followedBy more)
  dump := hcomplete.dump_followedBy more
  progress form := by
    obtain ⟨rest, hlonger, hdata⟩ := exists_convert_append hsize more hcomplete form
    simp only [hlonger, hdata, Conversion.after]
  output form := by
    obtain ⟨rest, hlonger, hdata⟩ := exists_convert_append hsize more hcomplete form
    simp only [hlonger, hdata, Conversion.after]
  notices form := by
    obtain ⟨rest, hlonger, hdata⟩ := exists_convert_append hsize more hcomplete form
    exact ⟨rest.notices, congrArg Conversion.notices hlonger, congrArg Conversion.notices hdata⟩

/-- Bytes that are added to a file leave its header and all that has been read from it as
they are. A complete file is read as before, and only a note on the bytes behind it tells
that there are more. -/
theorem parse_append (hsize : 4096 ≤ data.size) (more : Bytes) :
    ∃ header expected, (HistoryFile.parse data).result = .ok ⟨header, data⟩ ∧
      (HistoryFile.parse (data ++ more)).result = .ok ⟨header, data ++ more⟩ ∧
      HistoryFile.Extends ⟨header, data ++ more⟩ ⟨header, data⟩ ∧
      header.expectedLength? = some expected ∧
      HistoryFile.NotesTrailing ⟨header, data⟩ expected ∧
      HistoryFile.NotesTrailing ⟨header, data ++ more⟩ expected ∧
      (expected ≤ data.size →
        HistoryFile.SameContent ⟨header, data ++ more⟩ ⟨header, data⟩) := by
  have hparse : (HistoryFile.parse data).result = .ok ⟨.declared data, data⟩ :=
    HistoryFile.result_parse_eq_ok_iff.mpr ⟨hsize, rfl⟩
  have hlonger := HistoryFile.parse_followedBy hsize more
  have hextends := HistoryFile.extends_followedBy ⟨.declared data, data⟩ more
  exact ⟨.declared data, _, hparse, hlonger, hextends,
    TreeHeader.expectedLength?_eq _, HistoryFile.notesTrailing_of_parse hparse,
    HistoryFile.notesTrailing_of_parse hlonger, sameContent_append hsize more⟩

end Whole

/-- A file of one block of zeros, which stands for a node of unknown type. -/
def oneBlockFile : Bytes :=
  TreeHeader.encode { threeNodeHeader with nodeCount := 1 } ++ Bytes.zeros 60

theorem parse_append_oneBlockFile :
    4096 ≤ oneBlockFile.size ∧
      ∃ header, (HistoryFile.parse oneBlockFile).result = .ok ⟨header, oneBlockFile⟩ ∧
        HistoryFile.SameContent ⟨header, oneBlockFile ++ #[7, 7]⟩ ⟨header, oneBlockFile⟩ := by
  have hsize : oneBlockFile.size = 4156 := by
    rw [oneBlockFile, Array.size_append, TreeHeader.size_encode, Bytes.size_zeros]
  have hpreamble : 4096 ≤ oneBlockFile.size := by
    rw [hsize]
    decide
  obtain ⟨header, expected, hparse, -, -, hexpected, -, -, hsame⟩ :=
    parse_append hpreamble #[7, 7]
  have hheader : header = { threeNodeHeader with nodeCount := 1 } := by
    have hdeclared := (HistoryFile.result_parse_eq_ok_iff.mp hparse).2
    rw [oneBlockFile, TreeHeader.declared_encode_append] at hdeclared
    exact congrArg HistoryFile.header hdeclared
  have hlength : expected = 4156 := by
    rw [TreeHeader.expectedLength?_eq, hheader] at hexpected
    exact (Option.some.inj hexpected).symm
  exact ⟨hpreamble, header, hparse, hsame (by rw [hlength, hsize])⟩

end HistoryTree
