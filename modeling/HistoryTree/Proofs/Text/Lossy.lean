import HistoryTree.Proofs.Text.Utf8
import Mathlib.Data.List.Basic
import Mathlib.Data.List.Induction

/-!
# Decoding bytes that are not UTF-8

Any bytes are made of whole characters, of beginnings of characters that go no further, and of
bytes that begin none (`Lossy`). They are so in one way only, and decoding finds it
(`lossy_iff`).
-/

namespace HistoryTree.Utf8

/-- The bytes are the first of a character, and perhaps all of them. -/
def Begins (bytes : List UInt8) : Prop :=
  ∃ char, bytes <+: String.utf8EncodeChar char

/-- The characters that bytes stand for, with a replacement for each stretch that begins a
character and cannot go on with it, and for each byte that begins none. -/
inductive Lossy : List UInt8 → List Char → Prop
  | nil : Lossy [] []
  | char (char : Char) {rest : List UInt8} {chars : List Char} (h : Lossy rest chars) :
    Lossy (String.utf8EncodeChar char ++ rest) (char :: chars)
  | broken {front rest : List UInt8} {chars : List Char} (nonempty : front ≠ [])
    (begins : Begins front) (incomplete : ∀ char, String.utf8EncodeChar char ≠ front)
    (ends : ∀ byte ∈ rest.head?, ¬ Begins (front ++ [byte])) (h : Lossy rest chars) :
    Lossy (front ++ rest) (replacement :: chars)
  | stray {byte : UInt8} {rest : List UInt8} {chars : List Char} (alone : ¬ Begins [byte])
    (h : Lossy rest chars) : Lossy (byte :: rest) (replacement :: chars)

/-! ## Characters of several bytes -/

section Encodings

theorem toNat_val_ofNat {number : Nat} (h : number.isValidChar) :
    (Char.ofNat number).val.toNat = number := by
  rw [Char.ofNat, dif_pos h]
  rfl

theorem utf8EncodeChar_one {number : Nat} (h : number < 0x80) :
    String.utf8EncodeChar (Char.ofNat number) = [UInt8.ofNat number] := by
  have hvalid : number.isValidChar := Or.inl (by omega)
  rw [String.utf8EncodeChar]
  simp only [toNat_val_ofNat hvalid]
  rw [if_pos (by omega)]

theorem utf8EncodeChar_two {high low : Nat} (hhigh : 2 ≤ high) (hsmall : high < 32)
    (hlow : low < 64) :
    String.utf8EncodeChar (Char.ofNat (high * 64 + low)) =
      [UInt8.ofNat (high + 0xC0), UInt8.ofNat (low + 0x80)] := by
  have hvalid : (high * 64 + low).isValidChar := Or.inl (by omega)
  have hdiv : (high * 64 + low) / 64 % 32 = high := by omega
  have hmod : (high * 64 + low) % 64 = low := by omega
  rw [String.utf8EncodeChar]
  simp only [toNat_val_ofNat hvalid, hdiv, hmod]
  rw [if_neg (by omega), if_pos (by omega)]

theorem utf8EncodeChar_three {high middle low : Nat} (hhigh : high < 16)
    (hmiddle : middle < 64) (hlow : low < 64) (hlong : high = 0 → 32 ≤ middle)
    (hscalar : high = 13 → middle < 32) :
    String.utf8EncodeChar (Char.ofNat ((high * 64 + middle) * 64 + low)) =
      [UInt8.ofNat (high + 0xE0), UInt8.ofNat (middle + 0x80), UInt8.ofNat (low + 0x80)] := by
  have hvalid : ((high * 64 + middle) * 64 + low).isValidChar := by
    rw [Nat.isValidChar]
    omega
  have hhighest : ((high * 64 + middle) * 64 + low) / 4096 % 16 = high := by omega
  have hdiv : ((high * 64 + middle) * 64 + low) / 64 % 64 = middle := by omega
  have hmod : ((high * 64 + middle) * 64 + low) % 64 = low := by omega
  rw [String.utf8EncodeChar]
  simp only [toNat_val_ofNat hvalid, hhighest, hdiv, hmod]
  rw [if_neg (by omega), if_neg (by omega), if_pos (by omega)]

theorem utf8EncodeChar_four {high upper middle low : Nat} (hhigh : high < 5)
    (hupper : upper < 64) (hmiddle : middle < 64) (hlow : low < 64)
    (hlong : high = 0 → 16 ≤ upper) (hscalar : high = 4 → upper < 16) :
    String.utf8EncodeChar (Char.ofNat (((high * 64 + upper) * 64 + middle) * 64 + low)) =
      [UInt8.ofNat (high + 0xF0), UInt8.ofNat (upper + 0x80), UInt8.ofNat (middle + 0x80),
        UInt8.ofNat (low + 0x80)] := by
  have hvalid : (((high * 64 + upper) * 64 + middle) * 64 + low).isValidChar := by
    rw [Nat.isValidChar]
    omega
  have hhighest : (((high * 64 + upper) * 64 + middle) * 64 + low) / 262144 % 8 = high := by omega
  have hhigher : (((high * 64 + upper) * 64 + middle) * 64 + low) / 4096 % 64 = upper := by omega
  have hdiv : (((high * 64 + upper) * 64 + middle) * 64 + low) / 64 % 64 = middle := by omega
  have hmod : (((high * 64 + upper) * 64 + middle) * 64 + low) % 64 = low := by omega
  rw [String.utf8EncodeChar]
  simp only [toNat_val_ofNat hvalid, hhighest, hhigher, hdiv, hmod]
  rw [if_neg (by omega), if_neg (by omega), if_neg (by omega)]

end Encodings

/-! ## Stretches that may go on -/

/-- A byte that begins a character of several, and what may go on with it. -/
inductive Leads : UInt8 → Pending → Prop
  | two (bits : Nat) (low : 2 ≤ bits) (high : bits < 32) :
    Leads (UInt8.ofNat (bits + 0xC0)) ⟨1, 0x80, 0xBF, bits⟩
  | three (bits : Nat) (h : bits < 16) :
    Leads (UInt8.ofNat (bits + 0xE0))
      ⟨2, if bits = 0 then 0xA0 else 0x80, if bits = 13 then 0x9F else 0xBF, bits⟩
  | four (bits : Nat) (h : bits < 5) :
    Leads (UInt8.ofNat (bits + 0xF0))
      ⟨3, if bits = 0 then 0x90 else 0x80, if bits = 4 then 0x8F else 0xBF, bits⟩

theorem range_of_ofLead? {byte : UInt8} {pending : Pending}
    (h : Pending.ofLead? byte = some pending) : 0xC2 ≤ byte.toNat ∧ byte.toNat < 0xF5 := by
  by_contra hrange
  have hnone : Pending.ofLead? byte = none := by
    simp only [Pending.ofLead?, UInt8.le_iff_toNat_le, ← UInt8.toNat_inj, UInt8.reduceToNat]
    repeat rw [if_neg (by omega)]
  rw [hnone] at h
  contradiction

theorem leads_of_ofLead? {byte : UInt8} {pending : Pending}
    (h : Pending.ofLead? byte = some pending) : Leads byte pending := by
  obtain ⟨hlow, hhigh⟩ := range_of_ofLead? h
  have hbyte {base : Nat} (hbase : base ≤ byte.toNat) :
      UInt8.ofNat (byte.toNat - base + base) = byte := by
    rw [Nat.sub_add_cancel hbase, UInt8.ofNat_toNat]
  rcases Nat.lt_or_ge byte.toNat 0xE0 with htwo | hmore
  · have hlead := @ofLead?_two (byte.toNat - 0xC0) (by omega) (by omega)
    have hleads := Leads.two (byte.toNat - 0xC0) (by omega) (by omega)
    rw [hbyte (by omega)] at hlead hleads
    exact Option.some.inj (hlead.symm.trans h) ▸ hleads
  rcases Nat.lt_or_ge byte.toNat 0xF0 with hthree | hfour
  · have hlead := @ofLead?_three (byte.toNat - 0xE0) (by omega)
    have hleads := Leads.three (byte.toNat - 0xE0) (by omega)
    rw [hbyte hmore] at hlead hleads
    exact Option.some.inj (hlead.symm.trans h) ▸ hleads
  · have hlead := @ofLead?_four (byte.toNat - 0xF0) (by omega)
    have hleads := Leads.four (byte.toNat - 0xF0) (by omega)
    rw [hbyte hfour] at hlead hleads
    exact Option.some.inj (hlead.symm.trans h) ▸ hleads

theorem exists_bits {byte low high : UInt8} (hlow : 0x80 ≤ low) (hhigh : high ≤ 0xBF)
    (h : low ≤ byte ∧ byte ≤ high) :
    ∃ bits < 64, byte = UInt8.ofNat (bits + 0x80) ∧ low.toNat ≤ bits + 0x80 ∧
      bits + 0x80 ≤ high.toNat := by
  simp only [UInt8.le_iff_toNat_le, UInt8.reduceToNat] at hlow hhigh h
  have hbits : byte.toNat - 0x80 + 0x80 = byte.toNat := by omega
  refine ⟨byte.toNat - 0x80, by omega, ?_, ?_, ?_⟩
  · rw [hbits, UInt8.ofNat_toNat]
  · rw [hbits]
    exact h.1
  · rw [hbits]
    exact h.2

/-- The byte may go on with the character. -/
def Pending.Allows (pending : Pending) (byte : UInt8) : Prop :=
  pending.low ≤ byte ∧ byte ≤ pending.high

instance (pending : Pending) (byte : UInt8) : Decidable (pending.Allows byte) :=
  inferInstanceAs (Decidable (_ ∧ _))

/-- A stretch has been read that begins a character, and what is pending is what it takes to
complete it. -/
structure Reading (front : List UInt8) (pending : Pending) : Prop where
  fed (text : String) : front.foldl Decoder.feed ⟨text, none⟩ = ⟨text, some pending⟩
  remaining : 1 ≤ pending.remaining
  allows_low : pending.Allows pending.low
  completes (byte : UInt8) (later : List UInt8) (allowed : pending.Allows byte)
    (length : later.length + 1 = pending.remaining)
    (within : ∀ other ∈ later, 0x80 ≤ other ∧ other ≤ 0xBF) :
    ∃ char, String.utf8EncodeChar char = front ++ byte :: later

theorem Leads.bounds {byte : UInt8} {pending : Pending} (h : Leads byte pending) :
    0x80 ≤ pending.low ∧ pending.low ≤ pending.high ∧ pending.high ≤ 0xBF := by
  cases h with
  | two =>
    exact (by decide : (0x80 : UInt8) ≤ 0x80 ∧ (0x80 : UInt8) ≤ 0xBF ∧ (0xBF : UInt8) ≤ 0xBF)
  | three bits h =>
    rcases eq_or_ne bits 0 with rfl | hlong
    · decide
    · simp only [if_neg hlong]
      split <;> decide
  | four bits h =>
    rcases eq_or_ne bits 0 with rfl | hlong
    · decide
    · simp only [if_neg hlong]
      split <;> decide

theorem Leads.remaining {byte : UInt8} {pending : Pending} (h : Leads byte pending) :
    1 ≤ pending.remaining := by
  cases h <;> exact Nat.succ_pos _

/-- Whatever may follow the first byte completes a character. -/
theorem Leads.exists_char {byte next : UInt8} {pending : Pending} {later : List UInt8}
    (h : Leads byte pending) (hnext : pending.Allows next)
    (hlength : later.length + 1 = pending.remaining)
    (hlater : ∀ other ∈ later, (0x80 : UInt8) ≤ other ∧ other ≤ 0xBF) :
    ∃ char, String.utf8EncodeChar char = byte :: next :: later := by
  obtain ⟨hleast, -, hmost⟩ := h.bounds
  obtain ⟨second, hsecond, rfl, hlong, hscalar⟩ := exists_bits hleast hmost hnext
  have hbits (other : UInt8) (hother : other ∈ later) :
      ∃ bits < 64, other = UInt8.ofNat (bits + 0x80) := by
    obtain ⟨bits, hbits, hbyte, -, -⟩ :=
      exists_bits (UInt8.le_refl _) (UInt8.le_refl _) (hlater other hother)
    exact ⟨bits, hbits, hbyte⟩
  cases h with
  | two bits low high =>
    obtain rfl := List.eq_nil_of_length_eq_zero (Nat.succ.inj hlength)
    exact ⟨_, utf8EncodeChar_two low high hsecond⟩
  | three bits h =>
    obtain ⟨third, rfl⟩ := List.length_eq_one_iff.mp (Nat.succ.inj hlength)
    obtain ⟨low, hlow, rfl⟩ := hbits third List.mem_cons_self
    refine ⟨_, utf8EncodeChar_three h hsecond hlow ?_ ?_⟩
    · intro hzero
      rw [if_pos hzero] at hlong
      have hfrom : 0xA0 ≤ second + 0x80 := hlong
      omega
    · intro hlast
      rw [if_pos hlast] at hscalar
      have hto : second + 0x80 ≤ 0x9F := hscalar
      omega
  | four bits h =>
    obtain ⟨third, fourth, rfl⟩ := List.length_eq_two.mp (Nat.succ.inj hlength)
    obtain ⟨middle, hmiddle, rfl⟩ := hbits third List.mem_cons_self
    obtain ⟨low, hlow, rfl⟩ := hbits fourth (List.mem_cons_of_mem _ List.mem_cons_self)
    refine ⟨_, utf8EncodeChar_four h hsecond hmiddle hlow ?_ ?_⟩
    · intro hzero
      rw [if_pos hzero] at hlong
      have hfrom : 0x90 ≤ second + 0x80 := hlong
      omega
    · intro hlast
      rw [if_pos hlast] at hscalar
      have hto : second + 0x80 ≤ 0x8F := hscalar
      omega

theorem reading_of_ofLead? {byte : UInt8} {pending : Pending}
    (h : Pending.ofLead? byte = some pending) : Reading [byte] pending := by
  have hleads := leads_of_ofLead? h
  have hlow : pending.Allows pending.low := ⟨UInt8.le_refl _, hleads.bounds.2.1⟩
  have hmany : ¬ byte < 0x80 := by
    rw [UInt8.lt_iff_toNat_lt]
    exact Nat.not_lt.mpr (Nat.le_trans (by decide) (range_of_ofLead? h).1)
  refine ⟨fun text => ?_, hleads.remaining, hlow, fun next later => hleads.exists_char⟩
  rw [List.foldl_cons, List.foldl_nil, Decoder.feed, Decoder.feedFirst, if_neg hmany, h]

/-! ## How much has been read -/

namespace Decoder

/-- The characters read so far, with the one that has begun. -/
def weight (decoder : Decoder) : Nat :=
  decoder.text.length + if decoder.pending.isSome then 1 else 0

theorem weight_feedFirst (text : String) (byte : UInt8) :
    (feedFirst text byte).weight = text.length + 1 := by
  rw [feedFirst]
  split
  · simp [weight]
  · split <;> simp [weight]

theorem feed_of_not_allows (text : String) {pending : Pending} {byte : UInt8}
    (h : ¬ pending.Allows byte) :
    feed ⟨text, some pending⟩ byte = feed ⟨text.push replacement, none⟩ byte := by
  rw [feed, feed]
  exact if_neg h

theorem feed_of_allows (text : String) {pending : Pending} {byte : UInt8}
    (h : pending.Allows byte) :
    feed ⟨text, some pending⟩ byte =
      if pending.remaining ≤ 1 then
        ⟨text.push (Char.ofNat (pending.bits * 64 + (byte.toNat - 0x80))), none⟩
      else
        ⟨text, some ⟨pending.remaining - 1, 0x80, 0xBF,
          pending.bits * 64 + (byte.toNat - 0x80)⟩⟩ := by
  rw [feed]
  exact if_pos h

theorem weight_le_weight_feed (decoder : Decoder) (byte : UInt8) :
    decoder.weight ≤ (decoder.feed byte).weight := by
  obtain ⟨text, _ | pending⟩ := decoder
  · rw [feed, weight_feedFirst]
    exact Nat.le_succ _
  · by_cases hallowed : pending.Allows byte
    · rw [feed_of_allows text hallowed]
      split <;> simp [weight]
    · rw [feed_of_not_allows text hallowed, feed, weight_feedFirst, String.length_push]
      exact Nat.le_succ _

theorem weight_le_weight_foldl (decoder : Decoder) (bytes : List UInt8) :
    decoder.weight ≤ (bytes.foldl feed decoder).weight := by
  induction bytes generalizing decoder with
  | nil => exact Nat.le_refl _
  | cons byte rest ih => exact Nat.le_trans (decoder.weight_le_weight_feed byte) (ih _)

/-- One character is all that has been read of a stretch that begins one. -/
theorem weight_of_begins {bytes : List UInt8} (h : Begins bytes) :
    (bytes.foldl feed empty).weight ≤ 1 := by
  obtain ⟨char, rest, hchar⟩ := h
  calc (bytes.foldl feed empty).weight
    _ ≤ (rest.foldl feed (bytes.foldl feed empty)).weight := weight_le_weight_foldl _ rest
    _ = 1 := by
      rw [← List.foldl_append, hchar, empty, foldl_feed_utf8EncodeChar, weight,
        String.length_push]
      rfl

end Decoder

/-- No character goes on after another. -/
theorem not_begins_append (char : Char) (byte : UInt8) :
    ¬ Begins (String.utf8EncodeChar char ++ [byte]) := by
  intro hbegins
  have hweight := Decoder.weight_of_begins hbegins
  rw [List.foldl_append, Decoder.empty, Decoder.foldl_feed_utf8EncodeChar, List.foldl_cons,
    List.foldl_nil, Decoder.feed, Decoder.weight_feedFirst, String.length_push] at hweight
  exact absurd hweight (by decide)

namespace Reading

variable {front : List UInt8} {pending : Pending} {byte : UInt8}

theorem last (h : Reading front pending) (hallowed : pending.Allows byte)
    (hlast : pending.remaining ≤ 1) : ∃ char, String.utf8EncodeChar char = front ++ [byte] :=
  h.completes byte [] hallowed (Nat.le_antisymm h.remaining hlast) (List.forall_mem_nil _)

theorem next (h : Reading front pending) (hallowed : pending.Allows byte)
    (hmore : ¬ pending.remaining ≤ 1) :
    Reading (front ++ [byte]) ⟨pending.remaining - 1, 0x80, 0xBF,
      pending.bits * 64 + (byte.toNat - 0x80)⟩ where
  fed text := by
    rw [List.foldl_append, h.fed, List.foldl_cons, List.foldl_nil,
      Decoder.feed_of_allows text hallowed, if_neg hmore]
  remaining := Nat.le_sub_of_add_le (Nat.not_le.mp hmore)
  allows_low := (by decide : (0x80 : UInt8) ≤ 0x80 ∧ (0x80 : UInt8) ≤ 0xBF)
  completes next later allowed length within := by
    have hlength : (next :: later).length + 1 = pending.remaining := by
      rw [List.length_cons, length, Nat.sub_add_cancel h.remaining]
    rw [List.append_assoc]
    exact h.completes byte _ hallowed hlength (List.forall_mem_cons.mpr ⟨allowed, within⟩)

theorem begins_snoc_iff (h : Reading front pending) :
    Begins (front ++ [byte]) ↔ pending.Allows byte := by
  constructor
  · intro hbegins
    by_contra hnot
    have hweight := Decoder.weight_of_begins hbegins
    rw [List.foldl_append, Decoder.empty, h.fed, List.foldl_cons, List.foldl_nil,
      Decoder.feed_of_not_allows _ hnot, Decoder.feed, Decoder.weight_feedFirst,
      String.length_push] at hweight
    exact absurd hweight (by decide)
  · intro hallowed
    obtain ⟨char, hchar⟩ := h.completes byte (List.replicate (pending.remaining - 1) 0x80) hallowed
      (by rw [List.length_replicate, Nat.sub_add_cancel h.remaining])
      (fun other hother => by rw [List.eq_of_mem_replicate hother]; decide)
    exact ⟨char, _, by rw [List.append_assoc, hchar]; rfl⟩

theorem begins (h : Reading front pending) : Begins front := by
  obtain ⟨char, hprefix⟩ := h.begins_snoc_iff.mpr h.allows_low
  exact ⟨char, (List.prefix_append _ _).trans hprefix⟩

theorem incomplete (h : Reading front pending) (char : Char) :
    String.utf8EncodeChar char ≠ front := by
  rintro rfl
  have hfed := h.fed ""
  rw [Decoder.foldl_feed_utf8EncodeChar, Decoder.mk.injEq] at hfed
  exact absurd hfed.2 (by simp)

end Reading

/-! ## The two ways to read -/

theorem utf8EncodeChar_of_lt {byte : UInt8} (h : byte < 0x80) :
    String.utf8EncodeChar (Char.ofNat byte.toNat) = [byte] := by
  rw [utf8EncodeChar_one (UInt8.lt_iff_toNat_lt.mp h), UInt8.ofNat_toNat]

/-- A byte that begins no character is replaced. -/
theorem feed_of_not_begins (text : String) {byte : UInt8} (h : ¬ Begins [byte]) :
    Decoder.feed ⟨text, none⟩ byte = ⟨text.push replacement, none⟩ := by
  have hmany : ¬ byte < 0x80 := by
    intro hascii
    exact h ⟨Char.ofNat byte.toNat, [], by rw [List.append_nil, utf8EncodeChar_of_lt hascii]⟩
  rw [Decoder.feed, Decoder.feedFirst, if_neg hmany]
  cases hlead : Pending.ofLead? byte with
  | none => rfl
  | some pending => exact absurd (reading_of_ofLead? hlead).begins h

/-- A byte of several that leads none begins no character. -/
theorem not_begins_of_ofLead? {byte : UInt8} (hmany : ¬ byte < 0x80)
    (h : Pending.ofLead? byte = none) : ¬ Begins [byte] := by
  rintro ⟨char, rest, hchar⟩
  have hfed : [byte].foldl Decoder.feed ⟨"", none⟩ = ⟨"".push replacement, none⟩ := by
    rw [List.foldl_cons, List.foldl_nil, Decoder.feed, Decoder.feedFirst, if_neg hmany, h]
  cases rest with
  | nil =>
    -- Alone, it would be all of the replacement character, which has three bytes.
    have hread := Decoder.foldl_feed_utf8EncodeChar "" char
    rw [← hchar, List.append_nil, hfed, Decoder.mk.injEq] at hread
    have hsame : replacement = char := by
      have hlist := congrArg String.toList hread.1
      rw [String.toList_push, String.toList_push] at hlist
      exact List.singleton_inj.mp (List.append_cancel_left hlist)
    have hlength := congrArg List.length hchar
    rw [← hsame] at hlength
    exact absurd hlength (by decide : 1 ≠ (String.utf8EncodeChar replacement).length)
  | cons next rest =>
    have hbegins : Begins ([byte] ++ [next]) := ⟨char, rest, by rw [← hchar]; rfl⟩
    have hweight := Decoder.weight_of_begins hbegins
    rw [List.foldl_append, Decoder.empty, hfed, List.foldl_cons, List.foldl_nil, Decoder.feed,
      Decoder.weight_feedFirst, String.length_push] at hweight
    exact absurd hweight (by decide)

/-- Whatever begins a character and is not all of it has been read as such. By induction on the
bytes from the back, since each of them has to be allowed by those before it. -/
theorem exists_reading {front : List UInt8} (hsome : front ≠ []) (hbegins : Begins front)
    (hincomplete : ∀ char, String.utf8EncodeChar char ≠ front) :
    ∃ pending, Reading front pending := by
  induction front using List.reverseRecOn with
  | nil => contradiction
  | append_singleton front byte ih =>
    rcases eq_or_ne front [] with rfl | hfront
    · have hmany : ¬ byte < 0x80 := fun hascii => hincomplete _ (utf8EncodeChar_of_lt hascii)
      cases hlead : Pending.ofLead? byte with
      | none => exact absurd hbegins (not_begins_of_ofLead? hmany hlead)
      | some pending => exact ⟨pending, reading_of_ofLead? hlead⟩
    · have hbefore : Begins front := by
        obtain ⟨char, hchar⟩ := hbegins
        exact ⟨char, (List.prefix_append _ _).trans hchar⟩
      have hwhole (char : Char) : String.utf8EncodeChar char ≠ front := by
        rintro rfl
        exact not_begins_append char byte hbegins
      obtain ⟨pending, hreading⟩ := ih hfront hbefore hwhole
      have hallowed := hreading.begins_snoc_iff.mp hbegins
      by_cases hlast : pending.remaining ≤ 1
      · obtain ⟨char, hchar⟩ := hreading.last hallowed hlast
        exact absurd hchar (hincomplete char)
      · exact ⟨_, hreading.next hallowed hlast⟩

/-! ## All bytes -/

theorem push_append_ofList (text : String) (char : Char) (chars : List Char) :
    text.push char ++ String.ofList chars = text ++ String.ofList (char :: chars) := by
  rw [String.ofList_cons, ← String.append_assoc, String.append_singleton]

/-- What cannot go on with a character is read as if the replacement were there. -/
theorem Reading.finish_foldl {front rest : List UInt8} {pending : Pending}
    (h : Reading front pending) (hends : ∀ byte ∈ rest.head?, ¬ Begins (front ++ [byte]))
    (text : String) :
    ((front ++ rest).foldl Decoder.feed ⟨text, none⟩).finish =
      (rest.foldl Decoder.feed ⟨text.push replacement, none⟩).finish := by
  rw [List.foldl_append, h.fed]
  cases rest with
  | nil => rfl
  | cons byte rest =>
    have hnot : ¬ pending.Allows byte := fun hallowed =>
      hends byte rfl (h.begins_snoc_iff.mpr hallowed)
    rw [List.foldl_cons, Decoder.feed_of_not_allows text hnot, List.foldl_cons]

/-- Bytes are read in the way in which they are made of characters. -/
theorem Lossy.finish_foldl {bytes : List UInt8} {chars : List Char} (h : Lossy bytes chars)
    (text : String) :
    (bytes.foldl Decoder.feed ⟨text, none⟩).finish = text ++ String.ofList chars := by
  induction h generalizing text with
  | nil => rw [String.ofList_nil, String.append_empty]; rfl
  | char char h ih =>
    rw [List.foldl_append, Decoder.foldl_feed_utf8EncodeChar, ih, push_append_ofList]
  | broken nonempty begins incomplete ends h ih =>
    obtain ⟨pending, hreading⟩ := exists_reading nonempty begins incomplete
    rw [hreading.finish_foldl ends, ih, push_append_ofList]
  | stray alone h ih =>
    rw [List.foldl_cons, feed_of_not_begins text alone, ih, push_append_ofList]

/-- A stretch that begins a character goes on to the end of it, or as far as it can. -/
theorem Reading.exists_stretch {front : List UInt8} {pending : Pending}
    (h : Reading front pending) (rest : List UInt8) :
    ∃ more after, rest = more ++ after ∧
      ((∃ char, String.utf8EncodeChar char = front ++ more) ∨
        (∃ pending, Reading (front ++ more) pending) ∧
          ∀ byte ∈ after.head?, ¬ Begins (front ++ more ++ [byte])) := by
  induction rest generalizing front pending with
  | nil => exact ⟨[], [], rfl, Or.inr ⟨⟨pending, by rwa [List.append_nil]⟩, nofun⟩⟩
  | cons byte rest ih =>
    by_cases hallowed : pending.Allows byte
    · by_cases hlast : pending.remaining ≤ 1
      · exact ⟨[byte], rest, rfl, Or.inl (h.last hallowed hlast)⟩
      · obtain ⟨more, after, rfl, hstretch⟩ := ih (h.next hallowed hlast)
        rw [List.append_assoc, List.singleton_append] at hstretch
        exact ⟨byte :: more, after, rfl, hstretch⟩
    · refine ⟨[], byte :: rest, rfl, Or.inr ⟨⟨pending, by rwa [List.append_nil]⟩, ?_⟩⟩
      rintro other hother
      rw [List.head?_cons, Option.mem_some_iff] at hother
      rw [List.append_nil, ← hother]
      exact fun hbegins => hallowed (h.begins_snoc_iff.mp hbegins)

/-- By induction on how many bytes are left. -/
theorem exists_lossy (bytes : List UInt8) : ∃ chars, Lossy bytes chars := by
  induction hlength : bytes.length using Nat.strong_induction_on generalizing bytes with
  | _ length ih =>
    cases bytes with
    | nil => exact ⟨[], .nil⟩
    | cons byte rest =>
      have hrest {after : List UInt8} (hafter : after.length ≤ rest.length) :
          ∃ chars, Lossy after chars :=
        ih _ (by rw [← hlength, List.length_cons]; exact Nat.lt_succ_of_le hafter) after rfl
      by_cases hascii : byte < 0x80
      · obtain ⟨chars, hchars⟩ := hrest (Nat.le_refl _)
        have hlossy := Lossy.char (Char.ofNat byte.toNat) hchars
        rw [utf8EncodeChar_of_lt hascii] at hlossy
        exact ⟨_, hlossy⟩
      cases hlead : Pending.ofLead? byte with
      | none =>
        obtain ⟨chars, hchars⟩ := hrest (Nat.le_refl _)
        exact ⟨_, .stray (not_begins_of_ofLead? hascii hlead) hchars⟩
      | some pending =>
        obtain ⟨more, after, rfl, hstretch⟩ := (reading_of_ofLead? hlead).exists_stretch rest
        have hafter : after.length ≤ (more ++ after).length := by
          rw [List.length_append]
          exact Nat.le_add_left _ _
        obtain ⟨chars, hchars⟩ := hrest hafter
        rcases hstretch with ⟨char, hchar⟩ | ⟨⟨pending, hreading⟩, hends⟩
        · have hlossy := Lossy.char char hchars
          rw [hchar] at hlossy
          exact ⟨_, hlossy⟩
        · exact ⟨_, .broken (List.cons_ne_nil byte more) hreading.begins hreading.incomplete hends
            hchars⟩

/-- Bytes are made of characters in one way, which decoding finds. -/
theorem lossy_iff {bytes : List UInt8} {text : String} :
    Lossy bytes text.toList ↔ text = decodeLossy bytes := by
  have hdecode {chars : List Char} (h : Lossy bytes chars) :
      decodeLossy bytes = String.ofList chars := by
    rw [decodeLossy, Decoder.empty, h.finish_foldl, String.empty_append]
  constructor
  · intro h
    rw [hdecode h, String.ofList_toList]
  · rintro rfl
    obtain ⟨chars, hchars⟩ := exists_lossy bytes
    rw [hdecode hchars, String.toList_ofList]
    exact hchars

end HistoryTree.Utf8
