import OxideTerm.Trzsz.Escape

/-!
# What a table of characters means

Each character of the table stands for the byte of its value. The table is read as UTF-8 instead,
in which a character from U+0080 on takes two bytes, so that only some tables are read as they are
meant.
-/

namespace OxideTerm.Trzsz

open OxideTerm.Lib

/-! ## Tables -/

/-- The byte of a character's value. -/
def valueByte (c : Char) : UInt8 := UInt8.ofNat c.toNat

/-- A table of the protocol: characters below U+0100, each sent as the shared lead and a character
of its own, where the lead is sent so too. -/
structure EscapeTable where
  lead : Char
  entries : List (Char × Char)
  lead_lt : lead.toNat < 0x100
  entries_lt : ∀ entry ∈ entries, entry.1.toNat < 0x100 ∧ entry.2.toNat < 0x100
  nodup_from : (entries.map Prod.fst).Nodup
  nodup_to : (entries.map Prod.snd).Nodup
  lead_mem : lead ∈ entries.map Prod.fst

namespace EscapeTable

/-- The configuration that carries the table. -/
def escapeChars (table : EscapeTable) : List (List (List Char)) :=
  table.entries.map fun entry => [[entry.1], [table.lead, entry.2]]

/-- The code that an entry means. -/
def meant (table : EscapeTable) (entry : Char × Char) : EscapeCode :=
  { value := valueByte entry.1, lead := valueByte table.lead, trail := valueByte entry.2 }

/-- The bytes that are escaped. -/
def escaped (table : EscapeTable) : List UInt8 := table.entries.map (valueByte ·.1)

/-- The bytes that come after the lead. -/
def trails (table : EscapeTable) : List UInt8 := table.entries.map (valueByte ·.2)

/-- Data in which an escaped byte is the lead of a pair or the byte after it. -/
inductive Clean (table : EscapeTable) : Bytes → Prop
  | nil : Clean table []
  | plain {value : UInt8} {rest : Bytes} :
    value ∉ table.escaped → Clean table rest → Clean table (value :: rest)
  | pair {trail : UInt8} {rest : Bytes} :
    trail ∈ table.trails → Clean table rest → Clean table (valueByte table.lead :: trail :: rest)

/-- What the protocol needs of a table that has been read. -/
structure RoundTrips (table : EscapeTable) : Prop where
  codes : escapeCharsToCodes table.escapeChars = table.entries.map table.meant
  clean : ∀ data, table.Clean (escapeData data (escapeCharsToCodes table.escapeChars))
  inverse : ∀ data,
    unescapeData (escapeData data (escapeCharsToCodes table.escapeChars))
      (escapeCharsToCodes table.escapeChars) = data

/-- ASCII, or U+00C3, whose first byte in UTF-8 is its value as well. -/
def ReadAsByte (c : Char) : Prop := c.toNat < 0x80 ∨ c.toNat = 0xc3

/-- A lead of one byte before a character so read, or U+00C3, which in UTF-8 is the bytes C3 83. -/
def ReadAsBytes (lead trail : Char) : Prop :=
  lead.toNat < 0x80 ∧ ReadAsByte trail ∨ lead.toNat = 0xc3 ∧ trail.toNat = 0x83

/-- Every entry is read as the bytes it stands for. -/
def ReadAsMeant (table : EscapeTable) : Prop :=
  ∀ entry ∈ table.entries, ReadAsByte entry.1 ∧ ReadAsBytes table.lead entry.2

/-! ## Characters below U+0100 in UTF-8 -/

theorem valueByte_inj {c d : Char} (hc : c.toNat < 0x100) (hd : d.toNat < 0x100)
    (h : valueByte c = valueByte d) : c = d := by
  have hvalue := congrArg UInt8.toNat h
  simp only [valueByte, UInt8.toNat_ofNat'] at hvalue
  apply Char.toNat_inj.mp
  omega

theorem utf8EncodeChar_ofNat : ∀ n < 0x100, String.utf8EncodeChar (Char.ofNat n) =
    if n < 0x80 then [UInt8.ofNat n]
    else [UInt8.ofNat (0xc0 + n / 0x40), UInt8.ofNat (0x80 + n % 0x40)] := by
  decide +kernel

theorem utf8EncodeChar_of_lt {c : Char} (h : c.toNat < 0x100) : String.utf8EncodeChar c =
    if c.toNat < 0x80 then [valueByte c]
    else [UInt8.ofNat (0xc0 + c.toNat / 0x40), UInt8.ofNat (0x80 + c.toNat % 0x40)] := by
  have hencode := utf8EncodeChar_ofNat c.toNat h
  rwa [Char.ofNat_toNat] at hencode

theorem byte_eq_iff {a b : Nat} (ha : a < 0x100) (hb : b < 0x100) :
    UInt8.ofNat a = UInt8.ofNat b ↔ a = b := by
  constructor
  · intro h
    have hvalue := congrArg UInt8.toNat h
    simp only [UInt8.toNat_ofNat'] at hvalue
    omega
  · rintro rfl
    rfl

theorem head_utf8_iff {c : Char} (h : c.toNat < 0x100) :
    (String.utf8EncodeChar c).head? = some (valueByte c) ↔ ReadAsByte c := by
  rw [utf8EncodeChar_of_lt h, ReadAsByte]
  split
  next hascii => simp [hascii]
  next hwide =>
    rw [List.head?_cons, Option.some_inj, valueByte, byte_eq_iff (by omega) h]
    omega

theorem pair_utf8_iff {lead trail : Char} (hlead : lead.toNat < 0x100)
    (htrail : trail.toNat < 0x100) :
    ((String.utf8EncodeChar lead ++ String.utf8EncodeChar trail)[0]? = some (valueByte lead) ∧
      (String.utf8EncodeChar lead ++ String.utf8EncodeChar trail)[1]? = some (valueByte trail)) ↔
    ReadAsBytes lead trail := by
  rw [ReadAsBytes, ← head_utf8_iff htrail, utf8EncodeChar_of_lt hlead]
  split
  next hascii =>
    rw [List.head?_eq_getElem?]
    simp [hascii]
    omega
  next hwide =>
    have hfirst : UInt8.ofNat (0xc0 + lead.toNat / 0x40) = valueByte lead ↔ lead.toNat = 0xc3 := by
      rw [valueByte, byte_eq_iff (by omega) hlead]
      omega
    have hsecond : UInt8.ofNat (0x80 + lead.toNat % 0x40) = valueByte trail ↔
        0x80 + lead.toNat % 0x40 = trail.toNat := by
      rw [valueByte, byte_eq_iff (by omega) htrail]
    show (some _ = some _ ∧ some _ = some _) ↔ _
    rw [Option.some_inj, Option.some_inj, hfirst, hsecond]
    omega

theorem escapeCharToCode_iff {c lead trail : Char} (hc : c.toNat < 0x100)
    (hlead : lead.toNat < 0x100) (htrail : trail.toNat < 0x100) :
    escapeCharToCode [[c], [lead, trail]] =
        some { value := valueByte c, lead := valueByte lead, trail := valueByte trail } ↔
      ReadAsByte c ∧ ReadAsBytes lead trail := by
  rw [← head_utf8_iff hc, ← pair_utf8_iff hlead htrail, escapeCharToCode]
  simp [Text.utf8Bytes, Option.bind_eq_some_iff]

/-- Every entry is read as some code. -/
theorem escapeCharToCode_isSome (c lead trail : Char) :
    ∃ escapeCode, escapeCharToCode [[c], [lead, trail]] = some escapeCode := by
  obtain ⟨value, rest, hvalue⟩ := List.exists_cons_of_ne_nil (@String.utf8EncodeChar_ne_nil c)
  obtain ⟨first, after, hfirst⟩ := List.exists_cons_of_ne_nil (@String.utf8EncodeChar_ne_nil lead)
  obtain ⟨last, others, hlast⟩ := List.exists_cons_of_ne_nil (@String.utf8EncodeChar_ne_nil trail)
  obtain ⟨second, hsecond⟩ : ∃ second, (first :: after ++ last :: others)[1]? = some second := by
    cases after with
    | nil => exact ⟨last, rfl⟩
    | cons second after => exact ⟨second, rfl⟩
  refine ⟨{ value, lead := first, trail := second }, ?_⟩
  rw [escapeCharToCode]
  simp [Text.utf8Bytes, hvalue, hfirst, hlast] at hsecond ⊢
  exact hsecond

/-! ## The table as it is read -/

theorem filterMap_eq_map_iff {α β : Type} {f : α → Option β} {g : α → β} :
    (l : List α) → (∀ a ∈ l, ∃ b, f a = some b) →
      (l.filterMap f = l.map g ↔ ∀ a ∈ l, f a = some (g a))
  | [], _ => by
    simp
  | a :: l, hsome => by
    have ih := @filterMap_eq_map_iff α β f g l fun b hb => hsome b (List.mem_cons_of_mem a hb)
    obtain ⟨b, hb⟩ := hsome a List.mem_cons_self
    rw [List.filterMap_cons_some hb, List.map_cons, List.cons.injEq, ih, List.forall_mem_cons, hb,
      Option.some_inj]

variable (table : EscapeTable)

/-- The table is read as the bytes it means just where every entry is. -/
theorem codes_iff :
    escapeCharsToCodes table.escapeChars = table.entries.map table.meant ↔ table.ReadAsMeant := by
  rw [escapeCharsToCodes, escapeChars, List.filterMap_map, filterMap_eq_map_iff]
  · apply forall₂_congr
    intro entry hentry
    obtain ⟨hfrom, hto⟩ := table.entries_lt entry hentry
    exact escapeCharToCode_iff hfrom table.lead_lt hto
  · rintro entry -
    exact escapeCharToCode_isSome entry.1 table.lead entry.2

/-- What is sent is clean once the codes are those that are meant. -/
theorem clean_escape : (data : Bytes) →
    table.Clean (data.flatMap (escapeByte (table.entries.map table.meant)))
  | [] => Clean.nil
  | value :: data => by
    have ih := clean_escape data
    rw [List.flatMap_cons]
    rcases escapeByte_cases (table.entries.map table.meant) value with
      ⟨escapeCode, hmem, -, hbyte⟩ | ⟨hnone, hbyte⟩
    · obtain ⟨entry, hentry, rfl⟩ := List.mem_map.mp hmem
      rw [hbyte]
      exact Clean.pair (List.mem_map_of_mem hentry) ih
    · rw [hbyte]
      refine Clean.plain ?_ ih
      intro hescaped
      obtain ⟨entry, hentry, hvalue⟩ := List.mem_map.mp hescaped
      exact hnone _ (List.mem_map_of_mem hentry) hvalue

/-- The codes that are meant end in different bytes. -/
theorem trail_inj : ∀ a ∈ table.entries.map table.meant, ∀ b ∈ table.entries.map table.meant,
    a.trail = b.trail → a = b := by
  intro a ha b hb htrail
  obtain ⟨entry, hentry, rfl⟩ := List.mem_map.mp ha
  obtain ⟨other, hother, rfl⟩ := List.mem_map.mp hb
  have hto := valueByte_inj (table.entries_lt entry hentry).2 (table.entries_lt other hother).2 htrail
  rw [List.inj_on_of_nodup_map table.nodup_to hentry hother hto]

/-- **A table of the protocol is read as the bytes it means, keeps them off the line and is undone
on the other side, just where each of its characters is a single byte of UTF-8 or falls on the two
bytes of U+00C3.** -/
theorem roundTrips_iff : table.RoundTrips ↔ table.ReadAsMeant := by
  constructor
  · intro h
    exact table.codes_iff.mp h.codes
  · intro h
    have hcodes := table.codes_iff.mpr h
    refine ⟨hcodes, ?_, ?_⟩
    · intro data
      rw [hcodes, escapeData]
      split
      next hempty =>
        -- The lead has an entry, so the table is not empty.
        obtain ⟨entry, hentry, -⟩ := List.mem_map.mp table.lead_mem
        rw [List.map_eq_nil_iff] at hempty
        simp [hempty] at hentry
      next => exact table.clean_escape data
    · intro data
      rw [hcodes]
      refine @unescapeData_escapeData _ (valueByte table.lead) ?_ ?_ table.trail_inj data
      · intro escapeCode hmem
        obtain ⟨entry, -, rfl⟩ := List.mem_map.mp hmem
        rfl
      · obtain ⟨entry, hentry, hlead⟩ := List.mem_map.mp table.lead_mem
        exact ⟨table.meant entry, List.mem_map_of_mem hentry, congrArg valueByte hlead⟩

/-- The table that trzsz sends. -/
def trzsz : EscapeTable where
  lead := Char.ofNat 0xee
  entries := [(Char.ofNat 0xee, Char.ofNat 0xee), ('~', '1')]
  lead_lt := by decide
  entries_lt := by decide
  nodup_from := by decide
  nodup_to := by decide
  lead_mem := by decide

/-- The two codes of the table of trzsz end alike, so that a tilde is read back as another byte. -/
theorem trzsz_not_roundTrips :
    unescapeData (escapeData [0x7e] (escapeCharsToCodes trzsz.escapeChars))
      (escapeCharsToCodes trzsz.escapeChars) = [0xc3] ∧ ¬ trzsz.RoundTrips := by
  have hread : unescapeData (escapeData [0x7e] (escapeCharsToCodes trzsz.escapeChars))
      (escapeCharsToCodes trzsz.escapeChars) = [0xc3] := by
    decide +kernel
  refine ⟨hread, ?_⟩
  intro h
  have hinverse := h.inverse [0x7e]
  rw [hread] at hinverse
  simp at hinverse

end EscapeTable

end OxideTerm.Trzsz
