import OxideTerm.Lib.Utf8

/-!
# Escaping binary data

The table of bytes that must not cross a terminal, and the two bytes that each is sent as. The
table comes from the other side as text.
-/

namespace OxideTerm.Trzsz

open OxideTerm.Lib

/-! ## The table -/

/-- A byte, and the two bytes that stand for it. -/
structure EscapeCode where
  value : UInt8
  lead : UInt8
  trail : UInt8
deriving Repr, DecidableEq

/-- The bytes of one entry of the table. -/
def escapeCharToCode (escapeChar : List (List Char)) : Option EscapeCode := do
  let value ← (Text.utf8Bytes (← escapeChar.head?)).head?
  let sent := Text.utf8Bytes (← escapeChar[1]?)
  some { value, lead := ← sent[0]?, trail := ← sent[1]? }

def escapeCharsToCodes (escapeChars : List (List (List Char))) : List EscapeCode :=
  escapeChars.filterMap escapeCharToCode

/-! ## Escaping and reading back -/

/-- What one byte is sent as. -/
def escapeByte (escapeCodes : List EscapeCode) (value : UInt8) : Bytes :=
  match escapeCodes.find? (fun escapeCode => value = escapeCode.value) with
  | some escapeCode => [escapeCode.lead, escapeCode.trail]
  | none => [value]

def escapeData (data : Bytes) (escapeCodes : List EscapeCode) : Bytes :=
  if escapeCodes = [] then data else data.flatMap (escapeByte escapeCodes)

/-- The scan of `unescape_data`, two bytes at a time. -/
def unescapeFrom (escapeCodes : List EscapeCode) : Bytes → Bytes
  | [] => []
  | [value] => [value]
  | value :: next :: rest =>
    match escapeCodes.find? (fun escapeCode =>
        value = escapeCode.lead ∧ next = escapeCode.trail) with
    | some escapeCode => escapeCode.value :: unescapeFrom escapeCodes rest
    | none => value :: unescapeFrom escapeCodes (next :: rest)

def unescapeData (data : Bytes) (escapeCodes : List EscapeCode) : Bytes :=
  if escapeCodes = [] then data else unescapeFrom escapeCodes data

/-! ## A table that shares its first byte -/

section Reading

variable {escapeCodes : List EscapeCode} {lead : UInt8}

/-- What is found for a byte is a code of the table for it. -/
theorem escapeByte_cases (escapeCodes : List EscapeCode) (value : UInt8) :
    (∃ escapeCode ∈ escapeCodes, escapeCode.value = value ∧
      escapeByte escapeCodes value = [escapeCode.lead, escapeCode.trail]) ∨
    ((∀ escapeCode ∈ escapeCodes, escapeCode.value ≠ value) ∧
      escapeByte escapeCodes value = [value]) := by
  rw [escapeByte]
  cases hfind : escapeCodes.find? (fun escapeCode => value = escapeCode.value) with
  | some escapeCode =>
    left
    have hvalue := List.find?_some hfind
    simp only [decide_eq_true_eq] at hvalue
    exact ⟨escapeCode, List.mem_of_find?_eq_some hfind, hvalue.symm, rfl⟩
  | none =>
    right
    refine ⟨?_, rfl⟩
    intro escapeCode hmem hvalue
    have hnone := List.find?_eq_none.mp hfind escapeCode hmem
    simp [hvalue] at hnone

/-- The bytes a code stands for are read back as its byte. -/
theorem unescapeFrom_pair {escapeCode : EscapeCode} (hmem : escapeCode ∈ escapeCodes)
    (hdistinct : ∀ a ∈ escapeCodes, ∀ b ∈ escapeCodes, a.trail = b.trail → a = b)
    (rest : Bytes) :
    unescapeFrom escapeCodes (escapeCode.lead :: escapeCode.trail :: rest) =
      escapeCode.value :: unescapeFrom escapeCodes rest := by
  rw [unescapeFrom]
  cases hfind : escapeCodes.find? (fun other =>
      escapeCode.lead = other.lead ∧ escapeCode.trail = other.trail) with
  | some other =>
    have htrail := List.find?_some hfind
    simp only [decide_eq_true_eq] at htrail
    rw [hdistinct escapeCode hmem other (List.mem_of_find?_eq_some hfind) htrail.2]
  | none =>
    have hnone := List.find?_eq_none.mp hfind escapeCode hmem
    simp at hnone

/-- A byte that begins no pair is read as itself. -/
theorem unescapeFrom_plain {value : UInt8}
    (hplain : ∀ escapeCode ∈ escapeCodes, value ≠ escapeCode.lead) :
    (rest : Bytes) →
      unescapeFrom escapeCodes (value :: rest) = value :: unescapeFrom escapeCodes rest
  | [] => by
    rw [unescapeFrom, unescapeFrom]
  | next :: rest => by
    have hnone : escapeCodes.find? (fun escapeCode =>
        value = escapeCode.lead ∧ next = escapeCode.trail) = none := by
      rw [List.find?_eq_none]
      intro escapeCode hmem
      simp [hplain escapeCode hmem]
    rw [unescapeFrom, hnone]

/-- Data is read back as it was, where every code begins with `lead`, no two end alike and `lead`
is itself escaped. -/
theorem unescapeFrom_escape
    (hlead : ∀ escapeCode ∈ escapeCodes, escapeCode.lead = lead)
    (hescaped : ∃ escapeCode ∈ escapeCodes, escapeCode.value = lead)
    (hdistinct : ∀ a ∈ escapeCodes, ∀ b ∈ escapeCodes, a.trail = b.trail → a = b) :
    (data : Bytes) →
      unescapeFrom escapeCodes (data.flatMap (escapeByte escapeCodes)) = data
  | [] => rfl
  | value :: data => by
    have ih := unescapeFrom_escape hlead hescaped hdistinct data
    rw [List.flatMap_cons]
    rcases escapeByte_cases escapeCodes value with ⟨escapeCode, hmem, hvalue, hbyte⟩ | ⟨hnone, hbyte⟩
    · rw [hbyte, List.cons_append, List.cons_append, List.nil_append,
        unescapeFrom_pair hmem hdistinct, ih, hvalue]
    · -- The byte is sent as it is, so it is not `lead`, which has a code.
      have hplain : ∀ escapeCode ∈ escapeCodes, value ≠ escapeCode.lead := by
        rintro escapeCode hmem rfl
        obtain ⟨own, hown, hvalue⟩ := hescaped
        exact hnone own hown (hvalue.trans (hlead escapeCode hmem).symm)
      rw [hbyte, List.cons_append, List.nil_append, unescapeFrom_plain hplain, ih]

theorem unescapeData_escapeData
    (hlead : ∀ escapeCode ∈ escapeCodes, escapeCode.lead = lead)
    (hescaped : ∃ escapeCode ∈ escapeCodes, escapeCode.value = lead)
    (hdistinct : ∀ a ∈ escapeCodes, ∀ b ∈ escapeCodes, a.trail = b.trail → a = b)
    (data : Bytes) :
    unescapeData (escapeData data escapeCodes) escapeCodes = data := by
  rw [unescapeData, escapeData]
  split
  · rfl
  · exact unescapeFrom_escape hlead hescaped hdistinct data

end Reading

end OxideTerm.Trzsz
