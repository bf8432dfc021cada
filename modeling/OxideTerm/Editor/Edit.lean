import Mathlib.Data.List.Basic

/-!
# Edits of a text

Offsets count bytes. An edit replaces a range, and a transaction is a list of edits.
-/

namespace OxideTerm.Editor

/-- A half-open range of bytes. -/
structure TextRange where
  start : Nat
  stop : Nat
deriving DecidableEq, Repr

/-- `TextRange::new`: the ends in their order. -/
def TextRange.new (start stop : Nat) : TextRange :=
  if start ≤ stop then ⟨start, stop⟩ else ⟨stop, start⟩

theorem TextRange.new_of_le {start stop : Nat} (h : start ≤ stop) :
    TextRange.new start stop = ⟨start, stop⟩ := if_pos h

/-- `TextRange::len`. -/
def TextRange.len (range : TextRange) : Nat := range.stop - range.start

/-- A replacement of one range. -/
structure TextEdit where
  range : TextRange
  replacement : List Char
deriving DecidableEq, Repr

/-- A logical editing action. -/
structure EditTransaction where
  edits : List TextEdit
deriving DecidableEq, Repr

/-- The errors of transactions. -/
inductive EditorError where
  | offsetOutOfBounds (offset len : Nat)
  | invalidUtf8Boundary (offset : Nat)
  | invalidRange (start stop : Nat)
  | overlappingEdits (offset : Nat)
  | editDeltaOverflow
deriving DecidableEq, Repr

end OxideTerm.Editor
