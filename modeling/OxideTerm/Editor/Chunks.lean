import OxideTerm.Editor.Boundaries

/-!
# Reads of a text in pieces

A text buffer hands out its text in pieces that are cut between characters. These are its reads that
count through the pieces. What would be a panic is `none`.
-/

namespace OxideTerm.Editor

open Lib Lib.Text

/-- A subtraction that does not wrap. -/
def checkedSub (a b : Nat) : Option Nat := if b ≤ a then some (a - b) else none

/-- `str::is_ascii`. -/
def isAscii (chunk : List Char) : Bool := chunk.all fun ch => ch.toNat < 128

/-- `self.len()`, over the pieces. -/
def chunksLength (chunks : List (List Char)) : Nat := byteLength chunks.flatten

/-! ## From bytes to UTF-16 units -/

/-- The loop of `utf16_offset`. -/
def utf16OffsetFrom : List (List Char) → Nat → Nat → Option Nat
  | [], _, units => some units
  | chunk :: chunks, remaining, units =>
    let stop := floorCharBoundary chunk (min remaining (byteLength chunk))
    (sliceTo chunk stop).bind fun front =>
      if remaining ≤ byteLength chunk then some (units + utf16Length front)
      else utf16OffsetFrom chunks (remaining - byteLength chunk) (units + utf16Length front)

/-- `utf16_offset`. -/
def utf16Offset (chunks : List (List Char)) (byte : Nat) : Option Nat :=
  utf16OffsetFrom chunks (min byte (chunksLength chunks)) 0

/-! ## From UTF-16 units to bytes -/

/-- Where a pass over a piece ends: with the result, or with the units it has counted. -/
inductive Scan where
  | found (byte : Nat)
  | passed (units : Nat)
deriving DecidableEq, Repr

/-- The loop of `byte_offset_for_utf16` over the characters of a piece. -/
def byteOffsetInChunk (offset base : Nat) : List (Nat × Char) → Nat → Scan
  | [], units => .passed units
  | (byte, ch) :: rest, units =>
    let next := units + lenUtf16 ch
    if offset < next then .found (base + byte)
    else if next = offset then .found (base + byte + ch.utf8Size)
    else byteOffsetInChunk offset base rest next

/-- The loop of `byte_offset_for_utf16`. -/
def byteOffsetForUtf16From (len offset : Nat) : List (List Char) → Nat → Nat → Option Nat
  | [], _, _ => some len
  | chunk :: chunks, units, base =>
    if isAscii chunk then
      (checkedSub offset units).bind fun ahead =>
        if ahead ≤ byteLength chunk then checkedSub (base + offset) units
        else
          byteOffsetForUtf16From len offset chunks (units + byteLength chunk)
            (base + byteLength chunk)
    else
      match byteOffsetInChunk offset base (charIndices chunk 0) units with
      | .found byte => some byte
      | .passed units => byteOffsetForUtf16From len offset chunks units (base + byteLength chunk)

/-- `byte_offset_for_utf16`. -/
def byteOffsetForUtf16 (chunks : List (List Char)) (offset : Nat) : Option Nat :=
  byteOffsetForUtf16From (chunksLength chunks) offset chunks 0 0

end OxideTerm.Editor
