import OxideTerm.Lib.Boundary
import OxideTerm.Lib.Slice

/-!
# Positions in UTF-16 units

Text fields count in UTF-16 units, strings are cut at bytes. The functions that move a caret go from
one to the other and back. A slice inside a character is a panic, here `none`.
-/

namespace OxideTerm.Editor

open Lib Lib.Text

/-- `char::len_utf16`. -/
def lenUtf16 (ch : Char) : Nat := if ch.toNat ≤ 0xFFFF then 1 else 2

/-- `value.encode_utf16().count()`. -/
def utf16Length (value : List Char) : Nat := weight lenUtf16 value

/-- `str::is_char_boundary`. -/
def isCharBoundary : List Char → Nat → Bool
  | _, 0 => true
  | [], _ + 1 => false
  | ch :: rest, n + 1 => ch.utf8Size ≤ n + 1 && isCharBoundary rest (n + 1 - ch.utf8Size)

/-- `str::char_indices`, from a position on. -/
def charIndices : List Char → Nat → List (Nat × Char)
  | [], _ => []
  | ch :: rest, byteIndex => (byteIndex, ch) :: charIndices rest (byteIndex + ch.utf8Size)

/-- A half-open range. -/
structure Range where
  start : Nat
  stop : Nat
deriving DecidableEq, Repr

/-! ## From one unit to another -/

/-- The loop of `byte_index_for_utf16`. -/
def byteIndexForUtf16From (offset : Nat) : List Char → Nat → Nat → Nat
  | [], byteIndex, _ => byteIndex
  | ch :: rest, byteIndex, utf16Count =>
    if offset ≤ utf16Count then byteIndex
    else byteIndexForUtf16From offset rest (byteIndex + ch.utf8Size) (utf16Count + lenUtf16 ch)

/-- `byte_index_for_utf16`. -/
def byteIndexForUtf16 (value : List Char) (offset : Nat) : Nat :=
  byteIndexForUtf16From offset value 0 0

/-- `floor_char_boundary`. -/
def floorCharBoundary (value : List Char) : Nat → Nat
  | 0 => 0
  | n + 1 => if isCharBoundary value (n + 1) then n + 1 else floorCharBoundary value n

/-- `utf16_offset_for_byte_index`. -/
def utf16OffsetForByteIndex (value : List Char) (byteOffset : Nat) : Option Nat :=
  (sliceTo value (floorCharBoundary value (min byteOffset (byteLength value)))).map utf16Length

/-! ## Moves by a character -/

/-- The loop of `previous_utf16_boundary`. -/
def previousUtf16BoundaryFrom (offset : Nat) : List Char → Nat → Nat → Nat
  | [], previous, _ => previous
  | ch :: rest, previous, utf16Count =>
    if offset ≤ utf16Count then previous
    else previousUtf16BoundaryFrom offset rest utf16Count (utf16Count + lenUtf16 ch)

/-- `previous_utf16_boundary`. -/
def previousUtf16Boundary (value : List Char) (offset : Nat) : Nat :=
  previousUtf16BoundaryFrom offset value 0 0

/-- The loop of `next_utf16_boundary`. -/
def nextUtf16BoundaryFrom (offset : Nat) : List Char → Nat → Nat
  | [], utf16Count => utf16Count
  | ch :: rest, utf16Count =>
    if offset ≤ utf16Count then utf16Count + lenUtf16 ch
    else nextUtf16BoundaryFrom offset rest (utf16Count + lenUtf16 ch)

/-- `next_utf16_boundary`. -/
def nextUtf16Boundary (value : List Char) (offset : Nat) : Nat :=
  nextUtf16BoundaryFrom offset value 0

/-! ## Moves by a word -/

/-- The loop of `previous_word_boundary` over the characters before the caret, the last first. -/
def previousWordBoundaryIn (before : List Char) : List (Nat × Char) → Bool → Option Nat
  | [], _ => some 0
  | (byteIndex, ch) :: rest, sawWord =>
    if isWhitespace ch then
      if sawWord then (sliceTo before (byteIndex + ch.utf8Size)).map utf16Length
      else previousWordBoundaryIn before rest sawWord
    else previousWordBoundaryIn before rest true

/-- `previous_word_boundary`. -/
def previousWordBoundary (value : List Char) (offset : Nat) : Option Nat :=
  (sliceTo value (byteIndexForUtf16 value offset)).bind fun before =>
    previousWordBoundaryIn before (charIndices before 0).reverse false

/-- The loop of `next_word_boundary` over the characters behind the caret. -/
def nextWordBoundaryIn (value : List Char) (current : Nat) :
    List (Nat × Char) → Bool → Option Nat
  | [], _ => some (utf16Length value)
  | (relativeByte, ch) :: rest, sawWord =>
    if isWhitespace ch then
      if sawWord then (sliceTo value (current + relativeByte)).map utf16Length
      else nextWordBoundaryIn value current rest sawWord
    else nextWordBoundaryIn value current rest true

/-- `next_word_boundary`. -/
def nextWordBoundary (value : List Char) (offset : Nat) : Option Nat :=
  let current := byteIndexForUtf16 value offset
  (sliceFrom value current).bind fun behind =>
    nextWordBoundaryIn value current (charIndices behind 0) false

/-- `previous_char_start`. -/
def previousCharStart (value : List Char) (byteIndex : Nat) : Option Nat :=
  (sliceTo value byteIndex).map fun front =>
    (((charIndices front 0).getLast?).map Prod.fst).getD 0

/-- `value[byte_index..].chars().next()`. -/
def charAt (value : List Char) (byteIndex : Nat) : Option (Option Char) :=
  (sliceFrom value byteIndex).map List.head?

/-- `.is_some_and(char::is_whitespace)`. -/
def isSomeWhitespace (ch : Option Char) : Bool := ch.any isWhitespace

/-- The first loop of `word_range_for_utf16_offset`. -/
def wordStart (value : List Char) : Nat → Nat → Option Nat
  | 0, _ => none
  | fuel + 1, start =>
    if start = 0 then some start
    else
      (previousCharStart value start).bind fun previous =>
        (charAt value previous).bind fun
          | none => some start
          | some ch => if isWhitespace ch then some start else wordStart value fuel previous

/-- The second loop of `word_range_for_utf16_offset`. -/
def wordEnd (value : List Char) : Nat → Nat → Option Nat
  | 0, _ => none
  | fuel + 1, stop =>
    if stop < byteLength value then
      (charAt value stop).bind fun
        | none => some stop
        | some ch => if isWhitespace ch then some stop else wordEnd value fuel (stop + ch.utf8Size)
    else some stop

/-- At the end of the text `word_range_for_utf16_offset` begins on the last character. -/
def onLastChar (value : List Char) (byteIndex : Nat) : Option Nat :=
  if byteIndex = byteLength value ∧ 0 < byteIndex then previousCharStart value byteIndex
  else some byteIndex

/-- On whitespace it begins on the word before, if there is one. -/
def onWordBefore (value : List Char) (byteIndex : Nat) : Option Nat :=
  (charAt value byteIndex).bind fun ch =>
    if isSomeWhitespace ch = true ∧ 0 < byteIndex then
      (previousCharStart value byteIndex).bind fun previous =>
        (charAt value previous).bind fun before =>
          if isSomeWhitespace before then some byteIndex else some previous
    else some byteIndex

/-- `word_range_for_utf16_offset`; each pass of its loops moves by a byte at least. -/
def wordRangeForUtf16Offset (value : List Char) (offset : Nat) : Option Range :=
  let textLen := utf16Length value
  if textLen = 0 then some ⟨0, 0⟩
  else do
    let byteIndex ← onLastChar value (byteIndexForUtf16 value (min offset textLen))
    let byteIndex ← onWordBefore value byteIndex
    let start ← wordStart value (byteLength value + 1) byteIndex
    let stop ← wordEnd value (byteLength value + 1) byteIndex
    some ⟨← utf16OffsetForByteIndex value start, ← utf16OffsetForByteIndex value stop⟩

/-! ## Moves by a line -/

/-- The loop of `line_ranges_utf16`. -/
def lineRangesFrom : List Char → Nat → Nat → List Range
  | [], start, offset => [⟨start, offset⟩]
  | ch :: rest, start, offset =>
    if ch = '\n' then
      ⟨start, offset⟩ :: lineRangesFrom rest (offset + lenUtf16 ch) (offset + lenUtf16 ch)
    else lineRangesFrom rest start (offset + lenUtf16 ch)

/-- `line_ranges_utf16`. -/
def lineRangesUtf16 (value : List Char) : List Range := lineRangesFrom value 0 0

/-- `line_range_for_utf16_offset`. -/
def lineRangeForUtf16Offset (value : List Char) (offset : Nat) : Range :=
  ((lineRangesUtf16 value).find? fun range => offset ≤ range.stop).getD
    ⟨utf16Length value, utf16Length value⟩

/-- `line_start_for_utf16_offset`. -/
def lineStartForUtf16Offset (value : List Char) (offset : Nat) : Nat :=
  (lineRangeForUtf16Offset value offset).start

/-- `line_end_for_utf16_offset`. -/
def lineEndForUtf16Offset (value : List Char) (offset : Nat) : Nat :=
  (lineRangeForUtf16Offset value offset).stop

/-- `control_k_delete_end`. -/
def controlKDeleteEnd (value : List Char) (offset : Nat) : Nat :=
  let lineEnd := lineEndForUtf16Offset value offset
  if offset < lineEnd then lineEnd else nextUtf16Boundary value offset

/-- A column on a line of the given range, at most its end. -/
def clampColumn (range : Range) (column : Nat) : Nat :=
  range.start + min column (range.stop - range.start)

/-- `vertical_line_navigation_destination`. -/
def verticalLineNavigationDestination (value : List Char) (offset : Nat) (down : Bool) :
    Option Nat :=
  let ranges := lineRangesUtf16 value
  if ranges = [] then some 0
  else
    let lineIndex := (ranges.findIdx? fun range => offset ≤ range.stop).getD (ranges.length - 1)
    ranges[lineIndex]?.bind fun current =>
      let column := offset - current.start
      if down then
        match ranges[lineIndex + 1]? with
        | none => some (utf16Length value)
        | some next => some (clampColumn next column)
      else if lineIndex = 0 then some 0
      else ranges[lineIndex - 1]?.map fun previous => clampColumn previous column

end OxideTerm.Editor
