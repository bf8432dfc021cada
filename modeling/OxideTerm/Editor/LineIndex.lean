import OxideTerm.Editor.Boundaries
import OxideTerm.Editor.Edit

/-!
# The line index

The offsets at which lines start, stored in 32 bits while the document fits, and brought up to date
after edits without a look at the text. An offset that does not fit is a panic, here `none`.
-/

namespace OxideTerm.Editor

open Lib Lib.Text

/-- The offsets in `LineIndex::Compact` or `LineIndex::Wide`. -/
structure LineIndex where
  wide : Bool
  starts : List Nat
deriving DecidableEq, Repr

/-- `u32::try_from(value).is_ok()`. -/
def fitsU32 (value : Nat) : Bool := value < 2 ^ 32

/-- `stored_offset`. -/
def storedOffset (wide : Bool) (value : Nat) : Option Nat :=
  if wide || fitsU32 value then some value else none

/-- The offsets behind the newlines of a text that begins at an offset. -/
def afterNewlines : List Char → Nat → List Nat
  | [], _ => []
  | ch :: rest, index =>
    if ch = '\n' then (index + 1) :: afterNewlines rest (index + ch.utf8Size)
    else afterNewlines rest (index + ch.utf8Size)

/-- `compute_line_starts`; the byte of a newline is in no other character. -/
def computeLineStarts (wide : Bool) (text : List Char) : Option (List Nat) :=
  (0 :: afterNewlines text 0).mapM (storedOffset wide)

namespace LineIndex

/-- `LineIndex::new`. -/
def new (text : List Char) : Option LineIndex :=
  let wide := !fitsU32 (byteLength text)
  (computeLineStarts wide text).map fun starts => { wide, starts }

/-- `apply_line_shift`. -/
def applyLineShift (offset : Nat) (shift : Int) : Nat :=
  if shift < 0 then offset - shift.natAbs else offset + shift.toNat

/-- `push_line_start`. -/
def pushLineStart (wide : Bool) (starts : List Nat) (value : Nat) : Option (List Nat) :=
  if starts.getLast? ≠ some value then
    (storedOffset wide value).map fun value => starts ++ [value]
  else some starts

/-- The pass over the starts up to an edit, which move with the text before it. -/
def shiftLoop (wide : Bool) (bound : Nat) (shift : Int) :
    List Nat → List Nat → Option (List Nat × List Nat)
  | [], middle => some ([], middle)
  | start :: old, middle =>
    if start ≤ bound then
      (pushLineStart wide middle (applyLineShift start shift)).bind fun middle =>
        shiftLoop wide bound shift old middle
    else some (start :: old, middle)

/-- The loop over the edits, with the starts that are left, the shift and the new starts. -/
def updateLoop (wide : Bool) : List TextEdit → List Nat → Int → List Nat → Option (List Nat × Int)
  | [], _, shift, middle => some (middle, shift)
  | edit :: edits, old, shift, middle =>
    (shiftLoop wide edit.range.start shift old middle).bind fun (old, middle) =>
      let base := applyLineShift edit.range.start shift
      ((afterNewlines edit.replacement base).foldlM (pushLineStart wide) middle).bind fun middle =>
        updateLoop wide edits (old.dropWhile fun start => start ≤ edit.range.stop)
          (shift + (edit.replacement |> byteLength : Nat) - edit.range.len) middle

/-- `update_line_starts_after_edits`; the starts are in order. -/
def updateLineStarts (wide : Bool) (starts : List Nat) (edits : List TextEdit) :
    Option (List Nat) :=
  match edits.head?, edits.getLast? with
  | some firstEdit, some lastEdit =>
    let front := starts.takeWhile fun start => start ≤ firstEdit.range.start
    let back := starts.dropWhile fun start => start ≤ lastEdit.range.stop
    let old := (starts.takeWhile fun start => start ≤ lastEdit.range.stop).drop front.length
    (updateLoop wide edits old 0 []).bind fun (middle, shift) =>
      if shift = 0 then some (front ++ (middle ++ back))
      else
        (back.mapM fun start => storedOffset wide (applyLineShift start shift)).map fun back =>
          front ++ (middle ++ back)
  | _, _ => some starts

/-- `LineIndex::update`. -/
def update (index : LineIndex) (edits : List TextEdit) (newLen : Nat) : Option LineIndex :=
  let wide := index.wide || !fitsU32 newLen
  (updateLineStarts wide index.starts edits).map fun starts => { wide, starts }

end LineIndex

end OxideTerm.Editor
