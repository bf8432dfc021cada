import OxideTerm.Editor.Boundaries
import OxideTerm.Editor.Edit

/-!
# The piece table

The text of a document is a list of pieces of two buffers: the original text, which does not change,
and a buffer that inserted text is appended to. A slice that cuts a character is a panic, here
`none`.
-/

namespace OxideTerm.Editor

open Lib Lib.Text

inductive PieceSource where
  | original
  | add
deriving DecidableEq, Repr

/-- `len` bytes of a buffer, from `start` on. -/
structure Piece where
  source : PieceSource
  start : Nat
  len : Nat
deriving DecidableEq, Repr

/-- `Piece::new`. -/
def Piece.new (source : PieceSource) (start len : Nat) : Option Piece :=
  if 0 < len then some { source, start, len } else none

/-- `Piece::slice`. -/
def Piece.slice (piece : Piece) (offset len : Nat) : Option Piece :=
  Piece.new piece.source (piece.start + offset) len

/-- `Piece::end`. -/
def Piece.stop (piece : Piece) : Nat := piece.start + piece.len

/-- `PieceTableTextBuffer`. -/
structure PieceTable where
  original : List Char
  add : List Char
  pieces : List Piece
  len : Nat
deriving DecidableEq, Repr

namespace PieceTable

variable (table : PieceTable)

/-- `new`. -/
def new (original : List Char) : PieceTable where
  original
  add := []
  pieces := (Piece.new .original 0 (byteLength original)).toList
  len := byteLength original

/-! ## Reads -/

/-- `source_text`. -/
def sourceText : PieceSource → List Char
  | .original => table.original
  | .add => table.add

/-- The text of a piece. -/
def pieceText (piece : Piece) : Option (List Char) :=
  Text.slice (table.sourceText piece.source) piece.start piece.stop

/-- `chunks`. -/
def chunks : Option (List (List Char)) := table.pieces.mapM table.pieceText

/-- `to_text`. -/
def toText : Option (List Char) := table.chunks.map List.flatten

/-- The loop of `slice_to_string`. -/
def sliceLoop (range : TextRange) : List Piece → Nat → List Char → Option (List Char)
  | [], _, text => some text
  | piece :: pieces, pieceStart, text =>
    let pieceEnd := pieceStart + piece.len
    if pieceEnd ≤ range.start then sliceLoop range pieces pieceEnd text
    else if range.stop ≤ pieceStart then some text
    else
      let localStart := max range.start pieceStart - pieceStart
      let localEnd := min range.stop pieceEnd - pieceStart
      (Text.slice (table.sourceText piece.source) (piece.start + localStart)
        (piece.start + localEnd)).bind fun part => sliceLoop range pieces pieceEnd (text ++ part)

/-- `slice_to_string`. -/
def sliceToString (range : TextRange) : Option (List Char) :=
  if range.stop ≤ range.start then some [] else table.sliceLoop range table.pieces 0 []

/-- The loop of `is_char_boundary`. -/
def isCharBoundaryLoop (offset : Nat) : List Piece → Nat → Bool
  | [], _ => false
  | piece :: pieces, pieceStart =>
    let pieceEnd := pieceStart + piece.len
    if offset < pieceStart then false
    else if offset = pieceStart ∨ offset = pieceEnd then true
    else if offset < pieceEnd then
      isCharBoundary (table.sourceText piece.source) (piece.start + (offset - pieceStart))
    else isCharBoundaryLoop offset pieces pieceEnd

/-- `is_char_boundary`. -/
def isCharBoundary (offset : Nat) : Bool :=
  if table.len < offset then false
  else if offset = table.len then true
  else table.isCharBoundaryLoop offset table.pieces 0

/-! ## Changes -/

/-- `push_piece`: a piece that continues the last one is merged with it. -/
def pushPiece (pieces : List Piece) (piece : Piece) : List Piece :=
  match pieces.getLast? with
  | none => pieces ++ [piece]
  | some previous =>
    if previous.source = piece.source ∧ previous.stop = piece.start then
      pieces.dropLast ++ [{ previous with len := previous.len + piece.len }]
    else pieces ++ [piece]

/-- `if let Some(piece) = piece { push_piece(&mut next, piece) }`. -/
def pushOption (pieces : List Piece) (piece : Option Piece) : List Piece :=
  match piece with
  | none => pieces
  | some piece => pushPiece pieces piece

/-- The loop of `replace`, with the position, whether the replacement was inserted, and the pieces so
far. -/
def replaceLoop (range : TextRange) (replacement : Option Piece) :
    List Piece → Nat → Bool → List Piece → Bool × List Piece
  | [], _, inserted, next => (inserted, next)
  | piece :: pieces, pieceStart, inserted, next =>
    let pieceEnd := pieceStart + piece.len
    if pieceEnd ≤ range.start then
      replaceLoop range replacement pieces pieceEnd inserted (pushPiece next piece)
    else if range.stop ≤ pieceStart then
      let next := if inserted then next else pushOption next replacement
      replaceLoop range replacement pieces pieceEnd true (pushPiece next piece)
    else
      let next :=
        if inserted then next
        else
          let next :=
            if pieceStart < range.start then
              pushOption next (piece.slice 0 (range.start - pieceStart))
            else next
          pushOption next replacement
      let next :=
        if range.stop < pieceEnd then
          pushOption next (piece.slice (range.stop - pieceStart) (pieceEnd - range.stop))
        else next
      replaceLoop range replacement pieces pieceEnd true next

/-- `replace`; the new text is appended to the second buffer. -/
def replace (range : TextRange) (replacement : List Char) : PieceTable :=
  let replacementPiece := Piece.new .add (byteLength table.add) (byteLength replacement)
  let (inserted, next) := replaceLoop range replacementPiece table.pieces 0 false []
  { original := table.original
    add := table.add ++ replacement
    pieces := if inserted then next else pushOption next replacementPiece
    len := table.len - (range.stop - range.start) + byteLength replacement }

/-! ## Reclaiming unused text -/

/-- The bytes of a buffer that pieces use. -/
def live (source : PieceSource) : Nat :=
  ((table.pieces.filter fun piece => piece.source = source).map Piece.len).sum

/-- The loop that copies what pieces use of a buffer, with what has been copied. -/
def compactLoop (source : PieceSource) : List Piece → List Char → Option (List Piece × List Char)
  | [], compact => some ([], compact)
  | piece :: pieces, compact =>
    if piece.source = source then
      (table.pieceText piece).bind fun part =>
        (compactLoop source pieces (compact ++ part)).map fun (pieces, whole) =>
          ({ piece with start := byteLength compact } :: pieces, whole)
    else (compactLoop source pieces compact).map fun (pieces, whole) => (piece :: pieces, whole)

/-- The first half of `reclaim_unused_text`; a shared original is not copied. -/
def reclaimOriginal (shared : Bool) : Option PieceTable :=
  let originalLive := table.live .original
  if originalLive = 0 then some { table with original := [] }
  else if !shared && originalLive < byteLength table.original - originalLive then
    (table.compactLoop .original table.pieces []).map fun (pieces, original) =>
      { table with pieces, original }
  else some table

/-- The end of what pieces use of the second buffer. -/
def addEnd : Nat :=
  ((table.pieces.filter fun piece => piece.source = .add).map Piece.stop).foldr max 0

/-- The second half of `reclaim_unused_text`. -/
def reclaimAdd : Option PieceTable :=
  let live := table.live .add
  if live = 0 then some { table with add := [] }
  else if live < byteLength table.add - live then
    (table.compactLoop .add table.pieces []).map fun (pieces, add) => { table with pieces, add }
  else if table.addEnd < byteLength table.add then
    (sliceTo table.add table.addEnd).map fun add => { table with add }
  else some table

/-- `reclaim_unused_text`; whether the original is shared is not up to the table. -/
def reclaimUnusedText (shared : Bool) : Option PieceTable :=
  (table.reclaimOriginal shared).bind reclaimAdd

end PieceTable

end OxideTerm.Editor
