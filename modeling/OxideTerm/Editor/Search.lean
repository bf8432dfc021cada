import OxideTerm.Editor.Chunks
import OxideTerm.Editor.Edit
import OxideTerm.SshConfig.Lines

/-!
# Searching a text

A search goes through the positions of a text one after the other. A buffer searches its pieces
through a window that keeps enough of the text around the positions it has not tried. A slice inside
a character is a panic, here `none`, and so is a loop that does not end.
-/

namespace OxideTerm.Editor

open Lib Lib.Text
open SshConfig (eqIgnoreAsciiCase toAsciiLowercase)

/-- `FindOptions`. -/
structure FindOptions where
  caseSensitive : Bool
  wholeWord : Bool
deriving DecidableEq, Repr

/-- `FindMatch`. -/
structure FindMatch where
  range : TextRange
deriving DecidableEq, Repr

section

-- `char::is_alphanumeric`, a table of the standard library
variable (isAlphanumeric : Char → Bool)

/-- `is_word_char`. -/
def isWordChar (ch : Char) : Bool := ch == '_' || isAlphanumeric ch

/-- `is_whole_word_match`. -/
def isWholeWordMatch (source : List Char) (start stop : Nat) : Option Bool := do
  let before ← sliceTo source start
  let after ← sliceFrom source stop
  some (!(before.getLast?).any (isWordChar isAlphanumeric) &&
    !(after.head?).any (isWordChar isAlphanumeric))

/-- `next_search_offset`. -/
def nextSearchOffset (source : List Char) (start : Nat) : Option Nat :=
  (charAt source start).map fun
    | some ch => start + ch.utf8Size
    | none => byteLength source

/-- The predicate of `next_match` without regard to case. -/
def matchesIgnoringCase (source query : List Char) (start : Nat) : Option Bool :=
  let stop := start + byteLength query
  if stop ≤ byteLength source ∧ isCharBoundary source stop = true then
    (slice source start stop).map fun part => eqIgnoreAsciiCase part query
  else some false

/-- The search of `next_match` without regard to case. -/
def findIgnoringCase (source query : List Char) : List Nat → Option (Option Nat)
  | [] => some none
  | start :: rest =>
    (matchesIgnoringCase source query start).bind fun found =>
      if found then some (some start) else findIgnoringCase source query rest

/-- `next_match`. -/
def nextMatch (source query : List Char) (searchFrom : Nat) (caseSensitive : Bool) :
    Option (Option Nat) :=
  (sliceFrom source searchFrom).bind fun tail =>
    if caseSensitive then some ((find query tail).map (searchFrom + ·))
    else
      findIgnoringCase source query
        ((charIndices tail 0).map fun entry => searchFrom + entry.1)

/-- The condition for `matches.push`. -/
def isAccepted (source : List Char) (options : FindOptions) (start stop : Nat) : Option Bool :=
  if isCharBoundary source start ∧ isCharBoundary source stop then
    if options.wholeWord then isWholeWordMatch isAlphanumeric source start stop else some true
  else some false

/-- The loop of `append_window_matches`; each pass moves on by a byte at least. -/
def appendWindowMatchesFrom (source query : List Char) (options : FindOptions)
    (base stop : Nat) : Nat → Nat → List FindMatch → Option (List FindMatch)
  | 0, _, _ => none
  | fuel + 1, searchFrom, found =>
    (nextMatch source query searchFrom options.caseSensitive).bind fun
      | none => some found
      | some relative =>
        if stop ≤ base + relative then some found
        else
          let matchEnd := relative + byteLength query
          (isAccepted isAlphanumeric source options relative matchEnd).bind fun accepted =>
            let found :=
              if accepted then found ++ [⟨TextRange.new (base + relative) (base + matchEnd)⟩]
              else found
            (nextSearchOffset source relative).bind fun searchFrom =>
              if byteLength source ≤ searchFrom then some found
              else appendWindowMatchesFrom source query options base stop fuel searchFrom found

/-- `append_window_matches`. -/
def appendWindowMatches (source query : List Char) (options : FindOptions)
    (base start stop : Nat) (found : List FindMatch) : Option (List FindMatch) :=
  (checkedSub start base).bind fun searchFrom =>
    appendWindowMatchesFrom isAlphanumeric source query options base stop
      (byteLength source + 1) searchFrom found

/-- `find_all`. -/
def findAll (source query : List Char) (options : FindOptions) : Option (List FindMatch) :=
  if query = [] then some []
  else appendWindowMatches isAlphanumeric source query options 0 0 (byteLength source) []

/-- `replace_all_transaction`. -/
def replaceAllTransaction (source query replacement : List Char) (options : FindOptions) :
    Option EditTransaction :=
  (findAll isAlphanumeric source query options).map fun hits =>
    ⟨hits.map fun hit => ⟨hit.range, replacement⟩⟩

/-! ## Through pieces -/

/-- `CHUNK_BYTES`. -/
def chunkBytes : Nat := 64 * 1024

/-- What `TextBuffer::find_all` keeps: the window of the text, where it starts, up to where positions
have been tried, and what has been found. -/
structure Search where
  window : List Char
  base : Nat
  scanned : Nat
  found : List FindMatch
deriving DecidableEq, Repr

/-- What `TextBuffer::find_all` does with a part of a piece. -/
def Search.feed (query : List Char) (options : FindOptions) (state : Search)
    (part : List Char) : Option Search :=
  let window := state.window ++ part
  -- the longest candidate and one more character stay ahead of the limit
  let limit := floorCharBoundary window (byteLength window - (byteLength query + 4))
  if state.base + limit ≤ state.scanned then some { state with window }
  else
    (appendWindowMatches isAlphanumeric window query options state.base state.scanned
      (state.base + limit) state.found).bind fun found =>
      let discard := floorCharBoundary window (limit - 4)
      (sliceFrom window discard).map fun rest =>
        { window := rest, base := state.base + discard, scanned := state.base + limit, found }

/-- The inner loop of `TextBuffer::find_all`; each pass takes a character at least. -/
def Search.feedPiece (query : List Char) (options : FindOptions) :
    Nat → Search → List Char → Option Search
  | 0, _, _ => none
  | fuel + 1, state, remaining =>
    if remaining = [] then some state
    else
      let stop := floorCharBoundary remaining (min (byteLength remaining) chunkBytes)
      (sliceTo remaining stop).bind fun part =>
        (sliceFrom remaining stop).bind fun rest =>
          (state.feed isAlphanumeric query options part).bind fun state =>
            Search.feedPiece query options fuel state rest

/-- The outer loop of `TextBuffer::find_all`. -/
def Search.feedPieces (query : List Char) (options : FindOptions) :
    Search → List (List Char) → Option Search
  | state, [] => some state
  | state, piece :: pieces =>
    (Search.feedPiece isAlphanumeric query options (piece.length + 1) state piece).bind
      fun state => Search.feedPieces query options state pieces

/-- `TextBuffer::find_all`. -/
def findAllInPieces (pieces : List (List Char)) (query : List Char) (options : FindOptions) :
    Option (List FindMatch) :=
  if query = [] then some []
  else
    (Search.feedPieces isAlphanumeric query options ⟨[], 0, 0, []⟩ pieces).bind fun state =>
      appendWindowMatches isAlphanumeric state.window query options state.base state.scanned
        (chunksLength pieces) state.found

end

end OxideTerm.Editor
