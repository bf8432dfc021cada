import OxideTerm.Lib.CommonSubsequence

/-!
# Comparing texts

The comparison of two texts line by line, for previews. What both begin and end with is cut off, and
a table of longest common subsequences is filled for what is between. Where the table would be too
large, everything between is removed and added.
-/

namespace OxideTerm.Sftp

open OxideTerm.Lib

def maxLcsCells : Nat := 4000000

inductive TextDiffLineKind where
  | unchanged
  | added
  | removed
deriving DecidableEq

structure TextDiffLine where
  kind : TextDiffLineKind
  content : String
  leftLineNum : Option Nat
  rightLineNum : Option Nat
deriving DecidableEq

namespace TextDiff

def unchanged (content : String) (left right : Nat) : TextDiffLine :=
  { kind := .unchanged, content, leftLineNum := some left, rightLineNum := some right }

def added (content : String) (right : Nat) : TextDiffLine :=
  { kind := .added, content, leftLineNum := none, rightLineNum := some right }

def removed (content : String) (left : Nat) : TextDiffLine :=
  { kind := .removed, content, leftLineNum := some left, rightLineNum := none }

/-- The lines of a text; one that is empty has one line. -/
def textLines (text : String) : List String := (text.toList.splitOn '\n').map String.ofList

/-! ## What both texts have -/

def leadingEqual (left right : List String) : Nat := sharedPrefix left right

def trailingEqual (left right : List String) : Nat :=
  sharedPrefix (left.drop (leadingEqual left right)).reverse
    (right.drop (leadingEqual left right)).reverse

def leftMiddle (left right : List String) : List String :=
  (left.take (left.length - trailingEqual left right)).drop (leadingEqual left right)

def rightMiddle (left right : List String) : List String :=
  (right.take (right.length - trailingEqual left right)).drop (leadingEqual left right)

def rowWidth (right : List String) : Nat := right.length + 1

def cellCount (left right : List String) : Nat := (left.length + 1) * rowWidth right

/-! ## The table -/

def cell (right : List String) (i j : Nat) : Nat := i * rowWidth right + j

/-- One cell, from its neighbours above and to the left. -/
def fillCell (left right : List String) (table : Array Nat) (i j : Nat) : Array Nat :=
  table.setIfInBounds (cell right i j)
    (if left[i - 1]? = right[j - 1]? then table.getD (cell right (i - 1) j - 1) 0 + 1
    else max (table.getD (cell right (i - 1) j) 0) (table.getD (cell right i j - 1) 0))

def fillRow (left right : List String) (table : Array Nat) (i : Nat) : Array Nat :=
  (List.range' 1 right.length).foldl (fun table j => fillCell left right table i j) table

def lcsLengths (left right : List String) : Array Nat :=
  (List.range' 1 left.length).foldl (fillRow left right) (Array.replicate (cellCount left right) 0)

/-- The way back through the table from a cell, the last line first. -/
def walkBack (left right : List String) (offset : Nat) (table : Array Nat) (i j : Nat) :
    List TextDiffLine :=
  if h : 0 < i ∨ 0 < j then
    if 0 < i ∧ 0 < j ∧ left[i - 1]? = right[j - 1]? then
      unchanged (left.getD (i - 1) "") (offset + i) (offset + j) ::
        walkBack left right offset table (i - 1) (j - 1)
    else if 0 < j ∧ (i = 0 ∨
        table.getD (cell right (i - 1) j) 0 ≤ table.getD (cell right i j - 1) 0) then
      added (right.getD (j - 1) "") (offset + j) :: walkBack left right offset table i (j - 1)
    else
      removed (left.getD (i - 1) "") (offset + i) :: walkBack left right offset table (i - 1) j
  else []
termination_by i + j
decreasing_by all_goals omega

/-! ## The comparison -/

def middleLines (left right : List String) (offset : Nat) : List TextDiffLine :=
  if cellCount left right > maxLcsCells then
    left.mapIdx (fun index content => removed content (offset + index + 1)) ++
      right.mapIdx (fun index content => added content (offset + index + 1))
  else (walkBack left right offset (lcsLengths left right) left.length right.length).reverse

def leadingLines (left right : List String) : List TextDiffLine :=
  (List.range (leadingEqual left right)).map fun index =>
    unchanged (left.getD index "") (index + 1) (index + 1)

def trailingLines (left right : List String) : List TextDiffLine :=
  (List.range (trailingEqual left right)).reverse.map fun offset =>
    unchanged (left.getD (left.length - offset - 1) "") (left.length - offset)
      (right.length - offset)

def diffLines (left right : List String) : List TextDiffLine :=
  leadingLines left right ++
    middleLines (leftMiddle left right) (rightMiddle left right) (leadingEqual left right) ++
    trailingLines left right

end TextDiff

def computeTextDiff (left right : String) : List TextDiffLine :=
  TextDiff.diffLines (TextDiff.textLines left) (TextDiff.textLines right)

structure TextDiffStats where
  added : Nat
  removed : Nat
  unchanged : Nat
deriving DecidableEq

/-- Counts one line. -/
def TextDiffStats.count (stats : TextDiffStats) (line : TextDiffLine) : TextDiffStats :=
  match line.kind with
  | .unchanged => { stats with unchanged := stats.unchanged + 1 }
  | .added => { stats with added := stats.added + 1 }
  | .removed => { stats with removed := stats.removed + 1 }

def textDiffStats (lines : List TextDiffLine) : TextDiffStats :=
  lines.foldl TextDiffStats.count { added := 0, removed := 0, unchanged := 0 }

end OxideTerm.Sftp
