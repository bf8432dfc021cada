import OxideTerm.Lib.Numeral
import OxideTerm.Tmux.Protocol

/-!
# Window layouts

How tmux describes the panes of a window: a tree of cells, as text, with a checksum in front.
-/

namespace OxideTerm.Tmux

open OxideTerm.Lib

def maxLayoutDepth : Nat := 64
def maxLayoutNodes : Nat := 4096

structure LayoutCell where
  width : UInt16
  height : UInt16
  x : UInt16
  y : UInt16
deriving DecidableEq

inductive SplitDirection where
  | leftRight
  | topBottom
deriving DecidableEq

inductive Layout where
  | pane (cell : LayoutCell) (pane : PaneId)
  | split (cell : LayoutCell) (direction : SplitDirection) (children : List Layout)

def Layout.cell : Layout → LayoutCell
  | .pane cell _ => cell
  | .split cell _ _ => cell

inductive LayoutError where
  | invalidChecksum
  | invalidNumber
  | invalidSeparator
  | emptySplit
  | unterminatedSplit
  | tooDeep
  | tooManyNodes
  | trailingData
deriving DecidableEq

def comma : UInt8 := 0x2c

def SplitDirection.opening : SplitDirection → UInt8
  | .leftRight => 0x7b
  | .topBottom => 0x5b

def SplitDirection.closing : SplitDirection → UInt8
  | .leftRight => 0x7d
  | .topBottom => 0x5d

/-! ## Reading the tree -/

/-- What stands at the cursor, and how many nodes there have been. -/
structure LayoutParser where
  input : Bytes
  nodes : Nat

namespace LayoutParser

def peek (parser : LayoutParser) : Option UInt8 := parser.input.head?

def next (parser : LayoutParser) : Option (UInt8 × LayoutParser) :=
  match parser.input with
  | [] => none
  | byte :: rest => some (byte, { parser with input := rest })

def expect (parser : LayoutParser) (expected : UInt8) : Except LayoutError LayoutParser :=
  match parser.next with
  | some (byte, parser) => if byte = expected then .ok parser else .error .invalidSeparator
  | none => .error .invalidSeparator

def numberU64 (parser : LayoutParser) : Except LayoutError (Nat × LayoutParser) :=
  match parseDecimal (parser.input.takeWhile isDigit) with
  | some value => .ok (value, { parser with input := parser.input.dropWhile isDigit })
  | none => .error .invalidNumber

def numberU16 (parser : LayoutParser) : Except LayoutError (UInt16 × LayoutParser) := do
  let (value, parser) ← parser.numberU64
  if value < 2 ^ 16 then .ok (UInt16.ofNat value, parser) else .error .invalidNumber

/-- The size and the place at the front of a node. -/
def parseCell (parser : LayoutParser) : Except LayoutError (LayoutCell × LayoutParser) := do
  let (width, parser) ← parser.numberU16
  let parser ← parser.expect 0x78
  let (height, parser) ← parser.numberU16
  let parser ← parser.expect comma
  let (x, parser) ← parser.numberU16
  let parser ← parser.expect comma
  let (y, parser) ← parser.numberU16
  .ok ({ width, height, x, y }, parser)

/-- The loop over the children. Every round takes a byte, so that the rounds do not run out. -/
def childrenLoop (parseNode : LayoutParser → Except LayoutError (Layout × LayoutParser))
    (terminator : UInt8) : Nat → LayoutParser → Except LayoutError (List Layout × LayoutParser)
  | 0, _ => .error .unterminatedSplit
  | rounds + 1, parser => do
    let (child, parser) ← parseNode parser
    match parser.next with
    | some (byte, parser) =>
      if byte = terminator then .ok ([child], parser)
      else if byte = comma then do
        let (children, parser) ← childrenLoop parseNode terminator rounds parser
        .ok (child :: children, parser)
      else .error .invalidSeparator
    | none => .error .unterminatedSplit

def children (parser : LayoutParser)
    (parseNode : LayoutParser → Except LayoutError (Layout × LayoutParser)) (terminator : UInt8) :
    Except LayoutError (List Layout × LayoutParser) :=
  if parser.peek = some terminator then .error .emptySplit
  else childrenLoop parseNode terminator (parser.input.length + 1) parser

/-- A node, with so many levels left for it and what is below it. -/
def parseNode : Nat → LayoutParser → Except LayoutError (Layout × LayoutParser)
  | 0, _ => .error .tooDeep
  | levels + 1, parser =>
    if parser.nodes + 1 > maxLayoutNodes then .error .tooManyNodes
    else do
      let (cell, parser) ← parseCell { parser with nodes := parser.nodes + 1 }
      match parser.next with
      | some (separator, parser) =>
        if separator = comma then do
          let (pane, parser) ← parser.numberU64
          .ok (.pane cell ⟨pane⟩, parser)
        else if separator = SplitDirection.leftRight.opening then do
          let (children, parser) ←
            parser.children (parseNode levels) SplitDirection.leftRight.closing
          .ok (.split cell .leftRight children, parser)
        else if separator = SplitDirection.topBottom.opening then do
          let (children, parser) ←
            parser.children (parseNode levels) SplitDirection.topBottom.closing
          .ok (.split cell .topBottom children, parser)
        else .error .invalidSeparator
      | none => .error .invalidSeparator

end LayoutParser

/-! ## The checksum -/

def isHexDigit (byte : UInt8) : Bool :=
  isDigit byte || (0x61 ≤ byte && byte ≤ 0x66) || (0x41 ≤ byte && byte ≤ 0x46)

/-- The value of a hexadecimal digit. -/
def hexDigitValue (byte : UInt8) : Nat :=
  if isDigit byte then byte.toNat - 48
  else if 0x61 ≤ byte && byte ≤ 0x66 then byte.toNat - 97 + 10
  else byte.toNat - 65 + 10

def layoutChecksum (body : Bytes) : UInt16 :=
  body.foldl (fun checksum byte => (checksum >>> 1 ||| checksum <<< 15) + byte.toUInt16) 0

/-- A 16-bit number in hexadecimal. -/
def parseChecksum (digits : Bytes) : Option Nat :=
  digits.foldlM (fun value byte =>
    if isHexDigit byte ∧ value * 16 + hexDigitValue byte < 2 ^ 16 then
      some (value * 16 + hexDigitValue byte)
    else none) 0

/-- What the checksum in front is about, if there is one. -/
def stripChecksum (encoded : Bytes) : Except LayoutError Bytes :=
  if comma ∈ encoded then
    let (checksum, body) := splitOnce encoded comma
    if checksum.length ≠ 4 ∨ checksum.all isHexDigit = false then .ok encoded
    else if parseChecksum checksum = some (layoutChecksum body).toNat then .ok body
    else .error .invalidChecksum
  else .ok encoded

namespace Layout

def parse (encoded : Bytes) : Except LayoutError Layout := do
  let body ← stripChecksum encoded
  let (layout, parser) ← LayoutParser.parseNode (maxLayoutDepth + 1) { input := body, nodes := 0 }
  if parser.input = [] then .ok layout else .error .trailingData

/-! ## Panes -/

mutual

/-- How many nodes there are. -/
def nodes : Layout → Nat
  | .pane _ _ => 1
  | .split _ _ children => nodesOf children + 1

def nodesOf : List Layout → Nat
  | [] => 0
  | child :: children => child.nodes + nodesOf children

end

theorem nodesOf_append : ∀ a b : List Layout, nodesOf (a ++ b) = nodesOf a + nodesOf b
  | [], b => by rw [List.nil_append, nodesOf, Nat.zero_add]
  | child :: a, b => by rw [List.cons_append, nodesOf, nodesOf, nodesOf_append a b, Nat.add_assoc]

theorem nodes_pos : ∀ layout : Layout, 0 < layout.nodes
  | .pane _ _ => Nat.one_pos
  | .split _ _ _ => Nat.succ_pos _

/-- The panes of what is on the stack, from its top. -/
def pendingPanes : List Layout → List (PaneId × LayoutCell)
  | [] => []
  | .pane cell id :: pending => (id, cell) :: pendingPanes pending
  | .split _ _ children :: pending => pendingPanes (children ++ pending)
termination_by pending => nodesOf pending
decreasing_by
  · simp only [nodesOf, nodes]
    omega
  · simp only [nodesOf, nodes, nodesOf_append]
    omega

def panes (layout : Layout) : List (PaneId × LayoutCell) := pendingPanes [layout]

end Layout

end OxideTerm.Tmux
