import OxideTerm.Lib.Fallible
import OxideTerm.Tmux.Fields
import OxideTerm.Tmux.Layout

/-!
# Layouts as text

The text of a layout, and that exactly such texts are read: a part of the parser returns a value if
and only if it stands in front, written as the grammar says, and the rest of the input is what is
behind it. A number is read to its last digit, so that no digit may follow.
-/

namespace OxideTerm.Tmux

open OxideTerm.Lib

/-! ## The grammar -/

/-- The size and the place of a cell as text. -/
def PrintedCell (cell : LayoutCell) (text : Bytes) : Prop :=
  ∃ width height x y, Numeral cell.width.toNat width ∧ Numeral cell.height.toNat height ∧
    Numeral cell.x.toNat x ∧ Numeral cell.y.toNat y ∧
    text = width ++ 0x78 :: (height ++ comma :: (x ++ comma :: y))

namespace Layout

mutual

/-- The layout as text. -/
def Printed : Layout → Bytes → Prop
  | .pane cell id, text => ∃ front number, PrintedCell cell front ∧ Numeral id.id number ∧
      text = front ++ comma :: number
  | .split cell direction children, text => ∃ front inner, PrintedCell cell front ∧
      PrintedAll children inner ∧
      text = front ++ direction.opening :: (inner ++ [direction.closing])

/-- The layouts as text, with commas between them. -/
def PrintedAll : List Layout → Bytes → Prop
  | [], text => text = []
  | [child], text => Printed child text
  | child :: next :: children, text => ∃ front rest, Printed child front ∧
      PrintedAll (next :: children) rest ∧ text = front ++ comma :: rest

end

mutual

/-- Splits have children, and panes have 64-bit numbers. -/
def Valid : Layout → Prop
  | .pane _ id => id.id < 2 ^ 64
  | .split _ _ children => children ≠ [] ∧ ValidAll children

def ValidAll : List Layout → Prop
  | [] => True
  | child :: children => Valid child ∧ ValidAll children

end

mutual

/-- How many splits a pane is within. -/
def nesting : Layout → Nat
  | .pane _ _ => 0
  | .split _ _ children => nestingOf children + 1

def nestingOf : List Layout → Nat
  | [] => 0
  | child :: children => max child.nesting (nestingOf children)

end

mutual

/-- The panes in the order in which they stand. -/
def leaves : Layout → List (PaneId × LayoutCell)
  | .pane cell id => [(id, cell)]
  | .split _ _ children => leavesOf children

def leavesOf : List Layout → List (PaneId × LayoutCell)
  | [] => []
  | child :: children => child.leaves ++ leavesOf children

end

/-- The four hexadecimal digits of the checksum. -/
structure ChecksumOf (body digits : Bytes) : Prop where
  length_eq : digits.length = 4
  hex : ∀ byte ∈ digits, isHexDigit byte = true
  value : digits.foldl (fun value byte => value * 16 + hexDigitValue byte) 0 =
    (layoutChecksum body).toNat

/-- The text of a layout, with or without its checksum. -/
def Encoded (layout : Layout) (encoded : Bytes) : Prop :=
  Printed layout encoded ∨
    ∃ checksum body, ChecksumOf body checksum ∧ Printed layout body ∧
      encoded = checksum ++ comma :: body

end Layout

/-! ## Numbers and separators -/

namespace LayoutParser

theorem next_eq_some_iff {parser next : LayoutParser} {byte : UInt8} :
    parser.next = some (byte, next) ↔
      parser.input = byte :: next.input ∧ next.nodes = parser.nodes := by
  obtain ⟨input, nodes⟩ := parser
  obtain ⟨rest, nodes'⟩ := next
  cases input with
  | nil => simp [LayoutParser.next]
  | cons first input =>
    simp only [LayoutParser.next, Option.some.injEq, Prod.mk.injEq, mk.injEq, List.cons.injEq]
    constructor
    · rintro ⟨rfl, rfl, rfl⟩
      exact ⟨⟨rfl, rfl⟩, rfl⟩
    · rintro ⟨⟨rfl, rfl⟩, rfl⟩
      exact ⟨rfl, rfl, rfl⟩

theorem expect_eq_ok_iff {parser next : LayoutParser} {expected : UInt8} :
    parser.expect expected = .ok next ↔
      parser.input = expected :: next.input ∧ next.nodes = parser.nodes := by
  rw [← next_eq_some_iff, expect]
  split
  · next byte rest hnext =>
    rw [hnext]
    split
    · next heq => rw [heq]; simp
    · next hne => simp [hne]
  · next hnext =>
    rw [hnext]
    simp

/-- **A number is read to its last digit.** -/
theorem numberU64_eq_ok_iff {parser next : LayoutParser} {n : Nat} :
    parser.numberU64 = .ok (n, next) ↔ ∃ token, (Numeral n token ∧ n < 2 ^ 64) ∧
      NoDigitFirst next.input ∧ parser.input = token ++ next.input ∧
      next.nodes = parser.nodes := by
  constructor
  · intro h
    rw [numberU64] at h
    split at h
    · next value hvalue =>
      cases h
      refine ⟨_, parseDecimal_eq_some_iff.mp hvalue, ?_, ?_, rfl⟩
      · exact noDigitFirst_dropWhile parser.input
      · exact List.takeWhile_append_dropWhile.symm
    · cases h
  · rintro ⟨token, htoken, hstop, hinput, hnodes⟩
    obtain ⟨htake, hdrop⟩ := takeWhile_isDigit htoken.1.digits hstop
    rw [numberU64, hinput, htake, hdrop, parseDecimal_eq_some_iff.mpr htoken]
    obtain ⟨rest, nodes⟩ := next
    obtain rfl : nodes = parser.nodes := hnodes
    rfl

theorem numberU16_eq_ok_iff {parser next : LayoutParser} {n : UInt16} :
    parser.numberU16 = .ok (n, next) ↔ ∃ token, Numeral n.toNat token ∧
      NoDigitFirst next.input ∧ parser.input = token ++ next.input ∧
      next.nodes = parser.nodes := by
  have hlt := n.toNat_lt
  simp only [numberU16, bind_eq_ok_iff, Prod.exists, numberU64_eq_ok_iff]
  constructor
  · rintro ⟨value, rest, ⟨token, ⟨htoken, -⟩, hstop, hinput, hnodes⟩, h⟩
    split at h
    · next hvalue =>
      cases h
      refine ⟨token, ?_, hstop, hinput, hnodes⟩
      rwa [UInt16.toNat_ofNat_of_lt' hvalue]
    · cases h
  · rintro ⟨token, htoken, hstop, hinput, hnodes⟩
    refine ⟨n.toNat, next, ⟨token, ⟨htoken, by omega⟩, hstop, hinput, hnodes⟩, ?_⟩
    rw [if_pos hlt, UInt16.ofNat_toNat]

theorem parseCell_eq_ok_iff {parser next : LayoutParser} {cell : LayoutCell} :
    parser.parseCell = .ok (cell, next) ↔ ∃ text, PrintedCell cell text ∧
      NoDigitFirst next.input ∧ parser.input = text ++ next.input ∧
      next.nodes = parser.nodes := by
  simp only [parseCell, bind_eq_ok_iff, Prod.exists, numberU16_eq_ok_iff, expect_eq_ok_iff]
  constructor
  · rintro ⟨w, p1, ⟨width, hw, -, hp1, hn1⟩, p2, ⟨hp2, hn2⟩, h, p3, ⟨height, hh, -, hp3, hn3⟩,
      p4, ⟨hp4, hn4⟩, x, p5, ⟨left, hx, -, hp5, hn5⟩, p6, ⟨hp6, hn6⟩, y, p7,
      ⟨top, hy, hstop, hp7, hn7⟩, heq⟩
    cases heq
    refine ⟨_, ⟨width, height, left, top, hw, hh, hx, hy, rfl⟩, hstop, ?_, by omega⟩
    rw [hp1, hp2, hp3, hp4, hp5, hp6, hp7]
    simp
  · rintro ⟨text, ⟨width, height, left, top, hw, hh, hx, hy, rfl⟩, hstop, hinput, hnodes⟩
    have hletter : isDigit 0x78 = false := by decide
    have hcomma : isDigit comma = false := by decide
    refine ⟨cell.width, ⟨_, parser.nodes⟩, ⟨width, hw, noDigitFirst_cons hletter
        (height ++ comma :: (left ++ comma :: (top ++ next.input))), ?_, rfl⟩,
      ⟨_, parser.nodes⟩, ⟨rfl, rfl⟩,
      cell.height, ⟨_, parser.nodes⟩, ⟨height, hh, noDigitFirst_cons hcomma
        (left ++ comma :: (top ++ next.input)), rfl, rfl⟩,
      ⟨_, parser.nodes⟩, ⟨rfl, rfl⟩,
      cell.x, ⟨_, parser.nodes⟩, ⟨left, hx, noDigitFirst_cons hcomma (top ++ next.input), rfl, rfl⟩,
      ⟨_, parser.nodes⟩, ⟨rfl, rfl⟩,
      cell.y, next, ⟨top, hy, hstop, rfl, hnodes⟩, rfl⟩
    rw [hinput]
    simp

/-! ## Nodes -/

/-- What may stand behind a layout: no digit behind the number of a pane. -/
def Stops : Layout → Bytes → Prop
  | .pane _ _, rest => NoDigitFirst rest
  | .split _ _ _, _ => True

theorem stops_of_noDigitFirst {layout : Layout} {rest : Bytes} (h : NoDigitFirst rest) :
    Stops layout rest := by
  cases layout with
  | pane cell id => exact h
  | split cell direction children => trivial

/-- A parser that reads layouts that fit into so many levels and the budget of nodes. -/
def ReadsNodes (levels : Nat)
    (parseNode : LayoutParser → Except LayoutError (Layout × LayoutParser)) : Prop :=
  ∀ parser layout next, parseNode parser = .ok (layout, next) ↔
    ∃ text, layout.Printed text ∧ layout.Valid ∧ layout.nesting < levels ∧
      Stops layout next.input ∧ parser.input = text ++ next.input ∧
      next.nodes = parser.nodes + layout.nodes ∧ next.nodes ≤ maxLayoutNodes

theorem one_le_nodesOf {layouts : List Layout} (h : layouts ≠ []) :
    1 ≤ Layout.nodesOf layouts := by
  cases layouts with
  | nil => exact absurd rfl h
  | cons child children =>
    have hpos := child.nodes_pos
    rw [Layout.nodesOf]
    omega

/-- **The loop reads children up to the terminator.** -/
theorem childrenLoop_eq_ok_iff {levels : Nat} {terminator : UInt8}
    {parseNode : LayoutParser → Except LayoutError (Layout × LayoutParser)}
    (hparse : ReadsNodes levels parseNode) (hdigit : isDigit terminator = false)
    (hcomma : terminator ≠ comma) : ∀ (rounds : Nat) (parser next : LayoutParser)
      (layouts : List Layout), parser.input.length < rounds →
      (childrenLoop parseNode terminator rounds parser = .ok (layouts, next) ↔
        ∃ text, layouts ≠ [] ∧ Layout.PrintedAll layouts text ∧ Layout.ValidAll layouts ∧
          Layout.nestingOf layouts < levels ∧
          parser.input = text ++ terminator :: next.input ∧
          next.nodes = parser.nodes + Layout.nodesOf layouts ∧ next.nodes ≤ maxLayoutNodes)
  | rounds + 1, parser, next, layouts, hrounds => by
    rw [childrenLoop, bind_eq_ok_iff]
    constructor
    · rintro ⟨⟨child, behind⟩, hchild, h⟩
      obtain ⟨front, hprinted, hvalid, hnesting, -, hinput, hnodes, hbudget⟩ :=
        (hparse _ _ _).mp hchild
      dsimp only at h
      split at h
      · next byte rest hnext =>
        obtain ⟨hbyte, hrest⟩ := next_eq_some_iff.mp hnext
        split at h
        · next hterminator =>
          cases h
          refine ⟨front, by simp, hprinted, ⟨hvalid, trivial⟩, ?_, ?_, ?_, by omega⟩
          · rw [Layout.nestingOf, Layout.nestingOf, Nat.max_zero]
            exact hnesting
          · rw [hinput, hbyte, hterminator]
          · rw [Layout.nodesOf, Layout.nodesOf, hrest, hnodes]
            rfl
        · split at h
          · next hseparator =>
            obtain ⟨⟨others, last⟩, hothers, h⟩ := exists_of_bind_ok h
            cases h
            have hlength : rest.input.length < rounds := by
              have hlength := congrArg List.length hinput
              rw [hbyte, List.length_append, List.length_cons] at hlength
              omega
            obtain ⟨text, hne, hall, hvalids, hlevels, hinner, hcount, htotal⟩ :=
              (childrenLoop_eq_ok_iff hparse hdigit hcomma rounds rest last others hlength).mp
                hothers
            obtain ⟨second, others, rfl⟩ := List.exists_cons_of_ne_nil hne
            refine ⟨front ++ comma :: text, by simp, ⟨front, text, hprinted, hall, rfl⟩,
              ⟨hvalid, hvalids⟩, ?_, ?_, ?_, htotal⟩
            · rw [Layout.nestingOf]
              exact Nat.max_lt.mpr ⟨hnesting, hlevels⟩
            · rw [hinput, hbyte, hseparator, hinner, List.append_assoc, List.cons_append]
            · rw [Layout.nodesOf]
              dsimp only
              omega
          · cases h
      · cases h
    · rintro ⟨text, hne, hall, hvalids, hlevels, hinput, hnodes, hbudget⟩
      rcases layouts with _ | ⟨child, _ | ⟨second, others⟩⟩
      · exact absurd rfl hne
      · rw [Layout.nestingOf, Layout.nestingOf, Nat.max_zero] at hlevels
        rw [Layout.nodesOf, Layout.nodesOf, Nat.add_zero] at hnodes
        refine ⟨(child, ⟨terminator :: next.input, next.nodes⟩), ?_, ?_⟩
        · refine (hparse _ _ _).mpr ⟨text, hall, hvalids.1, hlevels, ?_, hinput, hnodes, hbudget⟩
          exact stops_of_noDigitFirst (noDigitFirst_cons hdigit _)
        · simp only [LayoutParser.next, if_true]
      · obtain ⟨front, rest, hprinted, hrest, rfl⟩ := hall
        rw [Layout.nestingOf, Nat.max_lt] at hlevels
        rw [Layout.nodesOf] at hnodes
        rw [List.append_assoc, List.cons_append] at hinput
        refine ⟨(child, ⟨comma :: (rest ++ terminator :: next.input),
          parser.nodes + child.nodes⟩), ?_, ?_⟩
        · refine (hparse _ _ _).mpr ⟨front, hprinted, hvalids.1, hlevels.1, ?_, hinput, rfl, ?_⟩
          · exact stops_of_noDigitFirst (noDigitFirst_cons (by decide) _)
          · exact Nat.le_trans (by dsimp only; omega) hbudget
        · simp only [LayoutParser.next, if_neg hcomma.symm, if_true]
          have hlength : (rest ++ terminator :: next.input).length < rounds := by
            have hlength := congrArg List.length hinput
            rw [List.length_append, List.length_cons] at hlength
            omega
          have hloop := (childrenLoop_eq_ok_iff hparse hdigit hcomma rounds
            ⟨rest ++ terminator :: next.input, parser.nodes + child.nodes⟩ next (second :: others)
            hlength).mpr ⟨rest, by simp, hrest, hvalids.2, hlevels.2, rfl, by
              rw [hnodes, Nat.add_assoc], hbudget⟩
          rw [hloop]
          rfl

theorem closing_ne_comma (direction : SplitDirection) : direction.closing ≠ comma := by
  cases direction <;> decide

theorem isDigit_closing (direction : SplitDirection) : isDigit direction.closing = false := by
  cases direction <;> decide

theorem isDigit_opening (direction : SplitDirection) : isDigit direction.opening = false := by
  cases direction <;> decide

/-- The text of a layout begins with the digits of its width. -/
theorem exists_digit_of_printed {layout : Layout} {text : Bytes} (h : layout.Printed text) :
    ∃ width rest, Numeral layout.cell.width.toNat width ∧ text = width ++ 0x78 :: rest := by
  cases layout with
  | pane cell id =>
    obtain ⟨front, number, ⟨width, height, x, y, hwidth, -, -, -, rfl⟩, -, rfl⟩ := h
    exact ⟨width, _, hwidth, by rw [List.append_assoc, List.cons_append]⟩
  | split cell direction children =>
    obtain ⟨front, inner, ⟨width, height, x, y, hwidth, -, -, -, rfl⟩, -, rfl⟩ := h
    exact ⟨width, _, hwidth, by rw [List.append_assoc, List.cons_append]⟩

/-- The text of children does not begin with the terminator. -/
theorem head_ne_of_printedAll {layouts : List Layout} {text rest : Bytes} {terminator : UInt8}
    (hne : layouts ≠ []) (h : Layout.PrintedAll layouts text) (hdigit : isDigit terminator = false) :
    (text ++ rest).head? ≠ some terminator := by
  obtain ⟨front, more, child, hprinted, rfl⟩ :
      ∃ front more child, Layout.Printed child front ∧ text = front ++ more := by
    match layouts, hne with
    | [child], _ => exact ⟨text, [], child, h, (List.append_nil text).symm⟩
    | child :: second :: others, _ =>
      obtain ⟨front, rest, hprinted, -, rfl⟩ := h
      exact ⟨front, _, child, hprinted, rfl⟩
  obtain ⟨width, behind, hwidth, rfl⟩ := exists_digit_of_printed hprinted
  obtain ⟨first, digits, rfl⟩ := List.exists_cons_of_ne_nil hwidth.ne_nil
  intro heq
  obtain rfl : first = terminator := Option.some.inj heq
  exact absurd (hwidth.digits first (by simp)) (by rw [hdigit]; simp)

theorem children_eq_ok_iff {levels : Nat} {direction : SplitDirection}
    {parseNode : LayoutParser → Except LayoutError (Layout × LayoutParser)}
    (hparse : ReadsNodes levels parseNode) {parser next : LayoutParser} {layouts : List Layout} :
    parser.children parseNode direction.closing = .ok (layouts, next) ↔
      ∃ text, layouts ≠ [] ∧ Layout.PrintedAll layouts text ∧ Layout.ValidAll layouts ∧
        Layout.nestingOf layouts < levels ∧
        parser.input = text ++ direction.closing :: next.input ∧
        next.nodes = parser.nodes + Layout.nodesOf layouts ∧ next.nodes ≤ maxLayoutNodes := by
  have hloop := childrenLoop_eq_ok_iff hparse (isDigit_closing direction)
    (closing_ne_comma direction) (parser.input.length + 1) parser next layouts (Nat.lt_succ_self _)
  rw [children]
  split
  · next hpeek =>
    refine iff_of_false (by simp) ?_
    rintro ⟨text, hne, hall, -, -, hinput, -, -⟩
    rw [peek, hinput] at hpeek
    exact head_ne_of_printedAll hne hall (isDigit_closing direction) hpeek
  · exact hloop

/-- What a node is behind its cell. -/
theorem parseNode_succ_eq_ok_iff {levels : Nat} {parser next : LayoutParser} {layout : Layout} :
    parseNode (levels + 1) parser = .ok (layout, next) ↔ parser.nodes < maxLayoutNodes ∧
      ∃ cell behind, parseCell { parser with nodes := parser.nodes + 1 } = .ok (cell, behind) ∧
        ((∃ id rest, behind.next = some (comma, rest) ∧ rest.numberU64 = .ok (id, next) ∧
          layout = .pane cell ⟨id⟩) ∨
        ∃ direction children rest, behind.next = some (SplitDirection.opening direction, rest) ∧
          rest.children (parseNode levels) direction.closing = .ok (children, next) ∧
          layout = .split cell direction children) := by
  rw [parseNode]
  split
  · next hbudget =>
    refine iff_of_false (by simp) ?_
    rintro ⟨hlt, -⟩
    omega
  · next hbudget =>
    rw [bind_eq_ok_iff, Prod.exists]
    constructor
    · rintro ⟨cell, behind, hcell, h⟩
      refine ⟨by omega, cell, behind, hcell, ?_⟩
      dsimp only at h
      split at h
      · next separator rest hnext =>
        split at h
        · next hpane =>
          obtain ⟨⟨id, last⟩, hid, h⟩ := exists_of_bind_ok h
          cases h
          exact Or.inl ⟨id, rest, by rw [hnext, hpane], hid, rfl⟩
        · split at h
          · next hopening =>
            obtain ⟨⟨children, last⟩, hchildren, h⟩ := exists_of_bind_ok h
            cases h
            exact Or.inr ⟨.leftRight, children, rest, by rw [hnext, hopening], hchildren, rfl⟩
          · split at h
            · next hopening =>
              obtain ⟨⟨children, last⟩, hchildren, h⟩ := exists_of_bind_ok h
              cases h
              exact Or.inr ⟨.topBottom, children, rest, by rw [hnext, hopening], hchildren, rfl⟩
            · cases h
      · cases h
    · rintro ⟨-, cell, behind, hcell, h⟩
      refine ⟨cell, behind, hcell, ?_⟩
      dsimp only
      rcases h with ⟨id, rest, hnext, hid, rfl⟩ | ⟨direction, children, rest, hnext, hchildren, rfl⟩
      · rw [hnext]
        simp only [if_true, hid]
        rfl
      · rw [hnext]
        cases direction with
        | leftRight =>
          have hcomma : SplitDirection.leftRight.opening ≠ comma := by decide
          simp only [if_neg hcomma, if_true, hchildren]
          rfl
        | topBottom =>
          have hcomma : SplitDirection.topBottom.opening ≠ comma := by decide
          have hother : SplitDirection.topBottom.opening ≠ SplitDirection.leftRight.opening := by
            decide
          simp only [if_neg hcomma, if_neg hother, if_true, hchildren]
          rfl

/-- **A node is read if and only if its text stands in front**, fits into the levels that are left
and stays within the budget. -/
theorem readsNodes_parseNode : ∀ levels : Nat, ReadsNodes levels (parseNode levels)
  | 0 => by
    intro parser layout next
    refine iff_of_false (by simp [parseNode]) ?_
    rintro ⟨text, -, -, hnesting, -⟩
    exact Nat.not_lt_zero _ hnesting
  | levels + 1 => by
    intro parser layout next
    rw [parseNode_succ_eq_ok_iff]
    simp only [parseCell_eq_ok_iff, next_eq_some_iff, numberU64_eq_ok_iff,
      children_eq_ok_iff (readsNodes_parseNode levels)]
    constructor
    · rintro ⟨hbudget, cell, behind, ⟨front, hcell, hdigit, hinput, hnodes⟩,
        ⟨id, rest, ⟨hseparator, hrest⟩, ⟨number, hnumber, hstop, hbehind, hlast⟩, rfl⟩ |
        ⟨direction, children, rest, ⟨hseparator, hrest⟩, ⟨text, hne, hall, hvalid, hlevels, hbehind,
          hcount, htotal⟩, rfl⟩⟩
      · refine ⟨front ++ comma :: number, ⟨front, number, hcell, hnumber.1, rfl⟩, hnumber.2,
          Nat.succ_pos levels, hstop, ?_, ?_, ?_⟩
        · rw [hinput, hseparator, hbehind, List.append_assoc, List.cons_append]
        · rw [hlast, hrest, hnodes, Layout.nodes]
        · rw [hlast, hrest, hnodes]
          exact hbudget
      · refine ⟨front ++ direction.opening :: (text ++ [direction.closing]),
          ⟨front, text, hcell, hall, rfl⟩, ⟨hne, hvalid⟩, Nat.succ_lt_succ hlevels, trivial, ?_, ?_,
          htotal⟩
        · rw [hinput, hseparator, hbehind]
          simp
        · rw [hcount, hrest, hnodes, Layout.nodes, Nat.add_assoc, Nat.add_comm 1]
    · rintro ⟨text, hprinted, hvalid, hnesting, hstop, hinput, hnodes, hbudget⟩
      cases layout with
      | pane cell id =>
        obtain ⟨front, number, hcell, hnumber, rfl⟩ := hprinted
        rw [Layout.nodes] at hnodes
        rw [List.append_assoc, List.cons_append] at hinput
        refine ⟨by omega, cell, ⟨comma :: (number ++ next.input), parser.nodes + 1⟩,
          ⟨front, hcell, noDigitFirst_cons (by decide) _, hinput, rfl⟩, Or.inl ?_⟩
        exact ⟨id.id, ⟨number ++ next.input, parser.nodes + 1⟩, ⟨rfl, rfl⟩,
          ⟨number, ⟨hnumber, hvalid⟩, hstop, rfl, hnodes⟩, rfl⟩
      | split cell direction children =>
        obtain ⟨front, inner, hcell, hall, rfl⟩ := hprinted
        have hpos := one_le_nodesOf hvalid.1
        rw [Layout.nodes] at hnodes
        rw [List.append_assoc, List.cons_append, List.append_assoc, List.singleton_append] at hinput
        refine ⟨by omega, cell, ⟨direction.opening :: (inner ++ direction.closing :: next.input),
          parser.nodes + 1⟩, ⟨front, hcell, noDigitFirst_cons (isDigit_opening direction) _, hinput,
          rfl⟩, Or.inr ?_⟩
        exact ⟨direction, children, ⟨inner ++ direction.closing :: next.input, parser.nodes + 1⟩,
          ⟨rfl, rfl⟩, ⟨inner, hvalid.1, hall, hvalid.2, Nat.lt_of_succ_lt_succ hnesting, rfl,
            by dsimp only; omega, hbudget⟩, rfl⟩

end LayoutParser

namespace Layout

/-! ## The checksum -/

theorem parseChecksum_eq_some_iff {digits : Bytes} {n : Nat} : parseChecksum digits = some n ↔
    (∀ byte ∈ digits, isHexDigit byte = true) ∧
      digits.foldl (fun value byte => value * 16 + hexDigitValue byte) 0 = n ∧ n < 2 ^ 16 :=
  foldlM_bounded_eq_some_iff (fun value byte => by omega) n digits 0 (by decide)

theorem ChecksumOf.comma_notMem {body digits : Bytes} (h : ChecksumOf body digits) :
    comma ∉ digits := by
  intro hcomma
  exact absurd (h.hex comma hcomma) (by decide)

theorem stripChecksum_checksum {body digits : Bytes} (h : ChecksumOf body digits) :
    stripChecksum (digits ++ comma :: body) = .ok body := by
  have hall : digits.all isHexDigit = true := List.all_eq_true.mpr h.hex
  have hvalue : parseChecksum digits = some (layoutChecksum body).toNat :=
    parseChecksum_eq_some_iff.mpr ⟨h.hex, h.value, (layoutChecksum body).toNat_lt⟩
  rw [stripChecksum, if_pos (by simp), splitOnce_append h.comma_notMem]
  dsimp only
  rw [if_neg (by simp [h.length_eq, hall]), if_pos hvalue]

/-- The text of a layout is not taken for a checksum: there is a letter before its first comma. -/
theorem stripChecksum_printed {layout : Layout} {text : Bytes} (h : Printed layout text) :
    stripChecksum text = .ok text := by
  obtain ⟨width, rest, hwidth, rfl⟩ := LayoutParser.exists_digit_of_printed h
  rw [stripChecksum]
  split
  · dsimp only
    rw [if_pos]
    refine Or.inr (List.all_eq_false.mpr ⟨0x78, ?_, by decide⟩)
    have hfront : ∀ byte ∈ width, decide (byte ≠ comma) = true := by
      intro byte hbyte
      refine decide_eq_true ?_
      rintro rfl
      exact absurd (hwidth.digits comma hbyte) (by decide)
    have hletter : decide ((0x78 : UInt8) ≠ comma) = true := by decide
    rw [splitOnce, List.takeWhile_append_of_pos hfront, List.takeWhile_cons, hletter]
    simp
  · rfl

theorem stripChecksum_ok {encoded body : Bytes} (h : stripChecksum encoded = .ok body) :
    body = encoded ∨ ∃ checksum, ChecksumOf body checksum ∧ encoded = checksum ++ comma :: body := by
  rw [stripChecksum] at h
  split at h
  · next hmem =>
    obtain ⟨digits, rest, rfl, hcomma⟩ := List.eq_append_cons_of_mem hmem
    rw [splitOnce_append hcomma] at h
    dsimp only at h
    split at h
    · cases h
      exact Or.inl rfl
    · next hhex =>
      split at h
      · next hvalue =>
        cases h
        rw [not_or, not_not, Bool.not_eq_false] at hhex
        obtain ⟨hall, hfold, -⟩ := parseChecksum_eq_some_iff.mp hvalue
        exact Or.inr ⟨digits, ⟨hhex.1, hall, hfold⟩, rfl⟩
      · cases h
  · cases h
    exact Or.inl rfl

/-- **Exactly the texts of layouts are read.** -/
theorem parse_eq_ok_iff (encoded : Bytes) (layout : Layout) :
    parse encoded = .ok layout ↔ layout.Valid ∧ layout.nesting ≤ maxLayoutDepth ∧
      layout.nodes ≤ maxLayoutNodes ∧ Encoded layout encoded := by
  have hbody : ∀ body, (∃ parser : LayoutParser,
      LayoutParser.parseNode (maxLayoutDepth + 1) ⟨body, 0⟩ = .ok (layout, parser) ∧
        parser.input = []) ↔ layout.Valid ∧ layout.nesting ≤ maxLayoutDepth ∧
          layout.nodes ≤ maxLayoutNodes ∧ Printed layout body := by
    intro body
    simp only [LayoutParser.readsNodes_parseNode (maxLayoutDepth + 1) _ layout _]
    constructor
    · rintro ⟨⟨rest, nodes⟩, ⟨text, hprinted, hvalid, hnesting, -, hinput, hnodes, hbudget⟩, rfl⟩
      rw [List.append_nil] at hinput
      rw [Nat.zero_add] at hnodes
      exact ⟨hvalid, Nat.le_of_lt_succ hnesting, hnodes ▸ hbudget, hinput ▸ hprinted⟩
    · rintro ⟨hvalid, hnesting, hbudget, hprinted⟩
      exact ⟨⟨[], layout.nodes⟩, ⟨body, hprinted, hvalid, Nat.lt_succ_of_le hnesting,
        LayoutParser.stops_of_noDigitFirst noDigitFirst_nil, (List.append_nil body).symm,
        (Nat.zero_add _).symm, hbudget⟩, rfl⟩
  simp only [parse, bind_eq_ok_iff, Prod.exists]
  constructor
  · rintro ⟨body, hstrip, tree, parser, htree, h⟩
    split at h
    · next hend =>
      cases h
      obtain ⟨hvalid, hnesting, hnodes, hprinted⟩ := (hbody body).mp ⟨parser, htree, hend⟩
      refine ⟨hvalid, hnesting, hnodes, ?_⟩
      rcases stripChecksum_ok hstrip with rfl | ⟨checksum, hchecksum, rfl⟩
      · exact Or.inl hprinted
      · exact Or.inr ⟨checksum, body, hchecksum, hprinted, rfl⟩
    · cases h
  · rintro ⟨hvalid, hnesting, hnodes, hencoded⟩
    obtain ⟨body, hstrip, hprinted⟩ : ∃ body, stripChecksum encoded = .ok body ∧
        Printed layout body := by
      rcases hencoded with hprinted | ⟨checksum, body, hchecksum, hprinted, rfl⟩
      · exact ⟨encoded, stripChecksum_printed hprinted, hprinted⟩
      · exact ⟨body, stripChecksum_checksum hchecksum, hprinted⟩
    obtain ⟨parser, hparser, hend⟩ := (hbody body).mpr ⟨hvalid, hnesting, hnodes, hprinted⟩
    exact ⟨body, hstrip, layout, parser, hparser, by rw [if_pos hend]⟩

/-! ## Writing layouts -/

def printCell (cell : LayoutCell) : Bytes :=
  numeral cell.width.toNat ++ 0x78 :: (numeral cell.height.toNat ++ comma ::
    (numeral cell.x.toNat ++ comma :: numeral cell.y.toNat))

theorem printedCell_printCell (cell : LayoutCell) : PrintedCell cell (printCell cell) :=
  ⟨_, _, _, _, numeral_numeral _, numeral_numeral _, numeral_numeral _, numeral_numeral _, rfl⟩

mutual

/-- The text that is written for a layout. -/
def print : Layout → Bytes
  | .pane cell id => printCell cell ++ comma :: numeral id.id
  | .split cell direction children =>
    printCell cell ++ direction.opening :: (printAll children ++ [direction.closing])

def printAll : List Layout → Bytes
  | [] => []
  | [child] => child.print
  | child :: next :: children => child.print ++ comma :: printAll (next :: children)

end

mutual

theorem printed_print : ∀ layout : Layout, Printed layout layout.print
  | .pane cell id =>
    ⟨printCell cell, numeral id.id, printedCell_printCell cell, numeral_numeral id.id, rfl⟩
  | .split cell _ children =>
    ⟨printCell cell, printAll children, printedCell_printCell cell, printedAll_printAll children,
      rfl⟩

theorem printedAll_printAll : ∀ layouts : List Layout, PrintedAll layouts (printAll layouts)
  | [] => rfl
  | [child] => printed_print child
  | child :: next :: children =>
    ⟨child.print, printAll (next :: children), printed_print child,
      printedAll_printAll (next :: children), rfl⟩

end

def hexDigit (n : Nat) : UInt8 := if n < 10 then digit n else UInt8.ofNat (87 + n)

/-- The checksum as tmux writes it. -/
def printChecksum (checksum : UInt16) : Bytes :=
  [hexDigit (checksum.toNat / 4096), hexDigit (checksum.toNat / 256 % 16),
    hexDigit (checksum.toNat / 16 % 16), hexDigit (checksum.toNat % 16)]

def printWithChecksum (layout : Layout) : Bytes :=
  printChecksum (layoutChecksum layout.print) ++ comma :: layout.print

theorem hexDigit_spec : ∀ n < 16, isHexDigit (hexDigit n) = true ∧ hexDigitValue (hexDigit n) = n := by
  decide

theorem checksumOf_printChecksum (body : Bytes) :
    ChecksumOf body (printChecksum (layoutChecksum body)) := by
  have hlt := (layoutChecksum body).toNat_lt
  generalize hn : (layoutChecksum body).toNat = n at hlt
  have h1 := hexDigit_spec (n / 4096) (by omega)
  have h2 := hexDigit_spec (n / 256 % 16) (by omega)
  have h3 := hexDigit_spec (n / 16 % 16) (by omega)
  have h4 := hexDigit_spec (n % 16) (by omega)
  refine ⟨rfl, ?_, ?_⟩
  · rw [printChecksum, hn]
    simp only [List.forall_mem_cons, h1.1, h2.1, h3.1, h4.1, true_and]
    simp
  · rw [printChecksum, hn]
    simp only [List.foldl_cons, List.foldl_nil, h1.2, h2.2, h3.2, h4.2]
    omega

/-! ## Panes -/

theorem leavesOf_append : ∀ a b : List Layout, leavesOf (a ++ b) = leavesOf a ++ leavesOf b
  | [], b => rfl
  | child :: a, b => by
    rw [List.cons_append, leavesOf, leavesOf, leavesOf_append a b, List.append_assoc]

theorem pendingPanes_eq_leavesOf (pending : List Layout) :
    pendingPanes pending = leavesOf pending := by
  fun_induction pendingPanes pending with
  | case1 => rfl
  | case2 cell id pending ih => rw [ih, leavesOf, leaves, List.singleton_append]
  | case3 cell direction children pending ih => rw [ih, leavesOf_append, leavesOf, leaves]

/-- **The panes are the leaves**, each once, in the order in which they stand. -/
theorem panes_eq_leaves (layout : Layout) : layout.panes = layout.leaves := by
  rw [panes, pendingPanes_eq_leavesOf, leavesOf, leavesOf, List.append_nil]

/-! ## Main result -/

/-- **The parser accepts exactly its grammar**, reads back what is written, and the panes are the
leaves. -/
theorem parse_grammar :
    (∀ (encoded : Bytes) (layout : Layout), parse encoded = .ok layout ↔ layout.Valid ∧
      layout.nesting ≤ 64 ∧ layout.nodes ≤ 4096 ∧ Encoded layout encoded) ∧
    (∀ layout : Layout, layout.Valid → layout.nesting ≤ 64 → layout.nodes ≤ 4096 →
      parse layout.print = .ok layout ∧ parse layout.printWithChecksum = .ok layout) ∧
    ∀ layout : Layout, layout.panes = layout.leaves := by
  refine ⟨parse_eq_ok_iff, ?_, panes_eq_leaves⟩
  intro layout hvalid hnesting hnodes
  have hprinted := printed_print layout
  constructor
  · exact (parse_eq_ok_iff _ _).mpr ⟨hvalid, hnesting, hnodes, Or.inl hprinted⟩
  · refine (parse_eq_ok_iff _ _).mpr ⟨hvalid, hnesting, hnodes, Or.inr ?_⟩
    exact ⟨_, layout.print, checksumOf_printChecksum layout.print, hprinted, rfl⟩

theorem parse_grammar_onePane : parse (ascii "80x024,0,0,7") =
    .ok (.pane { width := 80, height := 24, x := 0, y := 0 } ⟨7⟩) := by
  refine (parse_grammar.1 _ _).mpr ⟨?_, by decide, by decide, Or.inl ?_⟩
  · show (7 : Nat) < 2 ^ 64
    decide
  · have hsize : Numeral 80 (ascii "80") := numeral_of_all (by decide) rfl rfl
    have hheight : Numeral 24 (ascii "024") := numeral_of_all (by decide) rfl rfl
    have hzero : Numeral 0 (ascii "0") := numeral_of_all (by decide) rfl rfl
    have hpane : Numeral 7 (ascii "7") := numeral_of_all (by decide) rfl rfl
    exact ⟨ascii "80x024,0,0", ascii "7", ⟨ascii "80", ascii "024", ascii "0", ascii "0",
      hsize, hheight, hzero, hzero, rfl⟩, hpane, rfl⟩

end Layout

end OxideTerm.Tmux
