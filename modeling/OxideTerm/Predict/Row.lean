import OxideTerm.Predict.Overlay
import OxideTerm.Lib.Text

/-!
# One row of a terminal

What a terminal makes of the bytes it receives, as far as one of its rows is concerned: characters
of any width are printed, cells are inserted and deleted, and the cursor moves. How wide a
character is shown is a parameter. Renditions change no cell here, and no other row is looked at.
-/

namespace OxideTerm.Predict

open OxideTerm.Lib

/-- A cell that is blank, that shows a character with what is combined with it, or that is covered
by a wide character to its left. -/
inductive Cell where
  | blank
  | glyph (text : List Char)
  | covered
deriving DecidableEq

inductive ParserState where
  | ground
  | utf8 (pending : Bytes)
  | escape
  | csi (parameters : List Nat) (current : Option Nat)
deriving DecidableEq

structure Row where
  line : Nat
  cells : List Cell
  cursorLine : Nat
  cursorColumn : Nat
  parser : ParserState
deriving DecidableEq

namespace Row

/-- Inserts blank cells at a column; what does not fit is lost at the end. -/
def insertCells (n column : Nat) (cells : List Cell) : List Cell :=
  (cells.take column ++ List.replicate n Cell.blank ++ cells.drop column).take cells.length

/-- Deletes cells at a column; blank cells follow at the end. -/
def deleteCells (n column : Nat) (cells : List Cell) : List Cell :=
  cells.take column ++ cells.drop (column + n) ++
    List.replicate (cells.length - column - (cells.drop (column + n)).length) .blank

/-- A mark that takes no column of its own. -/
def combine (c : Char) : Cell → Cell
  | .glyph text => .glyph (text ++ [c])
  | cell => cell

/-- A character of this width, shown at a column. -/
def putCharacter (c : Char) (width column : Nat) (cells : List Cell) : List Cell :=
  match width with
  | 0 => if column = 0 then cells else cells.modify (column - 1) (combine c)
  | rest + 1 => (cells.take column ++ Cell.glyph [c] :: List.replicate rest Cell.covered ++
      cells.drop (column + rest + 1)).take cells.length

/-- Changes the cells if the cursor is on this row. -/
def edit (r : Row) (f : List Cell → List Cell) : Row :=
  if r.cursorLine = r.line then { r with cells := f r.cells } else r

def moveTo (r : Row) (column : Nat) : Row :=
  { r with cursorColumn := min column (r.cells.length - 1) }

def print (width : Char → Nat) (r : Row) (c : Char) : Row :=
  (r.edit (putCharacter c (width c) r.cursorColumn)).moveTo (r.cursorColumn + width c)

/-- A parameter of a control sequence, from 1 on. -/
def parameter (parameters : List Nat) (i : Nat) : Nat := max 1 (parameters[i]?.getD 1)

/-- The end of a control sequence. -/
def dispatch (r : Row) (parameters : List Nat) (final : UInt8) : Row :=
  let n := parameter parameters 0
  if final = 0x40 then r.edit (insertCells n r.cursorColumn)
  else if final = 0x50 then r.edit (deleteCells n r.cursorColumn)
  else if final = 0x43 then r.moveTo (r.cursorColumn + n)
  else if final = 0x44 then r.moveTo (r.cursorColumn - n)
  else if final = 0x48 then
    { r with cursorLine := n - 1 }.moveTo (parameter parameters 1 - 1)
  else r

/-- One byte more of a control sequence. -/
def receiveCsi (r : Row) (parameters : List Nat) (current : Option Nat) (b : UInt8) : Row :=
  if 0x30 ≤ b ∧ b ≤ 0x39 then
    { r with parser := .csi parameters (some (current.getD 0 * 10 + (b.toNat - 0x30))) }
  else if b = 0x3b then { r with parser := .csi (parameters ++ [current.getD 0]) none }
  else if 0x40 ≤ b ∧ b ≤ 0x7e then
    { r with parser := .ground }.dispatch (parameters ++ current.toList) b
  else r

/-- One byte more of a character. -/
def receiveUtf8 (width : Char → Nat) (r : Row) (bytes : Bytes) : Row :=
  match bytes.toByteArray.utf8DecodeChar? 0 with
  | some c => { r with parser := .ground }.print width c
  | none => { r with parser := if bytes.length < 4 then .utf8 bytes else .ground }

def receive (width : Char → Nat) (r : Row) (b : UInt8) : Row :=
  match r.parser with
  | .ground =>
    if b = 0x1b then { r with parser := .escape }
    else if b < 0x20 ∨ b = 0x7f then r
    else r.receiveUtf8 width [b]
  | .utf8 pending => r.receiveUtf8 width (pending ++ [b])
  | .escape => { r with parser := if b = 0x5b then .csi [] none else .ground }
  | .csi parameters current => r.receiveCsi parameters current b

def feed (width : Char → Nat) (r : Row) (bytes : Bytes) : Row := bytes.foldl (receive width) r

theorem feed_append (width : Char → Nat) (r : Row) (xs ys : Bytes) :
    r.feed width (xs ++ ys) = (r.feed width xs).feed width ys := List.foldl_append

theorem feed_cons (width : Char → Nat) (r : Row) (b : UInt8) (bytes : Bytes) :
    r.feed width (b :: bytes) = (r.receive width b).feed width bytes := rfl

@[simp] theorem feed_nil (width : Char → Nat) (r : Row) : r.feed width [] = r := rfl

/-! ## Cells -/

theorem insertCells_one (left : List Cell) {right : List Cell} (h : right ≠ []) :
    insertCells 1 left.length (left ++ right) = left ++ Cell.blank :: right.dropLast := by
  have hlength := List.length_pos_of_ne_nil h
  unfold insertCells
  rw [List.take_left, List.drop_left, List.replicate_one, List.append_assoc, List.length_append,
    List.take_length_add_append, List.singleton_append]
  congr 1
  obtain ⟨n, hn⟩ : ∃ n, right.length = n + 1 := ⟨right.length - 1, by omega⟩
  rw [List.dropLast_eq_take, hn, List.take_succ_cons, Nat.add_sub_cancel]

theorem putCharacter_one (c : Char) (left : List Cell) (cell : Cell) (right : List Cell) :
    putCharacter c 1 left.length (left ++ cell :: right) = left ++ Cell.glyph [c] :: right := by
  have hdrop : (left ++ cell :: right).drop (left.length + 1) = right := by
    rw [List.drop_length_add_append, List.drop_succ_cons, List.drop_zero]
  show List.take _ _ = _
  rw [List.take_left, List.replicate_zero, Nat.add_zero, hdrop, List.append_assoc,
    List.singleton_append, List.take_of_length_le]
  rw [List.length_append, List.length_append, List.length_cons, List.length_cons]

theorem deleteCells_middle (left middle right : List Cell) :
    deleteCells middle.length left.length (left ++ middle ++ right) =
      left ++ right ++ List.replicate middle.length .blank := by
  have hdrop : (left ++ middle ++ right).drop (left.length + middle.length) = right := by
    rw [← List.length_append, List.drop_left]
  have htake : (left ++ middle ++ right).take left.length = left := by
    rw [List.append_assoc, List.take_left]
  have hcount : (left ++ middle ++ right).length - left.length - right.length = middle.length := by
    rw [List.length_append, List.length_append]
    omega
  rw [deleteCells, htake, hdrop, hcount]

/-! ## Characters -/

variable {width : Char → Nat} {r : Row}

theorem receiveUtf8_encode (r : Row) (c : Char) :
    r.receiveUtf8 width (String.utf8EncodeChar c) = { r with parser := .ground }.print width c := by
  have hdecode : (String.utf8EncodeChar c ++ []).toByteArray.utf8DecodeChar? 0 = some c := by
    rw [List.toByteArray_append]
    exact ByteArray.utf8DecodeChar?_utf8EncodeChar_append
  rw [List.append_nil] at hdecode
  unfold receiveUtf8
  rw [hdecode]

/-- A character is not there before its last byte. -/
theorem receiveUtf8_proper {c : Char} {bytes rest : Bytes} (h : String.utf8EncodeChar c = bytes ++ rest)
    (hrest : rest ≠ []) (r : Row) : r.receiveUtf8 width bytes = { r with parser := .utf8 bytes } := by
  have hlength := congrArg List.length h
  rw [String.length_utf8EncodeChar, List.length_append] at hlength
  have hpos := List.length_pos_of_ne_nil hrest
  have hmax := Char.utf8Size_le_four c
  have hnone : bytes.toByteArray.utf8DecodeChar? 0 = none := by
    by_contra hsome
    obtain ⟨d, hd⟩ := Option.ne_none_iff_exists'.mp hsome
    have hsize := ByteArray.le_size_of_utf8DecodeChar?_eq_some hd
    have hwhole : (String.utf8EncodeChar c).toByteArray.utf8DecodeChar? 0 = some d := by
      rw [h, List.toByteArray_append]
      exact ByteArray.utf8DecodeChar?_append_eq_some hd _
    have hdecode : (String.utf8EncodeChar c ++ []).toByteArray.utf8DecodeChar? 0 = some c := by
      rw [List.toByteArray_append]
      exact ByteArray.utf8DecodeChar?_utf8EncodeChar_append
    rw [List.append_nil, hwhole] at hdecode
    obtain rfl := Option.some.inj hdecode
    rw [List.size_toByteArray] at hsize
    omega
  unfold receiveUtf8
  rw [hnone]
  simp only
  rw [if_pos (by omega)]

theorem feed_utf8 {c : Char} : ∀ (rest : Bytes) {bytes : Bytes} (r : Row),
    String.utf8EncodeChar c = bytes ++ rest → rest ≠ [] →
    ({ r with parser := .utf8 bytes } : Row).feed width rest =
      ({ r with parser := .ground } : Row).print width c
  | [], _, _, _, hrest => absurd rfl hrest
  | [b], bytes, r, h, _ => by
    have hlast := @receiveUtf8_encode width { r with parser := .utf8 bytes } c
    rw [h] at hlast
    exact hlast
  | b :: b' :: rest, bytes, r, h, _ => by
    have hsplit : String.utf8EncodeChar c = (bytes ++ [b]) ++ (b' :: rest) := by
      rw [h, List.append_assoc, List.singleton_append]
    rw [feed_cons]
    show Row.feed width (Row.receiveUtf8 width { r with parser := .utf8 bytes } (bytes ++ [b])) _ = _
    rw [receiveUtf8_proper hsplit (List.cons_ne_nil _ _)]
    exact feed_utf8 (b' :: rest) r hsplit (List.cons_ne_nil _ _)

/-- A byte of a character that is no control character is none itself. -/
theorem byte_of_character {c : Char} (hc : isControl c = false) {b : UInt8}
    (hb : b ∈ String.utf8EncodeChar c) : ¬ b < 0x20 ∧ b ≠ 0x7f ∧ b ≠ 0x1b := by
  have hcontrol : ∀ n < 128, (n < 0x20 ∨ n = 0x7f) → b ≠ UInt8.ofNat n := by
    rintro n hn hrange rfl
    by_cases hne : c = Char.ofNat n
    · subst hne
      have hvalue : (Char.ofNat n).toNat = n := by
        rw [Char.toNat_ofNat, if_pos (.inl (by omega))]
      rw [isControl, decide_eq_false_iff_not, hvalue] at hc
      omega
    · exact Text.ascii_notMem_utf8EncodeChar hn hne hb
  refine ⟨fun hlt => ?_, hcontrol 0x7f (by omega) (.inr rfl), hcontrol 0x1b (by omega) (by omega)⟩
  have hnat : b.toNat < 0x20 := UInt8.lt_iff_toNat_lt.mp hlt
  exact hcontrol b.toNat (by omega) (.inl hnat) UInt8.ofNat_toNat.symm

/-- **The bytes of a character print it.** -/
theorem feed_character (hground : r.parser = .ground) {c : Char} (hc : isControl c = false) :
    r.feed width (String.utf8EncodeChar c) = r.print width c := by
  have hsame : ({ r with parser := .ground } : Row) = r := by
    rw [← hground]
  cases hbytes : String.utf8EncodeChar c with
  | nil =>
    have hlength := congrArg List.length hbytes
    rw [String.length_utf8EncodeChar] at hlength
    exact absurd hlength (Nat.ne_of_gt c.utf8Size_pos)
  | cons b rest =>
    obtain ⟨hprintable, hdelete, hescape⟩ := byte_of_character hc
      (hbytes ▸ List.mem_cons_self : b ∈ String.utf8EncodeChar c)
    have hfirst : r.receive width b = r.receiveUtf8 width [b] := by
      unfold receive
      rw [hground]
      simp only
      rw [if_neg hescape, if_neg (not_or.mpr ⟨hprintable, hdelete⟩)]
    rw [feed_cons, hfirst]
    cases rest with
    | nil =>
      rw [← hbytes, receiveUtf8_encode, hsame]
      rfl
    | cons b' rest =>
      rw [receiveUtf8_proper hbytes (List.cons_ne_nil _ _), feed_utf8 _ r hbytes
        (List.cons_ne_nil _ _), hsame]

/-! ## Control sequences -/

theorem feed_introducer (hground : r.parser = .ground) :
    r.feed width (escape ++ ascii "[") = { r with parser := .csi [] none } := by
  show (r.receive width 0x1b).receive width 0x5b = _
  unfold receive
  rw [hground]
  rfl

theorem receive_digit {parameters : List Nat} {current : Option Nat} {c : Char}
    (hc : c.isDigit = true) :
    ({ r with parser := .csi parameters current } : Row).receive width (UInt8.ofNat c.toNat) =
      { r with parser := .csi parameters (some (10 * current.getD 0 + (c.toNat - '0'.toNat))) } := by
  have hrange : 48 ≤ c.toNat ∧ c.toNat ≤ 57 := by
    rw [Char.isDigit, Bool.and_eq_true, decide_eq_true_eq, decide_eq_true_eq] at hc
    exact ⟨UInt32.le_iff_toNat_le.mp hc.1, UInt32.le_iff_toNat_le.mp hc.2⟩
  have hvalue : (UInt8.ofNat c.toNat).toNat = c.toNat := UInt8.toNat_ofNat_of_lt' (show c.toNat < 256 by omega)
  have hdigit : (0x30 : UInt8) ≤ UInt8.ofNat c.toNat ∧ UInt8.ofNat c.toNat ≤ 0x39 := by
    rw [UInt8.le_iff_toNat_le, UInt8.le_iff_toNat_le, hvalue]
    exact hrange
  show ({ r with parser := .csi parameters current } : Row).receiveCsi parameters current _ = _
  unfold receiveCsi
  rw [if_pos hdigit, hvalue, Nat.mul_comm]
  rfl

/-- The digits of a number add up. -/
theorem feed_digits {parameters : List Nat} : ∀ (digits : List Char) (current : Nat),
    (∀ c ∈ digits, c.isDigit = true) →
    ({ r with parser := .csi parameters (some current) } : Row).feed width
        (digits.map fun c => UInt8.ofNat c.toNat) =
      { r with parser := .csi parameters (some (Nat.ofDigitChars 10 digits current)) }
  | [], current, _ => by rw [Nat.ofDigitChars_nil, List.map_nil, feed_nil]
  | c :: digits, current, h => by
    rw [List.map_cons, feed_cons, receive_digit (h c List.mem_cons_self), Nat.ofDigitChars_cons]
    exact feed_digits digits _ fun d hd => h d (List.mem_cons_of_mem _ hd)

/-- **A number in decimal is read back.** -/
theorem feed_decimal (r : Row) (parameters : List Nat) (n : Nat) :
    ({ r with parser := .csi parameters none } : Row).feed width (decimal n) =
      { r with parser := .csi parameters (some n) } := by
  have hvalue : Nat.ofDigitChars 10 (toString n).toList 0 = n := by
    rw [Nat.toString_eq_repr, Nat.toList_repr]
    exact Nat.ofDigitChars_ten_toDigits
  have hall : ∀ c ∈ (toString n).toList, c.isDigit = true := fun c hc => Text.isDigit_of_mem_repr hc
  unfold decimal ascii
  cases hdigits : (toString n).toList with
  | nil => exact absurd hdigits (Text.toString_ne_nil n)
  | cons c digits =>
    rw [hdigits] at hvalue hall
    rw [List.map_cons, feed_cons, receive_digit (hall c List.mem_cons_self),
      feed_digits digits _ fun d hd => hall d (List.mem_cons_of_mem _ hd)]
    rw [Nat.ofDigitChars_cons] at hvalue
    rw [Option.getD_none, hvalue]

/-- The last byte of a control sequence. -/
theorem feed_final (r : Row) (parameters : List Nat) (current : Option Nat) {b : UInt8}
    (hb : 0x40 ≤ b ∧ b ≤ 0x7e) :
    ({ r with parser := .csi parameters current } : Row).feed width [b] =
      ({ r with parser := .ground } : Row).dispatch (parameters ++ current.toList) b := by
  have hdigit : ¬ (0x30 ≤ b ∧ b ≤ 0x39) := by
    rintro ⟨-, hle⟩
    exact absurd (UInt8.le_trans hb.1 hle) (by decide)
  have hsemicolon : b ≠ 0x3b := by
    rintro rfl
    exact absurd hb.1 (by decide)
  show ({ r with parser := .csi parameters current } : Row).receiveCsi parameters current b = _
  unfold receiveCsi
  rw [if_neg hdigit, if_neg hsemicolon, if_pos hb]

theorem ground_eq (hground : r.parser = .ground) : ({ r with parser := .ground } : Row) = r := by
  rw [← hground]

/-- A control sequence without parameters. -/
theorem feed_plain (hground : r.parser = .ground) {b : UInt8} (hb : 0x40 ≤ b ∧ b ≤ 0x7e) :
    r.feed width (escape ++ ascii "[" ++ [b]) = r.dispatch [] b := by
  rw [feed_append, feed_introducer hground, feed_final _ _ _ hb, ground_eq hground]
  rfl

/-- A control sequence with one parameter. -/
theorem feed_one (hground : r.parser = .ground) (n : Nat) {b : UInt8} (hb : 0x40 ≤ b ∧ b ≤ 0x7e) :
    r.feed width (escape ++ ascii "[" ++ decimal n ++ [b]) = r.dispatch [n] b := by
  rw [feed_append, feed_append, feed_introducer hground, feed_decimal, feed_final _ _ _ hb,
    ground_eq hground]
  rfl

theorem feed_semicolon (r : Row) (parameters : List Nat) (n : Nat) :
    ({ r with parser := .csi parameters (some n) } : Row).feed width (ascii ";") =
      { r with parser := .csi (parameters ++ [n]) none } := rfl

/-- A control sequence with two parameters. -/
theorem feed_two (hground : r.parser = .ground) (m n : Nat) {b : UInt8}
    (hb : 0x40 ≤ b ∧ b ≤ 0x7e) :
    r.feed width (escape ++ ascii "[" ++ decimal m ++ ascii ";" ++ decimal n ++ [b]) =
      r.dispatch [m, n] b := by
  rw [feed_append, feed_append, feed_append, feed_append, feed_introducer hground, feed_decimal,
    feed_semicolon, feed_decimal, feed_final _ _ _ hb, ground_eq hground]
  rfl

theorem feed_insertCharacter (hground : r.parser = .ground) :
    r.feed width insertCharacter = r.edit (insertCells 1 r.cursorColumn) :=
  feed_plain hground (by decide : (0x40 : UInt8) ≤ 0x40 ∧ (0x40 : UInt8) ≤ 0x7e)

theorem feed_deleteCharacter (hground : r.parser = .ground) :
    r.feed width deleteCharacter = r.edit (deleteCells 1 r.cursorColumn) :=
  feed_plain hground (by decide : (0x40 : UInt8) ≤ 0x50 ∧ (0x50 : UInt8) ≤ 0x7e)

theorem feed_cursorLeft (hground : r.parser = .ground) :
    r.feed width cursorLeft = r.moveTo (r.cursorColumn - 1) :=
  feed_plain hground (by decide : (0x40 : UInt8) ≤ 0x44 ∧ (0x44 : UInt8) ≤ 0x7e)

theorem feed_cursorRight (hground : r.parser = .ground) :
    r.feed width cursorRight = r.moveTo (r.cursorColumn + 1) :=
  feed_plain hground (by decide : (0x40 : UInt8) ≤ 0x43 ∧ (0x43 : UInt8) ≤ 0x7e)

/-! ## Renditions -/

/-- Numbers with semicolons between them. -/
def joined : List Nat → Bytes
  | [] => []
  | [n] => decimal n
  | n :: rest => decimal n ++ ascii ";" ++ joined rest

/-- The control sequence that selects renditions. -/
def rendition (codes : List Nat) : Bytes := escape ++ ascii "[" ++ joined codes ++ ascii "m"

theorem feed_joined (r : Row) : ∀ (codes parameters : List Nat), ∃ parameters' current,
    ({ r with parser := .csi parameters none } : Row).feed width (joined codes) =
      { r with parser := .csi parameters' current }
  | [], parameters => ⟨parameters, none, rfl⟩
  | [n], parameters => ⟨parameters, some n, feed_decimal r parameters n⟩
  | n :: m :: rest, parameters => by
    obtain ⟨parameters', current, hrest⟩ := feed_joined r (m :: rest) (parameters ++ [n])
    refine ⟨parameters', current, ?_⟩
    rw [joined, feed_append, feed_append, feed_decimal, feed_semicolon]
    · exact hrest
    · exact List.cons_ne_nil m rest

/-- **A rendition changes no cell.** -/
theorem feed_rendition (hground : r.parser = .ground) (codes : List Nat) :
    r.feed width (rendition codes) = r := by
  obtain ⟨parameters, current, hjoined⟩ := @feed_joined width r codes []
  unfold rendition
  rw [feed_append, feed_append, feed_introducer hground, hjoined]
  have hfinal := @feed_final width r parameters current _
    (by decide : (0x40 : UInt8) ≤ 0x6d ∧ (0x6d : UInt8) ≤ 0x7e)
  rw [ground_eq hground] at hfinal
  exact hfinal

theorem feed_underlineRendition (hground : r.parser = .ground) :
    r.feed width underlineRendition = r := by
  have hbytes : underlineRendition = rendition [4] := by decide
  rw [hbytes, feed_rendition hground]

end Row

end OxideTerm.Predict
