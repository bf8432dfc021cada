import OxideTerm.Editor.Boundaries
import OxideTerm.Lib.Text

/-!
# Where the caret goes

Moves by a character, by a word and to an end of a line leave the caret on a scalar boundary. A move
to the line above or below keeps the column, whatever stands there: the caret stays on a scalar
boundary if and only if the column is one of that line, or past its end.
-/

namespace OxideTerm.Editor

open Lib Lib.Text

variable {value front back rest : List Char} {n m offset : Nat}

/-! ## Moves by a character -/

/-- The loop has read `front` and keeps a boundary of what it has read. -/
theorem previousUtf16BoundaryFrom_isBoundary (offset : Nat) {previous : Nat}
    (hprevious : IsScalarBoundary (front ++ rest) previous) :
    IsScalarBoundary (front ++ rest)
      (previousUtf16BoundaryFrom offset rest previous (utf16Length front)) := by
  induction rest generalizing front previous with
  | nil => exact hprevious
  | cons ch rest ih =>
    rw [previousUtf16BoundaryFrom]
    split
    next => exact hprevious
    next =>
      have hstep := @ih (front ++ [ch]) (utf16Length front)
      rw [List.append_assoc, List.singleton_append, utf16Length_append] at hstep
      exact hstep isBoundary_append

theorem previousUtf16Boundary_isBoundary (value : List Char) (offset : Nat) :
    IsScalarBoundary value (previousUtf16Boundary value offset) :=
  @previousUtf16BoundaryFrom_isBoundary [] value offset 0 isBoundary_zero

theorem nextUtf16BoundaryFrom_isBoundary (offset : Nat) :
    IsScalarBoundary (front ++ rest) (nextUtf16BoundaryFrom offset rest (utf16Length front)) := by
  induction rest generalizing front with
  | nil =>
    rw [List.append_nil]
    exact isBoundary_weight
  | cons ch rest ih =>
    have happend : front ++ ch :: rest = (front ++ [ch]) ++ rest := by simp
    have hlength : utf16Length front + lenUtf16 ch = utf16Length (front ++ [ch]) := by simp
    rw [nextUtf16BoundaryFrom, hlength, happend]
    split
    next => exact isBoundary_append
    next => exact ih

theorem nextUtf16Boundary_isBoundary (value : List Char) (offset : Nat) :
    IsScalarBoundary value (nextUtf16Boundary value offset) :=
  @nextUtf16BoundaryFrom_isBoundary [] value offset

/-! ## Moves by a word -/

theorem charIndices_append (a b : List Char) (k : Nat) :
    charIndices (a ++ b) k = charIndices a k ++ charIndices b (k + byteLength a) := by
  induction a generalizing k with
  | nil => simp [charIndices]
  | cons ch a ih => simp [charIndices, ih, Nat.add_assoc]

/-- A character is indexed by what is before it. -/
theorem exists_of_mem_charIndices {i k : Nat} {ch : Char} (h : (i, ch) ∈ charIndices value k) :
    ∃ front back, value = front ++ ch :: back ∧ i = k + byteLength front := by
  induction value generalizing k with
  | nil => exact absurd h List.not_mem_nil
  | cons first value ih =>
    rw [charIndices, List.mem_cons] at h
    rcases h with h | h
    · obtain ⟨rfl, rfl⟩ := Prod.mk.inj h
      exact ⟨[], value, rfl, rfl⟩
    · obtain ⟨front, back, rfl, rfl⟩ := ih h
      exact ⟨first :: front, back, rfl, by rw [byteLength_cons, Nat.add_assoc]⟩

theorem previousWordBoundaryIn_isBoundary {indices : List (Nat × Char)} (sawWord : Bool)
    (h : ∀ entry ∈ indices, ∃ front, sliceTo value (entry.1 + entry.2.utf8Size) = some front) :
    ∃ n, previousWordBoundaryIn value indices sawWord = some n ∧ IsScalarBoundary value n := by
  induction indices generalizing sawWord with
  | nil => exact ⟨0, rfl, isBoundary_zero⟩
  | cons entry indices ih =>
    obtain ⟨⟨front, hfront⟩, hrest⟩ := List.forall_mem_cons.mp h
    rw [previousWordBoundaryIn]
    split
    next =>
      split
      next =>
        rw [hfront]
        exact ⟨utf16Length front, rfl, isScalarBoundary_of_sliceTo hfront⟩
      next => exact ih sawWord hrest
    next => exact ih true hrest

theorem previousWordBoundary_isBoundary (value : List Char) (offset : Nat) :
    ∃ n, previousWordBoundary value offset = some n ∧ IsScalarBoundary value n := by
  obtain ⟨before, behind, htext, hlength⟩ := @byteIndexForUtf16_isBoundary value offset
  have hslice : sliceTo value (byteIndexForUtf16 value offset) = some before := by
    rw [← hlength, htext]
    exact sliceTo_byteLength behind before
  obtain ⟨n, hn, hboundary⟩ := @previousWordBoundaryIn_isBoundary before
    (charIndices before 0).reverse false (by
      intro entry hentry
      obtain ⟨front, back, htext, hindex⟩ := exists_of_mem_charIndices (List.mem_reverse.mp hentry)
      refine ⟨front ++ [entry.2], ?_⟩
      have hslice := sliceTo_byteLength back (front ++ [entry.2])
      rw [byteLength_append, List.append_assoc, List.singleton_append, ← htext] at hslice
      rw [hindex, Nat.zero_add]
      exact hslice)
  refine ⟨n, ?_, by rw [htext]; exact hboundary.left⟩
  rw [previousWordBoundary, hslice, Option.bind_some, hn]

theorem nextWordBoundaryIn_isBoundary {indices : List (Nat × Char)} {current : Nat}
    (sawWord : Bool)
    (h : ∀ entry ∈ indices, ∃ front, sliceTo value (current + entry.1) = some front) :
    ∃ n, nextWordBoundaryIn value current indices sawWord = some n ∧ IsScalarBoundary value n := by
  induction indices generalizing sawWord with
  | nil => exact ⟨utf16Length value, rfl, isBoundary_weight⟩
  | cons entry indices ih =>
    obtain ⟨⟨front, hfront⟩, hrest⟩ := List.forall_mem_cons.mp h
    rw [nextWordBoundaryIn]
    split
    next =>
      split
      next =>
        rw [hfront]
        exact ⟨utf16Length front, rfl, isScalarBoundary_of_sliceTo hfront⟩
      next => exact ih sawWord hrest
    next => exact ih true hrest

theorem nextWordBoundary_isBoundary (value : List Char) (offset : Nat) :
    ∃ n, nextWordBoundary value offset = some n ∧ IsScalarBoundary value n := by
  obtain ⟨before, behind, htext, hlength⟩ := @byteIndexForUtf16_isBoundary value offset
  have hslice : sliceFrom value (byteIndexForUtf16 value offset) = some behind := by
    rw [← hlength, htext]
    exact sliceFrom_byteLength behind before
  rw [nextWordBoundary, hslice, Option.bind_some]
  refine nextWordBoundaryIn_isBoundary false ?_
  intro entry hentry
  obtain ⟨front, back, rfl, hindex⟩ := exists_of_mem_charIndices hentry
  refine ⟨before ++ front, ?_⟩
  have hslice := sliceTo_byteLength (entry.2 :: back) (before ++ front)
  rw [byteLength_append, List.append_assoc, ← htext] at hslice
  rw [hindex, Nat.zero_add, ← hlength]
  exact hslice

/-! ## The word under the caret -/

/-- The previous character starts at a boundary, before a position that is not the start. -/
theorem previousCharStart_isBoundary (h : IsByteBoundary value n) :
    ∃ m, previousCharStart value n = some m ∧ IsByteBoundary value m ∧ (0 < n → m < n) := by
  obtain ⟨front, back, rfl, rfl⟩ := h
  have hslice : sliceTo (front ++ back) (weight Char.utf8Size front) = some front :=
    sliceTo_byteLength back front
  rw [previousCharStart, hslice]
  rcases List.eq_nil_or_concat front with rfl | ⟨front, ch, rfl⟩
  · exact ⟨0, rfl, isBoundary_zero, fun h => absurd h (Nat.lt_irrefl 0)⟩
  · refine ⟨byteLength front, ?_, ?_, fun _ => ?_⟩
    · simp [charIndices_append, charIndices]
    · rw [List.concat_eq_append, List.append_assoc]
      exact isBoundary_append
    · rw [List.concat_eq_append, weight_append, byteLength_eq_weight]
      have hpos := ch.utf8Size_pos
      simp only [weight_cons, weight_nil]
      omega

/-- A character at a boundary ends at a boundary. -/
theorem charAt_of_isBoundary (h : IsByteBoundary value n) :
    ∃ ch, charAt value n = some ch ∧
      ∀ c, ch = some c → IsByteBoundary value (n + c.utf8Size) := by
  obtain ⟨front, back, rfl, rfl⟩ := h
  have hslice : sliceFrom (front ++ back) (weight Char.utf8Size front) = some back :=
    sliceFrom_byteLength back front
  refine ⟨back.head?, by rw [charAt, hslice]; rfl, ?_⟩
  intro c hc
  obtain ⟨back, rfl⟩ := List.head?_eq_some_iff.mp hc
  refine IsBoundary.right (isBoundary_cons.mpr (.inr ⟨Nat.le_refl _, ?_⟩))
  rw [Nat.sub_self]
  exact isBoundary_zero

/-- Each pass of the first loop moves back, so that the fuel lasts. -/
theorem wordStart_isBoundary {fuel start : Nat} (h : IsByteBoundary value start)
    (hfuel : start < fuel) :
    ∃ n, wordStart value fuel start = some n ∧ IsByteBoundary value n := by
  induction fuel generalizing start with
  | zero => exact absurd hfuel (Nat.not_lt_zero _)
  | succ fuel ih =>
    rw [wordStart]
    split
    next => exact ⟨start, rfl, h⟩
    next hne =>
      obtain ⟨previous, hprevious, hboundary, hlt⟩ := previousCharStart_isBoundary h
      obtain ⟨ch, hch, -⟩ := charAt_of_isBoundary hboundary
      rw [hprevious, Option.bind_some, hch, Option.bind_some]
      cases ch with
      | none => exact ⟨start, rfl, h⟩
      | some ch =>
        have hless := hlt (Nat.pos_of_ne_zero hne)
        by_cases hspace : isWhitespace ch
        · exact ⟨start, if_pos hspace, h⟩
        · obtain ⟨n, hn, hstop⟩ := ih hboundary (by omega)
          exact ⟨n, (if_neg hspace).trans hn, hstop⟩

/-- Each pass of the second loop moves on, so that the fuel lasts. -/
theorem wordEnd_isBoundary {fuel stop : Nat} (h : IsByteBoundary value stop)
    (hfuel : byteLength value < fuel + stop) :
    ∃ n, wordEnd value fuel stop = some n ∧ IsByteBoundary value n := by
  induction fuel generalizing stop with
  | zero => exact absurd h.le (by rw [← byteLength_eq_weight]; omega)
  | succ fuel ih =>
    rw [wordEnd]
    split
    next =>
      obtain ⟨ch, hch, hnext⟩ := charAt_of_isBoundary h
      rw [hch, Option.bind_some]
      cases ch with
      | none => exact ⟨stop, rfl, h⟩
      | some ch =>
        have hpos := ch.utf8Size_pos
        by_cases hspace : isWhitespace ch
        · exact ⟨stop, if_pos hspace, h⟩
        · obtain ⟨n, hn, hstop⟩ := ih (hnext ch rfl) (by omega)
          exact ⟨n, (if_neg hspace).trans hn, hstop⟩
    next => exact ⟨stop, rfl, h⟩

theorem onLastChar_isBoundary (h : IsByteBoundary value n) :
    ∃ i, onLastChar value n = some i ∧ IsByteBoundary value i := by
  rw [onLastChar]
  split
  next =>
    obtain ⟨i, hi, hboundary, -⟩ := previousCharStart_isBoundary h
    exact ⟨i, hi, hboundary⟩
  next => exact ⟨n, rfl, h⟩

theorem onWordBefore_isBoundary (h : IsByteBoundary value n) :
    ∃ i, onWordBefore value n = some i ∧ IsByteBoundary value i := by
  obtain ⟨ch, hch, -⟩ := charAt_of_isBoundary h
  rw [onWordBefore, hch, Option.bind_some]
  split
  next =>
    obtain ⟨previous, hprevious, hbefore, -⟩ := previousCharStart_isBoundary h
    obtain ⟨before, hbeforeChar, -⟩ := charAt_of_isBoundary hbefore
    rw [hprevious, Option.bind_some, hbeforeChar, Option.bind_some]
    split
    next => exact ⟨n, rfl, h⟩
    next => exact ⟨previous, rfl, hbefore⟩
  next => exact ⟨n, rfl, h⟩

theorem wordRangeForUtf16Offset_isBoundary (value : List Char) (offset : Nat) :
    ∃ range, wordRangeForUtf16Offset value offset = some range ∧
      IsScalarBoundary value range.start ∧ IsScalarBoundary value range.stop := by
  rw [wordRangeForUtf16Offset]
  split
  next => exact ⟨⟨0, 0⟩, rfl, isBoundary_zero, isBoundary_zero⟩
  next =>
    obtain ⟨i, hi, hlast⟩ := onLastChar_isBoundary
      (@byteIndexForUtf16_isBoundary value (min offset (utf16Length value)))
    obtain ⟨j, hj, hboundary⟩ := onWordBefore_isBoundary hlast
    have hle : j ≤ byteLength value := hboundary.le
    obtain ⟨start, hstart, hstartBoundary⟩ :=
      wordStart_isBoundary hboundary (Nat.lt_succ_of_le hle)
    obtain ⟨stop, hstop, hstopBoundary⟩ := @wordEnd_isBoundary value (byteLength value + 1) j
      hboundary (by omega)
    obtain ⟨first, hfirst, hfirstBoundary⟩ := utf16OffsetForByteIndex_of_isBoundary hstartBoundary
    obtain ⟨last, hlast, hlastBoundary⟩ := utf16OffsetForByteIndex_of_isBoundary hstopBoundary
    refine ⟨⟨first, last⟩, ?_, hfirstBoundary, hlastBoundary⟩
    simp only [hi, hj, hstart, hstop, hfirst, hlast, Option.bind_eq_bind, Option.bind_some]

/-! ## Lines -/

/-- Where a line starts, behind the lines before it and their newlines. -/
def lineStart (lines : List (List Char)) (k : Nat) : Nat :=
  ((lines.take k).map fun line => utf16Length line + 1).sum

/-- The ranges of lines that follow one another. -/
def rangesOf : Nat → List (List Char) → List Range
  | _, [] => []
  | start, line :: lines =>
    ⟨start, start + utf16Length line⟩ :: rangesOf (start + utf16Length line + 1) lines

@[simp] theorem lineStart_zero (lines : List (List Char)) : lineStart lines 0 = 0 := rfl

@[simp] theorem lineStart_cons_succ (line : List Char) (lines : List (List Char)) (k : Nat) :
    lineStart (line :: lines) (k + 1) = utf16Length line + 1 + lineStart lines k := rfl

theorem lineStart_succ {lines : List (List Char)} {k : Nat} {line : List Char}
    (h : lines[k]? = some line) :
    lineStart lines (k + 1) = lineStart lines k + utf16Length line + 1 := by
  rw [lineStart, List.take_add_one, h, List.map_append, List.sum_append]
  simp [lineStart, Nat.add_assoc]

theorem lineStart_mono {lines : List (List Char)} {j k : Nat} (h : j ≤ k) :
    lineStart lines j ≤ lineStart lines k :=
  weight_le_of_prefix (List.take_prefix_take_left h)

theorem getElem?_rangesOf (lines : List (List Char)) (start k : Nat) :
    (rangesOf start lines)[k]? = lines[k]?.map fun line =>
      ⟨start + lineStart lines k, start + lineStart lines k + utf16Length line⟩ := by
  induction lines generalizing start k with
  | nil => rfl
  | cons line lines ih =>
    cases k with
    | zero => rfl
    | succ k => simp [rangesOf, ih, Nat.add_assoc]

theorem exists_split_eq_cons (value : List Char) :
    ∃ part parts, split '\n' value = part :: parts := by
  cases value with
  | nil => exact ⟨[], [], rfl⟩
  | cons ch rest =>
    rw [split]
    split
    next => exact ⟨[], _, rfl⟩
    next =>
      split
      next => exact ⟨[ch], [], rfl⟩
      next part parts _ => exact ⟨ch :: part, parts, rfl⟩

theorem split_cons_of_ne {ch : Char} (h : ch ≠ '\n') {part : List Char}
    {parts : List (List Char)} (hrest : split '\n' rest = part :: parts) :
    split '\n' (ch :: rest) = (ch :: part) :: parts := by
  rw [split, if_neg h, hrest]

/-- The loop has read `front` of a line. -/
theorem lineRangesFrom_eq (value : List Char) : ∀ {front part : List Char}
    {parts : List (List Char)} {start : Nat}, split '\n' value = part :: parts →
      lineRangesFrom value start (start + utf16Length front) =
        rangesOf start ((front ++ part) :: parts) := by
  induction value with
  | nil =>
    intro front part parts start h
    cases h
    simp [lineRangesFrom, rangesOf]
  | cons ch rest ih =>
    intro front part parts start h
    obtain ⟨first, others, hrest⟩ := exists_split_eq_cons rest
    rw [lineRangesFrom]
    split
    next hch =>
      subst hch
      rw [split, if_pos rfl, hrest] at h
      obtain ⟨rfl, rfl⟩ := List.cons.inj h
      have hnext := @ih [] first others (start + utf16Length front + 1) hrest
      simp only [utf16Length_nil, Nat.add_zero, List.nil_append] at hnext
      simp [rangesOf, show lenUtf16 '\n' = 1 from rfl, hnext]
    next hch =>
      rw [split_cons_of_ne hch hrest] at h
      obtain ⟨rfl, rfl⟩ := List.cons.inj h
      have hnext := @ih (front ++ [ch]) first others start hrest
      rw [utf16Length_append, ← Nat.add_assoc, List.append_assoc] at hnext
      exact hnext

theorem lineRangesUtf16_eq (value : List Char) :
    lineRangesUtf16 value = rangesOf 0 (split '\n' value) := by
  obtain ⟨part, parts, h⟩ := exists_split_eq_cons value
  rw [h]
  exact @lineRangesFrom_eq value [] part parts 0 h

/-- A line stands behind the lines before it. -/
theorem exists_of_getElem?_split {k : Nat} {line : List Char}
    (h : (split '\n' value)[k]? = some line) : ∃ before after,
      value = before ++ (line ++ after) ∧ utf16Length before = lineStart (split '\n' value) k := by
  induction value generalizing k line with
  | nil =>
    cases k with
    | zero => exact ⟨[], [], by cases h; rfl, rfl⟩
    | succ k => cases h
  | cons ch rest ih =>
    obtain ⟨part, parts, hrest⟩ := exists_split_eq_cons rest
    by_cases hch : ch = '\n'
    · subst hch
      rw [split, if_pos rfl] at h ⊢
      cases k with
      | zero =>
        cases h
        exact ⟨[], '\n' :: rest, rfl, rfl⟩
      | succ k =>
        obtain ⟨before, after, htext, hlength⟩ := ih h
        refine ⟨'\n' :: before, after, by rw [htext]; rfl, ?_⟩
        rw [utf16Length_cons, hlength]
        rfl
    · rw [split_cons_of_ne hch hrest] at h ⊢
      rw [hrest] at ih
      cases k with
      | zero =>
        cases h
        -- nothing but the line itself stands before the rest of the first line
        obtain ⟨before, after, htext, hlength⟩ := ih (k := 0) rfl
        obtain rfl := weight_eq_zero lenUtf16_pos hlength
        exact ⟨[], after, by rw [htext]; rfl, rfl⟩
      | succ k =>
        obtain ⟨before, after, htext, hlength⟩ := ih (k := k + 1) h
        refine ⟨ch :: before, after, by rw [htext]; rfl, ?_⟩
        rw [utf16Length_cons, hlength, lineStart_cons_succ, lineStart_cons_succ, utf16Length_cons]
        omega

/-- The newline that the last line lacks is counted once too often. -/
theorem lineStart_length (value : List Char) :
    lineStart (split '\n' value) (split '\n' value).length = utf16Length value + 1 := by
  induction value with
  | nil => rfl
  | cons ch rest ih =>
    obtain ⟨part, parts, hrest⟩ := exists_split_eq_cons rest
    by_cases hch : ch = '\n'
    · subst hch
      rw [split, if_pos rfl, List.length_cons, lineStart_cons_succ, ih, utf16Length_cons]
      rw [utf16Length_nil, show lenUtf16 '\n' = 1 from rfl]
      omega
    · rw [hrest, List.length_cons, lineStart_cons_succ] at ih
      rw [split_cons_of_ne hch hrest, List.length_cons, lineStart_cons_succ, utf16Length_cons,
        utf16Length_cons]
      omega

/-- The boundaries on a line are those of the line. -/
theorem isScalarBoundary_line_iff {k : Nat} {line : List Char}
    (h : (split '\n' value)[k]? = some line) (hle : n ≤ utf16Length line) :
    IsScalarBoundary value (lineStart (split '\n' value) k + n) ↔ IsScalarBoundary line n := by
  obtain ⟨before, after, htext, hlength⟩ := exists_of_getElem?_split h
  rw [← hlength]
  generalize hlines : split '\n' value = lines at *
  rw [htext]
  exact isBoundary_append_right.trans (isBoundary_append_left lenUtf16_pos hle)

theorem isScalarBoundary_lineStart {k : Nat} {line : List Char}
    (h : (split '\n' value)[k]? = some line) :
    IsScalarBoundary value (lineStart (split '\n' value) k) :=
  (isScalarBoundary_line_iff (n := 0) h (Nat.zero_le _)).mpr isBoundary_zero

theorem isScalarBoundary_lineEnd {k : Nat} {line : List Char}
    (h : (split '\n' value)[k]? = some line) :
    IsScalarBoundary value (lineStart (split '\n' value) k + utf16Length line) :=
  (isScalarBoundary_line_iff h (Nat.le_refl _)).mpr isBoundary_weight

/-- The range that is found is that of a line, or empty at the end. -/
theorem lineRangeForUtf16Offset_isBoundary (value : List Char) (offset : Nat) :
    IsScalarBoundary value (lineStartForUtf16Offset value offset) ∧
      IsScalarBoundary value (lineEndForUtf16Offset value offset) := by
  rw [lineStartForUtf16Offset, lineEndForUtf16Offset, lineRangeForUtf16Offset]
  cases hfound : (lineRangesUtf16 value).find? fun range => offset ≤ range.stop with
  | none => exact ⟨isBoundary_weight, isBoundary_weight⟩
  | some range =>
    obtain ⟨k, hk⟩ := List.mem_iff_getElem?.mp (List.mem_of_find?_eq_some hfound)
    rw [lineRangesUtf16_eq, getElem?_rangesOf] at hk
    obtain ⟨line, hline, rfl⟩ := Option.map_eq_some_iff.mp hk
    simp only [Option.getD_some, Nat.zero_add]
    exact ⟨isScalarBoundary_lineStart hline, isScalarBoundary_lineEnd hline⟩

theorem controlKDeleteEnd_isBoundary (value : List Char) (offset : Nat) :
    IsScalarBoundary value (controlKDeleteEnd value offset) := by
  rw [controlKDeleteEnd]
  split
  next => exact (lineRangeForUtf16Offset_isBoundary value offset).2
  next => exact nextUtf16Boundary_isBoundary value offset

/-! ## Moves to another line -/

/-- The caret is on the `k`-th line, at a column that is not past its end. -/
structure IsCaretAt (lines : List (List Char)) (offset k column : Nat) (line : List Char) :
    Prop where
  line_eq : lines[k]? = some line
  offset_eq : offset = lineStart lines k + column
  column_le : column ≤ utf16Length line

/-- A line above or below the `k`-th. -/
def IsNeighbour (lines : List (List Char)) (k : Nat) (neighbour : List Char) : Prop :=
  lines[k + 1]? = some neighbour ∨ ∃ j, k = j + 1 ∧ lines[j]? = some neighbour

/-- A column can be kept on a line that it is past, or where it is not inside a pair. -/
def Fits (column : Nat) (line : List Char) : Prop :=
  utf16Length line ≤ column ∨ IsScalarBoundary line column

/-- The column of the caret fits the lines above and below. -/
def ColumnFits (value : List Char) (offset : Nat) : Prop :=
  ∀ k column line, IsCaretAt (split '\n' value) offset k column line →
    ∀ neighbour, IsNeighbour (split '\n' value) k neighbour → Fits column neighbour

/-- A position is on one line only. -/
theorem IsCaretAt.unique {lines : List (List Char)} {j k column column' : Nat}
    {line line' : List Char} (h : IsCaretAt lines offset j column line)
    (h' : IsCaretAt lines offset k column' line') : j = k ∧ column = column' := by
  have ordered : ∀ {j k column column' : Nat} {line line' : List Char},
      IsCaretAt lines offset j column line → IsCaretAt lines offset k column' line' → ¬ j < k := by
    intro j k column column' line line' h h' hlt
    have hnext := lineStart_succ h.line_eq
    have hmono : lineStart lines (j + 1) ≤ lineStart lines k := lineStart_mono hlt
    have hoffset := h.offset_eq
    have hoffset' := h'.offset_eq
    have hcolumn := h.column_le
    omega
  have heq : j = k := by
    have hle := ordered h h'
    have hge := ordered h' h
    omega
  refine ⟨heq, ?_⟩
  have hoffset := h.offset_eq
  rw [h'.offset_eq, heq] at hoffset
  omega

/-- The search for the line of the caret finds it. -/
theorem exists_isCaretAt (h : offset ≤ utf16Length value) : ∃ k column line,
    (lineRangesUtf16 value).findIdx? (fun range => offset ≤ range.stop) = some k ∧
      IsCaretAt (split '\n' value) offset k column line := by
  rw [lineRangesUtf16_eq]
  generalize hlines : split '\n' value = lines
  have htotal := lineStart_length value
  rw [hlines] at htotal
  cases hfound : (rangesOf 0 lines).findIdx? fun range => offset ≤ range.stop with
  | none =>
    -- the last line ends where the text does
    exfalso
    obtain ⟨part, parts, hsplit⟩ := exists_split_eq_cons value
    have hlast : lines[lines.length - 1]? = some (lines.getLast (by simp [← hlines, hsplit])) := by
      rw [← List.getLast?_eq_getElem?, List.getLast?_eq_some_getLast]
    have hstart := lineStart_succ hlast
    rw [Nat.sub_add_cancel (by simp [← hlines, hsplit])] at hstart
    have hrange := getElem?_rangesOf lines 0 (lines.length - 1)
    rw [hlast, Option.map_some, Nat.zero_add] at hrange
    have hmiss := List.findIdx?_eq_none_iff.mp hfound _ (List.mem_of_getElem? hrange)
    simp only [decide_eq_false_iff_not] at hmiss
    omega
  | some k =>
    obtain ⟨hk, hhit, hbefore⟩ := List.findIdx?_eq_some_iff_getElem.mp hfound
    have hrange := List.getElem?_eq_getElem hk
    rw [getElem?_rangesOf, Option.map_eq_some_iff] at hrange
    obtain ⟨line, hline, hrange⟩ := hrange
    rw [← hrange] at hhit
    simp only [decide_eq_true_eq, Nat.zero_add] at hhit
    have hstart : lineStart lines k ≤ offset := by
      cases k with
      | zero => exact Nat.zero_le _
      | succ j =>
        have hmiss := hbefore j (Nat.lt_succ_self j)
        have hprevious := List.getElem?_eq_getElem (Nat.lt_of_succ_lt hk)
        rw [getElem?_rangesOf, Option.map_eq_some_iff] at hprevious
        obtain ⟨previous, hprevious, hprange⟩ := hprevious
        rw [← hprange] at hmiss
        simp only [decide_eq_true_eq, Nat.zero_add, Nat.not_le] at hmiss
        rw [lineStart_succ hprevious]
        exact hmiss
    exact ⟨k, offset - lineStart lines k, line, rfl, hline, by omega, by omega⟩

/-- **A column kept on another line is a boundary if and only if it fits the line.** -/
theorem clampColumn_isBoundary_iff {k column : Nat} {line : List Char}
    (h : (split '\n' value)[k]? = some line) :
    IsScalarBoundary value (clampColumn ⟨lineStart (split '\n' value) k,
      lineStart (split '\n' value) k + utf16Length line⟩ column) ↔ Fits column line := by
  rw [clampColumn, Nat.add_sub_cancel_left, isScalarBoundary_line_iff h (Nat.min_le_right _ _)]
  rcases Nat.le_total (utf16Length line) column with hle | hle
  · rw [Nat.min_eq_right hle]
    exact ⟨fun _ => .inl hle, fun _ => isBoundary_weight⟩
  · rw [Nat.min_eq_left hle]
    refine ⟨.inr, ?_⟩
    rintro (hge | hboundary)
    · rw [Nat.le_antisymm hle hge]
      exact isBoundary_weight
    · exact hboundary

/-- Downwards the column has to fit the next line. -/
theorem verticalLineNavigationDestination_down (h : offset ≤ utf16Length value) {k column : Nat}
    {line : List Char} (hcaret : IsCaretAt (split '\n' value) offset k column line) :
    ∃ n, verticalLineNavigationDestination value offset true = some n ∧
      (IsScalarBoundary value n ↔
        ∀ next, (split '\n' value)[k + 1]? = some next → Fits column next) := by
  obtain ⟨j, column', line', hfound, hcaret'⟩ := exists_isCaretAt h
  obtain ⟨rfl, rfl⟩ := hcaret.unique hcaret'
  have hne : lineRangesUtf16 value ≠ [] := by
    intro hnil
    rw [hnil] at hfound
    cases hfound
  rw [verticalLineNavigationDestination, if_neg hne, hfound, Option.getD_some, lineRangesUtf16_eq]
  dsimp only
  rw [getElem?_rangesOf, hcaret.line_eq, Option.map_some, Option.bind_some, getElem?_rangesOf]
  have hcolumn : offset - lineStart (split '\n' value) k = column := by
    rw [hcaret.offset_eq, Nat.add_sub_cancel_left]
  simp only [Nat.zero_add, hcolumn, if_true]
  cases hnext : (split '\n' value)[k + 1]? with
  | none =>
    refine ⟨utf16Length value, rfl, fun _ next h => ?_, fun _ => isBoundary_weight⟩
    cases h
  | some below =>
    refine ⟨_, rfl, (clampColumn_isBoundary_iff hnext).trans ⟨?_, fun h => h below rfl⟩⟩
    intro hfits next hline
    cases hline
    exact hfits

/-- Upwards the column has to fit the previous line. -/
theorem verticalLineNavigationDestination_up (h : offset ≤ utf16Length value) {k column : Nat}
    {line : List Char} (hcaret : IsCaretAt (split '\n' value) offset k column line) :
    ∃ n, verticalLineNavigationDestination value offset false = some n ∧
      (IsScalarBoundary value n ↔
        ∀ j previous, k = j + 1 → (split '\n' value)[j]? = some previous →
          Fits column previous) := by
  obtain ⟨j, column', line', hfound, hcaret'⟩ := exists_isCaretAt h
  obtain ⟨rfl, rfl⟩ := hcaret.unique hcaret'
  have hne : lineRangesUtf16 value ≠ [] := by
    intro hnil
    rw [hnil] at hfound
    cases hfound
  rw [verticalLineNavigationDestination, if_neg hne, hfound, Option.getD_some, lineRangesUtf16_eq]
  dsimp only
  rw [getElem?_rangesOf, hcaret.line_eq, Option.map_some, Option.bind_some]
  have hcolumn : offset - lineStart (split '\n' value) k = column := by
    rw [hcaret.offset_eq, Nat.add_sub_cancel_left]
  simp only [Nat.zero_add, hcolumn, Bool.false_eq_true, if_false]
  cases k with
  | zero => exact ⟨0, rfl, fun _ j _ hj => absurd hj (by omega), fun _ => isBoundary_zero⟩
  | succ j =>
    obtain ⟨hj, -⟩ := List.getElem?_eq_some_iff.mp hcaret.line_eq
    have hprevious := List.getElem?_eq_getElem (Nat.lt_of_succ_lt hj)
    rw [if_neg (Nat.succ_ne_zero j), Nat.add_sub_cancel, getElem?_rangesOf, hprevious,
      Option.map_some, Option.map_some, Nat.zero_add]
    refine ⟨_, rfl, (clampColumn_isBoundary_iff hprevious).trans ⟨?_, fun h => h j _ rfl hprevious⟩⟩
    intro hfits i previous hi hline
    obtain rfl : j = i := by omega
    rw [hprevious] at hline
    cases hline
    exact hfits

/-- A scalar boundary of the text and at most its length. -/
def OnScalarBoundary (value : List Char) (n : Nat) : Prop :=
  IsScalarBoundary value n ∧ n ≤ utf16Length value

theorem onScalarBoundary_iff : OnScalarBoundary value n ↔ IsScalarBoundary value n :=
  ⟨And.left, fun h => ⟨h, h.le⟩⟩

/-- Every move of the caret from an offset returns, and returns a scalar boundary. -/
structure NavigationOnBoundaries (value : List Char) (offset : Nat) : Prop where
  previousUtf16 : OnScalarBoundary value (previousUtf16Boundary value offset)
  nextUtf16 : OnScalarBoundary value (nextUtf16Boundary value offset)
  previousWord : ∃ n, previousWordBoundary value offset = some n ∧ OnScalarBoundary value n
  nextWord : ∃ n, nextWordBoundary value offset = some n ∧ OnScalarBoundary value n
  wordRange : ∃ range, wordRangeForUtf16Offset value offset = some range ∧
    OnScalarBoundary value range.start ∧ OnScalarBoundary value range.stop
  lineStart : OnScalarBoundary value (lineStartForUtf16Offset value offset)
  lineEnd : OnScalarBoundary value (lineEndForUtf16Offset value offset)
  controlK : OnScalarBoundary value (controlKDeleteEnd value offset)
  vertical : ∀ down, ∃ n, verticalLineNavigationDestination value offset down = some n ∧
    OnScalarBoundary value n

/-- **A vertical move stays on scalar boundaries if and only if the column fits.** -/
theorem vertical_isBoundary_iff (h : offset ≤ utf16Length value) :
    (∀ down, ∃ n, verticalLineNavigationDestination value offset down = some n ∧
      OnScalarBoundary value n) ↔ ColumnFits value offset := by
  obtain ⟨k, column, line, -, hcaret⟩ := exists_isCaretAt h
  obtain ⟨below, hbelow, hdown⟩ := verticalLineNavigationDestination_down h hcaret
  obtain ⟨above, habove, hup⟩ := verticalLineNavigationDestination_up h hcaret
  constructor
  · intro hvertical k' column' line' hcaret' neighbour hneighbour
    obtain ⟨rfl, rfl⟩ := hcaret.unique hcaret'
    rcases hneighbour with hnext | ⟨j, hj, hprevious⟩
    · obtain ⟨n, hn, hboundary⟩ := hvertical true
      rw [hbelow, Option.some.injEq] at hn
      subst hn
      exact hdown.mp hboundary.1 neighbour hnext
    · obtain ⟨n, hn, hboundary⟩ := hvertical false
      rw [habove, Option.some.injEq] at hn
      subst hn
      exact hup.mp hboundary.1 j neighbour hj hprevious
  · intro hfits down
    have hfits := hfits k column line hcaret
    cases down with
    | true =>
      have hboundary := hdown.mpr fun next hnext => hfits next (.inl hnext)
      exact ⟨below, hbelow, onScalarBoundary_iff.mpr hboundary⟩
    | false =>
      have hboundary := hup.mpr fun j previous hj hprevious =>
        hfits previous (.inr ⟨j, hj, hprevious⟩)
      exact ⟨above, habove, onScalarBoundary_iff.mpr hboundary⟩

/-- **The caret stays on scalar boundaries if and only if its column fits the lines around it.** -/
theorem navigationOnBoundaries_iff (h : IsScalarBoundary value offset) :
    NavigationOnBoundaries value offset ↔ ColumnFits value offset := by
  have hvertical := vertical_isBoundary_iff h.le
  constructor
  · intro hnavigation
    exact hvertical.mp hnavigation.vertical
  · intro hfits
    obtain ⟨range, hrange, hstart, hstop⟩ := wordRangeForUtf16Offset_isBoundary value offset
    obtain ⟨hlineStart, hlineEnd⟩ := lineRangeForUtf16Offset_isBoundary value offset
    exact {
      previousUtf16 := onScalarBoundary_iff.mpr (previousUtf16Boundary_isBoundary value offset)
      nextUtf16 := onScalarBoundary_iff.mpr (nextUtf16Boundary_isBoundary value offset)
      previousWord := by
        simpa only [onScalarBoundary_iff] using previousWordBoundary_isBoundary value offset
      nextWord := by
        simpa only [onScalarBoundary_iff] using nextWordBoundary_isBoundary value offset
      wordRange :=
        ⟨range, hrange, onScalarBoundary_iff.mpr hstart, onScalarBoundary_iff.mpr hstop⟩
      lineStart := onScalarBoundary_iff.mpr hlineStart
      lineEnd := onScalarBoundary_iff.mpr hlineEnd
      controlK := onScalarBoundary_iff.mpr (controlKDeleteEnd_isBoundary value offset)
      vertical := hvertical.mpr hfits }

theorem navigationOnBoundaries_iff_letters :
    IsScalarBoundary ['a', '\n', 'b'] 1 ∧
      (NavigationOnBoundaries ['a', '\n', 'b'] 1 ↔ ColumnFits ['a', '\n', 'b'] 1) :=
  ⟨⟨['a'], ['\n', 'b'], rfl, rfl⟩, navigationOnBoundaries_iff ⟨['a'], ['\n', 'b'], rfl, rfl⟩⟩

/-- Below the end of a line of one letter, the caret lands inside a pair. -/
theorem vertical_splits_pair : ¬ ∀ value offset, IsScalarBoundary value offset →
    NavigationOnBoundaries value offset := by
  intro h
  have hboundary : IsScalarBoundary ['a', '\n', '😄'] 1 := ⟨['a'], ['\n', '😄'], rfl, rfl⟩
  obtain ⟨n, hn, hn', -⟩ := (h _ _ hboundary).vertical true
  have hdestination : verticalLineNavigationDestination ['a', '\n', '😄'] 1 true = some 3 := by
    decide
  rw [hdestination, Option.some.injEq] at hn
  subst hn
  simp [isBoundary_cons, isBoundary_nil, lenUtf16] at hn'

end OxideTerm.Editor
