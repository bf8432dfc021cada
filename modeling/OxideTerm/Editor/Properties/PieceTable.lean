import OxideTerm.Editor.PieceTable
import OxideTerm.Lib.Splice

/-!
# The text that a piece table stands for

Each piece stands for a part of its buffer that is not empty, and the table for what the pieces stand
for together (`Holds`). Reads agree with this text, a replacement replaces a part of it, and
reclaiming unused text leaves it as it is.
-/

namespace OxideTerm.Editor

open Lib Lib.Text

variable {text whole part front back a b rest seen : List Char} {n m start stop pos : Nat}
  {source : PieceSource} {buffers buffers' : PieceSource → List Char} {piece : Piece}
  {pieces next : List Piece} {table : PieceTable}

/-! ## Parts of a text -/

/-- A part of a text that begins behind so many bytes. -/
def PartAt (text : List Char) (start : Nat) (part : List Char) : Prop :=
  ∃ front back, text = front ++ (part ++ back) ∧ byteLength front = start

/-- A slice is the part between its ends. -/
theorem slice_eq_some_iff : slice text start stop = some part ↔
    PartAt text start part ∧ stop = start + byteLength part := by
  rw [slice]
  constructor
  · intro h
    split at h
    next => cases h
    next hle =>
      obtain ⟨tail, htail, hpart⟩ := Option.bind_eq_some_iff.mp h
      obtain ⟨front, rfl, rfl⟩ := exists_of_sliceFrom text start htail
      obtain ⟨back, rfl, hlength⟩ := exists_of_sliceTo tail _ hpart
      exact ⟨⟨front, back, rfl, rfl⟩, by omega⟩
  · rintro ⟨⟨front, back, rfl, rfl⟩, rfl⟩
    rw [if_neg (by omega), sliceFrom_byteLength, Option.bind_some, Nat.add_sub_cancel_left,
      sliceTo_byteLength]

/-- A part of a part. -/
theorem PartAt.inner (h : PartAt text start (a ++ (part ++ b))) :
    PartAt text (start + byteLength a) part := by
  obtain ⟨front, back, rfl, rfl⟩ := h
  exact ⟨front ++ a, b ++ back, by simp only [List.append_assoc], byteLength_append _ _⟩

/-- Two parts, one behind the other. -/
theorem PartAt.join (ha : PartAt text start a) (hb : PartAt text (start + byteLength a) b) :
    PartAt text start (a ++ b) := by
  obtain ⟨front, back, rfl, rfl⟩ := ha
  obtain ⟨front', back', htext, hfront'⟩ := hb
  have hwhole : (front ++ a) ++ back = front' ++ (b ++ back') := by
    rw [List.append_assoc]
    exact htext
  obtain ⟨rfl, rfl⟩ := append_inj_of_weight utf8Size_pos hwhole
    (show byteLength (front ++ a) = byteLength front' by rw [byteLength_append, hfront'])
  exact ⟨front, back', by simp only [List.append_assoc], rfl⟩

theorem PartAt.append (h : PartAt text start part) (more : List Char) :
    PartAt (text ++ more) start part := by
  obtain ⟨front, back, rfl, rfl⟩ := h
  exact ⟨front, back ++ more, by simp only [List.append_assoc], rfl⟩

theorem partAt_end (text part : List Char) : PartAt (text ++ part) (byteLength text) part :=
  ⟨text, [], by rw [List.append_nil], rfl⟩

/-- A part that ends in time is a part of what is left of a text. -/
theorem PartAt.of_append (h : PartAt (front ++ back) start part)
    (hle : start + byteLength part ≤ byteLength front) : PartAt front start part := by
  obtain ⟨before, after, htext, rfl⟩ := h
  rw [← List.append_assoc] at htext
  obtain ⟨middle, rfl, -⟩ := exists_between utf8Size_pos htext.symm
    (show byteLength (before ++ part) ≤ byteLength front by rw [byteLength_append]; exact hle)
  exact ⟨before, middle, List.append_assoc _ _ _, rfl⟩

/-! ## What pieces stand for -/

/-- What a piece stands for. -/
structure Piece.Means (buffers : PieceSource → List Char) (piece : Piece) (part : List Char) :
    Prop where
  partAt : PartAt (buffers piece.source) piece.start part
  len : piece.len = byteLength part
  nonempty : part ≠ []

/-- What pieces stand for together. -/
inductive Stand (buffers : PieceSource → List Char) : List Piece → List Char → Prop
  | nil : Stand buffers [] []
  | cons {piece : Piece} {pieces : List Piece} {part rest : List Char} :
      piece.Means buffers part → Stand buffers pieces rest →
      Stand buffers (piece :: pieces) (part ++ rest)

/-- **The text of a table.** -/
structure PieceTable.Holds (table : PieceTable) (text : List Char) : Prop where
  stand : Stand table.sourceText table.pieces text
  len : table.len = byteLength text

theorem Piece.Means.len_pos (h : piece.Means buffers part) : 0 < piece.len := by
  rw [h.len]
  exact weight_pos utf8Size_pos h.nonempty

theorem Piece.Means.slice_eq (h : piece.Means buffers part) :
    Text.slice (buffers piece.source) piece.start piece.stop = some part :=
  slice_eq_some_iff.mpr ⟨h.partAt, congrArg (piece.start + ·) h.len⟩

theorem Stand.append {pieces' : List Piece} (ha : Stand buffers pieces a)
    (hb : Stand buffers pieces' b) : Stand buffers (pieces ++ pieces') (a ++ b) := by
  induction ha with
  | nil => exact hb
  | cons hpiece _ ih =>
    rw [List.cons_append, List.append_assoc]
    exact .cons hpiece ih

theorem Stand.concat (h : Stand buffers pieces a) (hpiece : piece.Means buffers part) :
    Stand buffers (pieces ++ [piece]) (a ++ part) := by
  have hlast : Stand buffers [piece] part := by
    have hcons := Stand.cons hpiece Stand.nil
    rw [List.append_nil] at hcons
    exact hcons
  exact h.append hlast

/-- The last piece stands for the end of the text. -/
theorem Stand.exists_concat (h : Stand buffers (pieces ++ [piece]) text) :
    ∃ a part, text = a ++ part ∧ Stand buffers pieces a ∧ piece.Means buffers part := by
  induction pieces generalizing text with
  | nil =>
    cases h with
    | cons hpiece hnil =>
      cases hnil
      exact ⟨[], _, by rw [List.append_nil]; rfl, .nil, hpiece⟩
  | cons first pieces ih =>
    cases h with
    | cons hfirst hrest =>
      obtain ⟨a, part, rfl, ha, hpart⟩ := ih hrest
      exact ⟨_ ++ a, part, (List.append_assoc _ _ _).symm, .cons hfirst ha, hpart⟩

/-- Pieces keep what they stand for where their parts stay where they are. -/
theorem Stand.mono (h : Stand buffers pieces text)
    (hkeep : ∀ piece ∈ pieces, ∀ part, piece.Means buffers part →
      PartAt (buffers' piece.source) piece.start part) : Stand buffers' pieces text := by
  induction h with
  | nil => exact .nil
  | cons hpiece _ ih =>
    exact .cons ⟨hkeep _ List.mem_cons_self _ hpiece, hpiece.len, hpiece.nonempty⟩
      (ih fun piece hmem => hkeep piece (List.mem_cons_of_mem _ hmem))

theorem Stand.mem (h : Stand buffers pieces text) (hmem : piece ∈ pieces) :
    ∃ part, piece.Means buffers part := by
  induction h with
  | nil => exact absurd hmem List.not_mem_nil
  | cons hpiece _ ih =>
    rcases List.mem_cons.mp hmem with rfl | hmem
    · exact ⟨_, hpiece⟩
    · exact ih hmem

/-! ## Reads -/

theorem chunks_of_stand {table : PieceTable} (h : Stand table.sourceText pieces text) :
    ∃ chunks, pieces.mapM table.pieceText = some chunks ∧ chunks.flatten = text := by
  induction h with
  | nil => exact ⟨[], rfl, rfl⟩
  | @cons piece pieces part rest hpiece _ ih =>
    obtain ⟨chunks, hchunks, rfl⟩ := ih
    refine ⟨part :: chunks, ?_, rfl⟩
    have hpart : table.pieceText piece = some part := hpiece.slice_eq
    rw [List.mapM_cons, hpart, hchunks]
    rfl

/-- **The pieces are a division of the text.** -/
theorem PieceTable.Holds.chunks (h : table.Holds text) :
    ∃ chunks, table.chunks = some chunks ∧ chunks.flatten = text :=
  chunks_of_stand h.stand

theorem PieceTable.Holds.toText (h : table.Holds text) : table.toText = some text := by
  obtain ⟨chunks, hchunks, hflatten⟩ := h.chunks
  rw [PieceTable.toText, hchunks, Option.map_some, hflatten]

/-- Behind the range the loop of `slice_to_string` stops. -/
theorem sliceLoop_past {range : TextRange} (hrange : range.start ≤ range.stop)
    (h : Stand table.sourceText pieces rest) (hpos : range.stop ≤ pos) :
    table.sliceLoop range pieces pos text = some text := by
  cases h with
  | nil => rfl
  | cons hpiece _ =>
    have hlen := hpiece.len_pos
    rw [PieceTable.sliceLoop]
    dsimp only
    rw [if_neg (by omega), if_pos hpos]

/-- Within the range it takes what is left of it. -/
theorem sliceLoop_within {range : TextRange} (hrange : range.start ≤ range.stop)
    (h : Stand table.sourceText pieces (a ++ b)) (hstart : range.start ≤ pos)
    (hstop : range.stop = pos + byteLength a) :
    table.sliceLoop range pieces pos text = some (text ++ a) := by
  generalize hrest : a ++ b = rest at h
  induction h generalizing a pos text with
  | nil =>
    obtain ⟨rfl, rfl⟩ := List.append_eq_nil_iff.mp hrest
    rw [PieceTable.sliceLoop, List.append_nil]
  | @cons piece pieces part rest hpiece hpieces ih =>
    have hlen := hpiece.len_pos
    rw [PieceTable.sliceLoop]
    dsimp only
    rw [if_neg (by omega)]
    split
    next hle =>
      have hnil : a = [] := weight_eq_zero utf8Size_pos (show byteLength a = 0 by omega)
      rw [hnil, List.append_nil]
    next hlt =>
      have hslice : ∀ x y, part = x ++ y → Text.slice (table.sourceText piece.source)
          (piece.start + 0) (piece.start + byteLength x) = some x := by
        rintro x y rfl
        have hpart := hpiece.partAt
        exact slice_eq_some_iff.mpr ⟨PartAt.inner (a := []) (b := y) hpart, rfl⟩
      rw [show max range.start pos - pos = 0 by omega]
      rcases Nat.le_total range.stop (pos + piece.len) with hinside | hbeyond
      · -- the range ends in this piece
        obtain ⟨x, rfl, -⟩ := exists_between utf8Size_pos hrest
          (show byteLength a ≤ byteLength part by rw [← hpiece.len]; omega)
        rw [show min range.stop (pos + piece.len) - pos = byteLength a by omega,
          hslice a x rfl, Option.bind_some]
        exact sliceLoop_past hrange hpieces hinside
      · obtain ⟨x, rfl, hx⟩ := exists_between utf8Size_pos hrest.symm
          (show byteLength part ≤ byteLength a by rw [← hpiece.len]; omega)
        rw [show min range.stop (pos + piece.len) - pos = byteLength part by
          rw [← hpiece.len]; omega, hslice part [] (List.append_nil _).symm, Option.bind_some]
        rw [byteLength_append, ← hpiece.len] at hstop
        rw [ih (by omega) (by omega) hx.symm, List.append_assoc]

/-- Before the range it passes over the pieces. -/
theorem sliceLoop_before {range : TextRange} {kept : List Char}
    (h : Stand table.sourceText pieces (kept ++ (a ++ b)))
    (hstart : range.start = pos + byteLength kept)
    (hstop : range.stop = range.start + byteLength a) (hlt : range.start < range.stop) :
    table.sliceLoop range pieces pos [] = some a := by
  have hrange := Nat.le_of_lt hlt
  generalize hrest : kept ++ (a ++ b) = rest at h
  induction h generalizing kept pos with
  | nil =>
    obtain ⟨rfl, hnil⟩ := List.append_eq_nil_iff.mp hrest
    obtain ⟨rfl, rfl⟩ := List.append_eq_nil_iff.mp hnil
    rfl
  | @cons piece pieces part rest hpiece hpieces ih =>
    have hlen := hpiece.len_pos
    rw [PieceTable.sliceLoop]
    dsimp only
    split
    next hle =>
      obtain ⟨x, rfl, hx⟩ := exists_between utf8Size_pos hrest.symm
        (show byteLength part ≤ byteLength kept by rw [← hpiece.len]; omega)
      rw [byteLength_append, ← hpiece.len] at hstart
      exact ih (by omega) hx.symm
    next hgt =>
      rw [if_neg (by omega)]
      obtain ⟨tail, rfl, htail⟩ := exists_between utf8Size_pos hrest
        (show byteLength kept ≤ byteLength part by rw [← hpiece.len]; omega)
      have hpartLen := hpiece.len
      rw [byteLength_append] at hpartLen
      have hslice : ∀ x y, tail = x ++ y → Text.slice (table.sourceText piece.source)
          (piece.start + byteLength kept) (piece.start + (byteLength kept + byteLength x)) =
            some x := by
        rintro x y rfl
        exact slice_eq_some_iff.mpr ⟨hpiece.partAt.inner, by rw [Nat.add_assoc]⟩
      rw [show max range.start pos - pos = byteLength kept by omega]
      rcases Nat.le_total range.stop (pos + piece.len) with hinside | hbeyond
      · obtain ⟨x, rfl, -⟩ := exists_between utf8Size_pos htail
          (show byteLength a ≤ byteLength tail by omega)
        rw [show min range.stop (pos + piece.len) - pos = byteLength kept + byteLength a by omega,
          hslice a x rfl, Option.bind_some, List.nil_append]
        exact sliceLoop_past hrange hpieces hinside
      · obtain ⟨x, rfl, hx⟩ := exists_between utf8Size_pos htail.symm
          (show byteLength tail ≤ byteLength a by omega)
        rw [show min range.stop (pos + piece.len) - pos = byteLength kept + byteLength tail by
          omega, hslice tail [] (List.append_nil _).symm, Option.bind_some, List.nil_append]
        rw [byteLength_append] at hstop
        rw [hx] at hpieces
        exact sliceLoop_within hrange hpieces (by omega) (by omega)

/-- **A slice of the table is a slice of its text.** -/
theorem PieceTable.Holds.sliceToString (h : table.Holds (front ++ (part ++ back))) :
    table.sliceToString ⟨byteLength front, byteLength front + byteLength part⟩ = some part := by
  rw [PieceTable.sliceToString]
  split
  next hle =>
    simp only at hle
    rw [weight_eq_zero utf8Size_pos (show byteLength part = 0 by omega)]
  next hgt =>
    simp only at hgt
    exact sliceLoop_before h.stand (Nat.zero_add _).symm rfl (by simp only; omega)

/-- The loop of `is_char_boundary`, behind what it has passed. -/
theorem isCharBoundaryLoop_iff (h : Stand table.sourceText pieces rest)
    (hseen : byteLength seen ≤ n) (hn : n < byteLength (seen ++ rest)) :
    table.isCharBoundaryLoop n pieces (byteLength seen) = true ↔
      IsByteBoundary (seen ++ rest) n := by
  induction h generalizing seen with
  | nil =>
    rw [List.append_nil] at hn
    omega
  | @cons piece pieces part rest hpiece _ ih =>
    rw [PieceTable.isCharBoundaryLoop]
    rw [if_neg (Nat.not_lt.mpr hseen), hpiece.len]
    obtain ⟨k, rfl⟩ := Nat.exists_eq_add_of_le hseen
    split
    next hend =>
      refine ⟨fun _ => ?_, fun _ => rfl⟩
      rcases hend with hstart | hstop
      · rw [hstart]
        exact isBoundary_append
      · rw [hstop, ← byteLength_append, ← List.append_assoc]
        exact isBoundary_append
    next hinner =>
      rw [not_or] at hinner
      split
      next hlt =>
        -- inside the piece it is a matter of the buffer
        have hk : k ≤ weight Char.utf8Size part := by
          rw [← byteLength_eq_weight]
          omega
        obtain ⟨before, after, hbuffer, hbefore⟩ := hpiece.partAt
        rw [isCharBoundary_iff, Nat.add_sub_cancel_left, hbuffer, ← hbefore]
        have hleft : IsByteBoundary (part ++ after) k ↔ IsByteBoundary part k :=
          isBoundary_append_left utf8Size_pos hk
        have hright : IsByteBoundary (part ++ rest) k ↔ IsByteBoundary part k :=
          isBoundary_append_left utf8Size_pos hk
        exact (isBoundary_append_right.trans hleft).trans
          (isBoundary_append_right.trans hright).symm
      next hge =>
        have hnext := @ih (seen ++ part) (by rw [byteLength_append]; omega)
          (by rw [List.append_assoc]; exact hn)
        rw [byteLength_append, List.append_assoc] at hnext
        exact hnext

/-- **The boundaries of the table are those of its text.** -/
theorem PieceTable.Holds.isCharBoundary_iff (h : table.Holds text) :
    table.isCharBoundary n = true ↔ IsByteBoundary text n := by
  rw [PieceTable.isCharBoundary, h.len]
  split
  next hlt =>
    refine ⟨fun hfalse => absurd hfalse Bool.false_ne_true, fun hboundary => ?_⟩
    exact absurd hboundary.le (Nat.not_le.mpr hlt)
  next hle =>
    split
    next heq =>
      subst heq
      exact ⟨fun _ => isBoundary_weight, fun _ => rfl⟩
    next hne =>
      exact @isCharBoundaryLoop_iff _ [] _ _ _ h.stand (Nat.zero_le _)
        (by rw [List.nil_append]; omega)

/-! ## Pushing pieces -/

/-- **A pushed piece stands behind the others**, merged or not. -/
theorem Stand.pushPiece (h : Stand buffers next a) (hpiece : piece.Means buffers part) :
    Stand buffers (PieceTable.pushPiece next piece) (a ++ part) := by
  rw [PieceTable.pushPiece]
  rcases List.eq_nil_or_concat next with rfl | ⟨init, previous, rfl⟩
  · exact h.concat hpiece
  · rw [List.concat_eq_append] at h ⊢
    simp only [List.getLast?_concat, List.dropLast_concat]
    split
    next hmerge =>
      obtain ⟨before, last, rfl, hinit, hlast⟩ := h.exists_concat
      rw [List.append_assoc]
      refine hinit.concat ⟨?_, ?_, List.append_ne_nil_of_left_ne_nil hlast.nonempty _⟩
      · refine hlast.partAt.join ?_
        have hnext := hpiece.partAt
        rw [← hmerge.1, ← hmerge.2, Piece.stop, hlast.len] at hnext
        exact hnext
      · rw [byteLength_append, hlast.len, hpiece.len]
    next => exact h.concat hpiece

/-- A part that may be empty. -/
theorem Stand.pushNew (h : Stand buffers next a) (hpart : PartAt (buffers source) start part) :
    Stand buffers (PieceTable.pushOption next (Piece.new source start (byteLength part)))
      (a ++ part) := by
  rw [Piece.new]
  split
  next hpos =>
    refine h.pushPiece ⟨hpart, rfl, ?_⟩
    rintro rfl
    exact absurd hpos (Nat.lt_irrefl 0)
  next hzero =>
    rw [weight_eq_zero utf8Size_pos (show byteLength part = 0 by omega), List.append_nil]
    exact h

/-! ## Replacing -/

section

variable {range : TextRange} {replacement : Option Piece}

/-- Behind the range the loop of `replace` keeps the pieces. -/
theorem replaceLoop_past (hrange : range.start ≤ range.stop) (h : Stand buffers pieces rest)
    (hnext : Stand buffers next a) (hpos : range.stop ≤ pos) :
    ∃ next', PieceTable.replaceLoop range replacement pieces pos true next = (true, next') ∧
      Stand buffers next' (a ++ rest) := by
  induction h generalizing pos next a with
  | nil => exact ⟨next, rfl, by rw [List.append_nil]; exact hnext⟩
  | @cons piece pieces part rest hpiece _ ih =>
    have hlen := hpiece.len_pos
    rw [PieceTable.replaceLoop]
    dsimp only
    rw [if_neg (by omega), if_pos hpos, if_pos rfl, ← List.append_assoc]
    exact ih (hnext.pushPiece hpiece) (by omega)

/-- Within the range it drops the rest of the range. -/
theorem replaceLoop_within (hrange : range.start ≤ range.stop)
    (h : Stand buffers pieces (b ++ back)) (hnext : Stand buffers next a)
    (hstart : range.start ≤ pos) (hstop : range.stop = pos + byteLength b) :
    ∃ next', PieceTable.replaceLoop range replacement pieces pos true next = (true, next') ∧
      Stand buffers next' (a ++ back) := by
  generalize hrest : b ++ back = rest at h
  induction h generalizing b pos with
  | nil =>
    obtain ⟨rfl, rfl⟩ := List.append_eq_nil_iff.mp hrest
    exact ⟨next, rfl, by rw [List.append_nil]; exact hnext⟩
  | @cons piece pieces part rest hpiece hpieces ih =>
    have hlen := hpiece.len_pos
    rcases Nat.lt_or_ge pos range.stop with hlt | hge
    · rw [PieceTable.replaceLoop]
      dsimp only
      rw [if_neg (by omega), if_neg (by omega), if_pos rfl]
      rcases Nat.lt_or_ge range.stop (pos + piece.len) with hinside | hbeyond
      · -- the piece goes on behind the range
        obtain ⟨x, rfl, hx⟩ := exists_between utf8Size_pos hrest
          (show byteLength b ≤ byteLength part by rw [← hpiece.len]; omega)
        have hpartLen := hpiece.len
        rw [byteLength_append] at hpartLen
        have hright : PartAt (buffers piece.source) (piece.start + byteLength b) x := by
          have hpart := hpiece.partAt
          rw [← List.append_nil x] at hpart
          exact hpart.inner
        rw [if_pos hinside, show range.stop - pos = byteLength b by omega,
          show pos + piece.len - range.stop = byteLength x by omega, Piece.slice, hx,
          ← List.append_assoc]
        exact replaceLoop_past hrange hpieces (hnext.pushNew hright) (by omega)
      · obtain ⟨x, rfl, hx⟩ := exists_between utf8Size_pos hrest.symm
          (show byteLength part ≤ byteLength b by rw [← hpiece.len]; omega)
        rw [byteLength_append, ← hpiece.len] at hstop
        rw [if_neg (by omega)]
        exact ih (by omega) (by omega) hx.symm
    · -- nothing of the range is left
      have hnil : b = [] := weight_eq_zero utf8Size_pos (show byteLength b = 0 by omega)
      subst hnil
      rw [List.nil_append] at hrest
      rw [hrest]
      exact replaceLoop_past hrange (.cons hpiece hpieces) hnext hge

/-- Before the range it keeps the pieces, and puts the replacement where the range begins. -/
theorem replaceLoop_before {kept more : List Char}
    (hreplacement : ∀ {next : List Piece} {a : List Char}, Stand buffers next a →
      Stand buffers (PieceTable.pushOption next replacement) (a ++ more))
    (h : Stand buffers pieces (kept ++ (b ++ back))) (hnext : Stand buffers next a)
    (hstart : range.start = pos + byteLength kept)
    (hstop : range.stop = range.start + byteLength b) :
    ∃ inserted next', PieceTable.replaceLoop range replacement pieces pos false next =
        (inserted, next') ∧
      Stand buffers (if inserted then next' else PieceTable.pushOption next' replacement)
        (a ++ (kept ++ (more ++ back))) := by
  have hrange : range.start ≤ range.stop := by omega
  generalize hrest : kept ++ (b ++ back) = rest at h
  induction h generalizing kept pos next a with
  | nil =>
    obtain ⟨rfl, hnil⟩ := List.append_eq_nil_iff.mp hrest
    obtain ⟨rfl, rfl⟩ := List.append_eq_nil_iff.mp hnil
    refine ⟨false, next, rfl, ?_⟩
    rw [if_neg Bool.false_ne_true, List.nil_append, List.append_nil]
    exact hreplacement hnext
  | @cons piece pieces part rest hpiece hpieces ih =>
    have hlen := hpiece.len_pos
    rw [PieceTable.replaceLoop]
    dsimp only
    split
    next hle =>
      obtain ⟨x, rfl, hx⟩ := exists_between utf8Size_pos hrest.symm
        (show byteLength part ≤ byteLength kept by rw [← hpiece.len]; omega)
      rw [byteLength_append, ← hpiece.len] at hstart
      obtain ⟨inserted, next', hrun, hstand⟩ :=
        ih (hnext.pushPiece hpiece) (show range.start = pos + piece.len + byteLength x by omega)
          hx.symm
      refine ⟨inserted, next', hrun, ?_⟩
      rw [List.append_assoc] at hstand ⊢
      exact hstand
    next hgt =>
      split
      next hinsert =>
        -- the range is empty and lies between two pieces
        have hkept : kept = [] := weight_eq_zero utf8Size_pos (show byteLength kept = 0 by omega)
        have hb : b = [] := weight_eq_zero utf8Size_pos (show byteLength b = 0 by omega)
        subst hkept hb
        rw [List.nil_append, List.nil_append] at hrest
        rw [if_neg Bool.false_ne_true]
        obtain ⟨next', hrun, hstand⟩ := @replaceLoop_past _ _ _ _ _ _ range replacement hrange
          hpieces ((hreplacement hnext).pushPiece hpiece) (show range.stop ≤ pos + piece.len by omega)
        refine ⟨true, next', hrun, ?_⟩
        rw [if_pos rfl, hrest, List.nil_append]
        simpa only [List.append_assoc] using hstand
      next hbegin =>
        rw [if_neg Bool.false_ne_true]
        obtain ⟨tail, rfl, htail⟩ := exists_between utf8Size_pos hrest
          (show byteLength kept ≤ byteLength part by rw [← hpiece.len]; omega)
        have hpartLen := hpiece.len
        rw [byteLength_append] at hpartLen
        -- the piece up to the range, if there is anything
        have hleft : Stand buffers (if pos < range.start then PieceTable.pushOption next
            (piece.slice 0 (range.start - pos)) else next) (a ++ kept) := by
          split
          next =>
            have hpart := hpiece.partAt
            rw [show range.start - pos = byteLength kept by omega, Piece.slice]
            exact hnext.pushNew (PartAt.inner (a := []) hpart)
          next =>
            rw [weight_eq_zero utf8Size_pos (show byteLength kept = 0 by omega), List.append_nil]
            exact hnext
        have hmiddle := hreplacement hleft
        generalize PieceTable.pushOption _ replacement = middle at hmiddle
        rcases Nat.lt_or_ge range.stop (pos + piece.len) with hinside | hbeyond
        · obtain ⟨x, rfl, hx⟩ := exists_between utf8Size_pos htail
            (show byteLength b ≤ byteLength tail by omega)
          rw [byteLength_append] at hpartLen
          have hright : PartAt (buffers piece.source)
              (piece.start + byteLength (kept ++ b)) x := by
            have hpart := hpiece.partAt
            rw [← List.append_nil x, ← List.append_assoc kept] at hpart
            exact hpart.inner
          rw [if_pos hinside, show range.stop - pos = byteLength (kept ++ b) by
            rw [byteLength_append]; omega,
            show pos + piece.len - range.stop = byteLength x by omega, Piece.slice]
          obtain ⟨next', hrun, hstand⟩ := @replaceLoop_past _ _ _ _ _ _ range replacement hrange
            hpieces (hmiddle.pushNew hright) (show range.stop ≤ pos + piece.len by omega)
          refine ⟨true, next', hrun, ?_⟩
          rw [if_pos rfl, hx]
          simpa only [List.append_assoc] using hstand
        · obtain ⟨x, rfl, hx⟩ := exists_between utf8Size_pos htail.symm
            (show byteLength tail ≤ byteLength b by omega)
          rw [byteLength_append] at hstop
          rw [if_neg (by omega)]
          rw [hx] at hpieces
          obtain ⟨next', hrun, hstand⟩ := @replaceLoop_within _ _ _ _ _ _ _ range replacement
            hrange hpieces hmiddle (show range.start ≤ pos + piece.len by omega) (by omega)
          refine ⟨true, next', hrun, ?_⟩
          rw [if_pos rfl]
          simpa only [List.append_assoc] using hstand

end

/-- **A replacement in the table is a replacement in its text.** -/
theorem PieceTable.Holds.replace {removed replacement : List Char}
    (h : table.Holds (front ++ (removed ++ back))) :
    (table.replace ⟨byteLength front, byteLength front + byteLength removed⟩ replacement).Holds
      (front ++ (replacement ++ back)) := by
  have hgrown : ∀ source, ∃ more, (table.replace ⟨byteLength front,
      byteLength front + byteLength removed⟩ replacement).sourceText source =
        table.sourceText source ++ more := by
    intro source
    cases source with
    | original => exact ⟨[], (List.append_nil _).symm⟩
    | add => exact ⟨replacement, rfl⟩
  have hstand : Stand (table.replace ⟨byteLength front,
      byteLength front + byteLength removed⟩ replacement).sourceText table.pieces
        (front ++ (removed ++ back)) := by
    refine h.stand.mono fun piece _ part hpiece => ?_
    obtain ⟨more, hmore⟩ := hgrown piece.source
    rw [hmore]
    exact hpiece.partAt.append more
  have hinsert : ∀ {next : List Piece} {a : List Char},
      Stand (table.replace ⟨byteLength front, byteLength front + byteLength removed⟩
        replacement).sourceText next a →
      Stand (table.replace ⟨byteLength front, byteLength front + byteLength removed⟩
        replacement).sourceText (PieceTable.pushOption next
          (Piece.new .add (byteLength table.add) (byteLength replacement))) (a ++ replacement) :=
    fun hnext => hnext.pushNew (partAt_end table.add replacement)
  have hstart : (TextRange.mk (byteLength front) (byteLength front + byteLength removed)).start =
      0 + byteLength front := (Nat.zero_add _).symm
  obtain ⟨inserted, next, hrun, hmeans⟩ := replaceLoop_before hinsert hstand .nil hstart rfl
  refine ⟨?_, ?_⟩
  · rw [PieceTable.replace] at hmeans ⊢
    rw [hrun]
    exact hmeans
  · rw [PieceTable.replace]
    simp only [h.len, byteLength_append]
    omega

/-! ## Reclaiming unused text -/

/-- **Copied pieces stand for what they stood for**, whatever else is copied behind them. -/
theorem compactLoop_stand (h : Stand table.sourceText pieces text) (compact : List Char) :
    ∃ pieces' more, table.compactLoop source pieces compact = some (pieces', compact ++ more) ∧
      ∀ buffers : PieceSource → List Char,
        (∃ tail, buffers source = (compact ++ more) ++ tail) →
        (∀ other, other ≠ source → buffers other = table.sourceText other) →
        Stand buffers pieces' text := by
  induction h generalizing compact with
  | nil => exact ⟨[], [], by rw [List.append_nil]; rfl, fun _ _ _ => .nil⟩
  | @cons piece pieces part rest hpiece _ ih =>
    rw [PieceTable.compactLoop]
    split
    next hsource =>
      obtain ⟨pieces', more, hrun, hstand⟩ := ih (compact ++ part)
      have hpart : table.pieceText piece = some part := hpiece.slice_eq
      rw [hpart, Option.bind_some, hrun, Option.map_some]
      refine ⟨_, part ++ more, by rw [← List.append_assoc], ?_⟩
      intro buffers hbuffer hother
      rw [← List.append_assoc] at hbuffer
      refine .cons ⟨?_, hpiece.len, hpiece.nonempty⟩ (hstand buffers hbuffer hother)
      obtain ⟨tail, htail⟩ := hbuffer
      refine ⟨compact, more ++ tail, ?_, rfl⟩
      rw [hsource, htail]
      simp only [List.append_assoc]
    next hsource =>
      obtain ⟨pieces', more, hrun, hstand⟩ := ih compact
      rw [hrun, Option.map_some]
      refine ⟨_, more, rfl, fun buffers hbuffer hother => ?_⟩
      refine .cons ⟨?_, hpiece.len, hpiece.nonempty⟩ (hstand buffers hbuffer hother)
      rw [hother _ hsource]
      exact hpiece.partAt

/-- A buffer of which nothing is live is not used. -/
theorem source_ne_of_live (h : Stand buffers pieces text)
    (hlive : ((pieces.filter fun piece => piece.source = source).map Piece.len).sum = 0) :
    ∀ piece ∈ pieces, piece.source ≠ source := by
  intro piece hmem hsource
  obtain ⟨part, hpiece⟩ := h.mem hmem
  have hlen : piece.len ∈ (pieces.filter fun piece => piece.source = source).map Piece.len :=
    List.mem_map_of_mem (List.mem_filter.mpr ⟨hmem, by simpa using hsource⟩)
  have hzero := List.sum_eq_zero_iff.mp hlive _ hlen
  have hpos := hpiece.len_pos
  omega

theorem PieceTable.Holds.reclaimOriginal (h : table.Holds text) (shared : Bool) :
    ∃ table', table.reclaimOriginal shared = some table' ∧ table'.Holds text := by
  rw [PieceTable.reclaimOriginal]
  dsimp only
  split
  next hlive =>
    refine ⟨_, rfl, h.stand.mono fun piece hmem part hpiece => ?_, h.len⟩
    have hne := source_ne_of_live h.stand hlive piece hmem
    have hpart := hpiece.partAt
    cases hsource : piece.source with
    | original => exact absurd hsource hne
    | add =>
      rw [hsource] at hpart
      exact hpart
  next =>
    split
    next =>
      obtain ⟨pieces, more, hrun, hstand⟩ := @compactLoop_stand _ .original _ _ h.stand []
      rw [hrun, Option.map_some]
      refine ⟨_, rfl, hstand _ ⟨[], (List.append_nil _).symm⟩ fun other hother => ?_, h.len⟩
      cases other with
      | original => exact absurd rfl hother
      | add => rfl
    next => exact ⟨table, rfl, h⟩

/-- The end of what is used of the second buffer is the end of a piece, or the start. -/
theorem addEnd_isBoundary (h : table.Holds text) : IsByteBoundary table.add table.addEnd := by
  have hstops : ∀ stops : List Nat, (∀ stop ∈ stops, IsByteBoundary table.add stop) →
      IsByteBoundary table.add (stops.foldr max 0) := by
    intro stops hall
    induction stops with
    | nil => exact isBoundary_zero
    | cons stop stops ih =>
      obtain ⟨hstop, hrest⟩ := List.forall_mem_cons.mp hall
      rcases Nat.le_total stop (stops.foldr max 0) with hle | hle
      · rw [List.foldr_cons, Nat.max_eq_right hle]
        exact ih hrest
      · rw [List.foldr_cons, Nat.max_eq_left hle]
        exact hstop
  refine hstops _ fun stop hstop => ?_
  obtain ⟨piece, hmem, rfl⟩ := List.mem_map.mp hstop
  obtain ⟨hmem, hsource⟩ := List.mem_filter.mp hmem
  obtain ⟨part, hpiece⟩ := h.stand.mem hmem
  obtain ⟨front, back, hbuffer, hstart⟩ := hpiece.partAt
  rw [of_decide_eq_true hsource] at hbuffer
  refine ⟨front ++ part, back, hbuffer.trans (List.append_assoc _ _ _).symm, ?_⟩
  rw [weight_append, ← byteLength_eq_weight, ← byteLength_eq_weight, hstart, Piece.stop, hpiece.len]

theorem le_addEnd (hmem : piece ∈ table.pieces) (hsource : piece.source = .add) :
    piece.stop ≤ table.addEnd := by
  have hmax : ∀ stops : List Nat, ∀ stop ∈ stops, stop ≤ stops.foldr max 0 := by
    intro stops
    induction stops with
    | nil => exact fun stop hstop => absurd hstop List.not_mem_nil
    | cons first stops ih =>
      intro stop hstop
      rw [List.foldr_cons]
      rcases List.mem_cons.mp hstop with rfl | hstop
      · exact Nat.le_max_left _ _
      · exact Nat.le_trans (ih stop hstop) (Nat.le_max_right _ _)
  exact hmax _ _ (List.mem_map_of_mem (List.mem_filter.mpr ⟨hmem, by simpa using hsource⟩))

theorem PieceTable.Holds.reclaimAdd (h : table.Holds text) :
    ∃ table', table.reclaimAdd = some table' ∧ table'.Holds text := by
  rw [PieceTable.reclaimAdd]
  dsimp only
  split
  next hlive =>
    refine ⟨_, rfl, h.stand.mono fun piece hmem part hpiece => ?_, h.len⟩
    have hne := source_ne_of_live h.stand hlive piece hmem
    have hpart := hpiece.partAt
    cases hsource : piece.source with
    | add => exact absurd hsource hne
    | original =>
      rw [hsource] at hpart
      exact hpart
  next =>
    split
    next =>
      obtain ⟨pieces, more, hrun, hstand⟩ := @compactLoop_stand _ .add _ _ h.stand []
      rw [hrun, Option.map_some]
      refine ⟨_, rfl, hstand _ ⟨[], (List.append_nil _).symm⟩ fun other hother => ?_, h.len⟩
      cases other with
      | add => exact absurd rfl hother
      | original => rfl
    next =>
      split
      next =>
        -- all pieces end before what is cut off
        obtain ⟨front, hfront⟩ := isByteBoundary_iff_sliceTo.mp (addEnd_isBoundary h)
        obtain ⟨back, hadd, hlength⟩ := exists_of_sliceTo _ _ hfront
        rw [hfront, Option.map_some]
        refine ⟨_, rfl, h.stand.mono fun piece hmem part hpiece => ?_, h.len⟩
        have hpart := hpiece.partAt
        cases hsource : piece.source with
        | original =>
          rw [hsource] at hpart
          exact hpart
        | add =>
          have hend := le_addEnd hmem hsource
          rw [Piece.stop, hpiece.len, ← hlength] at hend
          rw [hsource] at hpart
          have hbuffer : table.sourceText .add = front ++ back := hadd
          rw [hbuffer] at hpart
          exact hpart.of_append hend
      next => exact ⟨table, rfl, h⟩

/-- **Reclaiming unused text leaves the text as it is.** -/
theorem PieceTable.Holds.reclaimUnusedText (h : table.Holds text) (shared : Bool) :
    ∃ table', table.reclaimUnusedText shared = some table' ∧ table'.Holds text := by
  obtain ⟨middle, hmiddle, hholds⟩ := h.reclaimOriginal shared
  obtain ⟨table', htable', hholds'⟩ := hholds.reclaimAdd
  exact ⟨table', by rw [PieceTable.reclaimUnusedText, hmiddle, Option.bind_some, htable'], hholds'⟩

/-- A new table holds its text. -/
theorem PieceTable.holds_new (text : List Char) : (PieceTable.new text).Holds text := by
  refine ⟨?_, rfl⟩
  have hnew : Stand (PieceTable.new text).sourceText
      (PieceTable.pushOption [] (Piece.new .original 0 (byteLength text))) ([] ++ text) :=
    Stand.nil.pushNew ⟨[], [], (List.append_nil text).symm, rfl⟩
  rw [List.nil_append] at hnew
  rw [PieceTable.new]
  cases hpiece : Piece.new .original 0 (byteLength text) with
  | none =>
    rw [hpiece] at hnew
    exact hnew
  | some piece =>
    rw [hpiece] at hnew
    exact hnew

end OxideTerm.Editor
