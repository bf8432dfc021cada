import OxideTerm.Predict.Edits
import OxideTerm.Predict.Row

/-!
# Taking predictions back

A prediction is drawn by inserting a cell, and taken back by deleting as many cells as were
inserted. That gives back the line as long as each character takes one column, except for its last
cells: as many as were predicted at once have been pushed out.
-/

namespace OxideTerm.Predict

open OxideTerm.Lib

/-! ## A line with predictions -/

/-- What is left behind `k` predicted cells, if once there were as many as `most`. -/
def tailCells (cells : List Cell) (column most k : Nat) : List Cell :=
  (cells.drop column).take (cells.length - column - most) ++ List.replicate (most - k) .blank

/-- The line with these predicted cells. -/
def shown (cells : List Cell) (column most : Nat) (inserted : List Cell) : List Cell :=
  cells.take column ++ inserted ++ tailCells cells column most inserted.length

variable {cells : List Cell} {column most k : Nat}

theorem length_tailCells (h : column + most ≤ cells.length) (hk : k ≤ most) :
    (tailCells cells column most k).length = cells.length - column - k := by
  rw [tailCells, List.length_append, List.length_take, List.length_drop, List.length_replicate]
  omega

theorem tailCells_dropLast (h : column + most < cells.length) (hk : k ≤ most) :
    (tailCells cells column most k).dropLast = tailCells cells column (max most (k + 1)) (k + 1) := by
  unfold tailCells
  rcases Nat.lt_or_ge k most with hlt | hge
  · rw [Nat.max_eq_left hlt, show most - k = most - (k + 1) + 1 by omega, List.replicate_succ',
      ← List.append_assoc, List.dropLast_concat]
  · obtain rfl : k = most := Nat.le_antisymm hk hge
    rw [Nat.max_eq_right (Nat.le_succ k), Nat.sub_self, Nat.sub_self, List.replicate_zero,
      List.append_nil, List.append_nil, List.dropLast_eq_take, List.length_take, List.take_take,
      List.length_drop]
    congr 1
    omega

theorem tailCells_append {n : Nat} (hn : n ≤ k) (hk : k ≤ most) :
    tailCells cells column most k ++ List.replicate n .blank =
      tailCells cells column most (k - n) := by
  unfold tailCells
  rw [List.append_assoc, List.replicate_append_replicate]
  congr 2
  omega

theorem length_take_append {inserted : List Cell} (h : column ≤ cells.length) :
    (cells.take column ++ inserted).length = column + inserted.length := by
  rw [List.length_append, List.length_take, Nat.min_eq_left h]

theorem length_shown {inserted : List Cell} (h : column + most ≤ cells.length)
    (hroom : inserted.length ≤ most) : (shown cells column most inserted).length = cells.length := by
  rw [shown, List.length_append, length_take_append (by omega), length_tailCells h hroom]
  omega

/-- **A character of one column is put behind the predicted cells.** -/
theorem shown_print {inserted : List Cell} (c : Char) (h : column + most < cells.length)
    (hroom : inserted.length ≤ most) :
    Row.putCharacter c 1 (column + inserted.length)
        (Row.insertCells 1 (column + inserted.length) (shown cells column most inserted)) =
      shown cells column (max most (inserted.length + 1)) (inserted ++ [.glyph [c]]) := by
  have hlength := @length_take_append cells column inserted (by omega)
  have htail : tailCells cells column most inserted.length ≠ [] := by
    rw [← List.length_pos_iff, length_tailCells (by omega) hroom]
    omega
  unfold shown
  rw [← hlength, Row.insertCells_one _ htail, Row.putCharacter_one, tailCells_dropLast h hroom,
    List.length_append, List.length_singleton, List.append_assoc, List.append_assoc,
    List.append_assoc, List.singleton_append]

/-- **The last predicted cell is deleted.** -/
theorem shown_erase {inserted : List Cell} {cell : Cell} (h : column ≤ cells.length)
    (hroom : inserted.length + 1 ≤ most) :
    Row.deleteCells 1 (column + inserted.length) (shown cells column most (inserted ++ [cell])) =
      shown cells column most inserted := by
  have hlength := @length_take_append cells column inserted h
  have hdelete := Row.deleteCells_middle (cells.take column ++ inserted) [cell]
    (tailCells cells column most (inserted.length + 1))
  rw [List.length_singleton, hlength, List.append_assoc _ _ (List.replicate 1 _),
    tailCells_append (Nat.le_add_left 1 _) hroom, Nat.add_sub_cancel] at hdelete
  unfold shown
  rw [List.length_append, List.length_singleton, ← List.append_assoc (cells.take column)]
  exact hdelete

theorem shown_nil (h : column + most ≤ cells.length) :
    shown cells column most [] =
      cells.take (cells.length - most) ++ List.replicate most .blank := by
  rw [shown, tailCells, List.append_nil, List.length_nil, Nat.sub_zero, ← List.append_assoc,
    ← List.take_add]
  congr 2
  omega

/-- **All predicted cells are deleted.** -/
theorem shown_rollback {inserted : List Cell} (h : column + most ≤ cells.length)
    (hroom : inserted.length ≤ most) :
    Row.deleteCells inserted.length column (shown cells column most inserted) =
      cells.take (cells.length - most) ++ List.replicate most .blank := by
  have hdelete := Row.deleteCells_middle (cells.take column) inserted
    (tailCells cells column most inserted.length)
  rw [List.length_take, Nat.min_eq_left (by omega), List.append_assoc _ _ (List.replicate _ _),
    tailCells_append (Nat.le_refl _) hroom, Nat.sub_self] at hdelete
  rw [← shown_nil h, shown, shown, hdelete, List.append_nil]
  rfl

/-- Nothing is lost when the cells that are pushed out are blank. -/
theorem take_append_blank_iff (h : most ≤ cells.length) :
    cells.take (cells.length - most) ++ List.replicate most .blank = cells ↔
      ∀ cell ∈ cells.drop (cells.length - most), cell = .blank := by
  have hlength : (cells.drop (cells.length - most)).length = most := by
    rw [List.length_drop]
    omega
  constructor
  · intro heq cell hcell
    have htail := (congrArg (List.drop (cells.length - most)) heq).symm
    rw [List.drop_left' (by rw [List.length_take]; omega)] at htail
    rw [htail] at hcell
    exact List.eq_of_mem_replicate hcell
  · intro hblank
    have htail := List.eq_replicate_of_mem hblank
    rw [hlength] at htail
    rw [← htail, List.take_append_drop]

/-! ## A line that is edited -/

/-- The character of an action. -/
def PredictionAction.character : PredictionAction → Option Char
  | .printableAscii byte => some (Char.ofNat byte.toNat)
  | .printableUtf8 character => some character
  | _ => none

namespace PredictionOverlay

/-- The action of a call. -/
def Call.action : Call → Option PredictionAction
  | .offerForFrame _ action => some action
  | .offerForFrameWithContext _ action _ => some action
  | .offerForFrameWithContextAt _ action _ _ => some action
  | _ => none

/-- The bytes a call has drawn. -/
def Answer.bytes : Answer → Bytes
  | .output (some bytes) => bytes
  | _ => []

/-- The calls on one line: offers with this context, acknowledgements and expiry. -/
def Call.AnchoredAt (context : PredictionContext) : Call → Prop
  | .setRoundTripMilliseconds _ => True
  | .offerForFrameWithContext _ _ context' => context' = some context
  | .offerForFrameWithContextAt _ _ context' _ => context' = some context
  | .expireStale _ => True
  | .acknowledge _ => True
  | _ => False

/-- The overlay after some calls. -/
def after (s : PredictionOverlay) (calls : List Call) : PredictionOverlay :=
  calls.foldl (fun s call => (s.step call).1) s

/-- The bytes that some calls have drawn. -/
def drawn (s : PredictionOverlay) : List Call → Bytes
  | [] => []
  | call :: calls => (s.step call).2.bytes ++ (s.step call).1.drawn calls

/-- How many cells are predicted at once. -/
def mostPredicted (s : PredictionOverlay) : List Call → Nat
  | [] => s.predictedAscii.length
  | call :: calls => max s.predictedAscii.length ((s.step call).1.mostPredicted calls)

/-- A character that is drawn takes one column. -/
def DrawsOneColumn (width : Char → Nat) (s : PredictionOverlay) (call : Call) : Prop :=
  ∀ action c, call.action = some action → action.character = some c →
    (s.step call).2.bytes ≠ [] → width c = 1

/-- Each character that is drawn takes one column. -/
def OneColumn (width : Char → Nat) (s : PredictionOverlay) : List Call → Prop
  | [] => True
  | call :: calls => s.DrawsOneColumn width call ∧ (s.step call).1.OneColumn width calls

end PredictionOverlay

/-- What the host says of its cursor: no attribute moves it or changes a cell, and restoring it
changes no cell of the line. -/
structure PredictionContext.Faithful (width : Char → Nat) (context : PredictionContext) : Prop where
  row_lt : context.row.toNat + 1 < 2 ^ 16
  attributes : ∀ r : Row, r.parser = .ground → r.feed width context.attributes = r
  cursorState : ∀ r : Row, r.parser = .ground →
    (r.feed width context.cursorState).cells = r.cells

/-- The line a context is of, with the cursor where the context says. -/
structure Row.At (r : Row) (context : PredictionContext) : Prop where
  ground : r.parser = .ground
  line_eq : r.line = context.row.toNat
  cursorLine_eq : r.cursorLine = context.row.toNat
  cursorColumn_eq : r.cursorColumn = context.column.toNat
  length_eq : r.cells.length = context.columns.toNat
  column_lt : context.column.toNat < context.columns.toNat

theorem Row.edit_of_line {r : Row} (h : r.cursorLine = r.line) (f : List Cell → List Cell) :
    r.edit f = { r with cells := f r.cells } := if_pos h

namespace PredictionOverlay

/-- What the line shows while predictions are drawn on it. -/
structure Shows (context : PredictionContext) (cells : List Cell) (s : PredictionOverlay) (r : Row)
    (most : Nat) : Prop where
  ground : r.parser = .ground
  line_eq : r.line = context.row.toNat
  cursorLine_eq : r.cursorLine = r.line
  length_eq : cells.length = context.columns.toNat
  most_lt : context.column.toNat + most < cells.length
  rollback_le : s.rollbackCells ≤ most
  predicted_le : s.predictedAscii.length ≤ s.rollbackCells
  cells_eq : ∃ inserted : List Cell, inserted.length = s.rollbackCells ∧
    r.cells = shown cells context.column.toNat most inserted
  anchored : s.overlayActive = true → s.lineContext = some context
  rollback_eq : s.reconciliationRequired = false → s.rollbackCells = s.predictedAscii.length
  cursor_le : s.reconciliationRequired = false → s.cursorOffset ≤ s.predictedAscii.length
  cursorColumn_eq : s.reconciliationRequired = false →
    r.cursorColumn = context.column.toNat + s.cursorOffset

variable {width : Char → Nat} {context : PredictionContext} {s : PredictionOverlay} {r : Row}

theorem Shows.noted (h : Shows context cells s r most) (metrics : PredictionMetrics)
    (highest : Option Nat) : Shows context cells (s.noted metrics highest) r most :=
  ⟨h.1, h.2, h.3, h.4, h.5, h.6, h.7, h.8, h.9, h.10, h.11, h.12⟩

theorem Shows.invalidateSpan (h : Shows context cells s r most) (htidy : s.Tidy) :
    Shows context cells s.invalidateSpan r most := by
  have hidle : s.invalidateSpan.reconciliationRequired = false →
      s.reconciliationRequired = false ∧ s.overlayActive = false := fun hrequired =>
    Bool.or_eq_false_iff.mp hrequired
  refine ⟨h.1, h.2, h.3, h.4, h.5, h.6, Nat.zero_le _, h.8, h.9, fun hrequired => ?_,
    fun _ => Nat.le_refl 0, fun hrequired => ?_⟩
  · exact htidy.rollback_zero (hidle hrequired).2
  · rw [h.cursorColumn_eq (hidle hrequired).1, htidy.cursor_zero (hidle hrequired).2]
    rfl

theorem printed_character {action : PredictionAction} {bytes : Bytes}
    (h : action.printed = some bytes) : ∃ c, action.character = some c ∧ isControl c = false ∧
      bytes = String.utf8EncodeChar c := by
  cases action with
  | printableAscii byte =>
    unfold PredictionAction.printed at h
    simp only at h
    split at h
    · next hgraphic =>
      obtain rfl := Option.some.inj h
      have hrange := of_decide_eq_true hgraphic
      have hvalue : (Char.ofNat byte.toNat).toNat = byte.toNat := by
        rw [Char.toNat_ofNat, if_pos (.inl (by omega))]
      refine ⟨Char.ofNat byte.toNat, rfl, ?_, ?_⟩
      · rw [isControl, decide_eq_false_iff_not, hvalue]
        omega
      · have hval : (Char.ofNat byte.toNat).val.toNat = byte.toNat := hvalue
        simp [String.utf8EncodeChar, hval, show byte.toNat ≤ 127 by omega]
    · cases h
  | printableUtf8 character =>
    unfold PredictionAction.printed at h
    simp only at h
    split at h
    · cases h
    · next hcontrol =>
      exact ⟨character, rfl, Bool.eq_false_iff.mpr hcontrol, (Option.some.inj h).symm⟩
  | backspace => cases h
  | left => cases h
  | right => cases h
  | barrier => cases h

/-- There is room at the cursor of a line that agrees. -/
theorem Agrees.room (h : s.Agrees context) :
    context.column.toNat + s.cursorOffset < context.columns.toNat - 1 := by
  obtain ⟨hsame, hroom⟩ := h
  rw [PredictionContext.disagrees, Bool.or_eq_false_iff, Bool.or_eq_false_iff,
    decide_eq_false_iff_not, decide_eq_false_iff_not, decide_eq_false_iff_not, not_not, not_not,
    not_not] at hsame
  obtain ⟨⟨-, hcolumn⟩, hcolumns⟩ := hsame
  rw [PredictionContext.atEdge, hcolumn, hcolumns, decide_eq_false_iff_not, saturatingAdd] at hroom
  have hlt := context.columns.toNat_lt
  omega

/-- The anchor of an overlay that agrees is this context. -/
theorem Shows.anchor_eq (h : Shows context cells s r most) (htidy : s.Tidy)
    (hagrees : s.Agrees context) : s.lineContext.or (some context) = some context := by
  by_cases hactive : s.overlayActive = true
  · rw [h.anchored hactive, Option.some_or]
  have hidle := Bool.not_eq_true _ |>.mp hactive
  cases hline : s.lineContext with
  | none => exact Option.none_or
  | some anchor =>
    obtain ⟨-, hroom⟩ := hagrees
    rw [hline, Option.getD_some, htidy.cursor_zero hidle,
      htidy.anchor_edge hidle anchor hline] at hroom
    cases hroom

theorem Shows.printed (h : Shows context cells s r most) (htidy : s.Tidy)
    (hfaithful : context.Faithful width) (hrequired : s.reconciliationRequired = false)
    (hcursor : s.cursorOffset = s.predictedAscii.length) (hagrees : s.Agrees context) {c : Char}
    (hc : isControl c = false) (hwidth : width c = 1) (frameId : Nat) :
    Shows context cells
      (({ s with lineContext := s.lineContext.or (some context) } : PredictionOverlay).pushPrintable
        frameId (String.utf8EncodeChar c) (some context)).1
      (r.feed width (insertCharacter ++ underlineRendition ++ String.utf8EncodeChar c ++
        context.attributes)) (max most (s.predictedAscii.length + 1)) := by
  obtain ⟨inserted, hinserted, hcells⟩ := h.cells_eq
  have hroom := hagrees.room
  have hcolumns := context.columns.toNat_lt
  have hrollback := h.rollback_eq hrequired
  have hmost := h.most_lt
  have hlength := h.length_eq
  have hcolumn : r.cursorColumn = context.column.toNat + inserted.length := by
    rw [h.cursorColumn_eq hrequired, hcursor, hinserted, hrollback]
  have hle : inserted.length ≤ most := hinserted ▸ h.rollback_le
  have hrow : r.feed width (insertCharacter ++ underlineRendition ++ String.utf8EncodeChar c ++
      context.attributes) = { r with
        cells := shown cells context.column.toNat (max most (inserted.length + 1))
          (inserted ++ [.glyph [c]])
        cursorColumn := context.column.toNat + (inserted.length + 1) } := by
    have hprinted := shown_print c hmost hle
    have hwhole : (shown cells context.column.toNat (max most (inserted.length + 1))
        (inserted ++ [.glyph [c]])).length = cells.length :=
      length_shown (by omega) (by rw [List.length_append, List.length_singleton]; omega)
    have hblank : r.feed width insertCharacter = { r with
        cells := Row.insertCells 1 (context.column.toNat + inserted.length)
          (shown cells context.column.toNat most inserted) } := by
      rw [Row.feed_insertCharacter h.ground, Row.edit_of_line h.cursorLine_eq, hcells, hcolumn]
    have hprint : ({ r with
        cells := Row.insertCells 1 (context.column.toNat + inserted.length)
          (shown cells context.column.toNat most inserted) } : Row).print width c = { r with
        cells := shown cells context.column.toNat (max most (inserted.length + 1))
          (inserted ++ [.glyph [c]])
        cursorColumn := context.column.toNat + (inserted.length + 1) } := by
      unfold Row.print
      rw [Row.edit_of_line (by exact h.cursorLine_eq), hwidth]
      simp only
      rw [hcolumn, hprinted, Row.moveTo]
      simp only
      rw [hwhole, Nat.min_eq_left (by omega), Nat.add_assoc]
    calc r.feed width (insertCharacter ++ underlineRendition ++ String.utf8EncodeChar c ++
          context.attributes)
        = (((r.feed width insertCharacter).feed width underlineRendition).feed width
            (String.utf8EncodeChar c)).feed width context.attributes := by
          rw [Row.feed_append, Row.feed_append, Row.feed_append]
      _ = (({ r with
            cells := Row.insertCells 1 (context.column.toNat + inserted.length)
              (shown cells context.column.toNat most inserted) } : Row).print width c).feed width
            context.attributes := by
          rw [hblank, Row.feed_underlineRendition (by exact h.ground),
            Row.feed_character (by exact h.ground) hc]
      _ = _ := by
          rw [hprint]
          exact hfaithful.attributes _ h.ground
  have hcount : saturatingAdd s.predictedAscii.length 1 = s.predictedAscii.length + 1 :=
    saturatingAdd_of_lt (by omega)
  have hnext : max most (s.predictedAscii.length + 1) = max most (inserted.length + 1) := by
    rw [hinserted, hrollback]
  rw [hrow, hnext]
  refine ⟨h.ground, h.line_eq, h.cursorLine_eq, h.length_eq, by omega, ?_, ?_,
    ⟨inserted ++ [.glyph [c]], ?_, rfl⟩, fun _ => h.anchor_eq htidy hagrees, fun _ => ?_,
    fun _ => ?_, fun _ => ?_⟩
  · show saturatingAdd s.rollbackCells 1 ≤ _
    rw [hrollback, hcount, hinserted, hrollback]
    exact Nat.le_max_right _ _
  · show (s.predictedAscii ++ [_]).length ≤ saturatingAdd s.rollbackCells 1
    rw [hrollback, hcount, List.length_append, List.length_singleton]
  · show (inserted ++ [Cell.glyph [c]]).length = saturatingAdd s.rollbackCells 1
    rw [hrollback, hcount, List.length_append, List.length_singleton, hinserted, hrollback]
  · show saturatingAdd s.rollbackCells 1 = (s.predictedAscii ++ [_]).length
    rw [hrollback, hcount, List.length_append, List.length_singleton]
  · show saturatingAdd s.cursorOffset 1 ≤ (s.predictedAscii ++ [_]).length
    rw [hcursor, hcount, List.length_append, List.length_singleton]
  · show context.column.toNat + (inserted.length + 1) =
      context.column.toNat + saturatingAdd s.cursorOffset 1
    rw [hcursor, hcount, hinserted, hrollback]

theorem Shows.erased (h : Shows context cells s r most) (hrequired : s.reconciliationRequired = false)
    (hactive : s.overlayActive = true) (hcursor : s.cursorOffset = s.predictedAscii.length)
    (hsome : s.cursorOffset ≠ 0) :
    Shows context cells
      { s with
        predictedAscii := s.predictedAscii.dropLast
        cursorOffset := s.cursorOffset - 1
        displayedCells := s.displayedCells - 1
        rollbackCells := s.rollbackCells - 1
        overlayActive := true }
      (r.feed width (cursorLeft ++ deleteCharacter)) most := by
  obtain ⟨inserted, hinserted, hcells⟩ := h.cells_eq
  have hrollback := h.rollback_eq hrequired
  have hmost := h.most_lt
  have hle := h.rollback_le
  rcases List.eq_nil_or_concat' inserted with rfl | ⟨rest, cell, rfl⟩
  · rw [List.length_nil] at hinserted
    omega
  rw [List.length_append, List.length_singleton] at hinserted
  have hcolumn : r.cursorColumn - 1 = context.column.toNat + rest.length := by
    rw [h.cursorColumn_eq hrequired]
    omega
  have hlength : r.cells.length = cells.length := by
    rw [hcells]
    exact length_shown (by omega) (by rw [List.length_append, List.length_singleton]; omega)
  have hrow : r.feed width (cursorLeft ++ deleteCharacter) = { r with
      cells := shown cells context.column.toNat most rest
      cursorColumn := context.column.toNat + rest.length } := by
    have hleft : r.feed width cursorLeft =
        { r with cursorColumn := context.column.toNat + rest.length } := by
      rw [Row.feed_cursorLeft h.ground, Row.moveTo, hcolumn, Nat.min_eq_left (by omega)]
    rw [Row.feed_append, hleft, Row.feed_deleteCharacter (by exact h.ground),
      Row.edit_of_line (by exact h.cursorLine_eq)]
    simp only
    rw [hcells, shown_erase (by omega) (by omega)]
  rw [hrow]
  refine ⟨h.ground, h.line_eq, h.cursorLine_eq, h.length_eq, hmost, ?_, ?_, ⟨rest, ?_, rfl⟩,
    fun _ => h.anchored hactive, fun _ => ?_, fun _ => ?_, fun _ => ?_⟩
  · exact (Nat.sub_le _ _).trans hle
  · show s.predictedAscii.dropLast.length ≤ s.rollbackCells - 1
    rw [List.length_dropLast, hrollback]
  · show rest.length = s.rollbackCells - 1
    omega
  · show s.rollbackCells - 1 = s.predictedAscii.dropLast.length
    rw [List.length_dropLast, hrollback]
  · show s.cursorOffset - 1 ≤ s.predictedAscii.dropLast.length
    rw [List.length_dropLast, hcursor]
  · show context.column.toNat + rest.length = context.column.toNat + (s.cursorOffset - 1)
    omega

/-- The cursor moves within the predicted cells. -/
theorem Shows.moved (h : Shows context cells s r most) (hrequired : s.reconciliationRequired = false)
    (hactive : s.overlayActive = true) {offset : Nat} (hoffset : offset ≤ s.predictedAscii.length)
    {bytes : Bytes} (hbytes : r.feed width bytes = r.moveTo (context.column.toNat + offset)) :
    Shows context cells { s with cursorOffset := offset, overlayActive := true }
      (r.feed width bytes) most := by
  obtain ⟨inserted, hinserted, hcells⟩ := h.cells_eq
  have hmost := h.most_lt
  have hle := h.rollback_le
  have hrollback := h.rollback_eq hrequired
  have hlength : r.cells.length = cells.length := by
    rw [hcells]
    exact length_shown (by omega) (by omega)
  rw [hbytes, Row.moveTo, hlength, Nat.min_eq_left (by omega)]
  exact ⟨h.ground, h.line_eq, h.cursorLine_eq, h.length_eq, hmost, hle, h.predicted_le,
    ⟨inserted, hinserted, hcells⟩, fun _ => h.anchored hactive, h.rollback_eq,
    fun _ => hoffset, fun _ => rfl⟩

/-! ## One call -/

theorem Shows.mono_of_le (h : Shows context cells s r most) {n : Nat} (hn : n ≤ s.rollbackCells) :
    Shows context cells s r (max most n) := by
  rw [Nat.max_eq_left (hn.trans h.rollback_le)]
  exact h

theorem Shows.edited (h : Shows context cells s r most) (htidy : s.Tidy)
    (hfaithful : context.Faithful width) (hinsert : s.overwrite = false)
    (hrequired : s.reconciliationRequired = false) {frameId : Nat} {action : PredictionAction}
    {result : PredictionOverlay × Option Bytes}
    (hedit : Edited s frameId action (some context) result)
    (hwidth : ∀ c, action.character = some c → result.2.getD [] ≠ [] → width c = 1) :
    Shows context cells result.1 (r.feed width (result.2.getD []))
      (max most result.1.predictedAscii.length) := by
  have hactive : s.cursorOffset ≠ 0 → s.overlayActive = true := by
    intro hcursor
    by_contra hidle
    exact hcursor (htidy.cursor_zero (Bool.not_eq_true _ |>.mp hidle))
  cases hedit with
  | refused => exact h.mono_of_le h.predicted_le
  | invalidated => exact (h.invalidateSpan htidy).mono_of_le (Nat.zero_le _)
  | @disagreed bytes c hbytes hcontext hcursor hrefused =>
    refine Shows.mono_of_le ?_ (Nat.zero_le _)
    have hshows := h.invalidateSpan htidy
    refine ⟨hshows.1, hshows.2, hshows.3, hshows.4, hshows.5, hshows.6, hshows.7, hshows.8,
      fun hactive => ?_, hshows.10, hshows.11, hshows.12⟩
    show s.lineContext.or (some context) = some context
    rw [h.anchored hactive, Option.some_or]
  | @printed bytes hbytes hcursor hagrees =>
    obtain ⟨c, hcharacter, hc, rfl⟩ := printed_character hbytes
    have hdrawn : (({ s with lineContext := s.lineContext.or (some context) } :
        PredictionOverlay).pushPrintable frameId (String.utf8EncodeChar c) (some context)).2.getD [] =
        insertCharacter ++ underlineRendition ++ String.utf8EncodeChar c ++ context.attributes := by
      show (if s.overwrite then [] else insertCharacter) ++ _ ++ _ ++ _ = _
      rw [hinsert]
      rfl
    have hone : width c = 1 := by
      refine hwidth c hcharacter ?_
      rw [hdrawn]
      exact List.cons_ne_nil _ _
    have hpredicted : (({ s with lineContext := s.lineContext.or (some context) } :
        PredictionOverlay).pushPrintable frameId (String.utf8EncodeChar c)
          (some context)).1.predictedAscii.length = s.predictedAscii.length + 1 := List.length_append
    rw [hdrawn, hpredicted]
    exact h.printed htidy hfaithful hrequired hcursor (hagrees context rfl) hc hone frameId
  | erased hsome hcursor _ =>
    have hshows : Shows context cells _ (r.feed width (cursorLeft ++ deleteCharacter)) most :=
      h.erased hrequired (hactive hsome) hcursor hsome
    exact hshows.mono_of_le hshows.predicted_le
  | movedLeft hsome =>
    have hcursor := h.cursor_le hrequired
    have hbytes : r.feed width cursorLeft =
        r.moveTo (context.column.toNat + (s.cursorOffset - 1)) := by
      rw [Row.feed_cursorLeft h.ground, h.cursorColumn_eq hrequired]
      congr 1
      omega
    exact (h.moved hrequired (hactive hsome) (by omega) hbytes).mono_of_le h.predicted_le
  | movedRight hroom =>
    have hbytes : r.feed width cursorRight =
        r.moveTo (context.column.toNat + (s.cursorOffset + 1)) := by
      rw [Row.feed_cursorRight h.ground, h.cursorColumn_eq hrequired, Nat.add_assoc]
    have hactive : s.overlayActive = true := by
      by_contra hidle
      rw [htidy.predicted_nil (Bool.not_eq_true _ |>.mp hidle)] at hroom
      exact absurd hroom (Nat.not_lt_zero _)
    exact (h.moved hrequired hactive hroom hbytes).mono_of_le h.predicted_le

theorem Shows.offered (h : Shows context cells s r most) (htidy : s.Tidy)
    (hfaithful : context.Faithful width) (hinsert : s.overwrite = false) (frameId : Nat)
    (action : PredictionAction) (offeredAt : Option Nat)
    (hwidth : ∀ c, action.character = some c →
      (s.offerForFrameWithContextInner frameId action (some context) offeredAt).2.getD [] ≠ [] →
      width c = 1) :
    Shows context cells
      (s.offerForFrameWithContextInner frameId action (some context) offeredAt).1
      (r.feed width
        ((s.offerForFrameWithContextInner frameId action (some context) offeredAt).2.getD []))
      (max most (s.offerForFrameWithContextInner frameId action (some context)
        offeredAt).1.predictedAscii.length) := by
  rcases offered_cases s frameId action (some context) offeredAt with
    ⟨metrics, highest, heq⟩ | ⟨metrics, highest, heq⟩ | ⟨-, hrequired, metrics, result, hedit, heq⟩
  · rw [heq]
    exact (h.noted metrics highest).mono_of_le h.predicted_le
  · rw [heq]
    exact ((h.noted metrics highest).invalidateSpan (htidy.noted metrics highest)).mono_of_le
      (Nat.zero_le _)
  · rw [heq] at hwidth ⊢
    have hshows := (h.noted metrics (some frameId)).edited (htidy.noted metrics (some frameId))
      hfaithful hinsert hrequired hedit hwidth
    simp only
    split
    · exact ⟨hshows.1, hshows.2, hshows.3, hshows.4, hshows.5, hshows.6, hshows.7, hshows.8,
        hshows.9, hshows.10, hshows.11, hshows.12⟩
    · exact hshows

/-- **What the line shows after one call more.** -/
theorem Shows.step (h : Shows context cells s r most) (htidy : s.Tidy)
    (hfaithful : context.Faithful width) (hinsert : s.overwrite = false) {call : Call}
    (hcall : call.AnchoredAt context) (hwidth : s.DrawsOneColumn width call) :
    Shows context cells (s.step call).1 (r.feed width (s.step call).2.bytes)
      (max most (s.step call).1.predictedAscii.length) := by
  have hbytes : ∀ output : Option Bytes, (Answer.output output).bytes = output.getD [] := by
    intro output
    cases output with
    | none => rfl
    | some bytes => rfl
  cases call with
  | setRoundTripMilliseconds milliseconds =>
    refine Shows.mono_of_le ?_ h.predicted_le
    exact ⟨h.1, h.2, h.3, h.4, h.5, h.6, h.7, h.8, h.9, h.10, h.11, h.12⟩
  | offer kind bytes => exact absurd hcall id
  | offerForFrame frameId action => exact absurd hcall id
  | offerForFrameWithContext frameId action context' =>
    obtain rfl : context' = some context := hcall
    have hshows := h.offered htidy hfaithful hinsert frameId action none fun c hc hdrawn =>
      hwidth action c rfl hc (by rw [PredictionOverlay.step]; exact (hbytes _).symm ▸ hdrawn)
    show Shows context cells _ (r.feed width (Answer.output _).bytes) _
    rw [hbytes]
    exact hshows
  | offerForFrameWithContextAt frameId action context' offeredAt =>
    obtain rfl : context' = some context := hcall
    have hshows := h.offered htidy hfaithful hinsert frameId action (some offeredAt)
      fun c hc hdrawn =>
        hwidth action c rfl hc (by rw [PredictionOverlay.step]; exact (hbytes _).symm ▸ hdrawn)
    show Shows context cells _ (r.feed width (Answer.output _).bytes) _
    rw [hbytes]
    exact hshows
  | expireStale nowMilliseconds =>
    show Shows context cells (s.expireStale nowMilliseconds).1 r
      (max most (s.expireStale nowMilliseconds).1.predictedAscii.length)
    unfold PredictionOverlay.expireStale
    split
    · exact h.mono_of_le h.predicted_le
    split
    · exact h.mono_of_le h.predicted_le
    · exact (h.invalidateSpan htidy).mono_of_le (Nat.zero_le _)
  | takeReconciliation => exact absurd hcall id
  | reconcile => exact absurd hcall id
  | acknowledge acknowledgement =>
    show Shows context cells (s.acknowledge acknowledgement) r
      (max most (s.acknowledge acknowledgement).predictedAscii.length)
    unfold PredictionOverlay.acknowledge
    split
    · exact h.mono_of_le h.predicted_le
    split
    · exact h.mono_of_le h.predicted_le
    · refine Shows.mono_of_le ?_ ?_
      · refine ⟨h.1, h.2, h.3, h.4, h.5, h.6, ?_, h.8, h.9, ?_, ?_, h.12⟩
        · rw [List.length_map]
          exact h.predicted_le
        · rw [List.length_map]
          exact h.rollback_eq
        · rw [List.length_map]
          exact h.cursor_le
      · rw [List.length_map]
        exact h.predicted_le

/-! ## All calls since the last reconciliation -/

/-- **What the line shows after any calls.** -/
theorem Shows.run (hfaithful : context.Faithful width) : ∀ (calls : List Call)
    {s : PredictionOverlay} {r : Row} {most : Nat}, Shows context cells s r most → s.Tidy →
    s.overwrite = false → (∀ call ∈ calls, call.AnchoredAt context) → s.OneColumn width calls →
    Shows context cells (s.after calls) (r.feed width (s.drawn calls))
      (max most (s.mostPredicted calls))
  | [], _, _, _, h, _, _, _, _ => h.mono_of_le h.predicted_le
  | call :: calls, s, r, most, h, htidy, hinsert, hcalls, hwidth => by
    have hstep := h.step htidy hfaithful hinsert (hcalls call List.mem_cons_self) hwidth.1
    have hrun := Shows.run hfaithful calls hstep (htidy.step call)
      ((step_settings s call).2.trans hinsert)
      (fun call' hmem => hcalls call' (List.mem_cons_of_mem _ hmem)) hwidth.2
    have hmost : max most (s.mostPredicted (call :: calls)) =
        max (max most (s.step call).1.predictedAscii.length)
          ((s.step call).1.mostPredicted calls) := by
      have hpredicted := h.predicted_le.trans h.rollback_le
      have hnext : (s.step call).1.predictedAscii.length ≤
          (s.step call).1.mostPredicted calls := by
        cases calls with
        | nil => exact Nat.le_refl _
        | cons call' calls => exact Nat.le_max_left _ _
      rw [mostPredicted]
      omega
    rw [drawn, Row.feed_append, hmost]
    exact hrun

theorem shows_idle (htidy : s.Tidy) (hidle : s.overlayActive = false) (hat : r.At context) :
    Shows context r.cells s r 0 := by
  have hcolumn := hat.column_lt
  have hlength := hat.length_eq
  have hrollback := htidy.rollback_zero hidle
  have hpredicted := htidy.predicted_nil hidle
  have hcursor := htidy.cursor_zero hidle
  refine ⟨hat.ground, hat.line_eq, hat.cursorLine_eq.trans hat.line_eq.symm, hlength, by omega,
    Nat.le_of_eq hrollback, ?_, ⟨[], hrollback.symm, ?_⟩, fun hactive => ?_, fun _ => ?_,
    fun _ => ?_, fun _ => ?_⟩
  · rw [hpredicted]
    exact Nat.zero_le _
  · rw [shown_nil (by omega), Nat.sub_zero, List.take_length, List.replicate_zero, List.append_nil]
  · exact absurd (hactive.symm.trans hidle) (by decide)
  · rw [hrollback, hpredicted]
    rfl
  · rw [hcursor]
    exact Nat.zero_le _
  · rw [hat.cursorColumn_eq, hcursor, Nat.add_zero]

/-- **The bytes of a local reconciliation** delete what was inserted. -/
theorem Shows.rollback (h : Shows context cells s r most) (htidy : s.Tidy)
    (hfaithful : context.Faithful width) (hinsert : s.overwrite = false) {bytes : Bytes}
    (hlocal : s.takeReconciliation.2 = .localEdit bytes) :
    (r.feed width bytes).cells = cells.take (cells.length - most) ++ List.replicate most .blank := by
  obtain ⟨inserted, hinserted, hcells⟩ := h.cells_eq
  have hmost := h.most_lt
  have hle := h.rollback_le
  have hlength := h.length_eq
  have hcolumns := context.columns.toNat_lt
  have hrow := hfaithful.row_lt
  rcases takeReconciliation_cases s with ⟨-, -, hnone⟩ | ⟨hsome, hresult, -⟩
  · rw [hnone] at hlocal
    cases hlocal
  have hactive : s.overlayActive = true := hsome.elim id htidy.required_active
  rw [hresult, hinsert, localReconciliation, h.anchored hactive] at hlocal
  obtain rfl := PredictionReconciliation.localEdit.inj hlocal
  rw [Row.feed_append]
  by_cases hzero : s.rollbackCells = 0
  · obtain rfl := List.eq_nil_of_length_eq_zero (hinserted.trans hzero)
    rw [if_neg (not_not.mpr hzero), Row.feed_nil, hfaithful.cursorState r h.ground, hcells,
      shown_nil (by omega)]
  · have hmove : r.feed width (escape ++ ascii "[" ++ decimal (saturatingSucc context.row) ++
        ascii ";" ++ decimal (saturatingSucc context.column) ++ ascii "H") =
        { r with cursorColumn := context.column.toNat } := by
      have hline : ({ r with cursorLine := max 1 (saturatingSucc context.row) - 1 } : Row) = r := by
        have hvalue : max 1 (saturatingSucc context.row) - 1 = r.cursorLine := by
          rw [saturatingSucc_of_lt hrow, h.cursorLine_eq, h.line_eq]
          omega
        rw [hvalue]
      have hcolumn : max 1 (saturatingSucc context.column) - 1 = context.column.toNat := by
        rw [saturatingSucc_of_lt (by omega)]
        omega
      have hcells' : r.cells.length = cells.length := by
        rw [hcells]
        exact length_shown (by omega) (by omega)
      refine (Row.feed_two h.ground _ _
        (by decide : (0x40 : UInt8) ≤ 0x48 ∧ (0x48 : UInt8) ≤ 0x7e)).trans ?_
      show ({ r with cursorLine := max 1 (saturatingSucc context.row) - 1 } : Row).moveTo
        (max 1 (saturatingSucc context.column) - 1) = _
      rw [hline, hcolumn, Row.moveTo, Nat.min_eq_left (by omega)]
    have hdelete : ({ r with cursorColumn := context.column.toNat } : Row).feed width
        (escape ++ ascii "[" ++ decimal s.rollbackCells ++ ascii "P") =
        { r with
          cells := Row.deleteCells inserted.length context.column.toNat r.cells
          cursorColumn := context.column.toNat } := by
      have hcount : max 1 s.rollbackCells = inserted.length := by omega
      refine (Row.feed_one (by exact h.ground) _
        (by decide : (0x40 : UInt8) ≤ 0x50 ∧ (0x50 : UInt8) ≤ 0x7e)).trans ?_
      show ({ r with cursorColumn := context.column.toNat } : Row).edit
        (Row.deleteCells (max 1 s.rollbackCells) context.column.toNat) = _
      rw [hcount, Row.edit_of_line (by exact h.cursorLine_eq)]
    rw [if_pos hzero, Row.feed_append, hmove, hdelete, hfaithful.cursorState _ (by exact h.ground)]
    simp only
    rw [hcells, shown_rollback (by omega) (by omega)]

/-- The context a host takes from its cursor, with the codes of its rendition. -/
def contextOf (row column columns : UInt16) (codes : List Nat) : PredictionContext where
  row
  column
  columns
  attributes := Row.rendition codes
  cursorState := escape ++ ascii "[" ++ decimal (saturatingSucc row) ++ ascii ";" ++
    decimal (saturatingSucc column) ++ ascii "H" ++ Row.rendition codes

/-- The contexts of a host are faithful. -/
theorem faithful_contextOf (width : Char → Nat) {row : UInt16} (hrow : row.toNat + 1 < 2 ^ 16)
    (column columns : UInt16) (codes : List Nat) :
    (contextOf row column columns codes).Faithful width where
  row_lt := hrow
  attributes := fun _ hground => Row.feed_rendition hground codes
  cursorState := by
    intro r hground
    have hmove := @Row.feed_two width r hground (saturatingSucc row) (saturatingSucc column) 0x48
      (by decide)
    show (r.feed width (_ ++ [0x48] ++ Row.rendition codes)).cells = r.cells
    rw [Row.feed_append, hmove, Row.feed_rendition (by exact hground)]
    rfl

/-- **A local rollback restores the line iff the cells that were pushed out were blank**, where
each character that is drawn takes one column. -/
theorem rollback_restores_iff (width : Char → Nat) (display : PredictionDisplay)
    (earlier calls : List Call) (context : PredictionContext) (r : Row) (bytes : Bytes)
    (hidle : ((machine display false).final earlier).overlayActive = false)
    (hcalls : ∀ call ∈ calls, call.AnchoredAt context) (hat : r.At context)
    (hfaithful : context.Faithful width)
    (hwidth : ((machine display false).final earlier).OneColumn width calls)
    (hlocal : (((machine display false).final earlier).after calls).takeReconciliation.2 =
      .localEdit bytes) :
    (r.feed width (((machine display false).final earlier).drawn calls ++ bytes)).cells = r.cells ↔
      ∀ cell ∈ r.cells.drop
        (r.cells.length - ((machine display false).final earlier).mostPredicted calls),
        cell = .blank := by
  have htidy := tidy_final display false earlier
  have hinsert := (settings_final display false earlier).2
  have hshows := Shows.run hfaithful calls (shows_idle htidy hidle hat) htidy hinsert hcalls hwidth
  rw [Nat.zero_max] at hshows
  have hafter : (((machine display false).final earlier).after calls).Tidy ∧
      (((machine display false).final earlier).after calls).overwrite = false := by
    have hfinal : (machine display false).final (earlier ++ calls) =
        ((machine display false).final earlier).after calls :=
      (machine display false).final_append earlier calls
    rw [← hfinal]
    exact ⟨tidy_final display false _, (settings_final display false _).2⟩
  have hmost := hshows.most_lt
  rw [Row.feed_append, hshows.rollback hafter.1 hfaithful hafter.2 hlocal]
  exact take_append_blank_iff (by omega)

/-- How wide characters are shown, one of them in two columns. -/
def eastAsianWidth (c : Char) : Nat := if c.toNat = 0x754c then 2 else 1

/-- A line of five columns that begins with two letters. -/
def twoLetters : Row where
  line := 0
  cells := [.glyph ['a'], .glyph ['b'], .blank, .blank, .blank]
  cursorLine := 0
  cursorColumn := 0
  parser := .ground

theorem at_twoLetters : twoLetters.At (contextOf 0 0 5 [0]) :=
  ⟨rfl, rfl, rfl, rfl, rfl, by decide⟩

/-- One character, typed at the beginning of the line. -/
def typed (c : Char) : List Call :=
  [.offerForFrameWithContext 1 (.printableUtf8 c) (some (contextOf 0 0 5 [0]))]

theorem anchoredAt_typed (c : Char) : ∀ call ∈ typed c, call.AnchoredAt (contextOf 0 0 5 [0]) := by
  intro call hcall
  obtain rfl := List.mem_singleton.mp hcall
  rfl

/-- What takes back one cell at the beginning of the line. -/
def rollbackOne : Bytes :=
  escape ++ ascii "[1;1H" ++ escape ++ ascii "[1P" ++ (contextOf 0 0 5 [0]).cursorState

theorem rollback_restores_iff_letter :
    (twoLetters.feed eastAsianWidth ((new .always false).drawn (typed 'x') ++ rollbackOne)).cells =
        twoLetters.cells ↔
      ∀ cell ∈ twoLetters.cells.drop
        (twoLetters.cells.length - (new .always false).mostPredicted (typed 'x')), cell = .blank := by
  refine rollback_restores_iff eastAsianWidth .always [] (typed 'x') (contextOf 0 0 5 [0]) twoLetters
    rollbackOne rfl (anchoredAt_typed 'x') at_twoLetters
    (faithful_contextOf eastAsianWidth (by decide) 0 5 [0]) ⟨?_, trivial⟩ (by decide +kernel)
  intro action c haction hc _
  obtain rfl := Option.some.inj haction
  obtain rfl := Option.some.inj hc
  decide

theorem wide_character_overwrites :
    (∀ call ∈ typed (Char.ofNat 0x754c), call.AnchoredAt (contextOf 0 0 5 [0])) ∧
    twoLetters.At (contextOf 0 0 5 [0]) ∧ (contextOf 0 0 5 [0]).Faithful eastAsianWidth ∧
    ((new .always false).after (typed (Char.ofNat 0x754c))).takeReconciliation.2 =
      .localEdit rollbackOne ∧
    (twoLetters.feed eastAsianWidth
      ((new .always false).drawn (typed (Char.ofNat 0x754c)) ++ rollbackOne)).cells ≠
        twoLetters.cells :=
  ⟨anchoredAt_typed _, at_twoLetters, faithful_contextOf eastAsianWidth (by decide) 0 5 [0],
    by decide +kernel, by decide +kernel⟩

end PredictionOverlay

end OxideTerm.Predict
