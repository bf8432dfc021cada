import OxideTerm.Editor.Properties.History

/-!
# Runs of a buffer

Every operation moves the buffer and its history together, so that after every run the buffer stands
for the version that the history is at.
-/

namespace OxideTerm.Editor

open Lib Lib.Text

variable {buffer buffer' : TextBuffer} {plain plain' : Plain} {text : List Char}
  {operation : Operation} {operations operations' : List Operation}

/-! ## Moves -/

/-- All that an operation can do with a buffer and the history that it stands for. -/
inductive TextBuffer.Move (buffer : TextBuffer) (plain : Plain) :
    Operation → TextBuffer → Plain → Prop
  | accepted {operation : Operation} {transaction : EditTransaction} {text' : List Char}
      {buffer' : TextBuffer} {inverse : List TextEdit} :
      operation.transaction = some transaction → transaction.edits ≠ [] →
      buffer.Accepted plain.current.text text' transaction.edits buffer' inverse →
      Move buffer plain operation buffer' { plain with
        current := ⟨plain.next, text'⟩
        undo := plain.current :: plain.undo
        redo := []
        next := plain.next + 1 }
  | refused {operation : Operation} {transaction : EditTransaction} {buffer' : TextBuffer} :
      operation.transaction = some transaction →
      (transaction.edits = [] ∨ ¬ Acceptable plain.current.text transaction.edits) →
      buffer.Refused buffer' → Move buffer plain operation buffer' plain
  | undone {shared : Bool} {entry : HistoryEntry} {entries : List HistoryEntry}
      {version : Version} {versions : List Version} {redo : List TextEdit}
      {buffer' : TextBuffer} : buffer.undoStack = entry :: entries →
      plain.undo = version :: versions →
      Exchange Char.utf8Size 0 0 plain.current.text (entry.edits.map TextEdit.toSplice)
        version.text (redo.map TextEdit.toSplice) →
      buffer'.Holds version.text → buffer.Undone entry entries buffer' redo →
      Move buffer plain (.undo shared) buffer' { plain with
        current := version, undo := versions, redo := plain.current :: plain.redo }
  | nothingToUndo {shared : Bool} : plain.undo = [] →
      Move buffer plain (.undo shared) buffer plain
  | redone {shared : Bool} {entry : HistoryEntry} {entries : List HistoryEntry}
      {version : Version} {versions : List Version} {undo : List TextEdit}
      {buffer' : TextBuffer} : buffer.redoStack = entry :: entries →
      plain.redo = version :: versions →
      Exchange Char.utf8Size 0 0 plain.current.text (entry.edits.map TextEdit.toSplice)
        version.text (undo.map TextEdit.toSplice) →
      buffer'.Holds version.text → buffer.Redone entry entries buffer' undo →
      Move buffer plain (.redo shared) buffer' { plain with
        current := version, redo := versions, undo := plain.current :: plain.undo }
  | nothingToRedo {shared : Bool} : plain.redo = [] →
      Move buffer plain (.redo shared) buffer plain
  | saved : Move buffer plain .markSaved buffer.markSaved { plain with saved := plain.current }
  | read {buffer' : TextBuffer} : buffer'.Holds plain.current.text →
      buffer.SameHistory buffer' → Move buffer plain .snapshot buffer' plain
  | released {shared : Bool} {buffer' : TextBuffer} : buffer'.Holds plain.current.text →
      buffer.SameHistory buffer' → Move buffer plain (.releaseCache shared) buffer' plain

/-- A transaction moves the buffer, under whichever operation it is applied. -/
theorem TextBuffer.Refines.applyTransaction (h : buffer.Refines plain) (shared : Bool)
    {transaction : EditTransaction} (hoperation : operation.transaction = some transaction) :
    ∃ result buffer' plain', buffer.applyTransaction shared transaction = some (result, buffer') ∧
      buffer.Move plain operation buffer' plain' := by
  by_cases hempty : transaction.edits = []
  · have hrun : buffer.applyTransaction shared transaction = some (.ok (), buffer) := by
      rw [TextBuffer.applyTransaction, if_pos hempty]
    exact ⟨_, buffer, plain, hrun, .refused hoperation (.inl hempty)
      ⟨rfl, rfl, rfl, rfl, rfl, rfl, rfl, rfl, .inl rfl⟩⟩
  · rcases h.holds.applyTransaction_cases shared hempty with
      ⟨text', buffer', inverse, -, hrun, haccepted⟩ | ⟨hacceptable, error, buffer', hrun, hrefused⟩
    · exact ⟨_, buffer', _, hrun, .accepted hoperation hempty haccepted⟩
    · exact ⟨_, buffer', plain, hrun, .refused hoperation (.inr hacceptable) hrefused⟩

/-- **Every operation returns, and makes one of the moves.** -/
theorem TextBuffer.Refines.step (h : buffer.Refines plain) (operation : Operation) :
    ∃ buffer' plain', buffer.step operation = some buffer' ∧
      buffer.Move plain operation buffer' plain' := by
  cases operation with
  | apply shared transaction =>
    obtain ⟨result, buffer', plain', hrun, hmove⟩ :=
      @h.applyTransaction _ _ (.apply shared transaction) shared transaction rfl
    exact ⟨buffer', plain', by rw [TextBuffer.step, hrun, Option.map_some], hmove⟩
  | replaceSelection shared range replacement =>
    obtain ⟨result, buffer', plain', hrun, hmove⟩ :=
      @h.applyTransaction _ _ (.replaceSelection shared range replacement) shared _ rfl
    refine ⟨buffer', plain', ?_, hmove⟩
    rw [TextBuffer.step, TextBuffer.replaceSelection, hrun]
    cases result <;> rfl
  | undo shared =>
    have hundo := h.undo
    cases hstack : buffer.undoStack with
    | nil =>
      rw [hstack] at hundo
      refine ⟨buffer, plain, ?_, .nothingToUndo hundo.nil⟩
      rw [TextBuffer.step, TextBuffer.undo, hstack]
      rfl
    | cons entry entries =>
      rw [hstack] at hundo
      obtain ⟨version, versions, hversions, ⟨inverse, hexchange⟩, -⟩ := hundo.cons
      obtain ⟨redo, buffer', hrun, rfl, hholds, hundone⟩ := h.holds.undo shared hstack hexchange
      refine ⟨buffer', _, ?_, .undone hstack hversions hexchange hholds hundone⟩
      rw [TextBuffer.step, hrun]
      rfl
  | redo shared =>
    have hredo := h.redo
    cases hstack : buffer.redoStack with
    | nil =>
      rw [hstack] at hredo
      refine ⟨buffer, plain, ?_, .nothingToRedo hredo.nil⟩
      rw [TextBuffer.step, TextBuffer.redo, hstack]
      rfl
    | cons entry entries =>
      rw [hstack] at hredo
      obtain ⟨version, versions, hversions, ⟨inverse, hexchange⟩, -⟩ := hredo.cons
      obtain ⟨undo, buffer', hrun, rfl, hholds, hredone⟩ := h.holds.redo shared hstack hexchange
      refine ⟨buffer', _, ?_, .redone hstack hversions hexchange hholds hredone⟩
      rw [TextBuffer.step, hrun]
      rfl
  | markSaved => exact ⟨_, _, rfl, .saved⟩
  | snapshot =>
    obtain ⟨buffer', hrun, hholds, hsame⟩ := h.holds.withText
    refine ⟨buffer', plain, ?_, .read hholds hsame⟩
    rw [TextBuffer.step, hrun]
    rfl
  | releaseCache shared =>
    obtain ⟨hholds, hsame⟩ := h.holds.releaseTextCache shared
    exact ⟨_, plain, rfl, .released hholds hsame⟩

theorem TextBuffer.Move.plain_step (h : buffer.Move plain operation buffer' plain') :
    plain.Step operation plain' := by
  cases h with
  | accepted hoperation hne haccepted =>
    exact .accepted hoperation hne ⟨_, haccepted.exchange⟩
  | refused hoperation hrefused _ => exact .refused hoperation hrefused
  | undone _ hversions _ _ _ => exact .undone hversions
  | nothingToUndo hnone => exact .nothingToUndo hnone
  | redone _ hversions _ _ _ => exact .redone hversions
  | nothingToRedo hnone => exact .nothingToRedo hnone
  | saved => exact .saved
  | read _ _ => exact .read
  | released _ _ => exact .released

/-- **The buffer keeps standing for its history.** -/
theorem TextBuffer.Refines.move (h : buffer.Refines plain)
    (hmove : buffer.Move plain operation buffer' plain') : buffer'.Refines plain' := by
  cases hmove with
  | accepted hoperation hne haccepted =>
    refine ⟨haccepted.holds, ?_, ?_⟩
    · rw [haccepted.undoStack]
      exact ⟨⟨_, haccepted.exchange.symm⟩, h.undo⟩
    · rw [haccepted.redoStack]
      exact trivial
  | refused _ _ hrefused =>
    refine ⟨hrefused.holds h.holds, ?_, ?_⟩
    · rw [hrefused.undoStack]
      exact h.undo
    · rw [hrefused.redoStack]
      exact h.redo
  | undone hstack hversions hexchange hholds hundone =>
    have hundo := h.undo
    rw [hstack, hversions] at hundo
    refine ⟨hholds, ?_, ?_⟩
    · rw [hundone.undoStack]
      exact hundo.2
    · rw [hundone.redoStack]
      exact ⟨⟨_, hexchange.symm⟩, h.redo⟩
  | nothingToUndo _ => exact h
  | redone hstack hversions hexchange hholds hredone =>
    have hredo := h.redo
    rw [hstack, hversions] at hredo
    refine ⟨hholds, ?_, ?_⟩
    · rw [hredone.undoStack]
      exact ⟨⟨_, hexchange.symm⟩, h.undo⟩
    · rw [hredone.redoStack]
      exact hredo.2
  | nothingToRedo _ => exact h
  | saved => exact ⟨⟨h.holds.storage, h.holds.cache, h.holds.lines⟩, h.undo, h.redo⟩
  | read hholds hsame =>
    refine ⟨hholds, ?_, ?_⟩
    · rw [hsame.undoStack]
      exact h.undo
    · rw [hsame.redoStack]
      exact h.redo
  | released hholds hsame =>
    refine ⟨hholds, ?_, ?_⟩
    · rw [hsame.undoStack]
      exact h.undo
    · rw [hsame.redoStack]
      exact h.redo

/-! ## Runs -/

/-- A fact about a buffer and its history that every move keeps is kept by every run. -/
theorem TextBuffer.Refines.run {P : TextBuffer → Plain → List Operation → Prop}
    (hmove : ∀ {buffer plain operation operations buffer' plain'},
      buffer.Move plain operation buffer' plain' → P buffer plain (operation :: operations) →
        P buffer' plain' operations)
    (h : buffer.Refines plain) (hbegin : P buffer plain operations) :
    ∃ buffer' plain', buffer.run operations = some buffer' ∧ plain.Run operations plain' ∧
      buffer'.Refines plain' ∧ P buffer' plain' [] := by
  induction operations generalizing buffer plain with
  | nil => exact ⟨buffer, plain, rfl, .nil, h, hbegin⟩
  | cons operation operations ih =>
    obtain ⟨middle, between, hstep, hmoved⟩ := h.step operation
    obtain ⟨buffer', plain', hrun, hplain, hrefines, hend⟩ :=
      ih (h.move hmoved) (hmove hmoved hbegin)
    refine ⟨buffer', plain', ?_, .cons hmoved.plain_step hplain, hrefines, hend⟩
    rw [TextBuffer.run, List.foldlM_cons, hstep]
    exact hrun

theorem TextBuffer.opened (text : List Char) :
    ∃ buffer, TextBuffer.new text = some buffer ∧ buffer.Refines (.opened text) ∧
      buffer.contentRevision = 0 ∧ buffer.savedRevision = 0 ∧ buffer.nextContentRevision = 1 ∧
      buffer.undoStack = [] ∧ buffer.redoStack = [] := by
  obtain ⟨lineStarts, hlines, hcovers⟩ := LineIndex.covers_new text
  refine ⟨_, by rw [TextBuffer.new, hlines, Option.map_some], ⟨⟨?_, ?_, hcovers⟩, ?_, ?_⟩, rfl, rfl,
    rfl, rfl, rfl⟩
  · exact PieceTable.holds_new text
  · rintro cached ⟨⟩
    rfl
  · exact trivial
  · exact trivial

/-! ## What is seen -/

/-- What the reads of a buffer show. -/
structure TextBuffer.Shows (buffer : TextBuffer) (text : List Char) : Prop where
  whole : ∃ buffer', buffer.withText = some (text, buffer')
  len : buffer.storage.len = byteLength text
  chunks : ∃ chunks, buffer.storage.chunks = some chunks ∧ chunks.flatten = text
  isCharBoundary : ∀ n, buffer.storage.isCharBoundary n = true ↔ IsByteBoundary text n
  slice : ∀ range part, buffer.slice range = some (.ok part) ↔ ∃ front back,
    text = front ++ (part ++ back) ∧ byteLength front = range.start ∧
      byteLength front + byteLength part = range.stop
  slice_returns : ∀ range, ∃ result, buffer.slice range = some result
  lineStarts : buffer.lineStarts.starts = lineStartsOf text

/-- A slice is cut out, or its range is not one of the text. -/
theorem TextBuffer.Holds.slice_cases (h : buffer.Holds text) (range : TextRange) :
    (∃ front part back, text = front ++ (part ++ back) ∧ byteLength front = range.start ∧
      byteLength front + byteLength part = range.stop ∧ buffer.slice range = some (.ok part)) ∨
    (¬ (range.start ≤ range.stop ∧ IsByteBoundary text range.start ∧
      IsByteBoundary text range.stop) ∧ ∃ error, buffer.slice range = some (.error error)) := by
  have hstart := @validateOffset_ok_iff text range.start _ h.storage
  have hstop := @validateOffset_ok_iff text range.stop _ h.storage
  rw [TextBuffer.slice]
  cases hfirst : validateOffset buffer.storage range.start with
  | error error =>
    rw [hfirst] at hstart
    exact .inr ⟨fun hrange => absurd (hstart.mpr hrange.2.1) (by simp), error, rfl⟩
  | ok =>
    cases hsecond : validateOffset buffer.storage range.stop with
    | error error =>
      rw [hsecond] at hstop
      exact .inr ⟨fun hrange => absurd (hstop.mpr hrange.2.2) (by simp), error, rfl⟩
    | ok =>
      dsimp only
      split
      next hreverse =>
        exact .inr ⟨fun hrange => absurd hrange.1 (Nat.not_le.mpr hreverse), _, rfl⟩
      next hordered =>
        obtain ⟨front, rest, htext, hfront⟩ := hstart.mp hfirst
        obtain ⟨upTo, back, htext', hupTo⟩ := hstop.mp hsecond
        have hle : byteLength front ≤ byteLength upTo := by
          rw [← byteLength_eq_weight] at hfront hupTo
          omega
        obtain ⟨part, rfl, rfl⟩ := exists_between utf8Size_pos (htext.symm.trans htext') hle
        rw [List.append_assoc] at htext'
        rw [← byteLength_eq_weight] at hfront hupTo
        rw [byteLength_append] at hupTo
        refine .inl ⟨front, part, back, htext', hfront, hupTo, ?_⟩
        have hholds := h.storage
        rw [htext'] at hholds
        have hslice := hholds.sliceToString
        rw [hfront, ← hfront, hupTo, hfront] at hslice
        rw [hslice, Option.map_some]

theorem TextBuffer.Holds.shows (h : buffer.Holds text) : buffer.Shows text := by
  obtain ⟨buffer', hread, -, -⟩ := h.withText
  refine ⟨⟨buffer', hread⟩, h.storage.len, h.storage.chunks, fun n => h.storage.isCharBoundary_iff,
    fun range part => ⟨fun hslice => ?_, ?_⟩, fun range => ?_, h.lines.starts⟩
  · rcases h.slice_cases range with ⟨front, part', back, htext, hfront, hpart, hrun⟩ | ⟨-, _, hrun⟩
    · rw [hrun] at hslice
      cases hslice
      exact ⟨front, back, htext, hfront, hpart⟩
    · rw [hrun] at hslice
      cases hslice
  · rintro ⟨front, back, htext, hfront, hpart⟩
    rcases h.slice_cases range with ⟨front', part', back', htext', hfront', hpart', hrun⟩ | ⟨hno, -⟩
    · rw [hrun]
      have hsplit : front ++ (part ++ back) = front' ++ (part' ++ back') := htext.symm.trans htext'
      obtain ⟨rfl, hrest⟩ := append_inj_of_weight utf8Size_pos hsplit
        (by rw [← byteLength_eq_weight, ← byteLength_eq_weight, hfront, hfront'])
      have hlen : byteLength part = byteLength part' := by omega
      rw [byteLength_eq_weight, byteLength_eq_weight] at hlen
      obtain ⟨rfl, -⟩ := append_inj_of_weight utf8Size_pos hrest hlen
      rfl
    · refine absurd ⟨?_, ⟨front, part ++ back, htext, hfront⟩, front ++ part, back, ?_, ?_⟩ hno
      · omega
      · rw [htext, List.append_assoc]
      · rw [← byteLength_eq_weight, byteLength_append, hpart]
  · rcases h.slice_cases range with ⟨_, _, _, -, -, -, hrun⟩ | ⟨-, _, hrun⟩ <;> exact ⟨_, hrun⟩

/-- **Undo and redo take each other back.** -/
theorem TextBuffer.Refines.undo_redo (h : buffer.Refines plain) {shared shared' : Bool}
    (hundo : buffer.undo shared = some (.ok true, buffer')) :
    ∃ buffer'', buffer'.redo shared' = some (.ok true, buffer'') ∧
      buffer''.Holds plain.current.text := by
  have hleads := h.undo
  cases hstack : buffer.undoStack with
  | nil =>
    rw [TextBuffer.undo, hstack] at hundo
    cases hundo
  | cons entry entries =>
    rw [hstack] at hleads
    obtain ⟨version, versions, -, ⟨inverse, hexchange⟩, -⟩ := hleads.cons
    obtain ⟨redo, middle, hrun, rfl, hholds, hundone⟩ := h.holds.undo shared hstack hexchange
    rw [hrun] at hundo
    cases hundo
    obtain ⟨_, buffer'', hrun', -, hholds', -⟩ :=
      hholds.redo shared' hundone.redoStack hexchange.symm
    exact ⟨buffer'', hrun', hholds'⟩

theorem TextBuffer.Refines.redo_undo (h : buffer.Refines plain) {shared shared' : Bool}
    (hredo : buffer.redo shared = some (.ok true, buffer')) :
    ∃ buffer'', buffer'.undo shared' = some (.ok true, buffer'') ∧
      buffer''.Holds plain.current.text := by
  have hleads := h.redo
  cases hstack : buffer.redoStack with
  | nil =>
    rw [TextBuffer.redo, hstack] at hredo
    cases hredo
  | cons entry entries =>
    rw [hstack] at hleads
    obtain ⟨version, versions, -, ⟨inverse, hexchange⟩, -⟩ := hleads.cons
    obtain ⟨undo, middle, hrun, rfl, hholds, hredone⟩ := h.holds.redo shared hstack hexchange
    rw [hrun] at hredo
    cases hredo
    obtain ⟨_, buffer'', hrun', -, hholds', -⟩ :=
      hholds.undo shared' hredone.undoStack hexchange.symm
    exact ⟨buffer'', hrun', hholds'⟩

/-- What transactions, undo and redo promise for a buffer that holds a text. -/
structure TextBuffer.Keeps (buffer : TextBuffer) (text : List Char) : Prop where
  accepts : ∀ shared transaction, ∃ result buffer',
    buffer.applyTransaction shared transaction = some (result, buffer') ∧
      (result = .ok () ↔ Acceptable text transaction.edits) ∧
      (result ≠ .ok () → buffer.Refused buffer' ∧ buffer'.Shows text)
  undo_redo : ∀ shared shared' buffer', buffer.undo shared = some (.ok true, buffer') →
    ∃ buffer'', buffer'.redo shared' = some (.ok true, buffer'') ∧ buffer''.Shows text
  redo_undo : ∀ shared shared' buffer', buffer.redo shared = some (.ok true, buffer') →
    ∃ buffer'', buffer'.undo shared' = some (.ok true, buffer'') ∧ buffer''.Shows text

theorem TextBuffer.Refines.keeps (h : buffer.Refines plain) : buffer.Keeps plain.current.text := by
  refine ⟨fun shared transaction => ?_, fun shared shared' buffer' hundo => ?_,
    fun shared shared' buffer' hredo => ?_⟩
  · by_cases hempty : transaction.edits = []
    · refine ⟨.ok (), buffer, by rw [TextBuffer.applyTransaction, if_pos hempty], ?_,
        fun hne => absurd rfl hne⟩
      rw [hempty]
      exact ⟨fun _ => ⟨fun _ h => absurd h List.not_mem_nil, .nil⟩, fun _ => rfl⟩
    · rcases h.holds.applyTransaction_cases shared hempty with
        ⟨text', buffer', inverse, hedited, hrun, -⟩ | ⟨hno, error, buffer', hrun, hrefused⟩
      · exact ⟨_, buffer', hrun, ⟨fun _ => hedited.acceptable, fun _ => rfl⟩,
          fun hne => absurd rfl hne⟩
      · refine ⟨_, buffer', hrun, ⟨fun hok => (by cases hok), fun hyes => absurd hyes hno⟩,
          fun _ => ⟨hrefused, (hrefused.holds h.holds).shows⟩⟩
  · obtain ⟨buffer'', hrun, hholds⟩ := h.undo_redo hundo
    exact ⟨buffer'', hrun, hholds.shows⟩
  · obtain ⟨buffer'', hrun, hholds⟩ := h.redo_undo hredo
    exact ⟨buffer'', hrun, hholds.shows⟩

/-- **A text buffer is a plain text with a history**: from every text, every run of operations
returns, and what can be seen afterwards is the text that the history is at. -/
theorem textBuffer_refines (text : List Char) (operations : List Operation) :
    ∃ opened buffer plain, TextBuffer.new text = some opened ∧
      opened.run operations = some buffer ∧ (Plain.opened text).Run operations plain ∧
      buffer.Shows plain.current.text ∧ buffer.Keeps plain.current.text := by
  obtain ⟨opened, hopened, hrefines, -⟩ := TextBuffer.opened text
  obtain ⟨buffer, plain, hrun, hplain, hrefines', -⟩ :=
    @TextBuffer.Refines.run _ _ operations (fun _ _ _ => True) (fun _ _ => trivial) hrefines trivial
  exact ⟨opened, buffer, plain, hopened, hrun, hplain, hrefines'.holds.shows, hrefines'.keeps⟩

end OxideTerm.Editor
