import OxideTerm.Editor.LineIndex
import OxideTerm.Editor.PieceTable

/-!
# The text buffer

A piece table with a line index, a cache of the whole text, and the history of edits. Edits are
checked before anything is changed. A panic is `none`; lengths of texts in memory do not overflow.
-/

namespace OxideTerm.Editor

open Lib Lib.Text

/-- `u64::saturating_add` of one. -/
def saturatingSucc (n : Nat) : Nat := min (n + 1) (2 ^ 64 - 1)

/-- `HistoryEntry`. -/
structure HistoryEntry where
  edits : List TextEdit
  beforeRevision : Nat
  afterRevision : Nat
deriving DecidableEq, Repr

/-- `TextBuffer`; the last entry of a stack comes first. -/
structure TextBuffer where
  storage : PieceTable
  textCache : Option (List Char)
  lineStarts : LineIndex
  version : Nat
  contentRevision : Nat
  savedRevision : Nat
  nextContentRevision : Nat
  undoStack : List HistoryEntry
  redoStack : List HistoryEntry
deriving DecidableEq, Repr

/-! ## Checks -/

/-- `validate_offset_for_storage`. -/
def validateOffset (storage : PieceTable) (offset : Nat) : Except EditorError Unit :=
  if storage.len < offset then .error (.offsetOutOfBounds offset storage.len)
  else if !storage.isCharBoundary offset then .error (.invalidUtf8Boundary offset)
  else .ok ()

/-- The order of `sort_by` in `normalize_edits_for_storage`. -/
def editLe (left right : TextEdit) : Bool :=
  left.range.start < right.range.start ||
    (left.range.start == right.range.start && left.range.stop ≤ right.range.stop)

/-- The loop of `normalize_edits_for_storage`. -/
def checkEdits (storage : PieceTable) : List TextEdit → Nat → Except EditorError Unit
  | [], _ => .ok ()
  | edit :: edits, previousEnd => do
    validateOffset storage edit.range.start
    validateOffset storage edit.range.stop
    if edit.range.stop < edit.range.start then
      .error (.invalidRange edit.range.start edit.range.stop)
    else if edit.range.start < previousEnd then
      .error (.overlappingEdits edit.range.start)
    else checkEdits storage edits edit.range.stop

/-- `normalize_edits_for_storage`. -/
def normalizeEdits (edits : List TextEdit) (storage : PieceTable) :
    Except EditorError (List TextEdit) := do
  let edits := edits.mergeSort editLe
  checkEdits storage edits 0
  return edits

/-- `apply_delta`. -/
def applyDelta (offset : Nat) (delta : Int) : Except EditorError Nat :=
  if delta < 0 then
    if delta.natAbs ≤ offset then .ok (offset - delta.natAbs) else .error .editDeltaOverflow
  else .ok (offset + delta.toNat)

namespace TextBuffer

/-- `new`. -/
def new (text : List Char) : Option TextBuffer :=
  (LineIndex.new text).map fun lineStarts =>
    { storage := PieceTable.new text
      textCache := some text
      lineStarts
      version := 0
      contentRevision := 0
      savedRevision := 0
      nextContentRevision := 1
      undoStack := []
      redoStack := [] }

/-! ## Edits -/

/-- The loop that prepares the inverse edits, with the change of length so far. -/
def inverseLoop (storage : PieceTable) :
    List TextEdit → Int → Option (Except EditorError (List TextEdit × Int))
  | [], delta => some (.ok ([], delta))
  | edit :: edits, delta =>
    (storage.sliceToString edit.range).bind fun original =>
      match applyDelta edit.range.start delta with
      | .error error => some (.error error)
      | .ok startAfter =>
        let endAfter := startAfter + byteLength edit.replacement
        let delta := delta + ((byteLength edit.replacement : Int) - edit.range.len)
        (inverseLoop storage edits delta).map fun
          | .error error => .error error
          | .ok (inverse, delta) =>
            .ok (⟨TextRange.new startAfter endAfter, original⟩ :: inverse, delta)

/-- The buffer after checked edits; whether the original text is shared is not up to the buffer. -/
def replaceAll (buffer : TextBuffer) (shared : Bool) (edits : List TextEdit) (newLen : Nat) :
    Option TextBuffer :=
  (buffer.lineStarts.update edits newLen).bind fun lineStarts =>
    let storage := edits.reverse.foldl
      (fun storage edit => storage.replace edit.range edit.replacement) buffer.storage
    (storage.reclaimUnusedText shared).map fun storage =>
      { buffer with
        storage
        textCache := none
        lineStarts
        version := saturatingSucc buffer.version }

/-- `apply_edits_internal`, with the inverse edits. -/
def applyEditsInternal (buffer : TextBuffer) (shared : Bool) (edits : List TextEdit) :
    Option (Except EditorError (List TextEdit) × TextBuffer) :=
  match normalizeEdits edits buffer.storage with
  | .error error => some (.error error, buffer)
  | .ok edits =>
    (inverseLoop buffer.storage edits 0).bind fun
      | .error error => some (.error error, buffer)
      | .ok (inverse, delta) =>
        match applyDelta buffer.storage.len delta with
        | .error error => some (.error error, buffer)
        | .ok newLen =>
          (buffer.replaceAll shared edits newLen).map fun buffer => (.ok inverse, buffer)

/-- `apply_transaction`. -/
def applyTransaction (buffer : TextBuffer) (shared : Bool) (transaction : EditTransaction) :
    Option (Except EditorError Unit × TextBuffer) :=
  if transaction.edits = [] then some (.ok (), buffer)
  else
    let beforeRevision := buffer.contentRevision
    let afterRevision := buffer.nextContentRevision
    let buffer :=
      { buffer with nextContentRevision := saturatingSucc buffer.nextContentRevision }
    (buffer.applyEditsInternal shared transaction.edits).map fun
      | (.error error, buffer) => (.error error, buffer)
      | (.ok inverse, buffer) =>
        (.ok (), { buffer with
          contentRevision := afterRevision
          undoStack := ⟨inverse, beforeRevision, afterRevision⟩ :: buffer.undoStack
          redoStack := [] })

/-- `undo`. -/
def undo (buffer : TextBuffer) (shared : Bool) : Option (Except EditorError Bool × TextBuffer) :=
  match buffer.undoStack with
  | [] => some (.ok false, buffer)
  | entry :: undoStack =>
    (applyEditsInternal { buffer with undoStack } shared entry.edits).map fun
      | (.error error, buffer) => (.error error, buffer)
      | (.ok redo, buffer) =>
        (.ok true, { buffer with
          contentRevision := entry.beforeRevision
          redoStack := { entry with edits := redo } :: buffer.redoStack })

/-- `redo`. -/
def redo (buffer : TextBuffer) (shared : Bool) : Option (Except EditorError Bool × TextBuffer) :=
  match buffer.redoStack with
  | [] => some (.ok false, buffer)
  | entry :: redoStack =>
    (applyEditsInternal { buffer with redoStack } shared entry.edits).map fun
      | (.error error, buffer) => (.error error, buffer)
      | (.ok undo, buffer) =>
        (.ok true, { buffer with
          contentRevision := entry.afterRevision
          undoStack := { entry with edits := undo } :: buffer.undoStack })

/-- `replace_selection`, with the caret after it; a selection is a range. -/
def replaceSelection (buffer : TextBuffer) (shared : Bool) (range : TextRange)
    (replacement : List Char) : Option (Except EditorError Nat × TextBuffer) :=
  (buffer.applyTransaction shared ⟨[⟨range, replacement⟩]⟩).map fun
    | (.error error, buffer) => (.error error, buffer)
    | (.ok (), buffer) => (.ok (range.start + byteLength replacement), buffer)

/-- `is_dirty`. -/
def isDirty (buffer : TextBuffer) : Bool := buffer.contentRevision != buffer.savedRevision

/-- `mark_saved`. -/
def markSaved (buffer : TextBuffer) : TextBuffer :=
  { buffer with savedRevision := buffer.contentRevision }

/-! ## Reads -/

/-- `with_text`: the whole text, and the buffer that has it cached. -/
def withText (buffer : TextBuffer) : Option (List Char × TextBuffer) :=
  match buffer.textCache with
  | some text => some (text, buffer)
  | none => buffer.storage.toText.map fun text => (text, { buffer with textCache := some text })

/-- `release_text_cache`; shared text stays cached. -/
def releaseTextCache (buffer : TextBuffer) (shared : Bool) : TextBuffer :=
  if shared then buffer else { buffer with textCache := none }

/-- `slice`. -/
def slice (buffer : TextBuffer) (range : TextRange) : Option (Except EditorError (List Char)) :=
  match validateOffset buffer.storage range.start with
  | .error error => some (.error error)
  | .ok () =>
    match validateOffset buffer.storage range.stop with
    | .error error => some (.error error)
    | .ok () =>
      if range.stop < range.start then some (.error (.invalidRange range.start range.stop))
      else (buffer.storage.sliceToString range).map .ok

end TextBuffer

end OxideTerm.Editor
