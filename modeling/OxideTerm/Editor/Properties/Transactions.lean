import OxideTerm.Editor.Buffer
import OxideTerm.Editor.Properties.LineIndex
import OxideTerm.Editor.Properties.PieceTable

/-!
# Transactions

The edits of a transaction are sorted and checked, and then replace parts of the text at once; the
inverse edits that go to the history turn the text back. A transaction is accepted just when its edits
fit the text, and a refused one changes nothing.
-/

namespace OxideTerm.Editor

open Lib Lib.Text

variable {text text' rest rest' seen : List Char} {edits sorted : List TextEdit} {edit : TextEdit}
  {inverse : List (Splice Char)} {pos pos' n : Nat} {storage : PieceTable}
  {buffer buffer' : TextBuffer} {error : EditorError}

/-! ## Checks -/

theorem validateOffset_ok_iff (h : storage.Holds text) :
    validateOffset storage n = .ok () ↔ IsByteBoundary text n := by
  rw [validateOffset]
  split
  next hlt =>
    rw [h.len] at hlt
    refine ⟨fun hok => (by cases hok), fun hboundary => ?_⟩
    exact absurd hboundary.le (Nat.not_le.mpr hlt)
  next =>
    rw [← h.isCharBoundary_iff]
    cases storage.isCharBoundary n <;> simp

/-- **The check is that the edits fit the text**, in their order. -/
theorem checkEdits_ok_iff (h : storage.Holds text) :
    checkEdits storage edits pos = .ok () ↔
      Fitting Char.utf8Size text pos (edits.map TextEdit.toSplice) := by
  induction edits generalizing pos with
  | nil => exact ⟨fun _ => trivial, fun _ => rfl⟩
  | cons edit edits ih =>
    rw [checkEdits, List.map_cons, Fitting]
    have hstart := @validateOffset_ok_iff text edit.range.start storage h
    have hstop := @validateOffset_ok_iff text edit.range.stop storage h
    cases hfirst : validateOffset storage edit.range.start with
    | error error =>
      rw [hfirst] at hstart
      refine ⟨fun hok => (by cases hok), fun hfit => ?_⟩
      exact absurd (hstart.mpr hfit.2.2.1) (by simp)
    | ok =>
      cases hsecond : validateOffset storage edit.range.stop with
      | error error =>
        rw [hsecond] at hstop
        refine ⟨fun hok => (by cases hok), fun hfit => ?_⟩
        exact absurd (hstop.mpr hfit.2.2.2.1) (by simp)
      | ok =>
        show (if edit.range.stop < edit.range.start then _ else _) = _ ↔ _
        split
        next hreverse =>
          refine ⟨fun hok => (by cases hok), fun hfit => ?_⟩
          exact absurd hfit.2.1 (Nat.not_le.mpr hreverse)
        next hordered =>
          split
          next hoverlap =>
            refine ⟨fun hok => (by cases hok), fun hfit => ?_⟩
            exact absurd hfit.1 (Nat.not_le.mpr hoverlap)
          next hapart =>
            rw [ih]
            constructor
            · intro hrest
              exact ⟨Nat.le_of_not_lt hapart, Nat.le_of_not_lt hordered, hstart.mp hfirst,
                hstop.mp hsecond, hrest⟩
            · rintro ⟨-, -, -, -, hrest⟩
              exact hrest

/-- Edits that fit are in order. -/
theorem le_start_of_fitting (h : Fitting Char.utf8Size text pos (edits.map TextEdit.toSplice))
    (hmem : edit ∈ edits) : pos ≤ edit.range.start := by
  induction edits generalizing pos with
  | nil => exact absurd hmem List.not_mem_nil
  | cons first edits ih =>
    obtain ⟨hpos, hle, -, -, hrest⟩ := h
    rcases List.mem_cons.mp hmem with rfl | hmem
    · exact hpos
    · have hlater : first.range.stop ≤ edit.range.start := ih hrest hmem
      exact Nat.le_trans hpos (Nat.le_trans hle hlater)

theorem le_stop_of_fitting (h : Fitting Char.utf8Size text pos (edits.map TextEdit.toSplice))
    (hmem : edit ∈ edits) : edit.range.start ≤ edit.range.stop := by
  induction edits generalizing pos with
  | nil => exact absurd hmem List.not_mem_nil
  | cons first edits ih =>
    obtain ⟨-, hle, -, -, hrest⟩ := h
    rcases List.mem_cons.mp hmem with rfl | hmem
    · exact hle
    · exact ih hrest hmem

/-- **Edits that fit in their order are sorted**, so that sorting leaves them as they are. -/
theorem mergeSort_of_fitting (h : Fitting Char.utf8Size text pos (edits.map TextEdit.toSplice)) :
    edits.mergeSort editLe = edits := by
  refine List.mergeSort_of_pairwise ?_
  induction edits generalizing pos with
  | nil => exact .nil
  | cons edit edits ih =>
    obtain ⟨-, hle, -, -, hrest⟩ := h
    refine List.pairwise_cons.mpr ⟨fun later hlater => ?_, ih hrest⟩
    have hapart : edit.range.stop ≤ later.range.start := le_start_of_fitting hrest hlater
    have hordered := le_stop_of_fitting hrest hlater
    have hle : edit.range.start ≤ edit.range.stop := hle
    rw [editLe, Bool.or_eq_true, Bool.and_eq_true, decide_eq_true_eq, beq_iff_eq,
      decide_eq_true_eq]
    omega

/-! ## Inverse edits -/

theorem applyDelta_add (pos pos' k : Nat) :
    applyDelta (pos + k) ((pos' : Int) - pos) = .ok (pos' + k) := by
  rw [applyDelta]
  split
  next =>
    rw [if_pos (by omega)]
    congr 1
    omega
  next =>
    congr 1
    omega

/-- The loop prepares the inverse edits; the change of length is the distance of the positions. -/
theorem inverseLoop_eq {splices : List (Splice Char)} (hholds : storage.Holds (seen ++ rest))
    (hseen : byteLength seen = pos)
    (h : Exchange Char.utf8Size pos pos' rest splices rest' inverse)
    (hedits : edits.map TextEdit.toSplice = splices) :
    ∃ inverse', inverse'.map TextEdit.toSplice = inverse ∧
      TextBuffer.inverseLoop storage edits ((pos' : Int) - pos) = some (.ok (inverse',
        ((pos' + byteLength rest' : Nat) : Int) - (pos + byteLength rest : Nat))) := by
  induction h generalizing edits seen with
  | @done pos pos' rest =>
    rw [List.map_eq_nil_iff] at hedits
    subst hedits
    refine ⟨[], rfl, ?_⟩
    rw [TextBuffer.inverseLoop]
    congr 3
    omega
  | @splice pos pos' kept removed rest result s s' splices inverse hstart hstop hstart' hstop'
      hremoved _ ih =>
    obtain ⟨edit, edits, rfl, rfl, hrest⟩ := List.map_eq_cons_iff.mp hedits
    have hstart : edit.range.start = pos + byteLength kept := hstart
    have hstop : edit.range.stop = edit.range.start + byteLength removed := hstop
    have hstart' : s'.start = pos' + byteLength kept := hstart'
    have hstop' : s'.stop = s'.start + byteLength edit.replacement := hstop'
    have hspliceStop : edit.toSplice.stop = edit.range.stop := rfl
    have hspliceRep : edit.toSplice.replacement = edit.replacement := rfl
    rw [hspliceStop] at ih
    rw [hspliceRep]
    have hwhole : seen ++ (kept ++ (removed ++ rest)) = (seen ++ kept) ++ (removed ++ rest) := by
      simp only [List.append_assoc]
    have hslice : storage.sliceToString edit.range = some removed := by
      rw [hwhole] at hholds
      have hfront : byteLength (seen ++ kept) = edit.range.start := by
        rw [byteLength_append]
        omega
      have hpart := hholds.sliceToString
      rw [hfront, ← hstop] at hpart
      exact hpart
    have hbehind : storage.Holds ((seen ++ (kept ++ removed)) ++ rest) := by
      simpa only [List.append_assoc] using hholds
    obtain ⟨inverse', hinverse', hloop⟩ := ih hbehind (by
      rw [byteLength_append, byteLength_append]
      omega) hrest
    have hdelta : ((pos' : Int) - pos) + ((byteLength edit.replacement : Int) - edit.range.len) =
        (s'.stop : Int) - edit.range.stop := by
      rw [TextRange.len]
      omega
    refine ⟨⟨⟨s'.start, s'.stop⟩, removed⟩ :: inverse', ?_, ?_⟩
    · rw [List.map_cons, hinverse']
      congr 1
      rw [← hremoved]
      rfl
    · have htotal : ((s'.stop + byteLength result : Nat) : Int) -
          (edit.range.stop + byteLength rest : Nat) =
            ((pos' + byteLength (kept ++ (edit.replacement ++ result)) : Nat) : Int) -
              (pos + byteLength (kept ++ (removed ++ rest)) : Nat) := by
        simp only [byteLength_append]
        omega
      rw [TextBuffer.inverseLoop, hslice, Option.bind_some, hstart, applyDelta_add]
      dsimp only
      rw [hdelta, hloop, Option.map_some, ← hstart', TextRange.new_of_le (Nat.le_add_right _ _),
        ← hstop', htotal]

/-! ## What a buffer holds -/

/-- **The text of a buffer**: that of its pieces, of its cache and of its line index. -/
structure TextBuffer.Holds (buffer : TextBuffer) (text : List Char) : Prop where
  storage : buffer.storage.Holds text
  cache : ∀ cached, buffer.textCache = some cached → cached = text
  lines : buffer.lineStarts.Covers text

/-- What edits leave alone: the revisions and the history. -/
structure TextBuffer.SameHistory (buffer buffer' : TextBuffer) : Prop where
  contentRevision : buffer'.contentRevision = buffer.contentRevision
  savedRevision : buffer'.savedRevision = buffer.savedRevision
  nextContentRevision : buffer'.nextContentRevision = buffer.nextContentRevision
  undoStack : buffer'.undoStack = buffer.undoStack
  redoStack : buffer'.redoStack = buffer.redoStack

/-- Edits in the table, the last first, are the edits of the text. -/
theorem holds_foldl_replace (h : storage.Holds text)
    (hexchange : Exchange Char.utf8Size 0 0 text (edits.map TextEdit.toSplice) text' inverse) :
    (edits.reverse.foldl (fun storage edit => storage.replace edit.range edit.replacement)
      storage).Holds text' := by
  have hfold := @Exchange.last_first _ _ _ _ _ _ [] _ _ PieceTable PieceTable.Holds
    (fun storage s => storage.replace ⟨s.start, s.stop⟩ s.replacement) (by
      rintro state s before after hbefore ⟨front, removed, back, rfl, hstart, hstop, rfl⟩
      have hreplaced := @PieceTable.Holds.replace _ _ _ _ s.replacement hbefore
      rw [byteLength_eq_weight, hstart, byteLength_eq_weight, hstop] at hreplaced
      exact hreplaced) rfl hexchange storage h
  rw [← List.map_reverse, List.foldl_map] at hfold
  exact hfold

/-- **Edits that fit are carried out**, and the inverse edits turn the text back. -/
theorem TextBuffer.Holds.applyEditsInternal_ok (h : buffer.Holds text) (shared : Bool)
    (hexchange : Exchange Char.utf8Size 0 0 text
      ((edits.mergeSort editLe).map TextEdit.toSplice) text' inverse) :
    ∃ inverse' buffer', inverse'.map TextEdit.toSplice = inverse ∧
      buffer.applyEditsInternal shared edits = some (.ok inverse', buffer') ∧
      buffer'.Holds text' ∧ buffer.SameHistory buffer' ∧
      buffer'.version = saturatingSucc buffer.version := by
  have hcheck : checkEdits buffer.storage (edits.mergeSort editLe) 0 = .ok () :=
    (checkEdits_ok_iff h.storage).mpr (@Exchange.fitting _ _ _ _ _ _ [] _ _ hexchange rfl)
  have hnormal : normalizeEdits edits buffer.storage = .ok (edits.mergeSort editLe) := by
    rw [normalizeEdits, hcheck]
    rfl
  obtain ⟨inverse', hinverse', hloop⟩ :
      ∃ inverse', inverse'.map TextEdit.toSplice = inverse ∧
        TextBuffer.inverseLoop buffer.storage (edits.mergeSort editLe) 0 =
          some (.ok (inverse', (byteLength text' : Int) - byteLength text)) := by
    have hloop := @inverseLoop_eq _ _ [] _ _ _ _ _ _ h.storage rfl hexchange rfl
    simpa using hloop
  have hlen := applyDelta_add (byteLength text) (byteLength text') 0
  rw [Nat.add_zero, Nat.add_zero] at hlen
  obtain ⟨lineStarts, hlines, hcovers⟩ := h.lines.update hexchange
  obtain ⟨storage, hstorage, hholds⟩ :=
    (holds_foldl_replace h.storage hexchange).reclaimUnusedText shared
  refine ⟨inverse', { buffer with
    storage
    textCache := none
    lineStarts
    version := saturatingSucc buffer.version }, hinverse', ?_, ⟨hholds, ?_, hcovers⟩,
    ⟨rfl, rfl, rfl, rfl, rfl⟩, rfl⟩
  · rw [TextBuffer.applyEditsInternal, hnormal]
    dsimp only
    rw [hloop, Option.bind_some]
    dsimp only
    rw [h.storage.len, hlen]
    dsimp only
    rw [TextBuffer.replaceAll, hlines, Option.bind_some]
    dsimp only
    rw [hstorage, Option.map_some, Option.map_some]
  · intro cached hcached
    cases hcached

/-- **Edits that do not fit are refused**, and nothing is changed. -/
theorem TextBuffer.Holds.applyEditsInternal_error (h : buffer.Holds text) (shared : Bool)
    (hfit : ¬ Fitting Char.utf8Size text 0 ((edits.mergeSort editLe).map TextEdit.toSplice)) :
    ∃ error, buffer.applyEditsInternal shared edits = some (.error error, buffer) := by
  have hcheck := (@checkEdits_ok_iff _ (edits.mergeSort editLe) 0 _ h.storage).not.mpr hfit
  cases hresult : checkEdits buffer.storage (edits.mergeSort editLe) 0 with
  | ok => exact absurd hresult hcheck
  | error error =>
    have hnormal : normalizeEdits edits buffer.storage = .error error := by
      rw [normalizeEdits, hresult]
      rfl
    exact ⟨error, by rw [TextBuffer.applyEditsInternal, hnormal]⟩

/-! ## Which transactions are accepted -/

/-- An edit whose range is in the text, in order, and cuts no character. -/
def TextEdit.InText (text : List Char) (edit : TextEdit) : Prop :=
  edit.range.start ≤ edit.range.stop ∧ IsByteBoundary text edit.range.start ∧
    IsByteBoundary text edit.range.stop

/-- One of two edits ends before the other begins. -/
def TextEdit.Apart (edit edit' : TextEdit) : Prop :=
  edit.range.stop ≤ edit'.range.start ∨ edit'.range.stop ≤ edit.range.start

/-- The edits of a transaction that is in order. -/
structure Acceptable (text : List Char) (edits : List TextEdit) : Prop where
  inText : ∀ edit ∈ edits, edit.InText text
  apart : edits.Pairwise TextEdit.Apart

theorem editLe_iff {left right : TextEdit} : editLe left right = true ↔
    left.range.start < right.range.start ∨
      left.range.start = right.range.start ∧ left.range.stop ≤ right.range.stop := by
  rw [editLe, Bool.or_eq_true, Bool.and_eq_true, decide_eq_true_eq, beq_iff_eq, decide_eq_true_eq]

theorem pairwise_mergeSort_editLe (edits : List TextEdit) :
    (edits.mergeSort editLe).Pairwise fun left right => editLe left right = true := by
  refine List.pairwise_mergeSort (fun a b c hab hbc => ?_) (fun a b => ?_) edits
  · rw [editLe_iff] at hab hbc ⊢
    omega
  · rw [Bool.or_eq_true, editLe_iff, editLe_iff]
    omega

/-- Sorted edits fit if they are in the text and apart. -/
theorem fitting_of_sorted (hin : ∀ edit ∈ sorted, edit.InText text)
    (hpos : ∀ edit ∈ sorted, pos ≤ edit.range.start) (hapart : sorted.Pairwise TextEdit.Apart)
    (hsorted : sorted.Pairwise fun left right => editLe left right = true) :
    Fitting Char.utf8Size text pos (sorted.map TextEdit.toSplice) := by
  induction sorted generalizing pos with
  | nil => exact trivial
  | cons edit sorted ih =>
    obtain ⟨hhere, hin⟩ := List.forall_mem_cons.mp hin
    obtain ⟨hfirst, hpos⟩ := List.forall_mem_cons.mp hpos
    obtain ⟨hapartHere, hapart⟩ := List.pairwise_cons.mp hapart
    obtain ⟨hsortedHere, hsorted⟩ := List.pairwise_cons.mp hsorted
    refine ⟨hfirst, hhere.1, hhere.2.1, hhere.2.2, ih hin (fun later hlater => ?_) hapart hsorted⟩
    have hle := editLe_iff.mp (hsortedHere later hlater)
    have hordered := (hin later hlater).1
    have hstop : edit.toSplice.stop = edit.range.stop := rfl
    rw [hstop]
    rcases hapartHere later hlater with hbefore | hafter
    · exact hbefore
    · -- both ranges are one empty place
      omega

theorem inText_of_fitting (h : Fitting Char.utf8Size text pos (sorted.map TextEdit.toSplice)) :
    (∀ edit ∈ sorted, edit.InText text) ∧ sorted.Pairwise TextEdit.Apart := by
  induction sorted generalizing pos with
  | nil => exact ⟨fun _ h => absurd h List.not_mem_nil, .nil⟩
  | cons edit sorted ih =>
    obtain ⟨-, hle, hstart, hstop, hrest⟩ := h
    obtain ⟨hin, hapart⟩ := ih hrest
    refine ⟨List.forall_mem_cons.mpr ⟨⟨hle, hstart, hstop⟩, hin⟩,
      List.pairwise_cons.mpr ⟨fun later hlater => .inl ?_, hapart⟩⟩
    exact le_start_of_fitting hrest hlater

/-- **Edits fit once they are sorted if and only if they are in the text and apart.** -/
theorem fitting_mergeSort_iff :
    Fitting Char.utf8Size text 0 ((edits.mergeSort editLe).map TextEdit.toSplice) ↔
      Acceptable text edits := by
  have hperm := List.mergeSort_perm edits editLe
  have hsymm : ∀ {a b : TextEdit}, a.Apart b → b.Apart a := fun h => h.symm
  constructor
  · intro h
    obtain ⟨hin, hapart⟩ := inText_of_fitting h
    exact ⟨fun edit hedit => hin edit (hperm.mem_iff.mpr hedit),
      (hperm.pairwise_iff hsymm).mp hapart⟩
  · intro h
    refine fitting_of_sorted (fun edit hedit => h.inText edit (hperm.mem_iff.mp hedit))
      (fun _ _ => Nat.zero_le _) ((hperm.pairwise_iff hsymm).mpr h.apart)
      (pairwise_mergeSort_editLe edits)

end OxideTerm.Editor
