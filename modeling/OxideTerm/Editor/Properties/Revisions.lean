import OxideTerm.Editor.Properties.Refinement

/-!
# Revisions

A revision is given to one version of the text and goes with it through the stacks, until the counter
is exhausted. So the buffer is clean just when its history is at the saved version.
-/

namespace OxideTerm.Editor

open Lib Lib.Text

variable {buffer buffer' : TextBuffer} {plain plain' : Plain} {text : List Char}
  {operation : Operation} {operations : List Operation} {revision revision' : Nat → Nat}
  {here there : HistoryEntry → Nat} {entries : List HistoryEntry} {versions : List Version}
  {spent id : Nat}

/-- The entries of a stack have the revisions of the versions that they lead from and to. -/
def Numbers (revision : Nat → Nat) (here there : HistoryEntry → Nat) :
    Nat → List HistoryEntry → List Version → Prop
  | _, [], [] => True
  | id, entry :: entries, version :: versions =>
    here entry = revision id ∧ there entry = revision version.id ∧
      Numbers revision here there version.id entries versions
  | _, _, _ => False

theorem Numbers.congr (h : Numbers revision here there id entries versions)
    (hid : revision' id = revision id)
    (hversions : ∀ version ∈ versions, revision' version.id = revision version.id) :
    Numbers revision' here there id entries versions := by
  induction entries generalizing id versions with
  | nil =>
    cases versions with
    | nil => exact trivial
    | cons => exact absurd h fun h => h
  | cons entry entries ih =>
    cases versions with
    | nil => exact absurd h fun h => h
    | cons version versions =>
      obtain ⟨hhere, hthere, hrest⟩ := h
      obtain ⟨hversion, hversions⟩ := List.forall_mem_cons.mp hversions
      exact ⟨by rw [hid, hhere], by rw [hversion, hthere], ih hrest hversion hversions⟩

/-- The versions that a history knows. -/
def Plain.allVersions (plain : Plain) : List Version :=
  plain.current :: plain.saved :: (plain.undo ++ plain.redo)

/-- **The revisions of a buffer number the versions of its history**, of which each has one text. -/
structure TextBuffer.Numbered (buffer : TextBuffer) (plain : Plain) (spent : Nat)
    (revision : Nat → Nat) (textOf : Nat → List Char) : Prop where
  next : buffer.nextContentRevision = min (spent + 1) (2 ^ 64 - 1)
  content : buffer.contentRevision = revision plain.current.id
  saved : buffer.savedRevision = revision plain.saved.id
  undo : Numbers revision HistoryEntry.afterRevision HistoryEntry.beforeRevision plain.current.id
    buffer.undoStack plain.undo
  redo : Numbers revision HistoryEntry.beforeRevision HistoryEntry.afterRevision plain.current.id
    buffer.redoStack plain.redo
  grows : ∀ older newer, older < newer → newer < plain.next → revision older < revision newer
  bounded : ∀ id < plain.next, revision id ≤ spent
  known : ∀ version ∈ plain.allVersions, version.id < plain.next ∧ textOf version.id = version.text

/-- A run with as many transactions ahead as there are revisions left. -/
def TextBuffer.Fresh (buffer : TextBuffer) (plain : Plain) (operations : List Operation) : Prop :=
  ∃ spent revision textOf, buffer.Numbered plain spent revision textOf ∧
    spent + operations.countP (fun operation => operation.transaction.isSome) < 2 ^ 64

theorem TextBuffer.Numbered.sameHistory {textOf : Nat → List Char}
    (h : buffer.Numbered plain spent revision textOf) (hsame : buffer.SameHistory buffer') :
    buffer'.Numbered plain spent revision textOf := by
  refine ⟨by rw [hsame.nextContentRevision, h.next], by rw [hsame.contentRevision, h.content],
    by rw [hsame.savedRevision, h.saved], ?_, ?_, h.grows, h.bounded, h.known⟩
  · rw [hsame.undoStack]
    exact h.undo
  · rw [hsame.redoStack]
    exact h.redo

theorem TextBuffer.Numbered.known_current {textOf : Nat → List Char}
    (h : buffer.Numbered plain spent revision textOf) :
    plain.current.id < plain.next ∧ textOf plain.current.id = plain.current.text :=
  h.known _ List.mem_cons_self

theorem TextBuffer.Numbered.known_saved {textOf : Nat → List Char}
    (h : buffer.Numbered plain spent revision textOf) :
    plain.saved.id < plain.next ∧ textOf plain.saved.id = plain.saved.text :=
  h.known _ (List.mem_cons_of_mem _ List.mem_cons_self)

/-- A new version gets a revision that no version had. -/
theorem TextBuffer.Numbered.accepted {textOf : Nat → List Char} {text' : List Char}
    {edits inverse : List TextEdit} (h : buffer.Numbered plain spent revision textOf)
    (hfew : spent + 1 < 2 ^ 64)
    (haccepted : buffer.Accepted plain.current.text text' edits buffer' inverse) :
    buffer'.Numbered { plain with
        current := ⟨plain.next, text'⟩
        undo := plain.current :: plain.undo
        redo := []
        next := plain.next + 1 } (spent + 1) (Function.update revision plain.next (spent + 1))
      (Function.update textOf plain.next text') := by
  have hnext : buffer.nextContentRevision = spent + 1 := by
    rw [h.next]
    omega
  have hself : Function.update revision plain.next (spent + 1) plain.next = spent + 1 :=
    Function.update_self _ _ _
  have hold : ∀ id < plain.next, Function.update revision plain.next (spent + 1) id = revision id :=
    fun id hid => Function.update_of_ne (Nat.ne_of_lt hid) _ _
  have holdText : ∀ id < plain.next, Function.update textOf plain.next text' id = textOf id :=
    fun id hid => Function.update_of_ne (Nat.ne_of_lt hid) _ _
  have hundo : ∀ version ∈ plain.undo, version.id < plain.next := fun version hversion =>
    (h.known version (by simp [Plain.allVersions, hversion])).1
  refine ⟨?_, ?_, ?_, ?_, ?_, ?_, ?_, ?_⟩
  · rw [haccepted.nextContentRevision, hnext, saturatingSucc]
  · rw [haccepted.contentRevision, hnext]
    exact hself.symm
  · rw [haccepted.savedRevision, h.saved]
    exact (hold _ h.known_saved.1).symm
  · rw [haccepted.undoStack]
    refine ⟨?_, ?_, h.undo.congr (hold _ h.known_current.1) fun version hversion =>
      hold _ (hundo version hversion)⟩
    · rw [hnext]
      exact hself.symm
    · rw [hold _ h.known_current.1]
      exact h.content
  · rw [haccepted.redoStack]
    exact trivial
  · intro older newer hlt hnewer
    rcases Nat.lt_succ_iff_lt_or_eq.mp hnewer with hnewer | rfl
    · rw [hold _ hnewer, hold _ (Nat.lt_trans hlt hnewer)]
      exact h.grows older newer hlt hnewer
    · rw [hold _ hlt, hself]
      exact Nat.lt_succ_of_le (h.bounded older hlt)
  · intro id hid
    rcases Nat.lt_succ_iff_lt_or_eq.mp hid with hid | rfl
    · rw [hold _ hid]
      exact Nat.le_succ_of_le (h.bounded id hid)
    · rw [hself]
  · intro version hversion
    have hcases : version = ⟨plain.next, text'⟩ ∨ version ∈ plain.allVersions := by
      simp only [Plain.allVersions, List.append_nil, List.mem_cons, List.mem_append] at hversion ⊢
      tauto
    rcases hcases with rfl | hversion
    · exact ⟨Nat.lt_succ_self _, Function.update_self _ _ _⟩
    · obtain ⟨hid, htext⟩ := h.known version hversion
      exact ⟨Nat.lt_succ_of_lt hid, (holdText _ hid).trans htext⟩

/-- **Moves keep the numbers**, and spend one at most, if the operation is a transaction. -/
theorem TextBuffer.Numbered.move {textOf : Nat → List Char}
    (h : buffer.Numbered plain spent revision textOf)
    (hmove : buffer.Move plain operation buffer' plain')
    (hfew : operation.transaction.isSome → spent + 1 < 2 ^ 64) :
    ∃ spent' revision' textOf', buffer'.Numbered plain' spent' revision' textOf' ∧
      spent' ≤ spent + if operation.transaction.isSome then 1 else 0 := by
  cases hmove with
  | accepted hoperation hne haccepted =>
    have hsome : operation.transaction.isSome = true := by rw [hoperation]; rfl
    rw [if_pos hsome]
    exact ⟨_, _, _, h.accepted (hfew hsome) haccepted, Nat.le_refl _⟩
  | refused hoperation _ hrefused =>
    have hsome : operation.transaction.isSome = true := by rw [hoperation]; rfl
    have hkept : ∀ spent', spent ≤ spent' →
        buffer'.nextContentRevision = min (spent' + 1) (2 ^ 64 - 1) →
        buffer'.Numbered plain spent' revision textOf := fun spent' hle hnext =>
      ⟨hnext, by rw [hrefused.contentRevision, h.content],
        by rw [hrefused.savedRevision, h.saved], by rw [hrefused.undoStack]; exact h.undo,
        by rw [hrefused.redoStack]; exact h.redo, h.grows,
        fun id hid => Nat.le_trans (h.bounded id hid) hle, h.known⟩
    rw [if_pos hsome]
    rcases hrefused.nextContentRevision with hnext | hnext
    · exact ⟨spent, revision, textOf, hkept spent (Nat.le_refl _) (hnext.trans h.next),
        Nat.le_succ _⟩
    · refine ⟨spent + 1, revision, textOf, hkept _ (Nat.le_succ _) ?_, Nat.le_refl _⟩
      have hlt := hfew hsome
      rw [hnext, h.next, saturatingSucc]
      omega
  | @undone shared entry entries version versions redo _ hstack hversions _ _ hundone =>
    have hundo := h.undo
    rw [hstack, hversions] at hundo
    refine ⟨spent, revision, textOf, ⟨by rw [hundone.nextContentRevision, h.next], ?_,
      by rw [hundone.savedRevision, h.saved], ?_, ?_, h.grows, h.bounded, ?_⟩, Nat.le_add_right _ _⟩
    · rw [hundone.contentRevision]
      exact hundo.2.1
    · rw [hundone.undoStack]
      exact hundo.2.2
    · rw [hundone.redoStack]
      exact ⟨hundo.2.1, hundo.1, h.redo⟩
    · intro known hknown
      refine h.known known ?_
      simp only [Plain.allVersions, hversions, List.mem_cons, List.mem_append] at hknown ⊢
      tauto
  | nothingToUndo _ => exact ⟨spent, revision, textOf, h, Nat.le_add_right _ _⟩
  | @redone shared entry entries version versions undo _ hstack hversions _ _ hredone =>
    have hredo := h.redo
    rw [hstack, hversions] at hredo
    refine ⟨spent, revision, textOf, ⟨by rw [hredone.nextContentRevision, h.next], ?_,
      by rw [hredone.savedRevision, h.saved], ?_, ?_, h.grows, h.bounded, ?_⟩, Nat.le_add_right _ _⟩
    · rw [hredone.contentRevision]
      exact hredo.2.1
    · rw [hredone.undoStack]
      exact ⟨hredo.2.1, hredo.1, h.undo⟩
    · rw [hredone.redoStack]
      exact hredo.2.2
    · intro known hknown
      refine h.known known ?_
      simp only [Plain.allVersions, hversions, List.mem_cons, List.mem_append] at hknown ⊢
      tauto
  | nothingToRedo _ => exact ⟨spent, revision, textOf, h, Nat.le_add_right _ _⟩
  | saved =>
    refine ⟨spent, revision, textOf, ⟨h.next, h.content, h.content, h.undo, h.redo, h.grows,
      h.bounded, ?_⟩, Nat.le_add_right _ _⟩
    intro known hknown
    refine h.known known ?_
    simp only [Plain.allVersions, List.mem_cons, List.mem_append] at hknown ⊢
    tauto
  | read _ hsame => exact ⟨spent, revision, textOf, h.sameHistory hsame, Nat.le_add_right _ _⟩
  | released _ hsame => exact ⟨spent, revision, textOf, h.sameHistory hsame, Nat.le_add_right _ _⟩

/-- The numbers are not exhausted on the way. -/
theorem TextBuffer.Fresh.move (hmove : buffer.Move plain operation buffer' plain')
    (h : buffer.Fresh plain (operation :: operations)) : buffer'.Fresh plain' operations := by
  obtain ⟨spent, revision, textOf, hnumbered, hfew⟩ := h
  rw [List.countP_cons] at hfew
  obtain ⟨spent', revision', textOf', hnumbered', hle⟩ := hnumbered.move hmove (by
    intro hsome
    rw [if_pos hsome] at hfew
    omega)
  exact ⟨spent', revision', textOf', hnumbered', by omega⟩

/-- **A buffer is clean just when its history is at the saved version.** -/
theorem TextBuffer.Numbered.isDirty_eq_false_iff {textOf : Nat → List Char}
    (h : buffer.Numbered plain spent revision textOf) :
    buffer.isDirty = false ↔ plain.current.id = plain.saved.id := by
  rw [TextBuffer.isDirty, bne_eq_false_iff_eq, h.content, h.saved]
  constructor
  · intro heq
    rcases Nat.lt_trichotomy plain.current.id plain.saved.id with hlt | hid | hlt
    · have hgrows := h.grows _ _ hlt h.known_saved.1
      omega
    · exact hid
    · have hgrows := h.grows _ _ hlt h.known_current.1
      omega
  · intro hid
    rw [hid]

theorem TextBuffer.Numbered.text_eq {textOf : Nat → List Char}
    (h : buffer.Numbered plain spent revision textOf) {version : Version}
    (hversion : version ∈ plain.allVersions) (hid : version.id = plain.saved.id) :
    version.text = plain.saved.text := by
  rw [← (h.known version hversion).2, ← h.known_saved.2, hid]

/-! ## Back to the saved version -/

/-- As many undos as there are versions in front of it lead to a version. -/
theorem Plain.Run.undone {k : Nat} {shared : Bool} {version : Version}
    (h : plain.Run (List.replicate (k + 1) (.undo shared)) plain')
    (hversion : plain.undo[k]? = some version) :
    plain'.current = version ∧ plain'.saved = plain.saved := by
  induction k generalizing plain with
  | zero =>
    obtain _ | ⟨hstep, hrest⟩ := h
    cases hrest
    cases hstep with
    | accepted hoperation => cases hoperation
    | refused hoperation => cases hoperation
    | undone hversions =>
      rw [hversions, List.getElem?_cons_zero, Option.some.injEq] at hversion
      exact ⟨hversion, rfl⟩
    | nothingToUndo hnone =>
      rw [hnone] at hversion
      cases hversion
  | succ k ih =>
    obtain _ | ⟨hstep, hrest⟩ := h
    cases hstep with
    | accepted hoperation => cases hoperation
    | refused hoperation => cases hoperation
    | undone hversions =>
      rw [hversions, List.getElem?_cons_succ] at hversion
      have hundone := ih hrest hversion
      exact hundone
    | nothingToUndo hnone =>
      rw [hnone] at hversion
      cases hversion

theorem TextBuffer.fresh_opened (hcontent : buffer.contentRevision = 0) (hsaved : buffer.savedRevision = 0)
    (hnext : buffer.nextContentRevision = 1)
    (hundo : buffer.undoStack = []) (hredo : buffer.redoStack = [])
    (hfew : operations.countP (fun operation => operation.transaction.isSome) < 2 ^ 64) :
    buffer.Fresh (.opened text) operations := by
  refine ⟨0, fun _ => 0, fun _ => text, ⟨hnext, hcontent, hsaved, ?_, ?_, ?_, ?_, ?_⟩, by omega⟩
  · rw [hundo]
    exact trivial
  · rw [hredo]
    exact trivial
  · intro older newer hlt hnewer
    have hnewer : newer < 1 := hnewer
    omega
  · intro id hid
    exact Nat.le_refl 0
  · intro version hversion
    have hversion : version = ⟨0, text⟩ := by
      simpa [Plain.allVersions, Plain.opened] using hversion
    rw [hversion]
    exact ⟨Nat.zero_lt_one, rfl⟩

/-- **A clean buffer is the saved text**: in every run with fewer transactions than revisions the
buffer is clean just when its history is at the version that was saved last, the text is the saved
one then, and undo back to that version makes it clean. -/
theorem clean_iff_saved (text : List Char) (operations : List Operation)
    (hfew : operations.countP (fun operation => operation.transaction.isSome) < 2 ^ 64) :
    ∃ opened buffer plain, TextBuffer.new text = some opened ∧
      opened.run operations = some buffer ∧ (Plain.opened text).Run operations plain ∧
      buffer.Shows plain.current.text ∧
      (buffer.isDirty = false ↔ plain.current.id = plain.saved.id) ∧
      (buffer.isDirty = false → plain.current.text = plain.saved.text) ∧
      ∀ shared k version, plain.undo[k]? = some version → version.id = plain.saved.id →
        ∃ buffer', buffer.run (List.replicate (k + 1) (.undo shared)) = some buffer' ∧
          buffer'.isDirty = false ∧ buffer'.Shows plain.saved.text := by
  obtain ⟨opened, hopened, hrefines, hcontent, hsaved, hnext, hundo, hredo⟩ :=
    TextBuffer.opened text
  obtain ⟨buffer, plain, hrun, hplain, hrefines', hfresh⟩ :=
    hrefines.run TextBuffer.Fresh.move
      (TextBuffer.fresh_opened hcontent hsaved hnext hundo hredo hfew)
  obtain ⟨spent, revision, textOf, hnumbered, hspent⟩ := hfresh
  refine ⟨opened, buffer, plain, hopened, hrun, hplain, hrefines'.holds.shows,
    hnumbered.isDirty_eq_false_iff, fun hclean => ?_, fun shared k version hversion hid => ?_⟩
  · exact hnumbered.text_eq List.mem_cons_self (hnumbered.isDirty_eq_false_iff.mp hclean)
  · have hnone : (List.replicate (k + 1) (Operation.undo shared)).countP
        (fun operation => operation.transaction.isSome) = 0 :=
      List.countP_eq_zero.mpr fun operation hoperation => by
        rw [List.eq_of_mem_replicate hoperation]
        exact Bool.false_ne_true
    have hfresh : buffer.Fresh plain (List.replicate (k + 1) (.undo shared)) :=
      ⟨spent, revision, textOf, hnumbered, by rw [hnone]; exact hspent⟩
    obtain ⟨buffer', plain', hrun', hplain', hrefines'', hfresh'⟩ :=
      hrefines'.run TextBuffer.Fresh.move hfresh
    obtain ⟨spent', revision', textOf', hnumbered', -⟩ := hfresh'
    obtain ⟨hcurrent, hsaved'⟩ := hplain'.undone hversion
    have hmem : version ∈ plain.allVersions := by
      have hmem := List.mem_of_getElem? hversion
      simp [Plain.allVersions, hmem]
    refine ⟨buffer', hrun', hnumbered'.isDirty_eq_false_iff.mpr ?_, ?_⟩
    · rw [hcurrent, hsaved', hid]
    · rw [← hnumbered.text_eq hmem hid, ← hcurrent]
      exact hrefines''.holds.shows

theorem clean_iff_saved_letters :
    let operations : List Operation :=
      [.markSaved, .apply false ⟨[⟨⟨0, 0⟩, ['a']⟩]⟩, .undo false]
    ∃ opened buffer plain, TextBuffer.new [] = some opened ∧
      opened.run operations = some buffer ∧ (Plain.opened []).Run operations plain ∧
      buffer.Shows plain.current.text ∧
      (buffer.isDirty = false ↔ plain.current.id = plain.saved.id) ∧
      (buffer.isDirty = false → plain.current.text = plain.saved.text) ∧
      ∀ shared k version, plain.undo[k]? = some version → version.id = plain.saved.id →
        ∃ buffer', buffer.run (List.replicate (k + 1) (.undo shared)) = some buffer' ∧
          buffer'.isDirty = false ∧ buffer'.Shows plain.saved.text :=
  clean_iff_saved [] _ (by decide)

end OxideTerm.Editor
