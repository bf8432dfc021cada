import OxideTerm.Editor.LineIndex
import OxideTerm.Lib.Splice

/-!
# The line index after edits

The offsets behind the newlines of a text are those of its parts, one after the other. So the update
keeps what is before the first edit, moves what is kept between the edits and behind the last, and
takes the rest from the replacements: the index of the new text (`updateLineStarts_eq`).
-/

namespace OxideTerm.Editor

open Lib Lib.Text

variable {text text' a b rest : List Char} {edits : List TextEdit}
  {inverse : List (Splice Char)} {pos pos' n v : Nat} {wide : Bool} {middle values : List Nat}

/-- An edit as a splice of the text. -/
def TextEdit.toSplice (edit : TextEdit) : Splice Char :=
  ⟨edit.range.start, edit.range.stop, edit.replacement⟩

/-! ## Newlines -/

@[simp] theorem afterNewlines_append (a b : List Char) (i : Nat) :
    afterNewlines (a ++ b) i = afterNewlines a i ++ afterNewlines b (i + byteLength a) := by
  induction a generalizing i with
  | nil => rfl
  | cons ch a ih =>
    rw [List.cons_append, afterNewlines, afterNewlines, ih, byteLength_cons, Nat.add_assoc]
    split <;> rfl

/-- An offset behind a newline is in the text, and not its start. -/
theorem bounds_of_mem_afterNewlines {i : Nat} (h : v ∈ afterNewlines a i) :
    i < v ∧ v ≤ i + byteLength a := by
  induction a generalizing i with
  | nil => exact absurd h List.not_mem_nil
  | cons ch a ih =>
    have hpos := ch.utf8Size_pos
    rw [byteLength_cons]
    rw [afterNewlines] at h
    split at h
    next =>
      rcases List.mem_cons.mp h with rfl | h
      · omega
      · have hbounds := ih h
        omega
    next =>
      have hbounds := ih h
      omega

theorem pairwise_afterNewlines (a : List Char) (i : Nat) :
    (afterNewlines a i).Pairwise (· < ·) := by
  induction a generalizing i with
  | nil => exact .nil
  | cons ch a ih =>
    have hpos := ch.utf8Size_pos
    rw [afterNewlines]
    split
    next =>
      refine List.pairwise_cons.mpr ⟨fun v hv => ?_, ih _⟩
      have hbounds := bounds_of_mem_afterNewlines hv
      omega
    next => exact ih _

/-- A shift by the distance of two positions moves what is behind the one behind the other. -/
theorem applyLineShift_add (pos pos' k : Nat) :
    LineIndex.applyLineShift (pos + k) ((pos' : Int) - pos) = pos' + k := by
  rw [LineIndex.applyLineShift]
  split <;> omega

theorem map_applyLineShift (a : List Char) (pos pos' k : Nat) :
    (afterNewlines a (pos + k)).map (LineIndex.applyLineShift · ((pos' : Int) - pos)) =
      afterNewlines a (pos' + k) := by
  induction a generalizing k with
  | nil => rfl
  | cons ch a ih =>
    have hrest := ih (k + ch.utf8Size)
    rw [← Nat.add_assoc, ← Nat.add_assoc] at hrest
    rw [afterNewlines, afterNewlines]
    split
    next =>
      have hhere := applyLineShift_add pos pos' (k + 1)
      rw [← Nat.add_assoc, ← Nat.add_assoc] at hhere
      rw [List.map_cons, hrest, hhere]
    next => exact hrest

/-! ## Cutting sorted lists -/

theorem takeWhile_append_le {l r : List Nat} (hl : ∀ v ∈ l, v ≤ n) (hr : ∀ v ∈ r, n < v) :
    (l ++ r).takeWhile (fun v => v ≤ n) = l := by
  rw [List.takeWhile_append_of_pos (by simpa using hl)]
  cases r with
  | nil => simp
  | cons v r =>
    have hv := hr v List.mem_cons_self
    rw [List.takeWhile_cons_of_neg (by simpa using hv), List.append_nil]

theorem dropWhile_append_le {l r : List Nat} (hl : ∀ v ∈ l, v ≤ n) (hr : ∀ v ∈ r, n < v) :
    (l ++ r).dropWhile (fun v => v ≤ n) = r := by
  rw [List.dropWhile_append_of_pos (by simpa using hl)]
  cases r with
  | nil => rfl
  | cons v r =>
    have hv := hr v List.mem_cons_self
    exact List.dropWhile_cons_of_neg (by simpa using hv)

/-! ## Pushing starts -/

/-- Starts that follow the last one are pushed as they are. -/
theorem foldlM_pushLineStart (hmiddle : ∀ u ∈ middle, ∀ v ∈ values, u < v)
    (hvalues : values.Pairwise (· < ·)) (hfits : ∀ v ∈ values, storedOffset wide v = some v) :
    values.foldlM (LineIndex.pushLineStart wide) middle = some (middle ++ values) := by
  induction values generalizing middle with
  | nil => rw [List.foldlM_nil, List.append_nil]; rfl
  | cons value values ih =>
    obtain ⟨hfit, hrest⟩ := List.forall_mem_cons.mp hfits
    obtain ⟨hless, hsorted⟩ := List.pairwise_cons.mp hvalues
    have hpush : LineIndex.pushLineStart wide middle value = some (middle ++ [value]) := by
      have hlast : middle.getLast? ≠ some value := by
        intro hlast
        have hlt := hmiddle value (List.mem_of_getLast? hlast) value List.mem_cons_self
        exact Nat.lt_irrefl _ hlt
      rw [LineIndex.pushLineStart, if_pos hlast, hfit, Option.map_some]
    have hnext := @ih (middle ++ [value]) (by
      intro u hu v hv
      rcases List.mem_append.mp hu with hu | hu
      · exact hmiddle u hu v (List.mem_cons_of_mem _ hv)
      · rw [List.mem_singleton.mp hu]
        exact hless v hv) hsorted hrest
    rw [List.foldlM_cons, hpush]
    show (values.foldlM _ (middle ++ [value])) = _
    rw [hnext, List.append_assoc, List.singleton_append]

/-- The starts before an edit are pushed, moved by the shift. -/
theorem shiftLoop_eq {front back : List Nat} {shift : Int}
    (hfront : ∀ v ∈ front, v ≤ n) (hback : ∀ v ∈ back, n < v) :
    LineIndex.shiftLoop wide n shift (front ++ back) middle =
      ((front.map (LineIndex.applyLineShift · shift)).foldlM (LineIndex.pushLineStart wide)
        middle).map fun middle => (back, middle) := by
  induction front generalizing middle with
  | nil =>
    cases back with
    | nil => rfl
    | cons v back =>
      have hv := hback v List.mem_cons_self
      rw [List.nil_append, LineIndex.shiftLoop, if_neg (Nat.not_le.mpr hv)]
      rfl
  | cons v front ih =>
    obtain ⟨hv, hrest⟩ := List.forall_mem_cons.mp hfront
    rw [List.cons_append, LineIndex.shiftLoop, if_pos hv, List.map_cons, List.foldlM_cons]
    cases LineIndex.pushLineStart wide middle (LineIndex.applyLineShift v shift) with
    | none => rfl
    | some middle => exact ih hrest

/-! ## The loop over the edits -/

/-- Where the last edit ends. -/
def lastStop (pos : Nat) : List (Splice Char) → Nat
  | [] => pos
  | s :: splices => lastStop s.stop splices

/-- **The loop finds the starts of what it has passed**, from there to the end of the last edit. -/
theorem updateLoop_eq {splices : List (Splice Char)}
    (h : Exchange Char.utf8Size pos pos' text splices text' inverse)
    (hedits : edits.map TextEdit.toSplice = splices) :
    ∃ body body' tail, text = body ++ tail ∧ text' = body' ++ tail ∧
      pos + byteLength body = lastStop pos splices ∧
      ∀ middle : List Nat, (∀ v ∈ middle, v ≤ pos') →
        (∀ v, v ≤ pos' + byteLength body' → storedOffset wide v = some v) →
        LineIndex.updateLoop wide edits (afterNewlines body pos) ((pos' : Int) - pos) middle =
          some (middle ++ afterNewlines body' pos',
            ((pos' + byteLength body' : Nat) : Int) - (pos + byteLength body : Nat)) := by
  induction h generalizing edits with
  | @done pos pos' rest =>
    rw [List.map_eq_nil_iff] at hedits
    subst hedits
    refine ⟨[], [], rest, rfl, rfl, rfl, fun middle _ _ => ?_⟩
    simp [LineIndex.updateLoop, afterNewlines]
  | @splice pos pos' kept removed rest result s s' splices inverse hstart hstop hstart' hstop'
      hremoved _ ih =>
    obtain ⟨edit, edits, rfl, rfl, hrest⟩ := List.map_eq_cons_iff.mp hedits
    obtain ⟨body, body', tail, rfl, rfl, hlast, hloop⟩ := ih hrest
    have hstart : edit.range.start = pos + byteLength kept := hstart
    have hstop : edit.range.stop = edit.range.start + byteLength removed := hstop
    have hstart' : s'.start = pos' + byteLength kept := hstart'
    have hstop' : s'.stop = s'.start + byteLength edit.replacement := hstop'
    have hspliceStop : edit.toSplice.stop = edit.range.stop := rfl
    have hspliceRep : edit.toSplice.replacement = edit.replacement := rfl
    rw [hspliceStop] at hlast hloop
    rw [hspliceRep]
    refine ⟨kept ++ (removed ++ body), kept ++ (edit.replacement ++ body'), tail,
      by simp only [List.append_assoc], by simp only [List.append_assoc], ?_, ?_⟩
    · rw [lastStop, hspliceStop, ← hlast, byteLength_append, byteLength_append]
      omega
    · intro middle hmiddle hfits
      simp only [byteLength_append] at hfits
      have hkept : ∀ v ∈ afterNewlines kept pos', storedOffset wide v = some v := by
        intro v hv
        have hbounds := bounds_of_mem_afterNewlines hv
        exact hfits v (by omega)
      have hnew : ∀ v ∈ afterNewlines edit.replacement s'.start,
          storedOffset wide v = some v := by
        intro v hv
        have hbounds := bounds_of_mem_afterNewlines hv
        exact hfits v (by omega)
      -- what is kept before the edit is moved
      have hshift := map_applyLineShift kept pos pos' 0
      rw [Nat.add_zero, Nat.add_zero] at hshift
      have hbase : LineIndex.applyLineShift edit.range.start ((pos' : Int) - pos) = s'.start := by
        rw [hstart, applyLineShift_add, hstart']
      rw [afterNewlines_append, afterNewlines_append, ← hstart, ← hstop, LineIndex.updateLoop,
        shiftLoop_eq (by
          intro v hv
          have hbounds := bounds_of_mem_afterNewlines hv
          omega) (by
          intro v hv
          rcases List.mem_append.mp hv with hv | hv
          · exact (bounds_of_mem_afterNewlines hv).1
          · have hbounds := (bounds_of_mem_afterNewlines hv).1
            omega), hshift,
        foldlM_pushLineStart (by
          intro u hu v hv
          have hless := hmiddle u hu
          have hbounds := bounds_of_mem_afterNewlines hv
          omega) (pairwise_afterNewlines _ _) hkept, Option.map_some, Option.bind_some]
      dsimp only
      rw [hbase, foldlM_pushLineStart (by
          intro u hu v hv
          have hbounds := bounds_of_mem_afterNewlines hv
          rcases List.mem_append.mp hu with hu | hu
          · have hless := hmiddle u hu
            omega
          · have hless := bounds_of_mem_afterNewlines hu
            omega) (pairwise_afterNewlines _ _) hnew, Option.bind_some]
      -- what is removed is dropped
      rw [dropWhile_append_le (by
          intro v hv
          have hbounds := bounds_of_mem_afterNewlines hv
          omega) (fun v hv => (bounds_of_mem_afterNewlines hv).1)]
      have hdelta : ((pos' : Int) - pos) + (byteLength edit.replacement : Nat) - edit.range.len =
          (s'.stop : Int) - edit.range.stop := by
        rw [TextRange.len]
        omega
      rw [hdelta, hloop _ (by
        intro v hv
        rcases List.mem_append.mp hv with hv | hv
        · rcases List.mem_append.mp hv with hv | hv
          · have hless := hmiddle v hv
            omega
          · have hbounds := bounds_of_mem_afterNewlines hv
            omega
        · have hbounds := bounds_of_mem_afterNewlines hv
          omega) (fun v hv => hfits v (by omega))]
      rw [afterNewlines_append, afterNewlines_append, ← hstart', ← hstop']
      simp only [byteLength_append, List.append_assoc, Option.some.injEq, Prod.mk.injEq, true_and]
      omega

/-! ## The whole update -/

/-- The starts of the lines of a text. -/
def lineStartsOf (text : List Char) : List Nat := 0 :: afterNewlines text 0

/-- **The index of a text**: its line starts, in a width that covers them. -/
structure LineIndex.Covers (index : LineIndex) (text : List Char) : Prop where
  starts : index.starts = lineStartsOf text
  width : index.wide = true ∨ byteLength text < 2 ^ 32

theorem storedOffset_of_le (h : wide = true ∨ n < 2 ^ 32) (hv : v ≤ n) :
    storedOffset wide v = some v := by
  rw [storedOffset, if_pos]
  rcases h with rfl | hn
  · rfl
  · rw [fitsU32, decide_eq_true (by omega), Bool.or_true]

theorem le_of_mem_lineStartsOf (h : v ∈ lineStartsOf text) : v ≤ byteLength text := by
  rcases List.mem_cons.mp h with rfl | h
  · exact Nat.zero_le _
  · have hbounds := bounds_of_mem_afterNewlines h
    omega

theorem mapM_storedOffset (hfits : ∀ v ∈ values, storedOffset wide v = some v) :
    values.mapM (storedOffset wide) = some values := by
  induction values with
  | nil => rfl
  | cons value values ih =>
    obtain ⟨hfit, hrest⟩ := List.forall_mem_cons.mp hfits
    rw [List.mapM_cons, hfit, ih hrest]
    rfl

theorem width_of_fitsU32 (wide : Bool) (n : Nat) : (wide || !fitsU32 n) = true ∨ n < 2 ^ 32 := by
  by_cases h : n < 2 ^ 32
  · exact .inr h
  · rw [fitsU32, decide_eq_false h]
    exact .inl (Bool.or_true _)

theorem LineIndex.covers_new (text : List Char) :
    ∃ index, LineIndex.new text = some index ∧ index.Covers text := by
  have hwidth := width_of_fitsU32 false (byteLength text)
  have hstored : (0 :: afterNewlines text 0).mapM
      (storedOffset (false || !fitsU32 (byteLength text))) = some (lineStartsOf text) :=
    mapM_storedOffset fun v hv => storedOffset_of_le hwidth (le_of_mem_lineStartsOf hv)
  refine ⟨⟨!fitsU32 (byteLength text), lineStartsOf text⟩, ?_, rfl, hwidth⟩
  rw [LineIndex.new, computeLineStarts]
  exact congrArg (Option.map _) hstored

theorem lastStop_eq {edit : TextEdit} (h : edits.getLast? = some edit) (pos : Nat) :
    lastStop pos (edits.map TextEdit.toSplice) = edit.range.stop := by
  induction edits generalizing pos with
  | nil => cases h
  | cons first edits ih =>
    rw [List.map_cons, lastStop]
    cases edits with
    | nil =>
      cases h
      rfl
    | cons second edits =>
      rw [List.getLast?_cons_cons] at h
      exact ih h _

/-- **The starts are brought up to date without a look at the text.** -/
theorem updateLineStarts_eq
    (h : Exchange Char.utf8Size 0 0 text (edits.map TextEdit.toSplice) text' inverse)
    (hwidth : wide = true ∨ byteLength text' < 2 ^ 32) :
    LineIndex.updateLineStarts wide (lineStartsOf text) edits = some (lineStartsOf text') := by
  cases edits with
  | nil =>
    cases h
    rfl
  | cons edit edits =>
    obtain ⟨lastEdit, hlastEdit⟩ := Option.ne_none_iff_exists'.mp
      (List.getLast?_eq_none_iff.not.mpr (List.cons_ne_nil edit edits))
    generalize hsplices : (edit :: edits).map TextEdit.toSplice = splices at h
    cases h with
    | done => cases hsplices
    | @splice _ _ kept removed rest result s s' splices inverse hstart hstop hstart' hstop'
        hremoved hrest =>
      obtain ⟨rfl, -⟩ := List.cons.inj hsplices
      have hsame : edit.range.start = byteLength kept := by
        have hedit : edit.toSplice.start = edit.range.start := rfl
        rw [← hedit, hstart, byteLength_eq_weight, Nat.zero_add]
      have hsame' : s'.start = byteLength kept := by
        rw [hstart', byteLength_eq_weight, Nat.zero_add]
      -- what is behind the start of the first edit
      have hbehind : Exchange Char.utf8Size (byteLength kept) (byteLength kept) ([] ++ (removed ++ rest))
          (edit.toSplice :: splices) ([] ++ (edit.toSplice.replacement ++ result))
          (s' :: inverse) := .splice hsame hstop hsame' hstop' hremoved hrest
      obtain ⟨body, body', tail, htext, htext', hlast, hloop⟩ := updateLoop_eq hbehind hsplices
      rw [List.nil_append] at htext htext'
      rw [← hsplices, lastStop_eq hlastEdit] at hlast
      rw [htext'] at hwidth ⊢
      rw [htext]
      simp only [byteLength_append] at hwidth
      have hrun := hloop [] (fun v hv => absurd hv List.not_mem_nil)
        (fun v hv => storedOffset_of_le hwidth (by omega))
      rw [Int.sub_self, List.nil_append] at hrun
      have hstarts : ∀ body tail : List Char, lineStartsOf (kept ++ (body ++ tail)) =
          lineStartsOf kept ++ (afterNewlines body (byteLength kept) ++
            afterNewlines tail (byteLength kept + byteLength body)) := by
        intro body tail
        rw [lineStartsOf, lineStartsOf, afterNewlines_append, afterNewlines_append, Nat.zero_add,
          List.cons_append]
      have hkept : ∀ v ∈ lineStartsOf kept, v ≤ edit.range.start := by
        intro v hv
        rw [hsame]
        exact le_of_mem_lineStartsOf hv
      have hahead : ∀ v ∈ afterNewlines body (byteLength kept), edit.range.start < v ∧
          v ≤ lastEdit.range.stop := by
        intro v hv
        have hbounds := bounds_of_mem_afterNewlines hv
        omega
      have hback : ∀ v ∈ afterNewlines tail (byteLength kept + byteLength body),
          lastEdit.range.stop < v := by
        intro v hv
        have hbounds := bounds_of_mem_afterNewlines hv
        omega
      have hfront : (lineStartsOf (kept ++ (body ++ tail))).takeWhile
          (fun start => start ≤ edit.range.start) = lineStartsOf kept := by
        rw [hstarts]
        refine takeWhile_append_le hkept fun v hv => ?_
        rcases List.mem_append.mp hv with hv | hv
        · exact (hahead v hv).1
        · have hlt := hback v hv
          omega
      have hthrough : ∀ v ∈ lineStartsOf kept ++ afterNewlines body (byteLength kept),
          v ≤ lastEdit.range.stop := by
        intro v hv
        rcases List.mem_append.mp hv with hv | hv
        · have hle := hkept v hv
          omega
        · exact (hahead v hv).2
      have hold : (lineStartsOf (kept ++ (body ++ tail))).takeWhile
          (fun start => start ≤ lastEdit.range.stop) =
            lineStartsOf kept ++ afterNewlines body (byteLength kept) := by
        rw [hstarts, ← List.append_assoc]
        exact takeWhile_append_le hthrough hback
      have hrestStarts : (lineStartsOf (kept ++ (body ++ tail))).dropWhile
          (fun start => start ≤ lastEdit.range.stop) =
            afterNewlines tail (byteLength kept + byteLength body) := by
        rw [hstarts, ← List.append_assoc]
        exact dropWhile_append_le hthrough hback
      rw [LineIndex.updateLineStarts, List.head?_cons, hlastEdit]
      dsimp only
      rw [hfront, hold, hrestStarts, List.drop_left, hrun, Option.bind_some, hstarts]
      dsimp only
      split
      next hzero =>
        rw [show byteLength body' = byteLength body by omega]
      next =>
        have hshift := map_applyLineShift tail (byteLength kept + byteLength body)
          (byteLength kept + byteLength body') 0
        rw [Nat.add_zero, Nat.add_zero] at hshift
        have hmoved := @mapM_storedOffset wide
          (afterNewlines tail (byteLength kept + byteLength body')) fun v hv => by
            have hbounds := bounds_of_mem_afterNewlines hv
            exact storedOffset_of_le hwidth (by omega)
        rw [← hshift, List.mapM_map] at hmoved
        rw [hshift] at hmoved
        have hmap : ((afterNewlines tail (byteLength kept + byteLength body)).mapM fun start =>
            storedOffset wide (LineIndex.applyLineShift start
              ((byteLength kept + byteLength body' : Nat) - (byteLength kept + byteLength body : Nat))))
            = some (afterNewlines tail (byteLength kept + byteLength body')) := hmoved
        rw [hmap, Option.map_some]

/-- **Edits keep the index that of the text.** -/
theorem LineIndex.Covers.update {index : LineIndex} (h : index.Covers text)
    (hexchange : Exchange Char.utf8Size 0 0 text (edits.map TextEdit.toSplice) text' inverse) :
    ∃ index', index.update edits (byteLength text') = some index' ∧ index'.Covers text' := by
  have hwidth := width_of_fitsU32 index.wide (byteLength text')
  refine ⟨⟨index.wide || !fitsU32 (byteLength text'), lineStartsOf text'⟩, ?_, rfl, hwidth⟩
  rw [LineIndex.update, h.starts]
  rw [updateLineStarts_eq hexchange hwidth, Option.map_some]

end OxideTerm.Editor
