import OxideTerm.Lib.Boundary

/-!
# Replacing several parts of a text at once

A list of splices replaces parts of a text that follow one another. Each splice has an inverse on the
result, and the inverses turn the result back (`Exchange.symm`). Since later splices do not move the
earlier parts, they can be carried out one by one, the last first (`Exchange.last_first`).
-/

namespace OxideTerm.Lib

/-- What is between two positions is replaced. -/
structure Splice (α : Type*) where
  start : Nat
  stop : Nat
  replacement : List α

variable {α : Type*} {w : α → Nat} {pos pos' : Nat} {text text' seen : List α}
  {s : Splice α} {splices inverse : List (Splice α)}

/-- What is behind two positions of two texts is turned into each other by splices and their inverses:
between what is replaced, the same is kept. -/
inductive Exchange (w : α → Nat) : Nat → Nat → List α → List (Splice α) → List α →
    List (Splice α) → Prop
  | done {pos pos' : Nat} {rest : List α} : Exchange w pos pos' rest [] rest []
  | splice {pos pos' : Nat} {kept removed rest result : List α} {s s' : Splice α}
      {splices inverse : List (Splice α)} :
      s.start = pos + weight w kept → s.stop = s.start + weight w removed →
      s'.start = pos' + weight w kept → s'.stop = s'.start + weight w s.replacement →
      s'.replacement = removed →
      Exchange w s.stop s'.stop rest splices result inverse →
      Exchange w pos pos' (kept ++ (removed ++ rest)) (s :: splices)
        (kept ++ (s.replacement ++ result)) (s' :: inverse)

/-- **The inverses turn the result back**, and their inverses are the splices. -/
theorem Exchange.symm (h : Exchange w pos pos' text splices text' inverse) :
    Exchange w pos' pos text' inverse text splices := by
  induction h with
  | done => exact .done
  | @splice pos pos' kept removed rest result s s' splices inverse hstart hstop hstart' hstop'
      hremoved _ ih =>
    subst hremoved
    exact .splice hstart' hstop' hstart hstop rfl ih

/-! ## Which splices fit -/

/-- Splices behind a position that follow one another and do not cut symbols. -/
def Fitting (w : α → Nat) (text : List α) : Nat → List (Splice α) → Prop
  | _, [] => True
  | pos, s :: splices =>
    pos ≤ s.start ∧ s.start ≤ s.stop ∧ IsBoundary w text s.start ∧ IsBoundary w text s.stop ∧
      Fitting w text s.stop splices

/-- **Fitting splices can be carried out.** -/
theorem Fitting.exchange (hw : ∀ x, 0 < w x) {rest : List α}
    (h : Fitting w (seen ++ rest) (weight w seen) splices) (pos' : Nat) :
    ∃ text' inverse, Exchange w (weight w seen) pos' rest splices text' inverse := by
  induction splices generalizing seen rest pos' with
  | nil => exact ⟨rest, [], .done⟩
  | cons s splices ih =>
    obtain ⟨hpos, hle, hstart, hstop, hrest⟩ := h
    obtain ⟨front, back, htext, hfront⟩ := hstart
    obtain ⟨kept, rfl, rfl⟩ := exists_between hw htext (by omega)
    obtain ⟨front', back', htext', hfront'⟩ := hstop
    rw [htext] at htext'
    obtain ⟨removed, rfl, rfl⟩ := exists_between hw htext' (by omega)
    rw [weight_append] at hfront hfront'
    rw [weight_append] at hfront'
    have hseen : seen ++ (kept ++ (removed ++ back')) = (seen ++ (kept ++ removed)) ++ back' := by
      simp only [List.append_assoc]
    have hweight : s.stop = weight w (seen ++ (kept ++ removed)) := by
      rw [weight_append, weight_append]
      omega
    rw [hseen, hweight] at hrest
    obtain ⟨result, inverse, hexchange⟩ :=
      ih hrest (pos' + weight w kept + weight w s.replacement)
    rw [← hweight] at hexchange
    exact ⟨kept ++ (s.replacement ++ result),
      ⟨pos' + weight w kept, pos' + weight w kept + weight w s.replacement, removed⟩ :: inverse,
      .splice (by omega) (by omega) rfl rfl rfl hexchange⟩

/-- What can be carried out fits. -/
theorem Exchange.fitting (h : Exchange w pos pos' text splices text' inverse)
    (hseen : weight w seen = pos) : Fitting w (seen ++ text) pos splices := by
  induction h generalizing seen with
  | done => exact trivial
  | @splice pos pos' kept removed rest result s s' splices inverse hstart hstop _ _ _ _ ih =>
    have hwhole : seen ++ (kept ++ (removed ++ rest)) = (seen ++ (kept ++ removed)) ++ rest := by
      simp only [List.append_assoc]
    have hweight : weight w (seen ++ (kept ++ removed)) = s.stop := by
      rw [weight_append, weight_append]
      omega
    refine ⟨by omega, by omega, ?_, ?_, ?_⟩
    · refine ⟨seen ++ kept, removed ++ rest, by simp only [List.append_assoc], ?_⟩
      rw [weight_append]
      omega
    · exact ⟨seen ++ (kept ++ removed), rest, hwhole, hweight⟩
    · rw [hwhole]
      exact ih hweight

/-! ## One by one -/

/-- One part of a text is replaced. -/
def Replaces (w : α → Nat) (s : Splice α) (text text' : List α) : Prop :=
  ∃ front removed back, text = front ++ (removed ++ back) ∧
    weight w front = s.start ∧ s.start + weight w removed = s.stop ∧
    text' = front ++ (s.replacement ++ back)

/-- **The last splice can be carried out first**, where each step replaces a part of what a state
stands for. -/
theorem Exchange.last_first {σ : Type*} {D : σ → List α → Prop} {step : σ → Splice α → σ}
    (hstep : ∀ state s before after, D state before → Replaces w s before after →
      D (step state s) after)
    (hseen : weight w seen = pos) (h : Exchange w pos pos' text splices text' inverse)
    {state : σ} (hstate : D state (seen ++ text)) :
    D (splices.reverse.foldl step state) (seen ++ text') := by
  induction h generalizing seen with
  | done => exact hstate
  | @splice pos pos' kept removed rest result s s' splices inverse hstart hstop _ _ _ _ ih =>
    have hweight : weight w (seen ++ (kept ++ removed)) = s.stop := by
      rw [weight_append, weight_append]
      omega
    have hlater := ih hweight (by simpa only [List.append_assoc] using hstate)
    rw [List.reverse_cons, List.foldl_append]
    refine hstep _ s _ _ hlater ⟨seen ++ kept, removed, result, ?_, ?_, ?_, ?_⟩
    · simp only [List.append_assoc]
    · rw [weight_append]
      omega
    · omega
    · simp only [List.append_assoc]

end OxideTerm.Lib
