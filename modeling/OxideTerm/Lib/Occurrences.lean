import Mathlib.Data.List.Basic

/-!
# Occurrences

Whether something is found at a position of a text depends on what is before the position and what is
behind it. The positions of a stretch of a text where it is found are listed by what is before them.
-/

namespace OxideTerm.Lib

variable {α : Type*} {hit hit' : List α → List α → Bool} {front middle back more : List α}

/-- What is before the positions of a stretch where something is found. -/
def occurrences (hit : List α → List α → Bool) (front : List α) : List α → List α → List (List α)
  | [], _ => []
  | x :: middle, back =>
    if hit front (x :: middle ++ back) then
      front :: occurrences hit (front ++ [x]) middle back
    else occurrences hit (front ++ [x]) middle back

/-- **Stretches can be searched one after the other.** -/
theorem occurrences_append : occurrences hit front (middle ++ more) back =
    occurrences hit front middle (more ++ back) ++
      occurrences hit (front ++ middle) more back := by
  induction middle generalizing front with
  | nil => simp [occurrences]
  | cons x middle ih =>
    rw [List.cons_append, occurrences, occurrences, ih]
    simp only [List.append_assoc, List.cons_append, List.nil_append]
    split <;> simp

/-- **What is far away does not matter** if it does not matter at any position of the stretch. -/
theorem occurrences_congr {before after : List α}
    (h : ∀ passed x ahead, middle = passed ++ x :: ahead →
      hit (before ++ (front ++ passed)) (x :: ahead ++ (back ++ after)) =
        hit (front ++ passed) (x :: ahead ++ back)) :
    occurrences hit (before ++ front) middle (back ++ after) =
      (occurrences hit front middle back).map (before ++ ·) := by
  induction middle generalizing front with
  | nil => rfl
  | cons x middle ih =>
    have hhere := h [] x middle rfl
    rw [List.append_nil] at hhere
    have hrest := @ih (front ++ [x]) (by
      intro passed y ahead hmiddle
      have hthere := h (x :: passed) y ahead (by rw [hmiddle]; rfl)
      rw [List.append_assoc, List.singleton_append]
      exact hthere)
    rw [occurrences, occurrences, hhere, List.append_assoc, hrest]
    split <;> rfl

/-- Where nothing is found, there is nothing to list. -/
theorem occurrences_eq_nil (h : ∀ passed x ahead, middle = passed ++ x :: ahead →
    hit (front ++ passed) (x :: ahead ++ back) = false) :
    occurrences hit front middle back = [] := by
  induction middle generalizing front with
  | nil => rfl
  | cons x middle ih =>
    have hhere := h [] x middle rfl
    rw [List.append_nil] at hhere
    rw [occurrences, hhere, if_neg Bool.false_ne_true]
    refine ih fun passed y ahead hmiddle => ?_
    have hthere := h (x :: passed) y ahead (by rw [hmiddle]; rfl)
    rw [List.append_assoc, List.singleton_append]
    exact hthere

theorem mem_occurrences_iff {found : List α} : found ∈ occurrences hit front middle back ↔
    ∃ passed x ahead, middle = passed ++ x :: ahead ∧ found = front ++ passed ∧
      hit found (x :: ahead ++ back) = true := by
  induction middle generalizing front with
  | nil => simp [occurrences]
  | cons y middle ih =>
    have hlater : found ∈ occurrences hit (front ++ [y]) middle back ↔
        ∃ passed x ahead, y :: middle = y :: passed ++ x :: ahead ∧
          found = front ++ y :: passed ∧ hit found (x :: ahead ++ back) = true := by
      rw [ih]
      simp
    have hmem : found ∈ occurrences hit front (y :: middle) back ↔
        (found = front ∧ hit front (y :: middle ++ back) = true) ∨
          found ∈ occurrences hit (front ++ [y]) middle back := by
      rw [occurrences]
      split <;> simp_all
    rw [hmem, hlater]
    constructor
    · rintro (⟨rfl, hhit⟩ | ⟨passed, x, ahead, hmiddle, hfound, hhit⟩)
      · exact ⟨[], y, middle, rfl, (List.append_nil _).symm, hhit⟩
      · exact ⟨y :: passed, x, ahead, hmiddle, hfound, hhit⟩
    · rintro ⟨passed, x, ahead, hmiddle, rfl, hhit⟩
      cases passed with
      | nil =>
        obtain ⟨rfl, rfl⟩ := List.cons.inj hmiddle
        rw [List.append_nil] at hhit ⊢
        exact .inl ⟨rfl, hhit⟩
      | cons z passed =>
        obtain ⟨rfl, -⟩ := List.cons.inj hmiddle
        exact .inr ⟨passed, x, ahead, hmiddle, rfl, hhit⟩

/-- The positions come in their order. -/
theorem pairwise_occurrences : (occurrences hit front middle back).Pairwise
    fun earlier later => ∃ x between, later = earlier ++ x :: between := by
  induction middle generalizing front with
  | nil => exact .nil
  | cons y middle ih =>
    rw [occurrences]
    split
    · refine List.pairwise_cons.mpr ⟨fun later hlater => ?_, ih⟩
      obtain ⟨passed, -, -, -, rfl, -⟩ := mem_occurrences_iff.mp hlater
      exact ⟨y, passed, by simp⟩
    · exact ih

end OxideTerm.Lib
