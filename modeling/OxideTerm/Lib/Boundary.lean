import Mathlib

/-!
# Boundaries between weighted symbols

Where each symbol of a text takes a number of units, a position counted in units may fall inside a
symbol. The boundaries are the positions that do not.
-/

namespace OxideTerm.Lib

variable {α : Type*} {w : α → Nat} {text a b : List α} {x : α} {n m : Nat}

/-- What the symbols of a text take together. -/
def weight (w : α → Nat) (text : List α) : Nat := (text.map w).sum

@[simp] theorem weight_nil : weight w [] = 0 := rfl

@[simp] theorem weight_cons : weight w (x :: text) = w x + weight w text := rfl

@[simp] theorem weight_append : weight w (a ++ b) = weight w a + weight w b := by
  simp [weight]

theorem weight_le_of_prefix (h : a <+: b) : weight w a ≤ weight w b := by
  obtain ⟨rest, rfl⟩ := h
  rw [weight_append]
  exact Nat.le_add_right _ _

theorem weight_pos (hw : ∀ x, 0 < w x) (h : text ≠ []) : 0 < weight w text := by
  obtain ⟨x, rest, rfl⟩ := List.exists_cons_of_ne_nil h
  rw [weight_cons]
  exact Nat.add_pos_left (hw x) _

theorem weight_eq_zero (hw : ∀ x, 0 < w x) (h : weight w text = 0) : text = [] := by
  by_contra hne
  exact absurd (weight_pos hw hne) (by rw [h]; exact Nat.lt_irrefl 0)

theorem length_le_weight (hw : ∀ x, 0 < w x) : (text : List α) → text.length ≤ weight w text
  | [] => Nat.le_refl 0
  | x :: text => by
    have hx := hw x
    have hrest := length_le_weight hw text
    rw [List.length_cons, weight_cons]
    omega

/-! ## Boundaries -/

/-- The text can be cut behind so many units. -/
def IsBoundary (w : α → Nat) (text : List α) (n : Nat) : Prop :=
  ∃ front back, text = front ++ back ∧ weight w front = n

theorem isBoundary_zero : IsBoundary w text 0 := ⟨[], text, rfl, rfl⟩

theorem isBoundary_weight : IsBoundary w text (weight w text) :=
  ⟨text, [], (List.append_nil text).symm, rfl⟩

theorem isBoundary_append : IsBoundary w (a ++ b) (weight w a) := ⟨a, b, rfl, rfl⟩

theorem IsBoundary.le (h : IsBoundary w text n) : n ≤ weight w text := by
  obtain ⟨front, back, rfl, rfl⟩ := h
  rw [weight_append]
  exact Nat.le_add_right _ _

theorem IsBoundary.left (h : IsBoundary w a n) : IsBoundary w (a ++ b) n := by
  obtain ⟨front, back, rfl, rfl⟩ := h
  exact ⟨front, back ++ b, List.append_assoc _ _ _, rfl⟩

theorem IsBoundary.right (h : IsBoundary w b n) : IsBoundary w (a ++ b) (weight w a + n) := by
  obtain ⟨front, back, rfl, rfl⟩ := h
  exact ⟨a ++ front, back, (List.append_assoc _ _ _).symm, weight_append⟩

theorem isBoundary_nil : IsBoundary w [] n ↔ n = 0 := by
  constructor
  · intro h
    exact Nat.eq_zero_of_le_zero h.le
  · rintro rfl
    exact isBoundary_zero

/-- The first boundary is the start, and the next one is behind the first symbol. -/
theorem isBoundary_cons : IsBoundary w (x :: text) n ↔
    n = 0 ∨ w x ≤ n ∧ IsBoundary w text (n - w x) := by
  constructor
  · rintro ⟨front, back, htext, rfl⟩
    rcases List.cons_eq_append_iff.mp htext with ⟨rfl, rfl⟩ | ⟨front, rfl, rfl⟩
    · exact .inl rfl
    · refine .inr ⟨Nat.le_add_right _ _, front, back, rfl, ?_⟩
      rw [weight_cons, Nat.add_sub_cancel_left]
  · rintro (rfl | ⟨hle, hrest⟩)
    · exact isBoundary_zero
    · have hcons := hrest.right (a := [x])
      rw [show weight w [x] = w x from Nat.add_zero _, Nat.add_sub_cancel' hle] at hcons
      exact hcons

/-! ## Cuts of concatenations -/

/-- **Behind the first part, the boundaries are those of the second.** -/
theorem isBoundary_append_right :
    IsBoundary w (a ++ b) (weight w a + n) ↔ IsBoundary w b n := by
  constructor
  · rintro ⟨front, back, htext, hfront⟩
    rcases List.append_eq_append_iff.mp htext with ⟨middle, rfl, rfl⟩ | ⟨middle, rfl, rfl⟩
    · refine ⟨middle, back, rfl, ?_⟩
      rw [weight_append] at hfront
      omega
    · rw [weight_append] at hfront
      rw [show n = 0 by omega]
      exact isBoundary_zero
  · exact IsBoundary.right

section

variable (hw : ∀ x, 0 < w x)

include hw

/-- A text is cut at a boundary in one way. -/
theorem append_inj_of_weight {a' b' : List α} (h : a ++ b = a' ++ b')
    (hweight : weight w a = weight w a') : a = a' ∧ b = b' := by
  have shorter : ∀ {a b a' b' : List α}, a ++ b = a' ++ b' → weight w a = weight w a' →
      a.length ≤ a'.length → a = a' ∧ b = b' := by
    intro a b a' b' h hweight hlength
    obtain ⟨middle, rfl, rfl⟩ : ∃ middle, a' = a ++ middle ∧ b = middle ++ b' := by
      rcases List.append_eq_append_iff.mp h with ⟨middle, h₁, h₂⟩ | ⟨middle, h₁, h₂⟩
      · exact ⟨middle, h₁, h₂⟩
      · have hnil : middle = [] := by
          rw [h₁, List.length_append] at hlength
          exact List.length_eq_zero_iff.mp (by omega)
        subst hnil
        exact ⟨[], by rw [h₁]; simp, h₂.symm⟩
    rw [weight_append] at hweight
    rw [weight_eq_zero hw (show weight w middle = 0 by omega)]
    simp
  rcases Nat.le_total a.length a'.length with hlength | hlength
  · exact shorter h hweight hlength
  · obtain ⟨rfl, rfl⟩ := shorter h.symm hweight.symm hlength
    exact ⟨rfl, rfl⟩

/-- **Up to the end of the first part, the boundaries are those of the first.** -/
theorem isBoundary_append_left (h : n ≤ weight w a) :
    IsBoundary w (a ++ b) n ↔ IsBoundary w a n := by
  constructor
  · rintro ⟨front, back, htext, rfl⟩
    rcases List.append_eq_append_iff.mp htext with ⟨middle, rfl, rfl⟩ | ⟨middle, rfl, rfl⟩
    · rw [weight_append] at h
      rw [weight_eq_zero hw (show weight w middle = 0 by omega), List.append_nil]
      exact isBoundary_weight
    · exact isBoundary_append
  · exact IsBoundary.left

/-- Where one cut is not behind another, what is between them can be told apart. -/
theorem exists_between {a' b' : List α} (h : a ++ b = a' ++ b')
    (hle : weight w a ≤ weight w a') : ∃ middle, a' = a ++ middle ∧ b = middle ++ b' := by
  rcases List.append_eq_append_iff.mp h with ⟨middle, h₁, h₂⟩ | ⟨middle, h₁, h₂⟩
  · exact ⟨middle, h₁, h₂⟩
  · have hnil : middle = [] := by
      rw [h₁, weight_append] at hle
      exact weight_eq_zero hw (by omega)
    subst hnil
    exact ⟨[], by rw [h₁]; simp, h₂.symm⟩

end

/-! ## The boundary at or before a position -/

/-- The last boundary that is not behind a position. -/
def IsFloor (w : α → Nat) (text : List α) (n m : Nat) : Prop :=
  IsBoundary w text m ∧ m ≤ n ∧ ∀ k, IsBoundary w text k → k ≤ n → k ≤ m

theorem IsFloor.unique {m' : Nat} (h : IsFloor w text n m) (h' : IsFloor w text n m') : m = m' :=
  Nat.le_antisymm (h'.2.2 m h.1 h.2.1) (h.2.2 m' h'.1 h'.2.1)

theorem IsBoundary.isFloor (h : IsBoundary w text n) : IsFloor w text n n :=
  ⟨h, Nat.le_refl n, fun _ _ hk => hk⟩

end OxideTerm.Lib
