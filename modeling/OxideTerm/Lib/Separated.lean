import Mathlib.Data.List.Basic

/-!
# Text with separators

When the parts of a text can be told apart: by what only one of them has at its front or at its end,
or by separators that none of them has.
-/

namespace OxideTerm.Lib

variable {α : Type}

/-! ## Cuts -/

/-- A text is cut where a property of its front ends. -/
theorem append_inj_of_front {P : α → Prop} : ∀ {a a' r r' : List α}, (∀ x ∈ a, P x) →
    (∀ x ∈ a', P x) → (∀ x ∈ r.head?, ¬ P x) → (∀ x ∈ r'.head?, ¬ P x) →
      a ++ r = a' ++ r' → a = a' ∧ r = r'
  | [], [], _, _, _, _, _, _, h => ⟨rfl, h⟩
  | [], y :: a', r, r', _, ha', hr, _, h => by
    rw [List.nil_append] at h
    subst h
    exact absurd (ha' y List.mem_cons_self) (hr y rfl)
  | x :: a, [], r, r', ha, _, _, hr', h => by
    rw [List.nil_append] at h
    subst h
    exact absurd (ha x List.mem_cons_self) (hr' x rfl)
  | x :: a, y :: a', r, r', ha, ha', hr, hr', h => by
    obtain ⟨rfl, htail⟩ := List.cons.inj h
    obtain ⟨rfl, rfl⟩ := append_inj_of_front (fun z hz => ha z (List.mem_cons_of_mem x hz))
      (fun z hz => ha' z (List.mem_cons_of_mem x hz)) hr hr' htail
    exact ⟨rfl, rfl⟩

/-- A text is cut at the first separator. -/
theorem append_cons_inj_of_notMem {x : α} {a a' r r' : List α} (ha : x ∉ a) (ha' : x ∉ a')
    (h : a ++ x :: r = a' ++ x :: r') : a = a' ∧ r = r' := by
  have hstop : ∀ (r : List α), ∀ y ∈ (x :: r).head?, ¬ y ≠ x := by
    intro r y hy
    rw [not_not]
    exact (Option.some.inj hy).symm
  obtain ⟨hfront, htail⟩ := append_inj_of_front (P := fun y => y ≠ x)
    (fun y hy => ne_of_mem_of_not_mem hy ha) (fun y hy => ne_of_mem_of_not_mem hy ha') (hstop r)
    (hstop r') h
  exact ⟨hfront, (List.cons.inj htail).2⟩

/-- A text is cut at the last element with a property. -/
theorem append_cons_inj_of_last {P : α → Prop} {w w' r r' : List α} {x x' : α} (hx : P x)
    (hx' : P x') (hr : ∀ y ∈ r, ¬ P y) (hr' : ∀ y ∈ r', ¬ P y)
    (h : w ++ x :: r = w' ++ x' :: r') : w = w' ∧ x = x' ∧ r = r' := by
  have hreverse : r.reverse ++ (x :: w.reverse) = r'.reverse ++ (x' :: w'.reverse) := by
    simpa using congrArg List.reverse h
  have hstop : ∀ (x : α) (w : List α), P x → ∀ y ∈ (x :: w).head?, ¬ ¬ P y := by
    intro x w hx y hy
    rw [not_not, ← Option.some.inj hy]
    exact hx
  obtain ⟨hback, hfront⟩ := append_inj_of_front (P := fun y => ¬ P y)
    (fun y hy => hr y (List.mem_reverse.mp hy)) (fun y hy => hr' y (List.mem_reverse.mp hy))
    (hstop x w.reverse hx) (hstop x' w'.reverse hx') hreverse
  obtain ⟨rfl, hwords⟩ := List.cons.inj hfront
  exact ⟨List.reverse_inj.mp hwords, rfl, List.reverse_inj.mp hback⟩

/-! ## Parts with a separator in front of each -/

def joined (x : α) (parts : List (List α)) : List α := parts.flatMap fun part => x :: part

@[simp] theorem joined_nil (x : α) : joined x [] = [] := rfl

@[simp] theorem joined_cons (x : α) (part : List α) (parts : List (List α)) :
    joined x (part :: parts) = x :: (part ++ joined x parts) := rfl

@[simp] theorem joined_append (x : α) (a b : List (List α)) :
    joined x (a ++ b) = joined x a ++ joined x b := List.flatMap_append

variable [BEq α] [LawfulBEq α]

/-- Splitting gives back the parts. -/
theorem splitOn_append_joined {x : α} : ∀ (a : List α) {parts : List (List α)},
    (∀ part ∈ parts, x ∉ part) → (a ++ joined x parts).splitOn x = a.splitOn x ++ parts
  | a, [], _ => by rw [joined_nil, List.append_nil, List.append_nil]
  | a, part :: parts, h => by
    obtain ⟨hpart, hparts⟩ := List.forall_mem_cons.mp h
    rw [joined_cons, List.splitOn_append_cons_self, splitOn_append_joined part hparts,
      List.splitOn_eq_singleton hpart, List.singleton_append]

theorem splitOn_inj {x : α} {a b : List α} (h : a.splitOn x = b.splitOn x) : a = b := by
  calc a = [x].intercalate (a.splitOn x) := (List.intercalate_splitOn x).symm
    _ = [x].intercalate (b.splitOn x) := by rw [h]
    _ = b := List.intercalate_splitOn x

theorem joined_inj {x : α} {a b : List (List α)} (ha : ∀ part ∈ a, x ∉ part)
    (hb : ∀ part ∈ b, x ∉ part) (h : joined x a = joined x b) : a = b := by
  have hsplit := splitOn_append_joined [] ha
  rw [h, splitOn_append_joined [] hb] at hsplit
  exact (List.append_cancel_left hsplit).symm

end OxideTerm.Lib
