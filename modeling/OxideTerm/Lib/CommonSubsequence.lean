import Mathlib.Data.List.Basic

/-!
# Longest common subsequences

How long a common subsequence of two lists can be, from what is known of shorter lists. What stands
in both lists at the front, or at the end, is in a longest one.
-/

namespace OxideTerm.Lib

variable {α : Type}

open List

/-- The length of the longest common subsequences. -/
structure LongestCommon (n : Nat) (a b : List α) : Prop where
  attained : ∃ s : List α, s <+ a ∧ s <+ b ∧ s.length = n
  bound : ∀ s : List α, s <+ a → s <+ b → s.length ≤ n

namespace LongestCommon

variable {n m : Nat} {a b : List α} {x y : α}

theorem unique (hn : LongestCommon n a b) (hm : LongestCommon m a b) : n = m := by
  obtain ⟨s, hsa, hsb, hs⟩ := hn.attained
  obtain ⟨t, hta, htb, ht⟩ := hm.attained
  have hle := hm.bound s hsa hsb
  have hge := hn.bound t hta htb
  omega

theorem symm (h : LongestCommon n a b) : LongestCommon n b a := by
  obtain ⟨s, hsa, hsb, hs⟩ := h.attained
  exact ⟨⟨s, hsb, hsa, hs⟩, fun t htb hta => h.bound t hta htb⟩

theorem nil_left (b : List α) : LongestCommon 0 [] b := by
  refine ⟨⟨[], Sublist.refl [], nil_sublist b, rfl⟩, ?_⟩
  intro s hs _
  rw [sublist_nil.mp hs]
  exact Nat.le_refl 0

theorem nil_right (a : List α) : LongestCommon 0 a [] := (nil_left a).symm

theorem reverse (h : LongestCommon n a b) : LongestCommon n a.reverse b.reverse := by
  obtain ⟨s, hsa, hsb, hs⟩ := h.attained
  refine ⟨⟨s.reverse, hsa.reverse, hsb.reverse, by rw [length_reverse, hs]⟩, ?_⟩
  intro t hta htb
  have hle := h.bound t.reverse (by simpa using hta.reverse) (by simpa using htb.reverse)
  rwa [length_reverse] at hle

/-- An element that both lists begin with. -/
theorem cons_cons (h : LongestCommon n a b) (x : α) : LongestCommon (n + 1) (x :: a) (x :: b) := by
  obtain ⟨s, hsa, hsb, hs⟩ := h.attained
  refine ⟨⟨x :: s, hsa.cons_cons x, hsb.cons_cons x, by rw [length_cons, hs]⟩, ?_⟩
  intro t hta htb
  have hle := h.bound t.tail hta.tail htb.tail
  rw [length_tail] at hle
  omega

/-- Lists that begin with different elements: one of these is not in the subsequence. -/
theorem cons_ne (hn : LongestCommon n a (y :: b)) (hm : LongestCommon m (x :: a) b) (hne : x ≠ y) :
    LongestCommon (max n m) (x :: a) (y :: b) := by
  constructor
  · rcases Nat.le_total m n with hle | hle
    · obtain ⟨s, hsa, hsb, hs⟩ := hn.attained
      exact ⟨s, hsa.cons x, hsb, by rw [hs, Nat.max_eq_left hle]⟩
    · obtain ⟨s, hsa, hsb, hs⟩ := hm.attained
      exact ⟨s, hsa, hsb.cons y, by rw [hs, Nat.max_eq_right hle]⟩
  · intro s hsa hsb
    rcases sublist_cons_iff.mp hsa with hsa' | ⟨r, rfl, hr⟩
    · exact Nat.le_trans (hn.bound s hsa' hsb) (Nat.le_max_left n m)
    · rcases sublist_cons_iff.mp hsb with hsb' | ⟨r', heq, -⟩
      · exact Nat.le_trans (hm.bound _ hsa hsb') (Nat.le_max_right n m)
      · exact absurd (List.cons.inj heq).1 hne

theorem concat_concat (h : LongestCommon n a b) (x : α) :
    LongestCommon (n + 1) (a ++ [x]) (b ++ [x]) := by
  simpa using (h.reverse.cons_cons x).reverse

theorem concat_ne (hn : LongestCommon n a (b ++ [y])) (hm : LongestCommon m (a ++ [x]) b)
    (hne : x ≠ y) : LongestCommon (max n m) (a ++ [x]) (b ++ [y]) := by
  have hn' : LongestCommon n a.reverse (y :: b.reverse) := by simpa using hn.reverse
  have hm' : LongestCommon m (x :: a.reverse) b.reverse := by simpa using hm.reverse
  simpa using (cons_ne hn' hm' hne).reverse

/-- What stands in front of both lists. -/
theorem append_left (h : LongestCommon n a b) : ∀ p : List α,
    LongestCommon (p.length + n) (p ++ a) (p ++ b)
  | [] => by simpa using h
  | x :: p => by
    have hrest := (append_left h p).cons_cons x
    rwa [Nat.add_right_comm] at hrest

theorem append_right (h : LongestCommon n a b) (s : List α) :
    LongestCommon (n + s.length) (a ++ s) (b ++ s) := by
  have hfront := (h.reverse.append_left s.reverse).reverse
  simp only [reverse_append, reverse_reverse, length_reverse] at hfront
  rwa [Nat.add_comm] at hfront

end LongestCommon

/-! ## What two lists begin with -/

variable [DecidableEq α]

/-- How many elements at the front are the same. -/
def sharedPrefix (a b : List α) : Nat := ((a.zip b).takeWhile fun p => p.1 = p.2).length

theorem sharedPrefix_le : ∀ a b : List α,
    sharedPrefix a b ≤ a.length ∧ sharedPrefix a b ≤ b.length := by
  intro a b
  have hle : sharedPrefix a b ≤ (a.zip b).length := (List.takeWhile_sublist _).length_le
  rw [length_zip] at hle
  omega

/-- The front is the same in both lists. -/
theorem take_sharedPrefix : ∀ a b : List α, a.take (sharedPrefix a b) = b.take (sharedPrefix a b)
  | [], b => by simp [sharedPrefix]
  | a :: as, [] => by simp [sharedPrefix]
  | a :: as, b :: bs => by
    by_cases heq : a = b
    · have hstep : sharedPrefix (a :: as) (b :: bs) = sharedPrefix as bs + 1 := by
        simp [sharedPrefix, heq]
      rw [hstep, take_succ_cons, take_succ_cons, heq, take_sharedPrefix as bs]
    · have hstep : sharedPrefix (a :: as) (b :: bs) = 0 := by simp [sharedPrefix, heq]
      rw [hstep, take_zero, take_zero]

end OxideTerm.Lib
