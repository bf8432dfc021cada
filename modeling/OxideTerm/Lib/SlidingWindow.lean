import Mathlib.Data.BitVec

/-!
# Sliding windows

A set of numbers of which only the part near its maximum is remembered: the maximum, and one
bit for each of the `n` numbers up to it. A number is taken when it is known to be new, and
refused when it was taken before or lies below the window. So whatever is offered in whatever
order, nothing is taken twice (`Tracks.accept`).
-/

namespace OxideTerm.Lib

/-- The highest number taken so far, and which of the `n` numbers up to it were taken. -/
structure SlidingWindow (n : Nat) where
  highest : Option Nat
  seen : BitVec n

namespace SlidingWindow

variable {n : Nat}

def empty : SlidingWindow n := { highest := none, seen := 0#n }

/-- Takes a number that is above the window or in it and not yet taken. -/
def accept (window : SlidingWindow n) (c : Nat) : SlidingWindow n × Bool :=
  match window.highest with
  | none => ({ highest := some c, seen := BitVec.twoPow n 0 }, true)
  | some highest =>
    if highest < c then
      ({ highest := some c, seen := window.seen <<< (c - highest) ||| BitVec.twoPow n 0 }, true)
    else if n ≤ highest - c then (window, false)
    else if window.seen.getLsbD (highest - c) then (window, false)
    else ({ window with seen := window.seen ||| BitVec.twoPow n (highest - c) }, true)

/-- The window remembers these numbers: their maximum, and those that are not too far below. -/
structure Tracks (window : SlidingWindow n) (taken : List Nat) : Prop where
  nodup : taken.Nodup
  none_iff : window.highest = none ↔ taken = []
  highest : ∀ h, window.highest = some h → h ∈ taken ∧ ∀ c ∈ taken, c ≤ h
  seen : ∀ h, window.highest = some h → ∀ age < n,
    (window.seen.getLsbD age = true ↔ age ≤ h ∧ h - age ∈ taken)

theorem tracks_empty : Tracks (empty : SlidingWindow n) [] where
  nodup := List.nodup_nil
  none_iff := ⟨fun _ => rfl, fun _ => rfl⟩
  highest h hh := by simp [empty] at hh
  seen h hh := by simp [empty] at hh

/-- The number was taken before, or is too far below what was taken. -/
def Stale (n : Nat) (taken : List Nat) (c : Nat) : Prop := c ∈ taken ∨ ∃ h ∈ taken, c + n ≤ h

theorem tracks_first (hn : 0 < n) (c : Nat) :
    Tracks ({ highest := some c, seen := BitVec.twoPow n 0 } : SlidingWindow n) [c] where
  nodup := List.nodup_singleton c
  none_iff := by simp
  highest h hh := by
    obtain rfl := Option.some.inj hh
    simp
  seen h hh age hage := by
    obtain rfl := Option.some.inj hh
    rw [BitVec.getLsbD_twoPow]
    simp only [hn, decide_true, Bool.true_and, decide_eq_true_eq, List.mem_singleton]
    omega

theorem Tracks.above {window : SlidingWindow n} {taken : List Nat} (h : Tracks window taken)
    (hn : 0 < n) {highest c : Nat} (hhigh : window.highest = some highest) (hlt : highest < c) :
    Tracks ({ highest := some c,
              seen := window.seen <<< (c - highest) ||| BitVec.twoPow n 0 } : SlidingWindow n)
      (taken ++ [c]) where
  nodup := by
    refine List.nodup_append.mpr ⟨h.nodup, List.nodup_singleton c, ?_⟩
    rintro a ha b hb rfl
    have hle := (h.highest highest hhigh).2 a ha
    rw [List.mem_singleton] at hb
    omega
  none_iff := by simp
  highest k hk := by
    obtain rfl := Option.some.inj hk
    refine ⟨by simp, fun a ha => ?_⟩
    rcases List.mem_append.mp ha with ha | ha
    · have hle := (h.highest highest hhigh).2 a ha
      omega
    · exact (List.mem_singleton.mp ha).le
  seen k hk age hage := by
    obtain rfl := Option.some.inj hk
    rw [BitVec.getLsbD_or, BitVec.getLsbD_shiftLeft, BitVec.getLsbD_twoPow]
    simp only [hage, hn, decide_true, Bool.true_and, Bool.or_eq_true, Bool.and_eq_true,
      Bool.not_eq_true', decide_eq_false_iff_not, decide_eq_true_eq, Nat.not_lt,
      List.mem_append, List.mem_singleton]
    -- a bit of the shifted window stands for the same number as before
    by_cases hshift : c - highest ≤ age
    · rw [h.seen highest hhigh _ (by omega)]
      have hsame : highest - (age - (c - highest)) = c - age := by omega
      rw [hsame]
      constructor
      · rintro (⟨-, hle, hmem⟩ | hzero)
        · exact ⟨by omega, Or.inl hmem⟩
        · omega
      · rintro ⟨hle, hmem | hself⟩
        · exact Or.inl ⟨hshift, by omega, hmem⟩
        · omega
    · constructor
      · rintro (⟨hle, -⟩ | hzero)
        · omega
        · exact ⟨by omega, Or.inr (by omega)⟩
      · rintro ⟨hle, hmem | hself⟩
        · have := (h.highest highest hhigh).2 _ hmem
          omega
        · exact Or.inr (by omega)

theorem Tracks.inside {window : SlidingWindow n} {taken : List Nat} (h : Tracks window taken)
    {highest c : Nat} (hhigh : window.highest = some highest) (hle : c ≤ highest)
    (hage : highest - c < n) (hnew : c ∉ taken) :
    Tracks ({ highest := some highest,
              seen := window.seen ||| BitVec.twoPow n (highest - c) } : SlidingWindow n)
      (taken ++ [c]) where
  nodup := by
    refine List.nodup_append.mpr ⟨h.nodup, List.nodup_singleton c, ?_⟩
    rintro a ha b hb rfl
    rw [List.mem_singleton] at hb
    exact hnew (hb ▸ ha)
  none_iff := by simp
  highest k hk := by
    obtain rfl := Option.some.inj hk
    refine ⟨List.mem_append_left _ (h.highest highest hhigh).1, fun a ha => ?_⟩
    rcases List.mem_append.mp ha with ha | ha
    · exact (h.highest highest hhigh).2 a ha
    · rw [List.mem_singleton.mp ha]
      exact hle
  seen k hk age hage' := by
    obtain rfl := Option.some.inj hk
    rw [BitVec.getLsbD_or, BitVec.getLsbD_twoPow, Bool.or_eq_true, h.seen highest hhigh age hage']
    simp only [hage, decide_true, Bool.true_and, decide_eq_true_eq, List.mem_append,
      List.mem_singleton]
    constructor
    · rintro (⟨hle', hmem⟩ | heq)
      · exact ⟨hle', Or.inl hmem⟩
      · exact ⟨by omega, Or.inr (by omega)⟩
    · rintro ⟨hle', hmem | hself⟩
      · exact Or.inl ⟨hle', hmem⟩
      · exact Or.inr (by omega)

/--
**A window takes exactly what is not stale.**

Offered a number, the window either takes it and remembers it with the others, or refuses it and
stays as it is.
-/
theorem Tracks.accept {window : SlidingWindow n} {taken : List Nat} (h : Tracks window taken)
    (hn : 0 < n) (c : Nat) :
    (¬ Stale n taken c ∧ (window.accept c).2 = true ∧ Tracks (window.accept c).1 (taken ++ [c])) ∨
    (Stale n taken c ∧ window.accept c = (window, false)) := by
  unfold SlidingWindow.accept
  cases hhigh : window.highest with
  | none =>
    obtain rfl := h.none_iff.mp hhigh
    exact Or.inl ⟨by simp [Stale], rfl, tracks_first hn c⟩
  | some highest =>
    obtain ⟨hmax, hle⟩ := h.highest highest hhigh
    dsimp only
    by_cases hlt : highest < c
    · rw [if_pos hlt]
      refine Or.inl ⟨?_, rfl, h.above hn hhigh hlt⟩
      rintro (hmem | ⟨k, hk, hfar⟩)
      · exact absurd (hle c hmem) (by omega)
      · exact absurd (hle k hk) (by omega)
    · rw [if_neg hlt]
      by_cases hfar : n ≤ highest - c
      · rw [if_pos hfar]
        exact Or.inr ⟨Or.inr ⟨highest, hmax, by omega⟩, rfl⟩
      · rw [if_neg hfar]
        have hbit := h.seen highest hhigh (highest - c) (by omega)
        have hself : highest - (highest - c) = c := by omega
        rw [hself] at hbit
        by_cases hseen : window.seen.getLsbD (highest - c) = true
        · rw [if_pos hseen]
          exact Or.inr ⟨Or.inl (hbit.mp hseen).2, rfl⟩
        · rw [if_neg hseen]
          have hnew : c ∉ taken := fun hmem => hseen (hbit.mpr ⟨by omega, hmem⟩)
          refine Or.inl ⟨?_, rfl, h.inside hhigh (by omega) (by omega) hnew⟩
          rintro (hmem | ⟨k, hk, hfar'⟩)
          · exact hnew hmem
          · exact absurd (hle k hk) (by omega)

/-- Masking a bit leaves something exactly when the bit is set. -/
theorem and_twoPow_ne_zero (v : BitVec n) {i : Nat} (hi : i < n) :
    v &&& BitVec.twoPow n i ≠ 0#n ↔ v.getLsbD i = true := by
  have hbit : (BitVec.twoPow n i).getLsbD i = true := by
    rw [BitVec.getLsbD_twoPow]
    simp [hi]
  rw [BitVec.and_twoPow]
  split
  · next h =>
    refine ⟨fun _ => h, fun _ hzero => ?_⟩
    rw [hzero] at hbit
    simp at hbit
  · next h => exact ⟨fun hne => absurd rfl hne, fun hseen => absurd hseen h⟩

end SlidingWindow

end OxideTerm.Lib
