import Mathlib.Data.List.Flatten
import Mathlib.Data.List.Forall2
import Mathlib.Data.List.Infix

/-!
# Globs

A pattern with wildcards matches what can be split into parts, one for each of its symbols. A matcher
that compares symbols before it looks for wildcards takes a star in the value for the star of the
pattern: it finds the sparing matches only, in which a star that stands in front of a star of the
value takes nothing else (`Sparing`). Without stars in the value these are all matches.
-/

namespace OxideTerm.Lib

/-- The symbols with a meaning. -/
structure Wildcards (α : Type*) where
  star : α
  any : α
  apart : star ≠ any

namespace Wildcards

variable {α : Type*} {w : Wildcards α} {pattern value : List α} {c x : α}

/-! ## Matches -/

/-- What a symbol of a pattern takes of a value. -/
def Takes (w : Wildcards α) (c : α) (part : List α) : Prop :=
  c = w.star ∨ (c = w.any ∧ part.length = 1) ∨ part = [c]

/-- The value can be split into what the symbols of the pattern take. -/
def Matches (w : Wildcards α) (pattern value : List α) : Prop :=
  ∃ parts, List.Forall₂ w.Takes pattern parts ∧ parts.flatten = value

/-- One symbol against one symbol. -/
def Fits (w : Wildcards α) (c x : α) : Prop := c = w.any ∨ c = x

theorem matches_nil : w.Matches [] value ↔ value = [] := by
  constructor
  · rintro ⟨parts, hparts, rfl⟩
    rw [List.forall₂_nil_left_iff.mp hparts]
    rfl
  · rintro rfl
    exact ⟨[], .nil, rfl⟩

theorem matches_cons : w.Matches (c :: pattern) value ↔
    ∃ part rest, value = part ++ rest ∧ w.Takes c part ∧ w.Matches pattern rest := by
  constructor
  · rintro ⟨parts, hparts, rfl⟩
    obtain ⟨part, parts, hpart, hrest, rfl⟩ := List.forall₂_cons_left_iff.mp hparts
    exact ⟨part, parts.flatten, rfl, hpart, parts, hrest, rfl⟩
  · rintro ⟨part, rest, rfl, hpart, parts, hparts, rfl⟩
    exact ⟨part :: parts, .cons hpart hparts, rfl⟩

theorem takes_star (part : List α) : w.Takes w.star part := .inl rfl

theorem takes_iff (h : c ≠ w.star) {part : List α} :
    w.Takes c part ↔ ∃ x, part = [x] ∧ w.Fits c x := by
  constructor
  · rintro (hstar | ⟨hany, hpart⟩ | rfl)
    · exact absurd hstar h
    · obtain ⟨x, rfl⟩ := List.length_eq_one_iff.mp hpart
      exact ⟨x, rfl, .inl hany⟩
    · exact ⟨c, rfl, .inr rfl⟩
  · rintro ⟨x, rfl, hany | rfl⟩
    · exact .inr (.inl ⟨hany, rfl⟩)
    · exact .inr (.inr rfl)

/-! ## Sparing matches -/

/-- A star in front of a star of the value takes nothing else. -/
inductive Sparing (w : Wildcards α) : List α → List α → Prop
  | nil : Sparing w [] []
  | single {c x : α} {pattern value : List α} : c ≠ w.star → w.Fits c x →
      Sparing w pattern value → Sparing w (c :: pattern) (x :: value)
  | literal {pattern value : List α} : Sparing w pattern value →
      Sparing w (w.star :: pattern) (w.star :: value)
  | many {part pattern value : List α} : (part ++ value).head? ≠ some w.star →
      Sparing w pattern value → Sparing w (w.star :: pattern) (part ++ value)

/-- **Sparing matches are matches.** -/
theorem Sparing.matches (h : w.Sparing pattern value) : w.Matches pattern value := by
  induction h with
  | nil => exact matches_nil.mpr rfl
  | single hc hfits _ ih =>
    exact matches_cons.mpr ⟨[_], _, rfl, (takes_iff hc).mpr ⟨_, rfl, hfits⟩, ih⟩
  | literal _ ih => exact matches_cons.mpr ⟨[w.star], _, rfl, takes_star _, ih⟩
  | many _ _ ih => exact matches_cons.mpr ⟨_, _, rfl, takes_star _, ih⟩

theorem sparing_nil_left : w.Sparing [] value ↔ value = [] := by
  constructor
  · intro h
    cases h
    rfl
  · rintro rfl
    exact .nil

theorem sparing_nil_right : w.Sparing pattern [] ↔ ∀ c ∈ pattern, c = w.star := by
  constructor
  · intro h
    generalize hvalue : ([] : List α) = value at h
    induction h with
    | nil => exact fun c hc => absurd hc List.not_mem_nil
    | single => cases hvalue
    | literal => cases hvalue
    | many _ _ ih =>
      exact List.forall_mem_cons.mpr ⟨rfl, ih (List.append_eq_nil_iff.mp hvalue.symm).2.symm⟩
  · intro h
    induction pattern with
    | nil => exact .nil
    | cons c pattern ih =>
      obtain ⟨rfl, hpattern⟩ := List.forall_mem_cons.mp h
      exact @Sparing.many _ w [] pattern [] (by simp) (ih hpattern)

theorem sparing_cons_of_ne (hc : c ≠ w.star) : w.Sparing (c :: pattern) (x :: value) ↔
    w.Fits c x ∧ w.Sparing pattern value := by
  constructor
  · intro h
    generalize hwhole : x :: value = whole at h
    cases h with
    | single _ hfits hrest =>
      obtain ⟨rfl, rfl⟩ := List.cons.inj hwhole
      exact ⟨hfits, hrest⟩
    | literal => exact absurd rfl hc
    | many => exact absurd rfl hc
  · rintro ⟨hfits, hrest⟩
    exact .single hc hfits hrest

/-- A star takes something in front of the rest. -/
theorem Sparing.exists_suffix (h : w.Sparing (w.star :: pattern) value) :
    ∃ rest, rest <:+ value ∧ w.Sparing pattern rest := by
  cases h with
  | single hc => exact absurd rfl hc
  | literal hrest => exact ⟨_, List.suffix_cons _ _, hrest⟩
  | many _ hrest => exact ⟨_, List.suffix_append _ _, hrest⟩

theorem sparing_star_of_head (h : value.head? ≠ some w.star) :
    w.Sparing (w.star :: pattern) value ↔ ∃ rest, rest <:+ value ∧ w.Sparing pattern rest := by
  constructor
  · exact Sparing.exists_suffix
  · rintro ⟨rest, ⟨part, rfl⟩, hrest⟩
    exact .many h hrest

theorem sparing_star_star :
    w.Sparing (w.star :: pattern) (w.star :: value) ↔ w.Sparing pattern value := by
  constructor
  · intro h
    generalize hwhole : w.star :: value = whole at h
    cases h with
    | single hc => exact absurd rfl hc
    | literal hrest =>
      obtain ⟨-, rfl⟩ := List.cons.inj hwhole
      exact hrest
    | many hhead =>
      rw [← hwhole] at hhead
      exact absurd rfl hhead
  · exact .literal

/-- **A later start is not left behind.** If a stretch of the pattern fits the value symbol by
symbol, a sparing match of it that starts later ends later. -/
theorem Sparing.align {stretch front back late : List α} (hfits : List.Forall₂ w.Fits stretch front)
    (hlate : late <:+ front ++ back) (h : w.Sparing (stretch ++ pattern) late) :
    ∃ rest, rest <:+ back ∧ w.Sparing pattern rest := by
  induction hfits generalizing late with
  | nil => exact ⟨late, hlate, h⟩
  | @cons c x stretch front hc _ ih =>
    rcases List.suffix_cons_iff.mp hlate with rfl | hlate
    · by_cases hstar : c = w.star
      · subst hstar
        obtain rfl : w.star = x := hc.resolve_left w.apart
        exact ih (List.suffix_refl _) (sparing_star_star.mp h)
      · exact ih (List.suffix_refl _) ((sparing_cons_of_ne hstar).mp h).2
    · by_cases hstar : c = w.star
      · subst hstar
        obtain ⟨rest, hrest, hsparing⟩ := Sparing.exists_suffix h
        exact ih (hrest.trans hlate) hsparing
      · cases late with
        | nil =>
          exact absurd (sparing_nil_right.mp h c List.mem_cons_self) hstar
        | cons y late =>
          exact ih ((List.suffix_cons y late).trans hlate) ((sparing_cons_of_ne hstar).mp h).2

end Wildcards

end OxideTerm.Lib
