import Mathlib

/-!
# Text, character by character

Splitting, suffixes and decimal numbers, as the standard library of the source has them.
-/

namespace OxideTerm.Lib.Text

/-! ## Splitting -/

/-- `str::split` at a character. -/
def split (c : Char) : List Char → List (List Char)
  | [] => [[]]
  | x :: rest =>
    if x = c then [] :: split c rest
    else
      match split c rest with
      | [] => [[x]]
      | part :: parts => (x :: part) :: parts

/-- `str::split_once` at a character. -/
def splitOnce (c : Char) : List Char → Option (List Char × List Char)
  | [] => none
  | x :: rest =>
    if x = c then some ([], rest)
    else (splitOnce c rest).map fun parts => (x :: parts.1, parts.2)

/-- `str::strip_suffix`. -/
def stripSuffix (suffix text : List Char) : Option (List Char) :=
  if suffix.isSuffixOf text then some (text.take (text.length - suffix.length)) else none

theorem split_append {c : Char} (rest : List Char) :
    (part : List Char) → c ∉ part → split c (part ++ c :: rest) = part :: split c rest
  | [], _ => by simp [split]
  | x :: part, h => by
    rw [List.mem_cons, not_or] at h
    rw [List.cons_append, split, if_neg (Ne.symm h.1), split_append rest part h.2]

theorem split_of_notMem {c : Char} : (part : List Char) → c ∉ part → split c part = [part]
  | [], _ => rfl
  | x :: part, h => by
    rw [List.mem_cons, not_or] at h
    rw [split, if_neg (Ne.symm h.1), split_of_notMem part h.2]

/-- Parts are free of what is split at, and made of the text. -/
theorem mem_of_mem_split {c : Char} : ∀ {text part : List Char}, part ∈ split c text →
    c ∉ part ∧ ∀ x ∈ part, x ∈ text
  | [], part, h => by
    rw [List.mem_singleton.mp h]
    exact ⟨List.not_mem_nil, fun x hx => hx⟩
  | x :: text, part, h => by
    rw [split] at h
    split at h
    · rcases List.mem_cons.mp h with rfl | h
      · exact ⟨List.not_mem_nil, fun y hy => (by cases hy)⟩
      · obtain ⟨hfree, hmem⟩ := mem_of_mem_split h
        exact ⟨hfree, fun y hy => List.mem_cons_of_mem x (hmem y hy)⟩
    · next hx =>
      split at h
      · rw [List.mem_singleton.mp h]
        exact ⟨by simpa using Ne.symm hx, fun y hy => List.mem_singleton.mp hy ▸ List.mem_cons_self⟩
      · next first parts hsplit =>
        rcases List.mem_cons.mp h with rfl | h
        · obtain ⟨hfree, hmem⟩ := mem_of_mem_split (hsplit ▸ List.mem_cons_self)
          refine ⟨by simp [hfree, Ne.symm hx], fun y hy => ?_⟩
          rcases List.mem_cons.mp hy with rfl | hy
          · exact List.mem_cons_self
          · exact List.mem_cons_of_mem x (hmem y hy)
        · obtain ⟨hfree, hmem⟩ := mem_of_mem_split (hsplit ▸ List.mem_cons_of_mem first h)
          exact ⟨hfree, fun y hy => List.mem_cons_of_mem x (hmem y hy)⟩

/-- Splitting gives back the parts that were joined. -/
theorem split_intercalate {c : Char} : ∀ {parts : List (List Char)}, parts ≠ [] →
    (∀ part ∈ parts, c ∉ part) → split c ([c].intercalate parts) = parts
  | [], h, _ => absurd rfl h
  | [part], _, h => by
    rw [List.intercalate_singleton, split_of_notMem part (h part List.mem_cons_self)]
  | part :: next :: parts, _, h => by
    obtain ⟨hpart, hparts⟩ := List.forall_mem_cons.mp h
    rw [List.intercalate_cons_of_ne_nil (List.cons_ne_nil _ _), List.append_assoc,
      List.singleton_append, split_append _ _ hpart,
      split_intercalate (List.cons_ne_nil _ _) hparts]

theorem splitOnce_append {c : Char} (rest : List Char) :
    (part : List Char) → c ∉ part → splitOnce c (part ++ c :: rest) = some (part, rest)
  | [], _ => by simp [splitOnce]
  | x :: part, h => by
    rw [List.mem_cons, not_or] at h
    rw [List.cons_append, splitOnce, if_neg (Ne.symm h.1), splitOnce_append rest part h.2]
    rfl

theorem splitOnce_of_notMem {c : Char} : (text : List Char) → c ∉ text → splitOnce c text = none
  | [], _ => rfl
  | x :: text, h => by
    rw [List.mem_cons, not_or] at h
    rw [splitOnce, if_neg (Ne.symm h.1), splitOnce_of_notMem text h.2]
    rfl

theorem stripSuffix_append (text suffix : List Char) :
    stripSuffix suffix (text ++ suffix) = some text := by
  have hsuffix : suffix.isSuffixOf (text ++ suffix) = true :=
    List.isSuffixOf_iff_suffix.mpr (List.suffix_append text suffix)
  rw [stripSuffix, if_pos hsuffix, List.length_append, Nat.add_sub_cancel, List.take_left]

/-! ## Numbers -/

/-- The digits of `str::parse`, at least one. -/
def parseDigits (digits : List Char) : Option Nat :=
  if digits = [] ∨ ¬ digits.all Char.isDigit then none
  else
    let value := Nat.ofDigitChars 10 digits 0
    if value < 2 ^ 64 then some value else none

/-- `str::parse::<u64>`. -/
def parseU64 (text : List Char) : Option Nat :=
  match text with
  | '+' :: digits => parseDigits digits
  | digits => parseDigits digits

theorem isDigit_of_mem_repr {n : Nat} {c : Char} (h : c ∈ (toString n).toList) :
    c.isDigit = true := by
  rw [Nat.toString_eq_repr, Nat.toList_repr] at h
  exact Nat.isDigit_of_mem_toDigits (by omega) (by omega) h

theorem toString_ne_nil (n : Nat) : (toString n).toList ≠ [] := by
  rw [Nat.toString_eq_repr, Nat.toList_repr]
  exact Nat.toDigits_ne_nil

theorem notMem_repr {n : Nat} {c : Char} (h : c.isDigit = false) : c ∉ (toString n).toList := by
  intro hmem
  rw [isDigit_of_mem_repr hmem] at h
  exact absurd h (by decide)

/-- **Reading back a number.** -/
theorem parseU64_repr {n : Nat} (h : n < 2 ^ 64) : parseU64 (toString n).toList = some n := by
  have hdigits : parseDigits (toString n).toList = some n := by
    have hall : (toString n).toList.all Char.isDigit = true :=
      List.all_eq_true.mpr fun c hc => isDigit_of_mem_repr hc
    have hvalue : Nat.ofDigitChars 10 (toString n).toList 0 = n := by
      rw [Nat.toString_eq_repr, Nat.toList_repr]
      exact Nat.ofDigitChars_ten_toDigits
    rw [parseDigits, if_neg (by rw [hall]; simp)]
    simp only [hvalue]
    rw [if_pos h]
  unfold parseU64
  split
  · next digits hplus =>
    have hmem : '+' ∈ (toString n).toList := by
      rw [hplus]
      exact List.mem_cons_self
    exact absurd hmem (notMem_repr (by decide))
  · exact hdigits

end OxideTerm.Lib.Text
