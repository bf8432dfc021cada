import OxideTerm.Lib.Utf8

/-!
# Text by byte positions

Searches that return a byte position and slices at byte positions, as the standard library of the
source has them. A slice that would begin or end inside a character, or outside the text, is none.
-/

namespace OxideTerm.Lib.Text

/-! ## Lengths in bytes -/

/-- `str::len`. -/
def byteLength (text : List Char) : Nat := (text.map Char.utf8Size).sum

@[simp] theorem byteLength_nil : byteLength [] = 0 := rfl

@[simp] theorem byteLength_cons (c : Char) (text : List Char) :
    byteLength (c :: text) = c.utf8Size + byteLength text := rfl

@[simp] theorem byteLength_append (a b : List Char) :
    byteLength (a ++ b) = byteLength a + byteLength b := by
  simp [byteLength]

/-! ## Slices -/

/-- `&text[from..]`. -/
def sliceFrom : List Char → Nat → Option (List Char)
  | text, 0 => some text
  | [], _ + 1 => none
  | c :: rest, n + 1 => if c.utf8Size ≤ n + 1 then sliceFrom rest (n + 1 - c.utf8Size) else none

/-- `&text[..to]`. -/
def sliceTo : List Char → Nat → Option (List Char)
  | _, 0 => some []
  | [], _ + 1 => none
  | c :: rest, n + 1 =>
    if c.utf8Size ≤ n + 1 then (sliceTo rest (n + 1 - c.utf8Size)).map (c :: ·) else none

/-- `&text[from..to]`. -/
def slice (text : List Char) (first last : Nat) : Option (List Char) :=
  if last < first then none else (sliceFrom text first).bind (sliceTo · (last - first))

@[simp] theorem sliceFrom_zero (text : List Char) : sliceFrom text 0 = some text := by
  cases text <;> rfl

@[simp] theorem sliceTo_zero (text : List Char) : sliceTo text 0 = some [] := by
  cases text <;> rfl

theorem sliceFrom_byteLength (b : List Char) :
    (a : List Char) → sliceFrom (a ++ b) (byteLength a) = some b
  | [] => sliceFrom_zero b
  | c :: a => by
    obtain ⟨n, hn⟩ : ∃ n, byteLength (c :: a) = n + 1 := by
      have hpos := c.utf8Size_pos
      exact ⟨byteLength (c :: a) - 1, by rw [byteLength_cons]; omega⟩
    have hrest : n + 1 - c.utf8Size = byteLength a := by
      rw [← hn, byteLength_cons, Nat.add_sub_cancel_left]
    rw [hn, List.cons_append, sliceFrom, hrest, if_pos (by rw [byteLength_cons] at hn; omega)]
    exact sliceFrom_byteLength b a

theorem sliceTo_byteLength (b : List Char) :
    (a : List Char) → sliceTo (a ++ b) (byteLength a) = some a
  | [] => sliceTo_zero b
  | c :: a => by
    obtain ⟨n, hn⟩ : ∃ n, byteLength (c :: a) = n + 1 := by
      have hpos := c.utf8Size_pos
      exact ⟨byteLength (c :: a) - 1, by rw [byteLength_cons]; omega⟩
    have hrest : n + 1 - c.utf8Size = byteLength a := by
      rw [← hn, byteLength_cons, Nat.add_sub_cancel_left]
    rw [hn, List.cons_append, sliceTo, hrest, if_pos (by rw [byteLength_cons] at hn; omega),
      sliceTo_byteLength b a]
    rfl

/-- A slice from a position leaves out so many bytes. -/
theorem exists_of_sliceFrom {rest : List Char} :
    (text : List Char) → (n : Nat) → sliceFrom text n = some rest →
      ∃ front, text = front ++ rest ∧ byteLength front = n
  | text, 0, h => by
    rw [sliceFrom_zero] at h
    cases h
    exact ⟨[], rfl, rfl⟩
  | [], n + 1, h => by
    rw [sliceFrom] at h
    cases h
  | c :: text, n + 1, h => by
    rw [sliceFrom] at h
    split at h
    next hle =>
      obtain ⟨front, htext, hfront⟩ := exists_of_sliceFrom text _ h
      refine ⟨c :: front, by rw [htext]; rfl, ?_⟩
      rw [byteLength_cons, hfront]
      omega
    next => cases h

/-- A slice up to a position has so many bytes. -/
theorem exists_of_sliceTo {front : List Char} :
    (text : List Char) → (n : Nat) → sliceTo text n = some front →
      ∃ rest, text = front ++ rest ∧ byteLength front = n
  | text, 0, h => by
    rw [sliceTo_zero] at h
    cases h
    exact ⟨text, rfl, rfl⟩
  | [], n + 1, h => by
    rw [sliceTo] at h
    cases h
  | c :: text, n + 1, h => by
    rw [sliceTo] at h
    split at h
    next hle =>
      obtain ⟨front', hfront', rfl⟩ := Option.map_eq_some_iff.mp h
      obtain ⟨rest, htext, hlength⟩ := exists_of_sliceTo text _ hfront'
      refine ⟨rest, by rw [htext]; rfl, ?_⟩
      rw [byteLength_cons, hlength]
      omega
    next => cases h

/-- A slice of a slice. -/
theorem sliceFrom_trans {text rest rest' : List Char} {i j : Nat}
    (h : sliceFrom text i = some rest) (h' : sliceFrom rest j = some rest') :
    sliceFrom text (i + j) = some rest' := by
  obtain ⟨front, rfl, rfl⟩ := exists_of_sliceFrom text i h
  obtain ⟨front', rfl, rfl⟩ := exists_of_sliceFrom rest j h'
  rw [← List.append_assoc, ← byteLength_append]
  exact sliceFrom_byteLength rest' (front ++ front')

/-! ## Searches -/

/-- `str::find` of a text. -/
def find (pattern : List Char) : List Char → Option Nat
  | [] => if pattern = [] then some 0 else none
  | c :: rest =>
    if pattern.isPrefixOf (c :: rest) then some 0
    else (find pattern rest).map (c.utf8Size + ·)

/-- `str::rfind` of a text. -/
def rfind (pattern : List Char) : List Char → Option Nat
  | [] => if pattern = [] then some 0 else none
  | c :: rest =>
    match rfind pattern rest with
    | some index => some (c.utf8Size + index)
    | none => if pattern.isPrefixOf (c :: rest) then some 0 else none

/-- What is found is there. -/
theorem exists_of_find {pattern : List Char} :
    (text : List Char) → {index : Nat} → find pattern text = some index →
      ∃ front rest, text = front ++ (pattern ++ rest) ∧ byteLength front = index
  | [], index, h => by
    rw [find] at h
    split at h
    next hpattern =>
      cases h
      exact ⟨[], [], by rw [hpattern]; rfl, rfl⟩
    next => cases h
  | c :: text, index, h => by
    rw [find] at h
    split at h
    next hprefix =>
      cases h
      obtain ⟨rest, hrest⟩ := List.isPrefixOf_iff_prefix.mp hprefix
      exact ⟨[], rest, hrest.symm, rfl⟩
    next =>
      obtain ⟨index', hindex', rfl⟩ := Option.map_eq_some_iff.mp h
      obtain ⟨front, rest, htext, hlength⟩ := exists_of_find text hindex'
      exact ⟨c :: front, rest, by rw [htext]; rfl, by rw [byteLength_cons, hlength]⟩

theorem exists_of_rfind {pattern : List Char} :
    (text : List Char) → {index : Nat} → rfind pattern text = some index →
      ∃ front rest, text = front ++ (pattern ++ rest) ∧ byteLength front = index
  | [], index, h => by
    rw [rfind] at h
    split at h
    next hpattern =>
      cases h
      exact ⟨[], [], by rw [hpattern]; rfl, rfl⟩
    next => cases h
  | c :: text, index, h => by
    rw [rfind] at h
    split at h
    next index' hindex' =>
      cases h
      obtain ⟨front, rest, htext, hlength⟩ := exists_of_rfind text hindex'
      exact ⟨c :: front, rest, by rw [htext]; rfl, by rw [byteLength_cons, hlength]⟩
    next =>
      split at h
      next hprefix =>
        cases h
        obtain ⟨rest, hrest⟩ := List.isPrefixOf_iff_prefix.mp hprefix
        exact ⟨[], rest, hrest.symm, rfl⟩
      next => cases h

/-- A character that is not found is not there. -/
theorem notMem_of_find {c : Char} : (text : List Char) → find [c] text = none → c ∉ text
  | [], _ => List.not_mem_nil
  | d :: text, h => by
    rw [find] at h
    split at h
    next => cases h
    next hprefix =>
      have hne : c ≠ d := by
        rintro rfl
        exact hprefix (by simp)
      rw [List.mem_cons, not_or]
      exact ⟨hne, notMem_of_find text (Option.map_eq_none_iff.mp h)⟩

/-- A text can be cut before and after what is found. -/
theorem slices_of_find {pattern text : List Char} {index : Nat} (h : find pattern text = some index) :
    (∃ front, sliceTo text index = some front) ∧
      ∃ rest, sliceFrom text (index + byteLength pattern) = some rest := by
  obtain ⟨front, rest, rfl, rfl⟩ := exists_of_find text h
  refine ⟨⟨front, sliceTo_byteLength _ front⟩, rest, ?_⟩
  rw [← List.append_assoc, ← byteLength_append]
  exact sliceFrom_byteLength rest (front ++ pattern)

/-- A text can be cut where something is found last. -/
theorem sliceFrom_of_rfind {pattern text : List Char} {index : Nat}
    (h : rfind pattern text = some index) : ∃ rest, sliceFrom text index = some (pattern ++ rest) := by
  obtain ⟨front, rest, rfl, rfl⟩ := exists_of_rfind text h
  exact ⟨rest, sliceFrom_byteLength _ front⟩

end OxideTerm.Lib.Text
