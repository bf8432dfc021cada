import OxideTerm.Editor.Utf16

/-!
# Character boundaries

A string can be cut exactly at its character boundaries, which are the boundaries of the lengths in
bytes; the boundaries of the lengths in UTF-16 units are the lengths of what is cut off.
-/

namespace OxideTerm.Editor

open Lib Lib.Text

variable {value front back : List Char} {n m : Nat}

/-- The positions of a string in bytes that are not inside a character. -/
abbrev IsByteBoundary (value : List Char) (n : Nat) : Prop := IsBoundary Char.utf8Size value n

/-- The positions of a string in UTF-16 units that are not inside a surrogate pair. -/
abbrev IsScalarBoundary (value : List Char) (n : Nat) : Prop := IsBoundary lenUtf16 value n

theorem utf8Size_pos (ch : Char) : 0 < ch.utf8Size := ch.utf8Size_pos

theorem lenUtf16_pos (ch : Char) : 0 < lenUtf16 ch := by
  rw [lenUtf16]
  split <;> omega

theorem byteLength_eq_weight : byteLength value = weight Char.utf8Size value := rfl

@[simp] theorem utf16Length_nil : utf16Length [] = 0 := rfl

@[simp] theorem utf16Length_cons (ch : Char) :
    utf16Length (ch :: value) = lenUtf16 ch + utf16Length value := rfl

@[simp] theorem utf16Length_append :
    utf16Length (front ++ back) = utf16Length front + utf16Length back := weight_append

theorem utf16Length_newline : utf16Length ['\n'] = 1 := rfl

/-! ## Cuts -/

theorem isByteBoundary_iff_sliceTo :
    IsByteBoundary value n ↔ ∃ front, sliceTo value n = some front := by
  constructor
  · rintro ⟨front, back, rfl, rfl⟩
    exact ⟨front, sliceTo_byteLength back front⟩
  · rintro ⟨front, h⟩
    obtain ⟨back, rfl, rfl⟩ := exists_of_sliceTo value n h
    exact ⟨front, back, rfl, rfl⟩

theorem isCharBoundary_iff : (value : List Char) → (n : Nat) →
    (isCharBoundary value n = true ↔ IsByteBoundary value n)
  | value, 0 => by
    cases value <;> exact ⟨fun _ => isBoundary_zero, fun _ => rfl⟩
  | [], n + 1 => by
    rw [IsByteBoundary, isBoundary_nil]
    simp [isCharBoundary]
  | ch :: rest, n + 1 => by
    have hcons : IsByteBoundary (ch :: rest) (n + 1) ↔ _ := isBoundary_cons
    rw [isCharBoundary, Bool.and_eq_true, decide_eq_true_eq, isCharBoundary_iff rest, hcons]
    simp

/-! ## Floors -/

/-- **The floor of a position is the last boundary not behind it.** -/
theorem floorCharBoundary_isFloor (value : List Char) (n : Nat) :
    IsFloor Char.utf8Size value n (floorCharBoundary value n) := by
  induction n with
  | zero => exact ⟨isBoundary_zero, Nat.le_refl 0, fun _ _ h => h⟩
  | succ n ih =>
    rw [floorCharBoundary]
    split
    next h => exact ((isCharBoundary_iff value _).mp h).isFloor
    next h =>
      obtain ⟨hboundary, hle, hlast⟩ := ih
      refine ⟨hboundary, Nat.le_succ_of_le hle, fun k hk hkn => hlast k hk ?_⟩
      have hne : k ≠ n + 1 := by
        rintro rfl
        exact h ((isCharBoundary_iff value _).mpr hk)
      omega

theorem floorCharBoundary_of_isBoundary (h : IsByteBoundary value n) :
    floorCharBoundary value n = n :=
  (floorCharBoundary_isFloor value n).unique h.isFloor

theorem floorCharBoundary_le : floorCharBoundary value n ≤ n :=
  (floorCharBoundary_isFloor value n).2.1

/-! ## From bytes to units -/

/-- **What is cut off at a byte boundary ends at a scalar boundary.** -/
theorem isScalarBoundary_of_sliceTo (h : sliceTo value n = some front) :
    IsScalarBoundary value (utf16Length front) := by
  obtain ⟨back, rfl, -⟩ := exists_of_sliceTo value n h
  exact isBoundary_append

theorem utf16OffsetForByteIndex_of_isBoundary (h : IsByteBoundary value n) :
    ∃ m, utf16OffsetForByteIndex value n = some m ∧ IsScalarBoundary value m := by
  obtain ⟨front, hfront⟩ := isByteBoundary_iff_sliceTo.mp h
  have hle : n ≤ byteLength value := h.le
  refine ⟨utf16Length front, ?_, isScalarBoundary_of_sliceTo hfront⟩
  rw [utf16OffsetForByteIndex, Nat.min_eq_left hle, floorCharBoundary_of_isBoundary h, hfront]
  rfl

/-- The byte index of an offset is behind characters of the text, however far they reach. -/
theorem byteIndexForUtf16From_isBoundary (offset : Nat) : (value : List Char) →
    (byteIndex utf16Count : Nat) → ∃ n, IsByteBoundary value n ∧
      byteIndexForUtf16From offset value byteIndex utf16Count = byteIndex + n
  | [], _, _ => ⟨0, isBoundary_zero, rfl⟩
  | ch :: rest, byteIndex, utf16Count => by
    rw [byteIndexForUtf16From]
    split
    next => exact ⟨0, isBoundary_zero, rfl⟩
    next =>
      obtain ⟨n, hn, heq⟩ := byteIndexForUtf16From_isBoundary offset rest
        (byteIndex + ch.utf8Size) (utf16Count + lenUtf16 ch)
      exact ⟨ch.utf8Size + n, hn.right (a := [ch]), by rw [heq, Nat.add_assoc]⟩

theorem byteIndexForUtf16_isBoundary (offset : Nat) :
    IsByteBoundary value (byteIndexForUtf16 value offset) := by
  obtain ⟨n, hn, heq⟩ := byteIndexForUtf16From_isBoundary offset value 0 0
  rw [byteIndexForUtf16, heq, Nat.zero_add]
  exact hn

end OxideTerm.Editor
