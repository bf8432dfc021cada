import OxideTerm.Lib.Numeral
import OxideTerm.Tmux.Protocol

/-!
# Reading fields

What is read from the fields of a line: numbers, and what stands before a delimiter and behind it.
-/

namespace OxideTerm.Tmux

open OxideTerm.Lib

/-! ## Numbers -/

/-- One digit of a number. -/
def decimalStep (value : Nat) (byte : UInt8) : Option Nat := do
  let digit ← if 0x30 ≤ byte then some (byte - 0x30).toNat else none
  let value ← if digit ≤ 9 then some value else none
  let value ← if value * 10 < 2 ^ 64 then some (value * 10) else none
  if value + digit < 2 ^ 64 then some (value + digit) else none

theorem parseDecimal_eq (token : Bytes) :
    parseDecimal token = if token = [] then none else token.foldlM decimalStep 0 := rfl

theorem decimalStep_eq (value : Nat) (byte : UInt8) : decimalStep value byte =
    if isDigit byte = true ∧ value * 10 + digitValue byte < 2 ^ 64 then
      some (value * 10 + digitValue byte)
    else none := by
  have hlow : (0x30 : UInt8).toNat = 48 := rfl
  simp only [isDigit_iff, digitValue]
  unfold decimalStep
  by_cases hle : (0x30 : UInt8) ≤ byte
  · have hdigit : (byte - 0x30).toNat = byte.toNat - 48 := by
      rw [UInt8.toNat_sub_of_le _ _ hle, hlow]
    rw [UInt8.le_iff_toNat_le, hlow] at hle
    rw [if_pos (by rwa [UInt8.le_iff_toNat_le, hlow]), hdigit]
    simp only [Option.bind_eq_bind, Option.bind_some]
    by_cases hnine : byte.toNat - 48 ≤ 9
    · simp only [if_pos hnine]
      by_cases htens : value * 10 < 2 ^ 64
      · simp only [if_pos htens]
        refine if_congr ?_ rfl rfl
        constructor
        · exact fun h => ⟨⟨hle, by omega⟩, h⟩
        · exact fun h => h.2
      · rw [if_neg htens, if_neg (by omega)]
        rfl
    · rw [if_neg hnine, if_neg (by omega)]
      rfl
  · rw [if_neg hle, if_neg]
    · rfl
    · rw [UInt8.le_iff_toNat_le, hlow] at hle
      omega

theorem foldlM_decimalStep (token : Bytes) (n : Nat) : token.foldlM decimalStep 0 = some n ↔
    (∀ byte ∈ token, isDigit byte = true) ∧ numeralFrom 0 token = n ∧ n < 2 ^ 64 := by
  have hstep : decimalStep = fun value byte =>
      if isDigit byte = true ∧ value * 10 + digitValue byte < 2 ^ 64 then
        some (value * 10 + digitValue byte)
      else none := funext fun value => funext fun byte => decimalStep_eq value byte
  rw [hstep]
  exact foldlM_bounded_eq_some_iff (fun value byte => by omega) n token 0 (by decide)

/-- **Numbers are numerals that fit.** -/
theorem parseDecimal_eq_some_iff {token : Bytes} {n : Nat} :
    parseDecimal token = some n ↔ Numeral n token ∧ n < 2 ^ 64 := by
  rw [parseDecimal_eq]
  split
  · next hnil =>
    refine iff_of_false (by simp) ?_
    rintro ⟨hnumeral, -⟩
    exact hnumeral.ne_nil hnil
  · next hne =>
    rw [foldlM_decimalStep]
    constructor
    · rintro ⟨hdigits, hvalue, hlt⟩
      exact ⟨⟨hne, hdigits, hvalue⟩, hlt⟩
    · rintro ⟨hnumeral, hlt⟩
      exact ⟨hnumeral.digits, hnumeral.value, hlt⟩

/-! ## Delimiters -/

theorem splitOnce_append {front : Bytes} {delimiter : UInt8} (h : delimiter ∉ front) (rest : Bytes) :
    splitOnce (front ++ delimiter :: rest) delimiter = (front, rest) := by
  have hfront : ∀ byte ∈ front, decide (byte ≠ delimiter) = true := by
    intro byte hbyte
    exact decide_eq_true (ne_of_mem_of_not_mem hbyte h)
  rw [splitOnce, List.takeWhile_append_of_pos hfront, List.dropWhile_append_of_pos hfront]
  simp

theorem space_notMem_of_numeral {n : Nat} {token : Bytes} (h : Numeral n token) :
    space ∉ token := by
  intro hspace
  exact absurd (h.digits space hspace) (by decide)

end OxideTerm.Tmux
