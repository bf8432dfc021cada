import Mathlib.Tactic.Ring
import OxideTerm.Lib.Bytes

/-!
# Decimal numerals

A number as its digits, with or without zeros in front, and how many bytes at the front of a text
are digits.
-/

namespace OxideTerm.Lib

def isDigit (byte : UInt8) : Bool := 0x30 ≤ byte && byte ≤ 0x39

/-- The value of a digit. -/
def digitValue (byte : UInt8) : Nat := byte.toNat - 48

/-- The number of a string of digits, after those of `value`. -/
def numeralFrom (value : Nat) (token : Bytes) : Nat :=
  token.foldl (fun value byte => value * 10 + digitValue byte) value

/-- The bytes are digits of this number; there may be zeros in front. -/
structure Numeral (n : Nat) (token : Bytes) : Prop where
  ne_nil : token ≠ []
  digits : ∀ byte ∈ token, isDigit byte = true
  value : numeralFrom 0 token = n

theorem numeral_of_all {n : Nat} {token : Bytes} (hne : token ≠ [])
    (hdigits : token.all isDigit = true) (hvalue : numeralFrom 0 token = n) : Numeral n token :=
  ⟨hne, List.all_eq_true.mp hdigits, hvalue⟩

theorem isDigit_iff (byte : UInt8) : isDigit byte = true ↔ 48 ≤ byte.toNat ∧ byte.toNat ≤ 57 := by
  have hlow : (0x30 : UInt8).toNat = 48 := rfl
  have hhigh : (0x39 : UInt8).toNat = 57 := rfl
  rw [isDigit, Bool.and_eq_true, decide_eq_true_iff, decide_eq_true_iff, UInt8.le_iff_toNat_le,
    UInt8.le_iff_toNat_le, hlow, hhigh]

@[simp] theorem numeralFrom_nil (value : Nat) : numeralFrom value [] = value := rfl

@[simp] theorem numeralFrom_cons (value : Nat) (byte : UInt8) (token : Bytes) :
    numeralFrom value (byte :: token) = numeralFrom (value * 10 + digitValue byte) token :=
  List.foldl_cons ..

theorem numeralFrom_append (value : Nat) (token more : Bytes) :
    numeralFrom value (token ++ more) = numeralFrom (numeralFrom value token) more :=
  List.foldl_append

/-- Reading digits as long as the number stays below a bound. -/
theorem foldlM_bounded_eq_some_iff {α : Type} {p : α → Prop} [DecidablePred p] {f : Nat → α → Nat}
    {bound : Nat} (hf : ∀ value a, value ≤ f value a) (n : Nat) : ∀ (l : List α) (value : Nat),
      value < bound → (l.foldlM (fun value a =>
          if p a ∧ f value a < bound then some (f value a) else none) value = some n ↔
        (∀ a ∈ l, p a) ∧ l.foldl f value = n ∧ n < bound)
  | [], value, hvalue => by
    rw [List.foldlM_nil, List.foldl_nil]
    constructor
    · intro h
      obtain rfl : value = n := Option.some.inj h
      exact ⟨by simp, rfl, hvalue⟩
    · rintro ⟨-, rfl, -⟩
      rfl
  | a :: l, value, hvalue => by
    have hle : ∀ (l : List α) (value : Nat), value ≤ l.foldl f value := by
      intro l
      induction l with
      | nil => exact fun value => Nat.le_refl value
      | cons b l ih => exact fun value => Nat.le_trans (hf value b) (ih (f value b))
    rw [List.foldlM_cons, List.foldl_cons, List.forall_mem_cons]
    split
    · next hstep =>
      rw [Option.bind_eq_bind, Option.bind_some, foldlM_bounded_eq_some_iff hf n l _ hstep.2]
      constructor
      · exact fun h => ⟨⟨hstep.1, h.1⟩, h.2⟩
      · exact fun h => ⟨h.1.2, h.2⟩
    · next hstep =>
      refine iff_of_false (by simp) ?_
      rintro ⟨⟨ha, -⟩, hn, hlt⟩
      have hbound := hle l (f value a)
      exact hstep ⟨ha, by omega⟩

/-! ## The numeral without zeros in front -/

def digit (n : Nat) : UInt8 := UInt8.ofNat (48 + n)

/-- The numeral that numbers are written as. -/
def numeral (n : Nat) : Bytes := if n < 10 then [digit n] else numeral (n / 10) ++ [digit (n % 10)]
termination_by n
decreasing_by omega

theorem toNat_digit {n : Nat} (h : n < 10) : (digit n).toNat = 48 + n := by
  rw [digit, UInt8.toNat_ofNat']
  omega

theorem isDigit_digit {n : Nat} (h : n < 10) : isDigit (digit n) = true := by
  rw [isDigit_iff, toNat_digit h]
  omega

theorem digitValue_digit {n : Nat} (h : n < 10) : digitValue (digit n) = n := by
  rw [digitValue, toNat_digit h]
  omega

/-- **What numbers are written as is a numeral.** -/
theorem numeral_numeral (n : Nat) : Numeral n (numeral n) := by
  induction n using Nat.strong_induction_on with
  | _ n ih =>
    rw [numeral]
    split
    · next hlt =>
      refine ⟨by simp, ?_, ?_⟩
      · intro byte hbyte
        rw [List.mem_singleton.mp hbyte]
        exact isDigit_digit hlt
      · rw [numeralFrom_cons, numeralFrom_nil, digitValue_digit hlt]
        omega
    · next hge =>
      have hfront := ih (n / 10) (by omega)
      have hlast : n % 10 < 10 := Nat.mod_lt _ (by decide)
      refine ⟨by simp, ?_, ?_⟩
      · intro byte hbyte
        rcases List.mem_append.mp hbyte with hbyte | hbyte
        · exact hfront.digits byte hbyte
        · rw [List.mem_singleton.mp hbyte]
          exact isDigit_digit hlast
      · rw [numeralFrom_append, hfront.value, numeralFrom_cons, numeralFrom_nil,
          digitValue_digit hlast]
        omega

/-! ## Digits at the front -/

/-- The text does not begin with a digit. -/
def NoDigitFirst (bytes : Bytes) : Prop := ∀ byte ∈ bytes.head?, isDigit byte = false

theorem noDigitFirst_nil : NoDigitFirst [] := by simp [NoDigitFirst]

theorem noDigitFirst_cons {byte : UInt8} (h : isDigit byte = false) (bytes : Bytes) :
    NoDigitFirst (byte :: bytes) := by
  simpa [NoDigitFirst] using h

/-- Where a text is cut behind its digits. -/
theorem takeWhile_isDigit {token rest : Bytes} (htoken : ∀ byte ∈ token, isDigit byte = true)
    (hrest : NoDigitFirst rest) :
    (token ++ rest).takeWhile isDigit = token ∧ (token ++ rest).dropWhile isDigit = rest := by
  have hstop : rest.takeWhile isDigit = [] ∧ rest.dropWhile isDigit = rest := by
    cases rest with
    | nil => exact ⟨rfl, rfl⟩
    | cons byte rest =>
      have hbyte : isDigit byte = false := hrest byte rfl
      rw [List.takeWhile_cons, List.dropWhile_cons, hbyte]
      exact ⟨rfl, rfl⟩
  rw [List.takeWhile_append_of_pos htoken, List.dropWhile_append_of_pos htoken, hstop.1, hstop.2,
    List.append_nil]
  exact ⟨rfl, rfl⟩

theorem noDigitFirst_dropWhile (bytes : Bytes) : NoDigitFirst (bytes.dropWhile isDigit) := by
  intro byte hbyte
  have hne := List.head?_dropWhile_not isDigit bytes
  rw [hbyte] at hne
  simpa using hne

end OxideTerm.Lib
