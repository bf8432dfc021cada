import Mathlib.Data.Nat.Bitwise
import Mathlib.Logic.Function.Iterate
import OxideTerm.Modem.Crc

/-!
# Zero check values

The rounds of the shorter check value are linear and lose nothing. So the check value of a text
that is followed by two bytes is zero just if they are the check value of the text; and hardly any
check value is the same after two bytes of zeros.
-/

namespace OxideTerm.Modem

open OxideTerm.Lib

/-! ## Linearity -/

theorem topBit_iff (crc : UInt16) : crc &&& 0x8000 ≠ 0 ↔ crc.toBitVec.getLsbD 15 = true := by
  have h : (crc &&& 0x8000).toBitVec =
      if crc.toBitVec.getLsbD 15 then BitVec.twoPow 16 15 else 0#16 :=
    BitVec.and_twoPow crc.toBitVec 15
  rw [ne_eq, ← UInt16.toBitVec_inj, h]
  cases crc.toBitVec.getLsbD 15 <;> simp

/-- A round is doubling, corrected where the top bit falls out. -/
theorem crc16Shift_eq (crc : UInt16) :
    crc16Shift crc = (crc <<< 1) ^^^ (if crc.toBitVec.getLsbD 15 then 0x1021 else 0) := by
  unfold crc16Shift
  by_cases h : crc.toBitVec.getLsbD 15 = true
  · rw [if_pos ((topBit_iff crc).mpr h), if_pos h]
  · rw [if_neg (mt (topBit_iff crc).mp h), if_neg h, UInt16.xor_zero]

theorem shiftLeft_xor (a b : UInt16) : (a ^^^ b) <<< 1 = (a <<< 1) ^^^ (b <<< 1) := by
  apply UInt16.toBitVec_inj.mp
  exact BitVec.shiftLeft_xor_distrib a.toBitVec b.toBitVec 1

theorem xor_xor_xor_comm (a b c d : UInt16) : a ^^^ b ^^^ (c ^^^ d) = a ^^^ c ^^^ (b ^^^ d) := by
  ac_rfl

/-- **A round is linear.** -/
theorem crc16Shift_xor (a b : UInt16) :
    crc16Shift (a ^^^ b) = crc16Shift a ^^^ crc16Shift b := by
  have htop : (a ^^^ b).toBitVec.getLsbD 15 =
      (a.toBitVec.getLsbD 15 ^^ b.toBitVec.getLsbD 15) := by
    rw [UInt16.toBitVec_xor, BitVec.getLsbD_xor]
  rw [crc16Shift_eq, crc16Shift_eq a, crc16Shift_eq b, shiftLeft_xor, htop, xor_xor_xor_comm]
  congr 1
  cases a.toBitVec.getLsbD 15 <;> cases b.toBitVec.getLsbD 15 <;> rfl

theorem crc16Shift_iterate_xor (n : Nat) (a b : UInt16) :
    crc16Shift^[n] (a ^^^ b) = crc16Shift^[n] a ^^^ crc16Shift^[n] b := by
  induction n generalizing a b with
  | zero => rfl
  | succ n ih =>
    show crc16Shift^[n] (crc16Shift (a ^^^ b)) = _
    rw [crc16Shift_xor, ih]
    rfl

theorem toNat_shiftLeft_one (c : UInt16) : (c <<< 1).toNat = c.toNat * 2 % 2 ^ 16 := by
  rw [UInt16.toNat_shiftLeft]
  show (c.toNat <<< 1) % 2 ^ 16 = _
  rw [Nat.shiftLeft_eq]

/-- Without its top bit a value is doubled to itself only if it is zero. -/
theorem eq_zero_of_shiftLeft_eq {c : UInt16} (h : c <<< 1 = c) : c = 0 := by
  have hnat := congrArg UInt16.toNat h
  have hlt := c.toNat_lt
  rw [toNat_shiftLeft_one] at hnat
  apply UInt16.toNat_inj.mp
  show c.toNat = 0
  omega

theorem shiftLeft_xor_inj {a b : UInt16} (h : (a <<< 1) ^^^ a = (b <<< 1) ^^^ b) : a = b := by
  rw [← UInt16.xor_eq_zero_iff, xor_xor_xor_comm, ← shiftLeft_xor, UInt16.xor_eq_zero_iff] at h
  exact UInt16.xor_eq_zero_iff.mp (eq_zero_of_shiftLeft_eq h)

/-! ## Values that a round keeps -/

/-- What a round changes. -/
def crc16Change (crc : UInt16) : UInt16 := crc16Shift crc ^^^ crc

theorem crc16Change_eq (crc : UInt16) : crc16Change crc =
    ((crc <<< 1) ^^^ crc) ^^^ (if crc.toBitVec.getLsbD 15 then 0x1021 else 0) := by
  rw [crc16Change, crc16Shift_eq]
  ac_rfl

theorem crc16Change_eq_zero_iff (crc : UInt16) :
    crc16Change crc = 0 ↔ crc = 0 ∨ crc = 0xf01f := by
  constructor
  · intro h
    rw [crc16Change_eq, UInt16.xor_eq_zero_iff] at h
    cases htop : crc.toBitVec.getLsbD 15 with
    | false =>
      rw [htop] at h
      exact .inl (shiftLeft_xor_inj (h.trans (by decide)))
    | true =>
      rw [htop] at h
      exact .inr (shiftLeft_xor_inj (h.trans (by decide)))
  · rintro (rfl | rfl) <;> decide

/-- The value that a round keeps is not what a round changes. -/
theorem crc16Change_ne (crc : UInt16) : crc16Change crc ≠ 0xf01f := by
  intro h
  rw [crc16Change_eq] at h
  cases htop : crc.toBitVec.getLsbD 15 with
  | false =>
    rw [htop] at h
    have hcrc : crc = 0xaff5 := shiftLeft_xor_inj (by
      rw [if_neg Bool.false_ne_true, UInt16.xor_zero] at h
      exact h.trans (by decide))
    rw [hcrc] at htop
    exact absurd htop (by decide)
  | true =>
    rw [htop, if_pos rfl] at h
    have hcrc : crc = 0x5fea := shiftLeft_xor_inj (by
      have hcancel := congrArg (· ^^^ (0x1021 : UInt16)) h
      change crc <<< 1 ^^^ crc ^^^ 0x1021 ^^^ 0x1021 = 0xf01f ^^^ 0x1021 at hcancel
      rw [UInt16.xor_assoc, UInt16.xor_self, UInt16.xor_zero] at hcancel
      exact hcancel.trans (by decide))
    rw [hcrc] at htop
    exact absurd htop (by decide)

theorem crc16Change_iterate_eq_zero_iff (n : Nat) (crc : UInt16) :
    crc16Change^[n + 1] crc = 0 ↔ crc = 0 ∨ crc = 0xf01f := by
  induction n with
  | zero => exact crc16Change_eq_zero_iff crc
  | succ n ih =>
    rw [Function.iterate_succ_apply', crc16Change_eq_zero_iff, ih]
    refine or_iff_left_of_imp fun h => ?_
    rw [Function.iterate_succ_apply'] at h
    exact absurd h (crc16Change_ne _)

/-- Twice as many rounds change what twice as many changes do. -/
theorem crc16Change_iterate_double {n : Nat}
    (h : ∀ crc, crc16Change^[n] crc = crc16Shift^[n] crc ^^^ crc) (crc : UInt16) :
    crc16Change^[n + n] crc = crc16Shift^[n + n] crc ^^^ crc := by
  rw [Function.iterate_add_apply, h, h, crc16Shift_iterate_xor, Function.iterate_add_apply]
  have hcancel (x y z : UInt16) : x ^^^ y ^^^ (y ^^^ z) = x ^^^ z := by
    rw [UInt16.xor_assoc, ← UInt16.xor_assoc y, UInt16.xor_self, UInt16.zero_xor]
  exact hcancel _ _ _

theorem crc16Change_sixteen (crc : UInt16) :
    crc16Change^[16] crc = crc16Shift^[16] crc ^^^ crc :=
  crc16Change_iterate_double (crc16Change_iterate_double (crc16Change_iterate_double
    (crc16Change_iterate_double (n := 1) fun _ => rfl))) crc

/-- **The values that two more bytes of zeros do not change.** -/
theorem crc16_zeros_eq_iff (crc : UInt16) :
    crc16XmodemUpdate (crc16XmodemUpdate crc 0) 0 = crc ↔ crc = 0 ∨ crc = 0xf01f := by
  have hrounds : crc16XmodemUpdate (crc16XmodemUpdate crc 0) 0 = crc16Shift^[16] crc := by
    rw [show (16 : Nat) = 8 + 8 from rfl, Function.iterate_add_apply]
    show crc16Shift^[8] (crc16Shift^[8] (crc ^^^ 0) ^^^ 0) = _
    rw [UInt16.xor_zero, UInt16.xor_zero]
  rw [hrounds, ← UInt16.xor_eq_zero_iff, ← crc16Change_sixteen]
  exact crc16Change_iterate_eq_zero_iff 15 crc

/-! ## A text with its check value -/

theorem crc16Shift_eq_zero {crc : UInt16} (h : crc16Shift crc = 0) : crc = 0 := by
  rw [crc16Shift_eq] at h
  cases htop : crc.toBitVec.getLsbD 15 with
  | false =>
    rw [htop, if_neg Bool.false_ne_true, UInt16.xor_zero] at h
    have hnat := congrArg UInt16.toNat h
    have hlow : crc.toNat.testBit 15 = false := htop
    have hlt := crc.toNat_lt
    rw [Nat.testBit_eq_decide_div_mod_eq, decide_eq_false_iff_not] at hlow
    rw [toNat_shiftLeft_one] at hnat
    apply UInt16.toNat_inj.mp
    change _ = 0 at hnat
    show crc.toNat = 0
    omega
  | true =>
    rw [htop, if_pos rfl, UInt16.xor_eq_zero_iff] at h
    have hnat := congrArg UInt16.toNat h
    rw [toNat_shiftLeft_one] at hnat
    change _ = 4129 at hnat
    omega

theorem crc16Shift_iterate_eq_zero {n : Nat} {crc : UInt16} (h : crc16Shift^[n] crc = 0) :
    crc = 0 := by
  induction n with
  | zero => exact h
  | succ n ih =>
    rw [Function.iterate_succ_apply'] at h
    exact ih (crc16Shift_eq_zero h)

theorem crc16Shift_iterate_inj {n : Nat} {a b : UInt16}
    (h : crc16Shift^[n] a = crc16Shift^[n] b) : a = b := by
  rw [← UInt16.xor_eq_zero_iff, ← crc16Shift_iterate_xor] at h
  exact UInt16.xor_eq_zero_iff.mp (crc16Shift_iterate_eq_zero h)

theorem u16FromBeBytes_pair (high low : UInt8) :
    u16FromBeBytes [high, low] = (high.toUInt16 <<< 8) ^^^ low.toUInt16 := by
  apply UInt16.toNat_inj.mp
  have hhigh := high.toNat_lt
  have hlow := low.toNat_lt
  have hleft : (high.toUInt16 <<< 8).toNat = 2 ^ 8 * high.toNat := by
    rw [UInt16.toNat_shiftLeft]
    show (high.toNat <<< 8) % 2 ^ 16 = _
    rw [Nat.shiftLeft_eq, Nat.mod_eq_of_lt (by omega), Nat.mul_comm]
  have hpair : (u16FromBeBytes [high, low]).toNat = 2 ^ 8 * high.toNat + low.toNat := by
    show ((0 * 256 + high.toNat) * 256 + low.toNat) % 2 ^ 16 = _
    omega
  rw [UInt16.toNat_xor, hleft, hpair]
  apply Nat.eq_of_testBit_eq
  intro i
  have hzero := Nat.testBit_two_pow_mul_add high.toNat (show 0 < 2 ^ 8 by decide) i
  rw [Nat.add_zero] at hzero
  rw [Nat.testBit_xor, Nat.testBit_two_pow_mul_add _ hlow, hzero]
  show _ = (_ ^^ low.toNat.testBit i)
  split
  · simp
  · next hi =>
    rw [Nat.testBit_lt_two_pow (lt_of_lt_of_le hlow (Nat.pow_le_pow_right (by decide) (by omega)))]
    simp

/-- A byte moves to the front without a correction. -/
theorem crc16Shift_byte (byte : UInt8) : crc16Shift^[8] byte.toUInt16 = byte.toUInt16 <<< 8 := by
  have hall : ∀ n < 256, crc16Shift^[8] (UInt8.ofNat n).toUInt16 =
      (UInt8.ofNat n).toUInt16 <<< 8 := by decide +kernel
  have hbyte := hall byte.toNat byte.toNat_lt
  rwa [UInt8.ofNat_toNat] at hbyte

/-- **The check value of a text with two more bytes is zero just if they are its check value.** -/
theorem foldl_crc16_eq_zero_iff (crc : UInt16) (check : UInt16) :
    (u16ToBeBytes check).foldl crc16XmodemUpdate crc = 0 ↔ crc = check := by
  obtain ⟨high, low, hbytes⟩ : ∃ high low, u16ToBeBytes check = [high, low] := ⟨_, _, rfl⟩
  have hcheck : check = (high.toUInt16 <<< 8) ^^^ low.toUInt16 := by
    rw [← u16FromBeBytes_pair, ← hbytes, u16FromBeBytes_toBeBytes]
  rw [hbytes]
  show crc16Shift^[8] (crc16Shift^[8] (crc ^^^ (high.toUInt16 <<< 8)) ^^^
    (low.toUInt16 <<< 8)) = 0 ↔ _
  constructor
  · intro h
    have hlow := UInt16.xor_eq_zero_iff.mp (crc16Shift_iterate_eq_zero h)
    rw [← crc16Shift_byte low] at hlow
    rw [hcheck, ← crc16Shift_iterate_inj hlow, UInt16.xor_comm crc, ← UInt16.xor_assoc,
      UInt16.xor_self, UInt16.zero_xor]
  · rintro rfl
    rw [hcheck, UInt16.xor_comm (high.toUInt16 <<< 8), UInt16.xor_assoc, UInt16.xor_self,
      UInt16.xor_zero, crc16Shift_byte, UInt16.xor_self]
    decide

end OxideTerm.Modem
