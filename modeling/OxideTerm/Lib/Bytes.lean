import Mathlib.Tactic.Ring

/-!
# Fixed-width big-endian numbers

Network byte order, as a list of bytes of a stated width. Decoding inverts encoding up to
the width, so on a value that fits the two are inverse.
-/

namespace OxideTerm.Lib

/-- A string of bytes. -/
abbrev Bytes := List UInt8

/-- The `n` low bytes of `v`, most significant first. -/
def beBytes : Nat → Nat → Bytes
  | 0, _ => []
  | n + 1, v => UInt8.ofNat (v / 256 ^ n) :: beBytes n v

/-- The number a string of bytes writes in base 256, after the digits in `acc`. -/
def ofBeBytesFrom (acc : Nat) (bs : Bytes) : Nat :=
  bs.foldl (fun acc b => acc * 256 + b.toNat) acc

/-- The number a string of bytes writes in base 256. -/
def ofBeBytes (bs : Bytes) : Nat := ofBeBytesFrom 0 bs

@[simp] theorem length_beBytes (n v : Nat) : (beBytes n v).length = n := by
  induction n with
  | zero => rfl
  | succ n ih => simp [beBytes, ih]

theorem ofBeBytesFrom_beBytes (n v acc : Nat) :
    ofBeBytesFrom acc (beBytes n v) = acc * 256 ^ n + v % 256 ^ n := by
  induction n generalizing acc with
  | zero => simp [beBytes, ofBeBytesFrom, Nat.mod_one]
  | succ n ih =>
    have hdigit : (UInt8.ofNat (v / 256 ^ n)).toNat = v / 256 ^ n % 256 := by simp
    have hsplit : v % 256 ^ (n + 1) = v / 256 ^ n % 256 * 256 ^ n + v % 256 ^ n := by
      rw [Nat.pow_succ, Nat.mod_mul]
      ring
    calc ofBeBytesFrom acc (beBytes (n + 1) v)
        = ofBeBytesFrom (acc * 256 + v / 256 ^ n % 256) (beBytes n v) := by
          simp only [beBytes, ofBeBytesFrom, List.foldl_cons, hdigit]
      _ = (acc * 256 + v / 256 ^ n % 256) * 256 ^ n + v % 256 ^ n := ih _
      _ = acc * 256 ^ (n + 1) + v % 256 ^ (n + 1) := by rw [hsplit]; ring

/-- **Reading back a fixed-width number.** -/
theorem ofBeBytes_beBytes (n v : Nat) : ofBeBytes (beBytes n v) = v % 256 ^ n := by
  simpa [ofBeBytes] using ofBeBytesFrom_beBytes n v 0

theorem ofBeBytesFrom_eq (acc : Nat) (bs : Bytes) :
    ofBeBytesFrom acc bs = acc * 256 ^ bs.length + ofBeBytes bs := by
  induction bs generalizing acc with
  | nil => simp [ofBeBytesFrom, ofBeBytes]
  | cons b bs ih =>
    have hcons : ∀ acc, ofBeBytesFrom acc (b :: bs) = ofBeBytesFrom (acc * 256 + b.toNat) bs :=
      fun _ => rfl
    rw [ofBeBytes, hcons, hcons, ih, ih (0 * 256 + b.toNat), List.length_cons]
    ring

theorem ofBeBytes_cons (b : UInt8) (bs : Bytes) :
    ofBeBytes (b :: bs) = b.toNat * 256 ^ bs.length + ofBeBytes bs := by
  show ofBeBytesFrom (0 * 256 + b.toNat) bs = _
  rw [ofBeBytesFrom_eq, Nat.zero_mul, Nat.zero_add]

theorem ofBeBytes_lt (bs : Bytes) : ofBeBytes bs < 256 ^ bs.length := by
  induction bs with
  | nil => exact Nat.one_pos
  | cons b bs ih =>
    have hb : b.toNat < 256 := b.toNat_lt
    rw [ofBeBytes_cons, List.length_cons, Nat.pow_succ]
    calc b.toNat * 256 ^ bs.length + ofBeBytes bs
        < b.toNat * 256 ^ bs.length + 256 ^ bs.length := Nat.add_lt_add_left ih _
      _ = (b.toNat + 1) * 256 ^ bs.length := by ring
      _ ≤ 256 * 256 ^ bs.length := Nat.mul_le_mul_right _ hb
      _ = 256 ^ bs.length * 256 := Nat.mul_comm _ _

/-- Bytes that were read as a number are its bytes. -/
theorem beBytes_add (n v w : Nat) (hw : w < 256 ^ n) (k : Nat) (hk : k ≤ n) :
    beBytes k (v * 256 ^ n + w) = beBytes k w := by
  induction k with
  | zero => rfl
  | succ k ih =>
    obtain ⟨m, rfl⟩ : ∃ m, n = k + 1 + m := ⟨n - (k + 1), by omega⟩
    rw [beBytes, beBytes, ih (by omega)]
    have hpow : v * 256 ^ (k + 1 + m) = v * 256 ^ m * 256 * 256 ^ k := by ring
    rw [hpow, Nat.add_comm _ w, Nat.add_mul_div_right _ _ (Nat.pow_pos (Nat.succ_pos 255))]
    congr 1
    rw [← UInt8.toNat_inj]
    simp

theorem beBytes_ofBeBytes (bs : Bytes) : beBytes bs.length (ofBeBytes bs) = bs := by
  induction bs with
  | nil => rfl
  | cons b bs ih =>
    have hlt := ofBeBytes_lt bs
    rw [ofBeBytes_cons, List.length_cons, beBytes, beBytes_add _ _ _ hlt _ (Nat.le_refl _), ih,
      Nat.add_comm, Nat.add_mul_div_right _ _ (Nat.pow_pos (Nat.succ_pos 255)), Nat.div_eq_of_lt hlt, Nat.zero_add]
    congr 1
    exact UInt8.ofNat_toNat

/-! ## Machine words -/

/-- `usize::checked_add` on a 64-bit target. -/
def checkedAdd (a b : Nat) : Option Nat := if a + b < 2 ^ 64 then some (a + b) else none

/-- `u16::to_be_bytes`. -/
def u16ToBeBytes (v : UInt16) : Bytes := beBytes 2 v.toNat

/-- `u16::from_be_bytes`. -/
def u16FromBeBytes (bs : Bytes) : UInt16 := UInt16.ofNat (ofBeBytes bs)

/-- `u64::to_be_bytes`. -/
def u64ToBeBytes (v : UInt64) : Bytes := beBytes 8 v.toNat

/-- `u64::from_be_bytes`. -/
def u64FromBeBytes (bs : Bytes) : UInt64 := UInt64.ofNat (ofBeBytes bs)

/-- `u32::to_le_bytes`. -/
def u32ToLeBytes (v : UInt32) : Bytes := (beBytes 4 v.toNat).reverse

/-- `u32::from_le_bytes`. -/
def u32FromLeBytes (bytes : Bytes) : UInt32 := UInt32.ofNat (ofBeBytes bytes.reverse)

@[simp] theorem length_u16ToBeBytes (v : UInt16) : (u16ToBeBytes v).length = 2 := length_beBytes _ _

@[simp] theorem length_u64ToBeBytes (v : UInt64) : (u64ToBeBytes v).length = 8 := length_beBytes _ _

@[simp] theorem u16FromBeBytes_toBeBytes (v : UInt16) : u16FromBeBytes (u16ToBeBytes v) = v := by
  have hv : v.toNat < 256 ^ 2 := v.toNat_lt
  rw [u16FromBeBytes, u16ToBeBytes, ofBeBytes_beBytes, Nat.mod_eq_of_lt hv]
  simp

@[simp] theorem u64FromBeBytes_toBeBytes (v : UInt64) : u64FromBeBytes (u64ToBeBytes v) = v := by
  have hv : v.toNat < 256 ^ 8 := v.toNat_lt
  rw [u64FromBeBytes, u64ToBeBytes, ofBeBytes_beBytes, Nat.mod_eq_of_lt hv]
  simp

@[simp] theorem length_u32ToLeBytes (v : UInt32) : (u32ToLeBytes v).length = 4 := by
  rw [u32ToLeBytes, List.length_reverse, length_beBytes]

theorem u32FromLeBytes_toLeBytes (v : UInt32) : u32FromLeBytes (u32ToLeBytes v) = v := by
  have hv : v.toNat < 256 ^ 4 := v.toNat_lt
  rw [u32FromLeBytes, u32ToLeBytes, List.reverse_reverse, ofBeBytes_beBytes, Nat.mod_eq_of_lt hv]
  exact UInt32.ofNat_toNat

theorem u32ToLeBytes_fromLeBytes {bytes : Bytes} (h : bytes.length = 4) :
    u32ToLeBytes (u32FromLeBytes bytes) = bytes := by
  have hlength : bytes.reverse.length = 4 := by rw [List.length_reverse, h]
  have hlt := ofBeBytes_lt bytes.reverse
  have hread := beBytes_ofBeBytes bytes.reverse
  rw [hlength] at hlt hread
  rw [u32ToLeBytes, u32FromLeBytes, UInt32.toNat_ofNat_of_lt' hlt, hread, List.reverse_reverse]

theorem u64Max_le_iff {a b c : UInt64} : max a b ≤ c ↔ a ≤ c ∧ b ≤ c := by
  show (if a ≤ b then b else a) ≤ c ↔ a ≤ c ∧ b ≤ c
  split
  · next h => exact ⟨fun hb => ⟨UInt64.le_trans h hb, hb⟩, And.right⟩
  · next h =>
    refine ⟨fun ha => ⟨ha, ?_⟩, And.left⟩
    rw [UInt64.not_le] at h
    exact UInt64.le_trans (UInt64.le_of_lt h) ha

theorem u64ToBeBytes_inj {v w : UInt64} (h : u64ToBeBytes v = u64ToBeBytes w) : v = w := by
  have hread := congrArg u64FromBeBytes h
  simpa using hread

end OxideTerm.Lib
