/-
# Little-endian bytes

Bytes in memory and the numbers they make.  `leNat` reads a list of bytes as a little-endian
number; `byteOf w k` is byte `k` of a 64-bit word, counted from the low end, which is the byte
at offset `k` of the word's own storage.  The masks and shifts that programs take bytes out of
words with are stated in these terms (`setWidth_and_255`, `and_65535_eq_iff`).
-/
import Mathlib.Data.BitVec

namespace Bytes

/-- The little-endian value of a list of bytes. -/
def leNat : List (BitVec 8) → ℕ
  | [] => 0
  | b :: bs => b.toNat + 256 * leNat bs

/-- Byte `k` of a word, from the low end. -/
def byteOf (w : BitVec 64) (k : ℕ) : BitVec 8 := (w >>> (8 * k)).setWidth 8

theorem toNat_byteOf (w : BitVec 64) (k : ℕ) :
    (byteOf w k).toNat = w.toNat / 2 ^ (8 * k) % 256 := by
  simp [byteOf, Nat.shiftRight_eq_div_pow]

@[simp] theorem byteOf_shiftRight (w : BitVec 64) (j k : ℕ) :
    byteOf (w >>> (8 * j)) k = byteOf w (j + k) := by
  rw [byteOf, byteOf, ← BitVec.shiftRight_add, ← Nat.mul_add]

theorem toNat_and_mask (w : BitVec 64) {n : ℕ} (hn : n ≤ 64) :
    (w &&& BitVec.ofNat 64 (2 ^ n - 1)).toNat = w.toNat % 2 ^ n := by
  have hlt : 2 ^ n - 1 < 2 ^ 64 :=
    lt_of_lt_of_le (Nat.sub_lt (Nat.two_pow_pos n) Nat.one_pos) (Nat.pow_le_pow_right (by decide) hn)
  rw [BitVec.toNat_and, BitVec.toNat_ofNat, Nat.mod_eq_of_lt hlt, Nat.and_two_pow_sub_one_eq_mod]

/-- Masking the low byte before truncating to it changes nothing. -/
theorem setWidth_and_255 (w : BitVec 64) : (w &&& 0xFF#64).setWidth 8 = byteOf w 0 := by
  have hm : (w &&& 0xFF#64).toNat = w.toNat % 2 ^ 8 := toNat_and_mask w (n := 8) (by decide)
  rw [← BitVec.toNat_inj, BitVec.toNat_setWidth, hm, toNat_byteOf]
  omega

/-- A word's low byte, compared as a word. -/
theorem and_255_eq_iff (w : BitVec 64) (b : BitVec 8) :
    w &&& 0xFF#64 = b.setWidth 64 ↔ byteOf w 0 = b := by
  have hb : b.toNat < 256 := b.isLt
  have hm : (w &&& 0xFF#64).toNat = w.toNat % 2 ^ 8 := toNat_and_mask w (n := 8) (by decide)
  rw [← BitVec.toNat_inj, ← BitVec.toNat_inj, hm, toNat_byteOf, BitVec.toNat_setWidth]
  omega

/-- The two low bytes, compared as a word. -/
theorem and_65535_eq_iff (w : BitVec 64) (b0 b1 : BitVec 8) :
    w &&& 0xFFFF#64 = BitVec.ofNat 64 (b0.toNat + 256 * b1.toNat) ↔
      byteOf w 0 = b0 ∧ byteOf w 1 = b1 := by
  have h0 : b0.toNat < 256 := b0.isLt
  have h1 : b1.toNat < 256 := b1.isLt
  have hm : (w &&& 0xFFFF#64).toNat = w.toNat % 2 ^ 16 := toNat_and_mask w (n := 16) (by decide)
  rw [← BitVec.toNat_inj, ← BitVec.toNat_inj, ← BitVec.toNat_inj, hm, toNat_byteOf, toNat_byteOf,
    BitVec.toNat_ofNat]
  omega

/-! ## Words put together from bytes -/

/-- Dropping the bytes from `m` on does not change a byte below. -/
theorem mod_div_mod (n : ℕ) {k m : ℕ} (h : k < m) :
    n % 2 ^ (8 * m) / 2 ^ (8 * k) % 256 = n / 2 ^ (8 * k) % 256 := by
  have hpow : 2 ^ (8 * m) = 2 ^ (8 * k) * 2 ^ (8 * (m - k)) := by
    rw [← Nat.pow_add]
    congr 1
    omega
  rw [hpow, Nat.mod_mul_right_div_self]
  exact Nat.mod_mod_of_dvd _ (Nat.pow_dvd_pow 2 (by omega : 8 ≤ 8 * (m - k)))

/-- Byte `k` of a number made of bytes. -/
theorem leNat_div (bs : List (BitVec 8)) (k : ℕ) :
    leNat bs / 2 ^ (8 * k) % 256 = (bs.getD k 0).toNat := by
  induction bs generalizing k with
  | nil => simp [leNat]
  | cons b bs ih =>
    have hb : b.toNat < 256 := b.isLt
    cases k with
    | zero =>
      simp only [leNat, List.getD_cons_zero]
      omega
    | succ k =>
      have hpow : 2 ^ (8 * (k + 1)) = 256 * 2 ^ (8 * k) := by
        rw [Nat.mul_add, Nat.pow_add, Nat.mul_comm]
      have hdiv : (b.toNat + 256 * leNat bs) / 256 = leNat bs := by omega
      rw [leNat, hpow, ← Nat.div_div_eq_div_mul, hdiv, List.getD_cons_succ]
      exact ih k

theorem byteOf_leNat (bs : List (BitVec 8)) {k : ℕ} (hk : k < 8) :
    byteOf (BitVec.ofNat 64 (leNat bs)) k = bs.getD k 0 := by
  have hmod : leNat bs % 2 ^ 64 / 2 ^ (8 * k) % 256 = leNat bs / 2 ^ (8 * k) % 256 :=
    mod_div_mod (leNat bs) hk
  rw [← BitVec.toNat_inj, toNat_byteOf, BitVec.toNat_ofNat, hmod, leNat_div]

/-- Shifting the top byte out and back leaves the others. -/
theorem byteOf_shiftLeft_shiftRight (w : BitVec 64) {k : ℕ} (hk : k < 7) :
    byteOf (w <<< 8 >>> 8) k = byteOf w k := by
  have hw : w.toNat < 2 ^ 64 := w.isLt
  have hval : (w <<< 8 >>> 8).toNat = w.toNat % 2 ^ (8 * 7) := by
    rw [BitVec.toNat_ushiftRight, BitVec.toNat_shiftLeft, Nat.shiftRight_eq_div_pow,
      Nat.shiftLeft_eq]
    omega
  rw [← BitVec.toNat_inj, toNat_byteOf, toNat_byteOf, hval, mod_div_mod _ hk]

/-- The low half of a word is its four low bytes. -/
theorem setWidth_32_congr {x y : BitVec 64} (h : ∀ k < 4, byteOf x k = byteOf y k) :
    x.setWidth 32 = y.setWidth 32 := by
  have hb (k : ℕ) (hk : k < 4) : x.toNat / 2 ^ (8 * k) % 256 = y.toNat / 2 ^ (8 * k) % 256 := by
    rw [← toNat_byteOf, ← toNat_byteOf, h k hk]
  have h0 := hb 0 (by decide)
  have h1 := hb 1 (by decide)
  have h2 := hb 2 (by decide)
  have h3 := hb 3 (by decide)
  rw [← BitVec.toNat_inj, BitVec.toNat_setWidth, BitVec.toNat_setWidth]
  omega

end Bytes
