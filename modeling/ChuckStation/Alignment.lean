/-
# Alignment of machine words

Rounding a word to a power of two by masking its low bits, as arithmetic on the number.
Sums wrap at the width of the word.
-/
import Mathlib

namespace Alignment

variable {w : ℕ}

/-- `y & ~(2^k - 1)`. -/
def alignDown (y : BitVec w) (k : ℕ) : BitVec w := y &&& ~~~BitVec.ofNat w (2 ^ k - 1)

/-- `(v + 2^k - 1) & ~(2^k - 1)`. -/
def alignUp (v : BitVec w) (k : ℕ) : BitVec w := alignDown (v + BitVec.ofNat w (2 ^ k - 1)) k

/-- Masking the low bits rounds down. -/
theorem toNat_alignDown (y : BitVec w) (k : ℕ) :
    (alignDown y k).toNat = y.toNat / 2 ^ k * 2 ^ k := by
  apply Nat.eq_of_testBit_eq
  intro i
  rw [alignDown, BitVec.testBit_toNat, BitVec.getLsbD_and, BitVec.getLsbD_not,
    BitVec.getLsbD_ofNat, Nat.testBit_two_pow_sub_one, Nat.testBit_mul_two_pow,
    Nat.testBit_div_two_pow, BitVec.testBit_toNat]
  by_cases hi : i < w
  · by_cases hk : k ≤ i
    · simp [hi, hk]
    · simp [hi, hk, Nat.lt_of_not_le hk]
  · have hzero : y.getLsbD i = false := BitVec.getLsbD_of_ge y i (by omega)
    by_cases hk : k ≤ i
    · simp [hi, hk, hzero]
    · simp [hi, hk]

theorem alignDown_le (y : BitVec w) (k : ℕ) : (alignDown y k).toNat ≤ y.toNat := by
  rw [toNat_alignDown]
  exact Nat.div_mul_le_self _ _

theorem dvd_alignDown (y : BitVec w) (k : ℕ) : 2 ^ k ∣ (alignDown y k).toNat :=
  ⟨y.toNat / 2 ^ k, by rw [toNat_alignDown, Nat.mul_comm]⟩

theorem lt_alignDown_add (y : BitVec w) (k : ℕ) : y.toNat < (alignDown y k).toNat + 2 ^ k := by
  have hmod : y.toNat % 2 ^ k < 2 ^ k := Nat.mod_lt _ (by positivity)
  have hdiv := Nat.div_add_mod y.toNat (2 ^ k)
  rw [toNat_alignDown, Nat.mul_comm]
  omega

/-- A multiple of the alignment is rounded up to itself. -/
theorem alignUp_of_dvd {v : BitVec w} {k : ℕ} (hk : k ≤ w) (hv : 2 ^ k ∣ v.toNat) :
    alignUp v k = v := by
  obtain ⟨q, hq⟩ := hv
  have hpos : 0 < 2 ^ k := by positivity
  have hpow : 2 ^ w = 2 ^ k * 2 ^ (w - k) := by rw [← pow_add, Nat.add_sub_cancel' hk]
  have hlt := v.isLt
  rw [hq, hpow] at hlt
  have hq' : q + 1 ≤ 2 ^ (w - k) := Nat.lt_of_mul_lt_mul_left hlt
  -- The multiple after `v` is no larger than `2 ^ w`, so the sum does not wrap.
  have hroom : 2 ^ k * q + 2 ^ k ≤ 2 ^ w := by
    calc 2 ^ k * q + 2 ^ k = 2 ^ k * (q + 1) := by ring
      _ ≤ 2 ^ k * 2 ^ (w - k) := Nat.mul_le_mul_left _ hq'
      _ = 2 ^ w := hpow.symm
  have hsum : (v + BitVec.ofNat w (2 ^ k - 1)).toNat = 2 ^ k * q + (2 ^ k - 1) := by
    have hmask : 2 ^ k - 1 < 2 ^ w := by omega
    rw [BitVec.toNat_add, BitVec.toNat_ofNat, Nat.mod_eq_of_lt hmask, hq, Nat.mod_eq_of_lt]
    omega
  apply BitVec.eq_of_toNat_eq
  rw [alignUp, toNat_alignDown, hsum, Nat.mul_add_div hpos, Nat.div_eq_of_lt (by omega),
    Nat.add_zero, Nat.mul_comm, hq]

theorem alignUp_alignUp {k : ℕ} (hk : k ≤ w) (v : BitVec w) :
    alignUp (alignUp v k) k = alignUp v k :=
  alignUp_of_dvd hk (dvd_alignDown _ k)

end Alignment
