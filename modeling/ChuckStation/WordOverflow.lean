/-
# Words that wrap around

Sums and differences of words of a fixed width, read as unsigned and as signed numbers: when the
exact result fits the width, how the sign bits tell when it does not, and how a comparison is read
off a difference.
-/
import Mathlib

namespace WordOverflow

variable {w : ℕ}

/-- The number is one of the unsigned words of width `w`. -/
def FitsUnsigned (w : ℕ) (n : ℤ) : Prop := 0 ≤ n ∧ n < 2 ^ w

/-- The number is one of the signed words of width `w`. -/
def FitsSigned (w : ℕ) (n : ℤ) : Prop := -2 ^ (w - 1) ≤ n ∧ n < 2 ^ (w - 1)

instance (w : ℕ) (n : ℤ) : Decidable (FitsUnsigned w n) := inferInstanceAs (Decidable (_ ∧ _))

instance (w : ℕ) (n : ℤ) : Decidable (FitsSigned w n) := inferInstanceAs (Decidable (_ ∧ _))

section Fits

variable (x y : BitVec w)

theorem fitsUnsigned_toNat : FitsUnsigned w x.toNat :=
  ⟨Int.natCast_nonneg _, by exact_mod_cast x.isLt⟩

theorem not_fitsUnsigned_add_iff :
    ¬ FitsUnsigned w (x.toNat + y.toNat) ↔ 2 ^ w ≤ x.toNat + y.toNat := by
  unfold FitsUnsigned
  constructor
  · intro h
    by_contra hlt
    refine h ⟨by positivity, ?_⟩
    exact_mod_cast not_le.mp hlt
  · rintro h ⟨-, hlt⟩
    exact absurd h (not_le.mpr (by exact_mod_cast hlt))

theorem not_fitsUnsigned_sub_iff :
    ¬ FitsUnsigned w (x.toNat - y.toNat) ↔ x.ult y = true := by
  have hx : (x.toNat : ℤ) < 2 ^ w := (fitsUnsigned_toNat x).2
  rw [BitVec.ult_iff_toNat_lt]
  unfold FitsUnsigned
  constructor
  · intro h
    by_contra hle
    exact h ⟨by omega, by omega⟩
  · rintro h ⟨hle, -⟩
    omega

theorem not_fitsSigned_add_iff :
    ¬ FitsSigned w (x.toInt + y.toInt) ↔ x.saddOverflow y = true := by
  simp only [FitsSigned, BitVec.saddOverflow, Bool.or_eq_true, decide_eq_true_eq]
  omega

theorem not_fitsSigned_sub_iff :
    ¬ FitsSigned w (x.toInt - y.toInt) ↔ x.ssubOverflow y = true := by
  simp only [FitsSigned, BitVec.ssubOverflow, Bool.or_eq_true, decide_eq_true_eq]
  omega

/-- The signed number, over half the modulus. -/
theorem toInt_eq_toNat_or (hw : 0 < w) :
    x.toNat < 2 ^ (w - 1) ∧ x.toInt = x.toNat ∨
      2 ^ (w - 1) ≤ x.toNat ∧ x.toNat < 2 * 2 ^ (w - 1) ∧ x.toInt = x.toNat - 2 * 2 ^ (w - 1) := by
  have hpow : 2 ^ w = 2 * 2 ^ (w - 1) := by rw [← pow_succ', Nat.sub_add_cancel hw]
  have hval := BitVec.toInt_eq_toNat_cond x
  have hlt := x.isLt
  rw [hpow] at hval hlt
  push_cast at hval
  split_ifs at hval <;> omega

theorem saddOverflow_iff_toNat (hw : 0 < w) : x.saddOverflow y = true ↔
    x.toNat < 2 ^ (w - 1) ∧ y.toNat < 2 ^ (w - 1) ∧ 2 ^ (w - 1) ≤ x.toNat + y.toNat ∨
      2 ^ (w - 1) ≤ x.toNat ∧ 2 ^ (w - 1) ≤ y.toNat ∧ x.toNat + y.toNat < 3 * 2 ^ (w - 1) := by
  have hx := toInt_eq_toNat_or x hw
  have hy := toInt_eq_toNat_or y hw
  have hcast : ((2 ^ (w - 1) : ℕ) : ℤ) = 2 ^ (w - 1) := by push_cast; rfl
  rw [← not_fitsSigned_add_iff, FitsSigned]
  omega

theorem ssubOverflow_iff_toNat (hw : 0 < w) : x.ssubOverflow y = true ↔
    x.toNat < 2 ^ (w - 1) ∧ 2 ^ (w - 1) ≤ y.toNat ∧ y.toNat ≤ x.toNat + 2 ^ (w - 1) ∨
      2 ^ (w - 1) ≤ x.toNat ∧ y.toNat < 2 ^ (w - 1) ∧ x.toNat < y.toNat + 2 ^ (w - 1) := by
  have hx := toInt_eq_toNat_or x hw
  have hy := toInt_eq_toNat_or y hw
  have hcast : ((2 ^ (w - 1) : ℕ) : ℤ) = 2 ^ (w - 1) := by push_cast; rfl
  rw [← not_fitsSigned_sub_iff, FitsSigned]
  omega

end Fits

/-! ## Reading the sign bits -/

section Signs

variable (x y : BitVec w)

/-- A sum overflows if its operands have the same sign and it has the other one. -/
theorem msb_add_signs : (~~~(x ^^^ y) &&& (x ^^^ (x + y))).msb = x.saddOverflow y := by
  rw [BitVec.saddOverflow_eq, BitVec.msb_and, BitVec.msb_not, BitVec.msb_xor, BitVec.msb_xor]
  rcases Nat.eq_zero_or_pos w with rfl | hw
  · simp [BitVec.of_length_zero]
  · simp only [hw, decide_true, Bool.true_and]
    cases x.msb <;> cases y.msb <;> cases (x + y).msb <;> rfl

/-- A difference overflows if its operands have different signs and it has the second one's. -/
theorem msb_sub_signs : ((x ^^^ y) &&& (x ^^^ (x - y))).msb = x.ssubOverflow y := by
  rw [BitVec.ssubOverflow_eq, BitVec.msb_and, BitVec.msb_xor, BitVec.msb_xor]
  cases x.msb <;> cases y.msb <;> cases (x - y).msb <;> rfl

/-- The signed order, from the sign and the overflow of the difference. -/
theorem slt_eq_msb_bne_overflow : x.slt y = ((x - y).msb != x.ssubOverflow y) := by
  have hmsb (d : BitVec w) : d.msb = decide (d.toInt < 0) := BitVec.msb_eq_toInt
  cases hov : x.ssubOverflow y with
  | false =>
      have hexact := BitVec.toInt_sub_of_not_ssubOverflow (by simp [hov] : ¬ x.ssubOverflow y)
      rw [Bool.bne_false, hmsb, hexact, BitVec.slt_eq_decide, decide_eq_decide]
      omega
  | true =>
      rw [BitVec.ssubOverflow_eq, hmsb x, hmsb y] at hov
      rw [BitVec.slt_eq_decide]
      cases hd : (x - y).msb with
      | false =>
          have hlt : x.toInt < 0 ∧ 0 ≤ y.toInt := by simpa [hd] using hov
          simp only [Bool.false_bne, decide_eq_true_eq]
          omega
      | true =>
          have hlt : 0 ≤ x.toInt ∧ y.toInt < 0 := by simpa [hd] using hov
          simp only [bne_self_eq_false, decide_eq_false_iff_not]
          omega

end Signs

/-! ## Words cut down and widened again -/

section Narrow

variable {n : ℕ} (v : BitVec w)

/-- A word comes back from its low bits by their sign exactly if it is a signed number of that
many bits. -/
theorem signExtend_setWidth_eq_iff (hpos : 0 < n) (hn : n ≤ w) :
    (v.setWidth n).signExtend w = v ↔ FitsSigned n v.toInt := by
  have hdvd : 2 ^ n ∣ 2 ^ w := Nat.pow_dvd_pow 2 hn
  have hhalf : (2 : ℤ) ^ n = 2 * 2 ^ (n - 1) := by
    obtain ⟨k, rfl⟩ := Nat.exists_eq_add_of_lt hpos
    rw [zero_add, Nat.add_sub_cancel, pow_succ']
  have hlow : ((v.setWidth n).signExtend w).toInt = v.toInt.bmod (2 ^ n) := by
    rw [BitVec.toInt_signExtend_of_le hn, BitVec.toInt_setWidth, BitVec.toInt_eq_toNat_bmod v,
      Int.bmod_bmod_of_dvd hdvd]
  rw [← BitVec.toInt_inj, hlow, FitsSigned]
  constructor
  · intro h
    have hle := Int.le_bmod (x := v.toInt) (Nat.two_pow_pos n)
    have hlt := Int.bmod_lt (x := v.toInt) (Nat.two_pow_pos n)
    rw [h] at hle hlt
    push_cast at hle hlt
    omega
  · rintro ⟨hle, hlt⟩
    apply Int.bmod_eq_of_le
    · push_cast
      omega
    · push_cast
      omega

/-- A word comes back from its low bits exactly if it is a number of that many bits. -/
theorem setWidth_setWidth_eq_iff (hn : n ≤ w) :
    (v.setWidth n).setWidth w = v ↔ FitsUnsigned n v.toNat := by
  have hlow : ((v.setWidth n).setWidth w).toNat = v.toNat % 2 ^ n := by
    rw [BitVec.toNat_setWidth, BitVec.toNat_setWidth]
    apply Nat.mod_eq_of_lt
    calc v.toNat % 2 ^ n < 2 ^ n := Nat.mod_lt _ (Nat.two_pow_pos n)
      _ ≤ 2 ^ w := Nat.pow_le_pow_right Nat.two_pos hn
  rw [← BitVec.toNat_inj, hlow, FitsUnsigned]
  constructor
  · intro h
    refine ⟨Int.natCast_nonneg _, ?_⟩
    rw [← h]
    exact_mod_cast Nat.mod_lt _ (Nat.two_pow_pos n)
  · rintro ⟨-, hlt⟩
    exact Nat.mod_eq_of_lt (by exact_mod_cast hlt)

end Narrow

end WordOverflow
