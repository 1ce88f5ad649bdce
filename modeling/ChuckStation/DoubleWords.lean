/-
# Double words

A number held in two words of a fixed width, the high one read as unsigned or as signed: when the
low word alone holds it, and how the product of two words is found, from the doubled width or from
the products of their halves.
-/
import ChuckStation.WordOverflow

namespace DoubleWords

open WordOverflow

variable {w : ℕ}

/-- The unsigned number in two words. -/
def unsigned (hi lo : BitVec w) : ℕ := hi.toNat * 2 ^ w + lo.toNat

/-- The signed number in two words. -/
def signed (hi lo : BitVec w) : ℤ := hi.toInt * 2 ^ w + lo.toNat

/-- The word filled with the sign of `x`. -/
def signWord (x : BitVec w) : BitVec w := x.sshiftRight (w - 1)

/-! ## Digits -/

section Digits

variable {hi hi' lo lo' : BitVec w}

theorem unsigned_inj (h : unsigned hi lo = unsigned hi' lo') : hi = hi' ∧ lo = lo' := by
  have hlo := lo.isLt
  have hlo' := lo'.isLt
  have hpos : 0 < 2 ^ w := Nat.two_pow_pos w
  unfold unsigned at h
  have hdiv := congrArg (· / 2 ^ w) h
  simp only [Nat.mul_comm _ (2 ^ w), Nat.mul_add_div hpos, Nat.div_eq_of_lt hlo,
    Nat.div_eq_of_lt hlo', add_zero] at hdiv
  rw [hdiv] at h
  exact ⟨BitVec.eq_of_toNat_eq hdiv, BitVec.eq_of_toNat_eq (Nat.add_left_cancel h)⟩

theorem signed_inj (h : signed hi lo = signed hi' lo') : hi = hi' ∧ lo = lo' := by
  have hlo : (lo.toNat : ℤ) < 2 ^ w := (fitsUnsigned_toNat lo).2
  have hlo' : (lo'.toNat : ℤ) < 2 ^ w := (fitsUnsigned_toNat lo').2
  have hpos : (0 : ℤ) < 2 ^ w := by positivity
  unfold signed at h
  have hhi : hi.toInt = hi'.toInt := by
    have hdiv := congrArg (· / (2 ^ w : ℤ)) h
    simpa only [mul_comm _ ((2 : ℤ) ^ w), Int.mul_add_ediv_left _ _ hpos.ne',
      Int.ediv_eq_zero_of_lt (Int.natCast_nonneg _) hlo,
      Int.ediv_eq_zero_of_lt (Int.natCast_nonneg _) hlo', add_zero] using hdiv
  rw [hhi] at h
  exact ⟨BitVec.toInt_inj.mp hhi, BitVec.eq_of_toNat_eq (by omega)⟩

theorem unsigned_zero (lo : BitVec w) : unsigned 0 lo = lo.toNat := by
  simp [unsigned]

theorem toInt_signWord (x : BitVec w) : (signWord x).toInt = if x.toInt < 0 then -1 else 0 := by
  have hlo := BitVec.le_toInt x
  have hhi := BitVec.toInt_lt (x := x)
  have hpos : (0 : ℤ) < 2 ^ (w - 1) := by positivity
  rw [signWord, BitVec.toInt_sshiftRight, Int.shiftRight_eq_div_pow]
  push_cast
  split_ifs with hneg
  · rw [Int.ediv_eq_neg_one_of_neg_of_le hneg (by omega)]
  · exact Int.ediv_eq_zero_of_lt (not_lt.mp hneg) hhi

/-- Two words hold a signed number that fits one exactly if the high one is the sign of the low
one. -/
theorem signed_signWord (lo : BitVec w) : signed (signWord lo) lo = lo.toInt := by
  rw [signed, toInt_signWord]
  have hval := BitVec.toInt_eq_toNat_cond lo
  have hlt := lo.isLt
  push_cast at hval
  have hpow : ((2 ^ w : ℕ) : ℤ) = 2 ^ w := by push_cast; rfl
  split_ifs at hval ⊢ with hneg hsmall hsmall <;> omega

theorem unsigned_eq_low_iff : unsigned hi lo = lo.toNat ↔ hi = 0 := by
  rw [← unsigned_zero lo]
  constructor
  · exact fun h => (unsigned_inj h).1
  · rintro rfl
    rfl

theorem signed_eq_low_iff : signed hi lo = lo.toInt ↔ hi = signWord lo := by
  rw [← signed_signWord lo]
  constructor
  · exact fun h => (signed_inj h).1
  · rintro rfl
    rfl

theorem fitsUnsigned_iff : FitsUnsigned w (unsigned hi lo) ↔ hi = 0 := by
  constructor
  · rintro ⟨-, hlt⟩
    have hlt' : unsigned hi lo < 2 ^ w := by exact_mod_cast hlt
    obtain ⟨x, hx⟩ : ∃ x : BitVec w, x.toNat = unsigned hi lo :=
      ⟨BitVec.ofNat w (unsigned hi lo), by rw [BitVec.toNat_ofNat, Nat.mod_eq_of_lt hlt']⟩
    rw [← unsigned_zero] at hx
    exact (unsigned_inj hx.symm).1
  · rintro rfl
    rw [unsigned_zero]
    exact fitsUnsigned_toNat lo

theorem fitsSigned_iff (hw : 0 < w) : FitsSigned w (signed hi lo) ↔ hi = signWord lo := by
  constructor
  · rintro ⟨hle, hlt⟩
    obtain ⟨x, hx⟩ : ∃ x : BitVec w, x.toInt = signed hi lo :=
      ⟨_, BitVec.toInt_ofInt_eq_self hw hle hlt⟩
    rw [← signed_signWord] at hx
    obtain ⟨hhi, rfl⟩ := signed_inj hx.symm
    exact hhi
  · rintro rfl
    rw [signed_signWord]
    exact ⟨BitVec.le_toInt lo, BitVec.toInt_lt⟩

end Digits

/-! ## Signed numbers from unsigned ones -/

section Congruence

/-- Signed numbers of the same width are equal as soon as they are congruent. -/
theorem FitsSigned.eq_of_modEq {m n : ℤ} (hw : 0 < w) (hm : FitsSigned w m) (hn : FitsSigned w n)
    (h : m ≡ n [ZMOD 2 ^ w]) : m = n := by
  have hpow : (2 : ℤ) ^ w = 2 * 2 ^ (w - 1) := by
    rw [← pow_succ', Nat.sub_add_cancel hw]
  unfold FitsSigned at hm hn
  have hzero : n - m = 0 := by
    apply Int.eq_zero_of_abs_lt_dvd h.dvd
    rw [abs_lt]
    omega
  omega

variable (x y hi lo : BitVec w)

theorem toInt_modEq : x.toInt ≡ x.toNat [ZMOD 2 ^ w] := by
  rw [BitVec.toInt_eq_toNat_bmod, Int.ModEq]
  exact_mod_cast Int.bmod_emod

theorem toInt_sub_modEq : (x - y).toInt ≡ x.toInt - y.toInt [ZMOD 2 ^ w] := by
  rw [BitVec.toInt_sub, Int.ModEq]
  exact_mod_cast Int.bmod_emod

/-- The word of a negative number exceeds it by `2 ^ w`. -/
theorem toInt_eq_toNat_sub : x.toInt = x.toNat - (if x.toInt < 0 then 2 ^ w else 0) := by
  have hval := BitVec.toInt_eq_toNat_cond x
  have hlt := x.isLt
  push_cast at hval
  have hpow : ((2 ^ w : ℕ) : ℤ) = 2 ^ w := by push_cast; rfl
  split_ifs at hval ⊢ with hsmall hneg hneg <;> omega

theorem fitsSigned_toInt : FitsSigned w x.toInt := ⟨BitVec.le_toInt x, BitVec.toInt_lt⟩

theorem fitsSigned_signed (hw : 0 < w) : FitsSigned (w + w) (signed hi lo) := by
  have hpow : (2 : ℤ) ^ (w + w - 1) = 2 ^ (w - 1) * 2 ^ w := by
    rw [← pow_add]
    congr 1
    omega
  have hpos : (0 : ℤ) < 2 ^ w := by positivity
  have hlo : (lo.toNat : ℤ) < 2 ^ w := (fitsUnsigned_toNat lo).2
  obtain ⟨hle, hlt⟩ := fitsSigned_toInt hi
  rw [FitsSigned, hpow, signed]
  constructor
  · have := mul_le_mul_of_nonneg_right hle hpos.le
    linarith [Int.natCast_nonneg lo.toNat]
  · have := mul_le_mul_of_nonneg_right (Int.add_one_le_of_lt hlt) hpos.le
    linarith

theorem fitsSigned_product (hw : 0 < w) : FitsSigned (w + w) (x.toInt * y.toInt) := by
  have hlt : (2 : ℤ) ^ (w * 2 - 2) < 2 ^ (w + w - 1) := pow_lt_pow_right₀ (by norm_num) (by omega)
  have hle := BitVec.toInt_mul_toInt_le (x := x) (y := y)
  have hge := BitVec.le_toInt_mul_toInt (x := x) (y := y)
  exact ⟨by omega, by omega⟩

theorem signed_modEq_unsigned : signed hi lo ≡ unsigned hi lo [ZMOD 2 ^ (w + w)] := by
  rw [pow_add, signed, unsigned]
  push_cast
  exact (toInt_modEq hi).mul_right'.add_right _

/-- The two words of an unsigned number. -/
theorem words_of_unsigned {n : ℤ} (h : (unsigned hi lo : ℤ) = n) :
    (lo.toNat : ℤ) = n % 2 ^ w ∧ (hi.toNat : ℤ) = n / 2 ^ w % 2 ^ w := by
  have hpos : (0 : ℤ) < 2 ^ w := by positivity
  obtain ⟨hlo, hlo'⟩ := fitsUnsigned_toNat lo
  obtain ⟨hhi, hhi'⟩ := fitsUnsigned_toNat hi
  rw [← h, unsigned]
  push_cast
  rw [Int.mul_add_emod_self_right, Int.emod_eq_of_lt hlo hlo', mul_comm,
    Int.mul_add_ediv_left _ _ hpos.ne', Int.ediv_eq_zero_of_lt hlo hlo', add_zero,
    Int.emod_eq_of_lt hhi hhi']
  exact ⟨rfl, rfl⟩

/-- The two words of a signed number. -/
theorem words_of_signed {n : ℤ} (h : signed hi lo = n) :
    (lo.toNat : ℤ) = n % 2 ^ w ∧ (hi.toNat : ℤ) = n / 2 ^ w % 2 ^ w := by
  have hpos : (0 : ℤ) < 2 ^ w := by positivity
  obtain ⟨hlo, hlo'⟩ := fitsUnsigned_toNat lo
  obtain ⟨hhi, hhi'⟩ := fitsUnsigned_toNat hi
  rw [← h, signed, Int.mul_add_emod_self_right, Int.emod_eq_of_lt hlo hlo', mul_comm,
    Int.mul_add_ediv_left _ _ hpos.ne', Int.ediv_eq_zero_of_lt hlo hlo', add_zero,
    toInt_modEq hi, Int.emod_eq_of_lt hhi hhi']
  exact ⟨rfl, rfl⟩

end Congruence

/-! ## The halves of a doubled word -/

section Halves

variable (r : BitVec (w + w))

theorem unsigned_halves : unsigned ((r >>> w).setWidth w) (r.setWidth w) = r.toNat := by
  have hhigh : r.toNat / 2 ^ w < 2 ^ w := by
    rw [Nat.div_lt_iff_lt_mul (Nat.two_pow_pos w), ← pow_add]
    exact r.isLt
  rw [unsigned, BitVec.toNat_setWidth, BitVec.toNat_setWidth, BitVec.toNat_ushiftRight,
    Nat.shiftRight_eq_div_pow, Nat.mod_eq_of_lt hhigh]
  exact Nat.div_add_mod' r.toNat (2 ^ w)

theorem signed_halves (hw : 0 < w) :
    signed ((r >>> w).setWidth w) (r.setWidth w) = r.toInt := by
  apply FitsSigned.eq_of_modEq (by omega) (fitsSigned_signed _ _ hw) (fitsSigned_toInt r)
  have hhalves := signed_modEq_unsigned ((r >>> w).setWidth w) (r.setWidth w)
  rw [unsigned_halves] at hhalves
  exact hhalves.trans (toInt_modEq r).symm

end Halves

/-! ## Products -/

section Products

variable (x y : BitVec w)

theorem toNat_wide_mul : (x.setWidth (w + w) * y.setWidth (w + w)).toNat = x.toNat * y.toNat := by
  have hlt : x.toNat * y.toNat < 2 ^ (w + w) := by
    rw [pow_add]
    exact Nat.mul_lt_mul'' x.isLt y.isLt
  rw [BitVec.toNat_mul, BitVec.toNat_setWidth_of_le (by omega),
    BitVec.toNat_setWidth_of_le (by omega), Nat.mod_eq_of_lt hlt]

theorem toInt_wide_mul (hw : 0 < w) :
    (x.signExtend (w + w) * y.signExtend (w + w)).toInt = x.toInt * y.toInt := by
  apply FitsSigned.eq_of_modEq (by omega) (fitsSigned_toInt _) (fitsSigned_product x y hw)
  rw [BitVec.toInt_mul, BitVec.toInt_signExtend_of_le (by omega),
    BitVec.toInt_signExtend_of_le (by omega), Int.ModEq]
  exact_mod_cast Int.bmod_emod

/-- The signed product from the unsigned one: the high word gives up each operand whose partner is
negative. -/
theorem signed_of_unsigned_product {hi lo : BitVec w} (hw : 0 < w)
    (h : unsigned hi lo = x.toNat * y.toNat) :
    signed (hi - (if x.toInt < 0 then y else 0) - (if y.toInt < 0 then x else 0)) lo =
      x.toInt * y.toInt := by
  apply FitsSigned.eq_of_modEq (by omega) (fitsSigned_signed _ _ hw) (fitsSigned_product x y hw)
  have hexact : (hi.toNat : ℤ) * 2 ^ w + lo.toNat = x.toNat * y.toNat := by exact_mod_cast h
  have hcorr (u v : BitVec w) : ((if u.toInt < 0 then v else 0).toNat : ℤ) * 2 ^ w =
      (if u.toInt < 0 then 2 ^ w else 0) * v.toNat := by
    split_ifs
    · exact mul_comm _ _
    · simp
  have hhigh := (toInt_sub_modEq _ _).trans (((toInt_sub_modEq _ _).trans
    ((toInt_modEq hi).sub (toInt_modEq (if x.toInt < 0 then y else 0)))).sub
    (toInt_modEq (if y.toInt < 0 then x else 0)))
  have hprod : x.toInt * y.toInt = ((hi.toNat : ℤ) - (if x.toInt < 0 then y else 0).toNat -
      (if y.toInt < 0 then x else 0).toNat) * 2 ^ w + lo.toNat +
      (if x.toInt < 0 then 2 ^ w else 0) * (if y.toInt < 0 then 2 ^ w else 0) := by
    linear_combination y.toInt * toInt_eq_toNat_sub x +
      (x.toNat - if x.toInt < 0 then 2 ^ w else 0) * toInt_eq_toNat_sub y - hexact +
      hcorr x y + hcorr y x
  have hsigns : (0 : ℤ) ≡ (if x.toInt < 0 then 2 ^ w else 0) * (if y.toInt < 0 then 2 ^ w else 0)
      [ZMOD 2 ^ w * 2 ^ w] := by
    split_ifs <;> simp [Int.ModEq]
  rw [pow_add, hprod, signed, ← add_zero (_ * 2 ^ w + (lo.toNat : ℤ))]
  exact (hhigh.mul_right'.add_right _).add hsigns

/-- The product of two numbers of two digits in the base `b`, from the products of their digits. -/
theorem schoolbook (b x₀ x₁ y₀ y₁ : ℕ) :
    let carry := x₀ * y₀ / b + x₀ * y₁ % b + x₁ * y₀ % b
    (x₁ * y₁ + x₀ * y₁ / b + x₁ * y₀ / b + carry / b) * (b * b) +
      (carry % b * b + x₀ * y₀ % b) = (x₁ * b + x₀) * (y₁ * b + y₀) := by
  intro carry
  have hcarry : carry = x₀ * y₀ / b + x₀ * y₁ % b + x₁ * y₀ % b := rfl
  have h₀₀ := Nat.div_add_mod (x₀ * y₀) b
  have h₀₁ := Nat.div_add_mod (x₀ * y₁) b
  have h₁₀ := Nat.div_add_mod (x₁ * y₀) b
  have hsplit := Nat.div_add_mod carry b
  linear_combination b * hsplit + b * hcarry + h₀₀ + b * h₀₁ + b * h₁₀

end Products

end DoubleWords
