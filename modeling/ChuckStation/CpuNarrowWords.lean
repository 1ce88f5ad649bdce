/-
# 32-bit operations on 64-bit words

The low halves of 64-bit words: when a 64-bit result is the zero-extended 32-bit one and its flags
are the same, operation by operation, as a condition on the operands.
-/
import ChuckStation.CpuMultiplication
import ChuckStation.CpuShifts

namespace Cpu

/-! ## Halves -/

/-- The low half. -/
def low (v : U64) : U32 := v.setWidth 32

/-- The high half. -/
def high (v : U64) : U32 := (v >>> 32).setWidth 32

/-- The word that a 32-bit result leaves in a register. -/
def extend (r : U32) : U64 := r.setWidth 64

section Halves

variable (v : U64) (r : U32)

theorem low_toNat : (low v).toNat = v.toNat % 2 ^ 32 := BitVec.toNat_setWidth 32 v

theorem high_toNat : (high v).toNat = v.toNat / 2 ^ 32 := by
  have hv := v.isLt
  rw [high, BitVec.toNat_setWidth, toNat_high]
  omega

theorem extend_toNat : (extend r).toNat = r.toNat :=
  BitVec.toNat_setWidth_of_le (by norm_num)

@[simp] theorem low_extend : low (extend r) = r := by
  apply BitVec.eq_of_toNat_eq
  rw [low_toNat, extend_toNat, Nat.mod_eq_of_lt r.isLt]

theorem msb_extend : (extend r).msb = false := by
  have hr := r.isLt
  rw [BitVec.msb_eq_false_iff_two_mul_lt, extend_toNat]
  omega

theorem extend_injective : Function.Injective extend :=
  Function.LeftInverse.injective low_extend

theorem eq_extend_low_iff : v = extend (low v) ↔ v.toNat < 2 ^ 32 := by
  rw [← BitVec.toNat_inj, extend_toNat, low_toNat]
  omega

theorem msb_low_iff : (low v).msb = false ↔ v.toNat % 2 ^ 32 < 2 ^ 31 := by
  rw [BitVec.msb_eq_false_iff_two_mul_lt, low_toNat]
  omega

/-- A word is its zero-extended low half, with the sign clear, exactly below `2 ^ 31`. -/
theorem eq_extend_low_and_msb_iff :
    v = extend (low v) ∧ (low v).msb = false ↔ v.toNat < 2 ^ 31 := by
  rw [eq_extend_low_iff, msb_low_iff]
  omega

end Halves

/-! ## Sums -/

namespace SumOp

variable {w : ℕ}

/-- The result on words of any width. -/
def on : SumOp → BitVec w → BitVec w → BitVec w
  | .add, a, b => a + b
  | .sub, a, b => a - b

/-- CF on words of any width. -/
def carryOn : SumOp → BitVec w → BitVec w → Bool
  | .add, a, b => a.uaddOverflow b
  | .sub, a, b => a.ult b

/-- OF on words of any width. -/
def overflowOn : SumOp → BitVec w → BitVec w → Bool
  | .add, a, b => a.saddOverflow b
  | .sub, a, b => a.ssubOverflow b

/-- The sum of the words and its flags are those of their low halves. -/
def Narrows : SumOp → U64 → U64 → Prop
  | .add, a, b =>
      (low a).toNat + (low b).toNat < 2 ^ 31 ∧ high a + high b = 0 ∧ high a ≠ BitVec.intMin 32
  | .sub, a, b =>
      high a = high b ∧ (low a).msb = (low b).msb ∧ (low b).toNat ≤ (low a).toNat ∨
        high a = 0 ∧ high b = BitVec.allOnes 32 ∧ (low a).toNat + 2 ^ 31 < (low b).toNat

theorem low_apply (op : SumOp) (a b : U64) : low (op.apply a b) = op.on (low a) (low b) := by
  cases op with
  | add => exact BitVec.setWidth_add a b (by norm_num)
  | sub =>
      apply BitVec.eq_of_toNat_eq
      simp only [apply, on, low_toNat, BitVec.toNat_sub]
      omega

theorem add_narrows_iff (a b : U64) :
    (a + b).toNat < 2 ^ 31 ∧ false = (low a).uaddOverflow (low b) ∧
      a.saddOverflow b = (low a).saddOverflow (low b) ↔ SumOp.add.Narrows a b := by
  have ha := a.isLt
  have hb := b.isLt
  have hcarry : false = (low a).uaddOverflow (low b) ↔
      a.toNat % 2 ^ 32 + b.toNat % 2 ^ 32 < 2 ^ 32 := by
    rw [eq_comm, BitVec.uaddOverflow, decide_eq_false_iff_not, low_toNat, low_toNat, not_le]
  have hhigh : high a + high b = 0 ↔ (a.toNat / 2 ^ 32 + b.toNat / 2 ^ 32) % 2 ^ 32 = 0 := by
    rw [← BitVec.toNat_inj, BitVec.toNat_add, high_toNat, high_toNat]
    rfl
  have hmin : high a ≠ BitVec.intMin 32 ↔ a.toNat / 2 ^ 32 ≠ 2 ^ 31 := by
    rw [ne_eq, ← BitVec.toNat_inj, high_toNat]
    rfl
  rw [SumOp.Narrows, hcarry, hhigh, hmin, Bool.eq_iff_iff,
    WordOverflow.saddOverflow_iff_toNat _ _ (by norm_num),
    WordOverflow.saddOverflow_iff_toNat _ _ (by norm_num), BitVec.toNat_add, low_toNat, low_toNat]
  omega

theorem sub_narrows_iff (a b : U64) :
    (a - b).toNat < 2 ^ 31 ∧ a.ult b = (low a).ult (low b) ∧
      a.ssubOverflow b = (low a).ssubOverflow (low b) ↔ SumOp.sub.Narrows a b := by
  have ha := a.isLt
  have hb := b.isLt
  have hcarry : a.ult b = (low a).ult (low b) ↔
      (a.toNat < b.toNat ↔ a.toNat % 2 ^ 32 < b.toNat % 2 ^ 32) := by
    rw [BitVec.ult_eq_decide, BitVec.ult_eq_decide, decide_eq_decide, low_toNat, low_toNat]
  have hsign : (low a).msb = (low b).msb ↔
      (a.toNat % 2 ^ 32 < 2 ^ 31 ↔ b.toNat % 2 ^ 32 < 2 ^ 31) := by
    rw [← msb_low_iff, ← msb_low_iff]
    cases (low a).msb <;> cases (low b).msb <;> simp
  have hzero : high a = 0 ↔ a.toNat / 2 ^ 32 = 0 := by
    rw [← BitVec.toNat_inj, high_toNat]
    rfl
  have hones : high b = BitVec.allOnes 32 ↔ b.toNat / 2 ^ 32 = 2 ^ 32 - 1 := by
    rw [← BitVec.toNat_inj, high_toNat, BitVec.toNat_allOnes]
  have hsame : high a = high b ↔ a.toNat / 2 ^ 32 = b.toNat / 2 ^ 32 := by
    rw [← BitVec.toNat_inj, high_toNat, high_toNat]
  rw [SumOp.Narrows, hcarry, hsame, hzero, hones, hsign, Bool.eq_iff_iff,
    WordOverflow.ssubOverflow_iff_toNat _ _ (by norm_num),
    WordOverflow.ssubOverflow_iff_toNat _ _ (by norm_num), BitVec.toNat_sub, low_toNat, low_toNat]
  omega

theorem narrows_iff (op : SumOp) (a b : U64) :
    (op.apply a b = extend (op.on (low a) (low b)) ∧ (op.on (low a) (low b)).msb = false) ∧
      op.helperCarry a b = op.carryOn (low a) (low b) ∧
      op.helperOverflow a b = op.overflowOn (low a) (low b) ↔ op.Narrows a b := by
  rw [← low_apply, eq_extend_low_and_msb_iff]
  cases op with
  | add => exact add_narrows_iff a b
  | sub => exact sub_narrows_iff a b

end SumOp

/-! ## Logic -/

/-- The bitwise operations. -/
inductive LogicOp where
  | or
  | and
  | xor
  deriving DecidableEq, Repr

namespace LogicOp

variable {w : ℕ}

/-- The result on words of any width. -/
def on : LogicOp → BitVec w → BitVec w → BitVec w
  | .or, a, b => a ||| b
  | .and, a, b => a &&& b
  | .xor, a, b => a ^^^ b

/-- No bit above the 31st of the operands reaches the result. -/
def Narrows (op : LogicOp) (a b : U64) : Prop := op.on (a >>> 31) (b >>> 31) = 0

theorem low_on (op : LogicOp) (a b : U64) : low (op.on a b) = op.on (low a) (low b) := by
  cases op with
  | or => exact BitVec.setWidth_or
  | and => exact BitVec.setWidth_and
  | xor => exact BitVec.setWidth_xor

theorem on_ushiftRight (op : LogicOp) (a b : BitVec w) (n : ℕ) :
    op.on (a >>> n) (b >>> n) = op.on a b >>> n := by
  cases op with
  | or => exact (BitVec.ushiftRight_or_distrib a b n).symm
  | and => exact (BitVec.ushiftRight_and_distrib a b n).symm
  | xor => exact (BitVec.ushiftRight_xor_distrib a b n).symm

theorem narrows_iff (op : LogicOp) (a b : U64) :
    op.on a b = extend (op.on (low a) (low b)) ∧ (op.on (low a) (low b)).msb = false ↔
      op.Narrows a b := by
  have hzero : (0 : U64).toNat = 0 := rfl
  rw [← low_on, eq_extend_low_and_msb_iff, Narrows, on_ushiftRight, ← BitVec.toNat_inj,
    BitVec.toNat_ushiftRight, Nat.shiftRight_eq_div_pow, hzero]
  omega

end LogicOp

/-! ## INC, DEC and NEG -/

namespace UnaryOp

/-- The result on the low half. -/
def low32 (u : UnaryOp) (v : U64) : U32 := u.sum.on (low (u.left v)) (low (u.right v))

/-- OF on the low half. -/
def overflow32 (u : UnaryOp) (v : U64) : Bool :=
  u.sum.overflowOn (low (u.left v)) (low (u.right v))

/-- The value of the word is that of its low half. -/
def Narrows : UnaryOp → U64 → Prop
  | .inc, v => v.toNat + 1 < 2 ^ 31 ∨ v = -1
  | .dec, v => 1 ≤ v.toNat ∧ v.toNat ≤ 2 ^ 31
  | .neg, v => v = 0 ∨ 2 ^ 64 - 2 ^ 31 < v.toNat

theorem inc_narrows_iff (v : U64) :
    inc.Narrows v ↔ v.toNat + 1 < 2 ^ 31 ∨ v.toNat = 2 ^ 64 - 1 :=
  or_congr_right BitVec.toNat_eq

theorem neg_narrows_iff (v : U64) : neg.Narrows v ↔ v.toNat = 0 ∨ 2 ^ 64 - 2 ^ 31 < v.toNat :=
  or_congr_left BitVec.toNat_eq

theorem narrows_iff (u : UnaryOp) (v : U64) :
    u.value v = extend (u.low32 v) ∧ (u.low32 v).msb = false ↔ u.Narrows v := by
  have hv := v.isLt
  have hone : (1 : U64).toNat = 1 := rfl
  have hnull : (0 : U64).toNat = 0 := rfl
  rw [low32, ← SumOp.low_apply, value, eq_extend_low_and_msb_iff]
  cases u with
  | inc =>
      show (v + 1).toNat < 2 ^ 31 ↔ _
      rw [inc_narrows_iff, BitVec.toNat_add, hone]
      omega
  | dec =>
      show (v - 1).toNat < 2 ^ 31 ↔ _ ∧ _
      rw [BitVec.toNat_sub, hone]
      omega
  | neg =>
      show (0 - v).toNat < 2 ^ 31 ↔ _
      rw [neg_narrows_iff, BitVec.toNat_sub, hnull]
      omega

/-- Among the values that stay the same, only the smallest signed word overflows the low half. -/
theorem overflow32_of_narrows {u : UnaryOp} {v : U64} (h : u.Narrows v) :
    u.overflow32 v = decide (u = .dec ∧ v = 0x80000000) := by
  have hv := v.isLt
  rw [Bool.eq_iff_iff, decide_eq_true_eq]
  cases u with
  | inc =>
      have hone : (low 1).toNat = 1 := rfl
      show (low v).saddOverflow (low 1) = true ↔ _
      rw [inc_narrows_iff] at h
      rw [WordOverflow.saddOverflow_iff_toNat _ _ (by norm_num), low_toNat, hone]
      simp only [reduceCtorEq, false_and, iff_false]
      omega
  | dec =>
      have hmin : v = 0x80000000 ↔ v.toNat = 2 ^ 31 := BitVec.toNat_eq
      have hone : (low 1).toNat = 1 := rfl
      show (low v).ssubOverflow (low 1) = true ↔ _
      rw [Narrows] at h
      rw [WordOverflow.ssubOverflow_iff_toNat _ _ (by norm_num), low_toNat, hone, hmin]
      simp only [true_and]
      omega
  | neg =>
      have hnull : (0 : U64).toNat = 0 := rfl
      show (low 0).ssubOverflow (low v) = true ↔ _
      rw [neg_narrows_iff] at h
      rw [WordOverflow.ssubOverflow_iff_toNat _ _ (by norm_num), low_toNat, low_toNat, hnull]
      simp only [reduceCtorEq, false_and, iff_false]
      omega

/-- The largest signed word has no successor below `2 ^ 31`. -/
theorem inc_beq_max {v : U64} (h : inc.Narrows v) :
    (v == 0x7FFFFFFFFFFFFFFF) = decide (inc = dec ∧ v = 0x80000000) := by
  have hmax : v ≠ 0x7FFFFFFFFFFFFFFF := by
    rintro rfl
    exact absurd h (by unfold Narrows; decide)
  simpa using hmax

/-- A negative that stays the same is 0 in both widths or in neither. -/
theorem neg_bne_zero {v : U64} (h : neg.Narrows v) : (v != 0) = (low v != 0) := by
  have hv := v.isLt
  have hzero : v = 0 ↔ v.toNat = 0 := BitVec.toNat_eq
  have hlow : low v = 0 ↔ v.toNat % 2 ^ 32 = 0 := by
    rw [BitVec.toNat_eq, low_toNat]
    rfl
  rw [neg_narrows_iff] at h
  rw [Bool.eq_iff_iff, bne_iff_ne, bne_iff_ne, ne_eq, ne_eq, hzero, hlow]
  omega

end UnaryOp

/-! ## Shifts -/

namespace ShiftOp

variable {w : ℕ}

/-- The shifted word of any width. -/
def on : ShiftOp → BitVec w → ℕ → BitVec w
  | .shl, v, n => v <<< n
  | .shr, v, n => v >>> n
  | .sar, v, n => v.sshiftRight n

/-- The bit of a word of any width that `n` shifts by one place drop last. -/
def lastOutOn (op : ShiftOp) (v : BitVec w) (n : ℕ) : Bool :=
  match op with
  | .shl => (v <<< (n - 1)).msb
  | .shr => (v >>> (n - 1)).getLsbD 0
  | .sar => (v.sshiftRight (n - 1)).getLsbD 0

/-- OF after a shift of a word of any width by one place. -/
def overflowOn : ShiftOp → BitVec w → Bool
  | .shl, v => (v <<< 1).msb != v.msb
  | .shr, v => v.msb
  | .sar, _ => false

/-- The word shifted by `n` places is its low half shifted by `n % 32`. -/
def Narrows : ShiftOp → U64 → ℕ → Prop
  | .shl, v, n =>
      if n = 0 then high v = 0
      else if n < 32 then v.toNat * 2 ^ n % 2 ^ 64 < 2 ^ 31
      else low v <<< (n % 32) = 0
  | .shr, v, n => if n < 32 then high v = 0 else high v >>> (n % 32) = low v >>> (n % 32)
  | .sar, v, n =>
      (if n < 32 then high v = 0 else high v >>> (n % 32) = low v >>> (n % 32)) ∧
        (high v).msb = false ∧ (n % 32 ≠ 0 → (low v).msb = false)

theorem on_zero (op : ShiftOp) (v : BitVec w) : op.on v 0 = v := by
  cases op with
  | shl => exact BitVec.shiftLeft_zero v
  | shr => exact BitVec.ushiftRight_zero v
  | sar => exact BitVec.sshiftRight_zero

theorem high_eq_zero_iff (v : U64) : high v = 0 ↔ v.toNat < 2 ^ 32 := by
  have hzero : (0 : U32).toNat = 0 := rfl
  rw [← BitVec.toNat_inj, high_toNat, hzero]
  omega

/-- Shifting right keeps the high half out only if it is empty. -/
theorem div_eq_low_div_iff {m n : ℕ} (hn : n < 32) :
    m / 2 ^ n = m % 2 ^ 32 / 2 ^ n ↔ m < 2 ^ 32 := by
  constructor
  · intro h
    by_contra hle
    have hpow : 2 ^ 32 = 2 ^ (32 - n) * 2 ^ n := by
      rw [← pow_add, Nat.sub_add_cancel hn.le]
    have hlow : m % 2 ^ 32 / 2 ^ n < 2 ^ (32 - n) := by
      rw [Nat.div_lt_iff_lt_mul (Nat.two_pow_pos n), ← hpow]
      exact Nat.mod_lt _ (by norm_num)
    have hhigh : 2 ^ (32 - n) ≤ m / 2 ^ n := by
      rw [Nat.le_div_iff_mul_le (Nat.two_pow_pos n), ← hpow]
      exact not_lt.mp hle
    omega
  · intro h
    rw [Nat.mod_eq_of_lt h]

theorem shr_eq_iff (v : U64) {n : ℕ} (hn : n < 64) :
    v >>> n = extend (low v >>> (n % 32)) ↔ shr.Narrows v n := by
  rw [Narrows]
  split_ifs with hsmall
  · rw [Nat.mod_eq_of_lt hsmall, high_eq_zero_iff, ← BitVec.toNat_inj, extend_toNat,
      BitVec.toNat_ushiftRight, BitVec.toNat_ushiftRight, Nat.shiftRight_eq_div_pow,
      Nat.shiftRight_eq_div_pow, low_toNat]
    exact div_eq_low_div_iff hsmall
  · have hsplit : n = 32 + n % 32 := by omega
    have hfar : v >>> n = extend (high v >>> (n % 32)) := by
      apply BitVec.eq_of_toNat_eq
      rw [extend_toNat, BitVec.toNat_ushiftRight, BitVec.toNat_ushiftRight,
        Nat.shiftRight_eq_div_pow, Nat.shiftRight_eq_div_pow, high_toNat, Nat.div_div_eq_div_mul,
        ← pow_add, ← hsplit]
    rw [hfar]
    exact extend_injective.eq_iff

theorem msb_shiftedRight {r : U32} {k : ℕ} (hk : k ≠ 0) : (r >>> k).msb = false := by
  have hr := r.isLt
  rw [BitVec.msb_eq_false_iff_two_mul_lt, BitVec.toNat_ushiftRight, Nat.shiftRight_eq_div_pow]
  have hhalf : r.toNat / 2 ^ k ≤ r.toNat / 2 ^ 1 :=
    Nat.div_le_div_left (Nat.pow_le_pow_right (by norm_num) (by omega)) (by norm_num)
  omega

theorem shl_narrows_iff (v : U64) {n : ℕ} (hn : n < 64) :
    v <<< n = extend (low v <<< (n % 32)) ∧ (n % 32 ≠ 0 → (low v <<< (n % 32)).msb = false) ↔
      shl.Narrows v n := by
  have hlow : low (v <<< n) = low v <<< n := BitVec.setWidth_shiftLeft_of_le (by norm_num)
  rw [Narrows]
  split_ifs with hzero hsmall
  · subst hzero
    rw [Nat.zero_mod, BitVec.shiftLeft_zero, BitVec.shiftLeft_zero, eq_extend_low_iff,
      high_eq_zero_iff]
    exact and_iff_left fun hne => absurd rfl hne
  · have hval : (v <<< n).toNat = v.toNat * 2 ^ n % 2 ^ 64 := by
      rw [BitVec.toNat_shiftLeft, Nat.shiftLeft_eq]
    rw [Nat.mod_eq_of_lt hsmall, ← hlow, ← hval, ← eq_extend_low_and_msb_iff]
    exact and_congr_right fun _ => ⟨fun h => h hzero, fun h _ => h⟩
  · -- the low half of the result is empty
    have hempty : low (v <<< n) = 0 := by
      rw [hlow]
      exact BitVec.shiftLeft_eq_zero (by omega)
    constructor
    · rintro ⟨heq, -⟩
      rw [← hempty, heq, low_extend]
    · intro hdrop
      have hnat : v.toNat * 2 ^ (n % 32) % 2 ^ 32 = 0 := by
        have hdrop' := congrArg BitVec.toNat hdrop
        rw [BitVec.toNat_shiftLeft, Nat.shiftLeft_eq, low_toNat, Nat.mod_mul_mod] at hdrop'
        exact hdrop'
      have hzero : v <<< n = 0 := by
        apply BitVec.eq_of_toNat_eq
        have hsplit : 2 ^ n = 2 ^ (n % 32) * 2 ^ 32 := by
          rw [← pow_add]
          congr 1
          omega
        rw [BitVec.toNat_shiftLeft, Nat.shiftLeft_eq, hsplit, ← mul_assoc]
        have h0 : (0 : U64).toNat = 0 := rfl
        omega
      rw [hdrop, hzero]
      exact ⟨rfl, fun _ => rfl⟩

theorem sar_narrows_iff (v : U64) {n : ℕ} (hn : n < 64) :
    v.sshiftRight n = extend ((low v).sshiftRight (n % 32)) ∧
      (n % 32 ≠ 0 → ((low v).sshiftRight (n % 32)).msb = false) ↔ sar.Narrows v n := by
  have hmsb : (high v).msb = v.msb := by
    rw [BitVec.msb_eq_decide, BitVec.msb_eq_decide, high_toNat, decide_eq_decide]
    omega
  rw [BitVec.msb_sshiftRight]
  show _ ↔ shr.Narrows v n ∧ (high v).msb = false ∧ (n % 32 ≠ 0 → (low v).msb = false)
  rw [← shr_eq_iff v hn, hmsb]
  cases hv : v.msb with
  | true =>
      refine iff_of_false (fun h => ?_) (fun h => by cases h.2.1)
      have hsign := congrArg BitVec.msb h.1
      rw [BitVec.msb_sshiftRight, hv, msb_extend] at hsign
      cases hsign
  | false =>
      rw [BitVec.sshiftRight_eq_of_msb_false hv]
      by_cases hk : n % 32 = 0
      · rw [hk, BitVec.sshiftRight_zero, BitVec.ushiftRight_zero]
        simp
      · simp only [ne_eq, hk, not_false_eq_true, true_imp_iff, true_and]
        refine and_congr_left fun hlow => ?_
        rw [BitVec.sshiftRight_eq_of_msb_false hlow]

/-- The shifted word is that of the low half, with its sign clear if the flags show it, exactly if
the shift narrows. -/
theorem narrows_iff (op : ShiftOp) (v : U64) {n : ℕ} (hn : n < 64) :
    op.apply v n = extend (op.on (low v) (n % 32)) ∧
      (n % 32 ≠ 0 → (op.on (low v) (n % 32)).msb = false) ↔ op.Narrows v n := by
  cases op with
  | shl => exact shl_narrows_iff v hn
  | shr => exact (and_iff_left fun hk => msb_shiftedRight hk).trans (shr_eq_iff v hn)
  | sar => exact sar_narrows_iff v hn

end ShiftOp

/-! ## Products -/

/-- The low half stands for the same number modulo `2 ^ 32`. -/
theorem low_modEq (v : U64) : ((low v).toNat : ℤ) ≡ v.toNat [ZMOD 2 ^ 32] := by
  rw [low_toNat]
  exact_mod_cast Nat.mod_modEq v.toNat (2 ^ 32)

theorem low_toInt_modEq (v : U64) : (low v).toInt ≡ v.toInt [ZMOD 2 ^ 32] :=
  (DoubleWords.toInt_modEq (low v)).trans ((low_modEq v).trans
    ((DoubleWords.toInt_modEq v).symm.of_dvd (by norm_num)))

namespace MulForm

/-- The product of the low halves of the operands. -/
def product32 : MulForm → CpuContext → ℤ
  | .mul rm, ctx => (low (ctx.gpr Reg.RAX)).toNat * (low (ctx.gpr rm)).toNat
  | .imul rm, ctx => (low (ctx.gpr Reg.RAX)).toInt * (low (ctx.gpr rm)).toInt
  | .imulReg dst rm, ctx => (low (ctx.gpr dst)).toInt * (low (ctx.gpr rm)).toInt
  | .imulImm _ rm imm, ctx => (low (ctx.gpr rm)).toInt * (low imm).toInt

/-- The number is one of a 32-bit word, as the operands are read. -/
def Fits32 : MulForm → ℤ → Prop
  | .mul _, n => WordOverflow.FitsUnsigned 32 n
  | .imul _, n | .imulReg _ _, n | .imulImm _ _ _, n => WordOverflow.FitsSigned 32 n

instance (form : MulForm) (n : ℤ) : Decidable (form.Fits32 n) := by
  cases form <;> exact inferInstanceAs (Decidable (_ ∧ _))

/-- The 32-bit product in its place: both words in EDX:EAX, or the low one in the destination. -/
def store32 : MulForm → ℤ → (RegIdx → U64) → RegIdx → U64
  | .mul _, n, gpr | .imul _, n, gpr =>
      Function.update (Function.update gpr Reg.RAX (extend (BitVec.ofInt 32 n))) Reg.RDX
        (extend (BitVec.ofInt 32 (n / 2 ^ 32)))
  | .imulReg dst _, n, gpr | .imulImm dst _ _, n, gpr =>
      Function.update gpr dst (extend (BitVec.ofInt 32 n))

/-- The form stores both words of the product. -/
def wide : MulForm → Bool
  | .mul _ | .imul _ => true
  | .imulReg _ _ | .imulImm _ _ _ => false

/-- The words of the product are those of the product of the low halves, and either both overflow
or neither. -/
def Narrows (form : MulForm) (ctx : CpuContext) : Prop :=
  form.product ctx % 2 ^ 64 < 2 ^ 32 ∧
    (form.wide = true →
      form.product ctx / 2 ^ 64 % 2 ^ 64 = form.product32 ctx / 2 ^ 32 % 2 ^ 32) ∧
    (form.Fits (form.product ctx) ↔ form.Fits32 (form.product32 ctx))

theorem product_modEq (form : MulForm) (ctx : CpuContext) :
    form.product32 ctx ≡ form.product ctx [ZMOD 2 ^ 32] := by
  cases form with
  | mul rm => exact (low_modEq _).mul (low_modEq _)
  | imul rm => exact (low_toInt_modEq _).mul (low_toInt_modEq _)
  | imulReg dst rm => exact (low_toInt_modEq _).mul (low_toInt_modEq _)
  | imulImm dst rm imm => exact (low_toInt_modEq _).mul (low_toInt_modEq _)

/-- The two words of a product. -/
theorem words_of_value {form : MulForm} {hi lo : U64} {n : ℤ} (h : form.value hi lo = n) :
    (lo.toNat : ℤ) = n % 2 ^ 64 ∧ (hi.toNat : ℤ) = n / 2 ^ 64 % 2 ^ 64 := by
  cases form with
  | mul rm => exact DoubleWords.words_of_unsigned _ _ h
  | imul rm => exact DoubleWords.words_of_signed _ _ h
  | imulReg dst rm => exact DoubleWords.words_of_signed _ _ h
  | imulImm dst rm imm => exact DoubleWords.words_of_signed _ _ h

theorem eq_extend_ofInt_iff (v : U64) (n : ℤ) :
    v = extend (BitVec.ofInt 32 n) ↔ (v.toNat : ℤ) = n % 2 ^ 32 := by
  rw [← BitVec.toNat_inj, extend_toNat, BitVec.toNat_ofInt]
  push_cast
  omega

theorem update_pair_eq_iff {gpr : RegIdx → U64} {a a' d d' : U64} :
    Function.update (Function.update gpr Reg.RAX a) Reg.RDX d =
      Function.update (Function.update gpr Reg.RAX a') Reg.RDX d' ↔ a = a' ∧ d = d' := by
  constructor
  · intro h
    exact ⟨congrFun h Reg.RAX, by simpa using congrFun h Reg.RDX⟩
  · rintro ⟨rfl, rfl⟩
    rfl

theorem store_eq_iff {form : MulForm} {ctx : CpuContext} {hi lo : U64}
    (h : form.value hi lo = form.product ctx) :
    form.store hi lo ctx.gpr = form.store32 (form.product32 ctx) ctx.gpr ↔
      form.product ctx % 2 ^ 64 < 2 ^ 32 ∧ (form.wide = true →
        form.product ctx / 2 ^ 64 % 2 ^ 64 = form.product32 ctx / 2 ^ 32 % 2 ^ 32) := by
  obtain ⟨hlo, hhi⟩ := words_of_value h
  have hmod : form.product32 ctx % 2 ^ 32 = form.product ctx % 2 ^ 32 := form.product_modEq ctx
  have hlow : lo = extend (BitVec.ofInt 32 (form.product32 ctx)) ↔
      form.product ctx % 2 ^ 64 < 2 ^ 32 := by
    rw [eq_extend_ofInt_iff, hlo, hmod]
    omega
  have hhigh : hi = extend (BitVec.ofInt 32 (form.product32 ctx / 2 ^ 32)) ↔
      form.product ctx / 2 ^ 64 % 2 ^ 64 = form.product32 ctx / 2 ^ 32 % 2 ^ 32 := by
    rw [eq_extend_ofInt_iff, hhi]
  rw [← hlow, ← hhigh]
  cases form with
  | mul rm =>
      exact update_pair_eq_iff.trans (and_congr_right fun _ => ⟨fun h _ => h, fun h => h rfl⟩)
  | imul rm =>
      exact update_pair_eq_iff.trans (and_congr_right fun _ => ⟨fun h _ => h, fun h => h rfl⟩)
  | imulReg dst rm =>
      exact (Function.update_injective _ _).eq_iff.trans (and_iff_left fun h => by cases h).symm
  | imulImm dst rm imm =>
      exact (Function.update_injective _ _).eq_iff.trans (and_iff_left fun h => by cases h).symm

end MulForm

end Cpu
