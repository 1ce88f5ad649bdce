/-
# What the flag helpers compute

The value of each arithmetic flag after `UpdateFlagsLogic` and `UpdateFlagsArith` on 64-bit
operands, and the bits of `rflags` the helpers leave alone.

`UpdateFlagsLogic` always ends with CF and OF clear.  `UpdateFlagsArith` ends a subtraction with
the borrow and the signed overflow; an addition ends with CF clear as well, since at 64 bits no
result is above the mask.
-/
import ChuckStation.CpuFlags
import ChuckStation.WordOverflow

namespace Cpu

/-! ## Reading a flag that was set -/

namespace CpuContext

variable (ctx : CpuContext) {mask k : U64} (b : Bool)

@[simp] theorem flag_setGpr (r : RegIdx) (v : U64) :
    (ctx.setGpr r v).flag mask = ctx.flag mask := rfl

@[simp] theorem flag_advance (n : ℕ) : (ctx.advance n).flag mask = ctx.flag mask := rfl

@[simp] theorem flag_setRip (v : U64) : (ctx.setRip v).flag mask = ctx.flag mask := rfl

theorem advance_advance (m n : ℕ) : (ctx.advance m).advance n = ctx.advance (m + n) := by
  unfold advance
  rw [BitVec.ofNat_add, ← BitVec.add_assoc]

theorem flag_setFlag_self (hmask : mask ≠ 0) : (ctx.setFlag mask b).flag mask = b := by
  unfold flag setFlag
  cases b with
  | true =>
      have hself : (ctx.rflags ||| mask) &&& mask = mask := by
        ext i hi
        simp +contextual
      simpa [hself] using hmask
  | false =>
      have hnone : ctx.rflags &&& ~~~mask &&& mask = 0 := by
        ext i hi
        simp
      simp [hnone]

/-- A flag does not touch the bits outside its mask. -/
theorem setFlag_rflags_and (hdis : mask &&& k = 0) :
    (ctx.setFlag mask b).rflags &&& k = ctx.rflags &&& k := by
  have hbit (i : ℕ) : (mask.getLsbD i && k.getLsbD i) = false := by
    rw [← BitVec.getLsbD_and, hdis]
    exact BitVec.getLsbD_zero
  unfold setFlag
  ext i hi
  have hi' := hbit i
  simp only [BitVec.getLsbD_eq_getElem hi] at hi'
  cases b <;> cases hm : mask[i] <;> simp_all

theorem flag_setFlag_of_disjoint (hdis : mask &&& k = 0) :
    (ctx.setFlag mask b).flag k = ctx.flag k := by
  rw [flag, flag, setFlag_rflags_and ctx b hdis]

end CpuContext

/-! ## The arithmetic flags -/

namespace Flags

/-- The flags arithmetic writes. -/
abbrev arith : U64 := CF ||| PF ||| ZF ||| SF ||| OF

end Flags

/-- A flag of one bit is that bit. -/
theorem CpuContext.flag_twoPow (ctx : CpuContext) (i : ℕ) (hi : i < 64) :
    ctx.flag (BitVec.twoPow 64 i) = ctx.rflags.getLsbD i := by
  rw [flag, BitVec.and_twoPow]
  cases ctx.rflags.getLsbD i with
  | true =>
      have hne : BitVec.twoPow 64 i ≠ 0 := by
        intro h
        have hbit : (BitVec.twoPow 64 i).getLsbD i = false := by
          rw [h]
          exact BitVec.getLsbD_zero
        simp [hi] at hbit
      simpa using hne
  | false => rfl

/-- Two contexts have the same `rflags` as soon as they agree in the arithmetic flags and in the
bits outside them. -/
theorem rflags_eq_of_flags {ctx ctx' : CpuContext}
    (hother : ctx'.rflags &&& ~~~Flags.arith = ctx.rflags &&& ~~~Flags.arith)
    (hflags : ∀ mask ∈ [Flags.CF, Flags.PF, Flags.ZF, Flags.SF, Flags.OF],
      ctx'.flag mask = ctx.flag mask) : ctx'.rflags = ctx.rflags := by
  have hbits : ∀ i ∈ [0, 2, 6, 7, 11], ctx'.rflags.getLsbD i = ctx.rflags.getLsbD i := by
    have hmask : [Flags.CF, Flags.PF, Flags.ZF, Flags.SF, Flags.OF] =
        [0, 2, 6, 7, 11].map (BitVec.twoPow 64) := by decide
    intro i hi
    have hlt : i < 64 := by
      have : ∀ j ∈ [0, 2, 6, 7, 11], j < 64 := by decide
      exact this i hi
    rw [← CpuContext.flag_twoPow _ i hlt, ← CpuContext.flag_twoPow _ i hlt]
    exact hflags _ (by rw [hmask]; exact List.mem_map_of_mem hi)
  have harith : ∀ i < 64, i ∉ [0, 2, 6, 7, 11] → (~~~Flags.arith).getLsbD i = true := by decide
  apply BitVec.eq_of_getLsbD_eq
  intro i hi
  by_cases hmem : i ∈ [0, 2, 6, 7, 11]
  · exact hbits i hmem
  · have hsame := congrArg (fun v => v.getLsbD i) hother
    simpa only [BitVec.getLsbD_and, harith i hi hmem, Bool.and_true] using hsame

/-! ## Parity -/

/-- The number of set bits of the low byte. -/
def lowBits (r : U64) : ℕ := (List.range 8).countP fun i => r.getLsbD i

theorem foldParity_iff : ∀ b : Byte,
    (let v := b ^^^ (b >>> 4)
      let v := v ^^^ (v >>> 2)
      let v := v ^^^ (v >>> 1)
      (v &&& 1) == 0) = true ↔ (List.range 8).countP (fun i => b.getLsbD i) % 2 = 0 := by
  decide +kernel

/-- `Parity` tells whether the low byte has an even number of set bits. -/
theorem parity_iff (r : U64) : parity r = true ↔ Even (lowBits r) := by
  have hbyte : (r &&& 0xFF).setWidth 8 = r.setWidth 8 := by
    have hff : (0xFF : U64).setWidth 8 = BitVec.allOnes 8 := by decide
    rw [BitVec.setWidth_and, hff, BitVec.and_allOnes]
  have hlow : lowBits r = (List.range 8).countP fun i => (r.setWidth 8).getLsbD i := by
    refine List.countP_congr fun i hi => ?_
    have hlt : i < 8 := List.mem_range.mp hi
    simp [hlt]
  rw [hlow, Nat.even_iff, ← foldParity_iff, parity, hbyte]

/-! ## The helpers -/

/-- `ctx'` is `ctx` with CF and OF as given and ZF, SF and PF those of `r`. -/
structure Leaves (ctx : CpuContext) (r : U64) (cf ovf : Bool) (ctx' : CpuContext) : Prop where
  only : FlagsOnly ctx ctx'
  others : ctx'.rflags &&& ~~~Flags.arith = ctx.rflags &&& ~~~Flags.arith
  cf_eq : ctx'.flag Flags.CF = cf
  of_eq : ctx'.flag Flags.OF = ovf
  zf_eq : ctx'.flag Flags.ZF = (r == 0)
  sf_eq : ctx'.flag Flags.SF = r.msb
  pf_eq : ctx'.flag Flags.PF = parity r

/-- The lowest bit behind a shift by `i` places. -/
theorem shifted_bit (v : U64) (i : ℕ) : ((v >>> i &&& 1) != 0) = v.getLsbD i := by
  have hone : (1 : U64) = BitVec.twoPow 64 0 := by decide
  rw [hone, BitVec.and_twoPow, BitVec.getLsbD_ushiftRight, Nat.add_zero]
  cases v.getLsbD i <;> decide

theorem shifted_sign (v : U64) : ((v >>> 63 &&& 1) != 0) = v.msb := by
  rw [shifted_bit, BitVec.msb_eq_getLsbD_last]

/-- Testing the sign bit with a mask. -/
theorem masked_sign (v : U64) : ((v &&& (1 : U64) <<< 63) != 0) = v.msb := by
  have hone : (1 : U64) <<< 63 = BitVec.twoPow 64 63 := by decide
  rw [hone, BitVec.and_twoPow, BitVec.msb_eq_getLsbD_last]
  cases v.getLsbD 63 <;> decide

theorem and_operandMask64 (v : U64) : v &&& operandMask 64 = v := by
  have hmask : operandMask 64 = BitVec.allOnes 64 := by decide
  rw [hmask, BitVec.and_allOnes]

/-- No word is above the mask of the full width. -/
theorem not_operandMask64_ult (v : U64) : (operandMask 64).ult v = false := by
  have hmask : operandMask 64 = BitVec.allOnes 64 := by decide
  have hlt := v.isLt
  rw [hmask, BitVec.ult_eq_decide, BitVec.toNat_allOnes, decide_eq_false_iff_not]
  omega

section Helpers

variable (ctx : CpuContext)

/-- The flags set one after the other, in the order of `UpdateFlagsLogic`. -/
theorem leaves_of_logicOrder (r : U64) (c o : Bool) :
    Leaves ctx r c o (((((ctx.setFlag Flags.CF c).setFlag Flags.OF o).setFlag Flags.ZF
      (r == 0)).setFlag Flags.SF r.msb).setFlag Flags.PF (parity r)) where
  only := ((((FlagsOnly.setFlag _ _ _).trans (.setFlag _ _ _)).trans (.setFlag _ _ _)).trans
    (.setFlag _ _ _)).trans (.setFlag _ _ _)
  others := by simp (disch := decide) only [CpuContext.setFlag_rflags_and]
  cf_eq := by
    simp (disch := decide) only [CpuContext.flag_setFlag_of_disjoint, CpuContext.flag_setFlag_self]
  of_eq := by
    simp (disch := decide) only [CpuContext.flag_setFlag_of_disjoint, CpuContext.flag_setFlag_self]
  zf_eq := by
    simp (disch := decide) only [CpuContext.flag_setFlag_of_disjoint, CpuContext.flag_setFlag_self]
  sf_eq := by
    simp (disch := decide) only [CpuContext.flag_setFlag_of_disjoint, CpuContext.flag_setFlag_self]
  pf_eq := by simp (disch := decide) only [CpuContext.flag_setFlag_self]

/-- The flags set one after the other, in the order of `UpdateFlagsArith`. -/
theorem leaves_of_arithOrder (r : U64) (c o : Bool) :
    Leaves ctx r c o (((((ctx.setFlag Flags.ZF (r == 0)).setFlag Flags.SF r.msb).setFlag Flags.PF
      (parity r)).setFlag Flags.CF c).setFlag Flags.OF o) where
  only := ((((FlagsOnly.setFlag _ _ _).trans (.setFlag _ _ _)).trans (.setFlag _ _ _)).trans
    (.setFlag _ _ _)).trans (.setFlag _ _ _)
  others := by simp (disch := decide) only [CpuContext.setFlag_rflags_and]
  cf_eq := by
    simp (disch := decide) only [CpuContext.flag_setFlag_of_disjoint, CpuContext.flag_setFlag_self]
  of_eq := by simp (disch := decide) only [CpuContext.flag_setFlag_self]
  zf_eq := by
    simp (disch := decide) only [CpuContext.flag_setFlag_of_disjoint, CpuContext.flag_setFlag_self]
  sf_eq := by
    simp (disch := decide) only [CpuContext.flag_setFlag_of_disjoint, CpuContext.flag_setFlag_self]
  pf_eq := by
    simp (disch := decide) only [CpuContext.flag_setFlag_of_disjoint, CpuContext.flag_setFlag_self]

/-- A logic result leaves CF and OF clear. -/
theorem updateFlagsLogic_leaves (r : U64) :
    ∃ ctx', updateFlagsLogic ctx r 64 = .ok ctx' ∧ Leaves ctx r false false ctx' := by
  refine ⟨_, ?_, leaves_of_logicOrder ctx r false false⟩
  rw [updateFlagsLogic, hostShr_of_lt (by norm_num)]
  simp only [and_operandMask64, shifted_sign, ok_bind, Nat.reduceSub]
  rfl

/-- A subtraction leaves the borrow in CF and the signed overflow in OF. -/
theorem updateFlagsArith_sub_leaves (a b : U64) :
    ∃ ctx', updateFlagsArith ctx a b (a - b) true 64 = .ok ctx' ∧
      Leaves ctx (a - b) (a.ult b) (a.ssubOverflow b) ctx' := by
  refine ⟨_, ?_, leaves_of_arithOrder ctx (a - b) (a.ult b) (a.ssubOverflow b)⟩
  rw [updateFlagsArith, hostShl_of_lt (by norm_num), hostShr_of_lt (by norm_num),
    hostShr_of_lt (by norm_num)]
  simp only [and_operandMask64, shifted_sign, ok_bind, Nat.reduceSub,
    WordOverflow.msb_sub_signs]
  rfl

/-- An addition leaves CF clear, whether the sum carries or not, and the signed overflow in
OF. -/
theorem updateFlagsArith_add_leaves (a b : U64) :
    ∃ ctx', updateFlagsArith ctx a b (a + b) false 64 = .ok ctx' ∧
      Leaves ctx (a + b) false (a.saddOverflow b) ctx' := by
  refine ⟨_, ?_, leaves_of_arithOrder ctx (a + b) false (a.saddOverflow b)⟩
  rw [updateFlagsArith, hostShl_of_lt (by norm_num), hostShr_of_lt (by norm_num)]
  simp only [and_operandMask64, shifted_sign, masked_sign, ok_bind, Nat.reduceSub,
    WordOverflow.msb_add_signs, not_operandMask64_ult]
  rfl

end Helpers

end Cpu
