/-
# Multiplication

The portable branches of `Mul128U` and `Mul128S` (`Cpu.cpp`) against the native ones, and both
against the exact products; MUL, IMUL with one operand, IMUL r, r and IMUL r, r, imm32 over them.

The portable unsigned product is the schoolbook one over 32-bit digits.  The portable signed product
corrects its high word by each operand whose partner is negative.  The cases compare the high word
with zero, or with the sign of the low one, which tells whether the low word alone holds the
product.
-/
import ChuckStation.CpuAddSub
import ChuckStation.DoubleWords

namespace Cpu

open Guest WordOverflow

/-! ## The portable products -/

/-- `Mul128U(a, b, hi, lo)` without 128-bit integers, as the pair `(hi, lo)`. -/
def mul128UPortable (a b : U64) : U64 × U64 :=
  let a_lo : U64 := (a.setWidth 32).setWidth 64
  let a_hi := a >>> 32
  let b_lo : U64 := (b.setWidth 32).setWidth 64
  let b_hi := b >>> 32
  let p0 := a_lo * b_lo
  let p1 := a_lo * b_hi
  let p2 := a_hi * b_lo
  let p3 := a_hi * b_hi
  let cy := (p0 >>> 32) + (p1.setWidth 32).setWidth 64 + (p2.setWidth 32).setWidth 64
  let lo : U64 := (p0 &&& (0xFFFFFFFF : U64)) ||| ((cy &&& (0xFFFFFFFF : U64)) <<< 32)
  let hi := p3 + (p1 >>> 32) + (p2 >>> 32) + (cy >>> 32)
  (hi, lo)

/-- `Mul128S(a, b, hi, lo)` without 128-bit integers, as the pair `(hi, lo)`. -/
def mul128SPortable (a b : U64) : U64 × U64 :=
  let u := mul128UPortable a b
  let u_hi := if a.toInt < 0 then u.1 - b else u.1
  let u_hi := if b.toInt < 0 then u_hi - a else u_hi
  (u_hi, u.2)

section Products

variable (a b : U64)

theorem mul128U_exact :
    DoubleWords.unsigned (mul128U a b).1 (mul128U a b).2 = a.toNat * b.toNat :=
  (DoubleWords.unsigned_halves (w := 64) _).trans (DoubleWords.toNat_wide_mul a b)

theorem mul128S_exact :
    DoubleWords.signed (mul128S a b).1 (mul128S a b).2 = a.toInt * b.toInt :=
  (DoubleWords.signed_halves (w := 64) _ (by norm_num)).trans
    (DoubleWords.toInt_wide_mul a b (by norm_num))

/-- The low half of a word. -/
theorem toNat_low (v : U64) : ((v.setWidth 32).setWidth 64 : U64).toNat = v.toNat % 2 ^ 32 := by
  rw [BitVec.toNat_setWidth_of_le (by norm_num), BitVec.toNat_setWidth]

/-- The high half of a word. -/
theorem toNat_high (v : U64) : (v >>> 32).toNat = v.toNat / 2 ^ 32 := by
  rw [BitVec.toNat_ushiftRight, Nat.shiftRight_eq_div_pow]

/-- The product of two halves is a word. -/
theorem toNat_mul_halves {u v : U64} (hu : u.toNat < 2 ^ 32) (hv : v.toNat < 2 ^ 32) :
    (u * v).toNat = u.toNat * v.toNat := by
  rw [BitVec.toNat_mul, Nat.mod_eq_of_lt]
  calc u.toNat * v.toNat < 2 ^ 32 * 2 ^ 32 := Nat.mul_lt_mul'' hu hv
    _ = 2 ^ 64 := by norm_num

/-- Two halves put together. -/
theorem toNat_join (u v : U64) :
    ((u &&& (0xFFFFFFFF : U64)) ||| ((v &&& (0xFFFFFFFF : U64)) <<< 32)).toNat =
      v.toNat % 2 ^ 32 * 2 ^ 32 + u.toNat % 2 ^ 32 := by
  have hmask (x : U64) : (x &&& 0xFFFFFFFF).toNat = x.toNat % 2 ^ 32 := by
    rw [BitVec.toNat_and]
    exact Nat.and_two_pow_sub_one_eq_mod x.toNat 32
  have hlow : u.toNat % 2 ^ 32 < 2 ^ 32 := Nat.mod_lt _ (by norm_num)
  have hhigh : v.toNat % 2 ^ 32 * 2 ^ 32 < 2 ^ 64 := by omega
  rw [BitVec.toNat_or, BitVec.toNat_shiftLeft, hmask, hmask, Nat.shiftLeft_eq,
    Nat.mod_eq_of_lt hhigh, Nat.or_comm, ← Nat.shiftLeft_eq, ← Nat.shiftLeft_add_eq_or_of_lt hlow]

/-- The carry of the portable product does not wrap. -/
theorem toNat_carry (p0 p1 p2 : U64) :
    ((p0 >>> 32) + (p1.setWidth 32).setWidth 64 + (p2.setWidth 32).setWidth 64).toNat =
      p0.toNat / 2 ^ 32 + p1.toNat % 2 ^ 32 + p2.toNat % 2 ^ 32 := by
  have hp0 := p0.isLt
  rw [BitVec.toNat_add, BitVec.toNat_add, toNat_low, toNat_low, toNat_high]
  omega

/-- The high word does not wrap either, if its exact value is a word. -/
theorem toNat_highSum {p1 p2 p3 cy : U64}
    (h : p3.toNat + p1.toNat / 2 ^ 32 + p2.toNat / 2 ^ 32 + cy.toNat / 2 ^ 32 < 2 ^ 64) :
    (p3 + (p1 >>> 32) + (p2 >>> 32) + (cy >>> 32)).toNat =
      p3.toNat + p1.toNat / 2 ^ 32 + p2.toNat / 2 ^ 32 + cy.toNat / 2 ^ 32 := by
  rw [BitVec.toNat_add, BitVec.toNat_add, BitVec.toNat_add, toNat_high, toNat_high, toNat_high]
  omega

theorem mul128UPortable_exact :
    DoubleWords.unsigned (mul128UPortable a b).1 (mul128UPortable a b).2 =
      a.toNat * b.toNat := by
  have hlow (v : U64) : ((v.setWidth 32).setWidth 64 : U64).toNat < 2 ^ 32 := by
    rw [toNat_low]
    exact Nat.mod_lt _ (by norm_num)
  have hhigh (v : U64) : (v >>> 32).toNat < 2 ^ 32 := by
    have hv := v.isLt
    rw [toNat_high]
    omega
  have hlt : a.toNat * b.toNat < 2 ^ 64 * 2 ^ 64 := Nat.mul_lt_mul'' a.isLt b.isLt
  have hsum := DoubleWords.schoolbook (2 ^ 32) (a.toNat % 2 ^ 32) (a.toNat / 2 ^ 32)
    (b.toNat % 2 ^ 32) (b.toNat / 2 ^ 32)
  rw [Nat.div_add_mod', Nat.div_add_mod'] at hsum
  dsimp only at hsum
  rw [← toNat_low a, ← toNat_low b, ← toNat_high a, ← toNat_high b,
    ← toNat_mul_halves (hlow a) (hlow b), ← toNat_mul_halves (hlow a) (hhigh b),
    ← toNat_mul_halves (hhigh a) (hlow b), ← toNat_mul_halves (hhigh a) (hhigh b),
    ← toNat_carry] at hsum
  rw [DoubleWords.unsigned, mul128UPortable]
  dsimp only
  rw [toNat_join, toNat_highSum, ← hsum]
  · rfl
  · by_contra hwrap
    have hle := Nat.mul_le_mul_right (2 ^ 32 * 2 ^ 32) (not_lt.mp hwrap)
    exact absurd hlt (not_lt.mpr (hle.trans ((Nat.le_add_right _ _).trans hsum.le)))

theorem mul128UPortable_eq : mul128UPortable a b = mul128U a b := by
  obtain ⟨hhi, hlo⟩ := DoubleWords.unsigned_inj
    ((mul128UPortable_exact a b).trans (mul128U_exact a b).symm)
  exact Prod.ext hhi hlo

theorem mul128SPortable_eq : mul128SPortable a b = mul128S a b := by
  have hportable := DoubleWords.signed_of_unsigned_product a b (by norm_num)
    (mul128UPortable_exact a b)
  obtain ⟨hhi, hlo⟩ := DoubleWords.signed_inj (hportable.trans (mul128S_exact a b).symm)
  refine Prod.ext ?_ hlo
  rw [← hhi]
  unfold mul128SPortable
  dsimp only
  split_ifs <;> simp

end Products

/-! ## Exact products -/

/-- The multiplications and their register operands. -/
inductive MulForm where
  | mul (rm : RegIdx)
  | imul (rm : RegIdx)
  | imulReg (dst rm : RegIdx)
  | imulImm (dst rm : RegIdx) (imm : U64)
  deriving DecidableEq

namespace MulForm

/-- The product of the operands. -/
def product : MulForm → CpuContext → ℤ
  | .mul rm, ctx => (ctx.gpr Reg.RAX).toNat * (ctx.gpr rm).toNat
  | .imul rm, ctx => (ctx.gpr Reg.RAX).toInt * (ctx.gpr rm).toInt
  | .imulReg dst rm, ctx => (ctx.gpr dst).toInt * (ctx.gpr rm).toInt
  | .imulImm _ rm imm, ctx => (ctx.gpr rm).toInt * imm.toInt

/-- The number in two words, as the operands are read. -/
def value : MulForm → U64 → U64 → ℤ
  | .mul _, hi, lo => DoubleWords.unsigned hi lo
  | .imul _, hi, lo | .imulReg _ _, hi, lo | .imulImm _ _ _, hi, lo => DoubleWords.signed hi lo

/-- The number is one of a single word, as the operands are read. -/
def Fits : MulForm → ℤ → Prop
  | .mul _, n => FitsUnsigned 64 n
  | .imul _, n | .imulReg _ _, n | .imulImm _ _ _, n => FitsSigned 64 n

/-- The registers with the product in its place: both words in RDX:RAX, or the low one in the
destination. -/
def store : MulForm → U64 → U64 → (RegIdx → U64) → RegIdx → U64
  | .mul _, hi, lo, gpr | .imul _, hi, lo, gpr =>
      Function.update (Function.update gpr Reg.RAX lo) Reg.RDX hi
  | .imulReg dst _, _, lo, gpr | .imulImm dst _ _, _, lo, gpr => Function.update gpr dst lo

/-- The overflow test of the cases. -/
def overflows : MulForm → U64 → U64 → Bool
  | .mul _, hi, _ => hi != 0
  | .imul _, hi, lo | .imulReg _ _, hi, lo | .imulImm _ _ _, hi, lo => hi != lo.sshiftRight 63

/-- The native product as MUL reads it. -/
theorem mul_value (rm : RegIdx) (ctx : CpuContext) :
    (mul rm).value (mul128U (ctx.gpr Reg.RAX) (ctx.gpr rm)).1
      (mul128U (ctx.gpr Reg.RAX) (ctx.gpr rm)).2 = (mul rm).product ctx := by
  rw [value, product, mul128U_exact]
  exact Nat.cast_mul _ _

theorem overflows_iff (form : MulForm) (hi lo : U64) :
    form.overflows hi lo = true ↔ ¬ form.Fits (form.value hi lo) := by
  have hsigned : (hi != lo.sshiftRight 63) = true ↔ ¬ FitsSigned 64 (DoubleWords.signed hi lo) := by
    rw [DoubleWords.fitsSigned_iff (by norm_num), bne_iff_ne]
    rfl
  cases form with
  | mul rm =>
      show (hi != 0) = true ↔ ¬ FitsUnsigned 64 (DoubleWords.unsigned hi lo)
      rw [DoubleWords.fitsUnsigned_iff, bne_iff_ne]
  | imul rm => exact hsigned
  | imulReg dst rm => exact hsigned
  | imulImm dst rm imm => exact hsigned

end MulForm

/-- `ctx'` is `ctx` after an exact multiplication, with CF and OF telling whether the low word alone
holds the product. -/
structure ExactMul (form : MulForm) (ctx ctx' : CpuContext) : Prop where
  value : ∃ hi lo, form.value hi lo = form.product ctx ∧ ctx'.gpr = form.store hi lo ctx.gpr
  carry : ctx'.flag Flags.CF = true ↔ ¬ form.Fits (form.product ctx)
  overflow : ctx'.flag Flags.OF = true ↔ ¬ form.Fits (form.product ctx)

theorem exactMul_of_store {form : MulForm} {ctx stored : CpuContext} {hi lo : U64}
    (hval : form.value hi lo = form.product ctx) (hgpr : stored.gpr = form.store hi lo ctx.gpr) :
    ExactMul form ctx ((stored.setFlag Flags.CF (form.overflows hi lo)).setFlag Flags.OF
      (form.overflows hi lo)) := by
  refine ⟨⟨hi, lo, hval, hgpr⟩, ?_, ?_⟩
  · rw [CpuContext.flag_setFlag_of_disjoint _ _ (by decide),
      CpuContext.flag_setFlag_self _ _ (by decide), form.overflows_iff, hval]
  · rw [CpuContext.flag_setFlag_self _ _ (by decide), form.overflows_iff, hval]

/-! ## The encodings -/

/-- The register forms of MUL and IMUL with REX.W. -/
def mulOf (c : OpCase) (ip : ℕ → Byte) (p : Prefixes) (_ : Guest) : Option MulForm :=
  match c with
  | .groupF7 =>
      let rm := rmField (ip p.off) p
      if p.rexW ∧ modOf (ip p.off) = 3 then
        match extOf (ip p.off) with
        | 4 => some (.mul rm)
        | 5 => some (.imul rm)
        | _ => none
      else none
  | .twoByte =>
      let modrm := ip (p.off + 1)
      if ip p.off = 0xAF ∧ p.rexW ∧ modOf modrm = 3 then
        some (.imulReg (regField modrm p) (rmField modrm p))
      else none
  | .imulImm =>
      let modrm := ip p.off
      if p.rexW ∧ modOf modrm = 3 then
        some (.imulImm (regField modrm p) (rmField modrm p) (readS32 ip (p.off + 1)))
      else none
  | _ => none

section Encodings

variable {ip : ℕ → Byte} {p : Prefixes} {g : Guest} {c : OpCase} {form : MulForm}

theorem execGroupF7_mul (h : mulOf .groupF7 ip p g = some form) :
    ∃ ctx, execGroupF7 ip p g = .ok (g.withCtx ctx).brk ∧ ExactMul form g.ctx ctx := by
  simp only [mulOf] at h
  split_ifs at h with hform
  unfold execGroupF7
  dsimp only
  rw [if_pos hform.2]
  split at h <;> cases h
  · rename_i hext
    rw [hext]
    exact ⟨_, rfl, exactMul_of_store (MulForm.mul_value _ _) rfl⟩
  · rename_i hext
    rw [hext]
    exact ⟨_, rfl, exactMul_of_store (mul128S_exact _ _) rfl⟩

theorem execTwoByte_mul (h : mulOf .twoByte ip p g = some form) :
    ∃ ctx, execTwoByte ip p g = .ok (g.withCtx ctx).brk ∧ ExactMul form g.ctx ctx := by
  simp only [mulOf] at h
  split_ifs at h with hform
  cases h
  unfold execTwoByte
  dsimp only
  rw [hform.1]
  unfold execImul execRegForm
  dsimp only
  rw [if_pos hform.2.2]
  exact ⟨_, rfl, exactMul_of_store (mul128S_exact _ _) rfl⟩

theorem execImulImm_mul (h : mulOf .imulImm ip p g = some form) :
    ∃ ctx, execImulImm ip p g = (g.withCtx ctx).brk ∧ ExactMul form g.ctx ctx := by
  simp only [mulOf] at h
  split_ifs at h with hform
  cases h
  unfold execImulImm
  dsimp only
  rw [if_pos hform.2]
  exact ⟨_, rfl, exactMul_of_store (mul128S_exact _ _) rfl⟩

/-- Every multiplication is exact. -/
theorem execCase_mul (h : mulOf c ip p g = some form) :
    ∃ e, execCase c ip p g = .ok e ∧ e.result = .Ok ∧ ExactMul form g.ctx e.guest.ctx := by
  cases c with
  | groupF7 =>
      obtain ⟨ctx, he, hexact⟩ := execGroupF7_mul h
      exact ⟨_, he, rfl, hexact⟩
  | twoByte =>
      obtain ⟨ctx, he, hexact⟩ := execTwoByte_mul h
      exact ⟨_, he, rfl, hexact⟩
  | imulImm =>
      obtain ⟨ctx, he, hexact⟩ := execImulImm_mul h
      exact ⟨_, congrArg Except.ok he, rfl, hexact⟩
  | nop | lahf | sahf | push | pop | xchg | movImm | group83 | group81 | add | or | and | sub | xor
  | test | testRaxImm | movStore | movLoad | jmpRel8 | jmpRel32 | jccRel8 | callRel32 | ret
  | retImm16 | int | hlt | cmpRM | cmpMR | lea | movImmC7 | shift | groupFF | default => cases h

end Encodings

/-- **Multiplication.**  The portable products are the native ones, both are the exact products, and
every step over MUL or IMUL stores its product and tells whether it overflows. -/
theorem multiplication_exact (m : Machine) :
    (∀ a b, mul128UPortable a b = mul128U a b ∧
      DoubleWords.unsigned (mul128U a b).1 (mul128U a b).2 = a.toNat * b.toNat) ∧
    (∀ a b, mul128SPortable a b = mul128S a b ∧
      DoubleWords.signed (mul128S a b).1 (mul128S a b).2 = a.toInt * b.toInt) ∧
    StepsMeet mulOf ExactMul m :=
  ⟨fun a b => ⟨mul128UPortable_eq a b, mul128U_exact a b⟩,
    fun a b => ⟨mul128SPortable_eq a b, mul128S_exact a b⟩,
    stepsMeet_of_cases (fun _ _ _ _ _ h => execCase_mul h) m⟩

end Cpu
