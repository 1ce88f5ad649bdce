/-
# Division

DIV and IDIV (0xF7 /6, /7) against the division of RDX:RAX.  Both cases divide RAX alone and ignore
RDX, so that they are exact as long as RAX alone holds the dividend.  IDIV moreover runs the host's
own signed division, which has no result for the smallest word over -1.
-/
import ChuckStation.CpuMultiplication

namespace Cpu

open Guest WordOverflow

/-! ## Exact divisions -/

/-- The divisions and their divisor register. -/
inductive DivForm where
  | div (rm : RegIdx)
  | idiv (rm : RegIdx)
  deriving DecidableEq

namespace DivForm

/-- The divisor register. -/
def rm : DivForm → RegIdx
  | .div rm | .idiv rm => rm

/-- A word as the operation reads it. -/
def number : DivForm → U64 → ℤ
  | .div _, v => v.toNat
  | .idiv _, v => v.toInt

/-- RDX:RAX as the operation reads it. -/
def dividend : DivForm → CpuContext → ℤ
  | .div _, ctx => DoubleWords.unsigned (ctx.gpr Reg.RDX) (ctx.gpr Reg.RAX)
  | .idiv _, ctx => DoubleWords.signed (ctx.gpr Reg.RDX) (ctx.gpr Reg.RAX)

/-- The divisor. -/
def divisor (form : DivForm) (ctx : CpuContext) : ℤ := form.number (ctx.gpr form.rm)

/-- The quotient, truncated toward zero. -/
def quotient (form : DivForm) (ctx : CpuContext) : ℤ := (form.dividend ctx).tdiv (form.divisor ctx)

/-- The number is one of a single word, as the operation reads it. -/
def Fits : DivForm → ℤ → Prop
  | .div _, n => FitsUnsigned 64 n
  | .idiv _, n => FitsSigned 64 n

/-- The division has no result: the divisor is 0, or the quotient does not fit RAX. -/
def Faults (form : DivForm) (ctx : CpuContext) : Prop :=
  form.divisor ctx = 0 ∨ ¬ form.Fits (form.quotient ctx)

end DivForm

/-- From `ctx` an exact division ends with `res` and `ctx'`: with `Fault` exactly if it has no
result, else with the quotient in RAX and the remainder in RDX. -/
structure ExactDiv (form : DivForm) (ctx : CpuContext) (res : StepResult) (ctx' : CpuContext) :
    Prop where
  faults : res = .Fault ↔ form.Faults ctx
  stores : ¬ form.Faults ctx → res = .Ok ∧ ∃ q r,
    ctx'.gpr = Function.update (Function.update ctx.gpr Reg.RAX q) Reg.RDX r ∧
    form.number q = form.quotient ctx ∧
    form.dividend ctx = form.number q * form.divisor ctx + form.number r ∧
    |form.number r| < |form.divisor ctx|

/-! ## The divisions of the host -/

namespace DivForm

/-- The division the case runs on the host. -/
def host : DivForm → U64 → U64 → Except HostUndefined (U64 × U64)
  | .div _ => hostDivModU
  | .idiv _ => hostDivModS

/-- The host's division has no result although the divisor is not 0. -/
def HostOverflows : DivForm → CpuContext → Prop
  | .div _, _ => False
  | .idiv rm, ctx => ctx.gpr Reg.RAX = int64Min ∧ ctx.gpr rm = -1

/-- The high word of the dividend that RAX alone holds. -/
def extension : DivForm → U64 → U64
  | .div _, _ => 0
  | .idiv _, v => DoubleWords.signWord v

/-- The divisor is 0; or RAX alone holds the dividend, and the host has a quotient. -/
def OneWord (form : DivForm) (ctx : CpuContext) : Prop :=
  ctx.gpr form.rm = 0 ∨
    ctx.gpr Reg.RDX = form.extension (ctx.gpr Reg.RAX) ∧ ¬ form.HostOverflows ctx

variable (form : DivForm) (ctx : CpuContext) (v : U64)

theorem number_eq_zero_iff : form.number v = 0 ↔ v = 0 := by
  cases form with
  | div rm =>
      show (v.toNat : ℤ) = 0 ↔ v = 0
      rw [Int.natCast_eq_zero, ← BitVec.toNat_inj]
      rfl
  | idiv rm =>
      show v.toInt = 0 ↔ v = 0
      rw [← BitVec.toInt_inj]
      rfl

theorem fits_number : form.Fits (form.number v) := by
  cases form with
  | div rm => exact fitsUnsigned_toNat v
  | idiv rm => exact DoubleWords.fitsSigned_toInt v

theorem dividend_eq_iff : form.dividend ctx = form.number (ctx.gpr Reg.RAX) ↔
    ctx.gpr Reg.RDX = form.extension (ctx.gpr Reg.RAX) := by
  cases form with
  | div rm => exact Nat.cast_inj.trans DoubleWords.unsigned_eq_low_iff
  | idiv rm => exact DoubleWords.signed_eq_low_iff

variable {form ctx}

/-- Where the host's division has a result, it is the truncated quotient of RAX and its
remainder. -/
theorem host_exact (hz : ctx.gpr form.rm ≠ 0) (hov : ¬ form.HostOverflows ctx) :
    ∃ q r, form.host (ctx.gpr Reg.RAX) (ctx.gpr form.rm) = .ok (q, r) ∧
      form.number q = (form.number (ctx.gpr Reg.RAX)).tdiv (form.divisor ctx) ∧
      form.number r = (form.number (ctx.gpr Reg.RAX)).tmod (form.divisor ctx) := by
  cases form with
  | div rm =>
      refine ⟨_, _, if_neg hz, ?_, ?_⟩
      · show ((ctx.gpr Reg.RAX / ctx.gpr rm).toNat : ℤ) = _
        rw [BitVec.toNat_udiv]
        rfl
      · show ((ctx.gpr Reg.RAX % ctx.gpr rm).toNat : ℤ) = _
        rw [BitVec.toNat_umod]
        rfl
  | idiv rm =>
      have hhost : hostDivModS (ctx.gpr Reg.RAX) (ctx.gpr rm) =
          .ok ((ctx.gpr Reg.RAX).sdiv (ctx.gpr rm), (ctx.gpr Reg.RAX).srem (ctx.gpr rm)) :=
        (if_neg hz).trans (if_neg hov)
      exact ⟨_, _, hhost, BitVec.toInt_sdiv_of_ne_or_ne _ _ (not_and_or.mp hov),
        BitVec.toInt_srem _ _⟩

theorem host_overflows (hz : ctx.gpr form.rm ≠ 0) (hov : form.HostOverflows ctx) :
    form.host (ctx.gpr Reg.RAX) (ctx.gpr form.rm) = .error .quotientOverflow := by
  cases form with
  | div rm => cases hov
  | idiv rm => exact (if_neg hz).trans (if_pos hov)

/-- The remainder of a truncated division is smaller than the divisor. -/
theorem abs_tmod_lt (n : ℤ) {d : ℤ} (hd : d ≠ 0) : |n.tmod d| < |d| := by
  rw [Int.abs_eq_natAbs, Int.abs_eq_natAbs, Int.natAbs_tmod]
  exact_mod_cast Nat.mod_lt _ (Int.natAbs_pos.mpr hd)

end DivForm

/-- The quotient of RAX alone is exact if and only if RAX alone holds the dividend. -/
theorem exactDiv_iff {form : DivForm} {ctx ctx' : CpuContext} {q r : U64}
    (hz : ctx.gpr form.rm ≠ 0)
    (hgpr : ctx'.gpr = Function.update (Function.update ctx.gpr Reg.RAX q) Reg.RDX r)
    (hq : form.number q = (form.number (ctx.gpr Reg.RAX)).tdiv (form.divisor ctx))
    (hr : form.number r = (form.number (ctx.gpr Reg.RAX)).tmod (form.divisor ctx)) :
    ExactDiv form ctx .Ok ctx' ↔ ctx.gpr Reg.RDX = form.extension (ctx.gpr Reg.RAX) := by
  have hdne : form.divisor ctx ≠ 0 := (form.number_eq_zero_iff _).not.mpr hz
  have hdiv := Int.tdiv_mul_add_tmod (form.number (ctx.gpr Reg.RAX)) (form.divisor ctx)
  rw [← form.dividend_eq_iff]
  constructor
  · intro hexact
    have hno : ¬ form.Faults ctx := fun hf => by cases hexact.faults.mpr hf
    obtain ⟨-, q', r', hgpr', -, hsum, -⟩ := hexact.stores hno
    rw [hgpr] at hgpr'
    have hrem : r = r' := congrFun hgpr' Reg.RDX
    have hquo : q = q' := congrFun hgpr' Reg.RAX
    rw [hsum, ← hquo, ← hrem, hq, hr, hdiv]
  · intro hword
    have hquo : form.number q = form.quotient ctx := by rw [DivForm.quotient, hword, hq]
    have hno : ¬ form.Faults ctx := by
      rintro (hzero | hfit)
      · exact hdne hzero
      · rw [← hquo] at hfit
        exact hfit (form.fits_number q)
    refine ⟨iff_of_false (by decide) hno, fun _ => ⟨rfl, q, r, hgpr, hquo, ?_, ?_⟩⟩
    · rw [hword, hq, hr, hdiv]
    · rw [hr]
      exact DivForm.abs_tmod_lt _ hdne

/-! ## The encodings -/

/-- The register forms of DIV and IDIV with REX.W. -/
def divOf (c : OpCase) (ip : ℕ → Byte) (p : Prefixes) (_ : Guest) : Option DivForm :=
  let modrm := ip p.off
  if c = .groupF7 ∧ p.rexW ∧ modOf modrm = 3 then
    match extOf modrm with
    | 6 => some (.div (rmField modrm p))
    | 7 => some (.idiv (rmField modrm p))
    | _ => none
  else none

section Encodings

variable {ip : ℕ → Byte} {p : Prefixes} {g : Guest} {c : OpCase} {form : DivForm}

/-- A division faults on a zero divisor, and leaves the rest to the host. -/
theorem execCase_div (h : divOf c ip p g = some form) :
    execCase c ip p g =
      if g.ctx.gpr form.rm = 0 then .ok (g.withCtx (g.ctx.advance (p.off + 1))).fault
      else do
        let r ← form.host (g.ctx.gpr Reg.RAX) (g.ctx.gpr form.rm)
        return (g.withCtx (((g.ctx.advance (p.off + 1)).setGpr Reg.RAX r.1).setGpr
          Reg.RDX r.2)).brk := by
  unfold divOf at h
  dsimp only at h
  split_ifs at h with hform
  obtain ⟨rfl, -, hmod⟩ := hform
  unfold execCase execGroupF7
  dsimp only
  rw [if_pos hmod]
  split at h <;> cases h
  · rename_i hext
    rw [hext]
    rfl
  · rename_i hext
    rw [hext]
    rfl

/-- **Such a case is exact if and only if RAX alone holds the dividend.** -/
theorem execCase_exactDiv_iff (h : divOf c ip p g = some form) :
    (∃ e, execCase c ip p g = .ok e ∧ ExactDiv form g.ctx e.result e.guest.ctx) ↔
      form.OneWord g.ctx := by
  rw [execCase_div h, DivForm.OneWord]
  by_cases hz : g.ctx.gpr form.rm = 0
  · have hfaults : form.Faults g.ctx := Or.inl ((form.number_eq_zero_iff _).mpr hz)
    rw [if_pos hz]
    exact iff_of_true ⟨_, rfl, iff_of_true rfl hfaults, fun hno => absurd hfaults hno⟩ (Or.inl hz)
  · rw [if_neg hz, or_iff_right hz]
    by_cases hov : form.HostOverflows g.ctx
    · rw [DivForm.host_overflows hz hov]
      constructor
      · rintro ⟨e, he, -⟩
        cases he
      · exact fun hword => absurd hov hword.2
    · obtain ⟨q, r, hhost, hq, hr⟩ := DivForm.host_exact hz hov
      rw [hhost, and_iff_left hov]
      constructor
      · rintro ⟨e, he, hexact⟩
        cases he
        exact (exactDiv_iff hz rfl hq hr).mp hexact
      · exact fun hword => ⟨_, rfl, (exactDiv_iff hz rfl hq hr).mpr hword⟩

end Encodings

/-! ## Steps over divisions -/

/-- A step from `m` over a division is exact. -/
def DivExact (m : Machine) : Prop :=
  ∀ ip p form, Decodes m ip p → divOf (opCase p.opcode) ip p m.guest = some form →
    ∃ out, executeOne m = .ok out ∧ ExactDiv form m.cpu.ctx out.result out.machine.cpu.ctx

/-- The step from `m` is a division by a word other than 0 of a dividend that RAX alone does not
hold, or one that the host has no quotient for. -/
def DivIgnoresHigh : Machine → Prop :=
  StepIsOver divOf fun form ctx => ¬ form.OneWord ctx

/-- **Division, exactly.**  A step over DIV or IDIV is exact if and only if the divisor is 0, or RAX
alone holds the dividend and the host has a quotient. -/
theorem divExact_iff (m : Machine) : DivExact m ↔ ¬ DivIgnoresHigh m := by
  constructor
  · rintro h ⟨ip, p, form, hd, hdiv, hword⟩
    obtain ⟨out, hout, hexact⟩ := h ip p form hd hdiv
    obtain ⟨e, he, rfl⟩ := exists_finish_of_decodes hd hout
    rw [Machine.finish_ctx] at hexact
    exact hword ((execCase_exactDiv_iff hdiv).mp ⟨e, he, hexact⟩)
  · intro h ip p form hd hdiv
    have hword : form.OneWord m.cpu.ctx := by
      by_contra hno
      exact h ⟨ip, p, form, hd, hdiv, hno⟩
    obtain ⟨e, he, hexact⟩ := (execCase_exactDiv_iff (g := m.guest) hdiv).mpr hword
    refine ⟨m.finish e, executeOne_eq_finish hd he, ?_⟩
    rw [Machine.finish_ctx]
    exact hexact

/-- DIV RCX with 1 in RDX, 0 in RAX and 2 in RCX. -/
def divHigh : Machine where
  cpu :=
    { ctx :=
        { gpr := Function.update (Function.update (fun _ => 0) Reg.RDX 1) Reg.RCX 2
          rip := 0x1000 } }
  mem :=
    { bytes := ByteStore.write (fun _ => 0x90) 0x1000 [0x48, 0xF7, 0xF1]
      readable := fun _ _ => true
      writable := fun _ _ => true }

/-- The step over `divHigh` leaves 0 in RAX, and 2 ^ 64 / 2 is 2 ^ 63. -/
theorem not_divExact_divHigh : ¬ ∀ m, DivExact m := by
  intro h
  have hdec : Decodes divHigh (codeBuf divHigh.mem 0x1000 32)
      { off := 2, rexW := true, opcode := 0xF7 } :=
    ⟨by decide, rfl, rfl, rfl⟩
  obtain ⟨out, hout, hexact⟩ := h divHigh _ _ (.div Reg.RCX) hdec (by decide)
  have hres : out.result = .Ok := eq_of_toOption_map StepOutcome.result hout (by decide)
  have hrax : out.machine.cpu.ctx.gpr Reg.RAX = 0 :=
    eq_of_toOption_map (fun out => out.machine.cpu.ctx.gpr Reg.RAX) hout (by decide)
  have hno : ¬ (DivForm.div Reg.RCX).Faults divHigh.cpu.ctx := by
    rw [← hexact.faults, hres]
    decide
  obtain ⟨-, q, r, hgpr, hquo, -⟩ := hexact.stores hno
  have hzero : q = 0 := by
    rw [← hrax, hgpr]
    rfl
  rw [hzero] at hquo
  exact absurd hquo (by decide)

end Cpu
