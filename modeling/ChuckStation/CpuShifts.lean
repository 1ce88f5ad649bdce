/-
# Shifts

SHL, SHR and SAR by an immediate or by CL (0xC1, 0xD3).  The value is shifted by the masked count,
but the flag helper that runs behind the carry extraction clears CF again, and it runs for a count
of 0 as well.
-/
import ChuckStation.CpuAddSub

namespace Cpu

open Guest

/-! ## Exact shifts -/

/-- The shifts of the group. -/
inductive ShiftOp where
  | shl
  | shr
  | sar
  deriving DecidableEq, Repr

namespace ShiftOp

/-- The `/ext` of the operation. -/
def ext : ShiftOp → ℕ
  | .shl => 4
  | .shr => 5
  | .sar => 7

/-- The value shifted by `n` places. -/
def apply : ShiftOp → U64 → ℕ → U64
  | .shl, v, n => v <<< n
  | .shr, v, n => v >>> n
  | .sar, v, n => v.sshiftRight n

/-- The bit a shift by one place drops. -/
def drops : ShiftOp → U64 → Bool
  | .shl, v => v.msb
  | .shr, v | .sar, v => v.getLsbD 0

/-- The bit that `n` shifts by one place drop last. -/
def lastOut (op : ShiftOp) (v : U64) (n : ℕ) : Bool := op.drops (op.apply v (n - 1))

theorem apply_zero (op : ShiftOp) (v : U64) : op.apply v 0 = v := by
  cases op with
  | shl => exact BitVec.shiftLeft_zero v
  | shr => exact BitVec.ushiftRight_zero v
  | sar => exact BitVec.sshiftRight_zero

end ShiftOp

/-- `ctx'` is `ctx` after an exact shift of `rm` by the masked count `n`. -/
structure ExactShift (op : ShiftOp) (rm : RegIdx) (n : ℕ) (ctx ctx' : CpuContext) : Prop where
  value : ctx'.gpr = Function.update ctx.gpr rm (op.apply (ctx.gpr rm) n)
  carry : n ≠ 0 → ctx'.flag Flags.CF = op.lastOut (ctx.gpr rm) n
  describes : n ≠ 0 → DescribesResult (op.apply (ctx.gpr rm) n) ctx'
  unchanged : n = 0 → ctx'.rflags = ctx.rflags

/-! ## The encodings -/

/-- The masked count: the immediate behind ModRM, or CL. -/
def shiftCount (ip : ℕ → Byte) (p : Prefixes) (ctx : CpuContext) : ℕ :=
  if p.opcode = 0xC1 then (ip (p.off + 1) &&& 0x3F).toNat
  else ((ctx.gpr Reg.RCX).setWidth 8 &&& 0x3F : Byte).toNat

/-- The register forms of SHL, SHR and SAR with REX.W: operation, register and masked count. -/
def shiftOf (c : OpCase) (ip : ℕ → Byte) (p : Prefixes) (g : Guest) :
    Option (ShiftOp × RegIdx × ℕ) :=
  let modrm := ip p.off
  let rm := rmField modrm p
  let count := shiftCount ip p g.ctx
  if c = .shift ∧ p.rexW ∧ modOf modrm = 3 then
    match extOf modrm with
    | 4 => some (.shl, rm, count)
    | 5 => some (.shr, rm, count)
    | 7 => some (.sar, rm, count)
    | _ => none
  else none

section Encodings

variable {ip : ℕ → Byte} {p : Prefixes} {g : Guest} {c : OpCase} {op : ShiftOp} {rm : RegIdx}
  {n : ℕ}

theorem shiftCount_lt (ctx : CpuContext) : shiftCount ip p ctx < 64 := by
  unfold shiftCount
  split_ifs
  · exact mask3F_lt _
  · exact mask3F_lt _

/-- The flags the helper leaves do not depend on the carry set in front of it. -/
theorem Leaves.of_setFlag_cf {ctx ctx' : CpuContext} {r : U64} {c o b : Bool}
    (h : Leaves (ctx.setFlag Flags.CF b) r c o ctx') : Leaves ctx r c o ctx' where
  only := (FlagsOnly.setFlag ctx Flags.CF b).trans h.only
  others := h.others.trans (ctx.setFlag_rflags_and b (by decide))
  cf_eq := h.cf_eq
  of_eq := h.of_eq
  zf_eq := h.zf_eq
  sf_eq := h.sf_eq
  pf_eq := h.pf_eq

theorem shiftOf_eq_some (h : shiftOf c ip p g = some (op, rm, n)) :
    c = .shift ∧ modOf (ip p.off) = 3 ∧ rm = rmField (ip p.off) p ∧ n = shiftCount ip p g.ctx ∧
      extOf (ip p.off) = op.ext := by
  unfold shiftOf at h
  dsimp only at h
  split_ifs at h with hform
  split at h <;> cases h
  · exact ⟨hform.1, hform.2.2, rfl, rfl, ‹_›⟩
  · exact ⟨hform.1, hform.2.2, rfl, rfl, ‹_›⟩
  · exact ⟨hform.1, hform.2.2, rfl, rfl, ‹_›⟩

/-- Every shift of the group leaves CF and OF clear. -/
theorem shiftGroup_leaves (ctx : CpuContext) (rm : RegIdx) (op : ShiftOp) {n : ℕ} (hn : n < 64) :
    ∃ ctx', shiftGroup ctx rm op.ext n =
        .ok (some (ctx'.setGpr rm (op.apply (ctx.gpr rm) n))) ∧
      Leaves ctx (op.apply (ctx.gpr rm) n) false false ctx' := by
  have hlow : (0 < n && n ≤ 64) = true → 64 - n < 64 := by
    intro hc
    simp only [Bool.and_eq_true, decide_eq_true_eq] at hc
    omega
  cases op with
  | shl =>
      obtain ⟨cf, hcf⟩ := guardedBit_ok (0 < n && n ≤ 64) (hostShr (ctx.gpr rm) (64 - n))
        fun hc => ⟨_, hostShr_of_lt (hlow hc)⟩
      obtain ⟨ctx', hctx, hl⟩ := updateFlagsLogic_leaves (ctx.setFlag Flags.CF cf)
        (ctx.gpr rm <<< n)
      refine ⟨ctx', ?_, hl.of_setFlag_cf⟩
      simp only [ShiftOp.ext, shiftGroup, if_pos hn, hostShl_of_lt hn, hcf, ok_bind, hctx]
      rfl
  | shr =>
      obtain ⟨cf, hcf⟩ := guardedBit_ok (decide (0 < n)) (hostShr (ctx.gpr rm) (n - 1))
        fun _ => ⟨_, hostShr_of_lt (by omega)⟩
      obtain ⟨ctx', hctx, hl⟩ := updateFlagsLogic_leaves (ctx.setFlag Flags.CF cf)
        (ctx.gpr rm >>> n)
      refine ⟨ctx', ?_, hl.of_setFlag_cf⟩
      simp only [ShiftOp.ext, shiftGroup, if_pos hn, hostShr_of_lt hn, hcf, ok_bind, hctx]
      rfl
  | sar =>
      obtain ⟨cf, hcf⟩ := guardedBit_ok (decide (0 < n)) (hostSar (ctx.gpr rm) (n - 1))
        fun _ => ⟨_, hostSar_of_lt (by omega)⟩
      obtain ⟨ctx', hctx, hl⟩ := updateFlagsLogic_leaves (ctx.setFlag Flags.CF cf)
        ((ctx.gpr rm).sshiftRight n)
      refine ⟨ctx', ?_, hl.of_setFlag_cf⟩
      simp only [ShiftOp.ext, shiftGroup, if_pos hn, hostSar_of_lt hn, hcf, ok_bind, hctx]
      rfl

/-- A shift stores the shifted value, with CF and OF clear. -/
theorem execCase_storesShift (h : shiftOf c ip p g = some (op, rm, n)) :
    ∃ e, execCase c ip p g = .ok e ∧
      StoresResult rm (op.apply (g.ctx.gpr rm) n) false false g e := by
  obtain ⟨rfl, hmod, rfl, rfl, hext⟩ := shiftOf_eq_some h
  have hlt : shiftCount ip p g.ctx < 64 := shiftCount_lt g.ctx
  unfold shiftCount at hlt ⊢
  unfold execCase execShift
  dsimp only
  by_cases hop : p.opcode = 0xC1
  · simp only [if_pos hop] at hlt ⊢
    obtain ⟨ctx, hctx, hl⟩ := shiftGroup_leaves (g.ctx.advance (p.off + 2))
      (rmField (ip p.off) p) op hlt
    refine ⟨_, ?_, .of_leaves [] hl⟩
    rw [if_pos hmod, hext, hctx]
    rfl
  · simp only [if_neg hop] at hlt ⊢
    obtain ⟨ctx, hctx, hl⟩ := shiftGroup_leaves (g.ctx.advance (p.off + 1))
      (rmField (ip p.off) p) op hlt
    refine ⟨_, ?_, .of_leaves [] hl⟩
    rw [if_pos hmod, hext, hctx]
    rfl

end Encodings

/-! ## Steps over shifts -/

/-- The last bit shifted out is clear; or nothing is shifted, and the flags already are those the
helper leaves for the value. -/
def ShiftOp.FlagsHeld (op : ShiftOp) (v : U64) (n : ℕ) (ctx : CpuContext) : Prop :=
  if n = 0 then
    ctx.flag Flags.CF = false ∧ ctx.flag Flags.OF = false ∧ DescribesResult v ctx
  else op.lastOut v n = false

theorem exactShift_iff {op : ShiftOp} {rm : RegIdx} {n : ℕ} {g : Guest} {e : CaseExit}
    (h : StoresResult rm (op.apply (g.ctx.gpr rm) n) false false g e) :
    ExactShift op rm n g.ctx e.guest.ctx ↔ op.FlagsHeld (g.ctx.gpr rm) n g.ctx := by
  unfold ShiftOp.FlagsHeld
  split_ifs with hn
  · subst hn
    have hdesc := h.describes
    rw [op.apply_zero] at hdesc
    constructor
    · intro hexact
      have hflag (mask : U64) : e.guest.ctx.flag mask = g.ctx.flag mask := by
        rw [CpuContext.flag, CpuContext.flag, hexact.unchanged rfl]
      refine ⟨(hflag _).symm.trans h.cf_eq, (hflag _).symm.trans h.of_eq, ?_, ?_, ?_⟩
      · exact hflag Flags.ZF ▸ hdesc.zero
      · exact hflag Flags.SF ▸ hdesc.sign
      · exact hflag Flags.PF ▸ hdesc.parity
    · rintro ⟨hcf, hof, hheld⟩
      refine ⟨h.gpr_eq, fun hz => absurd rfl hz, fun hz => absurd rfl hz, fun _ => ?_⟩
      apply rflags_eq_of_flags h.others
      simp only [List.forall_mem_cons, List.not_mem_nil, false_imp_iff, implies_true, and_true]
      exact ⟨h.cf_eq.trans hcf.symm, Bool.eq_iff_iff.mpr (hdesc.parity.trans hheld.parity.symm),
        Bool.eq_iff_iff.mpr (hdesc.zero.trans hheld.zero.symm),
        Bool.eq_iff_iff.mpr (hdesc.sign.trans hheld.sign.symm), h.of_eq.trans hof.symm⟩
  · constructor
    · intro hexact
      rw [← hexact.carry hn, h.cf_eq]
    · intro hout
      exact ⟨h.gpr_eq, fun _ => h.cf_eq.trans hout.symm, fun _ => h.describes,
        fun hz => absurd hz hn⟩

/-- A step from `m` over a shift is exact. -/
def ShiftExact : Machine → Prop :=
  StepsMeet shiftOf fun ⟨op, rm, n⟩ => ExactShift op rm n

/-- The step from `m` is a shift that drops a set bit last, or one by 0 over flags that the helper
changes. -/
def ShiftClearsFlags : Machine → Prop :=
  StepIsOver shiftOf fun ⟨op, rm, n⟩ ctx => ¬ op.FlagsHeld (ctx.gpr rm) n ctx

/-- **Shifts, exactly.**  A step over a shift is exact if and only if the last bit shifted out is
clear, or the masked count is 0 and the flags already are those of the value with CF and OF
clear. -/
theorem shiftExact_iff (m : Machine) : ShiftExact m ↔ ¬ ShiftClearsFlags m := by
  apply stepsMeet_iff
  rintro c ip p g ⟨op, rm, n⟩ hshift
  obtain ⟨e, he, hstores⟩ := execCase_storesShift hshift
  exact ⟨e, he, hstores.result_eq, (exactShift_iff hstores).trans not_not.symm⟩

/-- SHR RAX, 1 with 1 in RAX. -/
def shrOne : Machine where
  cpu := { ctx := { gpr := Function.update (fun _ => 0) Reg.RAX 1, rip := 0x1000 } }
  mem :=
    { bytes := ByteStore.write (fun _ => 0x90) 0x1000 [0x48, 0xC1, 0xE8, 0x01]
      readable := fun _ _ => true
      writable := fun _ _ => true }

/-- The step over `shrOne` shifts a set bit out and leaves CF clear. -/
theorem not_shiftExact_shrOne : ¬ ∀ m, ShiftExact m := by
  intro h
  have hdec : Decodes shrOne (codeBuf shrOne.mem 0x1000 32)
      { off := 2, rexW := true, opcode := 0xC1 } :=
    ⟨by decide, rfl, rfl, rfl⟩
  obtain ⟨out, hout, -, hexact⟩ := h shrOne _ _ ⟨.shr, Reg.RAX, 1⟩ hdec (by decide)
  have hcarry := hexact.carry (by decide)
  have hclear : out.machine.cpu.ctx.flag Flags.CF = false :=
    eq_of_toOption_map (fun out => out.machine.cpu.ctx.flag Flags.CF) hout (by decide)
  rw [hclear] at hcarry
  exact absurd hcarry (by decide)

end Cpu
