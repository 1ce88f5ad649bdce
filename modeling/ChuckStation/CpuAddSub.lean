/-
# Flags of sums

ADD and SUB against exact arithmetic: the result modulo `2 ^ 64`, CF and OF telling whether the
unsigned and the signed result fit, ZF, SF and PF describing the result.  INC, DEC and NEG against
the sums they stand for.

SUB is exact.  ADD never sets CF: the helper compares the wrapped sum with the mask of the operand
width, and at 64 bits no word is above it.  INC, DEC and NEG set their flags by hand, and forget PF
(DEC and NEG also OF), which keeps what an earlier instruction left there.
-/
import ChuckStation.CpuFaults
import ChuckStation.CpuFlagValues

namespace Cpu

open Guest GuestMemory WordOverflow

/-! ## Exact sums -/

/-- The two sums. -/
inductive SumOp where
  | add
  | sub
  deriving DecidableEq, Repr

namespace SumOp

/-- The result that is stored. -/
def apply : SumOp → U64 → U64 → U64
  | .add, a, b => a + b
  | .sub, a, b => a - b

/-- The result over the unsigned operands. -/
def unsigned : SumOp → U64 → U64 → ℤ
  | .add, a, b => a.toNat + b.toNat
  | .sub, a, b => a.toNat - b.toNat

/-- The result over the signed operands. -/
def signed : SumOp → U64 → U64 → ℤ
  | .add, a, b => a.toInt + b.toInt
  | .sub, a, b => a.toInt - b.toInt

end SumOp

/-- ZF, SF and PF are those of `r`. -/
structure DescribesResult (r : U64) (ctx : CpuContext) : Prop where
  zero : ctx.flag Flags.ZF = true ↔ r = 0
  sign : ctx.flag Flags.SF = true ↔ r.toInt < 0
  parity : ctx.flag Flags.PF = true ↔ Even (lowBits r)

/-- OF, ZF, SF and PF are those of the sum. -/
structure ExactButCarry (op : SumOp) (a b : U64) (ctx : CpuContext) : Prop
    extends DescribesResult (op.apply a b) ctx where
  overflow : ctx.flag Flags.OF = true ↔ ¬ FitsSigned 64 (op.signed a b)

/-- The five arithmetic flags are those of the sum. -/
structure ExactFlags (op : SumOp) (a b : U64) (ctx : CpuContext) : Prop
    extends ExactButCarry op a b ctx where
  carry : ctx.flag Flags.CF = true ↔ ¬ FitsUnsigned 64 (op.unsigned a b)

/-- `ctx'` is `ctx` after an exact sum into `dst`: the value, the five flags, and no other bit of
`rflags`. -/
structure ExactSum (op : SumOp) (dst : RegIdx) (b : U64) (ctx ctx' : CpuContext) : Prop where
  value : ctx'.gpr = Function.update ctx.gpr dst (op.apply (ctx.gpr dst) b)
  flags : ExactFlags op (ctx.gpr dst) b ctx'
  others : ctx'.rflags &&& ~~~Flags.arith = ctx.rflags &&& ~~~Flags.arith

/-! ## What the helper leaves for a sum -/

namespace SumOp

/-- The CF of `UpdateFlagsArith`. -/
def helperCarry : SumOp → U64 → U64 → Bool
  | .add, _, _ => false
  | .sub, a, b => a.ult b

/-- The OF of `UpdateFlagsArith`. -/
def helperOverflow : SumOp → U64 → U64 → Bool
  | .add, a, b => a.saddOverflow b
  | .sub, a, b => a.ssubOverflow b

/-- The unsigned result does not fit, and the helper does not see it. -/
def CarryLost (op : SumOp) (a b : U64) : Prop := op = .add ∧ 2 ^ 64 ≤ a.toNat + b.toNat

variable (op : SumOp) (a b : U64)

theorem helperOverflow_iff :
    op.helperOverflow a b = true ↔ ¬ FitsSigned 64 (op.signed a b) := by
  cases op with
  | add => exact (not_fitsSigned_add_iff a b).symm
  | sub => exact (not_fitsSigned_sub_iff a b).symm

/-- The helper's CF is the carry exactly if no carry is lost. -/
theorem helperCarry_iff :
    (op.helperCarry a b = true ↔ ¬ FitsUnsigned 64 (op.unsigned a b)) ↔ ¬ op.CarryLost a b := by
  cases op with
  | add =>
      rw [unsigned, not_fitsUnsigned_add_iff]
      simp [helperCarry, CarryLost]
  | sub =>
      rw [unsigned, not_fitsUnsigned_sub_iff]
      simp [helperCarry, CarryLost]

/-- `UpdateFlagsArith` as ADD and SUB call it. -/
theorem updateFlagsArith_leaves (ctx : CpuContext) :
    ∃ ctx', updateFlagsArith ctx a b (op.apply a b) (op = .sub) 64 = .ok ctx' ∧
      Leaves ctx (op.apply a b) (op.helperCarry a b) (op.helperOverflow a b) ctx' := by
  cases op with
  | add => exact updateFlagsArith_add_leaves ctx a b
  | sub => exact updateFlagsArith_sub_leaves ctx a b

end SumOp

/-! ## Cases that store a result -/

/-- The case ended with `Ok` and `r` in `dst`, with CF and OF as given and ZF, SF and PF those of
`r`. -/
structure StoresResult (dst : RegIdx) (r : U64) (cf ovf : Bool) (g : Guest) (e : CaseExit) :
    Prop where
  result_eq : e.result = .Ok
  leaves : ∃ n ctx, Leaves (g.ctx.advance n) r cf ovf ctx ∧ e.guest.ctx = ctx.setGpr dst r

namespace StoresResult

variable {dst : RegIdx} {r : U64} {cf ovf : Bool} {g : Guest} {e : CaseExit}

theorem of_leaves {n : ℕ} {ctx : CpuContext} (accesses : List Access)
    (h : Leaves (g.ctx.advance n) r cf ovf ctx) :
    StoresResult dst r cf ovf g ((g.withCtx (ctx.setGpr dst r)).brk accesses) :=
  ⟨rfl, n, ctx, h, rfl⟩

variable (h : StoresResult dst r cf ovf g e)

include h

theorem gpr_eq : e.guest.ctx.gpr = Function.update g.ctx.gpr dst r := by
  obtain ⟨n, ctx, hl, hctx⟩ := h.leaves
  rw [hctx, CpuContext.setGpr_gpr, hl.only.gpr_eq, CpuContext.advance_gpr]

theorem cf_eq : e.guest.ctx.flag Flags.CF = cf := by
  obtain ⟨n, ctx, hl, hctx⟩ := h.leaves
  rw [hctx, CpuContext.flag_setGpr, hl.cf_eq]

theorem of_eq : e.guest.ctx.flag Flags.OF = ovf := by
  obtain ⟨n, ctx, hl, hctx⟩ := h.leaves
  rw [hctx, CpuContext.flag_setGpr, hl.of_eq]

theorem zf_eq : e.guest.ctx.flag Flags.ZF = (r == 0) := by
  obtain ⟨n, ctx, hl, hctx⟩ := h.leaves
  rw [hctx, CpuContext.flag_setGpr, hl.zf_eq]

theorem sf_eq : e.guest.ctx.flag Flags.SF = r.msb := by
  obtain ⟨n, ctx, hl, hctx⟩ := h.leaves
  rw [hctx, CpuContext.flag_setGpr, hl.sf_eq]

theorem pf_eq : e.guest.ctx.flag Flags.PF = parity r := by
  obtain ⟨n, ctx, hl, hctx⟩ := h.leaves
  rw [hctx, CpuContext.flag_setGpr, hl.pf_eq]

theorem describes : DescribesResult r e.guest.ctx := by
  refine ⟨?_, ?_, ?_⟩
  · rw [h.zf_eq, beq_iff_eq]
  · rw [h.sf_eq, BitVec.msb_eq_toInt, decide_eq_true_eq]
  · rw [h.pf_eq, parity_iff]

theorem others : e.guest.ctx.rflags &&& ~~~Flags.arith = g.ctx.rflags &&& ~~~Flags.arith := by
  obtain ⟨n, ctx, hl, hctx⟩ := h.leaves
  rw [hctx, CpuContext.setGpr_rflags, hl.others, CpuContext.advance_rflags]

end StoresResult

/-- The case stores the sum, with the helper's flags. -/
abbrev StoresSum (op : SumOp) (dst : RegIdx) (b : U64) (g : Guest) (e : CaseExit) : Prop :=
  StoresResult dst (op.apply (g.ctx.gpr dst) b) (op.helperCarry (g.ctx.gpr dst) b)
    (op.helperOverflow (g.ctx.gpr dst) b) g e

/-- Such a case is exact as long as no carry is lost. -/
theorem exactSum_iff {op : SumOp} {dst : RegIdx} {b : U64} {g : Guest} {e : CaseExit}
    (h : StoresSum op dst b g e) :
    ExactSum op dst b g.ctx e.guest.ctx ↔ ¬ op.CarryLost (g.ctx.gpr dst) b := by
  rw [← SumOp.helperCarry_iff, ← h.cf_eq]
  constructor
  · intro hexact
    exact hexact.flags.carry
  · intro hcarry
    refine ⟨h.gpr_eq, ⟨⟨h.describes, ?_⟩, hcarry⟩, h.others⟩
    rw [h.of_eq]
    exact op.helperOverflow_iff _ _

/-! ## The encodings of ADD and SUB -/

/-- The sums of the immediate groups. -/
def immSum (ext : ℕ) (rm : RegIdx) (imm : U64) : Option (SumOp × RegIdx × U64) :=
  match ext with
  | 0 => some (.add, rm, imm)
  | 5 => some (.sub, rm, imm)
  | _ => none

/-- The implemented encodings of ADD and SUB with REX.W: operation, destination and second
operand.  0x03 takes a register or a readable word, the others have a register form only. -/
def sumOf (c : OpCase) (ip : ℕ → Byte) (p : Prefixes) (g : Guest) :
    Option (SumOp × RegIdx × U64) :=
  let modrm := ip p.off
  let reg := regField modrm p
  let rm := rmField modrm p
  if p.rexW then
    match c with
    | .add =>
        if modOf modrm = 3 then some (.add, reg, g.ctx.gpr rm)
        else (g.mem.guestReadWord 64 8 (addAddress ip p g)).map fun b => (.add, reg, b)
    | .sub => if modOf modrm = 3 then some (.sub, reg, g.ctx.gpr rm) else none
    | .group83 => if modOf modrm = 3 then immSum (extOf modrm) rm (readS8 ip (p.off + 1)) else none
    | .group81 => if modOf modrm = 3 then immSum (extOf modrm) rm (readS32 ip (p.off + 1)) else none
    | _ => none
  else none

section Encodings

variable {ip : ℕ → Byte} {p : Prefixes} {g : Guest} {c : OpCase} {op : SumOp} {dst rm : RegIdx}
  {b imm : U64} {ext : ℕ}

theorem immSum_eq_some (h : immSum ext rm imm = some (op, dst, b)) :
    dst = rm ∧ b = imm ∧ ∀ ctx, group1 ctx rm ext imm = do
      let ctx' ← updateFlagsArith ctx (ctx.gpr rm) imm (op.apply (ctx.gpr rm) imm) (op = .sub) 64
      return some (ctx'.setGpr rm (op.apply (ctx.gpr rm) imm)) := by
  unfold immSum at h
  split at h
  · cases h
    exact ⟨rfl, rfl, fun _ => rfl⟩
  · cases h
    exact ⟨rfl, rfl, fun _ => rfl⟩
  · cases h

theorem execAdd_storesSum (hsum : sumOf .add ip p g = some (op, dst, b)) :
    ∃ e, execAdd ip p g = .ok e ∧ StoresSum op dst b g e := by
  unfold sumOf at hsum
  dsimp only at hsum
  split_ifs at hsum with hw hmod
  · cases hsum
    obtain ⟨ctx, hctx, hl⟩ := updateFlagsArith_add_leaves (g.ctx.advance (p.off + 1))
      (g.ctx.gpr (regField (ip p.off) p)) (g.ctx.gpr (rmField (ip p.off) p))
    refine ⟨_, ?_, StoresResult.of_leaves [] hl⟩
    unfold execAdd storeAdd
    dsimp only
    rw [if_pos hmod, CpuContext.advance_gpr, hctx]
    rfl
  · obtain ⟨v, hv, heq⟩ := Option.map_eq_some_iff.mp hsum
    cases heq
    obtain ⟨ctx, hctx, hl⟩ := updateFlagsArith_add_leaves
      (g.ctx.advance (p.off + 1 + (addDispField ip (p.off + 1) (modOf (ip p.off))).2))
      (g.ctx.gpr (regField (ip p.off) p)) b
    refine ⟨_, ?_, StoresResult.of_leaves [⟨.load, addAddress ip p g, 8⟩] hl⟩
    unfold execAdd execAddMem storeAdd
    dsimp only
    rw [if_neg hmod, hv, addDecoded, CpuContext.advance_advance, CpuContext.advance_gpr]
    dsimp only
    rw [hctx]
    rfl

theorem execSub_storesSum (hsum : sumOf .sub ip p g = some (op, dst, b)) :
    ∃ e, execSub ip p.off p g = .ok e ∧ StoresSum op dst b g e := by
  unfold sumOf at hsum
  dsimp only at hsum
  split_ifs at hsum with hw hmod
  cases hsum
  obtain ⟨ctx, hctx, hl⟩ := updateFlagsArith_sub_leaves (g.ctx.advance (p.off + 1))
    (g.ctx.gpr (regField (ip p.off) p)) (g.ctx.gpr (rmField (ip p.off) p))
  refine ⟨_, ?_, StoresResult.of_leaves [] hl⟩
  unfold execSub execRegForm
  dsimp only
  rw [if_pos hmod, CpuContext.advance_gpr, hctx]
  rfl

theorem execGroup83_storesSum (hsum : sumOf .group83 ip p g = some (op, dst, b)) :
    ∃ e, execGroup83 ip p g = .ok e ∧ StoresSum op dst b g e := by
  unfold sumOf at hsum
  dsimp only at hsum
  split_ifs at hsum with hw hmod
  obtain ⟨rfl, rfl, hgroup⟩ := immSum_eq_some hsum
  obtain ⟨ctx, hctx, hl⟩ := op.updateFlagsArith_leaves (g.ctx.gpr (rmField (ip p.off) p))
    (readS8 ip (p.off + 1)) (g.ctx.advance (p.off + 2))
  refine ⟨_, ?_, StoresResult.of_leaves [] hl⟩
  unfold execGroup83
  dsimp only
  rw [hgroup, CpuContext.advance_gpr, hctx]
  rfl

theorem execGroup81_storesSum (hsum : sumOf .group81 ip p g = some (op, dst, b)) :
    ∃ e, execGroup81 ip p g = .ok e ∧ StoresSum op dst b g e := by
  unfold sumOf at hsum
  dsimp only at hsum
  split_ifs at hsum with hw hmod
  obtain ⟨rfl, rfl, hgroup⟩ := immSum_eq_some hsum
  obtain ⟨ctx, hctx, hl⟩ := op.updateFlagsArith_leaves (g.ctx.gpr (rmField (ip p.off) p))
    (readS32 ip (p.off + 1)) (g.ctx.advance (p.off + 5))
  refine ⟨_, ?_, StoresResult.of_leaves [] hl⟩
  unfold execGroup81
  dsimp only
  rw [if_pos hmod, hgroup, CpuContext.advance_gpr, hctx]
  rfl

/-- An encoding of ADD or SUB stores its sum. -/
theorem execCase_storesSum (h : sumOf c ip p g = some (op, dst, b)) :
    ∃ e, execCase c ip p g = .ok e ∧ StoresSum op dst b g e := by
  cases c with
  | add => exact execAdd_storesSum h
  | sub => exact execSub_storesSum h
  | group83 => exact execGroup83_storesSum h
  | group81 => exact execGroup81_storesSum h
  | nop | lahf | sahf | push | pop | xchg | movImm | or | and | xor | test | testRaxImm | movStore
  | movLoad | jmpRel8 | jmpRel32 | jccRel8 | callRel32 | ret | retImm16 | int | twoByte | hlt
  | cmpRM | cmpMR | lea | movImmC7 | shift | groupFF | groupF7 | imulImm | default =>
      simp [sumOf] at h

end Encodings

/-! ## Steps over ADD and SUB -/

/-- A step from `m` over an ADD or SUB is exact. -/
def SumExact : Machine → Prop :=
  StepsMeet sumOf fun ⟨op, dst, b⟩ => ExactSum op dst b

/-- The step from `m` is an ADD whose unsigned sum does not fit in 64 bits. -/
def AddCarries : Machine → Prop :=
  StepIsOver sumOf fun ⟨op, dst, b⟩ ctx => op.CarryLost (ctx.gpr dst) b

/-- **Flags of ADD and SUB, exactly.**  A step over one of their encodings is exact if and only if
it is not an ADD that carries. -/
theorem sumExact_iff (m : Machine) : SumExact m ↔ ¬ AddCarries m := by
  apply stepsMeet_iff
  rintro c ip p g ⟨op, dst, b⟩ hsum
  obtain ⟨e, he, hstores⟩ := execCase_storesSum hsum
  exact ⟨e, he, hstores.result_eq, exactSum_iff hstores⟩

/-- ADD RAX, RCX with all bits set in RAX and 1 in RCX. -/
def addCarry : Machine where
  cpu :=
    { ctx :=
        { gpr := Function.update (Function.update (fun _ => 0) Reg.RAX (-1)) Reg.RCX 1
          rip := 0x1000 } }
  mem :=
    { bytes := ByteStore.write (fun _ => 0x90) 0x1000 [0x48, 0x03, 0xC1]
      readable := fun _ _ => true
      writable := fun _ _ => true }

/-- The step over `addCarry` leaves CF clear. -/
theorem not_sumExact_addCarry : ¬ ∀ m, SumExact m := by
  intro h
  have hdec : Decodes addCarry (codeBuf addCarry.mem 0x1000 32)
      { off := 2, rexW := true, opcode := 0x03 } :=
    ⟨by decide, rfl, rfl, rfl⟩
  obtain ⟨out, hout, -, hexact⟩ := h addCarry _ _ ⟨.add, Reg.RAX, 1⟩ hdec (by decide)
  have hcarry := hexact.flags.carry.mpr (by decide)
  have hclear : out.machine.cpu.ctx.flag Flags.CF = false :=
    eq_of_toOption_map (fun out => out.machine.cpu.ctx.flag Flags.CF) hout (by decide)
  rw [hclear] at hcarry
  cases hcarry

/-! ## INC, DEC and NEG -/

/-- The sums with a fixed operand. -/
inductive UnaryOp where
  | inc
  | dec
  | neg
  deriving DecidableEq, Repr

namespace UnaryOp

/-- The sum the operation stands for. -/
def sum : UnaryOp → SumOp
  | .inc => .add
  | .dec | .neg => .sub

/-- Its first operand. -/
def left : UnaryOp → U64 → U64
  | .inc, v | .dec, v => v
  | .neg, _ => 0

/-- Its second operand. -/
def right : UnaryOp → U64 → U64
  | .inc, _ | .dec, _ => 1
  | .neg, v => v

/-- The result. -/
def value (u : UnaryOp) (v : U64) : U64 := u.sum.apply (u.left v) (u.right v)

end UnaryOp

/-- `ctx'` is `ctx` after the sum that `u` stands for: NEG with its CF, INC and DEC without. -/
structure SameAsSum (u : UnaryOp) (rm : RegIdx) (ctx ctx' : CpuContext) : Prop where
  value : ctx'.gpr = Function.update ctx.gpr rm (u.value (ctx.gpr rm))
  flags : ExactButCarry u.sum (u.left (ctx.gpr rm)) (u.right (ctx.gpr rm)) ctx'
  carry : if u = .neg then
      (ctx'.flag Flags.CF = true ↔
        ¬ FitsUnsigned 64 (u.sum.unsigned (u.left (ctx.gpr rm)) (u.right (ctx.gpr rm))))
    else ctx'.flag Flags.CF = ctx.flag Flags.CF

/-- PF, and for DEC and NEG also OF, already are what the operation should leave. -/
def UnaryOp.FlagsHeld (u : UnaryOp) (v : U64) (ctx : CpuContext) : Prop :=
  (ctx.flag Flags.PF = true ↔ Even (lowBits (u.value v))) ∧
    (u ≠ .inc → (ctx.flag Flags.OF = true ↔ v = int64Min))

/-- The register forms of INC, DEC and NEG with REX.W. -/
def unaryOf (c : OpCase) (ip : ℕ → Byte) (p : Prefixes) (_ : Guest) :
    Option (UnaryOp × RegIdx) :=
  let modrm := ip p.off
  let rm := rmField modrm p
  if p.rexW ∧ modOf modrm = 3 then
    match c, extOf modrm with
    | .groupFF, 0 => some (.inc, rm)
    | .groupFF, 1 => some (.dec, rm)
    | .groupF7, 3 => some (.neg, rm)
    | _, _ => none
  else none

/-- What the case leaves of `u`: OF only for INC, CF only for NEG, PF never. -/
structure StoresUnary (u : UnaryOp) (rm : RegIdx) (g : Guest) (e : CaseExit) : Prop where
  result_eq : e.result = .Ok
  gpr_eq : e.guest.ctx.gpr = Function.update g.ctx.gpr rm (u.value (g.ctx.gpr rm))
  zf_eq : e.guest.ctx.flag Flags.ZF = (u.value (g.ctx.gpr rm) == 0)
  sf_eq : e.guest.ctx.flag Flags.SF = (u.value (g.ctx.gpr rm)).msb
  pf_eq : e.guest.ctx.flag Flags.PF = g.ctx.flag Flags.PF
  of_eq : e.guest.ctx.flag Flags.OF =
    if u = .inc then g.ctx.gpr rm == 0x7FFFFFFFFFFFFFFF else g.ctx.flag Flags.OF
  cf_eq : e.guest.ctx.flag Flags.CF =
    if u = .neg then g.ctx.gpr rm != 0 else g.ctx.flag Flags.CF

section Unary

variable {ip : ℕ → Byte} {p : Prefixes} {g : Guest} {c : OpCase} {u : UnaryOp} {rm : RegIdx}

theorem unaryOf_groupFF (h : unaryOf .groupFF ip p g = some (u, rm)) :
    modOf (ip p.off) = 3 ∧ rm = rmField (ip p.off) p ∧
      (extOf (ip p.off) = 0 ∧ u = .inc ∨ extOf (ip p.off) = 1 ∧ u = .dec) := by
  unfold unaryOf at h
  dsimp only at h
  split_ifs at h with hmod
  split at h <;> cases h
  · exact ⟨hmod.2, rfl, Or.inl ⟨‹_›, rfl⟩⟩
  · exact ⟨hmod.2, rfl, Or.inr ⟨‹_›, rfl⟩⟩
  · contradiction

theorem unaryOf_groupF7 (h : unaryOf .groupF7 ip p g = some (u, rm)) :
    modOf (ip p.off) = 3 ∧ rm = rmField (ip p.off) p ∧ extOf (ip p.off) = 3 ∧ u = .neg := by
  unfold unaryOf at h
  dsimp only at h
  split_ifs at h with hmod
  split at h <;> cases h
  · contradiction
  · contradiction
  · exact ⟨hmod.2, rfl, ‹_›, rfl⟩

theorem execGroupFF_storesUnary (h : unaryOf .groupFF ip p g = some (u, rm)) :
    StoresUnary u rm g (execGroupFF ip p g) := by
  obtain ⟨hmod, rfl, ⟨hext, rfl⟩ | ⟨hext, rfl⟩⟩ := unaryOf_groupFF h
  · have hend : execGroupFF ip p g = (g.withCtx (((((g.ctx.advance (p.off + 1)).setFlag Flags.ZF
        (UnaryOp.inc.value (g.ctx.gpr (rmField (ip p.off) p)) == 0)).setFlag Flags.SF
        (UnaryOp.inc.value (g.ctx.gpr (rmField (ip p.off) p))).msb).setFlag Flags.OF
        (g.ctx.gpr (rmField (ip p.off) p) == 0x7FFFFFFFFFFFFFFF)).setGpr (rmField (ip p.off) p)
        (UnaryOp.inc.value (g.ctx.gpr (rmField (ip p.off) p))))).brk := by
      unfold execGroupFF
      dsimp only
      rw [if_pos hmod, hext]
      simp only [shifted_sign]
      rfl
    rw [hend]
    refine ⟨rfl, rfl, ?_, ?_, ?_, ?_, ?_⟩
    all_goals
      simp (disch := decide) [brk, CpuContext.flag_setFlag_of_disjoint,
        CpuContext.flag_setFlag_self]
  · have hend : execGroupFF ip p g = (g.withCtx ((((g.ctx.advance (p.off + 1)).setFlag Flags.ZF
        (UnaryOp.dec.value (g.ctx.gpr (rmField (ip p.off) p)) == 0)).setFlag Flags.SF
        (UnaryOp.dec.value (g.ctx.gpr (rmField (ip p.off) p))).msb).setGpr (rmField (ip p.off) p)
        (UnaryOp.dec.value (g.ctx.gpr (rmField (ip p.off) p))))).brk := by
      unfold execGroupFF
      dsimp only
      rw [if_pos hmod, hext]
      simp only [shifted_sign]
      rfl
    rw [hend]
    refine ⟨rfl, rfl, ?_, ?_, ?_, ?_, ?_⟩
    all_goals
      simp (disch := decide) [brk, CpuContext.flag_setFlag_of_disjoint,
        CpuContext.flag_setFlag_self]

theorem execGroupF7_storesUnary (h : unaryOf .groupF7 ip p g = some (u, rm)) :
    ∃ e, execGroupF7 ip p g = .ok e ∧ StoresUnary u rm g e := by
  obtain ⟨hmod, rfl, hext, rfl⟩ := unaryOf_groupF7 h
  have hend : execGroupF7 ip p g = .ok (g.withCtx (((((g.ctx.advance (p.off + 1)).setFlag Flags.CF
      (g.ctx.gpr (rmField (ip p.off) p) != 0)).setFlag Flags.ZF
      (UnaryOp.neg.value (g.ctx.gpr (rmField (ip p.off) p)) == 0)).setFlag Flags.SF
      (UnaryOp.neg.value (g.ctx.gpr (rmField (ip p.off) p))).msb).setGpr (rmField (ip p.off) p)
      (UnaryOp.neg.value (g.ctx.gpr (rmField (ip p.off) p))))).brk := by
    unfold execGroupF7
    dsimp only
    rw [if_pos hmod, hext]
    simp only [shifted_sign]
    rfl
  refine ⟨_, hend, rfl, rfl, ?_, ?_, ?_, ?_, ?_⟩
  all_goals
    simp (disch := decide) [brk, CpuContext.flag_setFlag_of_disjoint, CpuContext.flag_setFlag_self]

theorem execCase_storesUnary (h : unaryOf c ip p g = some (u, rm)) :
    ∃ e, execCase c ip p g = .ok e ∧ StoresUnary u rm g e := by
  cases c with
  | groupFF => exact ⟨_, rfl, execGroupFF_storesUnary h⟩
  | groupF7 => exact execGroupF7_storesUnary h
  | nop | lahf | sahf | push | pop | xchg | movImm | group83 | group81 | add | or | and | sub | xor
  | test | testRaxImm | movStore | movLoad | jmpRel8 | jmpRel32 | jccRel8 | callRel32 | ret
  | retImm16 | int | twoByte | hlt | cmpRM | cmpMR | lea | movImmC7 | shift | imulImm | default =>
      simp [unaryOf] at h

/-- Only the largest signed word has no successor; only the smallest has neither a predecessor nor
a negative. -/
theorem UnaryOp.overflow_iff (u : UnaryOp) (v : U64) :
    ¬ FitsSigned 64 (u.sum.signed (u.left v) (u.right v)) ↔
      if u = .inc then v = 0x7FFFFFFFFFFFFFFF else v = int64Min := by
  have hlo := BitVec.le_toInt v
  have hhi := BitVec.toInt_lt (x := v)
  have hone : (1 : U64).toInt = 1 := by decide
  have hzero : (0 : U64).toInt = 0 := by decide
  have hmax : (0x7FFFFFFFFFFFFFFF : U64).toInt = 2 ^ 63 - 1 := by decide
  have hmin : int64Min.toInt = -2 ^ 63 := by decide
  unfold FitsSigned
  cases u with
  | inc =>
      simp only [UnaryOp.sum, UnaryOp.left, UnaryOp.right, SumOp.signed, if_true, hone,
        ← BitVec.toInt_inj, hmax]
      omega
  | dec =>
      simp only [UnaryOp.sum, UnaryOp.left, UnaryOp.right, SumOp.signed, reduceCtorEq, if_false,
        hone, ← BitVec.toInt_inj, hmin]
      omega
  | neg =>
      simp only [UnaryOp.sum, UnaryOp.left, UnaryOp.right, SumOp.signed, reduceCtorEq, if_false,
        hzero, ← BitVec.toInt_inj, hmin]
      omega

/-- Zero minus anything else borrows. -/
theorem neg_borrows_iff (v : U64) :
    v ≠ 0 ↔ ¬ FitsUnsigned 64 (UnaryOp.neg.sum.unsigned (UnaryOp.neg.left v)
      (UnaryOp.neg.right v)) := by
  have hv := v.isLt
  rw [ne_eq, ← BitVec.toNat_inj]
  simp only [UnaryOp.sum, UnaryOp.left, UnaryOp.right, SumOp.unsigned, FitsUnsigned,
    BitVec.ofNat_eq_ofNat, BitVec.toNat_ofNat]
  omega

/-- Such a case agrees with its sum exactly if the flags it does not write were right before. -/
theorem StoresUnary.sameAsSum_iff {e : CaseExit} (h : StoresUnary u rm g e) :
    SameAsSum u rm g.ctx e.guest.ctx ↔ u.FlagsHeld (g.ctx.gpr rm) g.ctx := by
  have hover := u.overflow_iff (g.ctx.gpr rm)
  constructor
  · intro hsame
    refine ⟨?_, fun hne => ?_⟩
    · rw [← h.pf_eq]
      exact hsame.flags.parity
    · rw [if_neg hne] at hover
      rw [← hover, ← hsame.flags.overflow, h.of_eq, if_neg hne]
  · rintro ⟨hparity, hheld⟩
    refine ⟨h.gpr_eq, ⟨⟨?_, ?_, ?_⟩, ?_⟩, ?_⟩
    · rw [h.zf_eq, beq_iff_eq, UnaryOp.value]
    · rw [h.sf_eq, BitVec.msb_eq_toInt, decide_eq_true_eq, UnaryOp.value]
    · rw [h.pf_eq]
      exact hparity
    · rw [h.of_eq, hover]
      split_ifs with hu
      · exact beq_iff_eq
      · exact hheld hu
    · have hcf := h.cf_eq
      split_ifs at hcf ⊢ with hu
      · subst hu
        rw [hcf, bne_iff_ne]
        exact neg_borrows_iff _
      · exact hcf

end Unary

/-- A step from `m` over an INC, DEC or NEG agrees with the sum it stands for. -/
def UnaryExact : Machine → Prop :=
  StepsMeet unaryOf fun ⟨u, rm⟩ => SameAsSum u rm

/-- The step from `m` is an INC, DEC or NEG over flags that it should have changed. -/
def UnaryLeavesStale : Machine → Prop :=
  StepIsOver unaryOf fun ⟨u, rm⟩ ctx => ¬ u.FlagsHeld (ctx.gpr rm) ctx

/-- **INC, DEC and NEG, exactly.**  A step over one of them agrees with its sum if and only if PF,
and for DEC and NEG also OF, already were what the sum leaves. -/
theorem unaryExact_iff (m : Machine) : UnaryExact m ↔ ¬ UnaryLeavesStale m := by
  apply stepsMeet_iff
  rintro c ip p g ⟨u, rm⟩ hunary
  obtain ⟨e, he, hstores⟩ := execCase_storesUnary hunary
  exact ⟨e, he, hstores.result_eq, hstores.sameAsSum_iff.trans not_not.symm⟩

/-- DEC RAX with 1 in RAX and OF set. -/
def decOne : Machine where
  cpu :=
    { ctx :=
        { gpr := Function.update (fun _ => 0) Reg.RAX 1
          rip := 0x1000
          rflags := Flags.OF } }
  mem :=
    { bytes := ByteStore.write (fun _ => 0x90) 0x1000 [0x48, 0xFF, 0xC8]
      readable := fun _ _ => true
      writable := fun _ _ => true }

/-- The step over `decOne` leaves OF set, although 1 - 1 does not overflow. -/
theorem not_unaryExact_decOne : ¬ ∀ m, UnaryExact m := by
  intro h
  have hdec : Decodes decOne (codeBuf decOne.mem 0x1000 32)
      { off := 2, rexW := true, opcode := 0xFF } :=
    ⟨by decide, rfl, rfl, rfl⟩
  obtain ⟨out, hout, -, hsame⟩ := h decOne _ _ ⟨.dec, Reg.RAX⟩ hdec (by decide)
  have hset : out.machine.cpu.ctx.flag Flags.OF = true :=
    eq_of_toOption_map (fun out => out.machine.cpu.ctx.flag Flags.OF) hout (by decide)
  exact absurd (hsame.flags.overflow.mp hset) (by decide)

end Cpu
