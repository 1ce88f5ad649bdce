/-
# Operand size

The instructions that write a register, without REX.W and without 0x66, against the 32-bit
operations they should be.  Only the immediate moves and the loads of MOV look at REX.W; every other
case computes on the whole registers.  It narrows, that is, leaves the zero-extended 32-bit result
and its flags, on operands whose high halves do not matter.

AF is left out: no case ever writes it from arithmetic.
-/
import ChuckStation.CpuConditions
import ChuckStation.CpuNarrowWords

namespace Cpu

open Guest GuestMemory

/-! ## Effects -/

/-- What an operation leaves: the registers, and each flag that it defines. -/
structure Effect where
  gpr : RegIdx → U64
  cf : Option Bool
  pf : Option Bool
  zf : Option Bool
  sf : Option Bool
  ovf : Option Bool

namespace Effect

/-- The registers as given and the flags of `ctx`. -/
def keeping (ctx : CpuContext) (gpr : RegIdx → U64) : Effect where
  gpr := gpr
  cf := some (ctx.flag Flags.CF)
  pf := some (ctx.flag Flags.PF)
  zf := some (ctx.flag Flags.ZF)
  sf := some (ctx.flag Flags.SF)
  ovf := some (ctx.flag Flags.OF)

/-- The registers, CF and OF as given, and the other flags of the result `r`. -/
def describing (gpr : RegIdx → U64) (r : U32) (cf ovf : Option Bool) : Effect where
  gpr := gpr
  cf := cf
  pf := some (decide (Even (lowBits (extend r))))
  zf := some (r == 0)
  sf := some r.msb
  ovf := ovf

/-- `ctx` shows the effect. -/
structure Shows (effect : Effect) (ctx : CpuContext) : Prop where
  gpr_eq : ctx.gpr = effect.gpr
  cf_eq : ∀ b ∈ effect.cf, ctx.flag Flags.CF = b
  pf_eq : ∀ b ∈ effect.pf, ctx.flag Flags.PF = b
  zf_eq : ∀ b ∈ effect.zf, ctx.flag Flags.ZF = b
  sf_eq : ∀ b ∈ effect.sf, ctx.flag Flags.SF = b
  of_eq : ∀ b ∈ effect.ovf, ctx.flag Flags.OF = b

end Effect

/-! ## 32-bit operations -/

/-- The instructions with a register for destination, and their operands.  MOVZX and MOVSX have the
byte that the case reads next to the one they name; ADD with a memory operand has the 64 bits that
the case reads, if it can, next to the operand. -/
inductive NarrowForm where
  | move (dst : RegIdx) (v : U64)
  | widen8 (dst : RegIdx) (signed : Bool) (read operand : Byte)
  | widen16 (dst : RegIdx) (signed : Bool) (operand : U16)
  | cmov (cc : ℕ) (dst rm : RegIdx)
  | not (rm : RegIdx)
  | logic (op : LogicOp) (dst : RegIdx) (b : U64)
  | sum (op : SumOp) (dst : RegIdx) (b : U64)
  | addMem (dst : RegIdx) (b : U32) (wide : Option U64)
  | unary (u : UnaryOp) (rm : RegIdx)
  | shift (op : ShiftOp) (rm : RegIdx) (n : ℕ)
  | mul (form : MulForm)
  deriving DecidableEq

/-- A narrow word, widened with its sign or without. -/
def widen {w : ℕ} (signed : Bool) (v : ℕ) (x : BitVec w) : BitVec v :=
  if signed then x.signExtend v else x.setWidth v

namespace NarrowForm

/-- The 32-bit operation. -/
def effect : NarrowForm → CpuContext → Effect
  | .move dst v, ctx => .keeping ctx (Function.update ctx.gpr dst (extend (low v)))
  | .widen8 dst signed _ operand, ctx =>
      .keeping ctx (Function.update ctx.gpr dst (extend (widen signed 32 operand)))
  | .widen16 dst signed operand, ctx =>
      .keeping ctx (Function.update ctx.gpr dst (extend (widen signed 32 operand)))
  | .cmov cc dst rm, ctx =>
      .keeping ctx (Function.update ctx.gpr dst
        (extend (low (if jccTaken ctx cc then ctx.gpr rm else ctx.gpr dst))))
  | .not rm, ctx => .keeping ctx (Function.update ctx.gpr rm (extend (~~~ low (ctx.gpr rm))))
  | .logic op dst b, ctx =>
      let r := op.on (low (ctx.gpr dst)) (low b)
      .describing (Function.update ctx.gpr dst (extend r)) r (some false) (some false)
  | .sum op dst b, ctx =>
      let a := low (ctx.gpr dst)
      let r := op.on a (low b)
      .describing (Function.update ctx.gpr dst (extend r)) r (some (op.carryOn a (low b)))
        (some (op.overflowOn a (low b)))
  | .addMem dst b _, ctx =>
      let a := low (ctx.gpr dst)
      .describing (Function.update ctx.gpr dst (extend (a + b))) (a + b)
        (some (SumOp.add.carryOn a b)) (some (SumOp.add.overflowOn a b))
  | .unary u rm, ctx =>
      let v := ctx.gpr rm
      .describing (Function.update ctx.gpr rm (extend (u.low32 v))) (u.low32 v)
        (some (if u = .neg then low v != 0 else ctx.flag Flags.CF)) (some (u.overflow32 v))
  | .shift op rm n, ctx =>
      let v := low (ctx.gpr rm)
      let r := op.on v (n % 32)
      if n % 32 = 0 then .keeping ctx (Function.update ctx.gpr rm (extend r))
      else
        .describing (Function.update ctx.gpr rm (extend r)) r (some (op.lastOutOn v (n % 32)))
          (if n % 32 = 1 then some (op.overflowOn v) else none)
  | .mul form, ctx =>
      let overflow := decide (¬ form.Fits32 (form.product32 ctx))
      { gpr := form.store32 (form.product32 ctx) ctx.gpr
        cf := some overflow, pf := none, zf := none, sf := none, ovf := some overflow }

/-- Where the case, computing on whole registers, leaves what the 32-bit operation leaves. -/
def Narrows : NarrowForm → CpuContext → Prop
  | .move _ v, _ => high v = 0
  | .widen8 _ signed read operand, _ => read = operand ∧ (signed = true → operand.msb = false)
  | .widen16 _ signed operand, _ => signed = true → operand.msb = false
  | .cmov cc dst rm, ctx =>
      if jccTaken ctx cc = true then
        if cc = 0xA ∨ cc = 0xB then ctx.gpr dst = extend (low (ctx.gpr rm))
        else high (ctx.gpr rm) = 0
      else high (ctx.gpr dst) = 0
  | .not rm, ctx => high (ctx.gpr rm) = BitVec.allOnes 32
  | .logic op dst b, ctx => op.Narrows (ctx.gpr dst) b
  | .sum op dst b, ctx => op.Narrows (ctx.gpr dst) b
  | .addMem dst _ wide, ctx => ∃ b ∈ wide, SumOp.add.Narrows (ctx.gpr dst) b
  | .unary u rm, ctx =>
      u.Narrows (ctx.gpr rm) ∧
        (ctx.flag Flags.PF = true ↔ Even (lowBits (u.value (ctx.gpr rm)))) ∧
        (u ≠ .inc → (ctx.flag Flags.OF = true ↔ u = .dec ∧ ctx.gpr rm = 0x80000000))
  | .shift op rm n, ctx =>
      op.Narrows (ctx.gpr rm) n ∧
        if n % 32 = 0 then
          ctx.flag Flags.CF = false ∧ ctx.flag Flags.OF = false ∧
            DescribesResult (extend (low (ctx.gpr rm))) ctx
        else
          op.lastOutOn (low (ctx.gpr rm)) (n % 32) = false ∧
            (n % 32 = 1 → op.overflowOn (low (ctx.gpr rm)) = false)
  | .mul form, ctx => form.Narrows ctx

end NarrowForm

/-! ## Cases against effects -/

/-- The case ended with `Ok` and `v` in `dst`, with the flags as they were. -/
structure StoresOnly (dst : RegIdx) (v : U64) (g : Guest) (e : CaseExit) : Prop where
  result_eq : e.result = .Ok
  gpr_eq : e.guest.ctx.gpr = Function.update g.ctx.gpr dst v
  rflags_eq : e.guest.ctx.rflags = g.ctx.rflags

/-- The case ends with `Ok` and the effect of the form exactly if the form narrows. -/
def CaseNarrows (c : OpCase) (ip : ℕ → Byte) (p : Prefixes) (g : Guest) (form : NarrowForm) :
    Prop :=
  ∃ e, execCase c ip p g = .ok e ∧
    (e.result = .Ok ∧ (form.effect g.ctx).Shows e.guest.ctx ↔ form.Narrows g.ctx)

section Effects

variable {dst rm : RegIdx} {v : U64} {r : U32} {cf ovf : Bool} {cf' ovf' : Option Bool} {g : Guest}
  {e : CaseExit}

theorem update_eq_iff {gpr : RegIdx → U64} {a b : U64} :
    Function.update gpr dst a = Function.update gpr dst b ↔ a = b :=
  (Function.update_injective _ _).eq_iff

theorem parity_eq (v : U64) : parity v = decide (Even (lowBits v)) := by
  rw [Bool.eq_iff_iff, parity_iff, decide_eq_true_eq]

theorem extend_beq_zero (r : U32) : (extend r == 0) = (r == 0) := by
  have hzero : (0 : U64) = extend 0 := rfl
  rw [Bool.eq_iff_iff, beq_iff_eq, beq_iff_eq, hzero, extend_injective.eq_iff]

/-- A case that leaves the flags alone narrows exactly if its value does. -/
theorem StoresOnly.shows_iff (h : StoresOnly dst v g e) :
    e.result = .Ok ∧
      (Effect.keeping g.ctx (Function.update g.ctx.gpr dst (extend r))).Shows e.guest.ctx ↔
    v = extend r := by
  have hflag (mask : U64) : e.guest.ctx.flag mask = g.ctx.flag mask :=
    CpuContext.flag_congr h.rflags_eq mask
  rw [and_iff_right h.result_eq]
  constructor
  · intro hshows
    exact update_eq_iff.mp (h.gpr_eq.symm.trans hshows.gpr_eq)
  · rintro rfl
    refine ⟨h.gpr_eq, ?_, ?_, ?_, ?_, ?_⟩ <;>
      · rintro b hb
        exact (hflag _).trans (Option.some.inj hb)

/-- A case that sets the flags of its value narrows exactly if the value does with its sign clear,
and CF and OF are those of the 32-bit operation. -/
theorem StoresResult.shows_iff (h : StoresResult dst v cf ovf g e) :
    e.result = .Ok ∧
      (Effect.describing (Function.update g.ctx.gpr dst (extend r)) r cf' ovf').Shows e.guest.ctx ↔
    (v = extend r ∧ r.msb = false) ∧ (∀ b ∈ cf', cf = b) ∧ (∀ b ∈ ovf', ovf = b) := by
  rw [and_iff_right h.result_eq]
  constructor
  · intro hshows
    have hv : v = extend r := update_eq_iff.mp (h.gpr_eq.symm.trans hshows.gpr_eq)
    have hsign := h.sf_eq.symm.trans (hshows.sf_eq _ rfl)
    rw [hv, msb_extend] at hsign
    exact ⟨⟨hv, hsign.symm⟩, fun b hb => h.cf_eq.symm.trans (hshows.cf_eq b hb),
      fun b hb => h.of_eq.symm.trans (hshows.of_eq b hb)⟩
  · rintro ⟨⟨rfl, hmsb⟩, hcf, hovf⟩
    refine ⟨h.gpr_eq, fun b hb => h.cf_eq.trans (hcf b hb), ?_, ?_, ?_,
      fun b hb => h.of_eq.trans (hovf b hb)⟩
    · rintro b hb
      rw [h.pf_eq, parity_eq, ← Option.some.inj hb]
    · rintro b hb
      rw [h.zf_eq, extend_beq_zero, ← Option.some.inj hb]
    · rintro b hb
      rw [h.sf_eq, msb_extend, ← Option.some.inj hb, hmsb]

end Effects

/-! ## Moves -/

/-- The prefixes with REX.W. -/
def Prefixes.wide (p : Prefixes) : Prefixes := { p with rexW := true }

/-- MOV and LEA: the destination and the value moved. -/
def moveForm (c : OpCase) (ip : ℕ → Byte) (p : Prefixes) (g : Guest) : Option NarrowForm :=
  let modrm := ip p.off
  let reg := regField modrm p
  let rm := rmField modrm p
  match c with
  | .movImm => some (.move (regOf p.opcode p.rexB) (extend (readWord 32 4 ip p.off)))
  | .movStore => if modOf modrm = 3 then some (.move rm (g.ctx.gpr reg)) else none
  | .movLoad =>
      if modOf modrm = 3 then some (.move reg (g.ctx.gpr rm))
      else (g.mem.guestReadWord 32 4 (movAddress ip p g)).map fun v => .move reg (extend v)
  | .movImmC7 =>
      if extOf modrm = 0 ∧ modOf modrm = 3 then
        some (.move rm (extend (readWord 32 4 ip (p.off + 1))))
      else none
  | .lea =>
      if modOf modrm = 3 then none
      else some (.move reg (g.ctx.gpr rm + (dispField ip (p.off + 1) (modOf modrm)).1))
  | _ => none

/-- The byte register that a register operand of 8 bits names: AH to BH for the fields 4 to 7 of an
instruction without REX, else the low byte of the register. -/
def byteOperand (ip : ℕ → Byte) (p : Prefixes) (ctx : CpuContext) : Byte :=
  let modrm := ip (p.off + 1)
  if p.off = 1 ∧ 4 ≤ (modrm &&& 7).toNat then (ctx.gpr (regOf (modrm &&& 3) false) >>> 8).setWidth 8
  else (ctx.gpr (rmField modrm p)).setWidth 8

/-- The register forms of MOVZX and MOVSX. -/
def widenForm (c : OpCase) (ip : ℕ → Byte) (p : Prefixes) (g : Guest) : Option NarrowForm :=
  let op2 := ip p.off
  let modrm := ip (p.off + 1)
  let reg := regField modrm p
  let v := g.ctx.gpr (rmField modrm p)
  if c = .twoByte ∧ modOf modrm = 3 then
    if op2 = 0xB6 ∨ op2 = 0xBE then
      some (.widen8 reg (op2 = 0xBE) (v.setWidth 8) (byteOperand ip p g.ctx))
    else if op2 = 0xB7 ∨ op2 = 0xBF then some (.widen16 reg (op2 = 0xBF) (v.setWidth 16))
    else none
  else none

/-- The register form of NOT. -/
def notForm (c : OpCase) (ip : ℕ → Byte) (p : Prefixes) (_ : Guest) : Option NarrowForm :=
  let modrm := ip p.off
  if c = .groupF7 ∧ modOf modrm = 3 ∧ extOf modrm = 2 then some (.not (rmField modrm p)) else none

/-- The register forms of CMOVcc. -/
def cmovForm (c : OpCase) (ip : ℕ → Byte) (p : Prefixes) (g : Guest) : Option NarrowForm :=
  (cmovOf c ip p.wide g).map fun ⟨cc, dst, rm⟩ => .cmov cc dst rm

section Moves

variable {c : OpCase} {ip : ℕ → Byte} {p : Prefixes} {g : Guest} {e : CaseExit} {form : NarrowForm}
  {dst rm : RegIdx} {v : U64}

theorem storesOnly_setGpr (n : ℕ) (accesses : List Access) :
    StoresOnly dst v g ((g.withCtx ((g.ctx.advance n).setGpr dst v)).brk accesses) :=
  ⟨rfl, rfl, rfl⟩

theorem caseNarrows_move (he : execCase c ip p g = .ok e) (h : StoresOnly dst v g e) :
    CaseNarrows c ip p g (.move dst v) := by
  refine ⟨e, he, h.shows_iff.trans ?_⟩
  rw [eq_extend_low_iff]
  exact (ShiftOp.high_eq_zero_iff v).symm

theorem moveForm_narrows (hw : p.rexW = false) (h : moveForm c ip p g = some form) :
    CaseNarrows c ip p g form := by
  cases c with
  | movImm =>
      cases h
      refine caseNarrows_move (congrArg Except.ok ?_) (storesOnly_setGpr (p.off + 4) [])
      unfold execMovImm
      dsimp only
      rw [hw]
      rfl
  | movStore =>
      simp only [moveForm] at h
      split_ifs at h with hmod
      cases h
      refine caseNarrows_move (congrArg Except.ok ?_) (storesOnly_setGpr (p.off + 1) [])
      unfold execMovStore
      dsimp only
      rw [if_pos hmod]
      rfl
  | movLoad =>
      simp only [moveForm] at h
      split_ifs at h with hmod
      · cases h
        refine caseNarrows_move (congrArg Except.ok ?_) (storesOnly_setGpr (p.off + 1) [])
        unfold execMovLoad
        dsimp only
        rw [if_pos hmod]
        rfl
      · obtain ⟨v, hv, rfl⟩ := Option.map_eq_some_iff.mp h
        refine caseNarrows_move (congrArg Except.ok ?_)
          (storesOnly_setGpr (p.off + 1 + (dispField ip (p.off + 1) (modOf (ip p.off))).2)
            [⟨.load, movAddress ip p g, 4⟩])
        unfold execMovLoad execMovLoadMem
        dsimp only
        rw [if_neg hmod, hw, hv, movDecoded, CpuContext.advance_advance]
        rfl
  | movImmC7 =>
      simp only [moveForm] at h
      split_ifs at h with hform
      cases h
      refine caseNarrows_move (congrArg Except.ok ?_) (storesOnly_setGpr (p.off + 5) [])
      unfold execMovImmC7
      dsimp only
      rw [if_pos hform, hw]
      rfl
  | lea =>
      simp only [moveForm] at h
      split_ifs at h with hmod
      cases h
      refine caseNarrows_move (congrArg Except.ok ?_)
        (storesOnly_setGpr (p.off + 1 + (dispField ip (p.off + 1) (modOf (ip p.off))).2) [])
      unfold execLea
      dsimp only
      rw [CpuContext.advance_advance]
      rfl
  | nop | lahf | sahf | push | pop | xchg | group83 | group81 | add | or | and | sub | xor | test
  | testRaxImm | jmpRel8 | jmpRel32 | jccRel8 | callRel32 | ret | retImm16 | int | twoByte | hlt
  | cmpRM | cmpMR | shift | groupFF | groupF7 | imulImm | default => cases h

/-- A widened word is the 32-bit one, zero-extended, if it is not negative. -/
theorem widen_eq_iff {w : ℕ} (hw : w ≤ 32) (signed : Bool) (x y : BitVec w) :
    widen signed 64 x = extend (widen signed 32 y) ↔ x = y ∧ (signed = true → y.msb = false) := by
  have hplain : x.setWidth 64 = extend (y.setWidth 32) ↔ x = y := by
    rw [← BitVec.toNat_inj, ← BitVec.toNat_inj, extend_toNat,
      BitVec.toNat_setWidth_of_le (by omega), BitVec.toNat_setWidth_of_le hw]
  cases signed with
  | false => exact hplain.trans (and_iff_left fun h => by cases h).symm
  | true =>
      show x.signExtend 64 = extend (y.signExtend 32) ↔ _
      constructor
      · intro h
        have hint := congrArg BitVec.toInt h
        rw [BitVec.toInt_signExtend_of_le (by omega), BitVec.toInt_eq_toNat_of_msb (msb_extend _),
          extend_toNat] at hint
        have hsmall : (y.signExtend 32).msb = false := by
          have hlt := BitVec.toInt_lt (x := x)
          have hpow : (2 : ℤ) ^ (w - 1) ≤ 2 ^ 31 := pow_le_pow_right₀ (by norm_num) (by omega)
          rw [BitVec.msb_eq_false_iff_two_mul_lt]
          omega
        rw [← BitVec.toInt_eq_toNat_of_msb hsmall, BitVec.toInt_signExtend_of_le hw,
          BitVec.toInt_inj] at hint
        refine ⟨hint, fun _ => ?_⟩
        have hsign := BitVec.toInt_eq_toNat_of_msb hsmall
        rw [BitVec.toInt_signExtend_of_le hw] at hsign
        rw [BitVec.msb_eq_toInt, decide_eq_false_iff_not]
        omega
      · rintro ⟨rfl, hmsb⟩
        rw [BitVec.signExtend_eq_setWidth_of_msb_false (hmsb rfl),
          BitVec.signExtend_eq_setWidth_of_msb_false (hmsb rfl)]
        exact hplain.mpr rfl

theorem and_0xFF_eq (v : U64) : v &&& 0xFF = (v.setWidth 8).setWidth 64 := by
  apply BitVec.eq_of_toNat_eq
  rw [BitVec.toNat_and, BitVec.toNat_setWidth_of_le (by norm_num), BitVec.toNat_setWidth]
  exact Nat.and_two_pow_sub_one_eq_mod v.toNat 8

theorem and_0xFFFF_eq (v : U64) : v &&& 0xFFFF = (v.setWidth 16).setWidth 64 := by
  apply BitVec.eq_of_toNat_eq
  rw [BitVec.toNat_and, BitVec.toNat_setWidth_of_le (by norm_num), BitVec.toNat_setWidth]
  exact Nat.and_two_pow_sub_one_eq_mod v.toNat 16

/-- MOVZX and MOVSX widen the low bytes of the register to 64 bits. -/
theorem execTwoByte_widen8 (hmod : modOf (ip (p.off + 1)) = 3)
    (hop : ip p.off = 0xB6 ∨ ip p.off = 0xBE) :
    ∃ e, execTwoByte ip p g = .ok e ∧ StoresOnly (regField (ip (p.off + 1)) p)
      (widen (ip p.off = 0xBE) 64 ((g.ctx.gpr (rmField (ip (p.off + 1)) p)).setWidth 8)) g e := by
  unfold execTwoByte
  dsimp only
  rcases hop with hop | hop
  · rw [hop]
    unfold execMovzx execRegForm
    dsimp only
    rw [if_pos hmod, if_pos rfl, and_0xFF_eq]
    exact ⟨_, rfl, storesOnly_setGpr (p.off + 1 + 1) []⟩
  · rw [hop]
    unfold execMovsx execRegForm
    dsimp only
    rw [if_pos hmod, if_pos rfl]
    exact ⟨_, rfl, storesOnly_setGpr (p.off + 1 + 1) []⟩

theorem execTwoByte_widen16 (hmod : modOf (ip (p.off + 1)) = 3)
    (hop : ip p.off = 0xB7 ∨ ip p.off = 0xBF) :
    ∃ e, execTwoByte ip p g = .ok e ∧ StoresOnly (regField (ip (p.off + 1)) p)
      (widen (ip p.off = 0xBF) 64 ((g.ctx.gpr (rmField (ip (p.off + 1)) p)).setWidth 16)) g e := by
  unfold execTwoByte
  dsimp only
  rcases hop with hop | hop
  · rw [hop]
    unfold execMovzx execRegForm
    dsimp only
    rw [if_pos hmod, if_neg (by decide : ¬ (0xB7 : Byte) = 0xB6), and_0xFFFF_eq]
    exact ⟨_, rfl, storesOnly_setGpr (p.off + 1 + 1) []⟩
  · rw [hop]
    unfold execMovsx execRegForm
    dsimp only
    rw [if_pos hmod, if_neg (by decide : ¬ (0xBF : Byte) = 0xBE)]
    exact ⟨_, rfl, storesOnly_setGpr (p.off + 1 + 1) []⟩

theorem widenForm_narrows (h : widenForm c ip p g = some form) : CaseNarrows c ip p g form := by
  simp only [widenForm] at h
  split_ifs at h with hform h8 h16
  · obtain ⟨rfl, hmod⟩ := hform
    cases h
    obtain ⟨e, he, hstores⟩ := execTwoByte_widen8 (g := g) hmod h8
    exact ⟨e, he, hstores.shows_iff.trans (widen_eq_iff (by norm_num) _ _ _)⟩
  · obtain ⟨rfl, hmod⟩ := hform
    cases h
    obtain ⟨e, he, hstores⟩ := execTwoByte_widen16 (g := g) hmod h16
    refine ⟨e, he, hstores.shows_iff.trans ((widen_eq_iff (by norm_num) _ _ _).trans ?_)⟩
    exact and_iff_right rfl

theorem not_eq_extend_iff (v : U64) : ~~~v = extend (~~~low v) ↔ high v = BitVec.allOnes 32 := by
  have hlow : ~~~low v = low (~~~v) := (BitVec.setWidth_not (by norm_num)).symm
  have hv := v.isLt
  rw [hlow, eq_extend_low_iff, ← BitVec.toNat_inj, high_toNat, BitVec.toNat_allOnes,
    BitVec.toNat_not]
  omega

theorem notForm_narrows (h : notForm c ip p g = some form) : CaseNarrows c ip p g form := by
  simp only [notForm] at h
  split_ifs at h with hform
  obtain ⟨rfl, hmod, hext⟩ := hform
  cases h
  have he : execCase .groupF7 ip p g = .ok (g.withCtx ((g.ctx.advance (p.off + 1)).setGpr
      (rmField (ip p.off) p) (~~~ g.ctx.gpr (rmField (ip p.off) p)))).brk := by
    unfold execCase execGroupF7
    dsimp only
    rw [if_pos hmod, hext]
    rfl
  refine ⟨_, he, (storesOnly_setGpr (p.off + 1) []).shows_iff.trans (not_eq_extend_iff _)⟩

/-- The cases that look at REX.W. -/
def readsRexW (c : OpCase) : Bool := c ∈ [.movImm, .testRaxImm, .movStore, .movLoad, .movImmC7]

/-- The other cases do the same with REX.W and without. -/
theorem execCase_wide (hc : readsRexW c = false) : execCase c ip p.wide g = execCase c ip p g := by
  cases c with
  | movImm | testRaxImm | movStore | movLoad | movImmC7 => cases hc
  | nop | lahf | sahf | push | pop | xchg | group83 | group81 | add | or | and | sub | xor | test
  | jmpRel8 | jmpRel32 | jccRel8 | callRel32 | ret | retImm16 | int | twoByte | hlt | cmpRM | cmpMR
  | lea | shift | groupFF | groupF7 | imulImm | default => rfl

/-- So do the cases of a selection that has none of these. -/
theorem execCase_wide_of_select {α : Type} {x : α} (select : OpCase → Option α)
    (hno : ∀ c ∈ [OpCase.movImm, .testRaxImm, .movStore, .movLoad, .movImmC7], select c = none)
    (h : select c = some x) : execCase c ip p.wide g = execCase c ip p g := by
  apply execCase_wide
  rw [readsRexW, decide_eq_false_iff_not]
  intro hc
  rw [hno c hc] at h
  cases h

theorem cmovForm_narrows (h : cmovForm c ip p g = some form) : CaseNarrows c ip p g form := by
  obtain ⟨⟨cc, dst, rm⟩, hsel, rfl⟩ := Option.map_eq_some_iff.mp h
  obtain ⟨hcc, ctx, he, hflags, hgpr⟩ := execCase_cmov hsel
  rw [execCase_wide_of_select (cmovOf · ip p.wide g) (by simp [cmovOf]) hsel] at he
  have hstores : StoresOnly dst (if cmovTaken g.ctx cc then g.ctx.gpr rm else g.ctx.gpr dst) g
      (g.withCtx ctx).brk := by
    refine ⟨rfl, hgpr.trans ?_, hflags⟩
    split_ifs
    · rfl
    · exact (Function.update_eq_self _ _).symm
  refine ⟨_, he, hstores.shows_iff.trans ?_⟩
  have hmoved (v : U64) : v = extend (low v) ↔ high v = 0 :=
    (eq_extend_low_iff v).trans (ShiftOp.high_eq_zero_iff v).symm
  rw [cmovTaken_eq g.ctx hcc, NarrowForm.Narrows]
  cases jccTaken g.ctx cc with
  | false => simpa using hmoved _
  | true =>
      by_cases hparity : cc = 0xA ∨ cc = 0xB
      · have hno : (cc != 0xA && cc != 0xB) = false := by
          rcases hparity with rfl | rfl <;> rfl
        simp [hno, hparity]
      · have hyes : (cc != 0xA && cc != 0xB) = true := by simpa [not_or] using hparity
        simpa [hyes, hparity] using hmoved _

end Moves

/-! ## Logic and sums -/

/-- The logic operations of the immediate groups. -/
def immLogic (ext : ℕ) : Option LogicOp :=
  match ext with
  | 1 => some .or
  | 4 => some .and
  | 6 => some .xor
  | _ => none

/-- The register forms of OR, AND and XOR. -/
def logicForm (c : OpCase) (ip : ℕ → Byte) (p : Prefixes) (g : Guest) : Option NarrowForm :=
  let modrm := ip p.off
  let reg := regField modrm p
  let rm := rmField modrm p
  if modOf modrm = 3 then
    match c with
    | .or => some (.logic .or reg (g.ctx.gpr rm))
    | .and => some (.logic .and reg (g.ctx.gpr rm))
    | .xor => some (.logic .xor reg (g.ctx.gpr rm))
    | .group83 => (immLogic (extOf modrm)).map fun op => .logic op rm (readS8 ip (p.off + 1))
    | .group81 => (immLogic (extOf modrm)).map fun op => .logic op rm (readS32 ip (p.off + 1))
    | _ => none
  else none

/-- The register forms of ADD and SUB. -/
def sumForm (c : OpCase) (ip : ℕ → Byte) (p : Prefixes) (g : Guest) : Option NarrowForm :=
  if modOf (ip p.off) = 3 then (sumOf c ip p.wide g).map fun ⟨op, dst, b⟩ => .sum op dst b
  else none

/-- ADD with a readable memory operand. -/
def addMemForm (c : OpCase) (ip : ℕ → Byte) (p : Prefixes) (g : Guest) : Option NarrowForm :=
  let ea := addAddress ip p g
  if c = .add ∧ modOf (ip p.off) ≠ 3 then
    (g.mem.guestReadWord 32 4 ea).map fun b =>
      .addMem (regField (ip p.off) p) b (g.mem.guestReadWord 64 8 ea)
  else none

section Arithmetic

variable {c : OpCase} {ip : ℕ → Byte} {p : Prefixes} {g : Guest} {e : CaseExit} {form : NarrowForm}
  {dst rm : RegIdx} {b : U64}

theorem storeLogic_leaves (ctx : CpuContext) (reg : RegIdx) (r : U64) :
    ∃ ctx', storeLogic ctx reg r = .ok (ctx'.setGpr reg r) ∧ Leaves ctx r false false ctx' := by
  obtain ⟨ctx', hctx, hl⟩ := updateFlagsLogic_leaves ctx r
  refine ⟨ctx', ?_, hl⟩
  rw [storeLogic, hctx]
  rfl

theorem caseNarrows_logic {op : LogicOp} (he : execCase c ip p g = .ok e)
    (h : StoresResult dst (op.on (g.ctx.gpr dst) b) false false g e) :
    CaseNarrows c ip p g (.logic op dst b) := by
  refine ⟨e, he, h.shows_iff.trans ?_⟩
  rw [op.narrows_iff]
  exact and_iff_left ⟨fun _ hb => Option.some.inj hb, fun _ hb => Option.some.inj hb⟩

/-- The immediate groups store the logic result. -/
theorem group1_logic {op : LogicOp} {ext : ℕ} (hext : immLogic ext = some op) (ctx : CpuContext)
    (rm : RegIdx) (b : U64) :
    ∃ ctx', group1 ctx rm ext b = .ok (some (ctx'.setGpr rm (op.on (ctx.gpr rm) b))) ∧
      Leaves ctx (op.on (ctx.gpr rm) b) false false ctx' := by
  obtain ⟨ctx', hctx, hl⟩ := storeLogic_leaves ctx rm (op.on (ctx.gpr rm) b)
  have hgroup : group1 ctx rm ext b = storeLogic ctx rm (op.on (ctx.gpr rm) b) >>=
      fun ctx => pure (some ctx) := by
    unfold immLogic at hext
    split at hext <;> cases hext <;> rfl
  refine ⟨ctx', ?_, hl⟩
  rw [hgroup, hctx]
  rfl

theorem execRegForm_logic (op : LogicOp) (hmod : modOf (ip p.off) = 3) :
    ∃ e, execRegForm (fun ctx reg rm => storeLogic ctx reg (op.on (ctx.gpr reg) (ctx.gpr rm)))
        ip p.off p g = .ok e ∧
      StoresResult (regField (ip p.off) p) (op.on (g.ctx.gpr (regField (ip p.off) p))
        (g.ctx.gpr (rmField (ip p.off) p))) false false g e := by
  obtain ⟨ctx, hctx, hl⟩ := storeLogic_leaves (g.ctx.advance (p.off + 1)) (regField (ip p.off) p)
    (op.on (g.ctx.gpr (regField (ip p.off) p)) (g.ctx.gpr (rmField (ip p.off) p)))
  refine ⟨_, ?_, StoresResult.of_leaves [] hl⟩
  unfold execRegForm
  dsimp only
  rw [if_pos hmod, CpuContext.advance_gpr, hctx]
  rfl

theorem logicForm_narrows (h : logicForm c ip p g = some form) : CaseNarrows c ip p g form := by
  simp only [logicForm] at h
  split_ifs at h with hmod
  cases c with
  | or =>
      cases h
      obtain ⟨e, he, hstores⟩ := execRegForm_logic .or (g := g) hmod
      exact caseNarrows_logic he hstores
  | and =>
      cases h
      obtain ⟨e, he, hstores⟩ := execRegForm_logic .and (g := g) hmod
      exact caseNarrows_logic he hstores
  | xor =>
      cases h
      obtain ⟨e, he, hstores⟩ := execRegForm_logic .xor (g := g) hmod
      exact caseNarrows_logic he hstores
  | group83 =>
      obtain ⟨op, hop, rfl⟩ := Option.map_eq_some_iff.mp h
      obtain ⟨ctx, hctx, hl⟩ := group1_logic hop (g.ctx.advance (p.off + 2))
        (rmField (ip p.off) p) (readS8 ip (p.off + 1))
      refine caseNarrows_logic ?_ (StoresResult.of_leaves [] hl)
      unfold execCase execGroup83
      dsimp only
      rw [hctx]
      rfl
  | group81 =>
      obtain ⟨op, hop, rfl⟩ := Option.map_eq_some_iff.mp h
      obtain ⟨ctx, hctx, hl⟩ := group1_logic hop (g.ctx.advance (p.off + 5))
        (rmField (ip p.off) p) (readS32 ip (p.off + 1))
      refine caseNarrows_logic ?_ (StoresResult.of_leaves [] hl)
      unfold execCase execGroup81
      dsimp only
      rw [if_pos hmod, hctx]
      rfl
  | nop | lahf | sahf | push | pop | xchg | movImm | add | sub | test | testRaxImm | movStore
  | movLoad | jmpRel8 | jmpRel32 | jccRel8 | callRel32 | ret | retImm16 | int | twoByte | hlt
  | cmpRM | cmpMR | lea | movImmC7 | shift | groupFF | groupF7 | imulImm | default => cases h

theorem caseNarrows_sum {op : SumOp} (he : execCase c ip p g = .ok e)
    (h : StoresSum op dst b g e) : CaseNarrows c ip p g (.sum op dst b) := by
  refine ⟨e, he, h.shows_iff.trans (Iff.trans ?_ (op.narrows_iff _ _))⟩
  refine and_congr_right fun _ => and_congr ?_ ?_
  · exact ⟨fun hb => hb _ rfl, fun heq _ hb => heq.trans (Option.some.inj hb)⟩
  · exact ⟨fun hb => hb _ rfl, fun heq _ hb => heq.trans (Option.some.inj hb)⟩

theorem sumForm_narrows (h : sumForm c ip p g = some form) : CaseNarrows c ip p g form := by
  simp only [sumForm] at h
  split_ifs at h with hmod
  obtain ⟨⟨op, dst, b⟩, hsum, rfl⟩ := Option.map_eq_some_iff.mp h
  obtain ⟨e, he, hstores⟩ := execCase_storesSum hsum
  rw [execCase_wide_of_select (sumOf · ip p.wide g) (by simp [sumOf]) hsum] at he
  exact caseNarrows_sum he hstores

/-- The word of 32 bits is the low half of the one of 64. -/
theorem low_of_guestReadWord {mem : GuestMemory} {ea b' : U64} {b : U32}
    (h : mem.guestReadWord 32 4 ea = some b) (h' : mem.guestReadWord 64 8 ea = some b') :
    low b' = b := by
  obtain ⟨-, rfl⟩ := guestReadWord_eq_some_iff.mp h
  obtain ⟨-, rfl⟩ := guestReadWord_eq_some_iff.mp h'
  have hsplit : ByteStore.read mem.bytes ea 8 = ByteStore.read mem.bytes ea 4 ++
      [4, 5, 6, 7].map fun i => mem.bytes (ea + BitVec.ofNat 64 i) := rfl
  have hlen : (ByteStore.read mem.bytes ea 4).length = 4 := ByteStore.length_read _ _ _
  apply BitVec.eq_of_toNat_eq
  rw [low_toNat, LittleEndian.ofBytes, LittleEndian.ofBytes, BitVec.toNat_ofNat,
    BitVec.toNat_ofNat, hsplit, LittleEndian.decode_append, hlen]
  omega

theorem addMemForm_narrows (h : addMemForm c ip p g = some form) : CaseNarrows c ip p g form := by
  simp only [addMemForm] at h
  split_ifs at h with hform
  obtain ⟨rfl, hmod⟩ := hform
  obtain ⟨b, hb, rfl⟩ := Option.map_eq_some_iff.mp h
  cases hwide : g.mem.guestReadWord 64 8 (addAddress ip p g) with
  | some b' =>
      have hsum : sumOf .add ip p.wide g = some (.add, regField (ip p.off) p, b') := by
        have hw : p.wide.rexW = true := rfl
        have hmem : ¬ modOf (ip p.wide.off) = 3 := hmod
        have hread : g.mem.guestReadWord 64 8 (addAddress ip p.wide g) = some b' := hwide
        simp only [sumOf]
        rw [if_pos hw, if_neg hmem, hread]
        rfl
      obtain ⟨e, he, hstores⟩ := execAdd_storesSum hsum
      obtain ⟨e', he', hiff⟩ := caseNarrows_sum (c := .add) he hstores
      refine ⟨e', he', ?_⟩
      rw [← low_of_guestReadWord hb hwide]
      refine hiff.trans ⟨fun hin => ⟨b', rfl, hin⟩, ?_⟩
      rintro ⟨b'', heq, hin⟩
      rw [Option.some.inj heq]
      exact hin
  | none =>
      have he := execAdd_mem_fault ip p g hmod (guestReadWord_eq_none_iff.mp hwide)
      refine ⟨_, he, iff_of_false (fun hok => ?_) fun hwide => ?_⟩
      · cases hok.1
      · obtain ⟨b', heq, -⟩ := hwide
        cases heq

end Arithmetic

/-! ## INC, DEC, NEG, shifts and products -/

/-- The register forms of INC, DEC and NEG. -/
def unaryForm (c : OpCase) (ip : ℕ → Byte) (p : Prefixes) (g : Guest) : Option NarrowForm :=
  (unaryOf c ip p.wide g).map fun ⟨u, rm⟩ => .unary u rm

/-- The register forms of the shifts. -/
def shiftForm (c : OpCase) (ip : ℕ → Byte) (p : Prefixes) (g : Guest) : Option NarrowForm :=
  (shiftOf c ip p.wide g).map fun ⟨op, rm, n⟩ => .shift op rm n

/-- The register forms of MUL and IMUL. -/
def mulForm (c : OpCase) (ip : ℕ → Byte) (p : Prefixes) (g : Guest) : Option NarrowForm :=
  (mulOf c ip p.wide g).map .mul

section Remaining

variable {c : OpCase} {ip : ℕ → Byte} {p : Prefixes} {g : Guest} {e : CaseExit} {form : NarrowForm}
  {dst rm : RegIdx}

theorem StoresUnary.shows_iff {u : UnaryOp} (h : StoresUnary u rm g e) :
    e.result = .Ok ∧ ((NarrowForm.unary u rm).effect g.ctx).Shows e.guest.ctx ↔
      (NarrowForm.unary u rm).Narrows g.ctx := by
  have hnarrows := u.narrows_iff (g.ctx.gpr rm)
  rw [and_iff_right h.result_eq]
  constructor
  · intro hshows
    have hval : u.value (g.ctx.gpr rm) = extend (u.low32 (g.ctx.gpr rm)) :=
      update_eq_iff.mp (h.gpr_eq.symm.trans hshows.gpr_eq)
    have hsign := h.sf_eq.symm.trans (hshows.sf_eq _ rfl)
    rw [hval, msb_extend] at hsign
    have hin := hnarrows.mp ⟨hval, hsign.symm⟩
    have hpf := h.pf_eq.symm.trans (hshows.pf_eq _ rfl)
    refine ⟨hin, ?_, fun hne => ?_⟩
    · rw [hpf, ← hval, decide_eq_true_eq]
    · have hof := h.of_eq.symm.trans (hshows.of_eq _ rfl)
      rw [if_neg hne, UnaryOp.overflow32_of_narrows hin] at hof
      rw [hof, decide_eq_true_eq]
  · rintro ⟨hin, hpf, hof⟩
    obtain ⟨hval, hmsb⟩ := hnarrows.mpr hin
    refine ⟨h.gpr_eq.trans (congrArg _ hval), ?_, ?_, ?_, ?_, ?_⟩
    · rintro b hb
      rw [h.cf_eq, ← Option.some.inj hb]
      split_ifs with hu
      · subst hu
        exact UnaryOp.neg_bne_zero hin
      · rfl
    · rintro b hb
      rw [h.pf_eq, ← Option.some.inj hb, ← hval, Bool.eq_iff_iff, decide_eq_true_eq]
      exact hpf
    · rintro b hb
      rw [h.zf_eq, ← Option.some.inj hb, hval, extend_beq_zero]
    · rintro b hb
      rw [h.sf_eq, ← Option.some.inj hb, hval, msb_extend, hmsb]
    · rintro b hb
      rw [h.of_eq, ← Option.some.inj hb, UnaryOp.overflow32_of_narrows hin]
      split_ifs with hu
      · subst hu
        exact UnaryOp.inc_beq_max hin
      · rw [Bool.eq_iff_iff, decide_eq_true_eq]
        exact hof hu

theorem unaryForm_narrows (h : unaryForm c ip p g = some form) : CaseNarrows c ip p g form := by
  obtain ⟨⟨u, rm⟩, hunary, rfl⟩ := Option.map_eq_some_iff.mp h
  obtain ⟨e, he, hstores⟩ := execCase_storesUnary hunary
  rw [execCase_wide_of_select (unaryOf · ip p.wide g) (by simp [unaryOf]) hunary] at he
  exact ⟨e, he, hstores.shows_iff⟩

/-- A case that sets the flags of its value where none should change narrows exactly if the flags
already are those. -/
theorem StoresResult.shows_keeping_iff {v : U64} {r : U32} {cf ovf : Bool}
    (h : StoresResult dst v cf ovf g e) :
    e.result = .Ok ∧
      (Effect.keeping g.ctx (Function.update g.ctx.gpr dst (extend r))).Shows e.guest.ctx ↔
    v = extend r ∧ g.ctx.flag Flags.CF = cf ∧ g.ctx.flag Flags.OF = ovf ∧
      DescribesResult (extend r) g.ctx := by
  have hdesc := h.describes
  rw [and_iff_right h.result_eq]
  constructor
  · intro hshows
    have hv : v = extend r := update_eq_iff.mp (h.gpr_eq.symm.trans hshows.gpr_eq)
    rw [hv] at hdesc
    refine ⟨hv, (hshows.cf_eq _ rfl).symm.trans h.cf_eq, (hshows.of_eq _ rfl).symm.trans h.of_eq,
      ?_, ?_, ?_⟩
    · rw [← hshows.zf_eq _ rfl]
      exact hdesc.zero
    · rw [← hshows.sf_eq _ rfl]
      exact hdesc.sign
    · rw [← hshows.pf_eq _ rfl]
      exact hdesc.parity
  · rintro ⟨rfl, hcf, hovf, hheld⟩
    refine ⟨h.gpr_eq, ?_, ?_, ?_, ?_, ?_⟩ <;>
      rintro b hb <;> rw [← Option.some.inj hb]
    · rw [h.cf_eq, hcf]
    · rw [Bool.eq_iff_iff]
      exact hdesc.parity.trans hheld.parity.symm
    · rw [Bool.eq_iff_iff]
      exact hdesc.zero.trans hheld.zero.symm
    · rw [Bool.eq_iff_iff]
      exact hdesc.sign.trans hheld.sign.symm
    · rw [h.of_eq, hovf]

theorem shiftForm_narrows (h : shiftForm c ip p g = some form) : CaseNarrows c ip p g form := by
  obtain ⟨⟨op, rm, n⟩, hshift, rfl⟩ := Option.map_eq_some_iff.mp h
  obtain ⟨rfl, -, -, hcount, -⟩ := shiftOf_eq_some hshift
  have hn : n < 64 := hcount ▸ shiftCount_lt g.ctx
  obtain ⟨e, he, hstores⟩ := execCase_storesShift hshift
  rw [execCase_wide rfl] at he
  refine ⟨e, he, ?_⟩
  rw [NarrowForm.Narrows, ← op.narrows_iff (g.ctx.gpr rm) hn, NarrowForm.effect]
  by_cases hzero : n % 32 = 0
  · rw [if_pos hzero, if_pos hzero, hstores.shows_keeping_iff, hzero, op.on_zero,
      and_iff_left fun h => absurd rfl h]
  · rw [if_neg hzero, if_neg hzero, hstores.shows_iff]
    refine and_congr ⟨fun h => ⟨h.1, fun _ => h.2⟩, fun h => ⟨h.1, h.2 hzero⟩⟩ (and_congr ?_ ?_)
    · exact ⟨fun h => (h _ rfl).symm, fun h b hb => h.symm.trans (Option.some.inj hb)⟩
    · split_ifs with hone
      · exact ⟨fun h _ => (h _ rfl).symm, fun h b hb => (h hone).symm.trans (Option.some.inj hb)⟩
      · exact ⟨fun _ h => absurd h hone, fun _ b hb => by cases hb⟩

theorem mulForm_narrows (h : mulForm c ip p g = some form) : CaseNarrows c ip p g form := by
  obtain ⟨form, hmul, rfl⟩ := Option.map_eq_some_iff.mp h
  obtain ⟨e, he, hres, hexact⟩ := execCase_mul hmul
  rw [execCase_wide_of_select (mulOf · ip p.wide g) (by simp [mulOf]) hmul] at he
  obtain ⟨hi, lo, hval, hgpr⟩ := hexact.value
  refine ⟨e, he, ?_⟩
  rw [and_iff_right hres, NarrowForm.Narrows, MulForm.Narrows, ← and_assoc,
    ← MulForm.store_eq_iff hval, ← hgpr]
  have hover (flag : Bool) (hflag : flag = true ↔ ¬ form.Fits (form.product g.ctx)) :
      flag = decide (¬ form.Fits32 (form.product32 g.ctx)) ↔
        (form.Fits (form.product g.ctx) ↔ form.Fits32 (form.product32 g.ctx)) := by
    rw [Bool.eq_iff_iff, hflag, decide_eq_true_eq, not_iff_not]
  constructor
  · intro hshows
    exact ⟨hshows.gpr_eq, (hover _ hexact.carry).mp (hshows.cf_eq _ rfl)⟩
  · rintro ⟨hstore, hfits⟩
    refine ⟨hstore, ?_, ?_, ?_, ?_, ?_⟩ <;> rintro b hb
    · exact ((hover _ hexact.carry).mpr hfits).trans (Option.some.inj hb)
    · cases hb
    · cases hb
    · cases hb
    · exact ((hover _ hexact.overflow).mpr hfits).trans (Option.some.inj hb)

end Remaining

/-! ## Steps -/

/-- The selections of instructions that write a register. -/
def narrowForms : List (OpCase → (ℕ → Byte) → Prefixes → Guest → Option NarrowForm) :=
  [moveForm, widenForm, notForm, cmovForm, logicForm, sumForm, addMemForm, unaryForm, shiftForm,
    mulForm]

/-- The instructions that write a register, without REX.W and without 0x66. -/
def narrowOf (c : OpCase) (ip : ℕ → Byte) (p : Prefixes) (g : Guest) : Option NarrowForm :=
  if p.rexW ∨ p.prefix66 then none else narrowForms.findSome? fun select => select c ip p g

theorem narrowOf_narrows {c : OpCase} {ip : ℕ → Byte} {p : Prefixes} {g : Guest}
    {form : NarrowForm} (h : narrowOf c ip p g = some form) : CaseNarrows c ip p g form := by
  unfold narrowOf at h
  split_ifs at h with hsize
  have hw : p.rexW = false := by simpa using (not_or.mp hsize).1
  obtain ⟨select, hmem, hsel⟩ := List.exists_of_findSome?_eq_some h
  simp only [narrowForms, List.mem_cons, List.not_mem_nil, or_false] at hmem
  rcases hmem with rfl | rfl | rfl | rfl | rfl | rfl | rfl | rfl | rfl | rfl
  · exact moveForm_narrows hw hsel
  · exact widenForm_narrows hsel
  · exact notForm_narrows hsel
  · exact cmovForm_narrows hsel
  · exact logicForm_narrows hsel
  · exact sumForm_narrows hsel
  · exact addMemForm_narrows hsel
  · exact unaryForm_narrows hsel
  · exact shiftForm_narrows hsel
  · exact mulForm_narrows hsel

/-- A step from `m` over an instruction that writes a register, without REX.W and without 0x66, has
the effect of the 32-bit operation. -/
def OperandSizeHonoured : Machine → Prop :=
  StepsMeet narrowOf fun form ctx ctx' => (form.effect ctx).Shows ctx'

/-- The step from `m` is over such an instruction with operands that do not narrow. -/
def HighHalvesMatter : Machine → Prop :=
  StepIsOver narrowOf fun form ctx => ¬ form.Narrows ctx

/-- **Operand size, exactly.**  A step without REX.W and without 0x66 has the effect of the 32-bit
operation if and only if its operands narrow. -/
theorem operandSizeHonoured_iff (m : Machine) : OperandSizeHonoured m ↔ ¬ HighHalvesMatter m := by
  apply stepsMeet_iff_of_exit
  intro c ip p g form hsel
  obtain ⟨e, he, hiff⟩ := narrowOf_narrows hsel
  exact ⟨e, he, hiff.trans not_not.symm⟩

/-- MOV EAX, ECX with all bits set in RCX. -/
def movHigh : Machine where
  cpu := { ctx := { gpr := Function.update (fun _ => 0) Reg.RCX (-1), rip := 0x1000 } }
  mem :=
    { bytes := ByteStore.write (fun _ => 0x90) 0x1000 [0x8B, 0xC1]
      readable := fun _ _ => true
      writable := fun _ _ => true }

/-- The step over `movHigh` fills the high half of RAX. -/
theorem not_operandSizeHonoured_movHigh : ¬ ∀ m, OperandSizeHonoured m := by
  intro h
  have hdec : Decodes movHigh (codeBuf movHigh.mem 0x1000 32) { off := 1, opcode := 0x8B } :=
    ⟨by decide, rfl, rfl, rfl⟩
  obtain ⟨out, hout, -, hshows⟩ := h movHigh _ _ (.move Reg.RAX (-1)) hdec (by decide)
  have hrax : out.machine.cpu.ctx.gpr Reg.RAX = -1 :=
    eq_of_toOption_map (fun out => out.machine.cpu.ctx.gpr Reg.RAX) hout (by decide)
  rw [hshows.gpr_eq] at hrax
  exact absurd hrax (by decide)

end Cpu
