/-
# Effects of the opcode switch

The cases that are not straight (jumps, the two-byte opcodes, the 0xFF and 0xF7 groups, the
stack and memory forms), and what holds over the whole switch:

* `execCase_registerOnly`: only the forms of `TouchesMemory` access guest memory or the
  tracked call stack, and outside them only a zero divisor faults;
* `execCase_ok` and `execCase_of_idivOverflows`: `IdivOverflows` is the only way a case has
  no defined result.
-/
import ChuckStation.CpuSpecs

namespace Cpu

open Guest GuestMemory

/-! ## Forms of the switch -/

/-- The forms that access guest data memory. -/
def TouchesMemory (c : OpCase) (ip : ℕ → Byte) (p : Prefixes) : Prop :=
  match c with
  | .push | .pop | .callRel32 | .ret | .retImm16 => True
  | .add | .movStore | .movLoad => modOf (ip p.off) ≠ 3
  | .groupFF => modOf (ip p.off) = 3 ∧ extOf (ip p.off) = 2
  | _ => False

/-- DIV or IDIV with a zero divisor. -/
def DividesByZero (c : OpCase) (ip : ℕ → Byte) (p : Prefixes) (g : Guest) : Prop :=
  c = .groupF7 ∧ modOf (ip p.off) = 3 ∧ (extOf (ip p.off) = 6 ∨ extOf (ip p.off) = 7) ∧
    g.ctx.gpr (rmField (ip p.off) p) = 0

/-- IDIV of `INT64_MIN` by -1. -/
def IdivOverflows (c : OpCase) (ip : ℕ → Byte) (p : Prefixes) (g : Guest) : Prop :=
  c = .groupF7 ∧ modOf (ip p.off) = 3 ∧ extOf (ip p.off) = 7 ∧
    g.ctx.gpr Reg.RAX = int64Min ∧ g.ctx.gpr (rmField (ip p.off) p) = -1

section Cases

variable (ip : ℕ → Byte) (p : Prefixes) (g : Guest)

/-! ## Jumps -/

theorem jumpIf_registerOnly (taken : Bool) (off : ℕ) (rel : U64) :
    RegisterOnly g (jumpIf taken off rel g) := registerOnly_brk _ _

theorem execInt_registerOnly : RegisterOnly g (execInt ip p g) := by
  unfold execInt
  dsimp only
  split_ifs
  · exact ⟨by simp, rfl, rfl, rfl⟩
  · exact ⟨by simp, rfl, rfl, rfl⟩
  · exact ⟨by simp, rfl, rfl, rfl⟩

theorem execTwoByte_registerOnly : ∃ e, execTwoByte ip p g = .ok e ∧ RegisterOnly g e := by
  have hstraight : ∀ {r : Except HostUndefined CaseExit},
      (∃ e, r = .ok e ∧ Straight g (p.off + 1 + 1) e) → ∃ e, r = .ok e ∧ RegisterOnly g e :=
    fun ⟨e, he, hs⟩ => ⟨e, he, hs.toRegisterOnly⟩
  unfold execTwoByte
  dsimp only
  split_ifs
  · exact ⟨_, rfl, by simp, rfl, rfl, rfl⟩
  · exact ⟨_, rfl, jumpIf_registerOnly g _ _ _⟩
  · exact hstraight (execCmov_straight ip _ p g _)
  · exact hstraight (execMovzx_straight ip _ p g _)
  · exact hstraight (execMovsx_straight ip _ p g _)
  · exact hstraight (execImul_straight ip _ p g)
  · exact ⟨_, rfl, by simp [Guest.unimplemented], rfl, rfl, rfl⟩

/-! ## The 0xFF group -/

/-- The forms of 0xFF that are not a jump or a call, memory forms included. -/
theorem execGroupFF_straight (h : modOf (ip p.off) = 3 → extOf (ip p.off) ≠ 2)
    (h' : modOf (ip p.off) = 3 → extOf (ip p.off) ≠ 4) :
    Straight g (p.off + 1) (execGroupFF ip p g) := by
  unfold execGroupFF
  dsimp only
  split_ifs with hmod
  · split
    · exact straight_brk rfl
    · exact straight_brk rfl
    · exact absurd ‹extOf (ip p.off) = 2› (h hmod)
    · exact absurd ‹extOf (ip p.off) = 4› (h' hmod)
    · exact straight_brk rfl
  · exact straight_brk rfl

theorem execGroupFF_jump (hmod : modOf (ip p.off) = 3) (h : extOf (ip p.off) = 4) :
    execGroupFF ip p g = (g.withCtx ((g.ctx.advance (p.off + 1)).setRip
      (g.ctx.gpr (rmField (ip p.off) p)))).brk := by
  unfold execGroupFF
  dsimp only
  rw [if_pos hmod, h]
  rfl

theorem execGroupFF_call (hmod : modOf (ip p.off) = 3) (h : extOf (ip p.off) = 2) :
    execGroupFF ip p g =
      callTo (g.ctx.advance (p.off + 1)) (g.ctx.gpr (rmField (ip p.off) p)) 0 g := by
  unfold execGroupFF
  dsimp only
  rw [if_pos hmod, h]
  rfl

/-! ## The 0xF7 group -/

/-- The divisions of 0xF7. -/
def isDivision (modrm : Byte) : Prop := modOf modrm = 3 ∧ (extOf modrm = 6 ∨ extOf modrm = 7)

/-- The forms of 0xF7 that do not divide, memory forms included. -/
theorem execGroupF7_straight (h : ¬ isDivision (ip p.off)) :
    ∃ e, execGroupF7 ip p g = .ok e ∧ Straight g (p.off + 1) e := by
  unfold execGroupF7
  dsimp only
  by_cases hmod : modOf (ip p.off) = 3
  · rw [if_pos hmod]
    split
    · exact ⟨_, rfl, straight_brk rfl⟩
    · exact ⟨_, rfl, straight_brk rfl⟩
    · exact ⟨_, rfl, straight_brk rfl⟩
    · exact ⟨_, rfl, straight_brk rfl⟩
    · exact absurd ⟨hmod, Or.inl ‹_›⟩ h
    · exact absurd ⟨hmod, Or.inr ‹_›⟩ h
    · exact ⟨_, rfl, straight_brk rfl⟩
  · rw [if_neg hmod]
    exact ⟨_, rfl, straight_brk rfl⟩

theorem execGroupF7_zero (h : isDivision (ip p.off))
    (hz : g.ctx.gpr (rmField (ip p.off) p) = 0) :
    execGroupF7 ip p g = .ok (g.withCtx (g.ctx.advance (p.off + 1))).fault := by
  obtain ⟨hmod, hext⟩ := h
  have hv : (g.ctx.advance (p.off + 1)).gpr (rmField (ip p.off) p) = 0 := hz
  unfold execGroupF7
  dsimp only
  rcases hext with hext | hext
  · rw [if_pos hmod, hext]
    exact if_pos hv
  · rw [if_pos hmod, hext]
    exact if_pos hv

theorem execGroupF7_div (h : isDivision (ip p.off))
    (hz : g.ctx.gpr (rmField (ip p.off) p) ≠ 0)
    (hovf : ¬ (extOf (ip p.off) = 7 ∧ g.ctx.gpr Reg.RAX = int64Min ∧
      g.ctx.gpr (rmField (ip p.off) p) = -1)) :
    ∃ e, execGroupF7 ip p g = .ok e ∧ Straight g (p.off + 1) e := by
  obtain ⟨hmod, hext⟩ := h
  have hv : ¬ (g.ctx.advance (p.off + 1)).gpr (rmField (ip p.off) p) = 0 := hz
  unfold execGroupF7
  dsimp only
  rcases hext with hext | hext
  · rw [if_pos hmod, hext]
    simp only [if_neg hv, hostDivModU, ok_bind]
    exact ⟨_, rfl, straight_brk rfl⟩
  · have hov : ¬ ((g.ctx.advance (p.off + 1)).gpr Reg.RAX = int64Min ∧
        (g.ctx.advance (p.off + 1)).gpr (rmField (ip p.off) p) = -1) :=
      fun h => hovf ⟨hext, h⟩
    rw [if_pos hmod, hext]
    simp only [if_neg hv, hostDivModS, if_neg hov, ok_bind]
    exact ⟨_, rfl, straight_brk rfl⟩

theorem execGroupF7_overflow (hmod : modOf (ip p.off) = 3) (hext : extOf (ip p.off) = 7)
    (hrax : g.ctx.gpr Reg.RAX = int64Min) (hrm : g.ctx.gpr (rmField (ip p.off) p) = -1) :
    execGroupF7 ip p g = .error .quotientOverflow := by
  have hv : ¬ (g.ctx.advance (p.off + 1)).gpr (rmField (ip p.off) p) = 0 := by
    rw [CpuContext.advance_gpr, hrm]
    decide
  have hov : (g.ctx.advance (p.off + 1)).gpr Reg.RAX = int64Min ∧
      (g.ctx.advance (p.off + 1)).gpr (rmField (ip p.off) p) = -1 := ⟨hrax, hrm⟩
  unfold execGroupF7
  dsimp only
  rw [if_pos hmod, hext]
  simp only [if_neg hv, hostDivModS, if_pos hov]
  rfl

/-! ## Stack and memory forms -/

theorem execAdd_reg_straight (hmod : modOf (ip p.off) = 3) :
    ∃ e, execAdd ip p g = .ok e ∧ Straight g (p.off + 1) e := by
  obtain ⟨ctx, hctx, hrip⟩ := storeAdd_ok (g.ctx.advance (p.off + 1)) (regField (ip p.off) p)
    ((g.ctx.advance (p.off + 1)).gpr (regField (ip p.off) p))
    ((g.ctx.advance (p.off + 1)).gpr (rmField (ip p.off) p))
  unfold execAdd
  dsimp only
  rw [if_pos hmod, hctx]
  exact ⟨_, rfl, straight_brk hrip⟩

theorem execMovStore_reg_straight (hmod : modOf (ip p.off) = 3) :
    Straight g (p.off + 1) (execMovStore ip p g) := by
  unfold execMovStore
  dsimp only
  rw [if_pos hmod]
  exact straight_brk rfl

theorem execMovLoad_reg_straight (hmod : modOf (ip p.off) = 3) :
    Straight g (p.off + 1) (execMovLoad ip p g) := by
  unfold execMovLoad
  dsimp only
  rw [if_pos hmod]
  exact straight_brk rfl

theorem execAdd_mem_fault (hmod : modOf (ip p.off) ≠ 3)
    (hr : g.mem.readable (addAddress ip p g) 8 = false) :
    execAdd ip p g = .ok (g.withCtx (addDecoded ip p g)).fault := by
  unfold execAdd execAddMem
  dsimp only
  rw [if_neg hmod, guestReadWord_eq_none_iff.mpr hr]

theorem execAdd_mem_ok (hmod : modOf (ip p.off) ≠ 3)
    (hr : g.mem.readable (addAddress ip p g) 8 = true) :
    ∃ ctx, execAdd ip p g = .ok ((g.withCtx ctx).brk [⟨.load, addAddress ip p g, 8⟩]) ∧
      ctx.rip = (addDecoded ip p g).rip := by
  obtain ⟨b, hread⟩ : ∃ b, g.mem.guestReadWord 64 8 (addAddress ip p g) = some b :=
    ⟨_, guestReadWord_eq_some_iff.mpr ⟨hr, rfl⟩⟩
  obtain ⟨ctx, hctx, hrip⟩ := storeAdd_ok (addDecoded ip p g) (regField (ip p.off) p)
    ((addDecoded ip p g).gpr (regField (ip p.off) p)) b
  refine ⟨ctx, ?_, hrip⟩
  unfold execAdd execAddMem
  dsimp only
  rw [if_neg hmod, hread]
  simp only [hctx, ok_bind]
  rfl

/-- The width of the memory forms of MOV. -/
def movWidth (p : Prefixes) : ℕ := if p.rexW then 8 else 4

theorem execMovStore_mem_fault (hmod : modOf (ip p.off) ≠ 3)
    (hw : g.mem.writable (movAddress ip p g) (movWidth p) = false) :
    execMovStore ip p g = (g.withCtx (movDecoded ip p g)).fault := by
  unfold execMovStore execMovStoreMem
  unfold movWidth at hw
  dsimp only
  rw [if_neg hmod]
  split_ifs at hw ⊢
  · rw [guestWriteWord_eq_none_iff.mpr hw]
  · rw [guestWriteWord_eq_none_iff.mpr hw]

theorem execMovStore_mem_ok (hmod : modOf (ip p.off) ≠ 3)
    (hw : g.mem.writable (movAddress ip p g) (movWidth p) = true) :
    ∃ mem, execMovStore ip p g = { g with ctx := movDecoded ip p g, mem := mem }.brk
      [⟨.store, movAddress ip p g, movWidth p⟩] := by
  unfold execMovStore execMovStoreMem
  unfold movWidth at hw ⊢
  dsimp only
  rw [if_neg hmod]
  split_ifs at hw ⊢
  · rw [guestWriteWord_eq_some_iff.mpr ⟨hw, rfl⟩]
    exact ⟨_, rfl⟩
  · rw [guestWriteWord_eq_some_iff.mpr ⟨hw, rfl⟩]
    exact ⟨_, rfl⟩

theorem execMovLoad_mem_fault (hmod : modOf (ip p.off) ≠ 3)
    (hr : g.mem.readable (movAddress ip p g) (movWidth p) = false) :
    execMovLoad ip p g = (g.withCtx (movDecoded ip p g)).fault := by
  unfold execMovLoad execMovLoadMem
  unfold movWidth at hr
  dsimp only
  rw [if_neg hmod]
  split_ifs at hr ⊢
  · rw [guestReadWord_eq_none_iff.mpr hr]
  · rw [guestReadWord_eq_none_iff.mpr hr]

theorem execMovLoad_mem_ok (hmod : modOf (ip p.off) ≠ 3)
    (hr : g.mem.readable (movAddress ip p g) (movWidth p) = true) :
    ∃ ctx, execMovLoad ip p g = (g.withCtx ctx).brk [⟨.load, movAddress ip p g, movWidth p⟩] ∧
      ctx.rip = (movDecoded ip p g).rip := by
  unfold execMovLoad execMovLoadMem
  unfold movWidth at hr ⊢
  dsimp only
  rw [if_neg hmod]
  split_ifs at hr ⊢
  · rw [guestReadWord_eq_some_iff.mpr ⟨hr, rfl⟩]
    exact ⟨_, rfl, rfl⟩
  · rw [guestReadWord_eq_some_iff.mpr ⟨hr, rfl⟩]
    exact ⟨_, rfl, rfl⟩

theorem callTo_fault {ctx : CpuContext} {target frameBase : U64}
    (hw : g.mem.writable (ctx.gpr Reg.RSP - 8) 8 = false) :
    callTo ctx target frameBase g = (g.withCtx ctx).fault := by
  unfold callTo
  dsimp only
  rw [guestWriteWord_eq_none_iff.mpr hw]

/-- The guest after a call that could push: the word below `RSP` is the return address,
and so is the new top frame. -/
theorem callTo_ok (ctx : CpuContext) {target frameBase : U64}
    (hw : g.mem.writable (ctx.gpr Reg.RSP - 8) 8 = true) :
    callTo ctx target frameBase g =
      { ctx := (ctx.setGpr Reg.RSP (ctx.gpr Reg.RSP - 8)).setRip target
        callStack := { returnAddr := ctx.rip, frameBase := frameBase } :: g.callStack
        mem := { g.mem with
          bytes := ByteStore.write g.mem.bytes (ctx.gpr Reg.RSP - 8)
            (LittleEndian.toBytes 8 ctx.rip) } : Guest }.brk
        [⟨.store, ctx.gpr Reg.RSP - 8, 8⟩] := by
  unfold callTo
  dsimp only
  rw [guestWriteWord_eq_some_iff.mpr ⟨hw, rfl⟩]

theorem returnWith_fault {extra : U64} (hr : g.mem.readable (g.ctx.gpr Reg.RSP) 8 = false) :
    returnWith extra g = g.fault := by
  unfold returnWith
  dsimp only
  rw [guestReadWord_eq_none_iff.mpr hr]

theorem returnWith_ok {extra : U64} (hr : g.mem.readable (g.ctx.gpr Reg.RSP) 8 = true) :
    returnWith extra g =
      { ctx := (g.ctx.setGpr Reg.RSP (g.ctx.gpr Reg.RSP + (8 + extra))).setRip
          (g.mem.word64 (g.ctx.gpr Reg.RSP))
        callStack := g.callStack.tail, mem := g.mem : Guest }.brk
        [⟨.load, g.ctx.gpr Reg.RSP, 8⟩] := by
  unfold returnWith
  dsimp only
  rw [guestReadWord_eq_some_iff.mpr ⟨hr, rfl⟩]
  rfl

theorem execPush_fault (hw : g.mem.writable (g.ctx.gpr Reg.RSP - 8) 8 = false) :
    execPush p g = g.fault := by
  unfold execPush
  dsimp only
  rw [guestWriteWord_eq_none_iff.mpr hw]

/-- The guest after a push: the word below `RSP` is the register's value. -/
theorem execPush_eq (hw : g.mem.writable (g.ctx.gpr Reg.RSP - 8) 8 = true) :
    execPush p g =
      { g with
        ctx := (g.ctx.setGpr Reg.RSP (g.ctx.gpr Reg.RSP - 8)).advance p.off
        mem := { g.mem with
          bytes := ByteStore.write g.mem.bytes (g.ctx.gpr Reg.RSP - 8)
            (LittleEndian.toBytes 8 (g.ctx.gpr (regOf p.opcode p.rexB))) } }.brk
        [⟨.store, g.ctx.gpr Reg.RSP - 8, 8⟩] := by
  unfold execPush
  dsimp only
  rw [guestWriteWord_eq_some_iff.mpr ⟨hw, rfl⟩]

theorem execPush_ok (hw : g.mem.writable (g.ctx.gpr Reg.RSP - 8) 8 = true) :
    ∃ mem, execPush p g =
      { g with
        ctx := (g.ctx.setGpr Reg.RSP (g.ctx.gpr Reg.RSP - 8)).advance p.off, mem := mem }.brk
        [⟨.store, g.ctx.gpr Reg.RSP - 8, 8⟩] :=
  ⟨_, execPush_eq p g hw⟩

theorem execPop_fault (hr : g.mem.readable (g.ctx.gpr Reg.RSP) 8 = false) :
    execPop p g = g.fault := by
  unfold execPop
  dsimp only
  rw [guestReadWord_eq_none_iff.mpr hr]

/-- The guest after a pop: `RSP` moves on from whatever the register now holds. -/
theorem execPop_eq (hr : g.mem.readable (g.ctx.gpr Reg.RSP) 8 = true) :
    execPop p g =
      (g.withCtx (((g.ctx.setGpr (regOf p.opcode p.rexB)
        (g.mem.word64 (g.ctx.gpr Reg.RSP))).setGpr Reg.RSP
          (Function.update g.ctx.gpr (regOf p.opcode p.rexB)
            (g.mem.word64 (g.ctx.gpr Reg.RSP)) Reg.RSP + 8)).advance p.off)).brk
        [⟨.load, g.ctx.gpr Reg.RSP, 8⟩] := by
  unfold execPop
  dsimp only
  rw [guestReadWord_eq_some_iff.mpr ⟨hr, rfl⟩]
  rfl

theorem execPop_ok (hr : g.mem.readable (g.ctx.gpr Reg.RSP) 8 = true) :
    ∃ ctx, execPop p g = (g.withCtx ctx).brk [⟨.load, g.ctx.gpr Reg.RSP, 8⟩] ∧
      ctx.rip = g.ctx.rip + BitVec.ofNat 64 p.off :=
  ⟨_, execPop_eq p g hr, rfl⟩

end Cases

/-! ## The whole switch -/

section Switch

variable {ip : ℕ → Byte} {p : Prefixes} {g : Guest} {c : OpCase} {e : CaseExit}

theorem registerOnly_of_straight {r : Except HostUndefined CaseExit} {n : ℕ}
    (h : ∃ e', r = .ok e' ∧ Straight g n e') (he : r = .ok e) : RegisterOnly g e := by
  obtain ⟨e', rfl, hs⟩ := h
  cases he
  exact hs.toRegisterOnly

theorem registerOnly_of_ok {r : Except HostUndefined CaseExit} {e' : CaseExit}
    (h : RegisterOnly g e') (hr : r = .ok e') (he : r = .ok e) : RegisterOnly g e := by
  rw [hr] at he
  cases he
  exact h

/-- Outside the stack and memory forms and the zero divisions, a case touches registers
and flags only and does not fault. -/
theorem execCase_registerOnly (ht : ¬ TouchesMemory c ip p) (hz : ¬ DividesByZero c ip p g)
    (he : execCase c ip p g = .ok e) : RegisterOnly g e := by
  cases c with
  | push => exact absurd trivial ht
  | pop => exact absurd trivial ht
  | callRel32 => exact absurd trivial ht
  | ret => exact absurd trivial ht
  | retImm16 => exact absurd trivial ht
  | nop => exact registerOnly_of_ok (execNop_straight p g).toRegisterOnly rfl he
  | lahf => exact registerOnly_of_ok (execLahf_straight p g).toRegisterOnly rfl he
  | sahf => exact registerOnly_of_ok (execSahf_straight p g).toRegisterOnly rfl he
  | xchg => exact registerOnly_of_ok (execXchg_straight p g).toRegisterOnly rfl he
  | movImm => exact registerOnly_of_ok (execMovImm_straight ip p g).toRegisterOnly rfl he
  | group83 =>
      cases hext : group1Implements (extOf (ip p.off)) with
      | true => exact registerOnly_of_straight (execGroup83_straight ip p g hext) he
      | false =>
          exact registerOnly_of_ok (registerOnly_unimplemented g _)
            (execGroup83_default ip p g hext) he
  | group81 =>
      by_cases himp : modOf (ip p.off) = 3 → group1Implements (extOf (ip p.off)) = true
      · exact registerOnly_of_straight (execGroup81_straight ip p g himp) he
      · rw [Classical.not_imp, Bool.not_eq_true] at himp
        exact registerOnly_of_ok (registerOnly_unimplemented g _)
          (execGroup81_default ip p g himp.1 himp.2) he
  | add =>
      have hmod : modOf (ip p.off) = 3 := not_not.mp ht
      exact registerOnly_of_straight (execAdd_reg_straight ip p g hmod) he
  | or => exact registerOnly_of_straight (execOr_straight ip p.off p g) he
  | and => exact registerOnly_of_straight (execAnd_straight ip p.off p g) he
  | sub => exact registerOnly_of_straight (execSub_straight ip p.off p g) he
  | xor => exact registerOnly_of_straight (execXor_straight ip p.off p g) he
  | test => exact registerOnly_of_straight (execTest_straight ip p.off p g) he
  | testRaxImm => exact registerOnly_of_straight (execTestRaxImm_straight ip p g) he
  | movStore =>
      have hmod : modOf (ip p.off) = 3 := not_not.mp ht
      exact registerOnly_of_ok (execMovStore_reg_straight ip p g hmod).toRegisterOnly rfl he
  | movLoad =>
      have hmod : modOf (ip p.off) = 3 := not_not.mp ht
      exact registerOnly_of_ok (execMovLoad_reg_straight ip p g hmod).toRegisterOnly rfl he
  | jmpRel8 => exact registerOnly_of_ok (registerOnly_brk g _) rfl he
  | jmpRel32 => exact registerOnly_of_ok (registerOnly_brk g _) rfl he
  | jccRel8 => exact registerOnly_of_ok (jumpIf_registerOnly g _ _ _) rfl he
  | int => exact registerOnly_of_ok (execInt_registerOnly ip p g) rfl he
  | twoByte =>
      obtain ⟨e', he', hr⟩ := execTwoByte_registerOnly ip p g
      exact registerOnly_of_ok hr he' he
  | hlt => exact registerOnly_of_ok ⟨by simp [execHlt], rfl, rfl, rfl⟩ rfl he
  | cmpRM => exact registerOnly_of_straight (execCmpRM_straight ip p.off p g) he
  | cmpMR => exact registerOnly_of_straight (execCmpMR_straight ip p.off p g) he
  | lea => exact registerOnly_of_ok (execLea_straight ip p g).toRegisterOnly rfl he
  | movImmC7 => exact registerOnly_of_ok (execMovImmC7_straight ip p g).toRegisterOnly rfl he
  | shift =>
      by_cases himp : modOf (ip p.off) = 3 → shiftImplements (extOf (ip p.off)) = true
      · exact registerOnly_of_straight (execShift_straight ip p g himp) he
      · rw [Classical.not_imp, Bool.not_eq_true] at himp
        exact registerOnly_of_ok (registerOnly_unimplemented g _)
          (execShift_default ip p g himp.1 himp.2) he
  | groupFF =>
      have hcall : modOf (ip p.off) = 3 → extOf (ip p.off) ≠ 2 := fun hm hx => ht ⟨hm, hx⟩
      by_cases hjmp : modOf (ip p.off) = 3 ∧ extOf (ip p.off) = 4
      · exact registerOnly_of_ok (registerOnly_brk g _)
          (congrArg Except.ok (execGroupFF_jump ip p g hjmp.1 hjmp.2)) he
      · exact registerOnly_of_ok
          (execGroupFF_straight ip p g hcall fun hm hx => hjmp ⟨hm, hx⟩).toRegisterOnly rfl he
  | groupF7 =>
      by_cases hdiv : isDivision (ip p.off)
      · have hrm : g.ctx.gpr (rmField (ip p.off) p) ≠ 0 := fun h => hz ⟨rfl, hdiv.1, hdiv.2, h⟩
        by_cases hovf : extOf (ip p.off) = 7 ∧ g.ctx.gpr Reg.RAX = int64Min ∧
            g.ctx.gpr (rmField (ip p.off) p) = -1
        · have := execGroupF7_overflow ip p g hdiv.1 hovf.1 hovf.2.1 hovf.2.2
          rw [execCase, this] at he
          cases he
        · exact registerOnly_of_straight (execGroupF7_div ip p g hdiv hrm hovf) he
      · exact registerOnly_of_straight (execGroupF7_straight ip p g hdiv) he
  | imulImm => exact registerOnly_of_ok (execImulImm_straight ip p g).toRegisterOnly rfl he
  | default => exact registerOnly_of_ok ⟨by simp [Guest.unimplemented], rfl, rfl, rfl⟩ rfl he

theorem exists_ok_of_straight {r : Except HostUndefined CaseExit} {n : ℕ}
    (h : ∃ e, r = .ok e ∧ Straight g n e) : ∃ e, r = .ok e := by
  obtain ⟨e, he, -⟩ := h
  exact ⟨e, he⟩

/-- **Every case has a defined result except an overflowing IDIV.** -/
theorem execCase_ok (h : ¬ IdivOverflows c ip p g) : ∃ e, execCase c ip p g = .ok e := by
  cases c with
  | group83 =>
      cases hext : group1Implements (extOf (ip p.off)) with
      | true => exact exists_ok_of_straight (execGroup83_straight ip p g hext)
      | false => exact ⟨_, execGroup83_default ip p g hext⟩
  | group81 =>
      by_cases himp : modOf (ip p.off) = 3 → group1Implements (extOf (ip p.off)) = true
      · exact exists_ok_of_straight (execGroup81_straight ip p g himp)
      · rw [Classical.not_imp, Bool.not_eq_true] at himp
        exact ⟨_, execGroup81_default ip p g himp.1 himp.2⟩
  | add =>
      by_cases hmod : modOf (ip p.off) = 3
      · exact exists_ok_of_straight (execAdd_reg_straight ip p g hmod)
      · cases hr : g.mem.readable (addAddress ip p g) 8 with
        | true =>
            obtain ⟨ctx, hctx, -⟩ := execAdd_mem_ok ip p g hmod hr
            exact ⟨_, hctx⟩
        | false => exact ⟨_, execAdd_mem_fault ip p g hmod hr⟩
  | or => exact exists_ok_of_straight (execOr_straight ip p.off p g)
  | and => exact exists_ok_of_straight (execAnd_straight ip p.off p g)
  | sub => exact exists_ok_of_straight (execSub_straight ip p.off p g)
  | xor => exact exists_ok_of_straight (execXor_straight ip p.off p g)
  | test => exact exists_ok_of_straight (execTest_straight ip p.off p g)
  | testRaxImm => exact exists_ok_of_straight (execTestRaxImm_straight ip p g)
  | twoByte =>
      obtain ⟨e, he, -⟩ := execTwoByte_registerOnly ip p g
      exact ⟨e, he⟩
  | cmpRM => exact exists_ok_of_straight (execCmpRM_straight ip p.off p g)
  | cmpMR => exact exists_ok_of_straight (execCmpMR_straight ip p.off p g)
  | shift =>
      by_cases himp : modOf (ip p.off) = 3 → shiftImplements (extOf (ip p.off)) = true
      · exact exists_ok_of_straight (execShift_straight ip p g himp)
      · rw [Classical.not_imp, Bool.not_eq_true] at himp
        exact ⟨_, execShift_default ip p g himp.1 himp.2⟩
  | groupF7 =>
      by_cases hdiv : isDivision (ip p.off)
      · by_cases hz : g.ctx.gpr (rmField (ip p.off) p) = 0
        · exact ⟨_, execGroupF7_zero ip p g hdiv hz⟩
        · exact exists_ok_of_straight (execGroupF7_div ip p g hdiv hz
            fun hovf => h ⟨rfl, hdiv.1, hovf.1, hovf.2.1, hovf.2.2⟩)
      · exact exists_ok_of_straight (execGroupF7_straight ip p g hdiv)
  | nop | lahf | sahf | push | pop | xchg | movImm | movStore | movLoad | jmpRel8 | jmpRel32
  | jccRel8 | callRel32 | ret | retImm16 | int | hlt | lea | movImmC7 | groupFF | imulImm
  | default => exact ⟨_, rfl⟩

/-- An overflowing IDIV is undefined on the host. -/
theorem execCase_of_idivOverflows (h : IdivOverflows c ip p g) :
    execCase c ip p g = .error .quotientOverflow := by
  obtain ⟨rfl, hmod, hext, hrax, hrm⟩ := h
  exact execGroupF7_overflow ip p g hmod hext hrax hrm

/-- A zero divisor is reported as a fault, behind the instruction. -/
theorem execCase_of_dividesByZero (h : DividesByZero c ip p g) :
    execCase c ip p g = .ok (g.withCtx (g.ctx.advance (p.off + 1))).fault := by
  obtain ⟨rfl, hmod, hext, hrm⟩ := h
  exact execGroupF7_zero ip p g ⟨hmod, hext⟩ hrm

end Switch

end Cpu
