/-
# What the opcode cases do

One specification per case of the switch.  Three shapes cover all of them:

* a *straight* case ends with `Ok`, moves `RIP` by a fixed number of bytes and touches
  registers and flags only;
* a *register-only* case touches registers and flags only, whatever it returns;
* the stack and memory cases, which have a faulting and a successful form each.

This file has the straight cases; the others are in `CpuEffects.lean`.
-/
import ChuckStation.CpuStep

namespace Cpu

open Guest GuestMemory

/-! ## Shapes -/

/-- The case touched registers and flags only, and did not fault. -/
structure RegisterOnly (g : Guest) (e : CaseExit) : Prop where
  result_ne : e.result ≠ .Fault
  mem_eq : e.guest.mem = g.mem
  callStack_eq : e.guest.callStack = g.callStack
  accesses_eq : e.accesses = []

/-- The case ended with `Ok` behind `n` instruction bytes, on registers and flags only. -/
structure Straight (g : Guest) (n : ℕ) (e : CaseExit) : Prop extends RegisterOnly g e where
  result_eq : e.result = .Ok
  rip_eq : e.guest.ctx.rip = g.ctx.rip + BitVec.ofNat 64 n

theorem registerOnly_brk (g : Guest) (ctx : CpuContext) : RegisterOnly g (g.withCtx ctx).brk :=
  ⟨by simp [brk], rfl, rfl, rfl⟩

theorem registerOnly_unimplemented (g : Guest) (ctx : CpuContext) :
    RegisterOnly g (g.withCtx ctx).unimplemented :=
  ⟨by simp [Guest.unimplemented], rfl, rfl, rfl⟩

theorem straight_brk {g : Guest} {ctx : CpuContext} {n : ℕ}
    (h : ctx.rip = g.ctx.rip + BitVec.ofNat 64 n) : Straight g n (g.withCtx ctx).brk :=
  ⟨registerOnly_brk g ctx, rfl, h⟩

/-! ## Straight cases -/

section Straight

variable (ip : ℕ → Byte) (off : ℕ) (p : Prefixes) (g : Guest)

theorem execNop_straight : Straight g p.off (execNop p g) := straight_brk rfl

theorem execLahf_straight : Straight g p.off (execLahf p g) := straight_brk rfl

theorem execSahf_straight : Straight g p.off (execSahf p g) := straight_brk rfl

theorem execXchg_straight : Straight g p.off (execXchg p g) := straight_brk rfl

theorem execMovImm_straight :
    Straight g (p.off + if p.rexW then 8 else 4) (execMovImm ip p g) := by
  unfold execMovImm
  cases p.rexW
  · exact straight_brk rfl
  · exact straight_brk rfl

theorem execTestRaxImm_straight :
    ∃ e, execTestRaxImm ip p g = .ok e ∧ Straight g (p.off + 4) e := by
  have hbits : (if p.rexW then 64 else 32) ≤ 64 := by split <;> norm_num
  obtain ⟨ctx, hctx, hflags⟩ := updateFlagsLogic_ok (g.ctx.advance (p.off + 4))
    ((g.ctx.advance (p.off + 4)).gpr Reg.RAX &&& readS32 ip p.off) hbits
  refine ⟨(g.withCtx ctx).brk, ?_, straight_brk hflags.rip_eq⟩
  unfold execTestRaxImm
  dsimp only
  rw [hctx]
  rfl

/-- An operation on two registers that is always defined and leaves `RIP` alone. -/
def KeepsRip (op : CpuContext → RegIdx → RegIdx → Except HostUndefined CpuContext) : Prop :=
  ∀ ctx reg rm, ∃ ctx', op ctx reg rm = .ok ctx' ∧ ctx'.rip = ctx.rip

theorem execRegForm_straight {op : CpuContext → RegIdx → RegIdx → Except HostUndefined CpuContext}
    (hop : KeepsRip op) :
    ∃ e, execRegForm op ip off p g = .ok e ∧ Straight g (off + 1) e := by
  unfold execRegForm
  dsimp only
  split_ifs with hmod
  · obtain ⟨ctx, hctx, hrip⟩ :=
      hop (g.ctx.advance (off + 1)) (regField (ip off) p) (rmField (ip off) p)
    rw [hctx]
    exact ⟨_, rfl, straight_brk hrip⟩
  · exact ⟨_, rfl, straight_brk rfl⟩

theorem storeLogic_ok (ctx : CpuContext) (reg : RegIdx) (r : U64) :
    ∃ ctx', storeLogic ctx reg r = .ok ctx' ∧ ctx'.rip = ctx.rip := by
  obtain ⟨ctx', hctx, hflags⟩ := updateFlagsLogic_ok ctx r (le_refl 64)
  unfold storeLogic
  rw [hctx]
  exact ⟨_, rfl, hflags.rip_eq⟩

theorem storeAdd_ok (ctx : CpuContext) (reg : RegIdx) (a b : U64) :
    ∃ ctx', storeAdd ctx reg a b = .ok ctx' ∧ ctx'.rip = ctx.rip := by
  obtain ⟨ctx', hctx, hflags⟩ := updateFlagsArith_ok ctx a b (a + b) false (le_refl 64)
  unfold storeAdd
  rw [hctx]
  exact ⟨_, rfl, hflags.rip_eq⟩

theorem updateFlagsArith64_ok (ctx : CpuContext) (a b result : U64) (isSub : Bool) :
    ∃ ctx', updateFlagsArith ctx a b result isSub 64 = .ok ctx' ∧ ctx'.rip = ctx.rip := by
  obtain ⟨ctx', hctx, hflags⟩ := updateFlagsArith_ok ctx a b result isSub (le_refl 64)
  exact ⟨ctx', hctx, hflags.rip_eq⟩

theorem updateFlagsLogic64_ok (ctx : CpuContext) (result : U64) :
    ∃ ctx', updateFlagsLogic ctx result 64 = .ok ctx' ∧ ctx'.rip = ctx.rip := by
  obtain ⟨ctx', hctx, hflags⟩ := updateFlagsLogic_ok ctx result (le_refl 64)
  exact ⟨ctx', hctx, hflags.rip_eq⟩

theorem execOr_straight : ∃ e, execOr ip off p g = .ok e ∧ Straight g (off + 1) e :=
  execRegForm_straight ip off p g fun _ _ _ => storeLogic_ok _ _ _

theorem execAnd_straight : ∃ e, execAnd ip off p g = .ok e ∧ Straight g (off + 1) e :=
  execRegForm_straight ip off p g fun _ _ _ => storeLogic_ok _ _ _

theorem execXor_straight : ∃ e, execXor ip off p g = .ok e ∧ Straight g (off + 1) e :=
  execRegForm_straight ip off p g fun _ _ _ => storeLogic_ok _ _ _

theorem execSub_straight : ∃ e, execSub ip off p g = .ok e ∧ Straight g (off + 1) e :=
  execRegForm_straight ip off p g fun ctx reg rm => by
    obtain ⟨ctx', hctx, hrip⟩ :=
      updateFlagsArith64_ok ctx (ctx.gpr reg) (ctx.gpr rm) (ctx.gpr reg - ctx.gpr rm) true
    exact ⟨ctx'.setGpr reg (ctx.gpr reg - ctx.gpr rm), by simp only [hctx]; rfl, hrip⟩

theorem execTest_straight : ∃ e, execTest ip off p g = .ok e ∧ Straight g (off + 1) e :=
  execRegForm_straight ip off p g fun _ _ _ => updateFlagsLogic64_ok _ _

theorem execCmpRM_straight : ∃ e, execCmpRM ip off p g = .ok e ∧ Straight g (off + 1) e :=
  execRegForm_straight ip off p g fun _ _ _ => updateFlagsArith64_ok _ _ _ _ _

theorem execCmpMR_straight : ∃ e, execCmpMR ip off p g = .ok e ∧ Straight g (off + 1) e :=
  execRegForm_straight ip off p g fun _ _ _ => updateFlagsArith64_ok _ _ _ _ _

theorem execCmov_straight (op2 : Byte) :
    ∃ e, execCmov op2 ip off p g = .ok e ∧ Straight g (off + 1) e :=
  execRegForm_straight ip off p g fun ctx _ _ => ⟨_, rfl, by split <;> rfl⟩

theorem execMovzx_straight (op2 : Byte) :
    ∃ e, execMovzx op2 ip off p g = .ok e ∧ Straight g (off + 1) e :=
  execRegForm_straight ip off p g fun _ _ _ => ⟨_, rfl, rfl⟩

theorem execMovsx_straight (op2 : Byte) :
    ∃ e, execMovsx op2 ip off p g = .ok e ∧ Straight g (off + 1) e :=
  execRegForm_straight ip off p g fun _ _ _ => ⟨_, rfl, rfl⟩

theorem execImul_straight : ∃ e, execImul ip off p g = .ok e ∧ Straight g (off + 1) e :=
  execRegForm_straight ip off p g fun _ _ _ => ⟨_, rfl, rfl⟩

theorem execLea_straight :
    Straight g (p.off + 1 + (dispField ip (p.off + 1) (modOf (ip p.off))).2) (execLea ip p g) := by
  have hadd (a b : ℕ) : g.ctx.rip + BitVec.ofNat 64 (a + b) =
      g.ctx.rip + BitVec.ofNat 64 a + BitVec.ofNat 64 b := by
    rw [BitVec.ofNat_add, BitVec.add_assoc]
  exact straight_brk (hadd _ _).symm

theorem execMovImmC7_straight : Straight g (p.off + 5) (execMovImmC7 ip p g) := by
  unfold execMovImmC7
  dsimp only
  split
  · exact straight_brk rfl
  · exact straight_brk rfl

theorem execImulImm_straight : Straight g (p.off + 5) (execImulImm ip p g) := by
  unfold execImulImm
  dsimp only
  split
  · exact straight_brk rfl
  · exact straight_brk rfl

end Straight

/-! ## The immediate groups -/

/-- The extensions the immediate groups have a case for. -/
def group1Implements (ext : ℕ) : Bool := ext ∈ [0, 1, 4, 5, 6, 7]

theorem group1_some (ctx : CpuContext) (rm : RegIdx) {ext : ℕ} (b : U64)
    (h : group1Implements ext = true) :
    ∃ ctx', group1 ctx rm ext b = .ok (some ctx') ∧ ctx'.rip = ctx.rip := by
  simp only [group1Implements, List.mem_cons, List.not_mem_nil, or_false, decide_eq_true_eq] at h
  rcases h with rfl | rfl | rfl | rfl | rfl | rfl
  · obtain ⟨ctx', hctx, hrip⟩ := updateFlagsArith64_ok ctx (ctx.gpr rm) b (ctx.gpr rm + b) false
    exact ⟨ctx'.setGpr rm (ctx.gpr rm + b), by simp only [group1, hctx]; rfl, hrip⟩
  · obtain ⟨ctx', hctx, hrip⟩ := storeLogic_ok ctx rm (ctx.gpr rm ||| b)
    exact ⟨ctx', by simp only [group1, hctx]; rfl, hrip⟩
  · obtain ⟨ctx', hctx, hrip⟩ := storeLogic_ok ctx rm (ctx.gpr rm &&& b)
    exact ⟨ctx', by simp only [group1, hctx]; rfl, hrip⟩
  · obtain ⟨ctx', hctx, hrip⟩ := updateFlagsArith64_ok ctx (ctx.gpr rm) b (ctx.gpr rm - b) true
    exact ⟨ctx'.setGpr rm (ctx.gpr rm - b), by simp only [group1, hctx]; rfl, hrip⟩
  · obtain ⟨ctx', hctx, hrip⟩ := storeLogic_ok ctx rm (ctx.gpr rm ^^^ b)
    exact ⟨ctx', by simp only [group1, hctx]; rfl, hrip⟩
  · obtain ⟨ctx', hctx, hrip⟩ := updateFlagsArith64_ok ctx (ctx.gpr rm) b (ctx.gpr rm - b) true
    exact ⟨ctx', by simp only [group1, hctx]; rfl, hrip⟩

theorem group1_none (ctx : CpuContext) (rm : RegIdx) {ext : ℕ} (b : U64)
    (h : group1Implements ext = false) : group1 ctx rm ext b = .ok none := by
  unfold group1
  split <;> first | rfl | simp [group1Implements] at h

section Groups

variable (ip : ℕ → Byte) (p : Prefixes) (g : Guest)

theorem execGroup83_straight (h : group1Implements (extOf (ip p.off)) = true) :
    ∃ e, execGroup83 ip p g = .ok e ∧ Straight g (p.off + 2) e := by
  obtain ⟨ctx, hctx, hrip⟩ := group1_some (g.ctx.advance (p.off + 2)) (rmField (ip p.off) p)
    (readS8 ip (p.off + 1)) h
  refine ⟨(g.withCtx ctx).brk, ?_, straight_brk hrip⟩
  unfold execGroup83
  dsimp only
  rw [hctx]
  rfl

theorem execGroup83_default (h : group1Implements (extOf (ip p.off)) = false) :
    execGroup83 ip p g = .ok (g.withCtx (g.ctx.advance (p.off + 2))).unimplemented := by
  unfold execGroup83
  dsimp only
  rw [group1_none _ _ _ h]
  rfl

theorem execGroup81_straight
    (h : modOf (ip p.off) = 3 → group1Implements (extOf (ip p.off)) = true) :
    ∃ e, execGroup81 ip p g = .ok e ∧ Straight g (p.off + 5) e := by
  unfold execGroup81
  dsimp only
  by_cases hmod : modOf (ip p.off) = 3
  · obtain ⟨ctx, hctx, hrip⟩ := group1_some (g.ctx.advance (p.off + 5)) (rmField (ip p.off) p)
      (readS32 ip (p.off + 1)) (h hmod)
    rw [if_pos hmod, hctx]
    exact ⟨_, rfl, straight_brk hrip⟩
  · rw [if_neg hmod]
    exact ⟨_, rfl, straight_brk rfl⟩

theorem execGroup81_default (hmod : modOf (ip p.off) = 3)
    (h : group1Implements (extOf (ip p.off)) = false) :
    execGroup81 ip p g = .ok (g.withCtx (g.ctx.advance (p.off + 5))).unimplemented := by
  unfold execGroup81
  dsimp only
  rw [if_pos hmod, group1_none _ _ _ h]
  rfl

/-! ## The shift group -/

/-- The extensions the shift group has a case for. -/
def shiftImplements (ext : ℕ) : Bool := ext ∈ [4, 5, 7]

theorem guardedBit_ok (cond : Bool) (shifted : Except HostUndefined U64)
    (h : cond = true → ∃ v, shifted = .ok v) : ∃ b, guardedBit cond shifted = .ok b := by
  cases cond with
  | false => exact ⟨false, rfl⟩
  | true =>
      obtain ⟨v, rfl⟩ := h rfl
      exact ⟨_, rfl⟩

/-- Every shift of the group has a count below 64: this is where the guards of the source
pay off. -/
theorem shiftGroup_some (ctx : CpuContext) (rm : RegIdx) {ext count : ℕ} (hcount : count < 64)
    (h : shiftImplements ext = true) :
    ∃ ctx', shiftGroup ctx rm ext count = .ok (some ctx') ∧ ctx'.rip = ctx.rip := by
  simp only [shiftImplements, List.mem_cons, List.not_mem_nil, or_false, decide_eq_true_eq] at h
  have hlow : (0 < count && count ≤ 64) = true → 64 - count < 64 := by
    intro hc
    simp only [Bool.and_eq_true, decide_eq_true_eq] at hc
    omega
  rcases h with rfl | rfl | rfl
  · obtain ⟨cf, hcf⟩ := guardedBit_ok (0 < count && count ≤ 64)
      (hostShr (ctx.gpr rm) (64 - count)) fun hc => ⟨_, hostShr_of_lt (hlow hc)⟩
    obtain ⟨ctx', hctx, hrip⟩ := updateFlagsLogic64_ok (ctx.setFlag Flags.CF cf)
      (ctx.gpr rm <<< count)
    refine ⟨ctx'.setGpr rm (ctx.gpr rm <<< count), ?_, hrip⟩
    simp only [shiftGroup, if_pos hcount, hostShl_of_lt hcount, hcf, ok_bind, hctx]
    rfl
  · obtain ⟨cf, hcf⟩ := guardedBit_ok (decide (0 < count))
      (hostShr (ctx.gpr rm) (count - 1)) fun _ => ⟨_, hostShr_of_lt (by omega)⟩
    obtain ⟨ctx', hctx, hrip⟩ := updateFlagsLogic64_ok (ctx.setFlag Flags.CF cf)
      (ctx.gpr rm >>> count)
    refine ⟨ctx'.setGpr rm (ctx.gpr rm >>> count), ?_, hrip⟩
    simp only [shiftGroup, if_pos hcount, hostShr_of_lt hcount, hcf, ok_bind, hctx]
    rfl
  · obtain ⟨cf, hcf⟩ := guardedBit_ok (decide (0 < count))
      (hostSar (ctx.gpr rm) (count - 1)) fun _ => ⟨_, hostSar_of_lt (by omega)⟩
    obtain ⟨ctx', hctx, hrip⟩ := updateFlagsLogic64_ok (ctx.setFlag Flags.CF cf)
      ((ctx.gpr rm).sshiftRight count)
    refine ⟨ctx'.setGpr rm ((ctx.gpr rm).sshiftRight count), ?_, hrip⟩
    simp only [shiftGroup, if_pos hcount, hostSar_of_lt hcount, hcf, ok_bind, hctx]
    rfl

theorem shiftGroup_none (ctx : CpuContext) (rm : RegIdx) {ext : ℕ} (count : ℕ)
    (h : shiftImplements ext = false) : shiftGroup ctx rm ext count = .ok none := by
  unfold shiftGroup
  split <;> first | rfl | simp [shiftImplements] at h

/-- The number of bytes of a shift behind its opcode. -/
def shiftOperandBytes (p : Prefixes) : ℕ := if p.opcode = 0xC1 then 2 else 1

/-- The masked count is below 64. -/
theorem mask3F_lt (b : Byte) : (b &&& 0x3F).toNat < 64 := by
  rw [BitVec.toNat_and]
  exact lt_of_le_of_lt Nat.and_le_right (by decide)

theorem execShift_straight (h : modOf (ip p.off) = 3 → shiftImplements (extOf (ip p.off)) = true) :
    ∃ e, execShift ip p g = .ok e ∧ Straight g (p.off + shiftOperandBytes p) e := by
  unfold execShift shiftOperandBytes
  dsimp only
  by_cases hmod : modOf (ip p.off) = 3
  · by_cases hop : p.opcode = 0xC1
    · obtain ⟨ctx, hctx, hrip⟩ := shiftGroup_some (g.ctx.advance (p.off + 2))
        (rmField (ip p.off) p) (mask3F_lt (ip (p.off + 1))) (h hmod)
      simp only [if_pos hmod, if_pos hop]
      rw [hctx]
      exact ⟨_, rfl, straight_brk hrip⟩
    · obtain ⟨ctx, hctx, hrip⟩ := shiftGroup_some (g.ctx.advance (p.off + 1))
        (rmField (ip p.off) p) (mask3F_lt ((g.ctx.gpr Reg.RCX).setWidth 8)) (h hmod)
      simp only [if_pos hmod, if_neg hop]
      rw [hctx]
      exact ⟨_, rfl, straight_brk hrip⟩
  · simp only [if_neg hmod]
    split
    · exact ⟨_, rfl, straight_brk rfl⟩
    · exact ⟨_, rfl, straight_brk rfl⟩

theorem execShift_default (hmod : modOf (ip p.off) = 3)
    (h : shiftImplements (extOf (ip p.off)) = false) :
    execShift ip p g =
      .ok (g.withCtx (g.ctx.advance (p.off + shiftOperandBytes p))).unimplemented := by
  unfold execShift shiftOperandBytes
  dsimp only
  simp only [if_pos hmod, shiftGroup_none _ _ _ h]
  split <;> rfl

end Groups

end Cpu
