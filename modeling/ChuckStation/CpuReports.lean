/-
# What a case consumes and reports

How many instruction bytes each case of the switch moves its cursor over, which results it can
end with, and which counter it increments for them.

Two returns fall out of line.  The immediate and shift groups report an extension without a case
behind the whole instruction, and so does INT for a vector it does not know; INT does not count it
either.
-/
import ChuckStation.CpuDecode
import ChuckStation.CpuRun

namespace Cpu

open Guest GuestMemory

/-! ## Consumed bytes -/

/-- The two-byte opcodes of the near conditional jumps. -/
def isNearJcc (op2 : Byte) : Bool := 0x80 ≤ op2 && op2 ≤ 0x8F

/-- The number of bytes a case moves its cursor over, prefixes and opcode included. -/
def consumed (c : OpCase) (ip : ℕ → Byte) (p : Prefixes) : ℕ :=
  match c with
  | .nop | .lahf | .sahf | .push | .pop | .xchg | .ret | .hlt | .default => p.off
  | .movImm => p.off + if p.rexW then 8 else 4
  | .jmpRel8 | .jccRel8 | .int => p.off + 1
  | .retImm16 => p.off + 2
  | .testRaxImm | .jmpRel32 | .callRel32 => p.off + 4
  | .or | .and | .sub | .xor | .test | .cmpRM | .cmpMR | .groupFF | .groupF7 => p.off + 1
  | .group83 => p.off + 2
  | .group81 | .movImmC7 | .imulImm => p.off + 5
  | .shift => p.off + shiftOperandBytes p
  | .add => p.off + 1 + (addDispField ip (p.off + 1) (modOf (ip p.off))).2
  | .movStore | .movLoad | .lea =>
      p.off + 1 + (dispField ip (p.off + 1) (modOf (ip p.off))).2
  | .twoByte =>
      if isNearJcc (ip p.off) then p.off + 5
      else if hasModRM2 (ip p.off) then p.off + 2
      else p.off + 1

/-- The case leaves for another place than behind the instruction. -/
def TakesBranch (c : OpCase) (ip : ℕ → Byte) (p : Prefixes) (ctx : CpuContext) : Prop :=
  match c with
  | .jmpRel8 | .jmpRel32 | .callRel32 | .ret | .retImm16 => True
  | .jccRel8 => jccTaken ctx (p.opcode &&& 0xF).toNat = true
  | .twoByte => isNearJcc (ip p.off) = true ∧ jccTaken ctx (ip p.off &&& 0xF).toNat = true
  | .groupFF => modOf (ip p.off) = 3 ∧ (extOf (ip p.off) = 2 ∨ extOf (ip p.off) = 4)
  | _ => False

instance (c : OpCase) (ip : ℕ → Byte) (p : Prefixes) (ctx : CpuContext) :
    Decidable (TakesBranch c ip p ctx) := by
  unfold TakesBranch
  split <;> infer_instance

/-! ## Late reports -/

/-- The case reports `Unimplemented` behind the instruction. -/
def LateUnimplemented (c : OpCase) (ip : ℕ → Byte) (p : Prefixes) : Prop :=
  match c with
  | .group83 => group1Implements (extOf (ip p.off)) = false
  | .group81 => modOf (ip p.off) = 3 ∧ group1Implements (extOf (ip p.off)) = false
  | .shift => modOf (ip p.off) = 3 ∧ shiftImplements (extOf (ip p.off)) = false
  | .int => ip p.off ≠ 3 ∧ ip p.off ≠ 0x80
  | _ => False

/-- The switch has no case for the opcode. -/
def UnknownOpcode (c : OpCase) (ip : ℕ → Byte) (p : Prefixes) : Prop :=
  match c with
  | .default => True
  | .twoByte => ip p.off ≠ 0x05 ∧ isNearJcc (ip p.off) = false ∧ hasModRM2 (ip p.off) = false
  | _ => False

/-- The case reports a fault, or that the instruction is not implemented. -/
def Declines (c : OpCase) (ip : ℕ → Byte) (p : Prefixes) (g : Guest) : Prop :=
  LateFault c ip p g ∨ StackRefused c g ∨ LateUnimplemented c ip p ∨ UnknownOpcode c ip p

/-- INT with a vector other than 3 and 0x80. -/
def UnknownVector (c : OpCase) (ip : ℕ → Byte) (p : Prefixes) : Prop :=
  c = .int ∧ ip p.off ≠ 3 ∧ ip p.off ≠ 0x80

/-- The counter that counts a result. -/
def counterOf : StepResult → StatField
  | .Ok => .instructionsExecuted
  | .Breakpoint => .breakpointsHit
  | .Syscall => .syscallsDispatched
  | .Fault => .faults
  | .Unimplemented => .unimplemented
  | .Halt | .Exit => .none

/-! ## Counters -/

/-- Whatever the case ends with is counted by the counter of its result. -/
def Counted (r : Except HostUndefined CaseExit) : Prop :=
  ∀ e, r = .ok e → e.stat = counterOf e.result

section Counted

theorem counted_of_eq {e : CaseExit} (h : e.stat = counterOf e.result) : Counted (.ok e) := by
  rintro e' he
  cases he
  exact h

theorem counted_brk (g : Guest) (accesses : List Access) : Counted (.ok (g.brk accesses)) :=
  counted_of_eq rfl

theorem counted_fault (g : Guest) : Counted (.ok g.fault) := counted_of_eq rfl

theorem counted_unimplemented (g : Guest) : Counted (.ok g.unimplemented) := counted_of_eq rfl

theorem counted_bind {α : Type} (x : Except HostUndefined α) {f : α → Except HostUndefined CaseExit}
    (h : ∀ a, Counted (f a)) : Counted (x >>= f) := by
  cases x with
  | error u =>
      rintro e he
      cases he
  | ok a => exact h a

variable (ip : ℕ → Byte) (off : ℕ) (p : Prefixes) (g : Guest)

theorem execRegForm_counted
    (op : CpuContext → RegIdx → RegIdx → Except HostUndefined CpuContext) :
    Counted (execRegForm op ip off p g) := by
  unfold execRegForm
  dsimp only
  split_ifs
  · exact counted_bind _ fun ctx => counted_brk _ _
  · exact counted_brk _ _

theorem execGroup83_counted : Counted (execGroup83 ip p g) := by
  refine counted_bind _ fun r => ?_
  cases r with
  | some ctx => exact counted_brk _ _
  | none => exact counted_unimplemented _

theorem execGroup81_counted : Counted (execGroup81 ip p g) := by
  unfold execGroup81
  dsimp only
  split_ifs
  · refine counted_bind _ fun r => ?_
    cases r with
    | some ctx => exact counted_brk _ _
    | none => exact counted_unimplemented _
  · exact counted_brk _ _

theorem execShift_counted : Counted (execShift ip p g) := by
  unfold execShift
  dsimp only
  split_ifs
  all_goals first
    | exact counted_brk _ _
    | refine counted_bind _ fun r => ?_
      cases r with
      | some ctx => exact counted_brk _ _
      | none => exact counted_unimplemented _

theorem callTo_counted (ctx : CpuContext) (target frameBase : U64) :
    Counted (.ok (callTo ctx target frameBase g)) := by
  unfold callTo
  dsimp only
  split
  · exact counted_fault _
  · exact counted_brk _ _

theorem returnWith_counted (extra : U64) : Counted (.ok (returnWith extra g)) := by
  unfold returnWith
  dsimp only
  split
  · exact counted_fault _
  · exact counted_brk _ _

theorem execGroupFF_counted : Counted (.ok (execGroupFF ip p g)) := by
  unfold execGroupFF
  dsimp only
  split_ifs
  · split
    · exact counted_brk _ _
    · exact counted_brk _ _
    · exact callTo_counted g _ _ _
    · exact counted_brk _ _
    · exact counted_brk _ _
  · exact counted_brk _ _

theorem execGroupF7_counted : Counted (execGroupF7 ip p g) := by
  unfold execGroupF7
  dsimp only
  by_cases hmod : modOf (ip p.off) = 3
  · rw [if_pos hmod]
    split
    · exact counted_brk _ _
    · exact counted_brk _ _
    · exact counted_brk _ _
    · exact counted_brk _ _
    · split_ifs
      · exact counted_fault _
      · exact counted_bind _ fun r => counted_brk _ _
    · split_ifs
      · exact counted_fault _
      · exact counted_bind _ fun r => counted_brk _ _
    · exact counted_brk _ _
  · rw [if_neg hmod]
    exact counted_brk _ _

theorem execTwoByte_counted : Counted (execTwoByte ip p g) := by
  unfold execTwoByte
  dsimp only
  split_ifs
  · exact counted_of_eq rfl
  · exact counted_brk _ _
  · exact execRegForm_counted ip _ p g _
  · exact execRegForm_counted ip _ p g _
  · exact execRegForm_counted ip _ p g _
  · exact execRegForm_counted ip _ p g _
  · exact counted_unimplemented _

theorem execAdd_counted : Counted (execAdd ip p g) := by
  unfold execAdd execAddMem
  dsimp only
  split_ifs
  · exact counted_bind _ fun ctx => counted_brk _ _
  · split
    · exact counted_fault _
    · exact counted_bind _ fun ctx => counted_brk _ _

theorem execMovStore_counted : Counted (.ok (execMovStore ip p g)) := by
  unfold execMovStore execMovStoreMem
  dsimp only
  split_ifs
  · exact counted_brk _ _
  all_goals
    split
    · exact counted_fault _
    · exact counted_brk _ _

theorem execMovLoad_counted : Counted (.ok (execMovLoad ip p g)) := by
  unfold execMovLoad execMovLoadMem
  dsimp only
  split_ifs
  · exact counted_brk _ _
  all_goals
    split
    · exact counted_fault _
    · exact counted_brk _ _

theorem execInt_counted (h : ¬ UnknownVector .int ip p) : Counted (.ok (execInt ip p g)) := by
  unfold execInt
  dsimp only
  split_ifs with h3 h80
  · exact counted_of_eq rfl
  · exact counted_of_eq rfl
  · exact absurd ⟨rfl, h3, h80⟩ h

/-- An unknown vector is reported and not counted. -/
theorem execInt_unknown (h3 : ip p.off ≠ 3) (h80 : ip p.off ≠ 0x80) :
    execInt ip p g = ⟨.Unimplemented, .none, g.withCtx (g.ctx.advance (p.off + 1)), []⟩ := by
  unfold execInt
  dsimp only
  rw [if_neg h3, if_neg h80]

end Counted

section Switch

variable {ip : ℕ → Byte} {p : Prefixes} {g : Guest} {c : OpCase} {e : CaseExit}

/-- **Every return increments the counter of its result**, except the one for an unknown
vector. -/
theorem execCase_counted (h : ¬ UnknownVector c ip p) : Counted (execCase c ip p g) := by
  cases c with
  | nop | lahf | sahf | xchg | testRaxImm | jmpRel8 | jmpRel32 | jccRel8 | lea =>
      first
        | exact counted_brk _ _
        | exact counted_bind _ fun ctx => counted_brk _ _
  | push =>
      unfold execCase execPush
      dsimp only
      split
      · exact counted_fault _
      · exact counted_brk _ _
  | pop =>
      unfold execCase execPop
      dsimp only
      split
      · exact counted_fault _
      · exact counted_brk _ _
  | movImm =>
      unfold execCase execMovImm
      dsimp only
      split_ifs
      · exact counted_brk _ _
      · exact counted_brk _ _
  | group83 => exact execGroup83_counted ip p g
  | group81 => exact execGroup81_counted ip p g
  | add => exact execAdd_counted ip p g
  | or | and | sub | xor | test | cmpRM | cmpMR =>
      unfold execCase
      exact execRegForm_counted ip p.off p g _
  | movStore => exact execMovStore_counted ip p g
  | movLoad => exact execMovLoad_counted ip p g
  | callRel32 => exact callTo_counted g _ _ _
  | ret | retImm16 => exact returnWith_counted g _
  | int => exact execInt_counted ip p g h
  | twoByte => exact execTwoByte_counted ip p g
  | hlt => exact counted_of_eq rfl
  | movImmC7 =>
      unfold execCase execMovImmC7
      dsimp only
      split_ifs
      all_goals exact counted_brk _ _
  | imulImm =>
      unfold execCase execImulImm
      dsimp only
      split_ifs
      all_goals exact counted_brk _ _
  | shift => exact execShift_counted ip p g
  | groupFF => exact execGroupFF_counted ip p g
  | groupF7 => exact execGroupF7_counted ip p g
  | default => exact counted_unimplemented _

/-! ## How a case ends -/

/-- A late report leaves `RIP` behind the instruction. -/
theorem execCase_of_late (h : LateUnimplemented c ip p) :
    ∃ stat, execCase c ip p g =
      .ok ⟨.Unimplemented, stat, g.withCtx (g.ctx.advance (consumed c ip p)), []⟩ := by
  cases c with
  | group83 => exact ⟨_, execGroup83_default ip p g h⟩
  | group81 => exact ⟨_, execGroup81_default ip p g h.1 h.2⟩
  | shift => exact ⟨_, execShift_default ip p g h.1 h.2⟩
  | int => exact ⟨_, congrArg Except.ok (execInt_unknown ip p g h.1 h.2)⟩
  | nop | lahf | sahf | push | pop | xchg | movImm | add | or | and | sub | xor | test | testRaxImm
  | movStore | movLoad | jmpRel8 | jmpRel32 | jccRel8 | callRel32 | ret | retImm16 | twoByte | hlt
  | cmpRM | cmpMR | lea | movImmC7 | groupFF | groupF7 | imulImm | default => exact h.elim

/-- The ends of a case that reports nothing late. -/
inductive Ending (c : OpCase) (ip : ℕ → Byte) (p : Prefixes) (g : Guest) (e : CaseExit) : Prop
  | executed (hok : e.result = .Ok)
      (hrip : e.guest.ctx.rip = g.ctx.rip + BitVec.ofNat 64 (consumed c ip p))
  | branched (hok : e.result = .Ok) (htaken : TakesBranch c ip p g.ctx)
  | faulted (hfault : e.result = .Fault)
  | stopped (hstop : e.result = .Breakpoint ∨ e.result = .Syscall ∨ e.result = .Halt)
  | unimplemented (hun : e.result = .Unimplemented) (hguest : e.guest = g)
      (hcase : UnknownOpcode c ip p)

namespace Ending

theorem of_straight {r : Except HostUndefined CaseExit} {n : ℕ}
    (h : ∃ e', r = .ok e' ∧ Straight g n e') (hn : n = consumed c ip p) (he : r = .ok e) :
    Ending c ip p g e := by
  obtain ⟨e', rfl, hs⟩ := h
  cases he
  exact executed hs.result_eq (by rw [hs.rip_eq, hn])

theorem of_ok {r : Except HostUndefined CaseExit} {e' : CaseExit} (h : Ending c ip p g e')
    (hr : r = .ok e') (he : r = .ok e) : Ending c ip p g e := by
  rw [hr] at he
  cases he
  exact h

/-- A case that ends with `Ok` has gone on behind the instruction, or taken a branch. -/
theorem of_result_ok (h : Ending c ip p g e) (hok : e.result = .Ok) :
    e.guest.ctx.rip = g.ctx.rip + BitVec.ofNat 64 (consumed c ip p) ∨
      TakesBranch c ip p g.ctx := by
  cases h with
  | executed _ hrip => exact Or.inl hrip
  | branched _ htaken => exact Or.inr htaken
  | faulted hres => rw [hok] at hres; cases hres
  | unimplemented hres => rw [hok] at hres; cases hres
  | stopped hres => rw [hok] at hres; rcases hres with h | h | h <;> cases h

theorem of_result_unimplemented (h : Ending c ip p g e) (hun : e.result = .Unimplemented) :
    e.guest = g ∧ UnknownOpcode c ip p := by
  cases h with
  | unimplemented _ hguest hcase => exact ⟨hguest, hcase⟩
  | executed hres | branched hres | faulted hres => rw [hun] at hres; cases hres
  | stopped hres => rw [hun] at hres; rcases hres with h | h | h <;> cases h

end Ending

theorem callTo_ending (ctx : CpuContext) (target frameBase : U64)
    (htaken : TakesBranch c ip p g.ctx) : Ending c ip p g (callTo ctx target frameBase g) := by
  cases hw : g.mem.writable (ctx.gpr Reg.RSP - 8) 8 with
  | true =>
      rw [callTo_ok g ctx hw]
      exact .branched rfl htaken
  | false =>
      rw [callTo_fault g hw]
      exact .faulted rfl

theorem returnWith_ending (extra : U64) (htaken : TakesBranch c ip p g.ctx) :
    Ending c ip p g (returnWith extra g) := by
  cases hr : g.mem.readable (g.ctx.gpr Reg.RSP) 8 with
  | true =>
      rw [returnWith_ok g hr]
      exact .branched rfl htaken
  | false =>
      rw [returnWith_fault g hr]
      exact .faulted rfl

theorem jumpIf_ending {taken : Bool} {n : ℕ} (rel : U64) (hn : n = consumed c ip p)
    (htaken : taken = true → TakesBranch c ip p g.ctx) :
    Ending c ip p g (jumpIf taken n rel g) := by
  cases taken with
  | true => exact .branched rfl (htaken rfl)
  | false => exact .executed rfl (by rw [← hn]; rfl)

theorem execPush_ending : Ending .push ip p g (execPush p g) := by
  cases hw : g.mem.writable (g.ctx.gpr Reg.RSP - 8) 8 with
  | true =>
      obtain ⟨mem, hok⟩ := execPush_ok p g hw
      rw [hok]
      exact .executed rfl rfl
  | false =>
      rw [execPush_fault p g hw]
      exact .faulted rfl

theorem execPop_ending : Ending .pop ip p g (execPop p g) := by
  cases hr : g.mem.readable (g.ctx.gpr Reg.RSP) 8 with
  | true =>
      obtain ⟨ctx, hok, hrip⟩ := execPop_ok p g hr
      rw [hok]
      exact .executed rfl hrip
  | false =>
      rw [execPop_fault p g hr]
      exact .faulted rfl

/-- The register forms with a memory operand have no displacement. -/
theorem dispField_of_register (h : modOf (ip p.off) = 3) :
    (dispField ip (p.off + 1) (modOf (ip p.off))).2 = 0 ∧
      (addDispField ip (p.off + 1) (modOf (ip p.off))).2 = 0 := by
  simp [dispField, addDispField, h]

theorem execAdd_ending (he : execAdd ip p g = .ok e) : Ending .add ip p g e := by
  by_cases hmod : modOf (ip p.off) = 3
  · exact .of_straight (execAdd_reg_straight ip p g hmod)
      (by rw [consumed, (dispField_of_register hmod).2]) he
  · cases hr : g.mem.readable (addAddress ip p g) 8 with
    | true =>
        obtain ⟨ctx, hok, hrip⟩ := execAdd_mem_ok ip p g hmod hr
        exact .of_ok (.executed rfl (hrip.trans (addDecoded_rip ip p g))) hok he
    | false => exact .of_ok (.faulted rfl) (execAdd_mem_fault ip p g hmod hr) he

theorem execMovStore_ending : Ending .movStore ip p g (execMovStore ip p g) := by
  by_cases hmod : modOf (ip p.off) = 3
  · exact .of_straight ⟨_, rfl, execMovStore_reg_straight ip p g hmod⟩
      (by rw [consumed, (dispField_of_register hmod).1]) rfl
  · cases hw : g.mem.writable (movAddress ip p g) (movWidth p) with
    | true =>
        obtain ⟨mem, hok⟩ := execMovStore_mem_ok ip p g hmod hw
        rw [hok]
        exact .executed rfl (movDecoded_rip ip p g)
    | false =>
        rw [execMovStore_mem_fault ip p g hmod hw]
        exact .faulted rfl

theorem execMovLoad_ending : Ending .movLoad ip p g (execMovLoad ip p g) := by
  by_cases hmod : modOf (ip p.off) = 3
  · exact .of_straight ⟨_, rfl, execMovLoad_reg_straight ip p g hmod⟩
      (by rw [consumed, (dispField_of_register hmod).1]) rfl
  · cases hr : g.mem.readable (movAddress ip p g) (movWidth p) with
    | true =>
        obtain ⟨ctx, hok, hrip⟩ := execMovLoad_mem_ok ip p g hmod hr
        rw [hok]
        exact .executed rfl (hrip.trans (movDecoded_rip ip p g))
    | false =>
        rw [execMovLoad_mem_fault ip p g hmod hr]
        exact .faulted rfl

theorem execInt_ending (h : ¬ LateUnimplemented .int ip p) :
    Ending .int ip p g (execInt ip p g) := by
  unfold execInt
  dsimp only
  split_ifs with h3 h80
  · exact .stopped (Or.inl rfl)
  · exact .stopped (Or.inr (Or.inl rfl))
  · exact absurd ⟨h3, h80⟩ h

theorem execGroupFF_ending : Ending .groupFF ip p g (execGroupFF ip p g) := by
  by_cases hcall : modOf (ip p.off) = 3 ∧ extOf (ip p.off) = 2
  · rw [execGroupFF_call ip p g hcall.1 hcall.2]
    exact callTo_ending _ _ _ ⟨hcall.1, Or.inl hcall.2⟩
  by_cases hjump : modOf (ip p.off) = 3 ∧ extOf (ip p.off) = 4
  · rw [execGroupFF_jump ip p g hjump.1 hjump.2]
    exact .branched rfl ⟨hjump.1, Or.inr hjump.2⟩
  exact .of_straight ⟨_, rfl, execGroupFF_straight ip p g (fun hmod hext => hcall ⟨hmod, hext⟩)
    fun hmod hext => hjump ⟨hmod, hext⟩⟩ rfl rfl

theorem execGroupF7_ending (he : execGroupF7 ip p g = .ok e) : Ending .groupF7 ip p g e := by
  by_cases hdiv : isDivision (ip p.off)
  swap
  · exact .of_straight (execGroupF7_straight ip p g hdiv) rfl he
  by_cases hz : g.ctx.gpr (rmField (ip p.off) p) = 0
  · exact .of_ok (.faulted rfl) (execGroupF7_zero ip p g hdiv hz) he
  by_cases hovf : extOf (ip p.off) = 7 ∧ g.ctx.gpr Reg.RAX = int64Min ∧
      g.ctx.gpr (rmField (ip p.off) p) = -1
  · rw [execGroupF7_overflow ip p g hdiv.1 hovf.1 hovf.2.1 hovf.2.2] at he
    cases he
  · exact .of_straight (execGroupF7_div ip p g hdiv hz hovf) rfl he

theorem isNearJcc_iff (op2 : Byte) : isNearJcc op2 = true ↔ 0x80 ≤ op2 ∧ op2 ≤ 0x8F := by
  simp [isNearJcc]

theorem execTwoByte_ending (he : execTwoByte ip p g = .ok e) : Ending .twoByte ip p g e := by
  unfold execTwoByte at he
  dsimp only at he
  by_cases hsys : ip p.off = 0x05
  · rw [if_pos hsys] at he
    exact .of_ok (.stopped (Or.inr (Or.inl rfl))) rfl he
  rw [if_neg hsys] at he
  by_cases hjcc : 0x80 ≤ ip p.off ∧ ip p.off ≤ 0x8F
  · have hnear : isNearJcc (ip p.off) = true := (isNearJcc_iff _).mpr hjcc
    rw [if_pos hjcc] at he
    exact .of_ok (jumpIf_ending _ (by rw [consumed, if_pos hnear])
      fun htaken => ⟨hnear, htaken⟩) rfl he
  rw [if_neg hjcc] at he
  have hnear : ¬ isNearJcc (ip p.off) = true := fun h => hjcc ((isNearJcc_iff _).mp h)
  have hlen (hm : hasModRM2 (ip p.off) = true) : p.off + 1 + 1 = consumed .twoByte ip p := by
    rw [consumed, if_neg hnear, if_pos hm]
  split_ifs at he with hcmov hzx hsx himul
  · exact .of_straight (execCmov_straight ip _ p g _)
      (hlen (by rw [hasModRM2, decide_eq_true hcmov.1, decide_eq_true hcmov.2]; rfl)) he
  · exact .of_straight (execMovzx_straight ip _ p g _)
      (hlen (by rcases hzx with h | h <;> rw [h] <;> rfl)) he
  · exact .of_straight (execMovsx_straight ip _ p g _)
      (hlen (by rcases hsx with h | h <;> rw [h] <;> rfl)) he
  · exact .of_straight (execImul_straight ip _ p g) (hlen (by rw [himul]; rfl)) he
  · refine .of_ok (.unimplemented rfl rfl ⟨hsys, by simpa using hnear, ?_⟩) rfl he
    simp only [hasModRM2, Bool.or_eq_false_iff, Bool.and_eq_false_iff, decide_eq_false_iff_not,
      beq_eq_false_iff_ne]
    tauto

/-- **How a case ends**, if it reports nothing late. -/
theorem execCase_ending (hlate : ¬ LateUnimplemented c ip p) (he : execCase c ip p g = .ok e) :
    Ending c ip p g e := by
  cases c with
  | nop => exact .of_straight ⟨_, rfl, execNop_straight p g⟩ rfl he
  | lahf => exact .of_straight ⟨_, rfl, execLahf_straight p g⟩ rfl he
  | sahf => exact .of_straight ⟨_, rfl, execSahf_straight p g⟩ rfl he
  | push => exact .of_ok execPush_ending rfl he
  | pop => exact .of_ok execPop_ending rfl he
  | xchg => exact .of_straight ⟨_, rfl, execXchg_straight p g⟩ rfl he
  | movImm => exact .of_straight ⟨_, rfl, execMovImm_straight ip p g⟩ rfl he
  | group83 =>
      have himp : group1Implements (extOf (ip p.off)) = true := by
        simpa [LateUnimplemented] using hlate
      exact .of_straight (execGroup83_straight ip p g himp) rfl he
  | group81 =>
      have himp : modOf (ip p.off) = 3 → group1Implements (extOf (ip p.off)) = true := by
        simpa [LateUnimplemented] using hlate
      exact .of_straight (execGroup81_straight ip p g himp) rfl he
  | add => exact execAdd_ending he
  | or => exact .of_straight (execOr_straight ip p.off p g) rfl he
  | and => exact .of_straight (execAnd_straight ip p.off p g) rfl he
  | sub => exact .of_straight (execSub_straight ip p.off p g) rfl he
  | xor => exact .of_straight (execXor_straight ip p.off p g) rfl he
  | test => exact .of_straight (execTest_straight ip p.off p g) rfl he
  | testRaxImm => exact .of_straight (execTestRaxImm_straight ip p g) rfl he
  | movStore => exact .of_ok execMovStore_ending rfl he
  | movLoad => exact .of_ok execMovLoad_ending rfl he
  | jmpRel8 => exact .of_ok (.branched rfl trivial) rfl he
  | jmpRel32 => exact .of_ok (.branched rfl trivial) rfl he
  | jccRel8 => exact .of_ok (jumpIf_ending _ rfl id) rfl he
  | callRel32 => exact .of_ok (callTo_ending _ _ _ trivial) rfl he
  | ret => exact .of_ok (returnWith_ending _ trivial) rfl he
  | retImm16 => exact .of_ok (returnWith_ending _ trivial) rfl he
  | int => exact .of_ok (execInt_ending hlate) rfl he
  | twoByte => exact execTwoByte_ending he
  | hlt => exact .of_ok (.stopped (Or.inr (Or.inr rfl))) rfl he
  | cmpRM => exact .of_straight (execCmpRM_straight ip p.off p g) rfl he
  | cmpMR => exact .of_straight (execCmpMR_straight ip p.off p g) rfl he
  | lea => exact .of_straight ⟨_, rfl, execLea_straight ip p g⟩ rfl he
  | movImmC7 => exact .of_straight ⟨_, rfl, execMovImmC7_straight ip p g⟩ rfl he
  | shift =>
      have himp : modOf (ip p.off) = 3 → shiftImplements (extOf (ip p.off)) = true := by
        simpa [LateUnimplemented] using hlate
      exact .of_straight (execShift_straight ip p g himp) rfl he
  | groupFF => exact .of_ok execGroupFF_ending rfl he
  | groupF7 => exact execGroupF7_ending he
  | imulImm => exact .of_straight ⟨_, rfl, execImulImm_straight ip p g⟩ rfl he
  | default => exact .of_ok (.unimplemented rfl rfl trivial) rfl he

theorem execTwoByte_unknown (h : UnknownOpcode .twoByte ip p) :
    execTwoByte ip p g = .ok g.unimplemented := by
  obtain ⟨hsys, hnear, hop⟩ := h
  simp only [hasModRM2, Bool.or_eq_false_iff, Bool.and_eq_false_iff, decide_eq_false_iff_not,
    beq_eq_false_iff_ne] at hop
  have hjcc : ¬ (0x80 ≤ ip p.off ∧ ip p.off ≤ 0x8F) := fun hjcc => by
    rw [(isNearJcc_iff _).mpr hjcc] at hnear
    cases hnear
  unfold execTwoByte
  dsimp only
  rw [if_neg hsys, if_neg hjcc, if_neg (by tauto), if_neg (by tauto), if_neg (by tauto),
    if_neg (by tauto)]

/-- **A case that declines its instruction reports so, and no other case does.** -/
theorem execCase_declines_iff : Declines c ip p g ↔
    ∃ e, execCase c ip p g = .ok e ∧ (e.result = .Fault ∨ e.result = .Unimplemented) := by
  constructor
  · rintro (hlate | hrefused | hlate | hunknown)
    · obtain ⟨ctx, n, he, -⟩ := execCase_of_lateFault hlate
      exact ⟨_, he, Or.inl rfl⟩
    · exact ⟨_, execCase_of_stackRefused hrefused, Or.inl rfl⟩
    · obtain ⟨stat, he⟩ := execCase_of_late (g := g) hlate
      exact ⟨_, he, Or.inr rfl⟩
    · refine ⟨g.unimplemented, ?_, Or.inr rfl⟩
      cases c with
      | default => exact rfl
      | twoByte => exact execTwoByte_unknown hunknown
      | _ => exact hunknown.elim
  · rintro ⟨e, he, hfault | hun⟩
    · rcases execCase_fault_cases he hfault with hlate | hrefused
      · exact Or.inl hlate
      · exact Or.inr (Or.inl hrefused)
    · by_cases hlate : LateUnimplemented c ip p
      · exact Or.inr (Or.inr (Or.inl hlate))
      · have hcase := ((execCase_ending hlate he).of_result_unimplemented hun).2
        exact Or.inr (Or.inr (Or.inr hcase))

end Switch

/-! ## Skipping in Run -/

/-- A case consumes its prefixes and opcode, and at most eight bytes more. -/
theorem consumed_bounds (c : OpCase) (ip : ℕ → Byte) (p : Prefixes) :
    p.off ≤ consumed c ip p ∧ consumed c ip p ≤ p.off + 8 := by
  have hadd := addDispField_size_le ip (p.off + 1) (modOf (ip p.off))
  have hdisp := dispField_size_le ip (p.off + 1) (modOf (ip p.off))
  cases c with
  | movImm | twoByte =>
      simp only [consumed]
      split_ifs <;> omega
  | shift =>
      simp only [consumed, shiftOperandBytes]
      split_ifs <;> omega
  | nop | lahf | sahf | push | pop | xchg | group83 | group81 | add | or | and | sub | xor | test
  | testRaxImm | movStore | movLoad | jmpRel8 | jmpRel32 | jccRel8 | callRel32 | ret | retImm16
  | int | hlt | cmpRM | cmpMR | lea | movImmC7 | groupFF | groupF7 | imulImm | default =>
      simp only [consumed]
      omega

/-- An iteration of `Run()` over an instruction that is not implemented changes nothing but `RIP`,
which moves on by one byte. -/
def SkipsOneByte (resumes : ℕ → Call) (s : Session) : Prop :=
  ∀ out, s.call = .run → executeOne s.machine = .ok out → out.result = .Unimplemented →
    ∃ s', (iterate resumes s).2 = some s' ∧ s'.call = .run ∧
      s'.machine.cpu.ctx = s.machine.cpu.ctx.advance 1 ∧
      s'.machine.cpu.callStack = s.machine.cpu.callStack ∧ s'.machine.mem = s.machine.mem

/-- `Run()` meets an instruction that it reports behind its bytes. -/
def ReportsLate (s : Session) : Prop :=
  s.call = .run ∧ ∃ ip p, Decodes s.machine ip p ∧ LateUnimplemented (opCase p.opcode) ip p

section Skipping

variable {resumes : ℕ → Call} {s : Session} {out : StepOutcome}

/-- What `Run()` does about an instruction that is not implemented. -/
theorem iterate_unimplemented (hcall : s.call = .run) (hout : executeOne s.machine = .ok out)
    (hun : out.result = .Unimplemented) :
    (iterate resumes s).2 = some { s with machine := out.machine.skip } := by
  have hstop : ¬ s.machine.stops = true := by
    intro hstops
    rw [executeOne_of_stops ((stops_iff _).mp hstops)] at hout
    cases hout
    cases hun
  unfold iterate
  rw [hout]
  dsimp only
  rw [if_neg hstop, hun, hcall]
  dsimp only [Session.proceed]
  rw [hcall]

/-- **Skipping in Run, exactly.**  An iteration skips one byte of an instruction that is not
implemented if and only if the instruction is not reported late. -/
theorem skipsOneByte_iff (resumes : ℕ → Call) (s : Session) :
    SkipsOneByte resumes s ↔ ¬ ReportsLate s := by
  constructor
  · rintro h ⟨hcall, ip, p, hd, hlate⟩
    obtain ⟨stat, he⟩ := execCase_of_late (g := s.machine.guest) hlate
    have hout := executeOne_eq_finish hd he
    obtain ⟨s', hs', -, hctx, -⟩ := h _ hcall hout rfl
    rw [iterate_unimplemented hcall hout rfl] at hs'
    cases hs'
    have hrip := congrArg CpuContext.rip hctx
    simp only [Machine.skip, Machine.finish_ctx, Machine.guest, withCtx_ctx,
      CpuContext.advance_rip] at hrip
    obtain ⟨hlo, hhi⟩ := consumed_bounds (opCase p.opcode) ip p
    obtain ⟨hpos, hoff⟩ := hd.off_bounds
    exact rip_advance_ne _ (by omega) (by omega) (add_right_cancel hrip)
  · intro h out hcall hout hun
    refine ⟨_, iterate_unimplemented hcall hout hun, hcall, ?_⟩
    rcases executeOne_cases hout with ⟨-, rfl⟩ | ⟨-, rfl⟩ | ⟨ip, p, e, hd, he, rfl⟩
    · cases hun
    · cases hun
    · have hlate : ¬ LateUnimplemented (opCase p.opcode) ip p :=
        fun hlate => h ⟨hcall, ip, p, hd, hlate⟩
      have hguest := ((execCase_ending hlate he).of_result_unimplemented hun).1
      simp only [Machine.skip, Machine.finish_ctx, Machine.finish_callStack, Machine.finish_mem,
        hguest]
      exact ⟨rfl, rfl, rfl⟩

end Skipping

/-- ADC RAX, 1 at 0x1000. -/
def adcImm8 : Machine where
  cpu := { ctx := { rip := 0x1000 } }
  mem :=
    { bytes := ByteStore.write (fun _ => 0x90) 0x1000 [0x48, 0x83, 0xD0, 0x01]
      readable := fun _ _ => true
      writable := fun _ _ => true }

/-- `Run()` over `adcImm8` goes on at 0x1005. -/
theorem not_skipsOneByte_adcImm8 : ¬ ∀ resumes s, SkipsOneByte resumes s := by
  intro h
  obtain ⟨s', hs', -, hctx, -⟩ := h (fun _ => .run) ⟨adcImm8, .run, 0⟩ _ rfl rfl rfl
  have hrun : (iterate (fun _ => .run) ⟨adcImm8, .run, 0⟩).2.map
      (fun s => s.machine.cpu.ctx.rip) = some 0x1005 := by decide
  rw [hs'] at hrun
  have hrip : s'.machine.cpu.ctx.rip = 0x1005 := Option.some.inj hrun
  rw [hctx] at hrip
  exact absurd hrip (by decide)

end Cpu
