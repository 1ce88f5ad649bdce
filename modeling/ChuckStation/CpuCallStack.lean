/-
# The tracked call stack

`st.callStack` shadows the return addresses on the guest stack.  This file shows that
it never drifts: along any run of CALLs, RETs and instructions that leave `RSP` and the
pushed words alone, the tracked return addresses are the guest words from `RSP` on.

`TracksStack` is the invariant; `StackSystem` gives the nesting of calls and returns.
-/
import ChuckStation.CpuEffects
import ChuckStation.StackSystem

namespace Cpu

open Guest GuestMemory

/-! ## Calls, returns and the other steps -/

namespace Machine

/-- The stack pointer. -/
def rsp (m : Machine) : U64 := m.cpu.ctx.gpr Reg.RSP

/-- The tracked return addresses, top first. -/
def trackedReturns (m : Machine) : List U64 := m.cpu.callStack.map CallFrame.returnAddr

/-- The guest words at `RSP`, `RSP + 8`, `RSP + 16`, … -/
def stackWord (m : Machine) (i : ℕ) : U64 := m.mem.word64 (m.rsp + BitVec.ofNat 64 (8 * i))

end Machine

/-- The step from `m` is a CALL rel32 or a CALL r64. -/
def CallsAt (m : Machine) : Prop :=
  ∃ ip p, Decodes m ip p ∧ (opCase p.opcode = .callRel32 ∨
    opCase p.opcode = .groupFF ∧ modOf (ip p.off) = 3 ∧ extOf (ip p.off) = 2)

/-- The step from `m` is a RET. -/
def ReturnsAt (m : Machine) : Prop := ∃ ip p, Decodes m ip p ∧ opCase p.opcode = .ret

/-- A CALL that returned `Ok`, with room below `RSP`. -/
def Calls (m m' : Machine) : Prop :=
  CallsAt m ∧ 8 ≤ m.rsp.toNat ∧
    ∃ out, executeOne m = .ok out ∧ out.result = .Ok ∧ out.machine = m'

/-- A RET that returned `Ok`. -/
def Returns (m m' : Machine) : Prop :=
  ReturnsAt m ∧ ∃ out, executeOne m = .ok out ∧ out.result = .Ok ∧ out.machine = m'

/-- A CALL or RET that faulted, or another instruction that left `RSP` and the words
already pushed as they were. -/
def KeepsStack (m m' : Machine) : Prop :=
  ∃ out, executeOne m = .ok out ∧ out.machine = m' ∧
    ((CallsAt m ∨ ReturnsAt m) ∧ out.result = .Fault ∨
      ¬ CallsAt m ∧ ¬ ReturnsAt m ∧ m'.rsp = m.rsp ∧
        ∀ i < m.cpu.callStack.length, m'.stackWord i = m.stackWord i)

/-! ## What they do to the stack -/

section Effects

variable {m m' : Machine} {out : StepOutcome}

/-- A call either faults with the stack untouched, or pushes the return address of its
new frame. -/
theorem callTo_cases (ctx : CpuContext) (target frameBase : U64) (g : Guest)
    (hgpr : ctx.gpr Reg.RSP = g.ctx.gpr Reg.RSP) :
    (∃ ctx', callTo ctx target frameBase g = (g.withCtx ctx').fault ∧
      ctx'.gpr Reg.RSP = g.ctx.gpr Reg.RSP) ∨
    ∃ ctx' f, callTo ctx target frameBase g =
        ({ ctx := ctx', callStack := f :: g.callStack, mem := { g.mem with
            bytes := ByteStore.write g.mem.bytes (g.ctx.gpr Reg.RSP - 8)
              (LittleEndian.toBytes 8 f.returnAddr) } } : Guest).brk
          [⟨.store, g.ctx.gpr Reg.RSP - 8, 8⟩] ∧
      ctx'.gpr Reg.RSP = g.ctx.gpr Reg.RSP - 8 := by
  cases hw : g.mem.writable (ctx.gpr Reg.RSP - 8) 8 with
  | false => exact Or.inl ⟨ctx, callTo_fault g hw, hgpr⟩
  | true =>
      refine Or.inr ⟨(ctx.setGpr Reg.RSP (ctx.gpr Reg.RSP - 8)).setRip target,
        { returnAddr := ctx.rip, frameBase := frameBase }, ?_, ?_⟩
      · rw [callTo_ok g _ hw, hgpr]
      · simp [hgpr]

theorem execCase_call {ip : ℕ → Byte} {p : Prefixes} {g : Guest} {c : OpCase}
    (h : c = .callRel32 ∨ c = .groupFF ∧ modOf (ip p.off) = 3 ∧ extOf (ip p.off) = 2) :
    ∃ ctx target frameBase, execCase c ip p g = .ok (callTo ctx target frameBase g) ∧
      ctx.gpr Reg.RSP = g.ctx.gpr Reg.RSP := by
  rcases h with rfl | ⟨rfl, hmod, hext⟩
  · exact ⟨g.ctx.advance (p.off + 4), _, _, rfl, rfl⟩
  · exact ⟨g.ctx.advance (p.off + 1), _, _,
      congrArg Except.ok (execGroupFF_call ip p g hmod hext), rfl⟩

theorem call_cases (h : CallsAt m) (hout : executeOne m = .ok out) :
    (out.result = .Fault ∧ out.machine.rsp = m.rsp ∧
      out.machine.cpu.callStack = m.cpu.callStack ∧ out.machine.mem = m.mem) ∨
    (out.result = .Ok ∧ out.machine.rsp = m.rsp - 8 ∧
      ∃ f : CallFrame, out.machine.cpu.callStack = f :: m.cpu.callStack ∧
        out.machine.mem = { m.mem with
          bytes :=
            ByteStore.write m.mem.bytes (m.rsp - 8) (LittleEndian.toBytes 8 f.returnAddr) }) := by
  obtain ⟨ip, p, hd, hcase⟩ := h
  obtain ⟨ctx, target, frameBase, hexec, hgpr⟩ := execCase_call (g := m.guest) hcase
  rw [executeOne_of_decodes hd, hexec] at hout
  cases hout
  rcases callTo_cases ctx target frameBase m.guest hgpr with
    ⟨ctx', hfault, hsp⟩ | ⟨ctx', f, hok, hsp⟩
  · left
    simp only [hfault, Machine.finish_result, Machine.finish_callStack, Machine.finish_mem,
      Machine.rsp, Machine.finish_ctx]
    exact ⟨rfl, hsp, rfl, rfl⟩
  · right
    simp only [hok, Machine.finish_result, Machine.finish_callStack, Machine.finish_mem,
      Machine.rsp, Machine.finish_ctx]
    exact ⟨rfl, hsp, f, rfl, rfl⟩

/-- A return either faults with the stack untouched, or jumps to the word it pops. -/
theorem return_cases (h : ReturnsAt m) (hout : executeOne m = .ok out) :
    (out.result = .Fault ∧ out.machine.rsp = m.rsp ∧
      out.machine.cpu.callStack = m.cpu.callStack ∧ out.machine.mem = m.mem) ∨
    (out.result = .Ok ∧ out.machine.rsp = m.rsp + 8 ∧
      out.machine.cpu.callStack = m.cpu.callStack.tail ∧ out.machine.mem = m.mem ∧
      out.machine.cpu.ctx.rip = m.mem.word64 m.rsp) := by
  obtain ⟨ip, p, hd, hcase⟩ := h
  rw [executeOne_of_decodes hd, hcase] at hout
  cases hout
  cases hr : m.guest.mem.readable (m.guest.ctx.gpr Reg.RSP) 8 with
  | false =>
      left
      simp only [execRet, returnWith_fault m.guest hr, Machine.finish_result,
        Machine.finish_callStack, Machine.finish_mem, Machine.rsp, Machine.finish_ctx]
      exact ⟨rfl, rfl, rfl, rfl⟩
  | true =>
      right
      simp only [execRet, returnWith_ok m.guest hr, Machine.finish_result,
        Machine.finish_callStack, Machine.finish_mem, Machine.rsp, Machine.finish_ctx]
      exact ⟨rfl, by simp [brk, Machine.guest], rfl, rfl, rfl⟩

/-- RET imm16 that succeeds moves `RSP`: it pops between 8 and 65543 bytes. -/
theorem retImm16_moves_rsp (rsp : U64) (imm : U16) : rsp + (8 + imm.setWidth 64) ≠ rsp := by
  bv_omega

/-- The tracked call stack changes by calls, by returns, and by moving `RSP`. -/
theorem execCase_callStack {ip : ℕ → Byte} {p : Prefixes} {g : Guest} {c : OpCase} {e : CaseExit}
    (hcall : ¬ (c = .callRel32 ∨ c = .groupFF ∧ modOf (ip p.off) = 3 ∧ extOf (ip p.off) = 2))
    (hret : c ≠ .ret) (he : execCase c ip p g = .ok e)
    (hrsp : e.guest.ctx.gpr Reg.RSP = g.ctx.gpr Reg.RSP) : e.guest.callStack = g.callStack := by
  by_cases hz : DividesByZero c ip p g
  · rw [execCase_of_dividesByZero hz] at he
    cases he
    rfl
  by_cases ht : TouchesMemory c ip p
  swap
  · exact (execCase_registerOnly ht hz he).callStack_eq
  cases c with
  | push =>
      cases hw : g.mem.writable (g.ctx.gpr Reg.RSP - 8) 8 with
      | true =>
          obtain ⟨mem, hok⟩ := execPush_ok p g hw
          rw [execCase, hok] at he
          cases he
          rfl
      | false =>
          rw [execCase, execPush_fault p g hw] at he
          cases he
          rfl
  | pop =>
      cases hr : g.mem.readable (g.ctx.gpr Reg.RSP) 8 with
      | true =>
          obtain ⟨ctx, hok, -⟩ := execPop_ok p g hr
          rw [execCase, hok] at he
          cases he
          rfl
      | false =>
          rw [execCase, execPop_fault p g hr] at he
          cases he
          rfl
  | retImm16 =>
      cases hr : g.mem.readable (g.ctx.gpr Reg.RSP) 8 with
      | true =>
          simp only [execCase, execRetImm16, returnWith_ok g hr] at he
          cases he
          simp only [brk, CpuContext.setRip_gpr, CpuContext.setGpr_gpr, Function.update_self]
            at hrsp
          -- It gives back more of the stack than the return address.
          exact absurd hrsp (retImm16_moves_rsp _ _)
      | false =>
          simp only [execCase, execRetImm16, returnWith_fault g hr] at he
          cases he
          rfl
  | add =>
      cases hr : g.mem.readable (addAddress ip p g) 8 with
      | true =>
          obtain ⟨ctx, hok, -⟩ := execAdd_mem_ok ip p g ht hr
          rw [execCase, hok] at he
          cases he
          rfl
      | false =>
          rw [execCase, execAdd_mem_fault ip p g ht hr] at he
          cases he
          rfl
  | movStore =>
      cases hw : g.mem.writable (movAddress ip p g) (movWidth p) with
      | true =>
          obtain ⟨mem, hok⟩ := execMovStore_mem_ok ip p g ht hw
          rw [execCase, hok] at he
          cases he
          rfl
      | false =>
          rw [execCase, execMovStore_mem_fault ip p g ht hw] at he
          cases he
          rfl
  | movLoad =>
      cases hr : g.mem.readable (movAddress ip p g) (movWidth p) with
      | true =>
          obtain ⟨ctx, hok, -⟩ := execMovLoad_mem_ok ip p g ht hr
          rw [execCase, hok] at he
          cases he
          rfl
      | false =>
          rw [execCase, execMovLoad_mem_fault ip p g ht hr] at he
          cases he
          rfl
  | callRel32 => exact absurd (Or.inl rfl) hcall
  | ret => exact absurd rfl hret
  | groupFF => exact absurd (Or.inr ⟨rfl, ht⟩) hcall
  | nop | lahf | sahf | xchg | movImm | group83 | group81 | or | and | sub | xor | test
  | testRaxImm | jmpRel8 | jmpRel32 | jccRel8 | int | twoByte | hlt | cmpRM | cmpMR | lea
  | movImmC7 | shift | groupF7 | imulImm | default => exact absurd ht id

theorem callStack_eq_of_other (hcall : ¬ CallsAt m) (hret : ¬ ReturnsAt m)
    (hout : executeOne m = .ok out) (hrsp : out.machine.rsp = m.rsp) :
    out.machine.cpu.callStack = m.cpu.callStack := by
  rcases executeOne_cases hout with ⟨-, rfl⟩ | ⟨-, rfl⟩ | ⟨ip, p, e, hd, he, rfl⟩
  · rfl
  · exact CpuState.count_callStack _ _
  · rw [Machine.finish_callStack]
    rw [Machine.rsp, Machine.finish_ctx] at hrsp
    exact execCase_callStack (fun h => hcall ⟨ip, p, hd, h⟩) (fun h => hret ⟨ip, p, hd, h⟩) he hrsp

theorem Calls.push (h : Calls m m') : ∃ f, m'.cpu.callStack = f :: m.cpu.callStack := by
  obtain ⟨hat, -, out, hout, hres, rfl⟩ := h
  rcases call_cases hat hout with ⟨hf, -⟩ | ⟨-, -, f, hcs, -⟩
  · rw [hres] at hf
    cases hf
  · exact ⟨f, hcs⟩

theorem Calls.rsp_eq (h : Calls m m') : m'.rsp = m.rsp - 8 := by
  obtain ⟨hat, -, out, hout, hres, rfl⟩ := h
  rcases call_cases hat hout with ⟨hf, -⟩ | ⟨-, hsp, -⟩
  · rw [hres] at hf
    cases hf
  · exact hsp

theorem Returns.effect (h : Returns m m') :
    m'.rsp = m.rsp + 8 ∧ m'.cpu.callStack = m.cpu.callStack.tail ∧ m'.mem = m.mem ∧
      m'.cpu.ctx.rip = m.mem.word64 m.rsp := by
  obtain ⟨hat, out, hout, hres, rfl⟩ := h
  rcases return_cases hat hout with ⟨hf, -⟩ | ⟨-, hrest⟩
  · rw [hres] at hf
    cases hf
  · exact hrest

theorem KeepsStack.effect (h : KeepsStack m m') :
    m'.rsp = m.rsp ∧ m'.cpu.callStack = m.cpu.callStack ∧
      ∀ i < m.cpu.callStack.length, m'.stackWord i = m.stackWord i := by
  obtain ⟨out, hout, rfl, ⟨hat, hres⟩ | ⟨hcall, hret, hsp, hwords⟩⟩ := h
  · have hsame : out.machine.rsp = m.rsp ∧ out.machine.cpu.callStack = m.cpu.callStack ∧
        out.machine.mem = m.mem := by
      rcases hat with hat | hat
      · rcases call_cases hat hout with ⟨-, hsame⟩ | ⟨hok, -⟩
        · exact hsame
        · rw [hres] at hok
          cases hok
      · rcases return_cases hat hout with ⟨-, hsame⟩ | ⟨hok, -⟩
        · exact hsame
        · rw [hres] at hok
          cases hok
    obtain ⟨hsp, hcs, hmem⟩ := hsame
    exact ⟨hsp, hcs, fun i _ => by rw [Machine.stackWord, Machine.stackWord, hsp, hmem]⟩
  · exact ⟨hsp, callStack_eq_of_other hcall hret hout hsp, hwords⟩

end Effects

/-- Steps of the interpreter as a stack system over the tracked frames. -/
def callSystem : StackSystem Machine CallFrame where
  frames m := m.cpu.callStack
  Push := Calls
  Pop := Returns
  Keep := KeepsStack
  push_frames h := h.push
  pop_frames h := h.effect.2.1
  keep_frames h := h.effect.2.1

/-! ## The invariant -/

/-- The tracked frames fit between `RSP` and the top of the address space, and their
return addresses are the guest words there. -/
structure TracksStack (m : Machine) : Prop where
  fits : m.rsp.toNat + 8 * m.cpu.callStack.length ≤ 2 ^ 64
  words : ∀ (i : ℕ) (hi : i < m.cpu.callStack.length),
    m.stackWord i = (m.cpu.callStack[i]).returnAddr

section Invariant

variable {m m' : Machine}

theorem TracksStack.of_empty (h : m.cpu.callStack = []) : TracksStack m := by
  refine ⟨?_, fun i hi => ?_⟩
  · have := m.rsp.isLt
    simp only [h, List.length_nil]
    omega
  · simp [h] at hi

/-- Words from the old stack pointer on lie behind the word a call writes below it. -/
theorem stackWord_write_below (bytes : U64 → Byte) (readable writable : U64 → ℕ → Bool)
    (sp v : U64) (j : ℕ) (hj : 8 * j + 16 ≤ 2 ^ 64) :
    word64 ⟨ByteStore.write bytes (sp - 8) (LittleEndian.toBytes 8 v), readable, writable⟩
        (sp + BitVec.ofNat 64 (8 * j)) =
      word64 ⟨bytes, readable, writable⟩ (sp + BitVec.ofNat 64 (8 * j)) := by
  refine word64_write_of_disjoint bytes readable writable (sp - 8) _ v fun i hi => ?_
  have haddr : sp + BitVec.ofNat 64 (8 * j) + BitVec.ofNat 64 i =
      sp - 8 + BitVec.ofNat 64 (8 * j + 8 + i) := by
    rw [BitVec.ofNat_add, BitVec.ofNat_add]
    bv_omega
  rw [haddr, ByteStore.toNat_add_ofNat_sub _ _ (by omega)]
  omega

theorem TracksStack.call (h : TracksStack m) (hcall : Calls m m') : TracksStack m' := by
  obtain ⟨hat, hroom, out, hout, hres, rfl⟩ := hcall
  rcases call_cases hat hout with ⟨hf, -⟩ | ⟨-, hsp, f, hcs, hmem⟩
  · rw [hres] at hf
    cases hf
  have hfits := h.fits
  have hspNat : (m.rsp - 8).toNat = m.rsp.toNat - 8 := by bv_omega
  refine ⟨?_, fun i hi => ?_⟩
  · rw [hsp, hcs, hspNat, List.length_cons]
    omega
  rw [Machine.stackWord, hsp, hmem]
  cases i with
  | zero =>
      have hzero : m.rsp - 8 + BitVec.ofNat 64 (8 * 0) = m.rsp - 8 := by simp
      simp only [hzero, hcs, List.getElem_cons_zero]
      exact word64_write_self _ _ _ _ _
  | succ j =>
      have hj : j < m.cpu.callStack.length := by simpa [hcs] using hi
      have haddr : m.rsp - 8 + BitVec.ofNat 64 (8 * (j + 1)) = m.rsp + BitVec.ofNat 64 (8 * j) := by
        rw [Nat.mul_succ, BitVec.ofNat_add]
        bv_omega
      simp only [haddr, hcs, List.getElem_cons_succ]
      rw [stackWord_write_below _ _ _ _ _ _ (by omega), ← h.words j hj]
      rfl

theorem TracksStack.ret (h : TracksStack m) (hret : Returns m m') : TracksStack m' := by
  obtain ⟨hsp, hcs, hmem, -⟩ := hret.effect
  cases hstack : m.cpu.callStack with
  | nil => exact TracksStack.of_empty (by rw [hcs, hstack, List.tail_nil])
  | cons f fs =>
      have hfits := h.fits
      rw [hstack, List.length_cons] at hfits
      have hle : (m.rsp + 8).toNat ≤ m.rsp.toNat + 8 := by bv_omega
      refine ⟨?_, fun i hi => ?_⟩
      · rw [hsp, hcs, hstack, List.tail_cons]
        omega
      · have hi' : i + 1 < m.cpu.callStack.length := by
          rw [hcs, List.length_tail] at hi
          omega
        have haddr : m.rsp + 8 + BitVec.ofNat 64 (8 * i) =
            m.rsp + BitVec.ofNat 64 (8 * (i + 1)) := by
          rw [Nat.mul_succ, BitVec.ofNat_add]
          bv_omega
        rw [Machine.stackWord, hsp, hmem, haddr]
        simp only [hcs, List.getElem_tail]
        exact h.words (i + 1) hi'

theorem TracksStack.keep (h : TracksStack m) (hkeep : KeepsStack m m') : TracksStack m' := by
  obtain ⟨hsp, hcs, hwords⟩ := hkeep.effect
  refine ⟨by rw [hsp, hcs]; exact h.fits, fun i hi => ?_⟩
  have hi' : i < m.cpu.callStack.length := by rwa [hcs] at hi
  rw [hwords i hi', h.words i hi']
  simp only [hcs]

theorem TracksStack.step (hstep : callSystem.Step m m') (h : TracksStack m) : TracksStack m' := by
  rcases hstep with hcall | hret | hkeep
  · exact h.call hcall
  · exact h.ret hret
  · exact h.keep hkeep

theorem TracksStack.trackedReturns_eq (h : TracksStack m) :
    m.trackedReturns = (List.range m.cpu.callStack.length).map m.stackWord := by
  apply List.ext_getElem (by simp [Machine.trackedReturns])
  intro i hi hi'
  have hi'' : i < m.cpu.callStack.length := by simpa using hi'
  simp only [Machine.trackedReturns, List.getElem_map, List.getElem_range, h.words i hi'']

/-- A return with a tracked frame goes to the address the frame records. -/
theorem TracksStack.return_rip (h : TracksStack m) (hret : Returns m m') {f : CallFrame}
    {fs : List CallFrame} (hstack : m.cpu.callStack = f :: fs) :
    m'.cpu.ctx.rip = f.returnAddr := by
  obtain ⟨-, -, -, hrip⟩ := hret.effect
  have hword := h.words 0 (by rw [hstack]; exact Nat.zero_lt_succ _)
  have hzero : m.rsp + BitVec.ofNat 64 (8 * 0) = m.rsp := by simp
  simp only [Machine.stackWord, hzero, hstack, List.getElem_cons_zero] at hword
  rw [hrip, hword]

theorem rsp_eq_of_balanced (h : callSystem.Balanced m m') : m'.rsp = m.rsp := by
  refine h.preserves Machine.rsp (fun hkeep => (KeepsStack.effect hkeep).1)
    fun {s a b t} hpush hpop hin => ?_
  have hdown : a.rsp = s.rsp - 8 := Calls.rsp_eq hpush
  have hup : t.rsp = b.rsp + 8 := (Returns.effect hpop).1
  rw [hup, hin, hdown, BitVec.sub_add_cancel]

end Invariant

/-! ## Runs -/

/-- **The tracked call stack is the guest's.**  After every run from an empty tracked stack,
the tracked return addresses are the words from `RSP` on; a RET with a tracked frame goes
where its matching CALL recorded; and a balanced run gives `RSP` and the frames back. -/
theorem callStack_run {m₀ m : Machine} (hempty : m₀.cpu.callStack = [])
    (hrun : callSystem.Run m₀ m) :
    m.trackedReturns = (List.range m.cpu.callStack.length).map m.stackWord ∧
    (∀ m', Returns m m' → m.cpu.callStack ≠ [] →
      ∃ a b f, callSystem.Run m₀ a ∧ Calls a b ∧ b.cpu.callStack = f :: a.cpu.callStack ∧
        callSystem.Balanced b m ∧ m'.cpu.ctx.rip = f.returnAddr) ∧
    ∀ m', callSystem.Balanced m m' → m'.rsp = m.rsp ∧ m'.cpu.callStack = m.cpu.callStack := by
  have htracks : TracksStack m :=
    StackSystem.Run.invariant TracksStack.step hrun (TracksStack.of_empty hempty)
  refine ⟨htracks.trackedReturns_eq, ?_, ?_⟩
  · intro m' hret hne
    obtain ⟨a, b, hreach, hcall, hbal, hframes⟩ :=
      StackSystem.exists_matching_push (S := callSystem) hempty hrun hne
    obtain ⟨f, hf⟩ := Calls.push hcall
    have hstack : m.cpu.callStack = f :: a.cpu.callStack := hframes.trans hf
    exact ⟨a, b, f, hreach, hcall, hf, hbal, htracks.return_rip hret hstack⟩
  · intro m' hbal
    exact ⟨rsp_eq_of_balanced hbal, StackSystem.Balanced.frames_eq hbal⟩

/-- CALL to the next instruction, at 0x1000, with the stack at 0x8000. -/
def callNext : Machine where
  cpu := { ctx := { gpr := Function.update (fun _ => 0) Reg.RSP 0x8000, rip := 0x1000 } }
  mem :=
    { bytes := ByteStore.write (fun _ => 0x90) 0x1000 [0xE8, 0x00, 0x00, 0x00, 0x00]
      readable := fun _ _ => true
      writable := fun _ _ => true }

theorem callNext_calls : ∃ m, Calls callNext m ∧ m.trackedReturns = [0x1005] := by
  have hdec : Decodes callNext (codeBuf callNext.mem 0x1000 32) { off := 1, opcode := 0xE8 } :=
    ⟨by decide, rfl, rfl, rfl⟩
  refine ⟨_, ⟨⟨_, _, hdec, Or.inl rfl⟩, by decide, _, rfl, rfl, rfl⟩, rfl⟩

/-- The address behind the CALL of `callNext` is tracked and lies on the guest stack. -/
theorem callStack_run_callNext : ∃ m, callSystem.Run callNext m ∧ m.trackedReturns = [0x1005] ∧
    m.trackedReturns = (List.range m.cpu.callStack.length).map m.stackWord := by
  obtain ⟨m, hcall, hret⟩ := callNext_calls
  have hrun : callSystem.Run callNext m := Relation.ReflTransGen.single (Or.inl hcall)
  exact ⟨m, hrun, hret, (callStack_run rfl hrun).1⟩

end Cpu
