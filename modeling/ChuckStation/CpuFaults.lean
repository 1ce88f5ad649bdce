/-
# Faulting steps

Which steps that return `StepResult::Fault` leave the guest as it was.

PUSH, POP and RET check the access first and fault in place; so do the null check and
the fetch.  ADD and MOV on memory, both CALL forms and the divisions move `RIP` first and
then fault: `LateFault` lists their faulting inputs.
-/
import ChuckStation.CpuEffects

namespace Cpu

open Guest GuestMemory

/-! ## Advancing -/

/-- An instruction has at least one byte and far fewer than `2 ^ 64`. -/
theorem rip_advance_ne (rip : U64) {n : ℕ} (hpos : 0 < n) (hlt : n < 2 ^ 64) :
    rip + BitVec.ofNat 64 n ≠ rip := by
  intro h
  have hn : (BitVec.ofNat 64 n).toNat = n := by rw [BitVec.toNat_ofNat, Nat.mod_eq_of_lt hlt]
  have hz : BitVec.ofNat 64 n = 0#64 := by
    calc BitVec.ofNat 64 n = rip + BitVec.ofNat 64 n - rip := by
          rw [BitVec.add_comm, BitVec.add_sub_cancel]
      _ = 0#64 := by rw [h, BitVec.sub_self]
  rw [hz, BitVec.toNat_zero] at hn
  omega

theorem dispField_size_le (ip : ℕ → Byte) (off mod : ℕ) : (dispField ip off mod).2 ≤ 4 := by
  unfold dispField
  split_ifs <;> simp

theorem addDispField_size_le (ip : ℕ → Byte) (off mod : ℕ) : (addDispField ip off mod).2 ≤ 4 := by
  unfold addDispField
  split_ifs <;> simp

section

variable (ip : ℕ → Byte) (p : Prefixes) (g : Guest)

theorem addDecoded_rip : (addDecoded ip p g).rip = g.ctx.rip +
    BitVec.ofNat 64 (p.off + 1 + (addDispField ip (p.off + 1) (modOf (ip p.off))).2) := by
  rw [BitVec.ofNat_add, ← BitVec.add_assoc]
  rfl

theorem movDecoded_rip : (movDecoded ip p g).rip = g.ctx.rip +
    BitVec.ofNat 64 (p.off + 1 + (dispField ip (p.off + 1) (modOf (ip p.off))).2) := by
  rw [BitVec.ofNat_add, ← BitVec.add_assoc]
  rfl

end

/-! ## Late faults -/

/-- The case faults after it has moved `RIP`. -/
def LateFault (c : OpCase) (ip : ℕ → Byte) (p : Prefixes) (g : Guest) : Prop :=
  match c with
  | .add => modOf (ip p.off) ≠ 3 ∧ g.mem.readable (addAddress ip p g) 8 = false
  | .movStore => modOf (ip p.off) ≠ 3 ∧ g.mem.writable (movAddress ip p g) (movWidth p) = false
  | .movLoad => modOf (ip p.off) ≠ 3 ∧ g.mem.readable (movAddress ip p g) (movWidth p) = false
  | .callRel32 => g.mem.writable (g.ctx.gpr Reg.RSP - 8) 8 = false
  | .groupFF => modOf (ip p.off) = 3 ∧ extOf (ip p.off) = 2 ∧
      g.mem.writable (g.ctx.gpr Reg.RSP - 8) 8 = false
  | .groupF7 => modOf (ip p.off) = 3 ∧ (extOf (ip p.off) = 6 ∨ extOf (ip p.off) = 7) ∧
      g.ctx.gpr (rmField (ip p.off) p) = 0
  | _ => False

/-- The stack access of PUSH, POP or RET is refused; these check it before anything else. -/
def StackRefused (c : OpCase) (g : Guest) : Prop :=
  match c with
  | .push => g.mem.writable (g.ctx.gpr Reg.RSP - 8) 8 = false
  | .pop | .ret | .retImm16 => g.mem.readable (g.ctx.gpr Reg.RSP) 8 = false
  | _ => False

section Switch

variable {ip : ℕ → Byte} {p : Prefixes} {g : Guest} {c : OpCase} {e : CaseExit}

/-- A late fault leaves everything but `RIP` alone, and `RIP` behind the bytes decoded. -/
theorem execCase_of_lateFault (h : LateFault c ip p g) :
    ∃ ctx n, execCase c ip p g = .ok (g.withCtx ctx).fault ∧
      ctx.rip = g.ctx.rip + BitVec.ofNat 64 n ∧ p.off ≤ n ∧ n ≤ p.off + 5 := by
  cases c with
  | add =>
      have hle := addDispField_size_le ip (p.off + 1) (modOf (ip p.off))
      exact ⟨_, _, execAdd_mem_fault ip p g h.1 h.2, addDecoded_rip ip p g, by omega, by omega⟩
  | movStore =>
      have hle := dispField_size_le ip (p.off + 1) (modOf (ip p.off))
      exact ⟨_, _, congrArg Except.ok (execMovStore_mem_fault ip p g h.1 h.2),
        movDecoded_rip ip p g, by omega, by omega⟩
  | movLoad =>
      have hle := dispField_size_le ip (p.off + 1) (modOf (ip p.off))
      exact ⟨_, _, congrArg Except.ok (execMovLoad_mem_fault ip p g h.1 h.2),
        movDecoded_rip ip p g, by omega, by omega⟩
  | callRel32 =>
      exact ⟨g.ctx.advance (p.off + 4), p.off + 4, congrArg Except.ok (callTo_fault g h), rfl,
        by omega, by omega⟩
  | groupFF =>
      obtain ⟨hmod, hext, hw⟩ := h
      have hcall : execGroupFF ip p g = (g.withCtx (g.ctx.advance (p.off + 1))).fault := by
        rw [execGroupFF_call ip p g hmod hext]
        exact callTo_fault g hw
      exact ⟨_, p.off + 1, congrArg Except.ok hcall, rfl, by omega, by omega⟩
  | groupF7 =>
      exact ⟨_, p.off + 1, execCase_of_dividesByZero ⟨rfl, h⟩, rfl, by omega, by omega⟩
  | nop | lahf | sahf | push | pop | xchg | movImm | group83 | group81 | or | and | sub | xor
  | test | testRaxImm | jmpRel8 | jmpRel32 | jccRel8 | ret | retImm16 | int | twoByte | hlt
  | cmpRM | cmpMR | lea | movImmC7 | shift | imulImm | default => exact h.elim

theorem execCase_of_stackRefused (h : StackRefused c g) : execCase c ip p g = .ok g.fault := by
  cases c with
  | push => exact congrArg Except.ok (execPush_fault p g h)
  | pop => exact congrArg Except.ok (execPop_fault p g h)
  | ret | retImm16 => exact congrArg Except.ok (returnWith_fault g h)
  | nop | lahf | sahf | xchg | movImm | group83 | group81 | add | or | and | sub | xor | test
  | testRaxImm | movStore | movLoad | jmpRel8 | jmpRel32 | jccRel8 | callRel32 | int | twoByte
  | hlt | cmpRM | cmpMR | lea | movImmC7 | shift | groupFF | groupF7 | imulImm | default =>
      exact h.elim

/-- A case faults late or over the stack. -/
theorem execCase_fault_cases (he : execCase c ip p g = .ok e) (hf : e.result = .Fault) :
    LateFault c ip p g ∨ StackRefused c g := by
  refine or_iff_not_imp_left.mpr fun hl => ?_
  have hz : ¬ DividesByZero c ip p g := by
    rintro ⟨rfl, hdiv⟩
    exact hl hdiv
  by_cases ht : TouchesMemory c ip p
  swap
  · exact absurd hf (execCase_registerOnly ht hz he).result_ne
  -- the stack and memory forms: the access succeeds, or it is one of the stack's
  cases c with
  | push =>
      cases hw : g.mem.writable (g.ctx.gpr Reg.RSP - 8) 8 with
      | true =>
          obtain ⟨mem, hok⟩ := execPush_ok p g hw
          rw [execCase, hok] at he
          cases he
          cases hf
      | false => exact hw
  | pop =>
      cases hr : g.mem.readable (g.ctx.gpr Reg.RSP) 8 with
      | true =>
          obtain ⟨ctx, hok, -⟩ := execPop_ok p g hr
          rw [execCase, hok] at he
          cases he
          cases hf
      | false => exact hr
  | ret | retImm16 =>
      cases hr : g.mem.readable (g.ctx.gpr Reg.RSP) 8 with
      | true =>
          simp only [execCase, execRet, execRetImm16, returnWith_ok g hr] at he
          cases he
          cases hf
      | false => exact hr
  | callRel32 =>
      have hw : g.mem.writable (g.ctx.gpr Reg.RSP - 8) 8 = true := by simpa [LateFault] using hl
      simp only [execCase, execCallRel32, callTo_ok g (g.ctx.advance (p.off + 4)) hw] at he
      cases he
      cases hf
  | groupFF =>
      have hw : g.mem.writable (g.ctx.gpr Reg.RSP - 8) 8 = true := by
        simpa [LateFault, ht.1, ht.2] using hl
      have hcall : execGroupFF ip p g = _ := (execGroupFF_call ip p g ht.1 ht.2).trans
        (callTo_ok g (g.ctx.advance (p.off + 1)) hw)
      rw [execCase, hcall] at he
      cases he
      cases hf
  | add =>
      have hr : g.mem.readable (addAddress ip p g) 8 = true := by
        simpa [LateFault, show modOf (ip p.off) ≠ 3 from ht] using hl
      obtain ⟨ctx, hok, -⟩ := execAdd_mem_ok ip p g ht hr
      rw [execCase, hok] at he
      cases he
      cases hf
  | movStore =>
      have hw : g.mem.writable (movAddress ip p g) (movWidth p) = true := by
        simpa [LateFault, show modOf (ip p.off) ≠ 3 from ht] using hl
      obtain ⟨mem, hok⟩ := execMovStore_mem_ok ip p g ht hw
      rw [execCase, hok] at he
      cases he
      cases hf
  | movLoad =>
      have hr : g.mem.readable (movAddress ip p g) (movWidth p) = true := by
        simpa [LateFault, show modOf (ip p.off) ≠ 3 from ht] using hl
      obtain ⟨ctx, hok, -⟩ := execMovLoad_mem_ok ip p g ht hr
      rw [execCase, hok] at he
      cases he
      cases hf
  | nop | lahf | sahf | xchg | movImm | group83 | group81 | or | and | sub | xor | test
  | testRaxImm | jmpRel8 | jmpRel32 | jccRel8 | int | twoByte | hlt | cmpRM | cmpMR | lea
  | movImmC7 | shift | groupF7 | imulImm | default => exact absurd ht id

/-- Every other fault leaves the guest as it was. -/
theorem execCase_fault_guest (hl : ¬ LateFault c ip p g) (he : execCase c ip p g = .ok e)
    (hf : e.result = .Fault) : e.guest = g := by
  rcases execCase_fault_cases he hf with hlate | hrefused
  · exact absurd hlate hl
  · rw [execCase_of_stackRefused hrefused] at he
    cases he
    rfl

end Switch

/-! ## Fault atomicity -/

/-- Registers, flags, tracked call stack and memory are those of `m`. -/
structure SameGuestState (m m' : Machine) : Prop where
  gpr_eq : m'.cpu.ctx.gpr = m.cpu.ctx.gpr
  rip_eq : m'.cpu.ctx.rip = m.cpu.ctx.rip
  rflags_eq : m'.cpu.ctx.rflags = m.cpu.ctx.rflags
  callStack_eq : m'.cpu.callStack = m.cpu.callStack
  mem_eq : m'.mem = m.mem

theorem SameGuestState.of_guest_eq {m m' : Machine} (h : m'.guest = m.guest) :
    SameGuestState m m' := by
  have hctx : m'.cpu.ctx = m.cpu.ctx := congrArg Guest.ctx h
  exact ⟨by rw [hctx], by rw [hctx], by rw [hctx], congrArg Guest.callStack h,
    congrArg Guest.mem h⟩

/-- A step from `m` that faults leaves the guest as it was. -/
def FaultAtomic (m : Machine) : Prop :=
  ∀ out, executeOne m = .ok out → out.result = .Fault → SameGuestState m out.machine

/-- The step from `m` reaches the switch and faults there after it has moved `RIP`. -/
def FaultsLate (m : Machine) : Prop :=
  ∃ ip p, Decodes m ip p ∧ LateFault (opCase p.opcode) ip p m.guest

/-- A step that does not fault late and returns `Fault` changes nothing. -/
theorem same_of_not_faultsLate {m : Machine} (h : ¬ FaultsLate m) {out : StepOutcome}
    (hout : executeOne m = .ok out) (hf : out.result = .Fault) : SameGuestState m out.machine := by
  rcases executeOne_cases hout with ⟨-, rfl⟩ | ⟨-, rfl⟩ | ⟨ip, p, e, hd, he, rfl⟩
  · exact SameGuestState.of_guest_eq rfl
  · cases hf
  · have hl : ¬ LateFault (opCase p.opcode) ip p m.guest := fun hl => h ⟨ip, p, hd, hl⟩
    apply SameGuestState.of_guest_eq
    rw [Machine.finish_guest]
    exact execCase_fault_guest hl he hf

/-- A late fault is reported with `RIP` behind the instruction it is about. -/
theorem rip_ne_of_faultsLate {m : Machine} (h : FaultsLate m) :
    ∃ out, executeOne m = .ok out ∧ out.result = .Fault ∧
      out.machine.cpu.ctx.rip ≠ m.cpu.ctx.rip := by
  obtain ⟨ip, p, hd, hl⟩ := h
  obtain ⟨ctx, n, he, hrip, hlo, hhi⟩ := execCase_of_lateFault hl
  obtain ⟨hoff, hoff'⟩ := hd.off_bounds
  refine ⟨m.finish (m.guest.withCtx ctx).fault, executeOne_eq_finish hd he, rfl, ?_⟩
  · have hctx : (m.finish (m.guest.withCtx ctx).fault).machine.cpu.ctx = ctx :=
      Machine.finish_ctx _ _
    rw [hctx, hrip]
    exact rip_advance_ne _ (by omega) (by omega)

/-- MOV RAX, [RAX] at 0x1000, with nothing readable but the page of code. -/
def movLoadUnreadable : Machine where
  cpu := { ctx := { rip := 0x1000 } }
  mem :=
    { bytes := ByteStore.write (fun _ => 0x90) 0x1000 [0x48, 0x8B, 0x00]
      readable := fun addr _ => addr = 0x1000
      writable := fun _ _ => false }

end Cpu
