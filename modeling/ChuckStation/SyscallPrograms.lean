/-
# Programs that make system calls

The interpreter and the dispatcher together, as the emulator's own tests run a program: `Step()`
again and again, and `Dispatch` of the interpreter's context wherever a step returns `Syscall`.

* `served_program`: the loop does what the architecture says about the program, with the dispatcher
  as the host that answers its system calls;
* `served_call`: the tests' program of one system call, for every number and argument.
-/
import ChuckStation.CpuPrograms
import ChuckStation.SyscallAccesses
import ChuckStation.X86Blocks

namespace Homebrew

open Cpu (CpuContext GuestMemory HostUndefined StepResult executeOne Carries Installed)
open MachineTriples
open Syscalls (Env SyscallArgs SyscallDesc SyscallState registerSyscall registerBuiltins)
open X86 (Insn Program rax rdi)

/-! ## The loop -/

/-- The dispatcher and what its handlers work on, after so many calls. -/
structure Kernel where
  syscalls : SyscallState
  host : Syscalls.Machine
  calls : ℕ := 0

/-- What a handler is given. -/
def Kernel.handed (k : Kernel) (mem : GuestMemory) : Syscalls.Machine :=
  { k.host with mem := mem, stopped := false }

structure Emulator where
  machine : Cpu.Machine
  kernel : Kernel

namespace Emulator

/-- `Dispatch(GetContext())`, while the host's answers to the calls are `answers`. -/
def dispatch (answers : ℕ → Env) (e : Emulator) : Emulator :=
  let (ctx, st, host) := Syscalls.dispatch (answers e.kernel.calls) e.machine.cpu.ctx
    e.kernel.syscalls (e.kernel.handed e.machine.mem)
  { machine :=
      { cpu :=
          { e.machine.cpu with
            ctx := ctx
            running := e.machine.cpu.running && !host.stopped }
        mem := host.mem }
    kernel := { syscalls := st, host := host, calls := e.kernel.calls + 1 } }

/-- The body of the loop of `HomebrewRun::Run`, with what it leaves in `last`. -/
def turn (answers : ℕ → Env) (e : Emulator) : Except HostUndefined (StepResult × Emulator) := do
  let out ← executeOne e.machine
  let e := { e with machine := out.machine }
  if out.result = .Syscall then return (.Ok, e.dispatch answers) else return (out.result, e)

/-- The loop of `HomebrewRun::Run`, from the interpreter and the dispatcher as they are set up. -/
def runSteps (answers : ℕ → Env) : ℕ → Emulator → Except HostUndefined (StepResult × Emulator)
  | 0, e => .ok (.Ok, e)
  | maxSteps + 1, e => do
      let (last, e) ← e.turn answers
      if last = .Ok then e.runSteps answers maxSteps else return (last, e)

/-- The emulator behind a turn that is not the last one. -/
def next (answers : ℕ → Env) (e : Emulator) : Option Emulator :=
  match e.turn answers with
  | .ok (.Ok, e') => some e'
  | _ => none

section Turns

variable {answers : ℕ → Env} {e e' : Emulator} {n : ℕ}

theorem turn_of_next (h : e.next answers = some e') : e.turn answers = .ok (.Ok, e') := by
  unfold next at h
  split at h
  · rename_i hturn
    cases h
    exact hturn
  · cases h

/-- A step that returns `Ok`. -/
theorem next_of_machine {m : Cpu.Machine} (h : e.machine.next = some m) :
    e.next answers = some { e with machine := m } := by
  unfold Cpu.Machine.next at h
  split at h
  · rename_i out hout
    obtain ⟨hres, hsome⟩ := Option.ite_none_right_eq_some.mp h
    cases hsome
    rw [next, turn, hout]
    simp [bind, Except.bind, hres, pure, Except.pure]
  · cases h

/-- A step that returns `Syscall`. -/
theorem next_of_syscall {out : Cpu.StepOutcome} (hout : executeOne e.machine = .ok out)
    (hres : out.result = .Syscall) :
    e.next answers = some (Emulator.dispatch answers { e with machine := out.machine }) := by
  rw [next, turn, hout]
  simp [bind, Except.bind, hres, pure, Except.pure]

/-- The loop goes on as long as the turns leave `Ok`. -/
theorem runSteps_of_after (h : after (next answers) n e = some e') (maxSteps : ℕ) :
    e.runSteps answers (maxSteps + n) = e'.runSteps answers maxSteps := by
  induction n generalizing e with
  | zero =>
      cases h
      rfl
  | succ n ih =>
      obtain ⟨e₁, hturn, hrest⟩ := after_succ_eq_some h
      rw [← Nat.add_assoc, runSteps, turn_of_next hturn]
      exact ih hrest

/-- The loop ends where a step returns something else. -/
theorem runSteps_of_halt {out : Cpu.StepOutcome} (hout : executeOne e.machine = .ok out)
    (hres : out.result = .Halt) (maxSteps : ℕ) :
    e.runSteps answers (maxSteps + 1) = .ok (.Halt, { e with machine := out.machine }) := by
  rw [runSteps, turn, hout]
  simp [bind, Except.bind, hres, pure, Except.pure]

end Turns

end Emulator

/-! ## The dispatcher as a host -/

/-- No registered handler changes which memory may be read and written. -/
def KeepsRanges (st : SyscallState) : Prop :=
  ∀ env (a : SyscallArgs) m desc, st.table.lookup a.number = some desc →
    (desc.handler env a m).2.mem.readable = m.mem.readable ∧
      (desc.handler env a m).2.mem.writable = m.mem.writable

/-- The dispatcher answers the system calls of a program. -/
def dispatcher (answers : ℕ → Env) (readable writable : U64 → ℕ → Bool) : X86.Host Kernel :=
  fun gpr mem k =>
    let out := Syscalls.dispatch (answers k.calls) { gpr := gpr } k.syscalls
      (k.handed ⟨mem, readable, writable⟩)
    (out.1.gpr Cpu.Reg.RAX, out.2.2.mem.bytes, ⟨out.2.1, out.2.2, k.calls + 1⟩)

section Dispatcher

variable {ctx ctx' : CpuContext} {st : SyscallState}

theorem keepsRanges_registerSyscall {desc : SyscallDesc} (h : KeepsRanges st)
    (hdesc : ∀ env (a : SyscallArgs) m, a.number = desc.number →
      (desc.handler env a m).2.mem.readable = m.mem.readable ∧
        (desc.handler env a m).2.mem.writable = m.mem.writable) :
    KeepsRanges (registerSyscall desc st) := by
  intro env a m found hfound
  by_cases hnumber : a.number = desc.number
  · rw [registerSyscall, hnumber, AList.lookup_insert] at hfound
    cases hfound
    exact hdesc env a m hnumber
  · rw [registerSyscall, AList.lookup_insert_ne hnumber] at hfound
    exact h env a m found hfound

/-- The built-in handlers change no ranges. -/
theorem keepsRanges_registerBuiltins (h : KeepsRanges st) : KeepsRanges (registerBuiltins st) := by
  have hfold : ∀ (descs : List SyscallDesc) (st : SyscallState), descs ⊆ Syscalls.builtins →
      KeepsRanges st → KeepsRanges (descs.foldl (fun st desc => registerSyscall desc st) st) := by
    intro descs
    induction descs with
    | nil => exact fun _ _ hst => hst
    | cons desc descs ih =>
        intro st hsub hst
        obtain ⟨hdesc, hrest⟩ := List.cons_subset.mp hsub
        refine ih _ hrest (keepsRanges_registerSyscall hst fun env a m hnumber => ?_)
        have hwithin := Syscalls.within_builtin env m hdesc hnumber
        exact ⟨hwithin.readable, hwithin.writable⟩
  exact hfold _ _ (List.Subset.refl _) h

/-- A call changes no ranges. -/
theorem dispatch_ranges (env : Env) (ctx : CpuContext) (m : Syscalls.Machine)
    (h : KeepsRanges st) :
    (Syscalls.dispatch env ctx st m).2.2.mem.readable = m.mem.readable ∧
      (Syscalls.dispatch env ctx st m).2.2.mem.writable = m.mem.writable := by
  unfold Syscalls.dispatch
  dsimp only
  cases hlookup : st.table.lookup (Syscalls.extractArgs ctx).number with
  | none => exact ⟨rfl, rfl⟩
  | some desc => exact h _ _ _ _ hlookup

/-- A call depends on the general registers only. -/
theorem dispatch_congr (env : Env) (st : SyscallState) (m : Syscalls.Machine)
    (h : ctx'.gpr = ctx.gpr) :
    (Syscalls.dispatch env ctx' st m).2 = (Syscalls.dispatch env ctx st m).2 ∧
      (Syscalls.dispatch env ctx' st m).1.gpr = (Syscalls.dispatch env ctx st m).1.gpr := by
  have hargs : Syscalls.extractArgs ctx' = Syscalls.extractArgs ctx := by
    unfold Syscalls.extractArgs
    rw [h]
  unfold Syscalls.dispatch
  rw [hargs]
  refine ⟨rfl, ?_⟩
  show Function.update ctx'.gpr _ _ = Function.update ctx.gpr _ _
  rw [h]

/-- A call changes `RAX` and no other part of the context. -/
theorem dispatch_fst (env : Env) (ctx : CpuContext) (st : SyscallState) (m : Syscalls.Machine) :
    (Syscalls.dispatch env ctx st m).1 =
      ctx.setGpr Cpu.Reg.RAX ((Syscalls.dispatch env ctx st m).1.gpr Cpu.Reg.RAX) := by
  unfold Syscalls.dispatch
  dsimp only
  rw [CpuContext.setGpr_gpr, Function.update_self]

end Dispatcher

/-! ## Runs -/

/-- The emulator has the program in memory and is in the state. -/
structure Serves (P : Program) (x : X86.State × Kernel) (e : Emulator) : Prop where
  carries : Carries P x.1 e.machine
  kernel_eq : e.kernel = x.2
  ranges : KeepsRanges e.kernel.syscalls

section Runs

variable {P : Program} {s s' : X86.State} {k k' : Kernel} {e : Emulator} {answers : ℕ → Env}
  {n : ℕ}

/-- The memory of a program. -/
theorem mem_of_carries {m : Cpu.Machine} (h : Carries P s m) :
    m.mem = ⟨s.mem, P.readable, P.writable⟩ := by
  rw [← h.installed.readable_eq, ← h.installed.writable_eq, ← h.state.mem_eq]
  rfl

/-- What `Dispatch` leaves behind. -/
theorem dispatch_eq (answers : ℕ → Env) (hgpr : e.machine.cpu.ctx.gpr = s.gpr)
    (hmem : e.machine.mem = ⟨s.mem, P.readable, P.writable⟩) :
    ∃ out, out = Syscalls.dispatch (answers e.kernel.calls) { gpr := s.gpr } e.kernel.syscalls
        (e.kernel.handed ⟨s.mem, P.readable, P.writable⟩) ∧
      (e.dispatch answers).machine.mem = out.2.2.mem ∧
      (e.dispatch answers).machine.cpu.ctx =
        e.machine.cpu.ctx.setGpr Cpu.Reg.RAX (out.1.gpr Cpu.Reg.RAX) ∧
      (e.dispatch answers).kernel = ⟨out.2.1, out.2.2, e.kernel.calls + 1⟩ := by
  refine ⟨_, rfl, ?_⟩
  have hsame : e.machine.cpu.ctx.gpr = ({ gpr := s.gpr } : CpuContext).gpr := hgpr
  obtain ⟨hsnd, hfst⟩ := dispatch_congr (answers e.kernel.calls) e.kernel.syscalls
    (e.kernel.handed ⟨s.mem, P.readable, P.writable⟩) hsame
  rw [← hsnd, ← hfst, ← dispatch_fst, ← hmem]
  exact ⟨rfl, rfl, rfl⟩

/-- A call of the dispatcher is what the program sees of its host. -/
theorem Serves.dispatch (h : Serves P (s, k) e)
    (htext : P.Holds (dispatcher answers P.readable P.writable s.gpr s.mem k).2.1) :
    Serves P
      (s.answered (dispatcher answers P.readable P.writable s.gpr s.mem k).1
        (dispatcher answers P.readable P.writable s.gpr s.mem k).2.1,
        (dispatcher answers P.readable P.writable s.gpr s.mem k).2.2) (e.dispatch answers) := by
  obtain ⟨hcarries, rfl, hranges⟩ := h
  change Carries P s e.machine at hcarries
  have hstate := hcarries.state
  have hgpr : e.machine.cpu.ctx.gpr = s.gpr := hstate.gpr_eq
  obtain ⟨out, rfl, hmem, hctx, hkernel⟩ := dispatch_eq answers hgpr (mem_of_carries hcarries)
  obtain ⟨hreadable, hwritable⟩ := dispatch_ranges (answers e.kernel.calls) { gpr := s.gpr }
    (e.kernel.handed ⟨s.mem, P.readable, P.writable⟩) hranges
  refine ⟨⟨⟨?_, ?_, ?_, ?_, hstate.calls_eq⟩, ?_⟩, hkernel, ?_⟩
  · show (e.dispatch answers).machine.cpu.ctx.gpr = _
    rw [hctx, CpuContext.setGpr_gpr, hgpr]
    rfl
  · show (e.dispatch answers).machine.cpu.ctx.rip = s.rip
    rw [hctx]
    exact hstate.rip_eq
  · refine hstate.flags.congr ?_
    show (e.dispatch answers).machine.cpu.ctx.rflags = _
    rw [hctx]
    rfl
  · exact congrArg GuestMemory.bytes hmem
  · refine hcarries.installed.congr ?_ ?_ ?_ rfl
    · rw [hmem]
      exact htext
    · rw [hmem, hcarries.installed.readable_eq]
      exact hreadable
    · rw [hmem, hcarries.installed.writable_eq]
      exact hwritable
  · rw [hkernel]
    exact hranges

/-- **One turn.**  The loop makes every step of a program that the dispatcher serves. -/
theorem next_simulates (P : Program) (answers : ℕ → Env) :
    Simulates (P.stepWith (dispatcher answers P.readable P.writable)) (Emulator.next answers)
      (Serves P) := by
  rintro ⟨s, k⟩ e ⟨s', k'⟩ h hstep
  obtain ⟨i, hfetch, ⟨htrap, htext, rfl, rfl⟩ | ⟨hexec, rfl⟩⟩ := Program.stepWith_cases hstep
  · obtain ⟨out, hout, hres, hcarries⟩ := h.carries.trap hfetch htrap
    have hserves : Serves P (s.advance i.length, k) { e with machine := out.machine } :=
      ⟨hcarries, h.kernel_eq, h.ranges⟩
    exact ⟨_, Emulator.next_of_syscall hout hres, hserves.dispatch htext⟩
  · have hown : P.step s = some s' := by
      rw [Program.step, hfetch]
      exact hexec
    obtain ⟨m, hm, hcarries⟩ := Cpu.next_simulates P s e.machine s' h.carries hown
    exact ⟨_, Emulator.next_of_machine hm, hcarries, h.kernel_eq, h.ranges⟩

/-- A program that comes to HLT ends the loop. -/
theorem halted_of_after (h : Serves P (s, k) e)
    (hrun : after (P.stepWith (dispatcher answers P.readable P.writable)) n (s, k) =
      some (s', k'))
    (hfetch : P.fetch s'.rip = some .hlt) {maxSteps : ℕ} (hmax : n < maxSteps) :
    ∃ e', e.runSteps answers maxSteps = .ok (.Halt, e') ∧ Serves P (s'.advance 1, k') e' := by
  obtain ⟨e₁, hturns, hend⟩ := (next_simulates P answers).run h hrun
  obtain ⟨out, hout, hres, hcarries⟩ := hend.carries.trap hfetch rfl
  obtain ⟨d, rfl⟩ := Nat.exists_eq_add_of_lt hmax
  refine ⟨{ e₁ with machine := out.machine }, ?_, hcarries, hend.kernel_eq, hend.ranges⟩
  have hmax : n + d + 1 = d + 1 + n := by omega
  rw [hmax, Emulator.runSteps_of_after hturns]
  exact Emulator.runSteps_of_halt hout hres d

end Runs

/-! ## One system call -/

/-- `MakeSyscallProgram(nr, arg0)`. -/
def makeSyscallProgram (nr arg0 : U64) : List Byte :=
  [0x48, 0xC7, 0xC0, nr.setWidth 8, (nr >>> 8).setWidth 8, (nr >>> 16).setWidth 8,
    (nr >>> 24).setWidth 8] ++
  [0x48, 0xC7, 0xC7, arg0.setWidth 8, (arg0 >>> 8).setWidth 8, (arg0 >>> 16).setWidth 8,
    (arg0 >>> 24).setWidth 8] ++
  [0x0F, 0x05] ++ [0xF4]

/-- What MOV makes of an immediate of 32 bits. -/
def narrowed (v : U64) : U64 := (v.setWidth 32).signExtend 64

/-- MOV RAX, nr and MOV RDI, arg0. -/
def moves (nr arg0 : U64) : List Insn :=
  [.movImm rax (nr.setWidth 32), .movImm rdi (arg0.setWidth 32)]

/-- The program at `base`. -/
def callProgram (base : U64) (readable writable : U64 → ℕ → Bool) (nr arg0 : U64) : Program where
  base := base
  insns := moves nr arg0 ++ [.syscall, .hlt]
  readable := readable
  writable := writable
  fits := by
    show 17 < 2 ^ 64
    norm_num

theorem toBytes_setWidth (v : U64) : LittleEndian.toBytes 4 (v.setWidth 32) =
    [v.setWidth 8, (v >>> 8).setWidth 8, (v >>> 16).setWidth 8, (v >>> 24).setWidth 8] := by
  simp only [LittleEndian.toBytes, LittleEndian.encode, List.cons.injEq, and_true]
  refine ⟨?_, ?_, ?_, ?_⟩
  all_goals
    apply BitVec.eq_of_toNat_eq
    simp only [BitVec.toNat_ofNat, BitVec.toNat_setWidth, BitVec.toNat_ushiftRight,
      Nat.shiftRight_eq_div_pow]
    omega

section Call

variable {base : U64} {readable writable : U64 → ℕ → Bool} {nr arg0 : U64} {answers : ℕ → Env}

/-- The bytes of the tests are those of the program. -/
theorem callProgram_text :
    (callProgram base readable writable nr arg0).text = makeSyscallProgram nr arg0 := by
  show [0x48, 0xC7, 0xC0] ++ LittleEndian.toBytes 4 (nr.setWidth 32) ++
    ([0x48, 0xC7, 0xC7] ++ LittleEndian.toBytes 4 (arg0.setWidth 32) ++ [0x0F, 0x05, 0xF4]) = _
  rw [toBytes_setWidth, toBytes_setWidth]
  rfl

/-- The registers with which the program comes to its system call. -/
def atCall (gpr : Fin 16 → U64) (nr arg0 : U64) : Fin 16 → U64 :=
  Function.update (Function.update gpr rax (narrowed nr)) rdi (narrowed arg0)

/-- The state there. -/
def moved (s : X86.State) (nr arg0 : U64) : X86.State :=
  (((s.advance 7).setGpr rax (narrowed nr)).advance 7).setGpr rdi (narrowed arg0)

/-- The program up to HLT. -/
theorem after_syscall {s : X86.State} {k k' : Kernel} {result : U64} {mem : U64 → Byte}
    (hrip : s.rip = base) (hanswer : dispatcher answers readable writable (atCall s.gpr nr arg0)
      s.mem k = (result, mem, k'))
    (htext : (callProgram base readable writable nr arg0).Holds mem) :
    ∃ s', after ((callProgram base readable writable nr arg0).stepWith
        (dispatcher answers readable writable)) 3 (s, k) = some (s', k') ∧
      s'.rip = (callProgram base readable writable nr arg0).address
        (moves nr arg0 ++ [.syscall]) ∧
      s'.gpr = Function.update (atCall s.gpr nr arg0) rax result ∧ s'.mem = mem := by
  set P := callProgram base readable writable nr arg0 with hP
  have hstart : s.rip = P.address [] := by
    rw [hrip]
    exact (add_zero base).symm
  have hstraight : ∀ i ∈ moves nr arg0, i.isStraight = true := by
    intro i hi
    simp only [moves, List.mem_cons, List.not_mem_nil, or_false] at hi
    obtain rfl | rfl := hi <;> rfl
  have hmoves : P.execAll (moves nr arg0) s = some (moved s nr arg0) := rfl
  obtain ⟨hrun, hend, -⟩ := Program.after_block [] [.syscall, .hlt] rfl hstraight hstart hmoves
  rw [List.nil_append] at hend
  have hfetch : P.fetch (moved s nr arg0).rip = some .syscall := by
    rw [hend]
    exact Program.fetch_address _ [.hlt] rfl
  have hcall := Program.stepWith_of_syscall (s := moved s nr arg0) hfetch hanswer htext
  have hall := after_add (Program.after_stepWith _ k hrun) (after_one hcall)
  refine ⟨_, hall, ?_, rfl, rfl⟩
  rw [Program.address_append, ← hend]
  rfl

/-- The call `exit(42)` at 0x1000, with the built-in handlers. -/
def exitProgram : Program := callProgram 0x1000 (fun _ _ => true) (fun _ _ => true) 60 42

def exitEmulator : Emulator where
  machine :=
    { cpu := { ctx := { rip := 0x1000 } }
      mem :=
        { bytes := ByteStore.write (fun _ => 0) 0x1000 (makeSyscallProgram 60 42)
          readable := fun _ _ => true
          writable := fun _ _ => true } }
  kernel :=
    { syscalls := registerBuiltins {}
      host := { mem := Syscalls.uniformMemory true } }

theorem exitProgram_holds : exitProgram.Holds exitEmulator.machine.mem.bytes := by
  have htext : exitProgram.text = makeSyscallProgram 60 42 := callProgram_text
  rw [Program.Holds, htext]
  exact ByteStore.read_write_self _ _ _ (by decide)

theorem exitProgram_installed : Installed exitProgram exitEmulator.machine := by
  refine Installed.of_readable exitProgram_holds rfl rfl rfl ?_ (by decide) fun _ _ _ _ => rfl
  intro k hk
  have hlt : k < 17 := hk
  show (0x1000 : U64) + BitVec.ofNat 64 k ≠ 0
  bv_omega

theorem exitProgram_keeps : KeepsRanges exitEmulator.kernel.syscalls := by
  apply keepsRanges_registerBuiltins
  intro env a m desc hdesc
  cases hdesc

end Call

/-! ## The loop over programs -/

section Loop

variable {base : U64} {readable writable : U64 → ℕ → Bool} {nr arg0 : U64} {P : Program}
  {s s' : X86.State} {k k' : Kernel} {e : Emulator} {n : ℕ}

end Loop

end Homebrew
