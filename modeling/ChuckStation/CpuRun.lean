/-
# Running past breakpoints

`Run()` and `Step()` as a debugging session uses them: a call runs until it returns, and
whenever a breakpoint of the table stops it the session resumes with another call
(`StepInto` is `Step()`; `Continue` leads back to `Run()`).

`ExecuteOne` checks the table before it executes, and a resume does not move `RIP`: the
same breakpoint stops it again.  A session therefore shows what the plain run shows up
to its first breakpoint and nothing behind it.
-/
import ChuckStation.CpuStep
import ChuckStation.Traces

namespace Cpu

open Traces

/-! ## Sessions -/

/-- The two calls that execute guest code. -/
inductive Call where
  | step
  | run
  deriving DecidableEq, Repr

/-- What a call does before its first instruction. -/
def CpuState.enter (st : CpuState) : Call → CpuState
  | .step => st
  | .run => { st with running := true, paused := false }

/-- What a call does before it returns. -/
def CpuState.leave (st : CpuState) : Call → CpuState
  | .step => st
  | .run => { st with running := false }

/-- A session in the middle of a call, after `resumed` resumes. -/
structure Session where
  machine : Machine
  call : Call
  resumed : ℕ

namespace Session

/-- A session that begins with `Run()`. -/
def start (m : Machine) : Session := ⟨{ m with cpu := m.cpu.enter .run }, .run, 0⟩

/-- The call in progress returns with `m`, and the next one begins. -/
def resume (resumes : ℕ → Call) (s : Session) (m : Machine) : Session :=
  { machine := { m with cpu := (m.cpu.leave s.call).enter (resumes s.resumed) }
    call := resumes s.resumed
    resumed := s.resumed + 1 }

/-- The call in progress has executed an instruction (or, in `Run()`, skipped one). -/
def proceed (resumes : ℕ → Call) (s : Session) (m : Machine) : Session :=
  match s.call with
  | .step => s.resume resumes m
  | .run => { s with machine := m }

end Session

/-- `++st.ctx.rip`, how `Run()` skips an instruction that is not implemented. -/
def Machine.skip (m : Machine) : Machine := { m with cpu.ctx := m.cpu.ctx.advance 1 }

/-- The step from `m` stops at a breakpoint of the table. -/
def Machine.stops (m : Machine) : Bool :=
  m.cpu.ctx.rip != 0 && (fetch m.mem m.cpu.ctx.rip).isSome && m.hitsBreakpoint

/-- One `ExecuteOne` of a session: the context behind an executed instruction, if one was
executed, and how the session goes on, if it does. -/
def iterate (resumes : ℕ → Call) (s : Session) : Option CpuContext × Option Session :=
  match executeOne s.machine with
  | .error _ => (none, none)
  | .ok out =>
      if s.machine.stops then (none, some (s.resume resumes out.machine))
      else
        match out.result with
        | .Ok => (some out.machine.cpu.ctx, some (s.proceed resumes out.machine))
        | .Unimplemented =>
            match s.call with
            | .step => (none, some (s.resume resumes out.machine))
            | .run => (none, some (s.proceed resumes out.machine.skip))
        | .Fault => (none, none)
        | .Breakpoint | .Syscall | .Halt | .Exit => (some out.machine.cpu.ctx, none)

/-! ## Machines that differ in the table only -/

/-- The same guest under another interpreter state. -/
structure SameGuest (m m' : Machine) : Prop where
  guest_eq : m'.guest = m.guest

namespace SameGuest

variable {m m' : Machine}

theorem ctx_eq (h : SameGuest m m') : m'.cpu.ctx = m.cpu.ctx := congrArg Guest.ctx h.guest_eq

theorem callStack_eq (h : SameGuest m m') : m'.cpu.callStack = m.cpu.callStack :=
  congrArg Guest.callStack h.guest_eq

theorem mem_eq (h : SameGuest m m') : m'.mem = m.mem := congrArg Guest.mem h.guest_eq

theorem fetchFaults_iff (h : SameGuest m m') : FetchFaults m' ↔ FetchFaults m := by
  rw [FetchFaults, FetchFaults, h.ctx_eq, h.mem_eq]

theorem skip (h : SameGuest m m') : SameGuest m.skip m'.skip := by
  have hctx := h.ctx_eq
  have hcs := h.callStack_eq
  have hmem := h.mem_eq
  constructor
  simp only [Machine.guest, Machine.skip, hctx, hcs, hmem]

end SameGuest

theorem stops_iff (m : Machine) : m.stops = true ↔ StopsAtBreakpoint m := by
  simp only [Machine.stops, StopsAtBreakpoint, FetchFaults, Machine.hitsBreakpoint_eq,
    Bool.and_eq_true, bne_iff_ne, not_or, Option.isSome_iff_ne_none]

/-- Without a breakpoint in the way, a step does not depend on the table. -/
theorem executeOne_sameGuest {m m' : Machine} (h : SameGuest m m') (hm : ¬ StopsAtBreakpoint m)
    (hm' : ¬ StopsAtBreakpoint m') :
    (∃ u, executeOne m = .error u ∧ executeOne m' = .error u) ∨
    ∃ out out', executeOne m = .ok out ∧ executeOne m' = .ok out' ∧
      out'.result = out.result ∧ SameGuest out.machine out'.machine := by
  rcases fetchFaults_or_stops_or_decodes m with hf | hs | ⟨ip, p, hd⟩
  · exact Or.inr ⟨_, _, executeOne_of_fetchFaults hf,
      executeOne_of_fetchFaults (h.fetchFaults_iff.mpr hf), rfl, h⟩
  · exact absurd hs hm
  · have hnot : ¬ FetchFaults m := fun hf => not_decodes_of_fetchFaults hf hd
    have hbp : m'.cpu.isBreakpoint m'.cpu.ctx.rip = false := by
      by_contra hbp
      exact hm' ⟨fun hf => hnot (h.fetchFaults_iff.mp hf), by simpa using hbp⟩
    have hd' : Decodes m' ip p :=
      ⟨by rw [h.ctx_eq]; exact hd.rip_ne_zero, by rw [h.ctx_eq, h.mem_eq]; exact hd.fetch_eq,
        hbp, hd.scan_eq⟩
    rw [executeOne_of_decodes hd, executeOne_of_decodes hd', h.guest_eq]
    cases execCase (opCase p.opcode) ip p m.guest with
    | error u => exact Or.inl ⟨u, rfl, rfl⟩
    | ok e =>
        refine Or.inr ⟨_, _, rfl, rfl, rfl, ⟨?_⟩⟩
        rw [Machine.finish_guest, Machine.finish_guest]

/-! ## The session and the plain run in lockstep -/

/-- The table of a machine. -/
abbrev BpTable := AList (fun _ : U64 => U32)

/-- The plain session `p` without breakpoints and the session `s` with the table `bps` are
in the same guest state and in the same call. -/
structure Twin (bps : BpTable) (p s : Session) : Prop where
  guest : SameGuest p.machine s.machine
  call_eq : s.call = p.call
  resumed_eq : s.resumed = p.resumed
  plain : p.machine.cpu.bpByAddr = ∅
  table : s.machine.cpu.bpByAddr = bps

/-- The next instruction of the session can be fetched and has a breakpoint of `bps`. -/
def AtBreakpoint (bps : BpTable) (s : Session) : Prop :=
  ¬ FetchFaults s.machine ∧ (bps.lookup s.machine.cpu.ctx.rip).isSome = true

section Lockstep

variable {bps : BpTable} {p s : Session} {resumes : ℕ → Call}

@[simp] theorem enter_bpByAddr (st : CpuState) (c : Call) :
    (st.enter c).bpByAddr = st.bpByAddr := by
  cases c <;> rfl

@[simp] theorem leave_bpByAddr (st : CpuState) (c : Call) :
    (st.leave c).bpByAddr = st.bpByAddr := by
  cases c <;> rfl

theorem guest_leave_enter (m : Machine) (c d : Call) :
    ({ m with cpu := (m.cpu.leave c).enter d } : Machine).guest = m.guest := by
  cases c <;> cases d <;> rfl

theorem not_stops_of_empty {m : Machine} (h : m.cpu.bpByAddr = ∅) : ¬ StopsAtBreakpoint m := by
  rintro ⟨-, hbp⟩
  simp [CpuState.isBreakpoint, h] at hbp

theorem Twin.stops_iff (h : Twin bps p s) : StopsAtBreakpoint s.machine ↔ AtBreakpoint bps p := by
  rw [StopsAtBreakpoint, AtBreakpoint, h.guest.fetchFaults_iff, CpuState.isBreakpoint, h.table,
    h.guest.ctx_eq]

theorem Twin.resume (h : Twin bps p s) {m m' : Machine} (hg : SameGuest m m')
    (hm : m.cpu.bpByAddr = ∅) (hm' : m'.cpu.bpByAddr = bps) :
    Twin bps (p.resume resumes m) (s.resume resumes m') := by
  unfold Session.resume
  rw [h.call_eq, h.resumed_eq]
  refine ⟨⟨?_⟩, rfl, rfl, ?_, ?_⟩
  · dsimp only
    rw [guest_leave_enter, guest_leave_enter, hg.guest_eq]
  · simp [hm]
  · simp [hm']

theorem Twin.proceed (h : Twin bps p s) {m m' : Machine} (hg : SameGuest m m')
    (hm : m.cpu.bpByAddr = ∅) (hm' : m'.cpu.bpByAddr = bps) :
    Twin bps (p.proceed resumes m) (s.proceed resumes m') := by
  unfold Session.proceed
  rw [h.call_eq]
  cases p.call with
  | step => exact h.resume hg hm hm'
  | run => exact ⟨hg, rfl, h.resumed_eq, hm, hm'⟩

/-- Away from the breakpoints the two sessions do the same. -/
theorem Twin.iterate (h : Twin bps p s) (hB : ¬ AtBreakpoint bps p) :
    (iterate resumes s).1 = (iterate resumes p).1 ∧
      Option.Rel (Twin bps) (iterate resumes p).2 (iterate resumes s).2 := by
  have hp : ¬ StopsAtBreakpoint p.machine := not_stops_of_empty h.plain
  have hs : ¬ StopsAtBreakpoint s.machine := fun hs => hB (h.stops_iff.mp hs)
  unfold Cpu.iterate
  rcases executeOne_sameGuest h.guest hp hs with ⟨u, hu, hu'⟩ | ⟨out, out', hout, hout', hres, hg⟩
  · rw [hu, hu']
    exact ⟨rfl, .none⟩
  have hm := (executeOne_bpByAddr hout).trans h.plain
  have hm' := (executeOne_bpByAddr hout').trans h.table
  rw [hout, hout']
  simp only [if_neg (fun hstop => hp ((Cpu.stops_iff _).mp hstop)),
    if_neg (fun hstop => hs ((Cpu.stops_iff _).mp hstop)), hres, hg.ctx_eq, h.call_eq]
  cases out.result with
  | Ok => exact ⟨rfl, .some (h.proceed hg hm hm')⟩
  | Unimplemented =>
      cases p.call with
      | step => exact ⟨rfl, .some (h.resume hg hm hm')⟩
      | run => exact ⟨rfl, .some (h.proceed hg.skip hm hm')⟩
  | Fault | Breakpoint | Syscall | Halt | Exit => exact ⟨rfl, .none⟩

/-- A resume at a breakpoint stops at it again. -/
theorem trace_of_stops (hs : StopsAtBreakpoint s.machine) (n : ℕ) :
    trace (iterate resumes) n s = [] := by
  induction n generalizing s with
  | zero => rfl
  | succ n ih =>
      have hstop : s.machine.stops = true := (stops_iff _).mpr hs
      have hnext : iterate resumes s = (none, some (s.resume resumes
          { s.machine with cpu := s.machine.cpu.count .breakpointsHit })) := by
        unfold Cpu.iterate
        rw [executeOne_of_stops hs]
        exact if_pos hstop
      have hsnd := congrArg Prod.snd hnext
      rw [trace_succ_of_some hsnd, hnext, Option.toList_none, List.nil_append]
      apply ih
      obtain ⟨hfetch, hbp⟩ := hs
      have hguest : SameGuest s.machine (s.resume resumes
          { s.machine with cpu := s.machine.cpu.count .breakpointsHit }).machine := by
        constructor
        rw [Session.resume, guest_leave_enter]
        simp only [Machine.guest, CpuState.count_ctx, CpuState.count_callStack]
      refine ⟨fun hf => hfetch (hguest.fetchFaults_iff.mp hf), ?_⟩
      rw [CpuState.isBreakpoint, hguest.ctx_eq]
      simpa [Session.resume, CpuState.isBreakpoint] using hbp

theorem lockstep (bps : BpTable) (resumes : ℕ → Call) :
    Lockstep (iterate resumes) (iterate resumes) (Twin bps) (AtBreakpoint bps) where
  step _ _ h hB := h.iterate hB
  stuck _ _ h hB n := trace_of_stops (h.stops_iff.mpr hB) n

end Lockstep

/-! ## Transparency -/

/-- The machine without breakpoints. -/
def Machine.plain (m : Machine) : Machine := { m with cpu := m.cpu.clearBreakpoints }

/-- The session over `m` executes what the plain run of `m` executes. -/
def Transparent (resumes : ℕ → Call) (m : Machine) : Prop :=
  SameSequence (fun n => trace (iterate resumes) n (Session.start m))
    (fun n => trace (iterate resumes) n (Session.start m.plain))

/-- No instruction of the plain run is executed at or after one of the table's addresses. -/
def QuietFromBreakpoints (resumes : ℕ → Call) (m : Machine) : Prop :=
  SilentAfter (iterate resumes) (AtBreakpoint m.cpu.bpByAddr) (Session.start m.plain)

theorem twin_start (m : Machine) :
    Twin m.cpu.bpByAddr (Session.start m.plain) (Session.start m) :=
  ⟨⟨rfl⟩, rfl, rfl, rfl, rfl⟩

/-- **Breakpoint transparency, exactly.**  Whatever the resumes are, a session shows the
sequence of the plain run if and only if the plain run executes nothing at or after an
address with a breakpoint. -/
theorem transparent_iff (resumes : ℕ → Call) (m : Machine) :
    Transparent resumes m ↔ QuietFromBreakpoints resumes m :=
  sameSequence_iff_of_lockstep (lockstep m.cpu.bpByAddr resumes) (twin_start m)

/-- NOPs at 0x1000, with a breakpoint on the first one. -/
def nopBreakpoint : Machine where
  cpu := (({ ctx := { rip := 0x1000 } } : CpuState).addBreakpoint 0x1000 "").2
  mem := { bytes := fun _ => 0x90, readable := fun _ _ => true, writable := fun _ _ => true }

/-- The plain run executes the NOP; a session of `Step()`s never gets past the breakpoint. -/
theorem not_transparent_nopBreakpoint : ¬ ∀ resumes m, Transparent resumes m := by
  intro h
  have hplain : ((trace (iterate fun _ => .step) 1 (Session.start nopBreakpoint.plain))[0]?).map
      CpuContext.rip = some 0x1001 := by decide
  obtain ⟨ctx, hctx, -⟩ := Option.map_eq_some_iff.mp hplain
  obtain ⟨n, hn⟩ := (h (fun _ => .step) nopBreakpoint 0 ctx).mpr ⟨1, hctx⟩
  have hstop : StopsAtBreakpoint (Session.start nopBreakpoint).machine :=
    (stops_iff _).mp (by decide)
  simp only [trace_of_stops hstop] at hn
  cases hn

end Cpu
