/-
# The interpreter state and its step

`CpuState`, the breakpoint table (`AddBreakpoint`, `RemoveBreakpoint`,
`ClearBreakpoints`, `IsBreakpoint`), and `ExecuteOne` as `Step` calls it
(`Cpu.cpp`).

`executeOne_cases` says once what a step can do; everything else about steps starts
from it.
-/
import ChuckStation.CpuExec

namespace Cpu

/-! ## State -/

/-- `struct BpEntry`. -/
structure BpEntry where
  id : U32
  addr : U64
  label : String
  active : Bool := true
  deriving DecidableEq, Repr

/-- `struct CpuState`. -/
structure CpuState where
  ctx : CpuContext := {}
  running : Bool := false
  paused : Bool := false
  initialised : Bool := false
  breakpoints : List BpEntry := []
  bpByAddr : AList (fun _ : U64 => U32) := ∅
  nextBpId : U32 := 1
  callStack : List CallFrame := []
  stats : InterpreterStats := {}

/-- The interpreter over guest memory. -/
structure Machine where
  cpu : CpuState
  mem : GuestMemory

namespace Machine

/-- The guest-visible part of the machine. -/
def guest (m : Machine) : Guest := ⟨m.cpu.ctx, m.cpu.callStack, m.mem⟩

end Machine

/-! ## Breakpoints -/

namespace CpuState

/-- `Init()`. -/
def init (st : CpuState) : CpuState :=
  { st with
    ctx := {}
    callStack := []
    breakpoints := []
    bpByAddr := ∅
    stats := {}
    running := false
    paused := false
    initialised := true }

/-- `AddBreakpoint(addr, label)`: the id handed out and the state afterwards. -/
def addBreakpoint (st : CpuState) (addr : U64) (label : String) : U32 × CpuState :=
  let id := st.nextBpId
  (id, { st with
    nextBpId := st.nextBpId + 1
    breakpoints := st.breakpoints ++ [⟨id, addr, label, true⟩]
    bpByAddr := st.bpByAddr.insert addr id })

/-- `RemoveBreakpoint(id)`. -/
def removeBreakpoint (st : CpuState) (id : U32) : Bool × CpuState :=
  match st.breakpoints.find? fun b => b.id == id with
  | none => (false, st)
  | some b =>
      (true, { st with
        bpByAddr := st.bpByAddr.erase b.addr
        breakpoints := st.breakpoints.eraseP fun b => b.id == id })

/-- `ClearBreakpoints()`. -/
def clearBreakpoints (st : CpuState) : CpuState := { st with breakpoints := [], bpByAddr := ∅ }

/-- `ResetStats()`. -/
def resetStats (st : CpuState) : CpuState := { st with stats := {} }

/-- `IsBreakpoint(addr)`. -/
def isBreakpoint (st : CpuState) (addr : U64) : Bool := (st.bpByAddr.lookup addr).isSome

/-- `++` on one counter of the statistics. -/
def count (st : CpuState) (f : StatField) : CpuState :=
  match f with
  | .none => st
  | .instructionsExecuted =>
      { st with stats.instructionsExecuted := st.stats.instructionsExecuted + 1 }
  | .syscallsDispatched =>
      { st with stats.syscallsDispatched := st.stats.syscallsDispatched + 1 }
  | .faults => { st with stats.faults := st.stats.faults + 1 }
  | .breakpointsHit => { st with stats.breakpointsHit := st.stats.breakpointsHit + 1 }
  | .unimplemented => { st with stats.unimplemented := st.stats.unimplemented + 1 }

section FieldLemmas

variable (st : CpuState) (f : StatField)

@[simp] theorem count_ctx : (st.count f).ctx = st.ctx := by cases f <;> rfl
@[simp] theorem count_callStack : (st.count f).callStack = st.callStack := by cases f <;> rfl
@[simp] theorem count_bpByAddr : (st.count f).bpByAddr = st.bpByAddr := by cases f <;> rfl

end FieldLemmas

end CpuState

/-! ## ExecuteOne -/

/-- What a step returns and leaves behind. -/
structure StepOutcome where
  result : StepResult
  machine : Machine
  accesses : List Access := []

namespace Machine

/-- The breakpoint check of `ExecuteOne`: the table is consulted only if not empty. -/
def hitsBreakpoint (m : Machine) : Bool :=
  !m.cpu.bpByAddr.entries.isEmpty && (m.cpu.bpByAddr.lookup m.cpu.ctx.rip).isSome

/-- The machine after a case of the switch. -/
def finish (m : Machine) (e : CaseExit) : StepOutcome :=
  let cpu := { m.cpu with ctx := e.guest.ctx, callStack := e.guest.callStack }
  { result := e.result, machine := ⟨cpu.count e.stat, e.guest.mem⟩, accesses := e.accesses }

end Machine

/-- `ExecuteOne(st)`, which is all `Step()` does. -/
def executeOne (m : Machine) : Except HostUndefined StepOutcome :=
  if m.cpu.ctx.rip = 0 then .ok { result := .Fault, machine := m }
  else
    match fetch m.mem m.cpu.ctx.rip with
    | none => .ok { result := .Fault, machine := m }
    | some ip =>
        if m.hitsBreakpoint then
          .ok { result := .Breakpoint, machine := { m with cpu := m.cpu.count .breakpointsHit } }
        else (decodeAndExecute ip m.guest).map m.finish

/-- `n` calls of `Step()`. -/
def runSteps : ℕ → Machine → Except HostUndefined Machine
  | 0, m => .ok m
  | n + 1, m => do
      let out ← executeOne m
      runSteps n out.machine

/-- A run of `n` steps and one more. -/
theorem runSteps_snoc {n : ℕ} {m m' : Machine} {out : StepOutcome} (h : runSteps n m = .ok m')
    (hout : executeOne m' = .ok out) : runSteps (n + 1) m = .ok out.machine := by
  induction n generalizing m with
  | zero =>
      cases h
      simp only [runSteps, hout, ok_bind]
  | succ n ih =>
      rw [runSteps] at h ⊢
      cases hfirst : executeOne m with
      | error u =>
          rw [hfirst] at h
          cases h
      | ok first =>
          rw [hfirst] at h
          exact ih h

/-! ## What a step can do -/

theorem Machine.hitsBreakpoint_eq (m : Machine) :
    m.hitsBreakpoint = m.cpu.isBreakpoint m.cpu.ctx.rip := by
  unfold Machine.hitsBreakpoint CpuState.isBreakpoint
  by_cases hempty : m.cpu.bpByAddr.entries = []
  · have hnone : m.cpu.bpByAddr.lookup m.cpu.ctx.rip = none := by
      rw [AList.lookup, hempty]
      rfl
    simp [hnone]
  · simp [hempty]

@[simp] theorem Machine.finish_guest (m : Machine) (e : CaseExit) :
    (m.finish e).machine.guest = e.guest := by
  simp [Machine.finish, Machine.guest]

@[simp] theorem Machine.finish_result (m : Machine) (e : CaseExit) :
    (m.finish e).result = e.result := rfl

@[simp] theorem Machine.finish_accesses (m : Machine) (e : CaseExit) :
    (m.finish e).accesses = e.accesses := rfl

@[simp] theorem Machine.finish_ctx (m : Machine) (e : CaseExit) :
    (m.finish e).machine.cpu.ctx = e.guest.ctx := congrArg Guest.ctx (m.finish_guest e)

@[simp] theorem Machine.finish_callStack (m : Machine) (e : CaseExit) :
    (m.finish e).machine.cpu.callStack = e.guest.callStack :=
  congrArg Guest.callStack (m.finish_guest e)

@[simp] theorem Machine.finish_mem (m : Machine) (e : CaseExit) :
    (m.finish e).machine.mem = e.guest.mem := rfl

/-- The step reaches the opcode switch: it has fetched `ip` and scanned `p`. -/
structure Decodes (m : Machine) (ip : ℕ → Byte) (p : Prefixes) : Prop where
  rip_ne_zero : m.cpu.ctx.rip ≠ 0
  fetch_eq : fetch m.mem m.cpu.ctx.rip = some ip
  no_breakpoint : m.cpu.isBreakpoint m.cpu.ctx.rip = false
  scan_eq : scanPrefixes ip = some p

/-- The step stops before anything is decoded: `RIP` is null or its bytes are unreadable. -/
def FetchFaults (m : Machine) : Prop :=
  m.cpu.ctx.rip = 0 ∨ fetch m.mem m.cpu.ctx.rip = none

/-- The step stops at a breakpoint of the table. -/
def StopsAtBreakpoint (m : Machine) : Prop :=
  ¬ FetchFaults m ∧ m.cpu.isBreakpoint m.cpu.ctx.rip = true

theorem Decodes.unique {m : Machine} {ip ip' : ℕ → Byte} {p p' : Prefixes}
    (h : Decodes m ip p) (h' : Decodes m ip' p') : ip = ip' ∧ p = p' := by
  have hip : ip = ip' := Option.some.inj (h.fetch_eq.symm.trans h'.fetch_eq)
  subst hip
  exact ⟨rfl, Option.some.inj (h.scan_eq.symm.trans h'.scan_eq)⟩

/-- What a step decodes depends on `RIP`, the memory and the table only. -/
theorem Decodes.congr {m m' : Machine} {ip : ℕ → Byte} {p : Prefixes} (h : Decodes m ip p)
    (hrip : m'.cpu.ctx.rip = m.cpu.ctx.rip) (hmem : m'.mem = m.mem)
    (hbp : m'.cpu.bpByAddr = m.cpu.bpByAddr) : Decodes m' ip p := by
  refine ⟨by rw [hrip]; exact h.rip_ne_zero, by rw [hrip, hmem]; exact h.fetch_eq, ?_, h.scan_eq⟩
  rw [CpuState.isBreakpoint, hrip, hbp]
  exact h.no_breakpoint

theorem Decodes.off_bounds {m : Machine} {ip : ℕ → Byte} {p : Prefixes} (h : Decodes m ip p) :
    1 ≤ p.off ∧ p.off ≤ 33 := by
  obtain ⟨q, hq, hlo, hhi⟩ := scanPrefixes_fetch h.fetch_eq
  rw [h.scan_eq] at hq
  cases hq
  exact ⟨hlo, hhi⟩

theorem not_decodes_of_fetchFaults {m : Machine} {ip : ℕ → Byte} {p : Prefixes}
    (hf : FetchFaults m) : ¬ Decodes m ip p := by
  intro hd
  rcases hf with hrip | hfetch
  · exact hd.rip_ne_zero hrip
  · rw [hd.fetch_eq] at hfetch
    cases hfetch

/-- **Every machine is in exactly one situation**: the fetch faults, a breakpoint stops
it, or the switch is reached. -/
theorem fetchFaults_or_stops_or_decodes (m : Machine) :
    FetchFaults m ∨ StopsAtBreakpoint m ∨ ∃ ip p, Decodes m ip p := by
  by_cases hf : FetchFaults m
  · exact Or.inl hf
  right
  by_cases hbp : m.cpu.isBreakpoint m.cpu.ctx.rip = true
  · exact Or.inl ⟨hf, hbp⟩
  right
  have hrip : m.cpu.ctx.rip ≠ 0 := fun h => hf (Or.inl h)
  obtain ⟨ip, hip⟩ := Option.ne_none_iff_exists'.mp fun h => hf (Or.inr h)
  obtain ⟨p, hp, -⟩ := scanPrefixes_fetch hip
  exact ⟨ip, p, hrip, hip, by simpa using hbp, hp⟩

theorem executeOne_of_fetchFaults {m : Machine} (h : FetchFaults m) :
    executeOne m = .ok { result := .Fault, machine := m } := by
  unfold executeOne
  rcases h with h | h
  · rw [if_pos h]
  · rw [h]
    split <;> rfl

theorem executeOne_of_stops {m : Machine} (h : StopsAtBreakpoint m) :
    executeOne m =
      .ok { result := .Breakpoint, machine := { m with cpu := m.cpu.count .breakpointsHit } } := by
  obtain ⟨hf, hbp⟩ := h
  obtain ⟨ip, hip⟩ := Option.ne_none_iff_exists'.mp fun hn => hf (Or.inr hn)
  unfold executeOne
  rw [if_neg fun hz => hf (Or.inl hz), hip]
  simp only [Machine.hitsBreakpoint_eq, hbp, if_true]

theorem executeOne_of_decodes {m : Machine} {ip : ℕ → Byte} {p : Prefixes} (h : Decodes m ip p) :
    executeOne m = (execCase (opCase p.opcode) ip p m.guest).map m.finish := by
  unfold executeOne
  rw [if_neg h.rip_ne_zero, h.fetch_eq]
  simp only [Machine.hitsBreakpoint_eq, h.no_breakpoint, decodeAndExecute, h.scan_eq]
  rfl

theorem executeOne_eq_finish {m : Machine} {ip : ℕ → Byte} {p : Prefixes} {e : CaseExit}
    (h : Decodes m ip p) (he : execCase (opCase p.opcode) ip p m.guest = .ok e) :
    executeOne m = .ok (m.finish e) := by
  rw [executeOne_of_decodes h, he]
  rfl

theorem exists_finish_of_decodes {m : Machine} {ip : ℕ → Byte} {p : Prefixes} {out : StepOutcome}
    (h : Decodes m ip p) (hout : executeOne m = .ok out) :
    ∃ e, execCase (opCase p.opcode) ip p m.guest = .ok e ∧ out = m.finish e := by
  rw [executeOne_of_decodes h] at hout
  cases he : execCase (opCase p.opcode) ip p m.guest with
  | error u =>
      rw [he] at hout
      cases hout
  | ok e =>
      rw [he] at hout
      exact ⟨e, rfl, (Except.ok.inj hout).symm⟩

/-- **What a step can do.** -/
theorem executeOne_cases {m : Machine} {out : StepOutcome} (h : executeOne m = .ok out) :
    (FetchFaults m ∧ out = { result := .Fault, machine := m }) ∨
    (StopsAtBreakpoint m ∧
      out = { result := .Breakpoint, machine := { m with cpu := m.cpu.count .breakpointsHit } }) ∨
    ∃ ip p e, Decodes m ip p ∧ execCase (opCase p.opcode) ip p m.guest = .ok e ∧
      out = m.finish e := by
  rcases fetchFaults_or_stops_or_decodes m with hf | hs | ⟨ip, p, hd⟩
  · rw [executeOne_of_fetchFaults hf] at h
    exact Or.inl ⟨hf, (Except.ok.inj h).symm⟩
  · rw [executeOne_of_stops hs] at h
    exact Or.inr (Or.inl ⟨hs, (Except.ok.inj h).symm⟩)
  · obtain ⟨e, he, heq⟩ := exists_finish_of_decodes hd h
    exact Or.inr (Or.inr ⟨ip, p, e, hd, he, heq⟩)

/-- A step leaves the table alone. -/
theorem executeOne_bpByAddr {m : Machine} {out : StepOutcome} (h : executeOne m = .ok out) :
    out.machine.cpu.bpByAddr = m.cpu.bpByAddr := by
  rcases executeOne_cases h with ⟨-, rfl⟩ | ⟨-, rfl⟩ | ⟨ip, p, e, -, -, rfl⟩
  · rfl
  · exact CpuState.count_bpByAddr _ _
  · exact CpuState.count_bpByAddr _ _

/-! ## Steps over an instruction -/

section Instructions

variable {ι : Type} (select : OpCase → (ℕ → Byte) → Prefixes → Guest → Option ι)

/-- A step from `m` over an instruction that `select` picks returns `Ok` with a context as `post`
says. -/
def StepsMeet (post : ι → CpuContext → CpuContext → Prop) (m : Machine) : Prop :=
  ∀ ip p i, Decodes m ip p → select (opCase p.opcode) ip p m.guest = some i →
    ∃ out, executeOne m = .ok out ∧ out.result = .Ok ∧ post i m.cpu.ctx out.machine.cpu.ctx

/-- The step from `m` is over an instruction that `select` picks, from a context as `pre` says. -/
def StepIsOver (pre : ι → CpuContext → Prop) (m : Machine) : Prop :=
  ∃ ip p i, Decodes m ip p ∧ select (opCase p.opcode) ip p m.guest = some i ∧ pre i m.cpu.ctx

variable {select} {post : ι → CpuContext → CpuContext → Prop} {bad : ι → CpuContext → Prop}

/-- **From the cases of the switch to steps**: where the case of an instruction ends with `Ok` and
meets `post` exactly outside `bad`, so does the step. -/
theorem stepsMeet_iff_of_exit (hcase : ∀ c ip p g i, select c ip p g = some i →
      ∃ e, execCase c ip p g = .ok e ∧
        (e.result = .Ok ∧ post i g.ctx e.guest.ctx ↔ ¬ bad i g.ctx)) (m : Machine) :
    StepsMeet select post m ↔ ¬ StepIsOver select bad m := by
  constructor
  · rintro h ⟨ip, p, i, hd, hsel, hbad⟩
    obtain ⟨e, he, hiff⟩ := hcase _ _ _ _ _ hsel
    obtain ⟨out, hout, hres, hpost⟩ := h ip p i hd hsel
    rw [executeOne_eq_finish hd he] at hout
    cases hout
    rw [Machine.finish_ctx] at hpost
    exact hiff.mp ⟨hres, hpost⟩ hbad
  · intro h ip p i hd hsel
    obtain ⟨e, he, hiff⟩ := hcase _ _ _ _ _ hsel
    obtain ⟨hres, hpost⟩ := hiff.mpr fun hbad => h ⟨ip, p, i, hd, hsel, hbad⟩
    refine ⟨m.finish e, executeOne_eq_finish hd he, hres, ?_⟩
    rwa [Machine.finish_ctx]

/-- The same for cases that always end with `Ok`. -/
theorem stepsMeet_iff (hcase : ∀ c ip p g i, select c ip p g = some i →
      ∃ e, execCase c ip p g = .ok e ∧ e.result = .Ok ∧
        (post i g.ctx e.guest.ctx ↔ ¬ bad i g.ctx)) (m : Machine) :
    StepsMeet select post m ↔ ¬ StepIsOver select bad m := by
  refine stepsMeet_iff_of_exit (fun c ip p g i hsel => ?_) m
  obtain ⟨e, he, hres, hiff⟩ := hcase c ip p g i hsel
  exact ⟨e, he, (and_iff_right hres).trans hiff⟩

/-- Where the case of an instruction always meets `post`, so does the step. -/
theorem stepsMeet_of_cases (hcase : ∀ c ip p g i, select c ip p g = some i →
      ∃ e, execCase c ip p g = .ok e ∧ e.result = .Ok ∧ post i g.ctx e.guest.ctx) (m : Machine) :
    StepsMeet select post m := by
  intro ip p i hd hsel
  obtain ⟨e, he, hres, hpost⟩ := hcase _ _ _ _ _ hsel
  refine ⟨m.finish e, executeOne_eq_finish hd he, hres, ?_⟩
  rwa [Machine.finish_ctx]

end Instructions

end Cpu
