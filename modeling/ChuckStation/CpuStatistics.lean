/-
# The statistics of the interpreter

The five counters against the results that `Step()` returned since they were last cleared.  Every
return of the switch increments the counter of its result, except the one for an unknown interrupt
vector; the null check and the fetch in front of the switch return `Fault` and count nothing.
-/
import ChuckStation.CpuReports
import ChuckStation.OperationRuns

namespace Cpu

open OperationRuns

/-! ## Runs of steps -/

/-- What happens to an interpreter: a step, a call that clears the statistics, or anything else,
which may change all of the state but the statistics. -/
inductive StatOp where
  | step
  | init
  | resetStats
  | other (cpu : CpuState) (mem : GuestMemory)

/-- A machine, with the results of its steps since the statistics were cleared, last first. -/
structure Watched where
  machine : Machine
  results : List StepResult

namespace Watched

/-- Any machine, right after `ResetStats()`. -/
def start (m : Machine) : Watched := ⟨{ m with cpu := m.cpu.resetStats }, []⟩

def apply (w : Watched) : StatOp → Except HostUndefined Watched
  | .step => do
      let out ← executeOne w.machine
      return ⟨out.machine, out.result :: w.results⟩
  | .init => .ok ⟨{ w.machine with cpu := w.machine.cpu.init }, []⟩
  | .resetStats => .ok (start w.machine)
  | .other cpu mem => .ok ⟨⟨{ cpu with stats := w.machine.cpu.stats }, mem⟩, w.results⟩

end Watched

/-- Every counter is the number of steps that returned its result. -/
structure ExactStats (stats : InterpreterStats) (results : List StepResult) : Prop where
  instructionsExecuted : stats.instructionsExecuted.toNat = results.count .Ok
  breakpointsHit : stats.breakpointsHit.toNat = results.count .Breakpoint
  syscallsDispatched : stats.syscallsDispatched.toNat = results.count .Syscall
  faults : stats.faults.toNat = results.count .Fault
  unimplemented : stats.unimplemented.toNat = results.count .Unimplemented

/-! ## What is not counted -/

/-- The step from `m` is an INT with a vector other than 3 and 0x80. -/
def CallsUnknownVector (m : Machine) : Prop :=
  ∃ ip p, Decodes m ip p ∧ UnknownVector (opCase p.opcode) ip p

/-- The counter of the step's result is not at its maximum. -/
def HasRoom (w : Watched) : Prop :=
  ∀ out, executeOne w.machine = .ok out → counterOf out.result ≠ .none →
    w.results.count out.result + 1 < 2 ^ 64

/-- The operation keeps the statistics exact: it is no step that faults in front of the switch, none
over an unknown vector, and none that overflows a counter. -/
def KeepsCount (w : Watched) : StatOp → Prop
  | .step => ¬ FetchFaults w.machine ∧ ¬ CallsUnknownVector w.machine ∧ HasRoom w
  | _ => True

section Counting

variable {stats : InterpreterStats} {results : List StepResult} {st : CpuState} {r : StepResult}

theorem exactStats_nil : ExactStats {} [] := ⟨rfl, rfl, rfl, rfl, rfl⟩

theorem toNat_add_one_iff {x : U64} {n : ℕ} (h : x.toNat = n) :
    (x + 1).toNat = n + 1 ↔ n + 1 < 2 ^ 64 := by
  have hlt := x.isLt
  constructor
  · intro heq
    rw [← heq]
    exact (x + 1).isLt
  · intro hfit
    rw [BitVec.toNat_add, h]
    exact Nat.mod_eq_of_lt hfit

/-- Counting a result keeps the statistics exact if and only if the counter has room. -/
theorem exactStats_count_iff (h : ExactStats st.stats results) (r : StepResult) :
    ExactStats (st.count (counterOf r)).stats (r :: results) ↔
      (counterOf r ≠ .none → results.count r + 1 < 2 ^ 64) := by
  obtain ⟨hok, hbp, hsys, hfault, hun⟩ := h
  constructor
  · rintro ⟨hok', hbp', hsys', hfault', hun'⟩ hcounted
    cases r with
    | Ok => exact (toNat_add_one_iff hok).mp (hok'.trans List.count_cons_self)
    | Breakpoint => exact (toNat_add_one_iff hbp).mp (hbp'.trans List.count_cons_self)
    | Syscall => exact (toNat_add_one_iff hsys).mp (hsys'.trans List.count_cons_self)
    | Fault => exact (toNat_add_one_iff hfault).mp (hfault'.trans List.count_cons_self)
    | Unimplemented => exact (toNat_add_one_iff hun).mp (hun'.trans List.count_cons_self)
    | Halt | Exit => exact absurd rfl hcounted
  · intro hroom
    -- the counter of `r` moves on by one, the others count other results
    cases r with
    | Ok =>
        exact ⟨((toNat_add_one_iff hok).mpr (hroom (by decide))).trans List.count_cons_self.symm,
          hbp, hsys, hfault, hun⟩
    | Breakpoint =>
        exact ⟨hok, ((toNat_add_one_iff hbp).mpr (hroom (by decide))).trans
          List.count_cons_self.symm, hsys, hfault, hun⟩
    | Syscall =>
        exact ⟨hok, hbp, ((toNat_add_one_iff hsys).mpr (hroom (by decide))).trans
          List.count_cons_self.symm, hfault, hun⟩
    | Fault =>
        exact ⟨hok, hbp, hsys, ((toNat_add_one_iff hfault).mpr (hroom (by decide))).trans
          List.count_cons_self.symm, hun⟩
    | Unimplemented =>
        exact ⟨hok, hbp, hsys, hfault, ((toNat_add_one_iff hun).mpr (hroom (by decide))).trans
          List.count_cons_self.symm⟩
    | Halt | Exit => exact ⟨hok, hbp, hsys, hfault, hun⟩

/-- A result that should be counted and is not breaks the statistics. -/
theorem not_exactStats_cons (h : ExactStats stats results) (hr : counterOf r ≠ .none) :
    ¬ ExactStats stats (r :: results) := by
  rintro h'
  have hnext : results.count r = (r :: results).count r := by
    cases r with
    | Ok => exact h.instructionsExecuted.symm.trans h'.instructionsExecuted
    | Breakpoint => exact h.breakpointsHit.symm.trans h'.breakpointsHit
    | Syscall => exact h.syscallsDispatched.symm.trans h'.syscallsDispatched
    | Fault => exact h.faults.symm.trans h'.faults
    | Unimplemented => exact h.unimplemented.symm.trans h'.unimplemented
    | Halt | Exit => exact absurd rfl hr
  rw [List.count_cons_self] at hnext
  omega

theorem Machine.finish_stats (m : Machine) (e : CaseExit) :
    (m.finish e).machine.cpu.stats = (m.cpu.count e.stat).stats := by
  unfold Machine.finish
  cases e.stat <;> rfl

end Counting

/-! ## Steps -/

section Steps

variable {m : Machine} {w : Watched} {out : StepOutcome}

/-- What a step returns, if it is counted, is counted by the counter of its result. -/
theorem executeOne_counted (hf : ¬ FetchFaults m) (hu : ¬ CallsUnknownVector m)
    (hout : executeOne m = .ok out) :
    out.machine.cpu.stats = (m.cpu.count (counterOf out.result)).stats := by
  rcases executeOne_cases hout with ⟨hfetch, -⟩ | ⟨-, rfl⟩ | ⟨ip, p, e, hd, he, rfl⟩
  · exact absurd hfetch hf
  · rfl
  · have hstat := execCase_counted (fun hun => hu ⟨ip, p, hd, hun⟩) e he
    rw [Machine.finish_result, ← hstat]
    exact m.finish_stats e

/-- A fault in front of the switch and an unknown vector leave the counters alone. -/
theorem executeOne_uncounted (h : FetchFaults m ∨ CallsUnknownVector m) :
    ∃ out, executeOne m = .ok out ∧ counterOf out.result ≠ .none ∧
      out.machine.cpu.stats = m.cpu.stats := by
  rcases h with hf | ⟨ip, p, hd, hcase, h3, h80⟩
  · exact ⟨_, executeOne_of_fetchFaults hf, StatField.noConfusion, rfl⟩
  · have he : execCase (opCase p.opcode) ip p m.guest = .ok _ :=
      (congrArg (execCase · ip p m.guest) hcase).trans
        (congrArg Except.ok (execInt_unknown ip p m.guest h3 h80))
    exact ⟨_, executeOne_eq_finish hd he, StatField.noConfusion, m.finish_stats _⟩

/-- One step keeps the statistics exact if and only if it keeps count. -/
theorem exactStats_step_iff (h : ExactStats w.machine.cpu.stats w.results) :
    (∀ t, w.apply .step = .ok t → ExactStats t.machine.cpu.stats t.results) ↔
      KeepsCount w .step := by
  have happly (out : StepOutcome) (hout : executeOne w.machine = .ok out) :
      w.apply .step = .ok ⟨out.machine, out.result :: w.results⟩ := by
    rw [Watched.apply, hout]
    rfl
  constructor
  · intro hall
    have hnot : ¬ (FetchFaults w.machine ∨ CallsUnknownVector w.machine) := by
      intro hbad
      obtain ⟨out, hout, hcounted, hsame⟩ := executeOne_uncounted hbad
      have hexact := hall _ (happly out hout)
      rw [hsame] at hexact
      exact not_exactStats_cons h hcounted hexact
    obtain ⟨hf, hu⟩ := not_or.mp hnot
    refine ⟨hf, hu, fun out hout => ?_⟩
    have hexact := hall _ (happly out hout)
    rw [executeOne_counted hf hu hout] at hexact
    exact (exactStats_count_iff h out.result).mp hexact
  · rintro ⟨hf, hu, hroom⟩ t ht
    obtain ⟨out, hout, hret⟩ := bind_eq_ok ht
    cases hret
    rw [executeOne_counted hf hu hout]
    exact (exactStats_count_iff h out.result).mpr (hroom out hout)

end Steps

/-- **The statistics, exactly.**  In every state of a run from cleared statistics the counters are
the numbers of steps that returned their results, if and only if no step of the run faults in front
of the switch, calls an unknown vector or overflows a counter. -/
theorem statistics_exact_iff (m : Machine) (ops : List StatOp) :
    AllStatesReached Watched.apply (fun w => ExactStats w.machine.cpu.stats w.results)
        (Watched.start m) ops ↔
      AllReached Watched.apply KeepsCount (Watched.start m) ops := by
  apply allStatesReached_iff_allReached_of (fun _ => id)
  · rintro w op t h hkeep hop
    cases op with
    | step => exact (exactStats_step_iff h).mpr hkeep t hop
    | init | resetStats =>
        cases hop
        exact exactStats_nil
    | other cpu mem =>
        cases hop
        exact h
  · intro w op h hnext
    cases op with
    | step => exact (exactStats_step_iff h).mp hnext
    | init | resetStats | other => exact trivial
  · exact exactStats_nil

/-- A step from a null `RIP` returns `Fault`, and `faults` stays 0. -/
theorem not_statistics_exact_nullRip : ¬ ∀ m ops,
    AllStatesReached Watched.apply (fun w => ExactStats w.machine.cpu.stats w.results)
      (Watched.start m) ops := by
  intro h
  have hstep := h ⟨{}, ⟨fun _ => 0, fun _ _ => true, fun _ _ => true⟩⟩ [.step] [.step]
    (List.prefix_refl _) _ rfl
  have hfaults : (0 : ℕ) = 1 := hstep.faults
  exact absurd hfaults (by decide)

end Cpu
