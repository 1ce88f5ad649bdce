/-
# Sessions and their processes

The session and the process manager keep a state each, and separate calls move them on.  As long
as nobody else calls the process manager, and no join comes through, a session that is ready,
running, paused or exiting has a process that is created, running, running or exiting.
-/
import ChuckStation.Execution

namespace Execution

open OperationRuns Process

/-- The state of the process of a session. -/
def expected : ExecState → Option ProcessState
  | .Ready => some .Created
  | .Running => some .Running
  | .Paused => some .Running
  | .Exiting => some .Exiting
  | _ => none

/-- The session has a process, which is in the state that belongs to its own. -/
def Agree (s : Session) : Prop :=
  ∀ state, expected s.ctx.state = some state →
    s.ctx.pid ≠ 0 ∧ ∃ e, s.procs.procs.lookup s.ctx.pid = some e ∧ e.state = state

/-- A call of the session itself; a join is not waited for to its end. -/
def Op.OfSession : Op → Prop
  | .waitForExit joins _ => joins = false
  | .processWait _ _ _ _ | .processTerminate _ => False
  | _ => True

section OneCall

variable {s s' : Session}

theorem Agree.same (hs : Agree s) (hstate : s'.ctx.state = s.ctx.state)
    (hpid : s'.ctx.pid = s.ctx.pid) (hprocs : s'.procs = s.procs) : Agree s' := by
  intro state hexpected
  rw [hstate] at hexpected
  rw [hpid, hprocs]
  exact hs state hexpected

/-- Nothing is said of the other states. -/
theorem agree_of_none (h : expected s.ctx.state = none) : Agree s := by
  intro state hexpected
  rw [h] at hexpected
  cases hexpected

theorem agree_of_lookup {state : ProcessState} {e : ProcessEntry}
    (hexpected : expected s.ctx.state = some state) (hpid : s.ctx.pid ≠ 0)
    (he : s.procs.procs.lookup s.ctx.pid = some e) (hstate : e.state = state) : Agree s := by
  intro state' h
  rw [hexpected] at h
  cases h
  exact ⟨hpid, e, he, hstate⟩

/-- The session goes to another state, with a process that is in the state for it. -/
theorem agree_setState {next : ExecState} {state : ProcessState} {e : ProcessEntry}
    (hexpected : expected next = some state) (hpid : s.ctx.pid ≠ 0)
    (he : s.procs.procs.lookup s.ctx.pid = some e) (hstate : e.state = state) :
    Agree (s.setState next) := by
  apply agree_of_lookup
  · rw [setState_state]
    exact hexpected
  · rw [setState_pid]
    exact hpid
  · rw [setState_pid, setState_procs]
    exact he
  · exact hstate

theorem agree_setState_of_none {next : ExecState} (h : expected next = none) :
    Agree (s.setState next) := by
  apply agree_of_none
  rw [setState_state]
  exact h

theorem Agree.loadProgram (hs : Agree s) (elfPath : String) (main : Option Module)
    (thread : KHandle) : Agree (s.loadProgram elfPath main thread).1 := by
  cases hcreate : (s.setState .Loading).create main thread with
  | mk c pid =>
      rcases loadProgram_cases s elfPath main thread hcreate with
        ⟨msg, h⟩ | ⟨-, msg, h⟩ | ⟨hpid, h⟩
      · rw [h]
        exact hs.same rfl rfl rfl
      · rw [h]
        exact agree_setState_of_none rfl
      · rw [h]
        cases main with
        | none =>
            cases hcreate
            exact absurd rfl hpid
        | some main =>
            cases hcreate
            exact agree_setState rfl hpid (AList.lookup_insert _)
              (rfl : (newEntry _ main thread).state = .Created)

theorem Agree.start (hs : Agree s) (threadStarts : Bool) : Agree (s.start threadStarts).1 := by
  rw [Session.start]
  split_ifs with hready
  · exact hs.same rfl rfl rfl
  rw [not_not] at hready
  obtain ⟨hpid, e, he, hcreated⟩ := hs .Created (by rw [hready]; rfl)
  obtain ⟨after, hstart, hafter⟩ := start_of_created he hcreated threadStarts
  rw [hstart]
  cases threadStarts with
  | false => exact agree_setState_of_none rfl
  | true => exact agree_setState rfl hpid (AList.lookup_insert _) hafter

theorem Agree.requestExit (hs : Agree s) (exitCode : ExitCode) :
    Agree (s.requestExit exitCode).1 := by
  rw [Session.requestExit]
  split_ifs with hrunning
  · exact hs
  have hexpected : expected s.ctx.state = some .Running := by
    rw [not_and_or, not_not, not_not] at hrunning
    rcases hrunning with h | h
    · rw [h]
      rfl
    · rw [h]
      rfl
  obtain ⟨hpid, e, he, -⟩ := hs _ hexpected
  have hentry : (s.setState .Exiting).procs.procs.lookup (s.setState .Exiting).ctx.pid =
      some e := by
    rw [setState_pid, setState_procs]
    exact he
  obtain ⟨after, hexit, hafter⟩ := requestExit_of_lookup hentry exitCode
  dsimp only
  rw [hexit]
  refine agree_of_lookup (s := { s.setState .Exiting with procs := _ }) ?_ ?_
    (AList.lookup_insert _) hafter
  · show expected (s.setState .Exiting).ctx.state = some .Exiting
    rw [setState_state]
    rfl
  · show (s.setState .Exiting).ctx.pid ≠ 0
    rw [setState_pid]
    exact hpid

/-- `Pause` and `Resume`: both states belong to a running process. -/
theorem Agree.moves (hs : Agree s) {next : ExecState} {state : ProcessState}
    (hbefore : expected s.ctx.state = some state) (hafter : expected next = some state) :
    Agree (s.setState next) := by
  obtain ⟨hpid, e, he, hstate⟩ := hs state hbefore
  exact agree_setState hafter hpid he hstate

/-- **One call** of the session. -/
theorem Agree.step (hs : Agree s) (op : Op) (hop : op.OfSession) : Agree (step s op) := by
  cases op with
  | onExit => exact hs.same rfl rfl rfl
  | loadProgram elfPath main thread => exact hs.loadProgram elfPath main thread
  | start threadStarts => exact hs.start threadStarts
  | requestExit exitCode => exact hs.requestExit exitCode
  | waitForExit joins code =>
      have hjoins : joins = false := hop
      have hnone : s.processWait s.ctx.pid true joins code = (s, false) := by
        rw [Session.processWait, hjoins, Bool.and_false]
        rfl
      rw [Execution.step, Session.waitForExit, hnone]
      exact hs
  | forceTerminate => exact agree_setState_of_none rfl
  | pause =>
      rw [Execution.step, Session.pause]
      split_ifs with hrunning
      · exact hs
      · rw [not_not] at hrunning
        have hbefore : expected s.ctx.state = some .Running := by rw [hrunning]; rfl
        exact hs.moves hbefore rfl
  | resume =>
      rw [Execution.step, Session.resume]
      split_ifs with hpaused
      · exact hs
      · rw [not_not] at hpaused
        have hbefore : expected s.ctx.state = some .Running := by rw [hpaused]; rfl
        exact hs.moves hbefore rfl
  | dispatchException => exact agree_setState_of_none rfl
  | reportFault faultAddr description => exact agree_setState_of_none rfl
  | reportGuestPanic message => exact agree_setState_of_none rfl
  | processWait pid wantsCode joins code => exact hop.elim
  | processTerminate pid => exact hop.elim

end OneCall

/-- **Sessions and processes agree** after every call of a session, from a fresh start on. -/
theorem agree_run (ops : List Op) (hops : ∀ op ∈ ops, op.OfSession) :
    AllStates step Agree {} ops := by
  have hstart : Agree {} := agree_of_none rfl
  refine (allStates_iff_allSteps_of (G := fun _ _ => True) (fun _ => id)
    (fun s op hop hs _ => hs.step op (hops op hop)) (fun _ _ _ _ _ => trivial) hstart).mpr ?_
  exact allSteps_of_forall fun _ _ => trivial

/-- A program is loaded, started, paused, resumed and asked to exit. -/
theorem agree_run_oneProgram :
    AllStates step Agree {}
      [.loadProgram "eboot.bin" (some { name := "eboot.bin", path := "/app0/eboot.bin" }) 1,
        .start true, .pause, .resume, .requestExit 0, .waitForExit false 0] := by
  apply agree_run
  simp [Op.OfSession]

end Execution
