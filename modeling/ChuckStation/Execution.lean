/-
# Execution framework

`Execution.cpp` over the process manager: the state of a session, the calls that drive it, and
the exit callback that `LoadProgram` registers.  The mutexes are left out, so that exit callbacks
come to be run; the handlers of a session do not call back.  What other parts of the program say
is told by the caller of a definition, and frames, times and what is published are left out.

Beside the state stands a log of what the handlers are told, and of the states that the session
goes through.
-/
import ChuckStation.OperationRuns
import ChuckStation.ProcessManager

namespace Execution

open Process (ExitCode KHandle Module Pid ProcState ProcessState)

/-! ## Data model -/

inductive ExecState where
  | Idle
  | Loading
  | Ready
  | Running
  | Paused
  | Exiting
  | Terminated
  | Faulted
  deriving DecidableEq, Repr

inductive ExitReason where
  | Normal
  | GuestPanic
  | Fault
  | Timeout
  | Requested
  | Unknown
  deriving DecidableEq, Repr

structure ExitInfo where
  reason : ExitReason := .Unknown
  exitCode : ExitCode := 0
  faultAddr : U64 := 0
  message : String := ""
  deriving DecidableEq, Repr

/-- `struct ExecContext`, with `g_exitInfo`.  A handler is known by how many were registered
before it. -/
structure ExecContext where
  state : ExecState := .Idle
  pid : Pid := 0
  lastError : String := ""
  onExit : List ℕ := []
  exitInfo : ExitInfo := {}

/-- The callbacks that `LoadProgram` registers: they differ in nothing. -/
inductive ExitCallback where
  | loadProgram
  deriving DecidableEq

inductive Event where
  /-- A handler is told that the process of a program has ended. -/
  | exit (handler program : ℕ) (code : ExitCode) (reason : String)
  /-- The state changes, when the process with the pid of the session is in this state. -/
  | state (prev next : ExecState) (pid : Pid) (process : ProcessState)

/-- A session.  `programs` has the program that was created last with a pid, `created` how many
were created, and `reported` the programs whose process has ended when there were handlers. -/
structure Session where
  procs : ProcState ExitCallback := {}
  ctx : ExecContext := {}
  created : ℕ := 0
  programs : Pid → ℕ := fun _ => 0
  reported : List ℕ := []
  log : List Event := []

namespace Session

variable (s : Session)

/-! ## Processes -/

def setState (next : ExecState) : Session :=
  if s.ctx.state = next then s
  else { s with
    ctx := { s.ctx with state := next }
    log := s.log ++ [.state s.ctx.state next s.ctx.pid (s.procs.getState s.ctx.pid)] }

def setError (msg : String) : Session := { s with ctx := { s.ctx with lastError := msg } }

/-- The handlers are called; it is about the process with this pid. -/
def callOnExit (pid : Pid) (code : ExitCode) (reason : String) : Session :=
  { s with log := s.log ++ s.ctx.onExit.map fun h => .exit h (s.programs pid) code reason }

/-- The callback that `LoadProgram` registers. -/
def exitCallback (pid : Pid) (code : ExitCode) : Session :=
  (s.callOnExit pid code "process exited normally").setState .Terminated

/-- `FireExitCallbacks`. -/
def fireExitCallbacks (pid : Pid) (code : ExitCode) : Session :=
  s.procs.exitCallbacks.foldl (fun s _ => s.exitCallback pid code)
    { s with reported := if s.ctx.onExit = [] then s.reported else s.programs pid :: s.reported }

/-- `Process::Create`. -/
def create (main : Option Module) (thread : KHandle) : Session × Pid :=
  match main with
  | none => (s, 0)
  | some main =>
    let (procs, pid) := s.procs.takePid
    ({ s with
        procs := procs.add pid (Process.newEntry pid main thread)
        created := s.created + 1
        programs := Function.update s.programs pid s.created }, pid)

/-- `Process::Wait`. -/
def processWait (pid : Pid) (wantsCode joins : Bool) (code : ExitCode) : Session × Bool :=
  if (s.procs.procs.lookup pid).isSome && joins then
    let written := if wantsCode then some code else none
    ({ s with procs := s.procs.joined pid written }.fireExitCallbacks pid (written.getD 0), true)
  else (s, false)

/-- `Process::Terminate`. -/
def processTerminate (pid : Pid) : Session :=
  match s.procs.terminate pid with
  | (_, none) => s
  | (procs, some (code, _)) => { s with procs := procs }.fireExitCallbacks pid code

/-! ## Execution -/

/-- `OnExit`. -/
def onExit : Session :=
  { s with ctx := { s.ctx with onExit := s.ctx.onExit ++ [s.ctx.onExit.length] } }

def loadProgram (elfPath : String) (main : Option Module) (thread : KHandle) : Session × Bool :=
  if s.ctx.state ≠ .Idle ∧ s.ctx.state ≠ .Terminated then
    (s.setError "LoadProgram: execution already active", false)
  else
    let (s, pid) := (s.setState .Loading).create main thread
    if pid = 0 then
      ((s.setError ("LoadProgram: Process::Create failed for " ++ elfPath)).setState .Faulted,
        false)
    else
      ({ s with
          ctx := { s.ctx with pid := pid }
          procs := s.procs.registerExitCallback .loadProgram }.setState .Ready, true)

def start (threadStarts : Bool) : Session × Bool :=
  if s.ctx.state ≠ .Ready then (s.setError "Start: not in Ready state", false)
  else
    match s.procs.start s.ctx.pid threadStarts with
    | (procs, false) =>
      (({ s with procs := procs }.setError "Start: Process::Start failed").setState .Faulted,
        false)
    | (procs, true) => ({ s with procs := procs }.setState .Running, true)

def requestExit (exitCode : ExitCode) : Session × Bool :=
  if s.ctx.state ≠ .Running ∧ s.ctx.state ≠ .Paused then (s, false)
  else
    let s := s.setState .Exiting
    match s.procs.requestExit s.ctx.pid exitCode with
    | (procs, ok) => ({ s with procs := procs }, ok)

def waitForExit (joins : Bool) (code : ExitCode) : Session × Bool :=
  match s.processWait s.ctx.pid true joins code with
  | (after, false) => (after, false)
  | (after, true) =>
    ((after.callOnExit after.ctx.pid code "wait completed").setState .Terminated, true)

def forceTerminate : Session :=
  let ended :=
    if s.ctx.pid = 0 then s
    else
      let s := s.processTerminate s.ctx.pid
      { s with ctx := { s.ctx with pid := 0 } }
  ended.setState .Terminated

def pause : Session × Bool :=
  if s.ctx.state ≠ .Running then (s, false) else (s.setState .Paused, true)

def resume : Session × Bool :=
  if s.ctx.state ≠ .Paused then (s, false) else (s.setState .Running, true)

/-- `GuestLoop::DispatchException`. -/
def dispatchException : Session := s.setState .Faulted

def reportFault (faultAddr : U64) (description : String) : Session :=
  let info :=
    { s.ctx.exitInfo with reason := .Fault, faultAddr := faultAddr, message := description }
  { s with ctx := { s.ctx with exitInfo := info } }.setState .Faulted

def reportGuestPanic (message : String) : Session :=
  let info := { s.ctx.exitInfo with reason := .GuestPanic, message := message }
  { s with ctx := { s.ctx with exitInfo := info } }.setState .Faulted

end Session

/-! ## Calls -/

inductive Op where
  | onExit
  | loadProgram (elfPath : String) (main : Option Module) (thread : KHandle)
  | start (threadStarts : Bool)
  | requestExit (exitCode : ExitCode)
  | waitForExit (joins : Bool) (code : ExitCode)
  | forceTerminate
  | pause
  | resume
  | dispatchException
  | reportFault (faultAddr : U64) (description : String)
  | reportGuestPanic (message : String)
  | processWait (pid : Pid) (wantsCode joins : Bool) (code : ExitCode)
  | processTerminate (pid : Pid)

def step (s : Session) : Op → Session
  | .onExit => s.onExit
  | .loadProgram elfPath main thread => (s.loadProgram elfPath main thread).1
  | .start threadStarts => (s.start threadStarts).1
  | .requestExit exitCode => (s.requestExit exitCode).1
  | .waitForExit joins code => (s.waitForExit joins code).1
  | .forceTerminate => s.forceTerminate
  | .pause => s.pause.1
  | .resume => s.resume.1
  | .dispatchException => s.dispatchException
  | .reportFault faultAddr description => s.reportFault faultAddr description
  | .reportGuestPanic message => s.reportGuestPanic message
  | .processWait pid wantsCode joins code => (s.processWait pid wantsCode joins code).1
  | .processTerminate pid => s.processTerminate pid

/-! ## What the pieces leave alone -/

section Pieces

variable (s : Session) (next : ExecState) {pid : Pid}

@[simp] theorem setState_state : (s.setState next).ctx.state = next := by
  rw [Session.setState]
  split_ifs with h
  · exact h
  · rfl

@[simp] theorem setState_pid : (s.setState next).ctx.pid = s.ctx.pid := by
  rw [Session.setState]
  split_ifs <;> rfl

@[simp] theorem setState_procs : (s.setState next).procs = s.procs := by
  rw [Session.setState]
  split_ifs <;> rfl

/-- What `LoadProgram` does: it refuses; it creates nothing that has a pid; or it has a program. -/
theorem loadProgram_cases (elfPath : String) (main : Option Module) (thread : KHandle) {c : Session}
    (hcreate : (s.setState .Loading).create main thread = (c, pid)) :
    (∃ msg, (s.loadProgram elfPath main thread).1 = s.setError msg) ∨
    (pid = 0 ∧ ∃ msg, (s.loadProgram elfPath main thread).1 = (c.setError msg).setState .Faulted) ∨
    (pid ≠ 0 ∧ (s.loadProgram elfPath main thread).1 =
      ({ c with
          ctx := { c.ctx with pid := pid }
          procs := c.procs.registerExitCallback .loadProgram } : Session).setState .Ready) := by
  rw [Session.loadProgram, hcreate]
  dsimp only
  split_ifs with hactive hpid
  · exact .inl ⟨_, rfl⟩
  · exact .inr (.inl ⟨hpid, _, rfl⟩)
  · exact .inr (.inr ⟨hpid, rfl⟩)

end Pieces

end Execution
