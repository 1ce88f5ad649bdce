/-
# Process manager

`Process.cpp`: the table of processes, and what is done to it under its mutex.  What other parts
of the program say (the loader, the kernel runtime) is told by the caller of a definition.  Times
are left out.
-/
import ChuckStation.AssociationLists
import ChuckStation.Bytes

namespace Process

/-! ## Data model -/

inductive ProcessState where
  | None
  | Created
  | Loading
  | Running
  | Exiting
  | Terminated
  | Faulted
  deriving DecidableEq, Repr

abbrev Pid := U32
abbrev KHandle := BitVec 32
abbrev ExitCode := BitVec 32

/-- Of `Loader::ExecutableInfo`, what the process manager reads. -/
structure ElfInfo where
  titleId : String := ""
  appVersion : String := ""
  deriving DecidableEq, Repr

structure Module where
  name : String
  path : String
  elfInfo : ElfInfo := {}
  isMain : Bool := false
  deriving DecidableEq, Repr

structure ProcessInfo where
  pid : Pid := 0
  titleId : String := ""
  appVersion : String := ""
  state : ProcessState := .None
  mainThread : KHandle := -1
  modules : List Module := []
  exitCode : ExitCode := 0
  deriving DecidableEq, Repr

structure ProcessEntry where
  info : ProcessInfo
  mainThreadHandle : KHandle
  state : ProcessState
  deriving DecidableEq, Repr

abbrev ProcTable := AList fun _ : Pid => ProcessEntry

/-- `struct ProcState`; `κ` is the type of the exit callbacks. -/
structure ProcState (κ : Type) where
  procs : ProcTable := ∅
  nextPid : Pid := 1
  currentPid : Pid := 0
  exitCallbacks : List κ := []

/-! ## Under the mutex -/

section UnderMutex

variable {κ : Type} (st : ProcState κ)

/-- `ps.nextPid.fetch_add(1)`, which needs no mutex. -/
def ProcState.takePid : ProcState κ × Pid := ({ st with nextPid := st.nextPid + 1 }, st.nextPid)

/-- The entry that `Create` makes. -/
def newEntry (pid : Pid) (main : Module) (thread : KHandle) : ProcessEntry where
  info :=
    { pid := pid
      titleId := main.elfInfo.titleId
      appVersion := main.elfInfo.appVersion
      state := .Created
      mainThread := thread
      modules := [{ main with isMain := true }] }
  mainThreadHandle := thread
  state := .Created

/-- The end of `Create`. -/
def ProcState.add (pid : Pid) (e : ProcessEntry) : ProcState κ :=
  { st with procs := st.procs.insert pid e, currentPid := pid }

/-- `Start`; `threadStarts` is what `StartThread` says. -/
def ProcState.start (pid : Pid) (threadStarts : Bool) : ProcState κ × Bool :=
  match st.procs.lookup pid with
  | none => (st, false)
  | some e =>
    if e.state ≠ .Created then (st, false)
    else
      let running : ProcessEntry :=
        { e with state := .Running, info := { e.info with state := .Running } }
      let after := if threadStarts then running else { running with state := .Faulted }
      ({ st with procs := st.procs.insert pid after }, threadStarts)

/-- `RequestExit`. -/
def ProcState.requestExit (pid : Pid) (exitCode : ExitCode) : ProcState κ × Bool :=
  match st.procs.lookup pid with
  | none => (st, false)
  | some e =>
    let after := { e with state := .Exiting, info := { e.info with exitCode := exitCode } }
    ({ st with procs := st.procs.insert pid after }, true)

/-- The second part of `Wait`, behind a join; `exitCode` is what it has written. -/
def ProcState.joined (pid : Pid) (exitCode : Option ExitCode) : ProcState κ :=
  match st.procs.lookup pid with
  | none => st
  | some e =>
    let code := exitCode.getD e.info.exitCode
    let after := { e with state := .Terminated, info := { e.info with exitCode := code } }
    { st with procs := st.procs.insert pid after }

/-- The first part of `Terminate`: the exit code, and the images to unload. -/
def ProcState.terminate (pid : Pid) : ProcState κ × Option (ExitCode × List ElfInfo) :=
  match st.procs.lookup pid with
  | none => (st, none)
  | some e =>
    let after := { e with state := .Terminated, info := { e.info with modules := [] } }
    ({ st with
        procs := st.procs.insert pid after
        currentPid := if st.currentPid = pid then 0 else st.currentPid },
      some (e.info.exitCode, e.info.modules.map Module.elfInfo))

/-- `LoadModule`, behind the loader. -/
def ProcState.loadModule (pid : Pid) (mod : Module) : ProcState κ × Bool :=
  match st.procs.lookup pid with
  | none => (st, false)
  | some e =>
    let after := { e with info := { e.info with modules := e.info.modules ++ [mod] } }
    ({ st with procs := st.procs.insert pid after }, true)

def ProcState.getModules (pid : Pid) : List Module :=
  match st.procs.lookup pid with
  | none => []
  | some e => e.info.modules

def ProcState.getInfo (pid : Pid) : ProcessInfo :=
  match st.procs.lookup pid with
  | none => {}
  | some e => { e.info with state := e.state }

def ProcState.getState (pid : Pid) : ProcessState :=
  match st.procs.lookup pid with
  | none => .None
  | some e => e.state

def ProcState.isRunning (pid : Pid) : Bool := st.getState pid == .Running

def ProcState.registerExitCallback (fn : κ) : ProcState κ :=
  { st with exitCallbacks := st.exitCallbacks ++ [fn] }

end UnderMutex

/-! ## What becomes of an entry -/

section Entries

variable {κ : Type} {st : ProcState κ} {pid : Pid} {e : ProcessEntry}

theorem start_of_created (he : st.procs.lookup pid = some e) (hcreated : e.state = .Created)
    (threadStarts : Bool) :
    ∃ after, st.start pid threadStarts =
        ({ st with procs := st.procs.insert pid after }, threadStarts) ∧
      after.state = if threadStarts then .Running else .Faulted := by
  rw [ProcState.start, he]
  dsimp only
  rw [if_neg (not_not_intro hcreated)]
  cases threadStarts with
  | true => exact ⟨_, rfl, rfl⟩
  | false => exact ⟨_, rfl, rfl⟩

theorem requestExit_of_lookup (he : st.procs.lookup pid = some e) (exitCode : ExitCode) :
    ∃ after, st.requestExit pid exitCode =
        ({ st with procs := st.procs.insert pid after }, true) ∧ after.state = .Exiting := by
  rw [ProcState.requestExit, he]
  exact ⟨_, rfl, rfl⟩

end Entries

end Process
