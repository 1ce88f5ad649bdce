/-
# The mutex of the process manager

The table of processes and the exit callbacks are under one mutex, which is not recursive: a
thread that locks it while it holds it blocks for ever.  Exit callbacks run with the mutex locked,
and are programs that call the process manager themselves; `Wait` is still in its own block when
it comes to run them.

* `KeepsFree`: the exact condition under which a call comes through.
-/
import ChuckStation.OperationRuns
import ChuckStation.ProcessManager

namespace Process

open OperationRuns

/-! ## The mutex -/

/-- The thread waits for itself. -/
inductive SelfLock where
  | blocksForEver

/-- The process manager, and whether the calling thread holds `ps.mtx`. -/
structure Held (κ : Type) where
  st : ProcState κ := {}
  held : Bool := false

section Mutex

variable {κ ρ : Type}

/-- `std::lock_guard lk(ps.mtx)` to the end of a block. -/
def withLock (body : Held κ → Except SelfLock (Held κ × ρ)) (s : Held κ) :
    Except SelfLock (Held κ × ρ) :=
  if s.held then .error .blocksForEver
  else (body { s with held := true }).map fun r => ({ r.1 with held := false }, r.2)

/-- A block that calls nothing. -/
def locked (body : ProcState κ → ProcState κ × ρ) (s : Held κ) : Except SelfLock (Held κ × ρ) :=
  withLock (fun s => .ok ({ s with st := (body s.st).1 }, (body s.st).2)) s

/-- What a callback is, when it is run. -/
abbrev RunCallback (κ : Type) :=
  κ → Pid → ExitCode → Held κ → Except SelfLock (Held κ)

/-- `FireExitCallbacks`. -/
def fireExitCallbacks (run : RunCallback κ) (pid : Pid) (code : ExitCode) (s : Held κ) :
    Except SelfLock (Held κ × Unit) :=
  withLock (fun s => do
    let s ← s.st.exitCallbacks.foldlM (fun s cb => run cb pid code s) s
    .ok (s, ())) s

/-- A call, with what the loader, `CreateThread`, `StartThread` and `JoinThread` say. -/
inductive Call where
  | create (main : Option Module) (thread : KHandle)
  | start (pid : Pid) (threadStarts : Bool)
  | requestExit (pid : Pid) (exitCode : ExitCode)
  | wait (pid : Pid) (wantsCode : Bool) (joins : Bool) (code : ExitCode)
  | terminate (pid : Pid)
  | loadModule (pid : Pid) (mod : Option Module)
  | getModules (pid : Pid)
  | getInfo (pid : Pid)
  | getState (pid : Pid)
  | isRunning (pid : Pid)
  | getCurrentPid

inductive Answer where
  | unit
  | bool (b : Bool)
  | pid (pid : Pid)
  | modules (mods : List Module)
  | info (info : ProcessInfo)
  | state (state : ProcessState)

def call (run : RunCallback κ) : Call → Held κ → Except SelfLock (Held κ × Answer)
  | .create none _, s => .ok (s, .pid 0)
  | .create (some main) thread, s =>
    let (st, pid) := s.st.takePid
    locked (fun st => (st.add pid (newEntry pid main thread), .pid pid)) { s with st := st }
  | .start pid threadStarts, s =>
    locked (fun st => ((st.start pid threadStarts).1, .bool (st.start pid threadStarts).2)) s
  | .requestExit pid exitCode, s =>
    locked (fun st => ((st.requestExit pid exitCode).1, .bool (st.requestExit pid exitCode).2)) s
  | .wait pid wantsCode joins code, s => do
    let (s, known) ← locked (fun st => (st, (st.procs.lookup pid).isSome)) s
    if known && joins then
      let written := if wantsCode then some code else none
      withLock (fun s => do
        let (s, _) ← fireExitCallbacks run pid (written.getD 0)
          { s with st := s.st.joined pid written }
        .ok (s, .bool true)) s
    else .ok (s, .bool false)
  | .terminate pid, s => do
    let (s, ended) ← locked (fun st => st.terminate pid) s
    match ended with
    | none => .ok (s, .unit)
    | some (code, _) =>
      let (s, _) ← fireExitCallbacks run pid code s
      .ok (s, .unit)
  | .loadModule _ none, s => .ok (s, .bool false)
  | .loadModule pid (some mod), s =>
    locked (fun st => ((st.loadModule pid mod).1, .bool (st.loadModule pid mod).2)) s
  | .getModules pid, s => locked (fun st => (st, .modules (st.getModules pid))) s
  | .getInfo pid, s => locked (fun st => (st, .info (st.getInfo pid))) s
  | .getState pid, s => locked (fun st => (st, .state (st.getState pid))) s
  | .isRunning pid, s => locked (fun st => (st, .bool (st.isRunning pid))) s
  | .getCurrentPid, s => .ok (s, .pid s.st.currentPid)

def registerExitCallback (fn : κ) (s : Held κ) : Except SelfLock (Held κ) :=
  (locked (fun st => (st.registerExitCallback fn, ())) s).map Prod.fst

end Mutex

/-! ## Callbacks -/

/-- What a callback does to the process manager: its calls may depend on what the calls before
have answered. -/
inductive Program where
  | done
  | call (c : Call) (next : Answer → Program)
  | registerExitCallback (fn : Pid → ExitCode → Program) (next : Program)

/-- An `ExitCallbackFn`. -/
abbrev ExitCallbackFn := Pid → ExitCode → Program

/-- A callback is run; `nested` is for the callbacks that would be run in its calls. -/
def runProgram (nested : RunCallback ExitCallbackFn) :
    Program → Held ExitCallbackFn → Except SelfLock (Held ExitCallbackFn)
  | .done, s => .ok s
  | .call c next, s => do
    let (s, answer) ← call nested c s
    runProgram nested (next answer) s
  | .registerExitCallback fn next, s => do
    let s ← registerExitCallback fn s
    runProgram nested next s

/-- A call from outside. -/
inductive Op where
  | call (c : Call)
  | registerExitCallback (fn : ExitCallbackFn)

def opWith (nested : RunCallback ExitCallbackFn) (s : Held ExitCallbackFn) :
    Op → Except SelfLock (Held ExitCallbackFn)
  | .call c =>
    (call (fun cb pid code => runProgram nested (cb pid code)) c s).map Prod.fst
  | .registerExitCallback fn => registerExitCallback fn s

/-- Callbacks in callbacks never come to be run, so it does not matter what is said of them. -/
def step : Held ExitCallbackFn → Op → Except SelfLock (Held ExitCallbackFn) :=
  opWith fun _ _ _ s => .ok s

/-! ## With the mutex locked -/

section Locked

variable {κ ρ : Type} {st : ProcState κ}

theorem locked_of_free (body : ProcState κ → ProcState κ × ρ) :
    locked body ⟨st, false⟩ = .ok (⟨(body st).1, false⟩, (body st).2) := rfl

/-- What a call answers that does not lock the mutex. -/
def unlocked (st : ProcState κ) : Call → Option Answer
  | .create none _ => some (.pid 0)
  | .loadModule _ none => some (.bool false)
  | .getCurrentPid => some (.pid st.currentPid)
  | _ => none

/-- A call of a thread that holds the mutex. -/
theorem call_of_held (run : RunCallback κ) (c : Call) :
    call run c ⟨st, true⟩ = match unlocked st c with
      | some answer => .ok (⟨st, true⟩, answer)
      | none => .error .blocksForEver := by
  cases c with
  | create main thread => cases main <;> rfl
  | loadModule pid mod => cases mod <;> rfl
  | start | requestExit | wait | terminate | getModules | getInfo | getState | isRunning
  | getCurrentPid => rfl

end Locked

section Callbacks

variable {st : ProcState ExitCallbackFn} {nested : RunCallback ExitCallbackFn}

/-- The program makes no call that locks the mutex. -/
inductive WithoutLock (st : ProcState ExitCallbackFn) : Program → Prop
  | done : WithoutLock st .done
  | call {c : Call} {next : Answer → Program} {answer : Answer}
      (hanswer : unlocked st c = some answer) (hrest : WithoutLock st (next answer)) :
      WithoutLock st (.call c next)

/-- A callback changes nothing, or blocks. -/
theorem runProgram_of_held (nested : RunCallback ExitCallbackFn) (p : Program) :
    (WithoutLock st p ∧ runProgram nested p ⟨st, true⟩ = .ok ⟨st, true⟩) ∨
      (¬ WithoutLock st p ∧ runProgram nested p ⟨st, true⟩ = .error .blocksForEver) := by
  induction p with
  | done => exact .inl ⟨.done, rfl⟩
  | call c next ih =>
      rw [runProgram, call_of_held]
      cases hanswer : unlocked st c with
      | none =>
          refine .inr ⟨?_, rfl⟩
          rintro ⟨⟩
          rename_i h _
          rw [hanswer] at h
          cases h
      | some answer =>
          rcases ih answer with ⟨hrest, hrun⟩ | ⟨hrest, hrun⟩
          · exact .inl ⟨.call hanswer hrest, hrun⟩
          · refine .inr ⟨?_, hrun⟩
            rintro ⟨⟩
            rename_i h hnext
            rw [hanswer] at h
            cases h
            exact hrest hnext
  | registerExitCallback fn next _ =>
      refine .inr ⟨?_, rfl⟩
      rintro ⟨⟩

/-- The callbacks, one after the other. -/
theorem foldlM_callbacks (nested : RunCallback ExitCallbackFn) (pid : Pid) (code : ExitCode)
    (cbs : List ExitCallbackFn) :
    ((∀ cb ∈ cbs, WithoutLock st (cb pid code)) ∧
      cbs.foldlM (fun s cb => runProgram nested (cb pid code) s) ⟨st, true⟩ = .ok ⟨st, true⟩) ∨
    (¬ (∀ cb ∈ cbs, WithoutLock st (cb pid code)) ∧
      cbs.foldlM (fun s cb => runProgram nested (cb pid code) s) ⟨st, true⟩ =
        .error .blocksForEver) := by
  induction cbs with
  | nil => exact .inl ⟨List.forall_mem_nil _, rfl⟩
  | cons cb cbs ih =>
      rw [List.foldlM_cons, List.forall_mem_cons]
      rcases runProgram_of_held nested (cb pid code) with ⟨hcb, hrun⟩ | ⟨hcb, hrun⟩
      · rw [hrun]
        rcases ih with ⟨hrest, hall⟩ | ⟨hrest, hall⟩
        · exact .inl ⟨⟨hcb, hrest⟩, hall⟩
        · exact .inr ⟨fun h => hrest h.2, hall⟩
      · rw [hrun]
        exact .inr ⟨fun h => hcb h.1, rfl⟩

/-- `FireExitCallbacks`, by a thread that does not hold the mutex. -/
theorem fireExitCallbacks_of_free (nested : RunCallback ExitCallbackFn) (pid : Pid)
    (code : ExitCode) :
    ((∀ cb ∈ st.exitCallbacks, WithoutLock st (cb pid code)) ∧
      fireExitCallbacks (fun cb pid code => runProgram nested (cb pid code)) pid code ⟨st, false⟩ =
        .ok (⟨st, false⟩, ())) ∨
    (¬ (∀ cb ∈ st.exitCallbacks, WithoutLock st (cb pid code)) ∧
      fireExitCallbacks (fun cb pid code => runProgram nested (cb pid code)) pid code ⟨st, false⟩ =
        .error .blocksForEver) := by
  have hfire : fireExitCallbacks (fun cb pid code => runProgram nested (cb pid code)) pid code
      ⟨st, false⟩ = ((st.exitCallbacks.foldlM
        (fun s cb => runProgram nested (cb pid code) s) ⟨st, true⟩).bind fun s =>
          .ok (s, ())).map fun r => ({ r.1 with held := false }, r.2) := rfl
  rw [hfire]
  rcases foldlM_callbacks nested pid code st.exitCallbacks with ⟨hall, hrun⟩ | ⟨hall, hrun⟩
  · rw [hrun]
    exact .inl ⟨hall, rfl⟩
  · rw [hrun]
    exact .inr ⟨hall, rfl⟩

end Callbacks

/-! ## One call -/

section OneCall

variable {st : ProcState ExitCallbackFn} {s s' : Held ExitCallbackFn}

/-- When a call from outside comes through:

* `Wait`: if it knows the process, the join fails;
* `Terminate`: if it knows the process, no exit callback makes a call that locks the mutex. -/
def KeepsFree (s : Held ExitCallbackFn) : Op → Prop
  | .call (.wait pid _ joins _) => (s.st.procs.lookup pid).isSome = true → joins = false
  | .call (.terminate pid) => ∀ code images, (s.st.terminate pid).2 = some (code, images) →
      ∀ cb ∈ s.st.exitCallbacks, WithoutLock (s.st.terminate pid).1 (cb pid code)
  | _ => True

theorem exitCallbacks_terminate (pid : Pid) :
    (st.terminate pid).1.exitCallbacks = st.exitCallbacks := by
  rw [ProcState.terminate]
  split <;> rfl

/-- `Wait`. -/
theorem wait_of_free (run : RunCallback ExitCallbackFn) (pid : Pid) (wantsCode joins : Bool)
    (code : ExitCode) :
    call run (.wait pid wantsCode joins code) ⟨st, false⟩ =
      if (st.procs.lookup pid).isSome && joins then .error .blocksForEver
      else .ok (⟨st, false⟩, .bool false) := by
  rw [call, locked_of_free]
  show (if (st.procs.lookup pid).isSome && joins then _ else _) = _
  cases (st.procs.lookup pid).isSome && joins <;> rfl

/-- `Terminate`. -/
theorem terminate_of_free (run : RunCallback ExitCallbackFn) (pid : Pid) :
    call run (.terminate pid) ⟨st, false⟩ =
      match (st.terminate pid).2 with
      | none => .ok (⟨(st.terminate pid).1, false⟩, .unit)
      | some (code, _) =>
        (fireExitCallbacks run pid code ⟨(st.terminate pid).1, false⟩).map
          fun r => (r.1, .unit) := by
  rw [call, locked_of_free]
  cases (st.terminate pid).2 with
  | none => rfl
  | some ended =>
      obtain ⟨code, images⟩ := ended
      show (fireExitCallbacks run pid code ⟨(st.terminate pid).1, false⟩).bind _ =
        (fireExitCallbacks run pid code ⟨(st.terminate pid).1, false⟩).map _
      cases fireExitCallbacks run pid code ⟨(st.terminate pid).1, false⟩ <;> rfl

/-- `Wait`, as one call: it comes through exactly if its join fails. -/
theorem opWith_wait_of_free (pid : Pid) (wantsCode joins : Bool) (code : ExitCode) :
    (KeepsFree ⟨st, false⟩ (.call (.wait pid wantsCode joins code)) ∧
      ∀ nested, opWith nested ⟨st, false⟩ (.call (.wait pid wantsCode joins code)) =
        .ok ⟨st, false⟩) ∨
    (¬ KeepsFree ⟨st, false⟩ (.call (.wait pid wantsCode joins code)) ∧
      ∀ nested, opWith nested ⟨st, false⟩ (.call (.wait pid wantsCode joins code)) =
        .error .blocksForEver) := by
  by_cases hjoined : ((st.procs.lookup pid).isSome && joins) = true
  · rw [Bool.and_eq_true] at hjoined
    refine .inr ⟨fun hguard => ?_, fun nested => ?_⟩
    · have hfails : joins = false := hguard hjoined.1
      rw [hfails] at hjoined
      exact Bool.false_ne_true hjoined.2
    · rw [opWith, wait_of_free, if_pos (Bool.and_eq_true_iff.mpr hjoined)]
      rfl
  · refine .inl ⟨fun hknown => ?_, fun nested => ?_⟩
    · rw [← Bool.not_eq_true]
      exact fun hjoins => hjoined (Bool.and_eq_true_iff.mpr ⟨hknown, hjoins⟩)
    · rw [opWith, wait_of_free, if_neg hjoined]
      rfl

/-- The guard of a `Terminate` that ends a process. -/
theorem keepsFree_terminate {pid : Pid} {code : ExitCode} {images : List ElfInfo}
    (hended : (st.terminate pid).2 = some (code, images)) :
    KeepsFree ⟨st, false⟩ (.call (.terminate pid)) ↔
      ∀ cb ∈ (st.terminate pid).1.exitCallbacks,
        WithoutLock (st.terminate pid).1 (cb pid code) := by
  rw [exitCallbacks_terminate]
  show (∀ code images, (st.terminate pid).2 = some (code, images) → _) ↔ _
  constructor
  · exact fun h => h code images hended
  · intro h code' images' heq
    rw [hended] at heq
    cases heq
    exact h

/-- `Terminate`, as one call: it comes through exactly if no exit callback locks the mutex. -/
theorem opWith_terminate_of_free (pid : Pid) :
    (KeepsFree ⟨st, false⟩ (.call (.terminate pid)) ∧
      ∀ nested, opWith nested ⟨st, false⟩ (.call (.terminate pid)) =
        .ok ⟨(st.terminate pid).1, false⟩) ∨
    (¬ KeepsFree ⟨st, false⟩ (.call (.terminate pid)) ∧
      ∀ nested, opWith nested ⟨st, false⟩ (.call (.terminate pid)) = .error .blocksForEver) := by
  cases hended : (st.terminate pid).2 with
  | none =>
      refine .inl ⟨fun code images h => ?_, fun nested => ?_⟩
      · have h : (st.terminate pid).2 = some (code, images) := h
        rw [hended] at h
        cases h
      · rw [opWith, terminate_of_free, hended]
        rfl
  | some ended =>
      obtain ⟨code, images⟩ := ended
      have hop : ∀ nested, opWith nested ⟨st, false⟩ (.call (.terminate pid)) =
          (fireExitCallbacks (fun cb pid code => runProgram nested (cb pid code)) pid code
            ⟨(st.terminate pid).1, false⟩).map Prod.fst := by
        intro nested
        rw [opWith, terminate_of_free, hended]
        dsimp only
        cases fireExitCallbacks (fun cb pid code => runProgram nested (cb pid code)) pid
          code ⟨(st.terminate pid).1, false⟩ <;> rfl
      by_cases hall : ∀ cb ∈ (st.terminate pid).1.exitCallbacks,
          WithoutLock (st.terminate pid).1 (cb pid code)
      · refine .inl ⟨(keepsFree_terminate hended).mpr hall, fun nested => ?_⟩
        rcases fireExitCallbacks_of_free nested pid code with ⟨-, hrun⟩ | ⟨hnot, -⟩
        · rw [hop, hrun]
          rfl
        · exact absurd hall hnot
      · refine .inr ⟨fun h => hall ((keepsFree_terminate hended).mp h), fun nested => ?_⟩
        rcases fireExitCallbacks_of_free nested pid code with ⟨hyes, -⟩ | ⟨-, hrun⟩
        · exact absurd hyes hall
        · rw [hop, hrun]
          rfl

/-- **One call** of a thread that does not hold the mutex: it comes through exactly under its
guard, and then the thread does not hold the mutex; whatever is said of nested callbacks. -/
theorem opWith_of_free (op : Op) :
    (KeepsFree ⟨st, false⟩ op ∧
      ∃ st', ∀ nested, opWith nested ⟨st, false⟩ op = .ok ⟨st', false⟩) ∨
    (¬ KeepsFree ⟨st, false⟩ op ∧
      ∀ nested, opWith nested ⟨st, false⟩ op = .error .blocksForEver) := by
  cases op with
  | registerExitCallback fn => exact .inl ⟨trivial, _, fun _ => rfl⟩
  | call c =>
      cases c with
      | create main thread =>
          cases main with
          | none => exact .inl ⟨trivial, _, fun _ => rfl⟩
          | some main => exact .inl ⟨trivial, _, fun _ => rfl⟩
      | loadModule pid mod =>
          cases mod with
          | none => exact .inl ⟨trivial, _, fun _ => rfl⟩
          | some mod => exact .inl ⟨trivial, _, fun _ => rfl⟩
      | wait pid wantsCode joins code =>
          exact (opWith_wait_of_free pid wantsCode joins code).imp_left
            fun ⟨hguard, hrun⟩ => ⟨hguard, st, hrun⟩
      | terminate pid =>
          exact (opWith_terminate_of_free pid).imp_left
            fun ⟨hguard, hrun⟩ => ⟨hguard, (st.terminate pid).1, hrun⟩
      | start | requestExit | getModules | getInfo | getState | isRunning | getCurrentPid =>
          exact .inl ⟨trivial, _, fun _ => rfl⟩

/-- What is said of nested callbacks does not matter. -/
theorem opWith_eq_step (nested : RunCallback ExitCallbackFn) (op : Op) :
    opWith nested ⟨st, false⟩ op = step ⟨st, false⟩ op := by
  rcases opWith_of_free op with ⟨-, st', hrun⟩ | ⟨-, hrun⟩
  · rw [step, hrun, hrun]
  · rw [step, hrun, hrun]

end OneCall

/-! ## Runs -/

/-- **No call blocks for ever**: a sequence of calls comes through exactly if no `Wait` in it joins
the thread of a process, and no `Terminate` ends a process while a callback is registered that
makes a call that locks the mutex. -/
theorem comesThrough_iff (ops : List Op) :
    (∃ s, ops.foldlM step {} = .ok s) ↔ AllReached step KeepsFree {} ops := by
  refine foldlM_isOk_iff (I := fun s => s.held = false) (fun s op hs => ?_)
    (fun s op s' hs hstep => ?_) rfl
  · obtain ⟨st, held⟩ := s
    subst hs
    rcases opWith_of_free op with ⟨hguard, st', hrun⟩ | ⟨hguard, hrun⟩
    · exact iff_of_true ⟨⟨st', false⟩, hrun _⟩ hguard
    · refine iff_of_false ?_ hguard
      rintro ⟨s', hs'⟩
      rw [step, hrun] at hs'
      cases hs'
  · obtain ⟨st, held⟩ := s
    subst hs
    rcases opWith_of_free op with ⟨-, st', hrun⟩ | ⟨-, hrun⟩
    · rw [step, hrun] at hstep
      cases hstep
      rfl
    · rw [step, hrun] at hstep
      cases hstep

/-- A process is created, started and waited for until its thread has exited. -/
theorem not_comesThrough_wait :
    ¬ ∃ s, [Op.call (.create (some { name := "eboot.bin", path := "/app0/eboot.bin" }) 1),
      .call (.start 1 true), .call (.wait 1 true true 0)].foldlM step {} = .ok s := by
  rintro ⟨s, hs⟩
  cases hs

end Process
