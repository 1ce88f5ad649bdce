/-
# Reports of exits

Every `LoadProgram` registers one more exit callback, all of them call all handlers, and
`WaitForExit` calls the handlers once more; and a process may be ended more than once, and not
only by the session whose program it runs.

* `ReportedOnce`: what is expected of the handlers, and of the state `Terminated`.
* `EndsOnce`: the exact condition under which a call keeps it.
-/
import ChuckStation.Execution

namespace Execution

open OperationRuns Process

/-! ## The log -/

/-- Which handler was called for which program. -/
def exits (log : List Event) : List (ℕ × ℕ) :=
  log.filterMap fun
    | .exit handler program _ _ => some (handler, program)
    | .state _ _ _ _ => none

/-- The session enters `Terminated`: its pid, and the state of the process with it. -/
def terminations (log : List Event) : List (Pid × ProcessState) :=
  log.filterMap fun
    | .exit _ _ _ _ => none
    | .state _ next pid process => if next = .Terminated then some (pid, process) else none

/-- No handler is called twice for a program, and the session enters `Terminated` only when it
has a process that has ended. -/
structure ReportedOnce (s : Session) : Prop where
  once : (exits s.log).Nodup
  ended : ∀ t ∈ terminations s.log, t.1 ≠ 0 ∧ t.2 = .Terminated

/-- The handlers are called once when the process ends: there are none, or there is one callback,
and the process has not ended before when there were handlers. -/
def ToldOnce (s : Session) (pid : Pid) : Prop :=
  s.ctx.onExit = [] ∨
    s.procs.exitCallbacks.length = 1 ∧ s.programs pid ∉ s.reported

/-- The session is terminated, or it is its own process that ends, or that one has ended. -/
def EndsOwn (s : Session) (pid : Pid) : Prop :=
  s.ctx.state = .Terminated ∨
    s.ctx.pid ≠ 0 ∧ (pid = s.ctx.pid ∨ s.procs.getState s.ctx.pid = .Terminated)

/-- What a call has to keep to, that ends a process.  `WaitForExit` always calls the handlers
twice; and `ForceTerminate` without a program terminates nothing but the session. -/
def EndsOnce (s : Session) : Op → Prop
  | .processTerminate pid =>
    (s.procs.procs.lookup pid).isSome → ToldOnce s pid ∧ EndsOwn s pid
  | .processWait pid _ joins _ =>
    (s.procs.procs.lookup pid).isSome ∧ joins = true → ToldOnce s pid ∧ EndsOwn s pid
  | .waitForExit joins _ =>
    (s.procs.procs.lookup s.ctx.pid).isSome ∧ joins = true →
      s.ctx.onExit = [] ∧ EndsOwn s s.ctx.pid
  | .forceTerminate =>
    if s.ctx.pid = 0 then s.ctx.state = .Terminated else ToldOnce s s.ctx.pid
  | _ => True

section Log

variable {log log' : List Event}

@[simp] theorem exits_append : exits (log ++ log') = exits log ++ exits log' :=
  List.filterMap_append

@[simp] theorem terminations_append :
    terminations (log ++ log') = terminations log ++ terminations log' :=
  List.filterMap_append

theorem exits_map_exit (handlers : List ℕ) (program : ℕ) (code : ExitCode) (reason : String) :
    exits (handlers.map fun h => .exit h program code reason) =
      handlers.map fun h => (h, program) := by
  rw [exits, List.filterMap_map]
  show handlers.filterMap (some ∘ fun h => (h, program)) = _
  rw [List.filterMap_eq_map]

theorem terminations_map_exit (handlers : List ℕ) (program : ℕ) (code : ExitCode)
    (reason : String) : terminations (handlers.map fun h => .exit h program code reason) = [] := by
  rw [terminations, List.filterMap_map, List.filterMap_eq_nil_iff]
  exact fun _ _ => rfl

end Log

/-! ## The pieces -/

section Pieces

variable (s : Session) (next : ExecState) (pid : Pid) (code : ExitCode) (reason : String)

@[simp] theorem setState_onExit : (s.setState next).ctx.onExit = s.ctx.onExit := by
  rw [Session.setState]
  split_ifs <;> rfl

@[simp] theorem setState_programs : (s.setState next).programs = s.programs := by
  rw [Session.setState]
  split_ifs <;> rfl

@[simp] theorem setState_reported : (s.setState next).reported = s.reported := by
  rw [Session.setState]
  split_ifs <;> rfl

@[simp] theorem exits_setState : exits (s.setState next).log = exits s.log := by
  rw [Session.setState]
  split_ifs
  · rfl
  · show exits (s.log ++ _) = _
    rw [exits_append]
    exact List.append_nil _

theorem terminations_setState :
    terminations (s.setState next).log = terminations s.log ++
      if next = .Terminated ∧ s.ctx.state ≠ .Terminated then
        [(s.ctx.pid, s.procs.getState s.ctx.pid)] else [] := by
  rw [Session.setState]
  by_cases hsame : s.ctx.state = next
  · rw [if_pos hsame, if_neg, List.append_nil]
    rintro ⟨hnext, hnot⟩
    exact hnot (hsame.trans hnext)
  · rw [if_neg hsame]
    show terminations (s.log ++ _) = _
    rw [terminations_append]
    by_cases hnext : next = .Terminated
    · rw [if_pos ⟨hnext, hnext ▸ hsame⟩]
      simp [terminations, hnext]
    · rw [if_neg fun h => hnext h.1]
      simp [terminations, hnext]

end Pieces

/-- What `times` callbacks do when the process with the pid has ended. -/
structure Fired (s s' : Session) (pid : Pid) (times : ℕ) : Prop where
  procs : s'.procs = s.procs
  own : s'.ctx.pid = s.ctx.pid
  onExit : s'.ctx.onExit = s.ctx.onExit
  programs : s'.programs = s.programs
  reported : s'.reported = s.reported
  exits : exits s'.log = exits s.log ++
    (List.replicate times (s.ctx.onExit.map fun h => (h, s.programs pid))).flatten
  terminations : terminations s'.log = terminations s.log ++
    if times = 0 ∨ s.ctx.state = .Terminated then []
    else [(s.ctx.pid, s.procs.getState s.ctx.pid)]
  state : s'.ctx.state = if times = 0 then s.ctx.state else .Terminated

section Callbacks

variable {s s' s'' : Session} {pid : Pid} {code : ExitCode} {m n : ℕ}

theorem Fired.refl (s : Session) (pid : Pid) : Fired s s pid 0 where
  procs := rfl
  own := rfl
  onExit := rfl
  programs := rfl
  reported := rfl
  exits := (List.append_nil _).symm
  terminations := (List.append_nil _).symm
  state := rfl

theorem Fired.trans (h : Fired s s' pid m) (h' : Fired s' s'' pid n) :
    Fired s s'' pid (m + n) where
  procs := h'.procs.trans h.procs
  own := h'.own.trans h.own
  onExit := h'.onExit.trans h.onExit
  programs := h'.programs.trans h.programs
  reported := h'.reported.trans h.reported
  exits := by
    rw [h'.exits, h.exits, h.onExit, h.programs, List.replicate_add, List.flatten_append,
      List.append_assoc]
  terminations := by
    rw [h'.terminations, h.terminations, h.own, h.procs, h.state, List.append_assoc]
    congr 1
    by_cases hm : m = 0
    · simp [hm]
    · simp [hm]
  state := by
    rw [h'.state, h.state]
    by_cases hn : n = 0
    · simp [hn]
    · simp [hn]

/-- The handlers are called once, and the session is terminated. -/
theorem fired_callOnExit (s : Session) (pid : Pid) (code : ExitCode) (reason : String) :
    Fired s ((s.callOnExit pid code reason).setState .Terminated) pid 1 where
  procs := setState_procs _ _
  own := setState_pid _ _
  onExit := setState_onExit _ _
  programs := setState_programs _ _
  reported := setState_reported _ _
  exits := by
    rw [exits_setState]
    show exits (s.log ++ _) = _
    rw [exits_append, exits_map_exit, List.replicate_one, List.flatten_singleton]
  terminations := by
    rw [terminations_setState]
    show terminations (s.log ++ _) ++ (if _ ∧ s.ctx.state ≠ .Terminated then
      [(s.ctx.pid, s.procs.getState s.ctx.pid)] else []) = _
    rw [terminations_append, terminations_map_exit, List.append_nil]
    congr 1
    by_cases hstate : s.ctx.state = .Terminated
    · simp [hstate]
    · simp [hstate]
  state := setState_state _ _

theorem fired_foldl (cbs : List ExitCallback) (s : Session) :
    Fired s (cbs.foldl (fun s _ => s.exitCallback pid code) s) pid cbs.length := by
  induction cbs generalizing s with
  | nil => exact .refl s pid
  | cons cb cbs ih =>
      rw [List.length_cons, Nat.add_comm]
      exact (fired_callOnExit s pid code _).trans (ih (s.exitCallback pid code))

/-- What is put down as reported, when the process with the pid has ended. -/
def Session.report (s : Session) (pid : Pid) : Session :=
  { s with reported := if s.ctx.onExit = [] then s.reported else s.programs pid :: s.reported }

theorem fired_fireExitCallbacks (s : Session) (pid : Pid) (code : ExitCode) :
    Fired (s.report pid) (s.fireExitCallbacks pid code) pid s.procs.exitCallbacks.length :=
  fired_foldl _ _

end Callbacks

/-! ## The end of a process -/

/-- What is common to the ways in which a process ends. -/
structure Ended (st st' : ProcState ExitCallback) (pid : Pid) : Prop where
  exitCallbacks : st'.exitCallbacks = st.exitCallbacks
  nextPid : st'.nextPid = st.nextPid
  known : ∀ other, (st'.procs.lookup other).isSome = (st.procs.lookup other).isSome
  state : ∀ other, st'.getState other = if other = pid then .Terminated else st.getState other

theorem ended_insert {st : ProcState ExitCallback} {pid : Pid} {e : ProcessEntry}
    (he : (st.procs.lookup pid).isSome) (hstate : e.state = .Terminated) (current : Pid) :
    Ended st { st with procs := st.procs.insert pid e, currentPid := current } pid where
  exitCallbacks := rfl
  nextPid := rfl
  known other := by
    rw [AList.lookup_insert_ite]
    split_ifs with hother
    · rw [hother, he]
      rfl
    · rfl
  state other := by
    rw [ProcState.getState, ProcState.getState, AList.lookup_insert_ite]
    split_ifs with hother
    · exact hstate
    · rfl

theorem ended_joined {st : ProcState ExitCallback} {pid : Pid}
    (hknown : (st.procs.lookup pid).isSome) (written : Option ExitCode) :
    Ended st (st.joined pid written) pid := by
  obtain ⟨e, he⟩ := Option.isSome_iff_exists.mp hknown
  rw [ProcState.joined, he]
  exact ended_insert hknown rfl st.currentPid

theorem terminate_of_known {st : ProcState ExitCallback} {pid : Pid}
    (hknown : (st.procs.lookup pid).isSome) :
    ∃ st' code images, st.terminate pid = (st', some (code, images)) ∧ Ended st st' pid := by
  obtain ⟨e, he⟩ := Option.isSome_iff_exists.mp hknown
  rw [ProcState.terminate, he]
  exact ⟨_, _, _, rfl, ended_insert hknown rfl _⟩

theorem terminate_of_unknown {st : ProcState ExitCallback} {pid : Pid}
    (hknown : ¬ (st.procs.lookup pid).isSome) : st.terminate pid = (st, none) := by
  rw [Option.not_isSome_iff_eq_none] at hknown
  rw [ProcState.terminate, hknown]

/-! ## The invariant -/

/-- As long as no callback is registered, nothing has been created; the session's own process is
known; and a program is put down as reported exactly if a handler was called for it, the first one
among them. -/
structure Kept (s : Session) : Prop extends ReportedOnce s where
  handlers : s.ctx.onExit = List.range s.ctx.onExit.length
  loaded : s.procs.exitCallbacks = [] →
    (∀ pid, s.procs.procs.lookup pid = none) ∧ s.procs.nextPid = 1
  current : s.ctx.pid ≠ 0 → (s.procs.procs.lookup s.ctx.pid).isSome
  reported : ∀ t ∈ exits s.log, t.2 ∈ s.reported
  told : ∀ program ∈ s.reported, s.ctx.onExit ≠ [] ∧ (0, program) ∈ exits s.log

section Invariant

variable {s s' : Session} {st' : ProcState ExitCallback} {pid : Pid} {times : ℕ}

theorem Kept.zero_mem (hs : Kept s) (hne : s.ctx.onExit ≠ []) : 0 ∈ s.ctx.onExit := by
  rw [hs.handlers, List.mem_range]
  exact List.length_pos_of_ne_nil hne

theorem Kept.callbacks_ne_zero (hs : Kept s) (hknown : (s.procs.procs.lookup pid).isSome) :
    s.procs.exitCallbacks.length ≠ 0 := by
  intro hzero
  have hnone := (hs.loaded (List.eq_nil_of_length_eq_zero hzero)).1 pid
  rw [hnone] at hknown
  cases hknown

theorem mem_flatten_replicate {l : List (ℕ × ℕ)} {t : ℕ × ℕ} :
    t ∈ (List.replicate times l).flatten ↔ times ≠ 0 ∧ t ∈ l := by
  rw [List.mem_flatten]
  constructor
  · rintro ⟨l', hl', ht⟩
    obtain ⟨htimes, rfl⟩ := List.mem_replicate.mp hl'
    exact ⟨htimes, ht⟩
  · rintro ⟨htimes, ht⟩
    exact ⟨l, List.mem_replicate.mpr ⟨htimes, rfl⟩, ht⟩

section Ends

variable (hs : Kept s) (hknown : (s.procs.procs.lookup pid).isSome)
  (hended : Ended s.procs st' pid)
  (hfired : Fired (({ s with procs := st' } : Session).report pid) s' pid times)
  (htimes : times ≠ 0)

include hfired in
theorem mem_exits_ends {t : ℕ × ℕ} :
    t ∈ exits s'.log ↔ t ∈ exits s.log ∨
      times ≠ 0 ∧ t ∈ s.ctx.onExit.map fun h => (h, s.programs pid) := by
  rw [hfired.exits, List.mem_append, mem_flatten_replicate]
  rfl

include hs hended hfired in
/-- The handlers are called once, and the session's own process has ended. -/
theorem Kept.reportedOnce_ends
    (honce : s.ctx.onExit = [] ∨ times = 1 ∧ s.programs pid ∉ s.reported)
    (hown : EndsOwn s pid) : ReportedOnce s' := by
  constructor
  · rw [hfired.exits]
    show (exits s.log ++ (List.replicate times
      (s.ctx.onExit.map fun h => (h, s.programs pid))).flatten).Nodup
    rcases honce with hnil | ⟨hone, hnew⟩
    · simpa [hnil] using hs.once
    · rw [hone, List.replicate_one, List.flatten_singleton, List.nodup_append]
      refine ⟨hs.once, ?_, ?_⟩
      · rw [hs.handlers]
        exact List.nodup_range.map fun a b hab => congrArg Prod.fst hab
      · rintro t ht _ ht' rfl
        obtain ⟨h, -, rfl⟩ := List.mem_map.mp ht'
        exact hnew (hs.reported _ ht)
  · intro t ht
    rw [hfired.terminations, List.mem_append] at ht
    rcases ht with ht | ht
    · exact hs.ended t ht
    · have ht : t ∈ if times = 0 ∨ s.ctx.state = .Terminated then []
          else [(s.ctx.pid, st'.getState s.ctx.pid)] := ht
      split_ifs at ht with hbefore
      · cases ht
      · obtain ⟨hpid, hstate⟩ := hown.resolve_left fun h => hbefore (.inr h)
        rw [List.mem_singleton] at ht
        subst ht
        refine ⟨hpid, ?_⟩
        rw [hended.state]
        split_ifs with hself
        · rfl
        · exact hstate.resolve_left (Ne.symm hself)

include hs hknown hended hfired htimes in
theorem Kept.ends (honce : s.ctx.onExit = [] ∨ times = 1 ∧ s.programs pid ∉ s.reported)
    (hown : EndsOwn s pid) : Kept s' := by
  have hreported : s'.reported =
      if s.ctx.onExit = [] then s.reported else s.programs pid :: s.reported := hfired.reported
  have honExit : s'.ctx.onExit = s.ctx.onExit := hfired.onExit
  refine ⟨hs.reportedOnce_ends hended hfired honce hown, ?_, ?_, ?_, ?_, ?_⟩
  · rw [honExit]
    exact hs.handlers
  · intro hnil
    rw [hfired.procs] at hnil
    have hnil : st'.exitCallbacks = [] := hnil
    rw [hended.exitCallbacks] at hnil
    exact absurd (congrArg List.length hnil) (hs.callbacks_ne_zero hknown)
  · rw [hfired.own, hfired.procs]
    show s.ctx.pid ≠ 0 → (st'.procs.lookup s.ctx.pid).isSome
    rw [hended.known]
    exact hs.current
  · intro t ht
    rw [hreported]
    rcases (mem_exits_ends hfired).mp ht with ht | ⟨-, ht⟩
    · split_ifs
      · exact hs.reported t ht
      · exact List.mem_cons_of_mem _ (hs.reported t ht)
    · obtain ⟨h, hh, rfl⟩ := List.mem_map.mp ht
      rw [if_neg (List.ne_nil_of_mem hh)]
      exact List.mem_cons_self
  · intro program hprogram
    rw [hreported] at hprogram
    rw [honExit, mem_exits_ends hfired]
    split_ifs at hprogram with hnil
    · exact absurd hnil (hs.told program hprogram).1
    · refine ⟨hnil, ?_⟩
      rcases List.mem_cons.mp hprogram with rfl | hprogram
      · exact .inr ⟨htimes, List.mem_map_of_mem (hs.zero_mem hnil)⟩
      · exact .inl (hs.told program hprogram).2

include hs hended hfired htimes in
/-- Otherwise it is seen at once. -/
theorem Kept.of_ends (hafter : ReportedOnce s') :
    (s.ctx.onExit = [] ∨ times = 1 ∧ s.programs pid ∉ s.reported) ∧ EndsOwn s pid := by
  have hexits : exits s'.log = exits s.log ++ (List.replicate times
      (s.ctx.onExit.map fun h => (h, s.programs pid))).flatten := hfired.exits
  have honce := hafter.once
  rw [hexits] at honce
  obtain ⟨-, hnew, hapart⟩ := List.nodup_append.mp honce
  refine ⟨or_iff_not_imp_left.mpr fun hne => ?_, or_iff_not_imp_left.mpr fun hstate => ?_⟩
  · have hfirst : (0, s.programs pid) ∈ s.ctx.onExit.map fun h => (h, s.programs pid) :=
      List.mem_map_of_mem (hs.zero_mem hne)
    constructor
    · -- The second callback would tell the first handler again.
      by_contra hone
      obtain ⟨more, rfl⟩ : ∃ more, times = more + 2 := ⟨times - 2, by omega⟩
      rw [List.replicate_succ, List.flatten_cons, List.nodup_append] at hnew
      exact hnew.2.2 _ hfirst _ (mem_flatten_replicate.mpr ⟨by omega, hfirst⟩) rfl
    · intro hreported
      exact hapart _ (hs.told _ hreported).2 _ (mem_flatten_replicate.mpr ⟨htimes, hfirst⟩) rfl
  · have hterminated : (s.ctx.pid, st'.getState s.ctx.pid) ∈ terminations s'.log := by
      rw [hfired.terminations, List.mem_append]
      right
      show _ ∈ if times = 0 ∨ s.ctx.state = .Terminated then []
        else [(s.ctx.pid, st'.getState s.ctx.pid)]
      rw [if_neg (not_or.mpr ⟨htimes, hstate⟩)]
      exact List.mem_singleton_self _
    obtain ⟨hpid, hown⟩ := hafter.ended _ hterminated
    refine ⟨hpid, ?_⟩
    by_cases hself : s.ctx.pid = pid
    · exact .inl hself.symm
    · right
      have hown : st'.getState s.ctx.pid = .Terminated := hown
      rwa [hended.state, if_neg hself] at hown

end Ends

/-- What says nothing to a handler and terminates nothing. -/
theorem Kept.same (hs : Kept s) (hexits : exits s'.log = exits s.log)
    (hterminations : terminations s'.log = terminations s.log)
    (honExit : s'.ctx.onExit = s.ctx.onExit) (hreported : s'.reported = s.reported)
    (hloaded : s'.procs.exitCallbacks = [] →
      (∀ pid, s'.procs.procs.lookup pid = none) ∧ s'.procs.nextPid = 1)
    (hcurrent : s'.ctx.pid ≠ 0 → (s'.procs.procs.lookup s'.ctx.pid).isSome) : Kept s' := by
  refine ⟨⟨?_, ?_⟩, ?_, hloaded, hcurrent, ?_, ?_⟩
  · rw [hexits]
    exact hs.once
  · rw [hterminations]
    exact hs.ended
  · rw [honExit]
    exact hs.handlers
  · rw [hexits, hreported]
    exact hs.reported
  · rw [honExit, hexits, hreported]
    exact hs.told

theorem Kept.setState (hs : Kept s) {next : ExecState} (hnext : next ≠ .Terminated) :
    Kept (s.setState next) := by
  refine hs.same (exits_setState _ _) ?_ (setState_onExit _ _) (setState_reported _ _) ?_ ?_
  · rw [terminations_setState, if_neg fun h => hnext h.1, List.append_nil]
  · rw [setState_procs]
    exact hs.loaded
  · rw [setState_procs, setState_pid]
    exact hs.current

theorem Kept.setInfo (hs : Kept s) (info : ExitInfo) :
    Kept { s with ctx := { s.ctx with exitInfo := info } } :=
  hs.same rfl rfl rfl rfl hs.loaded hs.current

theorem Kept.setError (hs : Kept s) (msg : String) : Kept (s.setError msg) :=
  hs.same rfl rfl rfl rfl hs.loaded hs.current

/-- A step of the process manager that keeps the pids. -/
theorem Kept.setProcs (hs : Kept s) (hcallbacks : st'.exitCallbacks = s.procs.exitCallbacks)
    (hnext : st'.nextPid = s.procs.nextPid)
    (hknown : ∀ pid, (st'.procs.lookup pid).isSome = (s.procs.procs.lookup pid).isSome) :
    Kept { s with procs := st' } := by
  refine hs.same rfl rfl rfl rfl (fun hnil => ?_) fun hpid => ?_
  · have hnil : st'.exitCallbacks = [] := hnil
    rw [hcallbacks] at hnil
    obtain ⟨hnone, hone⟩ := hs.loaded hnil
    refine ⟨fun pid => ?_, hnext.trans hone⟩
    rw [← Option.not_isSome_iff_eq_none, hknown, hnone]
    exact Bool.false_ne_true
  · show (st'.procs.lookup s.ctx.pid).isSome
    rw [hknown]
    exact hs.current hpid

/-- The session gives up its process, when it is terminated. -/
theorem Kept.leave (hs : Kept s) (hstate : s.ctx.state = .Terminated) :
    Kept (({ s with ctx := { s.ctx with pid := 0 } } : Session).setState .Terminated) := by
  rw [Session.setState, if_pos hstate]
  exact hs.same rfl rfl rfl rfl hs.loaded fun h => absurd rfl h

theorem Kept.onExit (hs : Kept s) : Kept s.onExit := by
  refine ⟨⟨hs.once, hs.ended⟩, ?_, hs.loaded, hs.current, hs.reported, fun program h => ?_⟩
  · show s.ctx.onExit ++ [s.ctx.onExit.length] =
      List.range (s.ctx.onExit ++ [s.ctx.onExit.length]).length
    rw [List.length_append, List.length_singleton, List.range_succ, ← hs.handlers]
  · exact ⟨List.append_ne_nil_of_right_ne_nil _ (List.cons_ne_nil _ _), (hs.told program h).2⟩

/-- `Process::Create`: the first pid is not 0. -/
theorem Kept.create (hs : Kept s) {main : Option Module} {thread : KHandle} {c : Session}
    (hcreate : s.create main thread = (c, pid)) :
    c.log = s.log ∧ c.ctx = s.ctx ∧ c.reported = s.reported ∧
      (pid ≠ 0 → (c.procs.procs.lookup pid).isSome) ∧ (pid = 0 → Kept c) := by
  cases main with
  | none =>
      cases hcreate
      exact ⟨rfl, rfl, rfl, fun h => absurd rfl h, fun _ => hs⟩
  | some main =>
      cases hcreate
      have hlookup : ∀ other, ((s.procs.procs.insert s.procs.nextPid
          (newEntry s.procs.nextPid main thread)).lookup other).isSome =
            (decide (other = s.procs.nextPid) || (s.procs.procs.lookup other).isSome) := by
        intro other
        rw [AList.lookup_insert_ite]
        split_ifs with hother
        · simp [hother]
        · simp [hother]
      refine ⟨rfl, rfl, rfl, fun _ => ?_, fun hzero => ?_⟩
      · exact (hlookup _).trans (by simp)
      · refine hs.same rfl rfl rfl rfl (fun hnil => ?_) fun hother => ?_
        · have hone : s.procs.nextPid = 1 := (hs.loaded hnil).2
          have hzero : s.procs.nextPid = 0 := hzero
          rw [hzero] at hone
          exact absurd hone (by decide)
        · have hcurrent := hs.current hother
          exact (hlookup _).trans (by rw [hcurrent, Bool.or_true])

theorem Kept.loadProgram (hs : Kept s) (elfPath : String) (main : Option Module)
    (thread : KHandle) : Kept (s.loadProgram elfPath main thread).1 := by
  have hloading : Kept (s.setState .Loading) := hs.setState (by decide)
  cases hcreate : (s.setState .Loading).create main thread with
  | mk c pid =>
      obtain ⟨hlog, hctx, hreported, hknown, hzero⟩ := hloading.create hcreate
      rcases loadProgram_cases s elfPath main thread hcreate with
        ⟨msg, h⟩ | ⟨hpid, msg, h⟩ | ⟨hpid, h⟩
      · rw [h]
        exact hs.setError msg
      · rw [h]
        exact ((hzero hpid).setError msg).setState (by decide)
      · rw [h]
        have honExit : c.ctx.onExit = (s.setState .Loading).ctx.onExit := by rw [hctx]
        refine Kept.setState ?_ (by decide)
        refine hloading.same (congrArg exits hlog) (congrArg terminations hlog) honExit hreported
          (fun hnil => ?_) fun _ => hknown hpid
        exact absurd hnil (List.append_ne_nil_of_right_ne_nil _ (List.cons_ne_nil _ _))

theorem Kept.start (hs : Kept s) (threadStarts : Bool) : Kept (s.start threadStarts).1 := by
  have hprocs : Kept { s with procs := (s.procs.start s.ctx.pid threadStarts).1 } := by
    rw [ProcState.start]
    split
    · exact hs
    · rename_i e he
      by_cases hcreated : e.state ≠ .Created
      · rw [if_pos hcreated]
        exact hs
      · rw [if_neg hcreated]
        exact hs.setProcs rfl rfl (AList.isSome_lookup_insert he _)
  rw [Session.start]
  split_ifs
  · exact hs.setError _
  cases hstart : s.procs.start s.ctx.pid threadStarts with
  | mk procs ok =>
      rw [hstart] at hprocs
      cases ok with
      | false => exact (hprocs.setError _).setState (by decide)
      | true => exact hprocs.setState (by decide)

theorem Kept.requestExit (hs : Kept s) (exitCode : ExitCode) :
    Kept (s.requestExit exitCode).1 := by
  rw [Session.requestExit]
  split_ifs
  · exact hs
  have hexiting : Kept (s.setState .Exiting) := hs.setState (by decide)
  show Kept { s.setState .Exiting with procs :=
    ((s.setState .Exiting).procs.requestExit (s.setState .Exiting).ctx.pid exitCode).1 }
  rw [ProcState.requestExit]
  split
  · exact hexiting
  · rename_i e he
    exact hexiting.setProcs rfl rfl (AList.isSome_lookup_insert he _)

/-! ## One call -/

/-- `Process::Wait`, behind a join that has come through. -/
theorem fired_processWait (hknown : (s.procs.procs.lookup pid).isSome) (wantsCode : Bool)
    (code : ExitCode) :
    ∃ st' after, s.processWait pid wantsCode true code = (after, true) ∧ Ended s.procs st' pid ∧
      Fired (({ s with procs := st' } : Session).report pid) after pid
        s.procs.exitCallbacks.length := by
  have hended := ended_joined hknown (if wantsCode then some code else none)
  rw [Session.processWait, hknown, Bool.and_true, if_pos rfl]
  refine ⟨_, _, rfl, hended, ?_⟩
  have hfired := fired_fireExitCallbacks
    ({ s with procs := s.procs.joined pid (if wantsCode then some code else none) } : Session) pid
    ((if wantsCode then some code else none).getD 0)
  rwa [hended.exitCallbacks] at hfired

theorem processWait_eq_self {wantsCode joins : Bool} {code : ExitCode}
    (h : ¬ ((s.procs.procs.lookup pid).isSome ∧ joins = true)) :
    s.processWait pid wantsCode joins code = (s, false) := by
  rw [Session.processWait, if_neg]
  rwa [Bool.and_eq_true]

/-- `Process::Terminate`. -/
theorem fired_processTerminate (hknown : (s.procs.procs.lookup pid).isSome) :
    ∃ st', Ended s.procs st' pid ∧
      Fired (({ s with procs := st' } : Session).report pid) (s.processTerminate pid) pid
        s.procs.exitCallbacks.length := by
  obtain ⟨st', code, images, hterminate, hended⟩ := terminate_of_known hknown
  refine ⟨st', hended, ?_⟩
  have hfired := fired_fireExitCallbacks ({ s with procs := st' } : Session) pid code
  rw [Session.processTerminate, hterminate]
  rwa [hended.exitCallbacks] at hfired

theorem processTerminate_eq_self (h : ¬ (s.procs.procs.lookup pid).isSome) :
    s.processTerminate pid = s := by
  rw [Session.processTerminate, terminate_of_unknown h]

/-- `WaitForExit`: the callbacks, and the handlers once more. -/
theorem fired_waitForExit (hknown : (s.procs.procs.lookup s.ctx.pid).isSome) (code : ExitCode) :
    ∃ st', Ended s.procs st' s.ctx.pid ∧
      Fired (({ s with procs := st' } : Session).report s.ctx.pid) (s.waitForExit true code).1
        s.ctx.pid (s.procs.exitCallbacks.length + 1) := by
  obtain ⟨st', after, hwait, hended, hfired⟩ := fired_processWait hknown true code
  refine ⟨st', hended, ?_⟩
  have hown : after.ctx.pid = s.ctx.pid := hfired.own
  rw [Session.waitForExit, hwait]
  dsimp only
  rw [hown]
  exact hfired.trans (fired_callOnExit after s.ctx.pid code _)

theorem Kept.forceTerminate (hs : Kept s) (hguard : EndsOnce s .forceTerminate) :
    Kept s.forceTerminate := by
  rw [EndsOnce] at hguard
  rw [Session.forceTerminate]
  by_cases hpid : s.ctx.pid = 0
  · rw [if_pos hpid] at hguard
    rw [if_pos hpid, Session.setState, if_pos hguard]
    exact hs
  · have hknown := hs.current hpid
    obtain ⟨st', hended, hfired⟩ := fired_processTerminate hknown
    have htimes := hs.callbacks_ne_zero hknown
    rw [if_neg hpid] at hguard ⊢
    refine (hs.ends hknown hended hfired htimes hguard (.inr ⟨hpid, .inl rfl⟩)).leave ?_
    rw [hfired.state, if_neg htimes]

/-- A call that keeps to `EndsOnce`. -/
theorem Kept.step (hs : Kept s) {op : Op} (hguard : EndsOnce s op) : Kept (step s op) := by
  cases op with
  | onExit => exact hs.onExit
  | loadProgram elfPath main thread => exact hs.loadProgram elfPath main thread
  | start threadStarts => exact hs.start threadStarts
  | requestExit exitCode => exact hs.requestExit exitCode
  | waitForExit joins code =>
      rw [Execution.step]
      by_cases hjoined : (s.procs.procs.lookup s.ctx.pid).isSome ∧ joins = true
      · obtain ⟨hnone, hown⟩ := hguard hjoined
        obtain ⟨hknown, rfl⟩ := hjoined
        obtain ⟨st', hended, hfired⟩ := fired_waitForExit hknown code
        exact hs.ends hknown hended hfired (Nat.succ_ne_zero _) (.inl hnone) hown
      · rw [Session.waitForExit, processWait_eq_self hjoined]
        exact hs
  | forceTerminate => exact hs.forceTerminate hguard
  | pause =>
      rw [Execution.step, Session.pause]
      split_ifs
      · exact hs
      · exact hs.setState (by decide)
  | resume =>
      rw [Execution.step, Session.resume]
      split_ifs
      · exact hs
      · exact hs.setState (by decide)
  | dispatchException => exact hs.setState (by decide)
  | reportFault faultAddr description =>
      exact (hs.setInfo _).setState (by decide)
  | reportGuestPanic message =>
      exact (hs.setInfo _).setState (by decide)
  | processWait pid wantsCode joins code =>
      rw [Execution.step]
      by_cases hjoined : (s.procs.procs.lookup pid).isSome ∧ joins = true
      · obtain ⟨honce, hown⟩ := hguard hjoined
        obtain ⟨hknown, rfl⟩ := hjoined
        obtain ⟨st', after, hwait, hended, hfired⟩ := fired_processWait hknown wantsCode code
        rw [hwait]
        exact hs.ends hknown hended hfired (hs.callbacks_ne_zero hknown) honce hown
      · rw [processWait_eq_self hjoined]
        exact hs
  | processTerminate pid =>
      rw [Execution.step]
      by_cases hknown : (s.procs.procs.lookup pid).isSome
      · obtain ⟨honce, hown⟩ := hguard hknown
        obtain ⟨st', hended, hfired⟩ := fired_processTerminate hknown
        exact hs.ends hknown hended hfired (hs.callbacks_ne_zero hknown) honce hown
      · rw [processTerminate_eq_self hknown]
        exact hs

theorem Kept.of_forceTerminate (hs : Kept s) (hafter : ReportedOnce s.forceTerminate) :
    EndsOnce s .forceTerminate := by
  rw [EndsOnce]
  rw [Session.forceTerminate] at hafter
  by_cases hpid : s.ctx.pid = 0
  · rw [if_pos hpid] at hafter ⊢
    by_contra hstate
    have hin : (s.ctx.pid, s.procs.getState s.ctx.pid) ∈
        terminations (s.setState .Terminated).log := by
      rw [terminations_setState, if_pos ⟨rfl, hstate⟩]
      exact List.mem_append_right _ (List.mem_singleton_self _)
    exact (hafter.ended _ hin).1 hpid
  · have hknown := hs.current hpid
    have htimes := hs.callbacks_ne_zero hknown
    obtain ⟨st', hended, hfired⟩ := fired_processTerminate hknown
    rw [if_neg hpid] at hafter ⊢
    refine (hs.of_ends hended hfired htimes ?_).1
    have hstate : (s.processTerminate s.ctx.pid).ctx.state = .Terminated := by
      rw [hfired.state, if_neg htimes]
    rw [Session.setState, if_pos hstate] at hafter
    exact ⟨hafter.once, hafter.ended⟩

/-- A call that does not keep to it is seen at once. -/
theorem Kept.endsOnce (hs : Kept s) {op : Op} (hafter : ReportedOnce (Execution.step s op)) :
    EndsOnce s op := by
  cases op with
  | waitForExit joins code =>
      rintro ⟨hknown, rfl⟩
      obtain ⟨st', hended, hfired⟩ := fired_waitForExit hknown code
      obtain ⟨honce, hown⟩ := hs.of_ends hended hfired (Nat.succ_ne_zero _) hafter
      refine ⟨honce.resolve_right fun h => ?_, hown⟩
      exact hs.callbacks_ne_zero hknown (Nat.succ.inj h.1)
  | forceTerminate => exact hs.of_forceTerminate hafter
  | processWait pid wantsCode joins code =>
      rintro ⟨hknown, rfl⟩
      obtain ⟨st', after, hwait, hended, hfired⟩ := fired_processWait hknown wantsCode code
      rw [Execution.step, hwait] at hafter
      exact hs.of_ends hended hfired (hs.callbacks_ne_zero hknown) hafter
  | processTerminate pid =>
      intro hknown
      obtain ⟨st', hended, hfired⟩ := fired_processTerminate hknown
      exact hs.of_ends hended hfired (hs.callbacks_ne_zero hknown) hafter
  | onExit | loadProgram | start | requestExit | pause | resume | dispatchException
  | reportFault | reportGuestPanic => trivial

end Invariant

/-! ## Runs -/

theorem kept_start : Kept {} where
  once := List.nodup_nil
  ended _ ht := nomatch ht
  handlers := rfl
  loaded _ := ⟨fun _ => rfl, rfl⟩
  current h := absurd rfl h
  reported _ ht := nomatch ht
  told _ h := nomatch h

/-- **Exits are reported once**: in every state of a run no handler has been called twice for a
program, and the session has entered `Terminated` only with an ended process of its own, exactly
if every call of the run keeps to `EndsOnce`. -/
theorem reportedOnce_run_iff (ops : List Op) :
    AllStates step ReportedOnce {} ops ↔ AllSteps step EndsOnce {} ops :=
  allStates_iff_allSteps_of (fun _ hs => hs.toReportedOnce) (fun _ _ _ hs hguard => hs.step hguard)
    (fun _ _ _ hs hafter => hs.endsOnce hafter) kept_start

/-- A handler is registered, and a program loaded, started and waited for: the handler is called
by the exit callback, and again by `WaitForExit`. -/
theorem not_reportedOnce_waitForExit :
    ¬ AllStates step ReportedOnce {}
      [.onExit,
        .loadProgram "eboot.bin" (some { name := "eboot.bin", path := "/app0/eboot.bin" }) 1,
        .start true, .waitForExit true 0] := by
  intro hall
  exact absurd (hall _ (List.prefix_refl _)).once (by decide)

end Execution
