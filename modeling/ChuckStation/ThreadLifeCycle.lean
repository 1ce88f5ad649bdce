/-
# The life of a thread

One thread object, any number of callers that start, stop and join it, and the host threads that
run its entry.  Each access to the state, to the exit code and to `osThread` is a step of its own,
and the steps of all threads come in any order.  A host thread runs the entry from the moment
it is made until it has stored the exit code and `Dead`.

* `LifeCycle`: what is expected of the object.
* `Undisturbed`: the exact condition, on the steps of the callers, under which it holds.
-/
import ChuckStation.Bytes
import ChuckStation.OperationRuns

namespace KernelRuntime

open OperationRuns

/-! ## The object -/

inductive ThreadState where
  | Created
  | Running
  | Sleeping
  | Waiting
  | Stopped
  | Dead
  deriving DecidableEq, Repr

abbrev ExitCode := BitVec 32

/-- A host thread that runs the entry. -/
inductive Worker where
  | running
  | returned (code : ExitCode)
  deriving DecidableEq

/-- Where a caller is: the next thing it does to the object. -/
inductive ThreadCall where
  | outside
  | startLoad
  | startStore
  | startConstruct
  | startAssign (worker : ℕ)
  | stopStore
  | stopJoinable
  | stopDetach
  | joinJoinable (wantsCode : Bool) (timeoutUs : U64)
  | joinPoll (wantsCode : Bool)
  | joinDead (wantsCode : Bool)
  | joinStillJoinable (wantsCode : Bool)
  | joinJoin (wantsCode : Bool)
  | joinRead (wantsCode : Bool)
  | joinState (written : Option ExitCode)
  deriving DecidableEq

/-- A `JoinThread` that has returned: its result, what it has written to `exitCode`, and the host
threads at that moment. -/
structure JoinRecord where
  result : Bool
  written : Option ExitCode
  workers : List Worker

/-- `struct KThread`, with the host threads that were made for it (`osThread` holds the number of
one of them), the callers, and the joins that have returned. -/
structure ThreadRun (ι : Type) where
  fn : Bool
  state : ThreadState := .Created
  exitCode : ExitCode := 0
  osThread : Option ℕ := none
  workers : List Worker := []
  call : ι → ThreadCall := fun _ => .outside
  joins : List JoinRecord := []

/-- What the scheduler does next; `expired` is what the clock says in a polling join. -/
inductive ThreadEvent (ι : Type) where
  | startThread (t : ι)
  | stopThread (t : ι)
  | joinThread (t : ι) (wantsCode : Bool) (timeoutUs : U64)
  | go (t : ι) (expired : Bool)
  | entryReturns (worker : ℕ) (code : ExitCode)

/-- `std::terminate`, when a joinable thread is assigned to; `std::system_error`, when one is
joined or detached that is not joinable. -/
inductive ThreadFault where
  | terminate
  | systemError

section Step

variable {ι : Type} [DecidableEq ι]

def ThreadRun.goTo (s : ThreadRun ι) (t : ι) (c : ThreadCall) : ThreadRun ι :=
  { s with call := Function.update s.call t c }

/-- A caller makes a call, if it is not in one. -/
def ThreadRun.enter (s : ThreadRun ι) (t : ι) (c : ThreadCall) : ThreadRun ι :=
  if s.call t = .outside then s.goTo t c else s

/-- `StartThread`, `StopThread` and `JoinThread`, one access at a time. -/
def ThreadRun.go (s : ThreadRun ι) (t : ι) (expired : Bool) : Except ThreadFault (ThreadRun ι) :=
  match s.call t with
  | .outside => .ok s
  | .startLoad => .ok (s.goTo t (if s.state = .Created then .startStore else .outside))
  | .startStore => .ok { s.goTo t .startConstruct with state := .Running }
  | .startConstruct =>
    .ok { s.goTo t (.startAssign s.workers.length) with workers := s.workers ++ [.running] }
  | .startAssign worker =>
    if s.osThread.isSome then .error .terminate
    else .ok { s.goTo t .outside with osThread := some worker }
  | .stopStore => .ok { s.goTo t .stopJoinable with state := .Stopped }
  | .stopJoinable => .ok (s.goTo t (if s.osThread.isSome then .stopDetach else .outside))
  | .stopDetach =>
    if s.osThread.isSome then .ok { s.goTo t .outside with osThread := none }
    else .error .systemError
  | .joinJoinable wantsCode timeoutUs =>
    .ok (s.goTo t (if s.osThread.isSome then
      if timeoutUs = uint64Max then .joinJoin wantsCode else .joinPoll wantsCode
      else .joinRead wantsCode))
  | .joinPoll wantsCode =>
    .ok (if s.state = .Dead ∨ expired = true then s.goTo t (.joinDead wantsCode) else s)
  | .joinDead wantsCode =>
    .ok (s.goTo t (if s.state = .Dead then .joinStillJoinable wantsCode else .joinRead wantsCode))
  | .joinStillJoinable wantsCode =>
    .ok (s.goTo t (if s.osThread.isSome then .joinJoin wantsCode else .joinRead wantsCode))
  | .joinJoin wantsCode => match s.osThread with
    | none => .error .systemError
    | some worker => match s.workers[worker]? with
      | some (.returned _) => .ok { s.goTo t (.joinRead wantsCode) with osThread := none }
      -- It waits.
      | _ => .ok s
  | .joinRead wantsCode =>
    .ok (s.goTo t (.joinState (if wantsCode then some s.exitCode else none)))
  | .joinState written =>
    .ok { s.goTo t .outside with joins := s.joins ++ [⟨s.state == .Dead, written, s.workers⟩] }

/-- The end of a host thread. -/
def ThreadRun.entryReturns (s : ThreadRun ι) (worker : ℕ) (code : ExitCode) : ThreadRun ι :=
  match s.workers[worker]? with
  | some .running =>
    let code := if s.fn then code else 0
    { s with
      workers := s.workers.set worker (.returned code)
      exitCode := code
      state := .Dead }
  | _ => s

def threadStep (s : ThreadRun ι) : ThreadEvent ι → Except ThreadFault (ThreadRun ι)
  | .startThread t => .ok (s.enter t .startLoad)
  | .stopThread t => .ok (s.enter t .stopStore)
  | .joinThread t wantsCode timeoutUs => .ok (s.enter t (.joinJoinable wantsCode timeoutUs))
  | .go t expired => s.go t expired
  | .entryReturns worker code => .ok (s.entryReturns worker code)

end Step

/-! ## The contract -/

section Contract

variable {ι : Type}

/-- The entry has returned. -/
def HasReturned (workers : List Worker) : Prop := ∃ code, .returned code ∈ workers

/-- It is started at most once; once it has returned, the state is `Dead`, and it is `Stopped`
only before that; and a join returns true exactly if it has returned, with its exit code. -/
structure LifeCycle (s : ThreadRun ι) : Prop where
  once : s.workers.length ≤ 1
  dead : HasReturned s.workers → s.state = .Dead
  stopped : s.state = .Stopped → ¬ HasReturned s.workers
  joined : ∀ r ∈ s.joins, r.result = true ↔ HasReturned r.workers
  codes : ∀ r ∈ s.joins, r.result = true → ∀ code, r.written = some code →
    .returned code ∈ r.workers

/-- Nobody disturbs the thread:

* `StopThread` and `StartThread` store a state only before the entry has returned;
* `StartThread` makes a host thread only if none has been made before;
* when a join finds `Dead`, the exit code is the one that it has read before. -/
def Undisturbed (s : ThreadRun ι) : ThreadEvent ι → Prop
  | .go t _ => match s.call t with
    | .startStore | .stopStore => ¬ HasReturned s.workers
    | .startConstruct => s.workers = []
    | .joinState written => s.state = .Dead → ∀ code, written = some code → code = s.exitCode
    | _ => True
  | _ => True

/-- The exit code is that of the entry, and `Dead` means that it has returned. -/
structure ThreadKept (s : ThreadRun ι) : Prop extends LifeCycle s where
  returned : s.state = .Dead → HasReturned s.workers
  code : ∀ code, .returned code ∈ s.workers → code = s.exitCode

variable {s s' : ThreadRun ι}

theorem ThreadKept.same (hs : ThreadKept s) (hstate : s'.state = s.state)
    (hworkers : s'.workers = s.workers) (hcode : s'.exitCode = s.exitCode)
    (hjoins : s'.joins = s.joins) : ThreadKept s' := by
  constructor
  · constructor
    · rw [hworkers]
      exact hs.once
    · rw [hworkers, hstate]
      exact hs.dead
    · rw [hworkers, hstate]
      exact hs.stopped
    · rw [hjoins]
      exact hs.joined
    · rw [hjoins]
      exact hs.codes
  · rw [hworkers, hstate]
    exact hs.returned
  · rw [hworkers, hcode]
    exact hs.code

/-- A state that is not `Dead` is stored before the entry has returned. -/
theorem ThreadKept.store (hs : ThreadKept s) (hnot : ¬ HasReturned s.workers)
    (hdead : s'.state ≠ .Dead) (hworkers : s'.workers = s.workers)
    (hcode : s'.exitCode = s.exitCode) (hjoins : s'.joins = s.joins) : ThreadKept s' := by
  rw [← hworkers] at hnot
  refine ⟨⟨?_, fun h => absurd h hnot, fun _ => hnot, ?_, ?_⟩, fun h => absurd h hdead, ?_⟩
  · rw [hworkers]
    exact hs.once
  · rw [hjoins]
    exact hs.joined
  · rw [hjoins]
    exact hs.codes
  · rw [hworkers, hcode]
    exact hs.code

theorem not_hasReturned_nil : ¬ HasReturned [] := by
  rintro ⟨code, hcode⟩
  cases hcode

theorem not_hasReturned_running : ¬ HasReturned [.running] := by
  rintro ⟨code, hcode⟩
  rw [List.mem_singleton] at hcode
  cases hcode

/-- The first host thread is made. -/
theorem ThreadKept.construct (hs : ThreadKept s) (hnone : s.workers = [])
    (hworkers : s'.workers = [.running]) (hstate : s'.state = s.state)
    (hjoins : s'.joins = s.joins) : ThreadKept s' := by
  have hnot : ¬ HasReturned s'.workers := by
    rw [hworkers]
    exact not_hasReturned_running
  refine ⟨⟨?_, fun h => absurd h hnot, fun _ => hnot, ?_, ?_⟩, fun h => ?_, fun code hcode => ?_⟩
  · rw [hworkers]
    exact le_refl 1
  · rw [hjoins]
    exact hs.joined
  · rw [hjoins]
    exact hs.codes
  · -- It was not `Dead` before: nothing had returned.
    rw [hstate] at h
    have hreturned := hs.returned h
    rw [hnone] at hreturned
    exact absurd hreturned not_hasReturned_nil
  · exact absurd ⟨code, hcode⟩ hnot

/-- A join returns. -/
theorem ThreadKept.join (hs : ThreadKept s) {written : Option ExitCode}
    (hwritten : s.state = .Dead → ∀ code, written = some code → code = s.exitCode)
    (hstate : s'.state = s.state) (hworkers : s'.workers = s.workers)
    (hcode : s'.exitCode = s.exitCode)
    (hjoins : s'.joins = s.joins ++ [⟨s.state == .Dead, written, s.workers⟩]) :
    ThreadKept s' := by
  have hsame : ThreadKept { s' with joins := s.joins } := hs.same hstate hworkers hcode rfl
  refine ⟨⟨hsame.once, hsame.dead, hsame.stopped, ?_, ?_⟩, hsame.returned, hsame.code⟩
  · intro r hr
    rw [hjoins, List.mem_append, List.mem_singleton] at hr
    rcases hr with hr | rfl
    · exact hs.joined r hr
    · rw [beq_iff_eq]
      exact ⟨hs.returned, hs.dead⟩
  · intro r hr hresult code heq
    rw [hjoins, List.mem_append, List.mem_singleton] at hr
    rcases hr with hr | rfl
    · exact hs.codes r hr hresult code heq
    · have hdead : s.state = .Dead := beq_iff_eq.mp hresult
      obtain ⟨returned, hreturned⟩ := hs.returned hdead
      rw [hwritten hdead code heq, ← hs.code returned hreturned]
      exact hreturned

/-- The entry returns: it is the only one. -/
theorem ThreadKept.entryReturns (hs : ThreadKept s) (worker : ℕ) (code : ExitCode) :
    ThreadKept (s.entryReturns worker code) := by
  rw [ThreadRun.entryReturns]
  split
  · rename_i hworker
    -- So far there is one host thread, and it is running.
    have honly : s.workers = [.running] := by
      obtain ⟨hlt, hget⟩ := List.getElem?_eq_some_iff.mp hworker
      have hlen := hs.once
      obtain ⟨w, hw⟩ := List.length_eq_one_iff.mp (by omega : s.workers.length = 1)
      have hmem := List.getElem_mem hlt
      rw [hget, hw, List.mem_singleton] at hmem
      rw [hw, ← hmem]
    have hzero : worker = 0 := by
      have hlt := (List.getElem?_eq_some_iff.mp hworker).1
      rw [honly, List.length_singleton] at hlt
      omega
    subst hzero
    rw [honly]
    have hreturned : HasReturned [.returned (if s.fn then code else 0)] :=
      ⟨_, List.mem_singleton_self _⟩
    refine ⟨⟨le_refl 1, fun _ => rfl, fun h => ?_, hs.joined, hs.codes⟩, fun _ => hreturned, ?_⟩
    · cases h
    · intro other hother
      have hother : Worker.returned other ∈ [.returned (if s.fn then code else 0)] := hother
      rw [List.mem_singleton] at hother
      exact Worker.returned.inj hother
  · exact hs

variable [DecidableEq ι]

/-- A caller goes on. -/
theorem ThreadKept.go (hs : ThreadKept s) {t : ι} {expired : Bool}
    (hguard : Undisturbed s (.go t expired)) (h : s.go t expired = .ok s') : ThreadKept s' := by
  have hsame : ∀ {r : ThreadRun ι}, Except.ok r = (Except.ok s' : Except ThreadFault _) →
      r.state = s.state → r.workers = s.workers → r.exitCode = s.exitCode → r.joins = s.joins →
      ThreadKept s' := by
    rintro r ⟨⟩
    exact hs.same
  rw [Undisturbed] at hguard
  rw [ThreadRun.go] at h
  cases hcall : s.call t with
  | outside =>
      rw [hcall] at h
      exact hsame h rfl rfl rfl rfl
  | startStore =>
      rw [hcall] at h hguard
      cases h
      exact hs.store hguard (by simp) rfl rfl rfl
  | stopStore =>
      rw [hcall] at h hguard
      cases h
      exact hs.store hguard (by simp) rfl rfl rfl
  | startConstruct =>
      rw [hcall] at h hguard
      cases h
      refine hs.construct hguard ?_ rfl rfl
      show s.workers ++ [.running] = [.running]
      rw [hguard, List.nil_append]
  | startAssign worker =>
      rw [hcall] at h
      dsimp only at h
      split_ifs at h
      exact hsame h rfl rfl rfl rfl
  | stopDetach =>
      rw [hcall] at h
      dsimp only at h
      split_ifs at h
      exact hsame h rfl rfl rfl rfl
  | joinJoin wantsCode =>
      rw [hcall] at h
      dsimp only at h
      split at h
      · cases h
      · split at h
        · exact hsame h rfl rfl rfl rfl
        · exact hsame h rfl rfl rfl rfl
  | joinPoll wantsCode =>
      rw [hcall] at h
      dsimp only at h
      split_ifs at h
      · exact hsame h rfl rfl rfl rfl
      · exact hsame h rfl rfl rfl rfl
  | joinState written =>
      rw [hcall] at h hguard
      cases h
      exact hs.join hguard rfl rfl rfl rfl
  | startLoad | stopJoinable | joinJoinable | joinDead | joinStillJoinable | joinRead =>
      rw [hcall] at h
      exact hsame h rfl rfl rfl rfl

/-- **One step** that does not disturb the thread. -/
theorem ThreadKept.step (hs : ThreadKept s) {e : ThreadEvent ι} (hguard : Undisturbed s e)
    (h : threadStep s e = .ok s') : ThreadKept s' := by
  have henter : ∀ t c, ThreadKept (s.enter t c) := by
    intro t c
    rw [ThreadRun.enter]
    split_ifs
    · exact hs.same rfl rfl rfl rfl
    · exact hs
  unfold threadStep at h
  cases e with
  | startThread t =>
      cases h
      exact henter t _
  | stopThread t =>
      cases h
      exact henter t _
  | joinThread t wantsCode timeoutUs =>
      cases h
      exact henter t _
  | go t expired => exact hs.go hguard h
  | entryReturns worker code =>
      cases h
      exact hs.entryReturns worker code

/-- A step that disturbs the thread is seen at once. -/
theorem ThreadKept.undisturbed (hs : ThreadKept s) {e : ThreadEvent ι}
    (hafter : ∀ s', threadStep s e = .ok s' → LifeCycle s') : Undisturbed s e := by
  cases e with
  | go t expired =>
      have hgo : ∀ s', s.go t expired = .ok s' → LifeCycle s' := hafter
      rw [ThreadRun.go] at hgo
      rw [Undisturbed]
      cases hcall : s.call t with
      | startStore =>
          rw [hcall] at hgo
          intro hreturned
          have hdead : ThreadState.Running = .Dead := (hgo _ rfl).dead hreturned
          cases hdead
      | stopStore =>
          rw [hcall] at hgo
          exact (hgo _ rfl).stopped rfl
      | startConstruct =>
          rw [hcall] at hgo
          have hlen : (s.workers ++ [Worker.running]).length ≤ 1 := (hgo _ rfl).once
          rw [List.length_append, List.length_singleton] at hlen
          exact List.eq_nil_of_length_eq_zero (by omega)
      | joinState written =>
          rw [hcall] at hgo
          intro hdead code hcode
          have hin := (hgo _ rfl).codes ⟨s.state == .Dead, written, s.workers⟩
            (List.mem_append_right _ (List.mem_singleton_self _)) (beq_iff_eq.mpr hdead) code hcode
          exact hs.code code hin
      | outside | startLoad | startAssign | stopJoinable | stopDetach | joinJoinable | joinPoll
      | joinDead | joinStillJoinable | joinJoin | joinRead => trivial
  | startThread | stopThread | joinThread | entryReturns => trivial

end Contract

/-! ## Runs -/

section Runs

variable {ι : Type}

theorem threadKept_start (fn : Bool) : ThreadKept ({ fn := fn } : ThreadRun ι) where
  once := Nat.zero_le 1
  dead h := absurd h not_hasReturned_nil
  stopped _ := not_hasReturned_nil
  joined _ hr := nomatch hr
  codes _ hr := nomatch hr
  returned h := by cases h
  code _ hcode := nomatch hcode

variable [DecidableEq ι]

end Runs

end KernelRuntime
