/-
# The thread pool of the performance tools

`PerfState::ThreadPool` (`PerfTools.cpp`): workers that take tasks from one queue under `mtx`, and
clients that submit tasks, wait for all of them and stop the pool.  `stop` and `activeTasks` are
atomics beside the mutex: a worker counts its task down, and `Stop` sets its flag, without it.

A run is any order of the steps of any number of workers and clients.  A critical section that
nothing can look into is one step; testing a predicate and blocking on it are two, since the atomics
can change in between.  A blocked thread may wake at any time.

* `pool_accounts`: in every run each task is taken once, in the order of submission, and run once;
  `WaitAll` returns after the tasks submitted before it; the workers do not exit before the tasks
  submitted before `Stop`.
-/
import ChuckStation.OperationRuns
import Mathlib.Algebra.BigOperators.Group.Finset.Basic
import Mathlib.Algebra.Order.Group.Multiset
import Mathlib.Data.Fintype.BigOperators

namespace PerfTools

open OperationRuns

/-! ## Places -/

/-- Where a worker is. -/
inductive WorkerPlace (τ : Type) where
  /-- Before it locks `mtx`, in front of `cv.wait` or inside of it. -/
  | locking
  /-- It has locked `mtx` and asks whether to go on. -/
  | testing
  /-- It is about to block, with `mtx` still locked. -/
  | parking
  /-- It is blocked in `cv.wait`. -/
  | parked
  /-- It has left `cv.wait`, with `mtx` locked. -/
  | chosen
  | running (task : τ)
  /-- `task()` has returned. -/
  | finishing
  /-- Behind `activeTasks--`. -/
  | notifying
  | exited

/-- Where a client is. -/
inductive ClientPlace (τ : Type) where
  | idle
  /-- In `Submit`, before the lock. -/
  | pushing (task : τ)
  /-- In `Submit`, before `cv.notify_all`. -/
  | pushed
  /-- In `WaitAll`; the places are those of a worker. -/
  | waitLocking
  | waitTesting
  | waitParking
  | waitParked
  /-- `WaitAll` has left `waitCv.wait`. -/
  | waitDone
  /-- In `Stop`, behind `stop = true`. -/
  | stopping
  /-- In `Stop`, before the workers are joined. -/
  | joining

namespace WorkerPlace

variable {τ : Type}

/-- The worker holds `mtx`. -/
def holds : WorkerPlace τ → Bool
  | testing | parking | chosen => true
  | _ => false

def isExited : WorkerPlace τ → Bool
  | exited => true
  | _ => false

/-- The task that is being run. -/
def task : WorkerPlace τ → Multiset τ
  | running t => {t}
  | _ => 0

/-- What the worker contributes to `activeTasks`. -/
def busy : WorkerPlace τ → ℕ
  | running _ | finishing => 1
  | _ => 0

/-- `cv.notify_all`. -/
def notified : WorkerPlace τ → WorkerPlace τ
  | parked => locking
  | p => p

end WorkerPlace

namespace ClientPlace

variable {τ : Type}

/-- The client holds `mtx`. -/
def holds : ClientPlace τ → Bool
  | waitTesting | waitParking | waitDone => true
  | _ => false

/-- `waitCv.notify_all`. -/
def notified : ClientPlace τ → ClientPlace τ
  | waitParked => waitLocking
  | p => p

end ClientPlace

section Updates

variable {ι κ τ : Type} [DecidableEq ι] [DecidableEq κ]

theorem exited_of_update {w : ι → WorkerPlace τ} {p : WorkerPlace τ} {i j : ι} (hp : p ≠ .exited)
    (hj : Function.update w i p j = .exited) : w j = .exited := by
  by_cases hji : j = i
  · rw [hji, Function.update_self] at hj
    exact absurd hj hp
  · rwa [Function.update_of_ne hji] at hj

theorem waitDone_of_update {c : κ → ClientPlace τ} {p : ClientPlace τ} {k j : κ}
    (hp : p ≠ .waitDone) (hj : Function.update c k p j = .waitDone) : j ≠ k ∧ c j = .waitDone := by
  by_cases hjk : j = k
  · rw [hjk, Function.update_self] at hj
    exact absurd hj hp
  · exact ⟨hjk, by rwa [Function.update_of_ne hjk] at hj⟩

end Updates

/-! ## The pool -/

/-- The pool with its workers `ι` and clients `κ`.  Beside it, what has been submitted, taken, run
to the end and thrown away so far; for every client, how much had been submitted when it called
`WaitAll`; and how much had been when `stop` was set first. -/
structure Pool (ι κ τ : Type) where
  tasks : List τ := []
  activeTasks : ℕ := 0
  stop : Bool := false
  mtx : Option (ι ⊕ κ) := none
  worker : ι → WorkerPlace τ := fun _ => .locking
  client : κ → ClientPlace τ := fun _ => .idle
  submitted : List τ := []
  started : List τ := []
  finished : List τ := []
  cleared : List τ := []
  submittedBefore : κ → ℕ := fun _ => 0
  stopAfter : Option ℕ := none

/-- What a client calls. -/
inductive PoolCall (τ : Type) where
  | submit (task : τ)
  | waitAll
  | stop

/-- What the scheduler does next. -/
inductive PoolEvent (ι κ τ : Type) where
  | call (k : κ) (c : PoolCall τ)
  | client (k : κ)
  | worker (i : ι)
  | wakeClient (k : κ)
  | wakeWorker (i : ι)

section Steps

variable {ι κ τ : Type} [DecidableEq ι] [DecidableEq κ]

def Pool.setWorker (s : Pool ι κ τ) (i : ι) (p : WorkerPlace τ) : Pool ι κ τ :=
  { s with worker := Function.update s.worker i p }

def Pool.setClient (s : Pool ι κ τ) (k : κ) (p : ClientPlace τ) : Pool ι κ τ :=
  { s with client := Function.update s.client k p }

/-- A worker goes on. -/
def Pool.workerGo (s : Pool ι κ τ) (i : ι) : Pool ι κ τ :=
  match s.worker i with
  | .locking => if s.mtx.isNone then { s.setWorker i .testing with mtx := some (.inl i) } else s
  | .testing => s.setWorker i (if s.stop || !s.tasks.isEmpty then .chosen else .parking)
  | .parking => { s.setWorker i .parked with mtx := none }
  | .chosen =>
    match s.tasks with
    | [] => if s.stop then { s.setWorker i .exited with mtx := none } else s
    | t :: tasks =>
      { s.setWorker i (.running t) with
        tasks := tasks
        activeTasks := s.activeTasks + 1
        mtx := none
        started := s.started ++ [t] }
  | .running t => { s.setWorker i .finishing with finished := s.finished ++ [t] }
  | .finishing => { s.setWorker i .notifying with activeTasks := s.activeTasks - 1 }
  | .notifying => { s.setWorker i .locking with client := fun k => (s.client k).notified }
  | .parked | .exited => s

variable [Fintype ι]

/-- A client goes on. -/
def Pool.clientGo (s : Pool ι κ τ) (k : κ) : Pool ι κ τ :=
  match s.client k with
  | .pushing t =>
    if s.mtx.isNone then
      { s.setClient k .pushed with tasks := s.tasks ++ [t], submitted := s.submitted ++ [t] }
    else s
  | .pushed => { s.setClient k .idle with worker := fun i => (s.worker i).notified }
  | .waitLocking =>
    if s.mtx.isNone then { s.setClient k .waitTesting with mtx := some (.inr k) } else s
  | .waitTesting =>
    s.setClient k (if s.tasks.isEmpty && s.activeTasks == 0 then .waitDone else .waitParking)
  | .waitParking => { s.setClient k .waitParked with mtx := none }
  | .waitDone => { s.setClient k .idle with mtx := none }
  | .stopping => { s.setClient k .joining with worker := fun i => (s.worker i).notified }
  | .joining =>
    if ∀ i, (s.worker i).isExited = true then
      { s.setClient k .idle with tasks := [], cleared := s.cleared ++ s.tasks }
    else s
  | .idle | .waitParked => s

/-- A client calls. -/
def Pool.call (s : Pool ι κ τ) (k : κ) : PoolCall τ → Pool ι κ τ
  | .submit t => s.setClient k (.pushing t)
  | .waitAll =>
    { s.setClient k .waitLocking with
      submittedBefore := Function.update s.submittedBefore k s.submitted.length }
  | .stop =>
    { s.setClient k .stopping with
      stop := true
      stopAfter := some (s.stopAfter.getD s.submitted.length) }

/-- One step of one thread.  Only an idle client calls. -/
def poolStep (s : Pool ι κ τ) : PoolEvent ι κ τ → Pool ι κ τ
  | .call k c =>
    match s.client k with
    | .idle => s.call k c
    | _ => s
  | .client k => s.clientGo k
  | .worker i => s.workerGo i
  | .wakeClient k => s.setClient k (s.client k).notified
  | .wakeWorker i => s.setWorker i (s.worker i).notified

end Steps

/-! ## Accounts -/

section Accounts

variable {ι κ τ : Type} [Fintype ι]

/-- What has become of the tasks. -/
structure Accounts (s : Pool ι κ τ) : Prop where
  /-- Tasks are taken in the order of submission, and none is lost before `Stop` has come back. -/
  order : s.submitted = s.started ++ (s.cleared ++ s.tasks)
  /-- A task that was taken has been run to the end once, or is being run by one worker. -/
  ran : (s.finished : Multiset τ) + ∑ i, (s.worker i).task = s.started
  active : s.activeTasks = ∑ i, (s.worker i).busy
  clearedLast : s.cleared ≠ [] → ∀ i, s.worker i = .exited
  before : ∀ k, s.submittedBefore k ≤ s.submitted.length
  /-- `WaitAll` comes back after the tasks submitted before it. -/
  waited : ∀ k, s.client k = .waitDone →
    (s.submitted.take (s.submittedBefore k) : Multiset τ) ≤ s.finished + s.cleared
  stopped : s.stop = s.stopAfter.isSome
  stoppedBefore : ∀ n, s.stopAfter = some n → n ≤ s.submitted.length
  /-- No worker exits before the tasks that were submitted before `Stop` are taken. -/
  drained : ∀ i, s.worker i = .exited → ∃ n, s.stopAfter = some n ∧ n ≤ s.started.length

variable {s : Pool ι κ τ} {i : ι} {k : κ}

/-- Threads move without touching a task. -/
theorem Accounts.moves (h : Accounts s) {m : Option (ι ⊕ κ)} {w : ι → WorkerPlace τ}
    {c : κ → ClientPlace τ} (htask : ∀ i, (w i).task = (s.worker i).task)
    (hbusy : ∀ i, (w i).busy = (s.worker i).busy)
    (hexit : ∀ i, w i = .exited ↔ s.worker i = .exited)
    (hdone : ∀ k, c k = .waitDone → s.client k = .waitDone) :
    Accounts { s with mtx := m, worker := w, client := c } where
  order := h.order
  ran := by
    rw [← h.ran]
    show (s.finished : Multiset τ) + ∑ i, (w i).task = _
    simp only [htask]
  active := by
    rw [h.active]
    show _ = ∑ i, (w i).busy
    simp only [hbusy]
  clearedLast hne i := (hexit i).mpr (h.clearedLast hne i)
  before := h.before
  waited k hk := h.waited k (hdone k hk)
  stopped := h.stopped
  stoppedBefore := h.stoppedBefore
  drained i hi := h.drained i ((hexit i).mp hi)

theorem isExited_iff {p : WorkerPlace τ} : p.isExited = true ↔ p = .exited := by
  cases p <;> simp [WorkerPlace.isExited]

theorem task_notified (p : WorkerPlace τ) : p.notified.task = p.task := by
  cases p <;> rfl

theorem busy_notified (p : WorkerPlace τ) : p.notified.busy = p.busy := by
  cases p <;> rfl

theorem notified_eq_exited_iff {p : WorkerPlace τ} : p.notified = .exited ↔ p = .exited := by
  cases p <;> simp [WorkerPlace.notified]

theorem eq_waitDone_of_notified {p : ClientPlace τ} (h : p.notified = .waitDone) :
    p = .waitDone := by
  cases p <;> simp_all [ClientPlace.notified]

theorem cleared_eq_nil (h : Accounts s) (hi : s.worker i ≠ .exited) : s.cleared = [] := by
  by_contra hne
  exact hi (h.clearedLast hne i)

/-- A task is submitted. -/
theorem Accounts.push (h : Accounts s) {c : κ → ClientPlace τ} (t : τ)
    (hdone : ∀ k, c k = .waitDone → s.client k = .waitDone) :
    Accounts { s with
      client := c, tasks := s.tasks ++ [t], submitted := s.submitted ++ [t] } := by
  have hlen : s.submitted.length ≤ (s.submitted ++ [t]).length := by simp
  refine ⟨?_, h.ran, h.active, h.clearedLast, fun k => (h.before k).trans hlen, fun k hk => ?_,
    h.stopped, fun n hn => (h.stoppedBefore n hn).trans hlen, h.drained⟩
  · show s.submitted ++ [t] = s.started ++ (s.cleared ++ (s.tasks ++ [t]))
    rw [h.order]
    simp
  · show (((s.submitted ++ [t]).take (s.submittedBefore k) : List τ) : Multiset τ) ≤ _
    rw [List.take_append_of_le_length (h.before k)]
    exact h.waited k (hdone k hk)

/-- Nothing is queued and nothing is running. -/
theorem Accounts.allRun (h : Accounts s) (htasks : s.tasks = []) (hactive : s.activeTasks = 0) :
    (s.submitted : Multiset τ) = s.finished + s.cleared := by
  have hzero : ∀ i, (s.worker i).busy = 0 := by
    rw [h.active] at hactive
    simpa using hactive
  have htask : ∀ i, (s.worker i).task = 0 := by
    intro i
    have hi := hzero i
    revert hi
    cases s.worker i <;> simp [WorkerPlace.busy, WorkerPlace.task]
  have hran := h.ran
  simp only [htask, Finset.sum_const_zero, add_zero] at hran
  rw [h.order, htasks, List.append_nil, hran]
  rfl

section Workers

variable [DecidableEq ι]

/-- One summand of a sum over the workers changes. -/
theorem sum_update {M : Type} [AddCommMonoid M] (f : WorkerPlace τ → M) (w : ι → WorkerPlace τ)
    (i : ι) (p : WorkerPlace τ) :
    ∑ j, f (Function.update w i p j) + f (w i) = ∑ j, f (w j) + f p := by
  have hrest : ∑ j ∈ Finset.univ.erase i, f (Function.update w i p j) =
      ∑ j ∈ Finset.univ.erase i, f (w j) := by
    refine Finset.sum_congr rfl fun j hj => ?_
    rw [Function.update_of_ne (Finset.ne_of_mem_erase hj)]
  rw [← Finset.sum_erase_add _ _ (Finset.mem_univ i), hrest, Function.update_self,
    ← Finset.sum_erase_add Finset.univ (fun j => f (w j)) (Finset.mem_univ i)]
  exact add_right_comm _ _ _

/-- One worker moves without touching a task. -/
theorem Accounts.movesOne (h : Accounts s) {m : Option (ι ⊕ κ)} {c : κ → ClientPlace τ}
    {p q : WorkerPlace τ} (hi : s.worker i = q) (htask : p.task = q.task) (hbusy : p.busy = q.busy)
    (hp : p ≠ .exited) (hq : q ≠ .exited) (hdone : ∀ k, c k = .waitDone → s.client k = .waitDone) :
    Accounts { s with mtx := m, worker := Function.update s.worker i p, client := c } := by
  subst hi
  refine h.moves (fun j => ?_) (fun j => ?_) (fun j => ?_) hdone
  · by_cases hj : j = i
    · rw [hj, Function.update_self, htask]
    · rw [Function.update_of_ne hj]
  · by_cases hj : j = i
    · rw [hj, Function.update_self, hbusy]
    · rw [Function.update_of_ne hj]
  · by_cases hj : j = i
    · rw [hj, Function.update_self]
      exact iff_of_false hp hq
    · rw [Function.update_of_ne hj]

/-- A worker takes the task in front. -/
theorem Accounts.take (h : Accounts s) (hi : s.worker i = .chosen) {t : τ} {tasks : List τ}
    (htasks : s.tasks = t :: tasks) :
    Accounts { s.setWorker i (.running t) with
      tasks := tasks
      activeTasks := s.activeTasks + 1
      mtx := none
      started := s.started ++ [t] } := by
  have hne : s.worker i ≠ .exited := by
    rw [hi]
    simp
  have hcleared := cleared_eq_nil h hne
  have hsum := sum_update WorkerPlace.task s.worker i (.running t)
  have hbusy := sum_update WorkerPlace.busy s.worker i (.running t)
  rw [hi] at hsum hbusy
  refine ⟨?_, ?_, ?_, fun hc => absurd hcleared hc, h.before, h.waited, h.stopped, h.stoppedBefore,
    fun j hj => ?_⟩
  · show s.submitted = (s.started ++ [t]) ++ (s.cleared ++ tasks)
    rw [h.order, hcleared, htasks]
    simp
  · show (s.finished : Multiset τ) + ∑ j, (Function.update s.worker i (.running t) j).task =
      ((s.started ++ [t] : List τ) : Multiset τ)
    have hsum' : ∑ j, (Function.update s.worker i (.running t) j).task =
        ∑ j, (s.worker j).task + {t} := by
      simpa [WorkerPlace.task] using hsum
    rw [hsum', ← add_assoc, h.ran]
    rfl
  · show s.activeTasks + 1 = ∑ j, (Function.update s.worker i (.running t) j).busy
    rw [h.active]
    simpa [WorkerPlace.busy] using hbusy.symm
  · obtain ⟨n, hn, hle⟩ := h.drained j (exited_of_update (by simp) hj)
    refine ⟨n, hn, ?_⟩
    show n ≤ (s.started ++ [t]).length
    rw [List.length_append]
    omega

/-- A task returns. -/
theorem Accounts.finish (h : Accounts s) {t : τ} (hi : s.worker i = .running t) :
    Accounts { s.setWorker i .finishing with finished := s.finished ++ [t] } := by
  have hsum := sum_update WorkerPlace.task s.worker i .finishing
  have hbusy := sum_update WorkerPlace.busy s.worker i .finishing
  rw [hi] at hsum hbusy
  have hcoe : ((s.finished ++ [t] : List τ) : Multiset τ) = (s.finished : Multiset τ) + {t} := rfl
  refine ⟨h.order, ?_, ?_, fun hc j => ?_, h.before, fun k hk => ?_, h.stopped, h.stoppedBefore,
    fun j hj => ?_⟩
  · show ((s.finished ++ [t] : List τ) : Multiset τ) +
      ∑ j, (Function.update s.worker i .finishing j).task = s.started
    have hsum' : {t} + ∑ j, (Function.update s.worker i .finishing j).task =
        ∑ j, (s.worker j).task := by
      rw [add_comm]
      simpa [WorkerPlace.task] using hsum
    rw [hcoe, add_assoc, hsum', h.ran]
  · show s.activeTasks = ∑ j, (Function.update s.worker i .finishing j).busy
    rw [h.active]
    simpa [WorkerPlace.busy] using hbusy.symm
  · have hall := h.clearedLast hc i
    rw [hi] at hall
    cases hall
  · refine (h.waited k hk).trans ?_
    show (s.finished : Multiset τ) + s.cleared ≤
      ((s.finished ++ [t] : List τ) : Multiset τ) + s.cleared
    rw [hcoe]
    exact add_le_add_left (Multiset.le_add_right _ _) _
  · exact h.drained j (exited_of_update (by simp) hj)

/-- A task is counted down. -/
theorem Accounts.countDown (h : Accounts s) (hi : s.worker i = .finishing) :
    Accounts { s.setWorker i .notifying with activeTasks := s.activeTasks - 1 } := by
  have hsum := sum_update WorkerPlace.task s.worker i .notifying
  have hbusy := sum_update WorkerPlace.busy s.worker i .notifying
  rw [hi] at hsum hbusy
  refine ⟨h.order, ?_, ?_, fun hc j => ?_, h.before, h.waited, h.stopped, h.stoppedBefore,
    fun j hj => ?_⟩
  · show (s.finished : Multiset τ) + ∑ j, (Function.update s.worker i .notifying j).task = s.started
    rw [← h.ran]
    simpa [WorkerPlace.task] using hsum
  · show s.activeTasks - 1 = ∑ j, (Function.update s.worker i .notifying j).busy
    have hbusy' : ∑ j, (Function.update s.worker i .notifying j).busy + 1 =
        ∑ j, (s.worker j).busy := by
      simpa [WorkerPlace.busy] using hbusy
    have hactive := h.active
    omega
  · have hall := h.clearedLast hc i
    rw [hi] at hall
    cases hall
  · exact h.drained j (exited_of_update (by simp) hj)

/-- A worker exits. -/
theorem Accounts.exit (h : Accounts s) (hi : s.worker i = .chosen) (htasks : s.tasks = [])
    (hstop : s.stop = true) : Accounts { s.setWorker i .exited with mtx := none } := by
  have hne : s.worker i ≠ .exited := by
    rw [hi]
    simp
  have hcleared := cleared_eq_nil h hne
  have hsum := sum_update WorkerPlace.task s.worker i .exited
  have hbusy := sum_update WorkerPlace.busy s.worker i .exited
  rw [hi] at hsum hbusy
  refine ⟨h.order, ?_, ?_, fun hc => absurd hcleared hc, h.before, h.waited, h.stopped,
    h.stoppedBefore, fun j hj => ?_⟩
  · show (s.finished : Multiset τ) + ∑ j, (Function.update s.worker i .exited j).task = s.started
    rw [← h.ran]
    simpa [WorkerPlace.task] using hsum
  · show s.activeTasks = ∑ j, (Function.update s.worker i .exited j).busy
    rw [h.active]
    simpa [WorkerPlace.busy] using hbusy.symm
  · by_cases hji : j = i
    · obtain ⟨n, hn⟩ := Option.isSome_iff_exists.mp (h.stopped.symm.trans hstop)
      have hle := h.stoppedBefore n hn
      rw [h.order, hcleared, htasks, List.append_nil, List.append_nil] at hle
      exact ⟨n, hn, hle⟩
    · exact h.drained j ((Function.update_of_ne hji _ _).symm.trans hj)

/-- A worker goes on. -/
theorem Accounts.workerGo (h : Accounts s) (i : ι) : Accounts (s.workerGo i) := by
  unfold Pool.workerGo
  cases hi : s.worker i with
  | locking =>
      dsimp only
      split_ifs
      · exact h.movesOne hi rfl rfl (by simp) (by simp) fun _ hk => hk
      · exact h
  | testing =>
      dsimp only
      split_ifs
      · exact h.movesOne hi rfl rfl (by simp) (by simp) fun _ hk => hk
      · exact h.movesOne hi rfl rfl (by simp) (by simp) fun _ hk => hk
  | parking =>
      exact h.movesOne hi rfl rfl (by simp) (by simp) fun _ hk => hk
  | chosen =>
      cases htasks : s.tasks with
      | nil =>
          dsimp only
          split_ifs with hstop
          · exact h.exit hi htasks hstop
          · exact h
      | cons t tasks => exact h.take hi htasks
  | running t => exact h.finish hi
  | finishing => exact h.countDown hi
  | notifying =>
      exact h.movesOne hi rfl rfl (by simp) (by simp) fun _ hk => eq_waitDone_of_notified hk
  | parked => exact h
  | exited => exact h

end Workers

section Clients

variable [DecidableEq κ]

/-- `WaitAll` finds its predicate true. -/
theorem Accounts.waitOver (h : Accounts s) (htasks : s.tasks = []) (hactive : s.activeTasks = 0) :
    Accounts (s.setClient k .waitDone) := by
  refine ⟨h.order, h.ran, h.active, h.clearedLast, h.before, fun j hj => ?_, h.stopped,
    h.stoppedBefore, h.drained⟩
  show ((s.submitted.take (s.submittedBefore j) : List τ) : Multiset τ) ≤ s.finished + s.cleared
  rw [← h.allRun htasks hactive]
  exact Multiset.coe_le.mpr (List.take_sublist _ _).subperm

/-- A client calls. -/
theorem Accounts.call (h : Accounts s) (c : PoolCall τ) : Accounts (s.call k c) := by
  cases c with
  | submit t =>
      exact h.moves (fun _ => rfl) (fun _ => rfl) (fun _ => Iff.rfl)
        fun j hj => (waitDone_of_update (by simp) hj).2
  | waitAll =>
      refine ⟨h.order, h.ran, h.active, h.clearedLast, fun j => ?_, fun j hj => ?_, h.stopped,
        h.stoppedBefore, h.drained⟩
      · show Function.update s.submittedBefore k s.submitted.length j ≤ _
        by_cases hj : j = k
        · rw [hj, Function.update_self]
          exact le_rfl
        · rw [Function.update_of_ne hj]
          exact h.before j
      · obtain ⟨hjk, hdone⟩ := waitDone_of_update (by simp) hj
        show ((s.submitted.take (Function.update s.submittedBefore k s.submitted.length j) :
          List τ) : Multiset τ) ≤ _
        rw [Function.update_of_ne hjk]
        exact h.waited j hdone
  | stop =>
      refine ⟨h.order, h.ran, h.active, h.clearedLast, h.before,
        fun j hj => h.waited j (waitDone_of_update (by simp) hj).2, rfl, fun n hn => ?_,
        fun j hj => ?_⟩
      · rw [← Option.some.inj hn]
        cases hafter : s.stopAfter with
        | none => exact le_rfl
        | some m => exact h.stoppedBefore m hafter
      · obtain ⟨n, hn, hle⟩ := h.drained j hj
        refine ⟨n, ?_, hle⟩
        show some (s.stopAfter.getD s.submitted.length) = some n
        rw [hn]
        rfl

/-- `Stop` throws away what is left. -/
theorem Accounts.clear (h : Accounts s) (hall : ∀ i, s.worker i = .exited) :
    Accounts { s.setClient k .idle with tasks := [], cleared := s.cleared ++ s.tasks } := by
  refine ⟨?_, h.ran, h.active, fun _ => hall, h.before, fun j hj => ?_, h.stopped,
    h.stoppedBefore, h.drained⟩
  · show s.submitted = s.started ++ ((s.cleared ++ s.tasks) ++ [])
    rw [h.order, List.append_nil]
  · refine (h.waited j (waitDone_of_update (by simp) hj).2).trans ?_
    show (s.finished : Multiset τ) + s.cleared ≤
      (s.finished : Multiset τ) + ((s.cleared ++ s.tasks : List τ) : Multiset τ)
    exact add_le_add_right (Multiset.coe_le.mpr (List.sublist_append_left _ _).subperm) _

/-- A client goes on. -/
theorem Accounts.clientGo (h : Accounts s) (k : κ) : Accounts (s.clientGo k) := by
  have hsame {m : Option (ι ⊕ κ)} {p : ClientPlace τ} (hp : p ≠ .waitDone) :
      Accounts { s with mtx := m, client := Function.update s.client k p } :=
    h.moves (fun _ => rfl) (fun _ => rfl) (fun _ => Iff.rfl)
      fun _ hj => (waitDone_of_update hp hj).2
  have hnotify {p : ClientPlace τ} (hp : p ≠ .waitDone) :
      Accounts { s.setClient k p with worker := fun i => (s.worker i).notified } :=
    h.moves (fun _ => task_notified _) (fun _ => busy_notified _)
      (fun _ => notified_eq_exited_iff) fun _ hj => (waitDone_of_update hp hj).2
  unfold Pool.clientGo
  cases hk : s.client k with
  | pushing t =>
      dsimp only
      split_ifs
      · exact h.push t fun _ hj => (waitDone_of_update (by simp) hj).2
      · exact h
  | pushed => exact hnotify (by simp)
  | waitLocking =>
      dsimp only
      split_ifs
      · exact hsame (by simp)
      · exact h
  | waitTesting =>
      dsimp only
      split_ifs with hover
      · rw [Bool.and_eq_true, List.isEmpty_iff, beq_iff_eq] at hover
        exact h.waitOver hover.1 hover.2
      · exact hsame (by simp)
  | waitParking => exact hsame (by simp)
  | waitDone => exact hsame (by simp)
  | stopping => exact hnotify (by simp)
  | joining =>
      dsimp only
      split_ifs with hall
      · exact h.clear fun i => isExited_iff.mp (hall i)
      · exact h
  | idle => exact h
  | waitParked => exact h

end Clients

/-! ## Runs -/

variable [DecidableEq ι] [DecidableEq κ]

/-- Every step keeps the accounts. -/
theorem Accounts.step (h : Accounts s) (e : PoolEvent ι κ τ) : Accounts (poolStep s e) := by
  cases e with
  | call k c =>
      rw [poolStep]
      split
      · exact h.call c
      · exact h
  | client k => exact h.clientGo k
  | worker i => exact h.workerGo i
  | wakeClient k =>
      refine h.moves (fun _ => rfl) (fun _ => rfl) (fun _ => Iff.rfl) fun j hj => ?_
      by_cases hjk : j = k
      · rw [hjk, Function.update_self] at hj
        rw [hjk]
        exact eq_waitDone_of_notified hj
      · rwa [Function.update_of_ne hjk] at hj
  | wakeWorker i =>
      have hupdate {M : Type} (f : WorkerPlace τ → M) (hf : ∀ p, f p.notified = f p) (j : ι) :
          f (Function.update s.worker i (s.worker i).notified j) = f (s.worker j) := by
        by_cases hj : j = i
        · rw [hj, Function.update_self, hf]
        · rw [Function.update_of_ne hj]
      refine h.moves (hupdate _ task_notified) (hupdate _ busy_notified) (fun j => ?_)
        fun _ hk => hk
      exact iff_of_eq (hupdate (· = .exited) (fun _ => propext notified_eq_exited_iff) j)

/-- **The pool keeps its accounts**, whatever the threads do and in whatever order. -/
theorem pool_accounts (events : List (PoolEvent ι κ τ)) :
    AllStates poolStep Accounts {} events := by
  have hstart : Accounts ({} : Pool ι κ τ) := by
    refine ⟨rfl, ?_, ?_, fun hc => absurd rfl hc, fun _ => le_rfl, ?_, rfl, ?_, ?_⟩
    · simp [WorkerPlace.task]
    · simp [WorkerPlace.busy]
    · intro k hk
      cases hk
    · intro n hn
      cases hn
    · intro i hi
      cases hi
  exact allStates_of_allSteps (G := fun _ _ => True) (fun _ h => h) (fun _ e h _ => h.step e) hstart
    (allSteps_of_forall fun _ _ => trivial)

end Accounts

end PerfTools
