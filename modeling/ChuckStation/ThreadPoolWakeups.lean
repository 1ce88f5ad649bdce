/-
# Who holds the mutex of the thread pool, and who sleeps

What the threads of `ThreadPool` do beside the accounts: the mutex and the two condition variables.

* `pool_locked`: one thread at a time is inside, and nobody takes a task from an empty queue.
* `stranded_waits`: `WaitAll` may sleep on after its last task is over.  A worker counts its task
  down and notifies without the mutex, and may do both between the test of `WaitAll` and its block.
-/
import ChuckStation.ThreadPool

namespace PerfTools

open OperationRuns

/-! ## The mutex -/

section Mutex

variable {ι κ τ : Type}

/-- The thread holds `mtx`. -/
def holdsAt (w : ι → WorkerPlace τ) (c : κ → ClientPlace τ) : ι ⊕ κ → Bool
  | .inl i => (w i).holds
  | .inr k => (c k).holds

/-- `mtx` is held by the thread that is inside, and a worker that goes on has a reason to. -/
structure Locked (s : Pool ι κ τ) : Prop where
  owner : ∀ x, holdsAt s.worker s.client x = true ↔ s.mtx = some x
  chosen : ∀ i, s.worker i = .chosen → s.stop = true ∨ s.tasks ≠ []

theorem holds_notified_worker (p : WorkerPlace τ) : p.notified.holds = p.holds := by
  cases p <;> rfl

theorem holds_notified_client (p : ClientPlace τ) : p.notified.holds = p.holds := by
  cases p <;> rfl

theorem notified_eq_chosen {p : WorkerPlace τ} (h : p.notified = .chosen) : p = .chosen := by
  cases p <;> simp_all [WorkerPlace.notified]

section Owners

variable {h h' : ι ⊕ κ → Bool} {m m' : Option (ι ⊕ κ)} {x : ι ⊕ κ}

/-- The thread `x` locks the mutex. -/
theorem owner_locks (howner : ∀ y, h y = true ↔ m = some y) (hfree : m = none)
    (hx : h' x = true) (hrest : ∀ y, y ≠ x → h' y = h y) (y : ι ⊕ κ) :
    h' y = true ↔ some x = some y := by
  by_cases hy : y = x
  · rw [hy]
    exact iff_of_true hx rfl
  · rw [hrest y hy, howner y, hfree]
    exact iff_of_false (by simp) fun heq => hy (Option.some.inj heq).symm

/-- The thread `x` unlocks it. -/
theorem owner_unlocks (howner : ∀ y, h y = true ↔ m = some y) (hin : h x = true)
    (hx : h' x = false) (hrest : ∀ y, y ≠ x → h' y = h y) (y : ι ⊕ κ) :
    h' y = true ↔ (none : Option (ι ⊕ κ)) = some y := by
  refine iff_of_false ?_ (by simp)
  by_cases hy : y = x
  · rw [hy, hx]
    simp
  · rw [hrest y hy, howner y, (howner x).mp hin, Option.some.injEq]
    exact fun heq => hy heq.symm

/-- The thread `x` stays inside, or outside. -/
theorem owner_stays (howner : ∀ y, h y = true ↔ m = some y) (hx : h' x = h x)
    (hrest : ∀ y, y ≠ x → h' y = h y) (y : ι ⊕ κ) : h' y = true ↔ m = some y := by
  by_cases hy : y = x
  · rw [hy, hx]
    exact howner x
  · rw [hrest y hy]
    exact howner y

end Owners

section Steps

variable {s : Pool ι κ τ} {i : ι} {k : κ}

theorem holdsAt_worker [DecidableEq ι] {c : κ → ClientPlace τ} {p : WorkerPlace τ}
    (hc : ∀ k, (c k).holds = (s.client k).holds) (y : ι ⊕ κ) (hy : y ≠ .inl i) :
    holdsAt (Function.update s.worker i p) c y = holdsAt s.worker s.client y := by
  cases y with
  | inl j =>
      show (Function.update s.worker i p j).holds = (s.worker j).holds
      rw [Function.update_of_ne fun hj => hy (congrArg _ hj)]
  | inr k => exact hc k

theorem holdsAt_client [DecidableEq κ] {w : ι → WorkerPlace τ} {p : ClientPlace τ}
    (hw : ∀ i, (w i).holds = (s.worker i).holds) (y : ι ⊕ κ) (hy : y ≠ .inr k) :
    holdsAt w (Function.update s.client k p) y = holdsAt s.worker s.client y := by
  cases y with
  | inl j => exact hw j
  | inr j =>
      show (Function.update s.client k p j).holds = (s.client j).holds
      rw [Function.update_of_ne fun hj => hy (congrArg _ hj)]

/-- Only one worker has chosen at a time. -/
theorem Locked.alone (h : Locked s) (hi : s.worker i = .chosen) {j : ι}
    (hj : s.worker j = .chosen) : j = i := by
  have hown : s.mtx = some (.inl i) :=
    (h.owner (.inl i)).mp (by simp [holdsAt, hi, WorkerPlace.holds])
  have hown' : s.mtx = some (.inl j) :=
    (h.owner (.inl j)).mp (by simp [holdsAt, hj, WorkerPlace.holds])
  rw [hown] at hown'
  exact (Sum.inl.inj (Option.some.inj hown')).symm

variable [DecidableEq ι]

theorem chosen_of_update {p : WorkerPlace τ} {j : ι} (hp : p ≠ .chosen)
    (hj : Function.update s.worker i p j = .chosen) : j ≠ i ∧ s.worker j = .chosen := by
  by_cases hji : j = i
  · rw [hji, Function.update_self] at hj
    exact absurd hj hp
  · exact ⟨hji, by rwa [Function.update_of_ne hji] at hj⟩

theorem Locked.workerGo (h : Locked s) (i : ι) : Locked (s.workerGo i) := by
  have hself (p : WorkerPlace τ) (c : κ → ClientPlace τ) :
      holdsAt (Function.update s.worker i p) c (.inl i) = p.holds := by
    show (Function.update s.worker i p i).holds = p.holds
    rw [Function.update_self]
  have hhere (p : WorkerPlace τ) (hi : s.worker i = p) :
      holdsAt s.worker s.client (.inl i) = p.holds := by
    rw [← hi]
    rfl
  have hrest (p : WorkerPlace τ) := holdsAt_worker (s := s) (i := i) (p := p) fun _ => rfl
  have hchosen {p : WorkerPlace τ} (hp : p ≠ .chosen) (j : ι)
      (hj : Function.update s.worker i p j = .chosen) : s.stop = true ∨ s.tasks ≠ [] :=
    h.chosen j (chosen_of_update hp hj).2
  unfold Pool.workerGo
  cases hi : s.worker i with
  | locking =>
      dsimp only
      split_ifs with hfree
      · exact ⟨owner_locks h.owner (Option.isNone_iff_eq_none.mp hfree) (hself _ _) (hrest _),
          hchosen (by simp)⟩
      · exact h
  | testing =>
      dsimp only
      split_ifs with hready
      · refine ⟨owner_stays h.owner ((hself _ _).trans (hhere _ hi).symm) (hrest _), fun j _ => ?_⟩
        show s.stop = true ∨ s.tasks ≠ []
        simpa using hready
      · exact ⟨owner_stays h.owner ((hself _ _).trans (hhere _ hi).symm) (hrest _),
          hchosen (by simp)⟩
  | parking =>
      exact ⟨owner_unlocks h.owner (hhere _ hi) (hself _ _) (hrest _), hchosen (by simp)⟩
  | chosen =>
      cases htasks : s.tasks with
      | nil =>
          dsimp only
          split_ifs
          · refine ⟨owner_unlocks h.owner (hhere _ hi) (hself _ _) (hrest _), fun j hj => ?_⟩
            obtain ⟨hne, hch⟩ := chosen_of_update (by simp) hj
            exact absurd (h.alone hi hch) hne
          · exact h
      | cons t tasks =>
          refine ⟨owner_unlocks h.owner (hhere _ hi) (hself _ _) (hrest _), fun j hj => ?_⟩
          obtain ⟨hne, hch⟩ := chosen_of_update (by simp) hj
          exact absurd (h.alone hi hch) hne
  | running t =>
      exact ⟨owner_stays h.owner ((hself _ _).trans (hhere _ hi).symm) (hrest _), hchosen (by simp)⟩
  | finishing =>
      exact ⟨owner_stays h.owner ((hself _ _).trans (hhere _ hi).symm) (hrest _), hchosen (by simp)⟩
  | notifying =>
      exact ⟨owner_stays h.owner ((hself _ _).trans (hhere _ hi).symm)
        (holdsAt_worker fun _ => holds_notified_client _), hchosen (by simp)⟩
  | parked => exact h
  | exited => exact h

end Steps

section ClientSteps

variable {s : Pool ι κ τ} [DecidableEq κ]

/-- A client that is neither inside nor goes inside moves, and workers are notified or not. -/
theorem Locked.clientMoves (h : Locked s) {k : κ} {p : ClientPlace τ} {w : ι → WorkerPlace τ}
    (hk : (s.client k).holds = p.holds) (hw : ∀ i, (w i).holds = (s.worker i).holds)
    (hchosen : ∀ i, w i = .chosen → s.worker i = .chosen) :
    Locked { s.setClient k p with worker := w } := by
  refine ⟨owner_stays h.owner ?_ (holdsAt_client hw), fun i hi => h.chosen i (hchosen i hi)⟩
  show (Function.update s.client k p k).holds = (s.client k).holds
  rw [Function.update_self, hk]

theorem Locked.clientGo [Fintype ι] (h : Locked s) (k : κ) : Locked (s.clientGo k) := by
  have hself (p : ClientPlace τ) :
      holdsAt s.worker (Function.update s.client k p) (.inr k) = p.holds := by
    show (Function.update s.client k p k).holds = p.holds
    rw [Function.update_self]
  have hhere (p : ClientPlace τ) (hk : s.client k = p) :
      holdsAt s.worker s.client (.inr k) = p.holds := by
    rw [← hk]
    rfl
  have hrest (p : ClientPlace τ) := holdsAt_client (s := s) (k := k) (p := p) fun _ => rfl
  unfold Pool.clientGo
  cases hk : s.client k with
  | pushing t =>
      dsimp only
      split_ifs
      · refine ⟨owner_stays h.owner ((hself _).trans (hhere _ hk).symm) (hrest _), fun j _ => ?_⟩
        right
        show s.tasks ++ [t] ≠ []
        simp
      · exact h
  | pushed =>
      exact h.clientMoves (by rw [hk]; rfl) (fun _ => holds_notified_worker _)
        fun _ hi => notified_eq_chosen hi
  | waitLocking =>
      dsimp only
      split_ifs with hfree
      · exact ⟨owner_locks h.owner (Option.isNone_iff_eq_none.mp hfree) (hself _) (hrest _),
          h.chosen⟩
      · exact h
  | waitTesting =>
      dsimp only
      split_ifs
      · exact ⟨owner_stays h.owner ((hself _).trans (hhere _ hk).symm) (hrest _), h.chosen⟩
      · exact ⟨owner_stays h.owner ((hself _).trans (hhere _ hk).symm) (hrest _), h.chosen⟩
  | waitParking => exact ⟨owner_unlocks h.owner (hhere _ hk) (hself _) (hrest _), h.chosen⟩
  | waitDone => exact ⟨owner_unlocks h.owner (hhere _ hk) (hself _) (hrest _), h.chosen⟩
  | stopping =>
      exact h.clientMoves (by rw [hk]; rfl) (fun _ => holds_notified_worker _)
        fun _ hi => notified_eq_chosen hi
  | joining =>
      dsimp only
      split_ifs with hall
      · refine ⟨owner_stays h.owner ((hself _).trans (hhere _ hk).symm) (hrest _), fun j hj => ?_⟩
        have hexit := isExited_iff.mp (hall j)
        rw [show s.worker j = .chosen from hj] at hexit
        cases hexit
      · exact h
  | idle => exact h
  | waitParked => exact h

theorem Locked.call (h : Locked s) {k : κ} (hk : s.client k = .idle) (c : PoolCall τ) :
    Locked (s.call k c) := by
  have hmove {p : ClientPlace τ} (hp : p.holds = false) : Locked (s.setClient k p) :=
    h.clientMoves (by rw [hk, hp]; rfl) (fun _ => rfl) fun _ hi => hi
  cases c with
  | submit t => exact hmove rfl
  | waitAll => exact ⟨(hmove (p := .waitLocking) rfl).owner, h.chosen⟩
  | stop => exact ⟨(hmove (p := .stopping) rfl).owner, fun _ _ => Or.inl rfl⟩

variable [DecidableEq ι] [Fintype ι]

theorem Locked.step (h : Locked s) (e : PoolEvent ι κ τ) : Locked (poolStep s e) := by
  cases e with
  | call k c =>
      rw [poolStep]
      split
      · exact h.call ‹_› c
      · exact h
  | client k => exact h.clientGo k
  | worker i => exact h.workerGo i
  | wakeClient k =>
      exact h.clientMoves (holds_notified_client _).symm (fun _ => rfl) fun _ hi => hi
  | wakeWorker i =>
      refine ⟨owner_stays h.owner ?_ (holdsAt_worker fun _ => rfl), fun j hj => ?_⟩
      · show (Function.update s.worker i (s.worker i).notified i).holds = (s.worker i).holds
        rw [Function.update_self, holds_notified_worker]
      · have hupdate : Function.update s.worker i (s.worker i).notified j = .chosen := hj
        apply h.chosen j
        by_cases hji : j = i
        · rw [hji, Function.update_self] at hupdate
          rw [hji]
          exact notified_eq_chosen hupdate
        · rwa [Function.update_of_ne hji] at hupdate

/-- **One thread at a time is inside**, and a worker that leaves `cv.wait` finds a task or has been
stopped: nobody takes a task from an empty queue. -/
theorem pool_locked (events : List (PoolEvent ι κ τ)) : AllStates poolStep Locked {} events := by
  have hstart : Locked ({} : Pool ι κ τ) := by
    refine ⟨fun x => ?_, fun i hi => nomatch hi⟩
    cases x with
    | inl i => exact iff_of_false (by simp [holdsAt, WorkerPlace.holds]) (by simp)
    | inr k => exact iff_of_false (by simp [holdsAt, ClientPlace.holds]) (by simp)
  exact allStates_of_allSteps (G := fun _ _ => True) (fun _ h => h) (fun _ e h _ => h.step e) hstart
    (allSteps_of_forall fun _ _ => trivial)

end ClientSteps

end Mutex

/-! ## A lost notification -/

section Lost

variable {ι κ τ : Type}

/-- The worker neither runs a task nor is about to notify the clients. -/
def WorkerPlace.quiet : WorkerPlace τ → Bool
  | .running _ | .finishing | .notifying => false
  | _ => true

/-- The client sleeps in `WaitAll` while nothing is queued, run or submitted. -/
structure Stranded (k : κ) (s : Pool ι κ τ) : Prop where
  asleep : s.client k = .waitParked
  noTask : s.tasks = []
  noPush : ∀ j t, s.client j ≠ .pushing t
  quiet : ∀ i, (s.worker i).quiet = true

/-- The event is neither a call of `Submit` nor a wake-up without notice of the client. -/
def PoolEvent.Leaves (k : κ) : PoolEvent ι κ τ → Prop
  | .call _ (.submit _) => False
  | .wakeClient j => j ≠ k
  | _ => True

variable {s : Pool ι κ τ} {k : κ}

theorem quiet_notified (p : WorkerPlace τ) : p.notified.quiet = p.quiet := by
  cases p <;> rfl

theorem pushing_of_notified {p : ClientPlace τ} {t : τ} (h : p.notified = .pushing t) :
    p = .pushing t := by
  cases p <;> simp_all [ClientPlace.notified]

theorem Stranded.of_eq {s' : Pool ι κ τ} (h : Stranded k s) (hc : s'.client = s.client)
    (ht : s'.tasks = []) (hw : s'.worker = s.worker) : Stranded k s' :=
  ⟨by rw [hc]; exact h.asleep, ht, by rw [hc]; exact h.noPush, by rw [hw]; exact h.quiet⟩

section Moves

variable [DecidableEq κ]

/-- Another client moves, and workers are notified or not. -/
theorem Stranded.clientMoves (h : Stranded k s) {j : κ} (hj : j ≠ k) {p : ClientPlace τ}
    {w : ι → WorkerPlace τ} (hp : ∀ t, p ≠ .pushing t)
    (hw : ∀ i, (w i).quiet = (s.worker i).quiet) :
    Stranded k { s.setClient j p with worker := w } := by
  refine ⟨?_, h.noTask, fun j' t => ?_, fun i => (hw i).trans (h.quiet i)⟩
  · show Function.update s.client j p k = .waitParked
    rw [Function.update_of_ne hj.symm]
    exact h.asleep
  · show Function.update s.client j p j' ≠ .pushing t
    by_cases hj' : j' = j
    · rw [hj', Function.update_self]
      exact hp t
    · rw [Function.update_of_ne hj']
      exact h.noPush j' t

theorem Stranded.clientGo [Fintype ι] (h : Stranded k s) (j : κ) : Stranded k (s.clientGo j) := by
  by_cases hjk : j = k
  · rw [hjk, Pool.clientGo, h.asleep]
    exact h
  have hmove {p : ClientPlace τ} (hp : ∀ t, p ≠ .pushing t) : Stranded k (s.setClient j p) :=
    h.clientMoves hjk hp fun _ => rfl
  unfold Pool.clientGo
  cases hj : s.client j with
  | pushing t => exact absurd hj (h.noPush j t)
  | pushed => exact h.clientMoves hjk (by simp) fun _ => quiet_notified _
  | waitLocking =>
      dsimp only
      split_ifs
      · exact (hmove (p := .waitTesting) (by simp)).of_eq rfl h.noTask rfl
      · exact h
  | waitTesting =>
      dsimp only
      split_ifs
      · exact hmove (by simp)
      · exact hmove (by simp)
  | waitParking => exact (hmove (p := .waitParked) (by simp)).of_eq rfl h.noTask rfl
  | waitDone => exact (hmove (p := .idle) (by simp)).of_eq rfl h.noTask rfl
  | stopping => exact h.clientMoves hjk (by simp) fun _ => quiet_notified _
  | joining =>
      dsimp only
      split_ifs
      · exact (hmove (p := .idle) (by simp)).of_eq rfl rfl rfl
      · exact h
  | idle => exact h
  | waitParked => exact h

theorem Stranded.call (h : Stranded k s) {j : κ} (hj : s.client j = .idle) {c : PoolCall τ}
    (hc : (PoolEvent.call j c : PoolEvent ι κ τ).Leaves k) : Stranded k (s.call j c) := by
  have hjk : j ≠ k := by
    rintro rfl
    rw [h.asleep] at hj
    cases hj
  cases c with
  | submit t => exact hc.elim
  | waitAll =>
      exact (h.clientMoves hjk (p := .waitLocking) (by simp) fun _ => rfl).of_eq rfl h.noTask rfl
  | stop => exact (h.clientMoves hjk (p := .stopping) (by simp) fun _ => rfl).of_eq rfl h.noTask rfl

end Moves

variable [DecidableEq ι]

/-- A worker moves, and no client does. -/
theorem Stranded.workerMoves (h : Stranded k s) {i : ι} {p : WorkerPlace τ} {m : Option (ι ⊕ κ)}
    (hp : p.quiet = true) : Stranded k { s.setWorker i p with mtx := m } := by
  refine ⟨h.asleep, h.noTask, h.noPush, fun j => ?_⟩
  show (Function.update s.worker i p j).quiet = true
  by_cases hj : j = i
  · rw [hj, Function.update_self]
    exact hp
  · rw [Function.update_of_ne hj]
    exact h.quiet j

theorem Stranded.workerGo (h : Stranded k s) (i : ι) : Stranded k (s.workerGo i) := by
  have hquiet := h.quiet i
  unfold Pool.workerGo
  cases hi : s.worker i with
  | locking =>
      dsimp only
      split_ifs
      · exact h.workerMoves rfl
      · exact h
  | testing =>
      dsimp only
      split_ifs
      · exact h.workerMoves rfl
      · exact h.workerMoves rfl
  | parking => exact h.workerMoves rfl
  | chosen =>
      rw [h.noTask]
      dsimp only
      split_ifs
      · exact h.workerMoves rfl
      · exact h
  | running t =>
      rw [hi] at hquiet
      cases hquiet
  | finishing =>
      rw [hi] at hquiet
      cases hquiet
  | notifying =>
      rw [hi] at hquiet
      cases hquiet
  | parked => exact h
  | exited => exact h

variable [DecidableEq κ] [Fintype ι]

theorem Stranded.step (h : Stranded k s) {e : PoolEvent ι κ τ} (he : e.Leaves k) :
    Stranded k (poolStep s e) := by
  cases e with
  | call j c =>
      rw [poolStep]
      split
      · exact h.call ‹_› he
      · exact h
  | client j => exact h.clientGo j
  | worker i => exact h.workerGo i
  | wakeClient j =>
      exact h.clientMoves he (fun t ht => h.noPush j t (pushing_of_notified ht)) fun _ => rfl
  | wakeWorker i => exact h.workerMoves ((quiet_notified _).trans (h.quiet i))

/-- **A stranded `WaitAll` does not come back**: its predicate is true, but nobody is left to notify
it.  Only another task or a wake-up without notice helps, and `Stop` does not. -/
theorem stranded_waits {events : List (PoolEvent ι κ τ)} (h : Stranded k s)
    (hleaves : AllSteps poolStep (fun _ e => e.Leaves k) s events) :
    AllStates poolStep (fun s => s.client k = .waitParked) s events :=
  allStates_of_allSteps (fun _ hs => hs.asleep) (fun _ _ hs he => hs.step he) h hleaves

/-- The client `true` submits a task and waits; the worker counts the task down and notifies
between the test and the block of the client. -/
def lostNotification : List (PoolEvent Unit Bool Unit) :=
  [.call true (.submit ()), .client true, .client true, .worker (), .worker (), .worker (),
    .call true .waitAll, .client true, .client true, .worker (), .worker (), .worker (),
    .client true]

/-- No step of the worker and no `Stop` wakes the client after `lostNotification`. -/
theorem stranded_waits_lostNotification :
    AllStates poolStep (fun s => s.client true = .waitParked) (lostNotification.foldl poolStep {})
      [.worker (), .worker (), .worker (), .call false .stop, .client false, .worker ()] := by
  refine stranded_waits ⟨by rfl, by rfl, fun j t => ?_, fun i => by rfl⟩ ?_
  · cases j with
    | false => exact fun h => by cases h
    | true => exact fun h => by cases h
  · simp [AllSteps, PoolEvent.Leaves]

end Lost

end PerfTools
