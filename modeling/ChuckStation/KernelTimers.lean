/-
# The timers of the kernel runtime

One timer, the thread that uses it, and the host threads that were made for it.  `StartTimer`
goes by the flag `running` alone: it takes a timer for stopped that ran out by itself, although
its host thread was never joined, and for running one that is through with its callback.

* `timer_sound`: one host thread lives at a time, none after `StopTimer`, a one-shot timer fires
  at most once for each of them, and only a one-shot timer can bring the program down; it does
  when its last handle is closed without a `StopTimer`, at the latest when its thread is over.
* `runOut_terminates`: it does, whenever it is started again after it ran out.
* `late_start_lost`: a start that comes before the flag is taken down is lost.
* `orphan_runs`: a periodic timer whose handles are closed cannot be stopped any more.
-/
import ChuckStation.Bytes
import ChuckStation.OperationRuns

namespace KernelRuntime

open OperationRuns

/-! ## The object -/

/-- Where a host thread of the timer is. -/
inductive TimerPlace where
  /-- In `sleep_for`. -/
  | sleeping
  /-- Before `if (!kt->running.load())`. -/
  | testing
  /-- In the callback. -/
  | calling
  /-- Before the condition of the loop. -/
  | looping
  /-- Before `kt->running.store(false)`. -/
  | clearing
  | ended
  deriving DecidableEq

/-- `struct KTimer`: its period, and whether it has a callback. -/
structure TimerAttr where
  periodUs : U64
  callback : Bool

/-- The timer, how many handles lead to it, and its host threads, the last one first.  `joinable`
says that `kt->thread` holds a thread; `stopping`, that the caller is in its `join`; `quiet`, that
the timer was not started since it was created or since a `StopTimer` returned. -/
structure TimerRun where
  running : Bool := false
  joinable : Bool := false
  handles : ℕ := 1
  threads : List TimerPlace := []
  stopping : Bool := false
  terminated : Bool := false
  fired : ℕ := 0
  quiet : Bool := true

inductive TimerEvent where
  | startTimer
  | stopTimer
  /-- The `join` of `StopTimer` returns. -/
  | joined
  | duplicateHandle
  | closeHandle
  | reset
  /-- The host thread goes on. -/
  | go (i : ℕ)
  deriving DecidableEq

variable (attr : TimerAttr)

/-- The loop of the timer begins with the sleep, if there is a period. -/
def TimerAttr.firstPlace : TimerPlace := if attr.periodUs = 0 then .testing else .sleeping

/-- Where a host thread goes on to. -/
def TimerAttr.nextPlace (running : Bool) : TimerPlace → TimerPlace
  | .sleeping => .testing
  | .testing => if running then if attr.callback then .calling else .looping else .clearing
  | .calling => .looping
  | .looping => if attr.periodUs ≠ 0 ∧ running = true then .sleeping else .clearing
  | .clearing | .ended => .ended

def timerStep (s : TimerRun) : TimerEvent → TimerRun
  | .startTimer =>
    if s.terminated || s.stopping || s.handles == 0 || s.running then s
    -- A thread is assigned to one that is still joinable: `std::terminate`.
    else if s.joinable then { s with running := true, terminated := true }
    else { s with
      running := true, joinable := true, quiet := false
      threads := attr.firstPlace :: s.threads }
  | .stopTimer =>
    if s.terminated || s.stopping || s.handles == 0 then s
    else { s with running := false, stopping := s.joinable, quiet := s.quiet || !s.joinable }
  | .joined =>
    if s.stopping && s.threads.head? == some .ended then
      { s with stopping := false, joinable := false, quiet := true }
    else s
  | .duplicateHandle =>
    if s.terminated || s.stopping || s.handles == 0 then s else { s with handles := s.handles + 1 }
  | .closeHandle =>
    if s.terminated || s.stopping || s.handles == 0 then s
    -- With the last handle of a timer whose thread is over goes the timer, joinable or not.
    else { s with
      handles := s.handles - 1
      terminated := s.handles == 1 && s.joinable && s.threads.all (· == .ended) }
  | .reset =>
    if s.terminated || s.stopping || s.handles == 0 then s
    else { s with running := false, joinable := false, handles := 0 }
  | .go i =>
    if s.terminated then s
    else match s.threads[i]? with
      | none => s
      | some p => { s with
        threads := s.threads.set i (attr.nextPlace s.running p)
        running := s.running && p != .clearing
        -- The thread was the last to know the timer.
        terminated := p == .clearing && s.handles == 0 && s.joinable
        fired := s.fired + if p = .testing ∧ attr.nextPlace s.running p = .calling then 1 else 0 }

/-! ## What holds of a timer -/

/-- What the program may rely on. -/
structure TimerSound (s : TimerRun) : Prop where
  oneLive : ∀ p ∈ s.threads.tail, p = .ended
  quietEnds : s.quiet = true → ∀ p ∈ s.threads, p = .ended
  periodic : s.terminated = true → attr.periodUs = 0
  firesOnce : attr.periodUs = 0 → s.fired ≤ s.threads.length
  destroyed : s.handles = 0 → s.joinable = true → (∀ p ∈ s.threads, p = .ended) →
    s.terminated = true

/-- What carries it through a run. -/
structure TimerKept (s : TimerRun) : Prop where
  tailEnded : ∀ p ∈ s.threads.tail, p = .ended
  /-- A thread that lives is held by the timer, or cannot be reached any more. -/
  held : s.joinable = false → s.handles = 0 ∨ ∀ p ∈ s.threads, p = .ended
  quietEnds : s.quiet = true → ∀ p ∈ s.threads, p = .ended
  periodic : s.terminated = true → attr.periodUs = 0
  /-- A timer that is down and held is about to be joined, or has run out. -/
  runOut : s.running = false → s.joinable = true → s.stopping = false → attr.periodUs = 0
  /-- A periodic timer takes its flag down only after somebody else has. -/
  cleared : attr.periodUs ≠ 0 → s.threads.head? = some .clearing → s.running = false
  live : s.running = true → s.terminated = false → ∃ p, s.threads.head? = some p ∧ p ≠ .ended
  oneShot : attr.periodUs = 0 → s.fired + s.threads.count .testing ≤ s.threads.length ∧
    TimerPlace.sleeping ∉ s.threads
  stopJoins : s.stopping = true → s.handles ≠ 0
  destroyed : s.handles = 0 → s.joinable = true → (∀ p ∈ s.threads, p = .ended) →
    s.terminated = true
  started : s.quiet = false → s.joinable = true ∨ s.handles = 0

variable {attr} {s : TimerRun}

theorem TimerKept.sound (h : TimerKept attr s) : TimerSound attr s :=
  ⟨h.tailEnded, h.quietEnds, h.periodic, fun hperiod => by
    have honce := (h.oneShot hperiod).1
    omega, h.destroyed⟩

theorem timerKept_create : TimerKept attr {} := by
  constructor <;> simp

theorem TimerKept.startTimer (h : TimerKept attr s) :
    TimerKept attr (timerStep attr s .startTimer) := by
  rw [timerStep]
  split_ifs with hskip hjoinable
  · exact h
  · simp only [Bool.or_eq_true, beq_iff_eq, not_or, Bool.not_eq_true] at hskip
    obtain ⟨⟨⟨hterminated, hstopping⟩, hhandles⟩, hrunning⟩ := hskip
    have hperiod := h.runOut hrunning hjoinable hstopping
    exact {
      tailEnded := h.tailEnded
      held := h.held
      quietEnds := h.quietEnds
      periodic := fun _ => hperiod
      runOut := fun hfalse => nomatch hfalse
      cleared := fun hne => absurd hperiod hne
      live := fun _ hfalse => nomatch hfalse
      oneShot := h.oneShot
      stopJoins := h.stopJoins
      destroyed := fun _ _ _ => rfl
      started := h.started }
  · simp only [Bool.or_eq_true, beq_iff_eq, not_or, Bool.not_eq_true] at hskip
    obtain ⟨⟨⟨hterminated, hstopping⟩, hhandles⟩, hrunning⟩ := hskip
    have hended : ∀ p ∈ s.threads, p = .ended :=
      (h.held (Bool.not_eq_true _ ▸ hjoinable)).resolve_left hhandles
    have hfirst : attr.firstPlace ≠ .clearing ∧ attr.firstPlace ≠ .ended := by
      rw [TimerAttr.firstPlace]
      split_ifs <;> simp
    exact {
      tailEnded := hended
      held := fun hfalse => nomatch hfalse
      quietEnds := fun hfalse => nomatch hfalse
      periodic := h.periodic
      runOut := fun hfalse => nomatch hfalse
      cleared := fun _ hhead => absurd (Option.some.inj hhead) hfirst.1
      live := fun _ _ => ⟨_, rfl, hfirst.2⟩
      oneShot := fun hperiod => by
        obtain ⟨honce, hsleeps⟩ := h.oneShot hperiod
        show s.fired + (attr.firstPlace :: s.threads).count .testing ≤
          (attr.firstPlace :: s.threads).length ∧ _ ∉ attr.firstPlace :: s.threads
        rw [TimerAttr.firstPlace, if_pos hperiod, List.count_cons_self, List.length_cons,
          List.mem_cons, not_or]
        exact ⟨by omega, by simp, hsleeps⟩
      stopJoins := h.stopJoins
      destroyed := fun hzero => absurd hzero hhandles
      started := fun _ => Or.inl rfl }

theorem TimerKept.stopTimer (h : TimerKept attr s) :
    TimerKept attr (timerStep attr s .stopTimer) := by
  rw [timerStep]
  split_ifs with hskip
  · exact h
  · simp only [Bool.or_eq_true, beq_iff_eq, not_or, Bool.not_eq_true] at hskip
    obtain ⟨⟨hterminated, hstopping⟩, hhandles⟩ := hskip
    exact {
      tailEnded := h.tailEnded
      held := h.held
      quietEnds := fun hquiet => by
        rcases Bool.or_eq_true _ _ ▸ hquiet with hbefore | hjoinable
        · exact h.quietEnds hbefore
        · exact (h.held (by simpa using hjoinable)).resolve_left hhandles
      periodic := h.periodic
      runOut := fun _ hjoinable hnot => by
        rw [show s.joinable = false from hnot] at hjoinable
        cases hjoinable
      cleared := fun _ _ => rfl
      live := fun hfalse => nomatch hfalse
      oneShot := h.oneShot
      stopJoins := fun _ => hhandles
      destroyed := fun hzero => absurd hzero hhandles
      started := fun hquiet => h.started (Bool.or_eq_false_iff.mp hquiet).1 }

theorem TimerKept.joined (h : TimerKept attr s) : TimerKept attr (timerStep attr s .joined) := by
  rw [timerStep]
  split_ifs with hjoin
  · rw [Bool.and_eq_true, beq_iff_eq] at hjoin
    have hended : ∀ p ∈ s.threads, p = .ended := by
      cases hthreads : s.threads with
      | nil => simp
      | cons first rest =>
          have htail := h.tailEnded
          have hfirst := hjoin.2
          rw [hthreads] at htail hfirst
          exact List.forall_mem_cons.mpr ⟨Option.some.inj hfirst, htail⟩
    exact {
      tailEnded := h.tailEnded
      held := fun _ => Or.inr hended
      quietEnds := fun _ => hended
      periodic := h.periodic
      runOut := fun _ hfalse => nomatch hfalse
      cleared := h.cleared
      live := h.live
      oneShot := h.oneShot
      stopJoins := fun hfalse => nomatch hfalse
      destroyed := fun _ hfalse => nomatch hfalse
      started := fun hfalse => nomatch hfalse }
  · exact h

theorem TimerKept.duplicateHandle (h : TimerKept attr s) :
    TimerKept attr (timerStep attr s .duplicateHandle) := by
  rw [timerStep]
  split_ifs with hskip
  · exact h
  · simp only [Bool.or_eq_true, beq_iff_eq, not_or] at hskip
    exact { h with
      held := fun hjoinable => Or.inr ((h.held hjoinable).resolve_left hskip.2)
      stopJoins := fun _ => Nat.succ_ne_zero _
      destroyed := fun hzero => absurd hzero (Nat.succ_ne_zero _)
      started := fun hquiet => Or.inl ((h.started hquiet).resolve_right hskip.2) }

theorem TimerKept.closeHandle (h : TimerKept attr s) :
    TimerKept attr (timerStep attr s .closeHandle) := by
  rw [timerStep]
  split_ifs with hskip
  · exact h
  · simp only [Bool.or_eq_true, beq_iff_eq, not_or, Bool.not_eq_true] at hskip
    obtain ⟨⟨hterminated, hstopping⟩, hhandles⟩ := hskip
    exact {
      tailEnded := h.tailEnded
      held := fun hjoinable => Or.inr ((h.held hjoinable).resolve_left hhandles)
      quietEnds := h.quietEnds
      periodic := fun hgone => by
        simp only [Bool.and_eq_true, beq_iff_eq, List.all_eq_true] at hgone
        -- A thread that is over has taken the flag down.
        have hrunning : s.running = false := by
          by_contra hup
          obtain ⟨p, hp, hlive⟩ := h.live (Bool.not_eq_false _ ▸ hup) hterminated
          exact hlive (hgone.2 p (List.mem_of_mem_head? hp))
        exact h.runOut hrunning hgone.1.2 hstopping
      runOut := h.runOut
      cleared := h.cleared
      live := fun hrunning _ => h.live hrunning hterminated
      oneShot := h.oneShot
      stopJoins := fun htrue => by
        rw [show s.stopping = false from hstopping] at htrue
        cases htrue
      destroyed := fun hzero hjoinable hended => by
        have hone : s.handles = 1 := by
          have hzero' : s.handles - 1 = 0 := hzero
          omega
        simp only [Bool.and_eq_true, beq_iff_eq, List.all_eq_true]
        exact ⟨⟨hone, hjoinable⟩, hended⟩
      started := fun hquiet => Or.inl ((h.started hquiet).resolve_right hhandles) }

theorem TimerKept.reset (h : TimerKept attr s) : TimerKept attr (timerStep attr s .reset) := by
  rw [timerStep]
  split_ifs with hskip
  · exact h
  · simp only [Bool.or_eq_true, beq_iff_eq, not_or, Bool.not_eq_true] at hskip
    exact {
      tailEnded := h.tailEnded
      held := fun _ => Or.inl rfl
      quietEnds := h.quietEnds
      periodic := h.periodic
      runOut := fun _ hfalse => nomatch hfalse
      cleared := fun _ _ => rfl
      live := fun hfalse => nomatch hfalse
      oneShot := h.oneShot
      stopJoins := fun hstopping => by
        rw [show s.stopping = false from hskip.1.2] at hstopping
        cases hstopping
      destroyed := fun _ hfalse => nomatch hfalse
      started := fun _ => Or.inr rfl }

/-- A thread that has ended stays where it is. -/
theorem timerStep_go_ended {i : ℕ} (h : s.threads[i]? = some .ended) :
    timerStep attr s (.go i) = s := by
  rw [timerStep, h]
  split_ifs with hterminated
  · rfl
  · have hset : s.threads.set i .ended = s.threads := by
      obtain ⟨hi, heq⟩ := List.getElem?_eq_some_iff.mp h
      rw [← heq, List.set_getElem_self]
    show { s with
      threads := s.threads.set i .ended
      running := s.running && true
      terminated := false
      fired := s.fired + 0 } = s
    rw [hset, Bool.and_true, Nat.add_zero, ← Bool.eq_false_iff.mpr hterminated]

/-- A periodic timer takes the flag down when it has found it down. -/
theorem nextPlace_eq_clearing {running : Bool} {p : TimerPlace} (hperiod : attr.periodUs ≠ 0)
    (h : attr.nextPlace running p = .clearing) : running = false := by
  cases running with
  | false => rfl
  | true =>
      cases p with
      | testing =>
          rw [TimerAttr.nextPlace, if_pos rfl] at h
          split_ifs at h
      | looping =>
          rw [TimerAttr.nextPlace, if_pos ⟨hperiod, rfl⟩] at h
          cases h
      | sleeping | calling | clearing | ended => cases h

/-- A thread ends by taking the flag down. -/
theorem nextPlace_ne_ended (attr : TimerAttr) (running : Bool) {p : TimerPlace}
    (hclearing : p ≠ .clearing) (hended : p ≠ .ended) : attr.nextPlace running p ≠ .ended := by
  cases p with
  | testing =>
      rw [TimerAttr.nextPlace]
      split_ifs <;> simp
  | looping =>
      rw [TimerAttr.nextPlace]
      split_ifs <;> simp
  | sleeping | calling => simp [TimerAttr.nextPlace]
  | clearing => exact absurd rfl hclearing
  | ended => exact absurd rfl hended

/-- The thread of a one-shot timer neither sleeps nor comes back to the test. -/
theorem nextPlace_oneShot {p : TimerPlace} (running : Bool) (hperiod : attr.periodUs = 0)
    (hp : p ≠ .sleeping) :
    attr.nextPlace running p ≠ .testing ∧ attr.nextPlace running p ≠ .sleeping := by
  cases p with
  | sleeping => exact absurd rfl hp
  | testing =>
      rw [TimerAttr.nextPlace]
      split_ifs <;> simp
  | looping =>
      rw [TimerAttr.nextPlace, if_neg fun h => h.1 hperiod]
      simp
  | calling | clearing | ended => simp [TimerAttr.nextPlace]

/-- The last thread, which may live, goes on from `p`. -/
theorem TimerKept.goes (h : TimerKept attr s) {p : TimerPlace} {rest : List TimerPlace}
    (hthreads : s.threads = p :: rest) (hlive : p ≠ .ended) :
    TimerKept attr { s with
      threads := attr.nextPlace s.running p :: rest
      running := s.running && p != .clearing
      terminated := p == .clearing && s.handles == 0 && s.joinable
      fired := s.fired +
        if p = .testing ∧ attr.nextPlace s.running p = .calling then 1 else 0 } := by
  have htail : ∀ q ∈ rest, q = .ended := by
    have htail := h.tailEnded
    rwa [hthreads] at htail
  have hnot : ¬ ∀ q ∈ s.threads, q = .ended := by
    rw [hthreads]
    exact fun hall => hlive (hall p List.mem_cons_self)
  constructor
  · exact htail
  · exact fun hjoinable => Or.inl ((h.held hjoinable).resolve_right hnot)
  · exact fun hquiet => absurd (h.quietEnds hquiet) hnot
  · intro hgone
    simp only [Bool.and_eq_true, beq_iff_eq] at hgone
    obtain ⟨⟨rfl, hzero⟩, hjoinable⟩ := hgone
    by_contra hperiod
    have hstopping : s.stopping = false := Bool.not_eq_true _ ▸ fun htrue => h.stopJoins htrue hzero
    have hdown := h.cleared hperiod (by rw [hthreads]; rfl)
    exact hperiod (h.runOut hdown hjoinable hstopping)
  · intro hdown hjoinable hstopping
    by_contra hperiod
    have hrunning : s.running = true := by
      by_contra hfalse
      exact hperiod (h.runOut (Bool.not_eq_true _ ▸ hfalse) hjoinable hstopping)
    -- The flag was up, so it was taken down now.
    have hclearing : p = .clearing := by simpa [hrunning] using hdown
    have hfalse := h.cleared hperiod (by rw [hthreads, hclearing]; rfl)
    rw [hrunning] at hfalse
    cases hfalse
  · intro hperiod hhead
    have hnext : attr.nextPlace s.running p = .clearing := Option.some.inj hhead
    show (s.running && p != .clearing) = false
    rw [nextPlace_eq_clearing hperiod hnext]
    rfl
  · intro hrunning _
    rw [Bool.and_eq_true, bne_iff_ne] at hrunning
    exact ⟨_, rfl, nextPlace_ne_ended attr s.running hrunning.2 hlive⟩
  · intro hperiod
    obtain ⟨honce, hsleeps⟩ := h.oneShot hperiod
    rw [hthreads, List.count_cons, List.length_cons] at honce
    rw [hthreads, List.mem_cons, not_or] at hsleeps
    obtain ⟨htesting, hsleeping⟩ :=
      nextPlace_oneShot s.running hperiod (fun heq => hsleeps.1 heq.symm)
    have hfires : (if p = .testing ∧ attr.nextPlace s.running p = .calling then 1 else 0) ≤
        if (p == .testing) = true then 1 else 0 := by
      split_ifs with hfire hnot
      · exact le_refl 1
      · exact absurd (beq_iff_eq.mpr hfire.1) hnot
      · exact Nat.zero_le 1
      · exact le_refl 0
    show s.fired + _ + (attr.nextPlace s.running p :: rest).count .testing ≤
      (attr.nextPlace s.running p :: rest).length ∧ _ ∉ attr.nextPlace s.running p :: rest
    rw [List.count_cons_of_ne htesting, List.length_cons, List.mem_cons, not_or]
    exact ⟨by omega, hsleeping.symm, hsleeps.2⟩
  · exact h.stopJoins
  · intro hzero hjoinable hended
    have hclearing : p = .clearing := by
      by_contra hne
      exact nextPlace_ne_ended attr s.running hne hlive (hended _ List.mem_cons_self)
    simp only [Bool.and_eq_true, beq_iff_eq]
    exact ⟨⟨hclearing, hzero⟩, hjoinable⟩
  · exact h.started

theorem TimerKept.go (h : TimerKept attr s) (i : ℕ) :
    TimerKept attr (timerStep attr s (.go i)) := by
  cases hplace : s.threads[i]? with
  | none =>
      rw [timerStep, hplace]
      split_ifs <;> exact h
  | some p =>
      by_cases hlive : p = .ended
      · rw [timerStep_go_ended (hlive ▸ hplace)]
        exact h
      · cases hthreads : s.threads with
        | nil =>
            rw [hthreads] at hplace
            cases hplace
        | cons first rest =>
            rw [timerStep, hplace]
            split_ifs with hterminated
            · exact h
            · cases i with
              | zero =>
                  rw [hthreads] at hplace ⊢
                  obtain rfl : first = p := Option.some.inj hplace
                  exact h.goes hthreads hlive
              | succ i =>
                  rw [hthreads] at hplace
                  have hmem : p ∈ s.threads.tail := by
                    rw [hthreads]
                    exact List.mem_of_getElem? hplace
                  exact absurd (h.tailEnded p hmem) hlive

theorem TimerKept.step (h : TimerKept attr s) (e : TimerEvent) :
    TimerKept attr (timerStep attr s e) := by
  cases e with
  | startTimer => exact h.startTimer
  | stopTimer => exact h.stopTimer
  | joined => exact h.joined
  | duplicateHandle => exact h.duplicateHandle
  | closeHandle => exact h.closeHandle
  | reset => exact h.reset
  | go i => exact h.go i

theorem timerKept_run (attr : TimerAttr) (events : List TimerEvent) :
    TimerKept attr (events.foldl (timerStep attr) {}) := by
  have hkept : AllStates (timerStep attr) (TimerKept attr) {} events :=
    allStates_of_allSteps (I := TimerKept attr) (G := fun _ _ => True) (fun _ => id)
      (fun _ e h _ => h.step e) timerKept_create (allSteps_of_forall fun _ _ => trivial)
  exact hkept events (List.prefix_refl _)

/-- **A timer that ran out.**  Started once more without a `StopTimer` in between, it brings the
program down. -/
theorem runOut_terminates (attr : TimerAttr) {events : List TimerEvent}
    (hs : events.foldl (timerStep attr) {} = s) (hquiet : s.quiet = false)
    (hended : ∀ p ∈ s.threads, p = .ended) (hhandles : s.handles ≠ 0)
    (hstopping : s.stopping = false) : (timerStep attr s .startTimer).terminated = true := by
  have h : TimerKept attr s := hs ▸ timerKept_run attr events
  have hjoinable : s.joinable = true := (h.started hquiet).resolve_right hhandles
  cases hterminated : s.terminated with
  | true =>
      rw [timerStep, hterminated, Bool.true_or, Bool.true_or, Bool.true_or, if_pos rfl]
      exact hterminated
  | false =>
      have hrunning : s.running = false := by
        by_contra hup
        obtain ⟨p, hp, hlive⟩ := h.live (Bool.not_eq_false _ ▸ hup) hterminated
        exact hlive (hended p (List.mem_of_mem_head? hp))
      rw [timerStep, hterminated, hstopping, hrunning, beq_false_of_ne hhandles, hjoinable]
      rfl

/-- A one-shot timer is started, fires, and comes to an end. -/
theorem runOut_terminates_oneShot :
    (timerStep ⟨0, true⟩ (([.startTimer, .go 0, .go 0, .go 0, .go 0] : List TimerEvent).foldl
      (timerStep ⟨0, true⟩) {}) .startTimer).terminated = true :=
  runOut_terminates ⟨0, true⟩
    (show ([.startTimer, .go 0, .go 0, .go 0, .go 0] : List TimerEvent).foldl _ _ = _ from rfl)
    rfl (by decide) (by decide) rfl

/-- The callback of the last thread is over, or there is no thread. -/
def PastCallback (s : TimerRun) : Prop :=
  ∀ p ∈ s.threads, p = .looping ∨ p = .clearing ∨ p = .ended

/-- Nothing but a start makes a one-shot timer fire again. -/
theorem PastCallback.step (h : PastCallback s) (hperiod : attr.periodUs = 0) {e : TimerEvent}
    (he : e ≠ .startTimer) :
    PastCallback (timerStep attr s e) ∧ (timerStep attr s e).fired = s.fired := by
  cases e with
  | startTimer => exact absurd rfl he
  | stopTimer | joined | duplicateHandle | closeHandle | reset =>
      rw [timerStep]
      split_ifs <;> exact ⟨h, rfl⟩
  | go i =>
      rw [timerStep]
      cases hplace : s.threads[i]? with
      | none => split_ifs <;> exact ⟨h, rfl⟩
      | some p =>
          have hp := h p (List.mem_of_getElem? hplace)
          have hnext : attr.nextPlace s.running p = .clearing ∨
              attr.nextPlace s.running p = .ended := by
            rcases hp with rfl | rfl | rfl
            · exact Or.inl (if_neg fun h => h.1 hperiod)
            · exact Or.inr rfl
            · exact Or.inr rfl
          split_ifs with hterminated
          · exact ⟨h, rfl⟩
          · refine ⟨fun q hq => ?_, ?_⟩
            · rcases List.mem_or_eq_of_mem_set hq with hq | rfl
              · exact h q hq
              · exact Or.inr hnext
            · show s.fired + _ = s.fired
              rw [if_neg, Nat.add_zero]
              rintro ⟨rfl, -⟩
              rcases hp with hp | hp | hp <;> cases hp

theorem PastCallback.run (h : PastCallback s) (hperiod : attr.periodUs = 0)
    {events : List TimerEvent} (hevents : ∀ e ∈ events, e ≠ .startTimer) :
    (events.foldl (timerStep attr) s).fired = s.fired := by
  induction events generalizing s with
  | nil => rfl
  | cons e events ih =>
      obtain ⟨he, hrest⟩ := List.forall_mem_cons.mp hevents
      obtain ⟨hpast, hfired⟩ := h.step hperiod he
      exact (ih hpast hrest).trans hfired

/-- **A start that is lost.**  While the thread of a one-shot timer is behind its callback and has
not taken the flag down, `StartTimer` does not make it fire again. -/
theorem late_start_lost (attr : TimerAttr) (hperiod : attr.periodUs = 0)
    {events events' : List TimerEvent} (hs : events.foldl (timerStep attr) {} = s)
    (hplace : s.threads.head? = some .looping ∨ s.threads.head? = some .clearing)
    (hevents : ∀ e ∈ events', e ≠ .startTimer) :
    (events'.foldl (timerStep attr) (timerStep attr s .startTimer)).fired = s.fired := by
  have h : TimerKept attr s := hs ▸ timerKept_run attr events
  have hpast : PastCallback s := by
    intro p hp
    cases hthreads : s.threads with
    | nil => simp [hthreads] at hp
    | cons first rest =>
        have htail := h.tailEnded
        rw [hthreads] at hp hplace htail
        rcases List.mem_cons.mp hp with rfl | hp
        · rcases hplace with hplace | hplace
          · exact Or.inl (Option.some.inj hplace)
          · exact Or.inr (Or.inl (Option.some.inj hplace))
        · exact Or.inr (Or.inr (htail p hp))
  have hlive : ¬ ∀ p ∈ s.threads, p = .ended := by
    intro hended
    rcases hplace with hplace | hplace
    · cases hended _ (List.mem_of_mem_head? hplace)
    · cases hended _ (List.mem_of_mem_head? hplace)
  suffices hstart : (timerStep attr s .startTimer).threads = s.threads ∧
      (timerStep attr s .startTimer).fired = s.fired by
    have hpast' : PastCallback (timerStep attr s .startTimer) := by
      rw [PastCallback, hstart.1]
      exact hpast
    exact (hpast'.run hperiod hevents).trans hstart.2
  rw [timerStep]
  split_ifs with hskip hjoinable
  · exact ⟨rfl, rfl⟩
  · exact ⟨rfl, rfl⟩
  · -- A timer that is not held has no thread that lives.
    simp only [Bool.or_eq_true, beq_iff_eq, not_or] at hskip
    exact absurd ((h.held (Bool.not_eq_true _ ▸ hjoinable)).resolve_left hskip.1.2) hlive

/-- It is started again between the return of the callback and the store of the flag. -/
theorem late_start_lost_oneShot :
    (([.go 0, .go 0, .go 0, .stopTimer] : List TimerEvent).foldl (timerStep ⟨0, true⟩)
      (timerStep ⟨0, true⟩ (([.startTimer, .go 0, .go 0] : List TimerEvent).foldl
        (timerStep ⟨0, true⟩) {}) .startTimer)).fired = 1 :=
  late_start_lost ⟨0, true⟩ rfl
    (show ([.startTimer, .go 0, .go 0] : List TimerEvent).foldl _ _ = _ from rfl)
    (Or.inl rfl) (by decide)

/-! ## Timers without handles -/

/-- Nobody reaches the timer, and its flag is up. -/
structure Orphan (attr : TimerAttr) (s : TimerRun) : Prop where
  kept : TimerKept attr s
  running : s.running = true
  handles : s.handles = 0

theorem Orphan.step (h : Orphan attr s) (hperiod : attr.periodUs ≠ 0) (e : TimerEvent) :
    Orphan attr (timerStep attr s e) := by
  have hkept := h.kept.step e
  have hrunning := h.running
  have hhandles := h.handles
  suffices hstep : (timerStep attr s e).running = true ∧ (timerStep attr s e).handles = 0 from
    ⟨hkept, hstep.1, hstep.2⟩
  cases e with
  | startTimer | stopTimer | duplicateHandle | closeHandle | reset =>
      simp [timerStep, hrunning, hhandles]
  | joined =>
      rw [timerStep]
      split_ifs <;> simp [hrunning, hhandles]
  | go i =>
      rw [timerStep]
      cases hplace : s.threads[i]? with
      | none => split_ifs <;> exact ⟨hrunning, hhandles⟩
      | some p =>
          split_ifs
          · exact ⟨hrunning, hhandles⟩
          · refine ⟨?_, hhandles⟩
            show (s.running && p != .clearing) = true
            rw [hrunning, Bool.true_and, bne_iff_ne]
            rintro rfl
            cases i with
            | zero =>
                have hfalse := h.kept.cleared hperiod (List.head?_eq_getElem? ▸ hplace)
                rw [hrunning] at hfalse
                cases hfalse
            | succ i =>
                have hmem : TimerPlace.clearing ∈ s.threads.tail := by
                  cases hthreads : s.threads with
                  | nil => simp [hthreads] at hplace
                  | cons first rest =>
                      rw [hthreads] at hplace
                      exact List.mem_of_getElem? hplace
                cases h.kept.tailEnded _ hmem

/-- One turn of the loop: the thread sleeps, tests, calls and loops, in whatever part of it it
is. -/
theorem Orphan.turn (h : Orphan attr s) (hperiod : attr.periodUs ≠ 0)
    (hcallback : attr.callback = true) :
    ((List.replicate 4 (TimerEvent.go 0)).foldl (timerStep attr) s).fired = s.fired + 1 := by
  have hterminated : s.terminated = false := by
    by_contra hup
    exact hperiod (h.kept.periodic (Bool.not_eq_false _ ▸ hup))
  have hrunning := h.running
  have hperiodic : ¬ attr.periodUs = 0#64 := hperiod
  obtain ⟨p, hp, hlive⟩ := h.kept.live hrunning hterminated
  have hcleared : p ≠ .clearing := by
    rintro rfl
    have hfalse := h.kept.cleared hperiod hp
    rw [hrunning] at hfalse
    cases hfalse
  cases hthreads : s.threads with
  | nil => simp [hthreads] at hp
  | cons first rest =>
      rw [hthreads] at hp
      obtain rfl : first = p := Option.some.inj hp
      cases first with
      | sleeping | testing | calling | looping =>
          simp [List.replicate, timerStep, TimerAttr.nextPlace, hterminated, hrunning, hthreads,
            hperiodic, hcallback]
      | clearing => exact absurd rfl hcleared
      | ended => exact absurd rfl hlive

/-- **A periodic timer without handles** runs on for ever: whatever is called, it stays up, and
every turn of its thread calls the callback. -/
theorem orphan_runs (attr : TimerAttr) (hperiod : attr.periodUs ≠ 0)
    (hcallback : attr.callback = true) {events events' : List TimerEvent}
    (hs : events.foldl (timerStep attr) {} = s) (hrunning : s.running = true)
    (hhandles : s.handles = 0) :
    (events'.foldl (timerStep attr) s).running = true ∧
      ((List.replicate 4 (TimerEvent.go 0)).foldl (timerStep attr)
        (events'.foldl (timerStep attr) s)).fired =
          (events'.foldl (timerStep attr) s).fired + 1 := by
  have h : Orphan attr s := ⟨hs ▸ timerKept_run attr events, hrunning, hhandles⟩
  have horphan : Orphan attr (events'.foldl (timerStep attr) s) := by
    clear hs hrunning hhandles
    induction events' generalizing s with
    | nil => exact h
    | cons e events' ih => exact ih (h.step hperiod e)
  exact ⟨horphan.running, horphan.turn hperiod hcallback⟩

/-- The only handle is closed while the timer runs. -/
theorem orphan_runs_closed :
    (([.go 0, .reset] : List TimerEvent).foldl (timerStep ⟨5, true⟩)
      (([.startTimer, .closeHandle] : List TimerEvent).foldl (timerStep ⟨5, true⟩) {})).running =
        true ∧
      ((List.replicate 4 (TimerEvent.go 0)).foldl (timerStep ⟨5, true⟩)
        (([.go 0, .reset] : List TimerEvent).foldl (timerStep ⟨5, true⟩)
          (([.startTimer, .closeHandle] : List TimerEvent).foldl (timerStep ⟨5, true⟩)
            {}))).fired =
        (([.go 0, .reset] : List TimerEvent).foldl (timerStep ⟨5, true⟩)
          (([.startTimer, .closeHandle] : List TimerEvent).foldl (timerStep ⟨5, true⟩)
            {})).fired + 1 :=
  orphan_runs ⟨5, true⟩ (by decide) rfl
    (show ([.startTimer, .closeHandle] : List TimerEvent).foldl _ _ = _ from rfl) rfl rfl

end KernelRuntime
