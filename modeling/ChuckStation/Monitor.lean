/-
# Monitors

Threads that share a state under one mutex, and wait for it with a condition variable.  A call
is one critical section behind a predicate: it is run where the predicate holds, at once or at
a later wake-up, and it is given up when its time is over and the predicate still fails.

A waiting thread may wake up at any time, since a condition variable may wake without notice;
every wake-up asks the predicate again.  So who is notified does not matter to what can
happen, and notifications are left out.
-/
import ChuckStation.OperationRuns

/-- The calls of a monitor: what a call waits for, whether it has a time limit, and what it
does once it has the state to itself. -/
structure Monitor (σ κ ρ : Type*) where
  ready : κ → σ → Bool
  timed : κ → Bool
  run : κ → σ → σ × ρ

namespace Monitor

open OperationRuns

/-! ## Runs -/

/-- What the scheduler does next. -/
inductive Event (ι κ : Type*) where
  | call (t : ι) (c : κ)
  | wake (t : ι)
  | expire (t : ι)

/-- A call that has returned, the state it found, and its result if it was not given up. -/
structure Done (ι σ κ ρ : Type*) where
  thread : ι
  call : κ
  before : σ
  result : Option ρ

/-- The shared state, the calls that wait, and those that have returned, last one first. -/
structure Config (ι σ κ ρ : Type*) where
  shared : σ
  waiting : ι → Option κ := fun _ => none
  done : List (Done ι σ κ ρ) := []

variable {ι σ κ ρ : Type*}

/-- The call that an event is about.  A thread that waits makes no other call. -/
def Config.pending (s : Config ι σ κ ρ) : Event ι κ → Option (ι × κ)
  | .call t c => if (s.waiting t).isSome then none else some (t, c)
  | .wake t | .expire t => (s.waiting t).map fun c => (t, c)

variable {M : Monitor σ κ ρ} {s : Config ι σ κ ρ} {e : Event ι κ} {events : List (Event ι κ)}

/-- If the call of the event is run now, it meets the guard. -/
def Admits (M : Monitor σ κ ρ) (G : σ → κ → Prop) (s : Config ι σ κ ρ) (e : Event ι κ) : Prop :=
  ∀ t c, s.pending e = some (t, c) → M.ready c s.shared = true → G s.shared c

theorem admits_call {G : σ → κ → Prop} {t : ι} {c : κ}
    (h : M.ready c s.shared = true → G s.shared c) : M.Admits G s (.call t c) := by
  intro t' c' hp hready
  rw [Config.pending] at hp
  split_ifs at hp
  cases hp
  exact h hready

/-- What all waiting calls and all calls of the events have in common. -/
def Config.AllWaiting (Q : κ → Prop) (s : Config ι σ κ ρ) : Prop :=
  ∀ t c, s.waiting t = some c → Q c

def Event.Makes (Q : κ → Prop) (e : Event ι κ) : Prop := ∀ t c, e = .call t c → Q c

theorem Event.makes_call {Q : κ → Prop} {t : ι} {c : κ} (h : Q c) :
    (Event.call t c : Event ι κ).Makes Q := by
  rintro t' c' ⟨⟩
  exact h

theorem pending_of_makes {Q : κ → Prop} {t : ι} {c : κ} (hs : s.AllWaiting Q) (he : e.Makes Q)
    (hp : s.pending e = some (t, c)) : Q c := by
  cases e with
  | call t' c' =>
      rw [Config.pending] at hp
      split_ifs at hp
      cases hp
      exact he t c rfl
  | wake t' | expire t' =>
      obtain ⟨c', hc', heq⟩ := Option.map_eq_some_iff.mp hp
      cases heq
      exact hs _ _ hc'

section Step

variable [DecidableEq ι]

def Config.setWaiting (s : Config ι σ κ ρ) (t : ι) (w : Option κ) : Config ι σ κ ρ :=
  { s with waiting := fun t' => if t' = t then w else s.waiting t' }

/-- The call returns. -/
def Config.record (s : Config ι σ κ ρ) (t : ι) (c : κ) (result : Option ρ) : Config ι σ κ ρ :=
  { s.setWaiting t none with done := ⟨t, c, s.shared, result⟩ :: s.done }

/-- The critical section behind the predicate. -/
def finish (M : Monitor σ κ ρ) (t : ι) (c : κ) (s : Config ι σ κ ρ) : Config ι σ κ ρ :=
  { s.record t c (some (M.run c s.shared).2) with shared := (M.run c s.shared).1 }

/-- One critical section of one thread. -/
def step (M : Monitor σ κ ρ) (s : Config ι σ κ ρ) (e : Event ι κ) : Config ι σ κ ρ :=
  match s.pending e with
  | none => s
  | some (t, c) =>
    if M.ready c s.shared then M.finish t c s
    else match e with
      | .call _ _ => s.setWaiting t (some c)
      | .wake _ => s
      | .expire _ => if M.timed c then s.record t c none else s

theorem step_of_ready {t : ι} {c : κ} (hp : s.pending e = some (t, c))
    (hready : M.ready c s.shared = true) : M.step s e = M.finish t c s := by
  rw [step, hp]
  exact if_pos hready

theorem allWaiting_setWaiting {Q : κ → Prop} {t : ι} {w : Option κ} (hs : s.AllWaiting Q)
    (hw : ∀ c, w = some c → Q c) : (s.setWaiting t w).AllWaiting Q := by
  intro t' c hc
  by_cases ht : t' = t
  · exact hw c ((if_pos ht).symm.trans hc)
  · exact hs t' c ((if_neg ht).symm.trans hc)

theorem allWaiting_step {Q : κ → Prop} (hs : s.AllWaiting Q) (he : e.Makes Q) :
    (M.step s e).AllWaiting Q := by
  have hnone : ∀ t, (s.setWaiting t none).AllWaiting Q := fun t =>
    allWaiting_setWaiting hs fun _ hc => nomatch hc
  rw [step]
  cases hp : s.pending e with
  | none => exact hs
  | some tc =>
      obtain ⟨t, c⟩ := tc
      by_cases hready : M.ready c s.shared = true
      · simp only [if_pos hready]
        exact hnone t
      · simp only [if_neg hready]
        cases e with
        | call t' c' =>
            refine allWaiting_setWaiting hs fun c'' hc => ?_
            cases hc
            exact pending_of_makes hs he hp
        | wake t' => exact hs
        | expire t' =>
            by_cases htimed : M.timed c = true
            · simp only [if_pos htimed]
              exact hnone t
            · simp only [if_neg htimed]
              exact hs

/-- A call is run where it is ready; otherwise at most one call is given up. -/
theorem step_cases (M : Monitor σ κ ρ) (s : Config ι σ κ ρ) (e : Event ι κ) :
    (∃ t c, s.pending e = some (t, c) ∧ M.ready c s.shared = true ∧ M.step s e = M.finish t c s) ∨
      ((M.step s e).shared = s.shared ∧ ((M.step s e).done = s.done ∨ ∃ t c,
        M.ready c s.shared = false ∧ (M.step s e).done = ⟨t, c, s.shared, none⟩ :: s.done)) := by
  rw [step]
  cases hp : s.pending e with
  | none => exact .inr ⟨rfl, .inl rfl⟩
  | some tc =>
      obtain ⟨t, c⟩ := tc
      dsimp only
      by_cases hready : M.ready c s.shared = true
      · rw [if_pos hready]
        exact .inl ⟨t, c, rfl, hready, rfl⟩
      · rw [if_neg hready]
        right
        cases e with
        | call t' c' => exact ⟨rfl, .inl rfl⟩
        | wake t' => exact ⟨rfl, .inl rfl⟩
        | expire t' =>
            dsimp only
            split_ifs
            · exact ⟨rfl, .inr ⟨t, c, Bool.eq_false_iff.mpr hready, rfl⟩⟩
            · exact ⟨rfl, .inl rfl⟩

/-- **The invariant rule.**  What every call keeps where it is ready and its guard holds, and
every call that is given up, is kept by every step. -/
theorem step_invariant {I : σ → List (Done ι σ κ ρ) → Prop} {G : σ → κ → Prop}
    (hrun : ∀ s done t c, I s done → M.ready c s = true → G s c →
      I (M.run c s).1 (⟨t, c, s, some (M.run c s).2⟩ :: done))
    (hgive : ∀ s done t c, I s done → M.ready c s = false → I s (⟨t, c, s, none⟩ :: done))
    (hs : I s.shared s.done) (hguard : M.Admits G s e) :
    I (M.step s e).shared (M.step s e).done := by
  rcases step_cases M s e with ⟨t, c, hp, hready, hstep⟩ | ⟨hshared, hdone | ⟨t, c, hready, hdone⟩⟩
  · rw [hstep]
    exact hrun _ _ t c hs hready (hguard t c hp hready)
  · rw [hshared, hdone]
    exact hs
  · rw [hshared, hdone]
    exact hgive _ _ t c hs hready

/-- What every guarded call keeps holds throughout every run whose calls meet the guard. -/
theorem allStates_of_admits {I : σ → List (Done ι σ κ ρ) → Prop} {G : σ → κ → Prop}
    {P : Config ι σ κ ρ → Prop} (hIP : ∀ s : Config ι σ κ ρ, I s.shared s.done → P s)
    (hrun : ∀ s done t c, I s done → M.ready c s = true → G s c →
      I (M.run c s).1 (⟨t, c, s, some (M.run c s).2⟩ :: done))
    (hgive : ∀ s done t c, I s done → M.ready c s = false → I s (⟨t, c, s, none⟩ :: done))
    (hs : I s.shared s.done) (hall : AllSteps M.step (M.Admits G) s events) :
    AllStates M.step P s events :=
  allStates_of_allSteps (I := fun s => I s.shared s.done) hIP
    (fun _ _ hI hguard => step_invariant hrun hgive hI hguard) hs hall

/-- What every call keeps holds throughout every run. -/
theorem allStates_of_invariant {I : σ → List (Done ι σ κ ρ) → Prop}
    {P : Config ι σ κ ρ → Prop} (hIP : ∀ s : Config ι σ κ ρ, I s.shared s.done → P s)
    (hrun : ∀ s done t c, I s done → M.ready c s = true →
      I (M.run c s).1 (⟨t, c, s, some (M.run c s).2⟩ :: done))
    (hgive : ∀ s done t c, I s done → M.ready c s = false → I s (⟨t, c, s, none⟩ :: done))
    (hs : I s.shared s.done) : AllStates M.step P s events := by
  have hall : AllSteps M.step (M.Admits fun _ _ => True) s events :=
    allSteps_of_forall fun _ _ _ _ _ _ => trivial
  exact allStates_of_admits hIP (fun s done t c hI hready _ => hrun s done t c hI hready) hgive hs
    hall

end Step

/-! ## A state with more in it -/

section Erase

variable {τ : Type*}

def Done.map (f : τ → σ) (d : Done ι τ κ ρ) : Done ι σ κ ρ :=
  ⟨d.thread, d.call, f d.before, d.result⟩

def Config.map (f : τ → σ) (s : Config ι τ κ ρ) : Config ι σ κ ρ where
  shared := f s.shared
  waiting := s.waiting
  done := s.done.map (Done.map f)

/-- The monitor on the larger state does to the smaller one what the other monitor does. -/
structure Extends (N : Monitor τ κ ρ) (M : Monitor σ κ ρ) (f : τ → σ) : Prop where
  ready : ∀ c s, N.ready c s = M.ready c (f s)
  timed : N.timed = M.timed
  state : ∀ c s, f (N.run c s).1 = (M.run c (f s)).1
  result : ∀ c s, (N.run c s).2 = (M.run c (f s)).2

variable {N : Monitor τ κ ρ} {M : Monitor σ κ ρ} {f : τ → σ}

theorem Extends.admits (h : Extends N M f) {G : σ → κ → Prop} {s : Config ι τ κ ρ}
    {e : Event ι κ} (hadmits : M.Admits G (s.map f) e) :
    N.Admits (fun s c => G (f s) c) s e := by
  have hpending : (s.map f).pending e = s.pending e := by cases e <;> rfl
  intro t c hp hready
  apply hadmits t c (hpending.trans hp)
  show M.ready c (f s.shared) = true
  rw [← h.ready]
  exact hready

variable [DecidableEq ι]

theorem Extends.step (h : Extends N M f) (s : Config ι τ κ ρ) (e : Event ι κ) :
    (N.step s e).map f = M.step (s.map f) e := by
  have hpending : (s.map f).pending e = s.pending e := by cases e <;> rfl
  rw [Monitor.step, Monitor.step, hpending]
  cases s.pending e with
  | none => rfl
  | some tc =>
      obtain ⟨t, c⟩ := tc
      have hready : M.ready c (s.map f).shared = N.ready c s.shared := (h.ready c s.shared).symm
      dsimp only
      rw [hready, h.timed]
      by_cases hr : N.ready c s.shared = true
      · rw [if_pos hr, if_pos hr]
        simp only [finish, Config.map, Config.record, Config.setWaiting, h.state, h.result,
          List.map_cons]
        rfl
      · rw [if_neg hr, if_neg hr]
        cases e with
        | call t' c' => rfl
        | wake t' => rfl
        | expire t' =>
            by_cases ht : M.timed c = true
            · simp only [if_pos ht]
              rfl
            · simp only [if_neg ht]

/-- The guards of a run on the smaller state are those of the run on the larger one. -/
theorem Extends.allSteps (h : Extends N M f) {G : σ → κ → Prop} {s : Config ι τ κ ρ}
    {events : List (Event ι κ)} (hall : AllSteps M.step (M.Admits G) (s.map f) events) :
    AllSteps N.step (N.Admits fun s c => G (f s) c) s events := by
  induction events generalizing s with
  | nil => trivial
  | cons e events ih =>
      obtain ⟨hguard, hrest⟩ := hall
      rw [← h.step] at hrest
      exact ⟨h.admits hguard, ih hrest⟩

end Erase

end Monitor
