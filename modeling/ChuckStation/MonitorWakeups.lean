/-
# Who wakes the threads of a monitor

The monitor of `Monitor` with its notifications.  A waiting thread asks its predicate again only
when it was notified, when its time is over, or when the condition variable wakes it without
notice.  Seen from outside nothing new happens, so what holds of the monitor still holds; what
is new is that a call may go on waiting although its predicate holds.

* `allStates_advance`: what holds in all runs of the monitor holds here.
* `awake_run`: with `notify_all`, no call waits whose predicate holds, unless a notification is
  on its way.
-/
import ChuckStation.Monitor

namespace Monitor

open OperationRuns

/-! ## Notifications -/

/-- The condition variables of a monitor: the one a call waits on, the one it notifies when it
has been run, whether it notifies all, and whether it does so before it unlocks the mutex. -/
structure Signals (γ κ : Type*) where
  waitsOn : κ → γ
  notifies : κ → Option γ
  all : Bool
  inside : Bool

/-- Where a thread is: outside, blocked, on its way to ask again, or behind its critical section
with a notification to send. -/
inductive Place (κ : Type*) where
  | outside
  | waiting (c : κ)
  | woken (c : κ)
  | notifying (c : κ)

structure Scheduled (ι σ κ ρ : Type*) where
  shared : σ
  place : ι → Place κ := fun _ => .outside
  done : List (Done ι σ κ ρ) := []

/-- What the scheduler does next.  `u` is the thread that `notify_one` wakes. -/
inductive Move (ι κ : Type*) where
  | call (t : ι) (c : κ) (u : ι)
  | rouse (t : ι)
  | test (t u : ι)
  | expire (t u : ι)
  | notify (t u : ι)

variable {ι σ κ ρ γ : Type*}

/-- The call that waits, whether its thread is blocked or on its way. -/
def Place.pending : Place κ → Option κ
  | .waiting c | .woken c => some c
  | .outside | .notifying _ => none

/-- The monitor without its notifications. -/
def Scheduled.config (s : Scheduled ι σ κ ρ) : Config ι σ κ ρ where
  shared := s.shared
  waiting t := (s.place t).pending
  done := s.done

section Step

variable [DecidableEq γ] (C : Signals γ κ)

/-- The thread is blocked on the condition variable. -/
def Place.blockedOn (g : γ) : Place κ → Bool
  | .waiting c => C.waitsOn c = g
  | _ => false

/-- The thread is on its way to ask again, or to notify. -/
def Place.onTheWay (g : γ) : Place κ → Bool
  | .woken c => C.waitsOn c = g
  | .notifying c => C.notifies c = some g
  | _ => false

def Place.rouse : Place κ → Place κ
  | .waiting c => .woken c
  | p => p

variable [Fintype ι] [DecidableEq ι]

/-- `notify_one` wakes a thread that is blocked, if there is one. -/
def CanWake (g : γ) (u : ι) (place : ι → Place κ) : Prop :=
  C.all = true ∨ (place u).blockedOn C g = true ∨ ∀ t, (place t).blockedOn C g = false

instance (g : γ) (u : ι) (place : ι → Place κ) : Decidable (CanWake C g u place) := by
  unfold CanWake; infer_instance

/-- `notify_one` and `notify_all`. -/
def notified (g : γ) (u : ι) (place : ι → Place κ) : ι → Place κ := fun t =>
  if (C.all || decide (t = u)) && (place t).blockedOn C g then (place t).rouse else place t

omit [Fintype ι] in
def Scheduled.setPlace (s : Scheduled ι σ κ ρ) (t : ι) (p : Place κ) : Scheduled ι σ κ ρ :=
  { s with place := Function.update s.place t p }

omit [Fintype ι] in
/-- The call returns. -/
def Scheduled.record (s : Scheduled ι σ κ ρ) (t : ι) (c : κ) (result : Option ρ) :
    Scheduled ι σ κ ρ :=
  { s.setPlace t .outside with done := ⟨t, c, s.shared, result⟩ :: s.done }

variable (M : Monitor σ κ ρ)

/-- The critical section behind the predicate, with the notification if it belongs inside. -/
def complete (t : ι) (c : κ) (u : ι) (s : Scheduled ι σ κ ρ) : Scheduled ι σ κ ρ :=
  let s' := { s.record t c (some (M.run c s.shared).2) with shared := (M.run c s.shared).1 }
  match C.notifies c with
  | none => s'
  | some g =>
    if C.inside then
      if CanWake C g u s'.place then { s' with place := notified C g u s'.place } else s
    else s'.setPlace t (.notifying c)

/-- One critical section, one notification, or one wake-up. -/
def advance (s : Scheduled ι σ κ ρ) : Move ι κ → Scheduled ι σ κ ρ
  | .call t c u => match s.place t with
    | .outside =>
      if M.ready c s.shared then complete C M t c u s else s.setPlace t (.waiting c)
    | _ => s
  | .rouse t => match s.place t with
    | .waiting c => s.setPlace t (.woken c)
    | _ => s
  | .test t u => match s.place t with
    | .woken c =>
      if M.ready c s.shared then complete C M t c u s else s.setPlace t (.waiting c)
    | _ => s
  | .expire t u => match s.place t with
    | .woken c =>
      if M.ready c s.shared then complete C M t c u s
      else if M.timed c then s.record t c none
      else s
    | _ => s
  | .notify t u => match s.place t with
    | .notifying c => match C.notifies c with
      | none => s
      | some g =>
        if CanWake C g u s.place then
          { s with place := notified C g u (Function.update s.place t .outside) }
        else s
    | _ => s

end Step

/-! ## Seen from outside -/

section Outside

variable {C : Signals γ κ} {M : Monitor σ κ ρ} {s : Scheduled ι σ κ ρ}

theorem Place.pending_rouse (p : Place κ) : p.rouse.pending = p.pending := by
  cases p <;> rfl

theorem config_eq {s' : Scheduled ι σ κ ρ} {c : Config ι σ κ ρ} (hshared : s'.shared = c.shared)
    (hplace : ∀ t, (s'.place t).pending = c.waiting t) (hdone : s'.done = c.done) :
    s'.config = c := by
  obtain ⟨shared, waiting, done⟩ := c
  rw [Scheduled.config, hshared, hdone]
  congr 1
  funext t
  exact hplace t

variable [DecidableEq γ] [Fintype ι] [DecidableEq ι]

omit [Fintype ι] in
theorem pending_notified (g : γ) (u : ι) (place : ι → Place κ) (t : ι) :
    (notified C g u place t).pending = (place t).pending := by
  rw [notified]
  split_ifs
  · exact Place.pending_rouse _
  · rfl

omit [DecidableEq γ] [Fintype ι] in
theorem pending_update (place : ι → Place κ) (t : ι) (p : Place κ) (t' : ι) :
    (Function.update place t p t').pending = if t' = t then p.pending else (place t').pending := by
  by_cases ht : t' = t
  · rw [ht, Function.update_self, if_pos rfl]
  · rw [Function.update_of_ne ht, if_neg ht]

omit [DecidableEq γ] [Fintype ι] in
/-- A thread that stays with its call. -/
theorem config_setPlace {t : ι} {p : Place κ} (h : p.pending = (s.place t).pending) :
    (s.setPlace t p).config = s.config := by
  refine config_eq rfl (fun t' => ?_) rfl
  show (Function.update s.place t p t').pending = (s.place t').pending
  rw [pending_update]
  split_ifs with ht
  · rw [ht, h]
  · rfl

/-- A critical section is one of the monitor, or does not happen because of its
notification. -/
theorem config_complete (t : ι) (c : κ) (u : ι) :
    (complete C M t c u s).config = s.config ∨
      (complete C M t c u s).config = M.finish t c s.config := by
  have hfinish : ∀ place : ι → Place κ,
      (∀ t', (place t').pending = if t' = t then none else (s.place t').pending) →
      ({ shared := (M.run c s.shared).1, place := place
         done := ⟨t, c, s.shared, some (M.run c s.shared).2⟩ :: s.done } :
          Scheduled ι σ κ ρ).config = M.finish t c s.config :=
    fun place hplace => config_eq rfl hplace rfl
  rw [complete]
  cases C.notifies c with
  | none => exact Or.inr (hfinish _ fun t' => pending_update _ _ _ _)
  | some g =>
      dsimp only
      split_ifs
      · refine Or.inr (hfinish _ fun t' => ?_)
        rw [pending_notified]
        exact pending_update _ _ _ _
      · exact Or.inl rfl
      · refine Or.inr (hfinish _ fun t' => ?_)
        show (Function.update (Function.update s.place t .outside) t (.notifying c) t').pending = _
        rw [pending_update, pending_update]
        split_ifs <;> rfl

/-- **Every move is a step of the monitor**, or changes nothing that is seen of it. -/
theorem config_advance (m : Move ι κ) : (advance C M s m).config = s.config ∨
    ∃ e, (advance C M s m).config = M.step s.config e := by
  have hready : ∀ {e : Event ι κ} {t c} (u : ι), s.config.pending e = some (t, c) →
      M.ready c s.shared = true → (complete C M t c u s).config = s.config ∨
        ∃ e, (complete C M t c u s).config = M.step s.config e := by
    intro e t c u hp hready
    refine (config_complete t c u).imp_right fun h => ⟨e, h.trans ?_⟩
    exact (step_of_ready hp hready).symm
  cases m with
  | call t c u =>
      rw [advance]
      split
      · rename_i hplace
        have hp : s.config.pending (.call t c) = some (t, c) := by
          simp [Config.pending, Scheduled.config, hplace, Place.pending]
        split_ifs with hr
        · exact hready u hp hr
        · refine Or.inr ⟨.call t c, ?_⟩
          rw [step, hp]
          dsimp only
          rw [if_neg (show ¬ M.ready c s.config.shared = true from hr)]
          exact config_eq rfl (fun t' => pending_update _ _ _ _) rfl
      · exact Or.inl rfl
  | rouse t =>
      rw [advance]
      split
      · rename_i c hplace
        apply Or.inl
        apply config_setPlace
        rw [hplace]
        rfl
      · exact Or.inl rfl
  | test t u =>
      rw [advance]
      split
      · rename_i c hplace
        have hp : s.config.pending (.wake t) = some (t, c) := by
          simp [Config.pending, Scheduled.config, hplace, Place.pending]
        split_ifs with hr
        · exact hready u hp hr
        · apply Or.inl
          apply config_setPlace
          rw [hplace]
          rfl
      · exact Or.inl rfl
  | expire t u =>
      rw [advance]
      split
      · rename_i c hplace
        have hp : s.config.pending (.expire t) = some (t, c) := by
          simp [Config.pending, Scheduled.config, hplace, Place.pending]
        split_ifs with hr htimed
        · exact hready u hp hr
        · refine Or.inr ⟨.expire t, ?_⟩
          rw [step, hp]
          dsimp only
          rw [if_neg (show ¬ M.ready c s.config.shared = true from hr), if_pos htimed]
          exact config_eq rfl (fun t' => pending_update _ _ _ _) rfl
        · exact Or.inl rfl
      · exact Or.inl rfl
  | notify t u =>
      rw [advance]
      split
      · rename_i c hplace
        split
        · exact Or.inl rfl
        · rename_i g hnotifies
          split_ifs
          · refine Or.inl (config_eq rfl (fun t' => ?_) rfl)
            show (notified C g u (Function.update s.place t .outside) t').pending = _
            rw [pending_notified, pending_update]
            split_ifs with ht
            · show none = (s.place t').pending
              rw [ht, hplace]
              rfl
            · rfl
          · exact Or.inl rfl
      · exact Or.inl rfl

theorem config_run (moves : List (Move ι κ)) :
    ∃ events : List (Event ι κ),
      (moves.foldl (advance C M) s).config = events.foldl M.step s.config := by
  induction moves generalizing s with
  | nil => exact ⟨[], rfl⟩
  | cons m moves ih =>
      obtain ⟨events, hevents⟩ := ih (s := advance C M s m)
      rcases config_advance (C := C) (M := M) (s := s) m with hsame | ⟨e, hstep⟩
      · exact ⟨events, by rw [List.foldl_cons, hevents, hsame]⟩
      · exact ⟨e :: events, by rw [List.foldl_cons, hevents, hstep, List.foldl_cons]⟩

/-- **What holds in all runs of the monitor holds here.** -/
theorem allStates_advance {P : Config ι σ κ ρ → Prop}
    (h : ∀ events, AllStates M.step P s.config events) (moves : List (Move ι κ)) :
    AllStates (advance C M) (fun s => P s.config) s moves := by
  intro moves' _
  obtain ⟨events, hevents⟩ := config_run (C := C) (M := M) (s := s) moves'
  show P (moves'.foldl (advance C M) s).config
  rw [hevents]
  exact h events events (List.prefix_refl _)

end Outside

/-! ## Critical sections and notifications -/

section Places

variable {C : Signals γ κ} {M : Monitor σ κ ρ} {s : Scheduled ι σ κ ρ} {g : γ} {t u : ι} {c : κ}
  {place : ι → Place κ} [DecidableEq γ] [DecidableEq ι]

theorem waiting_of_notified (h : notified C g u place t = .waiting c) :
    place t = .waiting c ∧ (C.all = true ∨ t = u → C.waitsOn c ≠ g) := by
  rw [notified] at h
  split_ifs at h with hcond
  · cases hplace : place t <;> rw [hplace] at h <;> cases h
  · refine ⟨h, fun hwho hg => hcond ?_⟩
    rw [h, Bool.and_eq_true, Bool.or_eq_true, decide_eq_true_eq]
    exact ⟨hwho, decide_eq_true hg⟩

theorem notified_of_ne_waiting (h : ∀ c, place t ≠ .waiting c) :
    notified C g u place t = place t := by
  rw [notified]
  split_ifs with hcond
  · cases hplace : place t with
    | waiting c => exact absurd hplace (h c)
    | outside => rfl
    | woken c => rfl
    | notifying c => rfl
  · rfl

/-- A notification leaves on its way whoever is on it. -/
theorem onTheWay_notified {g' : γ} (h : (place t).onTheWay C g' = true) :
    (notified C g u place t).onTheWay C g' = true := by
  rw [notified_of_ne_waiting]
  · exact h
  · intro c hc
    rw [hc] at h
    cases h

/-- The thread that `notify_one` picks is on its way. -/
theorem onTheWay_notified_self (h : (place u).blockedOn C g = true) :
    (notified C g u place u).onTheWay C g = true := by
  rw [notified, h, decide_eq_true rfl, Bool.or_true, Bool.true_and, if_pos rfl]
  cases hplace : place u with
  | waiting c =>
      rw [hplace] at h
      exact h
  | outside | woken c | notifying c =>
      rw [hplace] at h
      cases h

/-- Nobody is blocked who was not. -/
theorem blockedOn_of_notified {g' : γ} (h : (notified C g u place t).blockedOn C g' = true) :
    (place t).blockedOn C g' = true ∧ (C.all = true ∨ t = u → g' ≠ g) := by
  cases hplace : notified C g u place t with
  | waiting c =>
      obtain ⟨hwaiting, hne⟩ := waiting_of_notified hplace
      rw [hplace] at h
      have hg' : C.waitsOn c = g' := of_decide_eq_true h
      rw [hwaiting]
      exact ⟨h, fun hwho => hg' ▸ hne hwho⟩
  | outside | woken c | notifying c =>
      rw [hplace] at h
      cases h

variable [Fintype ι]

/-- A critical section that happens. -/
inductive Completes (C : Signals γ κ) (M : Monitor σ κ ρ) (t : ι) (c : κ) (u : ι)
    (s s' : Scheduled ι σ κ ρ) : Prop
  | silent (hnotifies : C.notifies c = none)
      (hplace : s'.place = Function.update s.place t .outside)
  | inside (g : γ) (hnotifies : C.notifies c = some g)
      (hcan : CanWake C g u (Function.update s.place t .outside))
      (hplace : s'.place = notified C g u (Function.update s.place t .outside))
  | behind (g : γ) (hnotifies : C.notifies c = some g)
      (hplace : s'.place = Function.update s.place t (.notifying c))

theorem complete_cases (C : Signals γ κ) (M : Monitor σ κ ρ) (t : ι) (c : κ) (u : ι)
    (s : Scheduled ι σ κ ρ) : complete C M t c u s = s ∨
      (complete C M t c u s).shared = (M.run c s.shared).1 ∧
        Completes C M t c u s (complete C M t c u s) := by
  rw [complete]
  cases hnotifies : C.notifies c with
  | none => exact Or.inr ⟨rfl, .silent hnotifies rfl⟩
  | some g =>
      dsimp only
      split_ifs with hinside hcan
      · exact Or.inr ⟨rfl, .inside g hnotifies hcan rfl⟩
      · exact Or.inl rfl
      · refine Or.inr ⟨rfl, .behind g hnotifies ?_⟩
        exact Function.update_idem _ _ _

/-- What a move may do. -/
inductive Advances (C : Signals γ κ) (M : Monitor σ κ ρ) (s s' : Scheduled ι σ κ ρ) : Prop
  | nothing (hsame : s' = s)
  | completed (t : ι) (c : κ) (u : ι) (hbefore : s.place t = .outside ∨ s.place t = .woken c)
      (hready : M.ready c s.shared = true) (hshared : s'.shared = (M.run c s.shared).1)
      (hcompletes : Completes C M t c u s s')
  | blocked (t : ι) (c : κ) (hbefore : s.place t = .outside ∨ s.place t = .woken c)
      (hready : M.ready c s.shared = false) (hshared : s'.shared = s.shared)
      (hplace : s'.place = Function.update s.place t (.waiting c))
  | roused (t : ι) (c : κ) (hbefore : s.place t = .waiting c) (hshared : s'.shared = s.shared)
      (hplace : s'.place = Function.update s.place t (.woken c))
  | gaveUp (t : ι) (c : κ) (hbefore : s.place t = .woken c)
      (hready : M.ready c s.shared = false) (hshared : s'.shared = s.shared)
      (hplace : s'.place = Function.update s.place t .outside)
  | notified (t : ι) (c : κ) (u : ι) (g : γ) (hbefore : s.place t = .notifying c)
      (hnotifies : C.notifies c = some g) (hcan : CanWake C g u s.place)
      (hshared : s'.shared = s.shared)
      (hplace : s'.place = Monitor.notified C g u (Function.update s.place t .outside))

theorem advances_of_attempt (u : ι) (hbefore : s.place t = .outside ∨ s.place t = .woken c) :
    Advances C M s
      (if M.ready c s.shared then complete C M t c u s else s.setPlace t (.waiting c)) := by
  split_ifs with hready
  · rcases complete_cases C M t c u s with hsame | ⟨hshared, hcompletes⟩
    · exact .nothing hsame
    · exact .completed t c u hbefore hready hshared hcompletes
  · exact .blocked t c hbefore (Bool.eq_false_iff.mpr hready) rfl rfl

theorem advance_cases (C : Signals γ κ) (M : Monitor σ κ ρ) (s : Scheduled ι σ κ ρ)
    (m : Move ι κ) : Advances C M s (advance C M s m) := by
  cases m with
  | call t c u =>
      rw [advance]
      split
      · rename_i hplace
        exact advances_of_attempt u (Or.inl hplace)
      · exact .nothing rfl
  | rouse t =>
      rw [advance]
      split
      · rename_i c hplace
        exact .roused t c hplace rfl rfl
      · exact .nothing rfl
  | test t u =>
      rw [advance]
      split
      · rename_i c hplace
        exact advances_of_attempt u (Or.inr hplace)
      · exact .nothing rfl
  | expire t u =>
      rw [advance]
      split
      · rename_i c hplace
        split_ifs with hready htimed
        · rcases complete_cases C M t c u s with hsame | ⟨hshared, hcompletes⟩
          · exact .nothing hsame
          · exact .completed t c u (Or.inr hplace) hready hshared hcompletes
        · exact .gaveUp t c hplace (Bool.eq_false_iff.mpr hready) rfl rfl
        · exact .nothing rfl
      · exact .nothing rfl
  | notify t u =>
      rw [advance]
      split
      · rename_i c hplace
        split
        · exact .nothing rfl
        · rename_i g hnotifies
          split_ifs with hcan
          · exact .notified t c u g hplace hnotifies hcan rfl rfl
          · exact .nothing rfl
      · exact .nothing rfl

end Places

/-! ## With `notify_all` -/

section All

variable {C : Signals γ κ} {M : Monitor σ κ ρ} {s : Scheduled ι σ κ ρ}

/-- No call waits whose predicate holds, unless somebody is about to notify it. -/
def Awake (C : Signals γ κ) (M : Monitor σ κ ρ) (s : Scheduled ι σ κ ρ) : Prop :=
  ∀ t c, s.place t = .waiting c → M.ready c s.shared = false ∨
    ∃ u c', s.place u = .notifying c' ∧ C.notifies c' = some (C.waitsOn c)

/-- A call that makes the predicate of another hold notifies it. -/
structure Announces (C : Signals γ κ) (M : Monitor σ κ ρ) : Prop where
  all : C.all = true
  announced : ∀ c c' v, M.ready c v = false → M.ready c' v = true →
    M.ready c (M.run c' v).1 = true → C.notifies c' = some (C.waitsOn c)

variable [DecidableEq ι] {t : ι} {p : Place κ}

/-- A thread moves on, and what was said of the others is still true. -/
theorem Awake.setPlace (h : Awake C M s) {s' : Scheduled ι σ κ ρ} (hshared : s'.shared = s.shared)
    (hplace : s'.place = Function.update s.place t p)
    (hp : ∀ c, p = .waiting c → M.ready c s.shared = false)
    (ht : ∀ c, s.place t ≠ .notifying c) : Awake C M s' := by
  intro t' c hwaiting
  rw [hplace] at hwaiting
  rw [hshared]
  by_cases ht' : t' = t
  · rw [ht', Function.update_self] at hwaiting
    exact Or.inl (hp c hwaiting)
  · rw [Function.update_of_ne ht'] at hwaiting
    refine (h t' c hwaiting).imp_right ?_
    rintro ⟨u, c', hu, hnotifies⟩
    refine ⟨u, c', ?_, hnotifies⟩
    rw [hplace, Function.update_of_ne, hu]
    rintro rfl
    exact ht c' hu

variable [DecidableEq γ] [Fintype ι]

omit [Fintype ι] in
theorem Awake.completes (hC : Announces C M) (h : Awake C M s) {c : κ} {u : ι}
    {s' : Scheduled ι σ κ ρ} (hbefore : s.place t = .outside ∨ s.place t = .woken c)
    (hready : M.ready c s.shared = true) (hshared : s'.shared = (M.run c s.shared).1)
    (hcompletes : Completes C M t c u s s') : Awake C M s' := by
  have hnot : ∀ c', s.place t ≠ .notifying c' := by
    intro c' hc'
    rcases hbefore with hp | hp <;> rw [hp] at hc' <;> cases hc'
  -- What a call waits for that was blocked before, and is still not notified.
  have hold : ∀ t' c₀, t' ≠ t → s.place t' = .waiting c₀ →
      C.notifies c ≠ some (C.waitsOn c₀) → M.ready c₀ s'.shared = false ∨
        ∃ u c', u ≠ t ∧ s.place u = .notifying c' ∧ C.notifies c' = some (C.waitsOn c₀) := by
    intro t' c₀ _ hwaiting hne
    rcases h t' c₀ hwaiting with hfalse | ⟨u, c', hu, hnotifies⟩
    · left
      rw [hshared, ← Bool.not_eq_true]
      exact fun htrue => hne (hC.announced c₀ c s.shared hfalse hready htrue)
    · refine Or.inr ⟨u, c', ?_, hu, hnotifies⟩
      rintro rfl
      exact hnot c' hu
  intro t' c₀ hwaiting
  cases hcompletes with
  | silent hnotifies hplace =>
      rw [hplace] at hwaiting
      have hne : t' ≠ t := by
        rintro rfl
        rw [Function.update_self] at hwaiting
        cases hwaiting
      rw [Function.update_of_ne hne] at hwaiting
      refine (hold t' c₀ hne hwaiting (by simp [hnotifies])).imp_right ?_
      rintro ⟨u, c', hu, huplace, hc'⟩
      exact ⟨u, c', by rw [hplace, Function.update_of_ne hu, huplace], hc'⟩
  | inside g hnotifies hcan hplace =>
      rw [hplace] at hwaiting
      obtain ⟨hwaiting, hg⟩ := waiting_of_notified hwaiting
      have hne : t' ≠ t := by
        rintro rfl
        rw [Function.update_self] at hwaiting
        cases hwaiting
      rw [Function.update_of_ne hne] at hwaiting
      have hg' : C.notifies c ≠ some (C.waitsOn c₀) := by
        rw [hnotifies]
        exact fun heq => hg (Or.inl hC.all) (Option.some.inj heq).symm
      refine (hold t' c₀ hne hwaiting hg').imp_right ?_
      rintro ⟨u, c', hu, huplace, hc'⟩
      refine ⟨u, c', ?_, hc'⟩
      have hupdate : Function.update s.place t .outside u = .notifying c' := by
        rw [Function.update_of_ne hu, huplace]
      rw [hplace, notified_of_ne_waiting, hupdate]
      intro c'' hc''
      rw [hupdate] at hc''
      cases hc''
  | behind g hnotifies hplace =>
      rw [hplace] at hwaiting
      have hne : t' ≠ t := by
        rintro rfl
        rw [Function.update_self] at hwaiting
        cases hwaiting
      rw [Function.update_of_ne hne] at hwaiting
      by_cases hg : C.notifies c = some (C.waitsOn c₀)
      · exact Or.inr ⟨t, c, by rw [hplace, Function.update_self], hg⟩
      · refine (hold t' c₀ hne hwaiting hg).imp_right ?_
        rintro ⟨u, c', hu, huplace, hc'⟩
        exact ⟨u, c', by rw [hplace, Function.update_of_ne hu, huplace], hc'⟩

theorem Awake.advance (hC : Announces C M) (h : Awake C M s) (m : Move ι κ) :
    Awake C M (advance C M s m) := by
  have hne : ∀ {t c}, s.place t = .outside ∨ s.place t = .woken c →
      ∀ c', s.place t ≠ .notifying c' := by
    intro t c hbefore c' hc'
    rcases hbefore with hp | hp <;> rw [hp] at hc' <;> cases hc'
  cases advance_cases C M s m with
  | nothing hsame =>
      rw [hsame]
      exact h
  | completed t c u hbefore hready hshared hcompletes =>
      exact h.completes hC hbefore hready hshared hcompletes
  | blocked t c hbefore hready hshared hplace =>
      refine h.setPlace hshared hplace (fun c' hc' => ?_) (hne hbefore)
      cases hc'
      exact hready
  | roused t c hbefore hshared hplace =>
      exact h.setPlace hshared hplace (fun _ hc' => nomatch hc') (by simp [hbefore])
  | gaveUp t c hbefore hready hshared hplace =>
      exact h.setPlace hshared hplace (fun _ hc' => nomatch hc') (by simp [hbefore])
  | notified t c u g hbefore hnotifies hcan hshared hplace =>
      intro t' c₀ hwaiting
      rw [hplace] at hwaiting
      obtain ⟨hwaiting, hg⟩ := waiting_of_notified hwaiting
      have ht' : t' ≠ t := by
        rintro rfl
        rw [Function.update_self] at hwaiting
        cases hwaiting
      rw [Function.update_of_ne ht'] at hwaiting
      rw [hshared]
      refine (h t' c₀ hwaiting).imp_right ?_
      rintro ⟨v, c', hv, hc'⟩
      have hvt : v ≠ t := by
        rintro rfl
        rw [hbefore] at hv
        cases hv
        rw [hnotifies] at hc'
        exact hg (Or.inl hC.all) (Option.some.inj hc').symm
      have hupdate : Function.update s.place t .outside v = .notifying c' := by
        rw [Function.update_of_ne hvt, hv]
      refine ⟨v, c', ?_, hc'⟩
      rw [hplace, notified_of_ne_waiting, hupdate]
      intro c'' hc''
      rw [hupdate] at hc''
      cases hc''

/-- **Nobody sleeps on.**  If whatever makes a predicate hold is announced to all, no call waits
whose predicate holds, unless the announcement is on its way. -/
theorem awake_run (hC : Announces C M) (shared : σ) (moves : List (Move ι κ)) :
    AllStates (Monitor.advance C M) (Awake C M) { shared := shared } moves :=
  allStates_of_allSteps (I := Awake C M) (G := fun _ _ => True) (fun _ => id)
    (fun _ m h _ => h.advance hC m) (fun _ _ hwaiting => nomatch hwaiting)
    (allSteps_of_forall fun _ _ => trivial)

end All

end Monitor
