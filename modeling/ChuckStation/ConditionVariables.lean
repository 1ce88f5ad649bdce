/-
# Condition variables of the kernel services

Waiters and signallers share a condition under one mutex.  A waiter that finds the condition
false calls `WaitCondVar`, which is given the mutex and does not look at it: it waits on a mutex
that belongs to the condition variable.  So the waiter blocks with the caller's mutex locked, and
no signaller comes to make the condition true.

* `Paired`: what is expected of a condition variable and its mutex.
* `Kept`: whoever is inside holds the mutex, from the first lock to the unlock.
-/
import ChuckStation.OperationRuns

namespace KernelServices

open OperationRuns

/-! ## Threads -/

inductive CvRole where
  | waiter
  | signaller
  deriving DecidableEq

/-- Where a thread is. -/
inductive CvPlace where
  /-- Before `LockMutex`. -/
  | outside
  /-- Behind `LockMutex`. -/
  | locked
  /-- A waiter has found the condition false, and calls `WaitCondVar`. -/
  | tested
  /-- It has found the condition variable. -/
  | found
  /-- It has locked `dummyMtx`. -/
  | entered
  /-- It is blocked in `cv.wait`. -/
  | blocked
  /-- It has left `cv.wait`, except for `dummyMtx`. -/
  | woken
  /-- It has locked `dummyMtx` again. -/
  | relocked
  /-- `WaitCondVar` has returned. -/
  | returned
  /-- A signaller has made the condition true. -/
  | made
  /-- Before `UnlockMutex`. -/
  | leaving
  deriving DecidableEq

/-- `struct KMutex`: who has locked it, and how often. -/
structure KMutex (ι : Type) where
  recursive : Bool
  owner : Option ι := none
  depth : ℕ := 0

/-- The shared state, the mutex of the callers, `dummyMtx` and the threads blocked on `cv`.
Beside it, for every thread, whether the condition has been made true since it tested it last,
and whether it has been signalled after that. -/
structure CvRun (ι : Type) where
  condition : Bool
  mutex : KMutex ι
  dummyMtx : Option ι := none
  blocked : List ι := []
  place : ι → CvPlace := fun _ => .outside
  madeSince : ι → Bool := fun _ => false
  signalledSince : ι → Bool := fun _ => false

/-- What the scheduler does next.  `notify_one` takes any of the blocked threads, and a blocked
thread may wake at any time. -/
inductive CvEvent (ι : Type) where
  | go (t : ι)
  | signal (t : ι) (picked : Option ι)
  | spurious (t : ι)

section Step

variable {ι : Type} [DecidableEq ι]

/-- `KMutex::lock`: nothing, if the thread has to wait. -/
def KMutex.lock (m : KMutex ι) (t : ι) : Option (KMutex ι) :=
  if m.owner = none then some { m with owner := some t, depth := 1 }
  else if m.recursive ∧ m.owner = some t then some { m with depth := m.depth + 1 }
  else none

/-- `KMutex::unlock`. -/
def KMutex.unlock (m : KMutex ι) : KMutex ι :=
  if m.depth ≤ 1 then { m with owner := none, depth := 0 } else { m with depth := m.depth - 1 }

def CvRun.goTo (s : CvRun ι) (t : ι) (p : CvPlace) : CvRun ι :=
  { s with place := Function.update s.place t p }

/-- `LockMutex`. -/
def CvRun.lockMutex (s : CvRun ι) (t : ι) : CvRun ι :=
  match s.mutex.lock t with
  | none => s
  | some m => { s.goTo t .locked with mutex := m }

/-- `UnlockMutex`. -/
def CvRun.unlockMutex (s : CvRun ι) (t : ι) : CvRun ι :=
  { s.goTo t .outside with mutex := s.mutex.unlock }

/-- The test of a waiter. -/
def CvRun.test (s : CvRun ι) (t : ι) : CvRun ι :=
  { s.goTo t (if s.condition then .leaving else .tested) with
    madeSince := Function.update s.madeSince t false
    signalledSince := Function.update s.signalledSince t false }

/-- What a signaller has locked the mutex for. -/
def CvRun.make (s : CvRun ι) (t : ι) : CvRun ι :=
  { s.goTo t .made with condition := true, madeSince := fun _ => true }

/-- `ul(cv->dummyMtx)`, and the same at the end of `cv.wait(ul)`. -/
def CvRun.lockDummy (s : CvRun ι) (t : ι) (p : CvPlace) : CvRun ι :=
  if s.dummyMtx = none then { s.goTo t p with dummyMtx := some t } else s

/-- A thread leaves the condition variable. -/
def CvRun.wake (s : CvRun ι) (t : ι) : CvRun ι :=
  { s.goTo t .woken with blocked := s.blocked.erase t }

/-- A waiter goes on. -/
def CvRun.waiterGo (s : CvRun ι) (t : ι) : CvRun ι :=
  match s.place t with
  | .outside => s.lockMutex t
  | .locked | .returned => s.test t
  -- `WaitCondVar`; its second argument, the mutex, is not used.
  | .tested => s.goTo t .found
  | .found => s.lockDummy t .entered
  | .entered => { s.goTo t .blocked with dummyMtx := none, blocked := s.blocked ++ [t] }
  | .woken => s.lockDummy t .relocked
  | .relocked => { s.goTo t .returned with dummyMtx := none }
  | .leaving => s.unlockMutex t
  | .blocked | .made => s

/-- A signaller goes on. -/
def CvRun.signallerGo (s : CvRun ι) (t : ι) : CvRun ι :=
  match s.place t with
  | .outside => s.lockMutex t
  | .locked => s.make t
  | .leaving => s.unlockMutex t
  | _ => s

/-- `SignalCondVar`: nobody is picked only if nobody is blocked. -/
def CvRun.signalCondVar (s : CvRun ι) (t : ι) (picked : Option ι) : CvRun ι :=
  let signalled := { s.goTo t .leaving with signalledSince := s.madeSince }
  match picked with
  | none => if s.blocked = [] then signalled else s
  | some u => if u ∈ s.blocked then signalled.wake u else s

def cvStep (role : ι → CvRole) (s : CvRun ι) : CvEvent ι → CvRun ι
  | .go t => match role t with
    | .waiter => s.waiterGo t
    | .signaller => s.signallerGo t
  | .signal t picked =>
    if role t = .signaller ∧ s.place t = .made then s.signalCondVar t picked else s
  | .spurious t => if t ∈ s.blocked then s.wake t else s

end Step

/-! ## The contract -/

section Contract

variable {ι : Type}

/-- A blocked waiter has left the mutex to the others, and has not been passed over; and it has
the mutex when `WaitCondVar` returns. -/
structure Paired (s : CvRun ι) : Prop where
  released : ∀ t, s.place t = .blocked → s.mutex.owner ≠ some t
  notMissed : ∀ t, s.place t = .blocked → s.signalledSince t = false
  regained : ∀ t, s.place t = .returned → s.mutex.owner = some t

/-- A waiter that tests the condition now finds it true. -/
def FindsTrue (role : ι → CvRole) (s : CvRun ι) : CvEvent ι → Prop
  | .go t => role t = .waiter → s.place t = .locked ∨ s.place t = .returned →
      s.condition = true
  | _ => True

/-- A waiter has found the condition false, and is to block or blocked. -/
def CvPlace.Waits (p : CvPlace) : Prop :=
  p = .tested ∨ p = .found ∨ p = .entered ∨ p = .blocked

/-- Whoever is inside holds the mutex; while a waiter waits, the condition is false and has not
been made true. -/
structure Kept (s : CvRun ι) : Prop where
  holds : ∀ t, s.place t ≠ .outside ↔ s.mutex.owner = some t
  depth : s.mutex.owner ≠ none → s.mutex.depth = 1
  blocked : ∀ t, s.place t = .blocked → s.blocked = [t]
  noneBlocked : (∀ t, s.place t ≠ .blocked) → s.blocked = []
  since : ∀ t, s.signalledSince t = true → s.madeSince t = true
  waits : ∀ t, (s.place t).Waits → s.condition = false ∧ s.madeSince t = false

variable {s s' : CvRun ι} {t u : ι} {p : CvPlace}

theorem Kept.alone (hs : Kept s) (hin : s.place t ≠ .outside) (hu : u ≠ t) :
    s.place u = .outside := by
  by_contra hout
  have howner := (hs.holds t).mp hin
  rw [(hs.holds u).mp hout] at howner
  exact hu (Option.some_inj.mp howner)

theorem Kept.place_of_mem (hs : Kept s) (h : t ∈ s.blocked) : s.place t = .blocked := by
  by_cases hnone : ∀ u, s.place u ≠ .blocked
  · rw [hs.noneBlocked hnone] at h
    cases h
  · obtain ⟨u, hu⟩ := not_forall_not.mp hnone
    rw [hs.blocked u hu, List.mem_singleton] at h
    rwa [h]

/-- Nobody is blocked while a thread is inside that is not. -/
theorem Kept.blocked_eq_nil (hs : Kept s) (hin : s.place t ≠ .outside)
    (hne : s.place t ≠ .blocked) : s.blocked = [] := by
  refine hs.noneBlocked fun u hu => ?_
  by_cases hut : u = t
  · exact hne (hut ▸ hu)
  · rw [hs.alone hin hut] at hu
    cases hu

variable [DecidableEq ι]

/-- A thread that is inside goes to another place inside. -/
theorem Kept.moves (hs : Kept s) (hin : s.place t ≠ .outside) (hp : p ≠ .outside)
    (hplace : s'.place = Function.update s.place t p) (hmutex : s'.mutex = s.mutex)
    (hblocked : s'.blocked = if p = .blocked then [t] else [])
    (hsince : ∀ u, s'.signalledSince u = true → s'.madeSince u = true)
    (hwaits : p.Waits → s'.condition = false ∧ s'.madeSince t = false) : Kept s' := by
  have hself : s'.place t = p := by rw [hplace, Function.update_self]
  have hother : ∀ u, u ≠ t → s'.place u = .outside := by
    intro u hu
    rw [hplace, Function.update_of_ne hu]
    exact hs.alone hin hu
  have howner := (hs.holds t).mp hin
  constructor
  · intro u
    rw [hmutex, howner]
    by_cases hu : u = t
    · subst hu
      exact iff_of_true (hself ▸ hp) rfl
    · refine iff_of_false (not_not_intro (hother u hu)) fun heq => ?_
      exact hu (Option.some_inj.mp heq).symm
  · rw [hmutex]
    exact hs.depth
  · intro u hu
    by_cases hut : u = t
    · subst hut
      rw [hblocked, if_pos (hself ▸ hu)]
    · rw [hother u hut] at hu
      cases hu
  · intro hnone
    rw [hblocked, if_neg (hself ▸ hnone t)]
  · exact hsince
  · intro u hu
    by_cases hut : u = t
    · subst hut
      exact hwaits (hself ▸ hu)
    · rw [hother u hut] at hu
      simp [CvPlace.Waits] at hu

/-- A thread locks the mutex, when nobody is inside. -/
theorem Kept.lockMutex (hs : Kept s) (hout : s.place t = .outside) : Kept (s.lockMutex t) := by
  have hfree : s.mutex.owner ≠ some t := fun heq => (hs.holds t).mpr heq hout
  rw [CvRun.lockMutex, KMutex.lock]
  by_cases howner : s.mutex.owner = none
  · have hall : ∀ u, s.place u = .outside := by
      intro u
      by_contra hin
      rw [(hs.holds u).mp hin] at howner
      cases howner
    have hnil : s.blocked = [] := by
      refine hs.noneBlocked fun u hu => ?_
      rw [hall u] at hu
      cases hu
    rw [if_pos howner]
    have hplace : ∀ u, Function.update s.place t .locked u =
        if u = t then .locked else .outside := by
      intro u
      rw [Function.update_apply, hall u]
    constructor
    · intro u
      show Function.update s.place t .locked u ≠ .outside ↔ some t = some u
      rw [hplace, Option.some_inj]
      split_ifs with hu
      · exact iff_of_true (by decide) hu.symm
      · exact iff_of_false (not_not_intro rfl) fun heq => hu heq.symm
    · exact fun _ => rfl
    · intro u hu
      have hu : Function.update s.place t .locked u = .blocked := hu
      rw [hplace] at hu
      split_ifs at hu
    · exact fun _ => hnil
    · exact hs.since
    · intro u hu
      have hu : (Function.update s.place t .locked u).Waits := hu
      rw [hplace] at hu
      split_ifs at hu <;> simp [CvPlace.Waits] at hu
  · rw [if_neg howner, if_neg fun hand => hfree hand.2]
    exact hs

/-- A thread leaves. -/
theorem Kept.unlockMutex (hs : Kept s) (hleaving : s.place t = .leaving) :
    Kept (s.unlockMutex t) := by
  have hin : s.place t ≠ .outside := by
    rw [hleaving]
    decide
  have howner := (hs.holds t).mp hin
  have hunlock : s.mutex.unlock = { s.mutex with owner := none, depth := 0 } := by
    rw [KMutex.unlock, if_pos (hs.depth (by rw [howner]; exact Option.some_ne_none t)).le]
  have hall : ∀ u, (s.unlockMutex t).place u = .outside := by
    intro u
    show Function.update s.place t .outside u = .outside
    rw [Function.update_apply]
    split_ifs with hu
    · rfl
    · exact hs.alone hin hu
  have hmutex : (s.unlockMutex t).mutex.owner = none := by
    show s.mutex.unlock.owner = none
    rw [hunlock]
  constructor
  · intro u
    rw [hmutex, hall]
    exact iff_of_false (not_not_intro rfl) (by simp)
  · exact fun h => absurd hmutex h
  · intro u hu
    rw [hall] at hu
    cases hu
  · exact fun _ => hs.blocked_eq_nil hin (by rw [hleaving]; decide)
  · exact hs.since
  · intro u hu
    rw [hall] at hu
    simp [CvPlace.Waits] at hu

/-- A waiter tests the condition. -/
theorem Kept.test (hs : Kept s) (hin : s.place t ≠ .outside) (hne : s.place t ≠ .blocked) :
    Kept (s.test t) := by
  have hafter : (if s.condition then CvPlace.leaving else .tested) ≠ .outside ∧
      (if s.condition then CvPlace.leaving else .tested) ≠ .blocked := by
    split_ifs <;> decide
  refine hs.moves hin hafter.1 rfl rfl ?_ (fun u hu => ?_) fun hwaits => ?_
  · rw [if_neg hafter.2]
    exact hs.blocked_eq_nil hin hne
  · show Function.update s.madeSince t false u = true
    have hu : Function.update s.signalledSince t false u = true := hu
    rw [Function.update_apply] at hu ⊢
    split_ifs at hu ⊢
    exact hs.since u hu
  · refine ⟨?_, Function.update_self _ _ _⟩
    show s.condition = false
    cases hcondition : s.condition with
    | false => rfl
    | true =>
        rw [hcondition] at hwaits
        simp [CvPlace.Waits] at hwaits

/-- A waiter locks the mutex of the condition variable, if it is free. -/
theorem Kept.lockDummy (hs : Kept s) (hin : s.place t ≠ .outside) (hne : s.place t ≠ .blocked)
    {p : CvPlace} (hp : p ≠ .outside) (hpne : p ≠ .blocked)
    (hwaits : p.Waits → (s.place t).Waits) : Kept (s.lockDummy t p) := by
  rw [CvRun.lockDummy]
  split_ifs
  · refine hs.moves hin hp rfl rfl ?_ hs.since fun h => hs.waits t (hwaits h)
    rw [if_neg hpne]
    exact hs.blocked_eq_nil hin hne
  · exact hs

/-- A waiter goes on. -/
theorem Kept.waiterGo (hs : Kept s) (t : ι) : Kept (s.waiterGo t) := by
  have hin : ∀ {q}, s.place t = q → q ≠ .outside → s.place t ≠ .outside := by
    rintro q rfl hq
    exact hq
  have hne : ∀ {q}, s.place t = q → q ≠ .blocked → s.place t ≠ .blocked := by
    rintro q rfl hq
    exact hq
  have hnil : ∀ {q}, s.place t = q → q ≠ .outside → q ≠ .blocked → s.blocked = [] :=
    fun hplace hq hqne => hs.blocked_eq_nil (hin hplace hq) (hne hplace hqne)
  rw [CvRun.waiterGo]
  cases hplace : s.place t with
  | outside => exact hs.lockMutex hplace
  | locked => exact hs.test (hin hplace (by decide)) (hne hplace (by decide))
  | returned => exact hs.test (hin hplace (by decide)) (hne hplace (by decide))
  | tested =>
      refine hs.moves (hin hplace (by decide)) (by decide : CvPlace.found ≠ .outside) rfl rfl
        (hnil hplace (by decide) (by decide)) hs.since fun _ => hs.waits t ?_
      exact .inl hplace
  | found =>
      refine hs.lockDummy (hin hplace (by decide)) (hne hplace (by decide)) (by decide)
        (by decide) fun _ => ?_
      exact .inr (.inl hplace)
  | entered =>
      refine hs.moves (hin hplace (by decide)) (by decide : CvPlace.blocked ≠ .outside) rfl rfl
        ?_ hs.since fun _ => hs.waits t (.inr (.inr (.inl hplace)))
      show s.blocked ++ [t] = [t]
      rw [hnil hplace (by decide) (by decide), List.nil_append]
  | blocked => exact hs
  | woken =>
      refine hs.lockDummy (hin hplace (by decide)) (hne hplace (by decide)) (by decide)
        (by decide) fun h => ?_
      simp [CvPlace.Waits] at h
  | relocked =>
      refine hs.moves (hin hplace (by decide)) (by decide : CvPlace.returned ≠ .outside) rfl rfl
        (hnil hplace (by decide) (by decide)) hs.since fun h => ?_
      simp [CvPlace.Waits] at h
  | made => exact hs
  | leaving => exact hs.unlockMutex hplace

/-- A signaller goes on. -/
theorem Kept.signallerGo (hs : Kept s) (t : ι) : Kept (s.signallerGo t) := by
  rw [CvRun.signallerGo]
  split
  · exact hs.lockMutex ‹_›
  · rename_i hplace
    have hin : s.place t ≠ .outside := by
      rw [hplace]
      decide
    refine hs.moves hin (by decide : CvPlace.made ≠ .outside) rfl rfl
      (hs.blocked_eq_nil hin (by rw [hplace]; decide)) (fun _ _ => rfl) fun h => ?_
    simp [CvPlace.Waits] at h
  · exact hs.unlockMutex ‹_›
  · exact hs

/-- `SignalCondVar` comes when nobody is blocked. -/
theorem Kept.signalCondVar (hs : Kept s) (hplace : s.place t = .made) (picked : Option ι) :
    Kept (s.signalCondVar t picked) := by
  have hin : s.place t ≠ .outside := by
    rw [hplace]
    decide
  have hnil := hs.blocked_eq_nil hin (by rw [hplace]; decide)
  unfold CvRun.signalCondVar
  cases picked with
  | none =>
      dsimp only
      rw [if_pos hnil]
      refine hs.moves hin (by decide : CvPlace.leaving ≠ .outside) rfl rfl hnil
        (fun _ hu => hu) fun h => ?_
      simp [CvPlace.Waits] at h
  | some u =>
      dsimp only
      rw [if_neg (hnil ▸ List.not_mem_nil)]
      exact hs

theorem Kept.wake (hs : Kept s) (h : t ∈ s.blocked) : Kept (s.wake t) := by
  have hplace := hs.place_of_mem h
  refine hs.moves (hplace ▸ by decide) (by decide : CvPlace.woken ≠ .outside) rfl rfl ?_ hs.since
    fun hw => ?_
  · show s.blocked.erase t = []
    rw [hs.blocked t hplace, List.erase_cons_head]
  · simp [CvPlace.Waits] at hw

/-- **One step** of any thread. -/
theorem Kept.step (hs : Kept s) (role : ι → CvRole) (e : CvEvent ι) : Kept (cvStep role s e) := by
  unfold cvStep
  cases e with
  | go t =>
      dsimp only
      cases role t with
      | waiter => exact hs.waiterGo t
      | signaller => exact hs.signallerGo t
  | signal t picked =>
      dsimp only
      split_ifs with h
      · exact hs.signalCondVar h.2 picked
      · exact hs
  | spurious t =>
      dsimp only
      split_ifs with h
      · exact hs.wake h
      · exact hs

/-- **A blocked waiter blocks everybody**: until it wakes without notice, nothing happens. -/
theorem Kept.stuck (hs : Kept s) (hblocked : s.place t = .blocked) (role : ι → CvRole)
    {e : CvEvent ι} (hquiet : e ≠ .spurious t) : cvStep role s e = s := by
  have hin : s.place t ≠ .outside := by
    rw [hblocked]
    decide
  have howner := (hs.holds t).mp hin
  have hlock : ∀ u, u ≠ t → s.lockMutex u = s := by
    intro u hu
    have hother : s.mutex.owner ≠ some u := by
      rw [howner]
      exact fun heq => hu (Option.some_inj.mp heq).symm
    rw [CvRun.lockMutex, KMutex.lock, if_neg (by rw [howner]; exact Option.some_ne_none t),
      if_neg fun hand => hother hand.2]
  unfold cvStep
  cases e with
  | go u =>
      have hgo : s.waiterGo u = s ∧ s.signallerGo u = s := by
        by_cases hu : u = t
        · subst hu
          simp [CvRun.waiterGo, CvRun.signallerGo, hblocked]
        · simp [CvRun.waiterGo, CvRun.signallerGo, hs.alone hin hu, hlock u hu]
      dsimp only
      split
      · exact hgo.1
      · exact hgo.2
  | signal u picked =>
      dsimp only
      rw [if_neg]
      rintro ⟨-, hmade⟩
      by_cases hu : u = t
      · subst hu
        rw [hblocked] at hmade
        cases hmade
      · rw [hs.alone hin hu] at hmade
        cases hmade
  | spurious u =>
      dsimp only
      rw [if_neg]
      rw [hs.blocked t hblocked, List.mem_singleton]
      rintro rfl
      exact hquiet rfl

end Contract

/-! ## Runs -/

section Runs

variable {ι : Type}

def cvStart (recursive condition : Bool) : CvRun ι where
  condition := condition
  mutex := { recursive := recursive }

theorem kept_cvStart (recursive condition : Bool) :
    Kept (cvStart recursive condition : CvRun ι) where
  holds t := iff_of_false (not_not_intro rfl) (by simp [cvStart])
  depth h := absurd rfl h
  blocked t h := by simp [cvStart] at h
  noneBlocked _ := rfl
  since t h := by simp [cvStart] at h
  waits t h := by simp [cvStart, CvPlace.Waits] at h

/-- No waiter has gone into `WaitCondVar`. -/
structure NoneWaits (s : CvRun ι) : Prop where
  blocked : s.blocked = []
  place : ∀ t, s.place t = .outside ∨ s.place t = .locked ∨ s.place t = .made ∨
    s.place t = .leaving

theorem noneWaits_cvStart (recursive condition : Bool) :
    NoneWaits (cvStart recursive condition : CvRun ι) := ⟨rfl, fun _ => .inl rfl⟩

theorem NoneWaits.paired {s : CvRun ι} (hs : NoneWaits s) : Paired s := by
  have hblocked : ∀ t, s.place t ≠ .blocked := by
    intro t h
    have hplace := hs.place t
    rw [h] at hplace
    simp at hplace
  have hreturned : ∀ t, s.place t ≠ .returned := by
    intro t h
    have hplace := hs.place t
    rw [h] at hplace
    simp at hplace
  exact ⟨fun t h => absurd h (hblocked t), fun t h => absurd h (hblocked t),
    fun t h => absurd h (hreturned t)⟩

variable [DecidableEq ι] {s s' : CvRun ι} {t : ι} {p : CvPlace} {role : ι → CvRole}

/-- The last two parts of the contract hold whatever the waiters find: nobody passes over a
waiter, since nobody else comes in. -/
theorem neverMissed_run (role : ι → CvRole) (recursive condition : Bool)
    (events : List (CvEvent ι)) :
    AllStates (cvStep role) (fun s => ∀ t, (s.place t = .blocked → s.signalledSince t = false) ∧
      (s.place t = .returned → s.mutex.owner = some t)) (cvStart recursive condition) events := by
  refine allStates_of_allSteps (I := Kept) (G := fun _ _ => True) (fun s hs t => ⟨?_, ?_⟩)
    (fun _ e hs _ => hs.step role e) (kept_cvStart recursive condition)
    (allSteps_of_forall fun _ _ => trivial)
  · intro hblocked
    have hmade := (hs.waits t (.inr (.inr (.inr hblocked)))).2
    rw [← Bool.not_eq_true] at hmade ⊢
    exact fun hsignalled => hmade (hs.since t hsignalled)
  · intro hreturned
    exact (hs.holds t).mp (by rw [hreturned]; decide)

theorem NoneWaits.moves (hs : NoneWaits s)
    (hp : p = .outside ∨ p = .locked ∨ p = .made ∨ p = .leaving)
    (hplace : s'.place = Function.update s.place t p) (hblocked : s'.blocked = s.blocked) :
    NoneWaits s' := by
  refine ⟨hblocked.trans hs.blocked, fun u => ?_⟩
  rw [hplace, Function.update_apply]
  split_ifs
  · exact hp
  · exact hs.place u

theorem NoneWaits.lockMutex (hs : NoneWaits s) (t : ι) : NoneWaits (s.lockMutex t) := by
  rw [CvRun.lockMutex]
  cases s.mutex.lock t with
  | none => exact hs
  | some m => exact hs.moves (.inr (.inl rfl)) rfl rfl

theorem NoneWaits.step (hs : NoneWaits s) (e : CvEvent ι) (hguard : FindsTrue role s e) :
    NoneWaits (cvStep role s e) := by
  unfold cvStep
  cases e with
  | go t =>
      have hunlock : NoneWaits (s.unlockMutex t) := hs.moves (.inl rfl) rfl rfl
      dsimp only
      cases hrole : role t with
      | waiter =>
          have hcondition := hguard hrole
          dsimp only
          rcases hs.place t with hplace | hplace | hplace | hplace
          · simpa only [CvRun.waiterGo, hplace] using hs.lockMutex t
          · simp only [CvRun.waiterGo, hplace]
            refine hs.moves (t := t) (.inr (.inr (.inr rfl))) ?_ rfl
            show Function.update s.place t (if s.condition then .leaving else .tested) = _
            rw [if_pos (hcondition (.inl hplace))]
          · simpa only [CvRun.waiterGo, hplace] using hs
          · simpa only [CvRun.waiterGo, hplace] using hunlock
      | signaller =>
          dsimp only
          rcases hs.place t with hplace | hplace | hplace | hplace
          · simpa only [CvRun.signallerGo, hplace] using hs.lockMutex t
          · simp only [CvRun.signallerGo, hplace]
            exact hs.moves (.inr (.inr (.inl rfl))) rfl rfl
          · simpa only [CvRun.signallerGo, hplace] using hs
          · simpa only [CvRun.signallerGo, hplace] using hunlock
  | signal t picked =>
      dsimp only
      split_ifs
      · unfold CvRun.signalCondVar
        cases picked with
        | none =>
            dsimp only
            rw [if_pos hs.blocked]
            exact hs.moves (.inr (.inr (.inr rfl))) rfl rfl
        | some u =>
            dsimp only
            rw [if_neg (hs.blocked ▸ List.not_mem_nil)]
            exact hs
      · exact hs
  | spurious t =>
      dsimp only
      rw [if_neg (hs.blocked ▸ List.not_mem_nil)]
      exact hs

/-- What is made true stays true. -/
theorem condition_step (h : s.condition = true) (e : CvEvent ι) :
    (cvStep role s e).condition = true := by
  have hlock : ∀ t, (s.lockMutex t).condition = true := by
    intro t
    rw [CvRun.lockMutex]
    split
    · exact h
    · exact h
  have hdummy : ∀ t p, (s.lockDummy t p).condition = true := by
    intro t p
    rw [CvRun.lockDummy]
    split
    · exact h
    · exact h
  unfold cvStep
  cases e with
  | go t =>
      dsimp only
      split
      · rw [CvRun.waiterGo]
        split <;> first | exact h | exact hlock t | exact hdummy t _
      · rw [CvRun.signallerGo]
        split <;> first | exact h | exact hlock t | rfl
  | signal t picked =>
      dsimp only
      split_ifs
      · unfold CvRun.signalCondVar
        cases picked with
        | none =>
            dsimp only
            split_ifs <;> exact h
        | some u =>
            dsimp only
            split_ifs <;> exact h
      · exact h
  | spurious t =>
      dsimp only
      split_ifs <;> exact h

/-- A waiter that finds the condition false goes on until it is blocked. -/
def untilBlocked (t : ι) : List (CvEvent ι) := [.go t, .go t, .go t, .go t, .go t]

theorem not_paired_untilBlocked (recursive : Bool) (hrole : role t = .waiter) :
    ¬ AllStates (cvStep role) Paired (cvStart recursive false) (untilBlocked t) := by
  intro hall
  have hlast := hall _ (List.prefix_refl _)
  refine hlast.released t ?_ ?_
  · simp [untilBlocked, cvStep, hrole, CvRun.waiterGo, cvStart, CvRun.lockMutex, KMutex.lock,
      CvRun.goTo, CvRun.test, CvRun.lockDummy]
  · simp [untilBlocked, cvStep, hrole, CvRun.waiterGo, cvStart, CvRun.lockMutex, KMutex.lock,
      CvRun.goTo, CvRun.test, CvRun.lockDummy]

/-- **Condition variables pair with their mutex** in every run in which each test of a waiter
finds the condition true; and in all runs exactly if the condition is true from the start or
there is no waiter. -/
theorem paired_run (role : ι → CvRole) (recursive condition : Bool) :
    (∀ events, AllSteps (cvStep role) (FindsTrue role) (cvStart recursive condition) events →
      AllStates (cvStep role) Paired (cvStart recursive condition) events) ∧
    ((∀ events, AllStates (cvStep role) Paired (cvStart recursive condition) events) ↔
      condition = true ∨ ∀ t, role t ≠ .waiter) := by
  refine ⟨fun events hguard => ?_, fun hall => ?_, fun hsafe events => ?_⟩
  · exact allStates_of_allSteps (fun _ => NoneWaits.paired)
      (fun s e hs hguard => hs.step e hguard) (noneWaits_cvStart _ _) hguard
  · by_contra hnot
    obtain ⟨hcondition, hwaiters⟩ := not_or.mp hnot
    obtain ⟨t, ht⟩ := not_forall_not.mp hwaiters
    rw [Bool.not_eq_true] at hcondition
    subst hcondition
    exact not_paired_untilBlocked recursive ht (hall (untilBlocked t))
  · -- In a run as this one every test finds the condition true.
    refine allStates_of_allSteps
      (I := fun s => NoneWaits s ∧ (s.condition = true ∨ ∀ t, role t ≠ .waiter))
      (G := fun _ _ => True) (fun _ hs => hs.1.paired) (fun s e hs _ => ?_)
      ⟨noneWaits_cvStart _ _, hsafe⟩ (allSteps_of_forall fun _ _ => trivial)
    obtain ⟨hnone, htrue⟩ := hs
    refine ⟨hnone.step e ?_, htrue.imp_left fun h => condition_step h e⟩
    cases e with
    | go t =>
        intro hwaiter _
        exact htrue.resolve_right fun hno => hno t hwaiter
    | signal t picked => trivial
    | spurious t => trivial

/-- One waiter, `true`, and one signaller, `false`. -/
def oneOfEach : Bool → CvRole
  | true => .waiter
  | false => .signaller

/-- The signaller comes first. -/
theorem paired_run_signallerFirst :
    AllStates (cvStep oneOfEach) Paired (cvStart false false) [.go false, .go false,
      .signal false none, .go false, .go true, .go true, .go true] := by
  refine (paired_run oneOfEach false false).1 _ ?_
  have hno : ∀ {P : Prop}, oneOfEach false = .waiter → P := fun h => nomatch h
  exact ⟨hno, hno, trivial, hno, fun _ _ => rfl, fun _ _ => rfl, fun _ _ => rfl, trivial⟩

/-- The waiter comes first, finds the condition false, and blocks with the mutex locked. -/
theorem not_paired_waiterFirst :
    ¬ AllStates (cvStep oneOfEach) Paired (cvStart false false)
      [.go true, .go true, .go true, .go true, .go true] := by
  intro hall
  exact (hall _ (List.prefix_refl _)).released true (by decide) (by decide)

end Runs

end KernelServices
