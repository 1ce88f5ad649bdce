/-
# Semaphores and events of the kernel runtime

One semaphore and one event, each with any number of threads that wait and signal.

* `Safe`: the count of a semaphore stays within its bounds, and no more waits succeed than
  there were counts.  The sum of a signal is formed before it is capped, so this holds exactly
  as long as no sum leaves 32 bits.
* `WakesOnce`: every set of an event that resets itself lets at most one wait succeed.
-/
import ChuckStation.Bytes
import ChuckStation.Monitor

namespace KernelRuntime

open Monitor OperationRuns

/-! ## Semaphores -/

structure SemaphoreAttr where
  initialValue : BitVec 32 := 0
  maxValue : BitVec 32 := BitVec.intMax 32

/-- The arguments of `WaitSemaphore` and `SignalSemaphore`. -/
inductive SemaphoreCall where
  | wait (timeoutUs : U64)
  | signal (count : BitVec 32)

/-- `std::min` on `int32_t`. -/
def min32 (a b : BitVec 32) : BitVec 32 := if b.slt a then b else a

/-- `WaitSemaphore` and `SignalSemaphore` on one semaphore.  A call that is run returns true. -/
def semaphore (attr : SemaphoreAttr) : Monitor (BitVec 32) SemaphoreCall Unit where
  ready
    | .wait _, value => (0 : BitVec 32).slt value
    | .signal _, _ => true
  timed
    | .wait timeoutUs => timeoutUs != uint64Max
    | .signal _ => false
  run
    | .wait _, value => (value - 1, ())
    | .signal count, value => (min32 (value + count) attr.maxValue, ())

abbrev SemaphoreRun (ι : Type*) := Config ι (BitVec 32) SemaphoreCall Unit

/-- A semaphore as `CreateSemaphore` makes it. -/
def createSemaphore (ι : Type*) (attr : SemaphoreAttr) : SemaphoreRun ι :=
  { shared := attr.initialValue }

section Semaphore

variable {ι : Type*} {attr : SemaphoreAttr}

abbrev SemaphoreDone (ι : Type*) := Done ι (BitVec 32) SemaphoreCall Unit

/-- A wait that returned true. -/
def SemaphoreDone.taken (d : SemaphoreDone ι) : ℤ :=
  match d.call, d.result with
  | .wait _, some _ => 1
  | _, _ => 0

/-- The counts that a call has signalled. -/
def SemaphoreDone.given (d : SemaphoreDone ι) : ℤ :=
  match d.call, d.result with
  | .signal count, some _ => count.toInt
  | _, _ => 0

/-- The value and the count of a signal may be added. -/
def SumFits (value : BitVec 32) : SemaphoreCall → Prop
  | .signal count => value.toInt + count.toInt ≤ 2 ^ 31 - 1
  | .wait _ => True

/-- What the callers of a semaphore may rely on. -/
structure Safe (attr : SemaphoreAttr) (s : SemaphoreRun ι) : Prop where
  bounds : 0 ≤ s.shared.toInt ∧ s.shared.toInt ≤ attr.maxValue.toInt
  noOverflow : ∀ d ∈ s.done, ∀ count, d.call = .signal count →
    ¬ d.before.saddOverflow count
  enough : (s.done.map SemaphoreDone.taken).sum ≤
    attr.initialValue.toInt + (s.done.map SemaphoreDone.given).sum

/-- A signal counts upwards. -/
def CountsUp : SemaphoreCall → Prop
  | .signal count => 1 ≤ count.toInt
  | .wait _ => True

instance instDecidablePredCountsUp : DecidablePred CountsUp
  | .signal count => inferInstanceAs (Decidable (1 ≤ count.toInt))
  | .wait _ => inferInstanceAs (Decidable True)

theorem toInt_bounds (v : BitVec 32) : -2 ^ 31 ≤ v.toInt ∧ v.toInt < 2 ^ 31 :=
  ⟨BitVec.le_toInt v, BitVec.toInt_lt⟩

theorem toInt_min32 (a b : BitVec 32) : (min32 a b).toInt = min a.toInt b.toInt := by
  rw [min32]
  by_cases h : b.slt a = true
  · rw [if_pos h, min_eq_right (BitVec.slt_iff_toInt_lt.mp h).le]
  · rw [if_neg h, min_eq_left (not_lt.mp fun hlt => h (BitVec.slt_iff_toInt_lt.mpr hlt))]

theorem toInt_pred {value : BitVec 32} (h : 0 < value.toInt) :
    (value - 1).toInt = value.toInt - 1 := by
  obtain ⟨-, hlt⟩ := toInt_bounds value
  have hone : (1 : BitVec 32).toInt = 1 := by decide
  rw [BitVec.toInt_sub, hone, Int.bmod_eq_of_le]
  · omega
  · omega

/-- For what a semaphore adds, the sum fits if and only if the addition does not overflow. -/
theorem sumFits_iff {value count : BitVec 32} (hvalue : 0 ≤ value.toInt)
    (hcount : 1 ≤ count.toInt) : SumFits value (.signal count) ↔ ¬ value.saddOverflow count := by
  rw [SumFits, BitVec.saddOverflow]
  simp only [Bool.or_eq_true, decide_eq_true_eq]
  omega

/-- What carries the safety of a semaphore through a run. -/
structure Counted (attr : SemaphoreAttr) (value : BitVec 32) (done : List (SemaphoreDone ι)) :
    Prop where
  bounds : 0 ≤ value.toInt ∧ value.toInt ≤ attr.maxValue.toInt
  noOverflow : ∀ d ∈ done, ∀ count, d.call = .signal count → ¬ d.before.saddOverflow count
  balance : (done.map SemaphoreDone.taken).sum + value.toInt ≤
    attr.initialValue.toInt + (done.map SemaphoreDone.given).sum

variable {value : BitVec 32} {done : List (SemaphoreDone ι)} {t : ι}

/-- A wait that is given up changes nothing; a signal is never given up. -/
theorem Counted.giveUp (h : Counted attr value done) {c : SemaphoreCall}
    (hready : (semaphore attr).ready c value = false) :
    Counted attr value (⟨t, c, value, none⟩ :: done) where
  bounds := h.bounds
  noOverflow := by
    intro d hd count hcall
    rcases List.mem_cons.mp hd with rfl | hd
    · subst hcall
      cases hready
    · exact h.noOverflow d hd count hcall
  balance := by
    cases c with
    | wait timeoutUs =>
        have hbalance := h.balance
        simp only [List.map_cons, List.sum_cons, SemaphoreDone.taken, SemaphoreDone.given]
        omega
    | signal count => cases hready

theorem Counted.wait (h : Counted attr value done) {timeoutUs : U64}
    (hready : (semaphore attr).ready (.wait timeoutUs) value = true) :
    Counted attr (value - 1) (⟨t, .wait timeoutUs, value, some ()⟩ :: done) := by
  have hpos : 0 < value.toInt := BitVec.slt_iff_toInt_lt.mp hready
  have hpred := toInt_pred hpos
  obtain ⟨hnonneg, hmax⟩ := h.bounds
  -- A wait takes one permit, and there is one.
  constructor
  · rw [hpred]
    omega
  · intro d hd count hcall
    rcases List.mem_cons.mp hd with rfl | hd
    · cases hcall
    · exact h.noOverflow d hd count hcall
  · have hbalance := h.balance
    simp only [List.map_cons, List.sum_cons, SemaphoreDone.taken, SemaphoreDone.given, hpred]
    omega

theorem Counted.signal (h : Counted attr value done) {count : BitVec 32}
    (hcount : 1 ≤ count.toInt) (hfits : SumFits value (.signal count)) :
    Counted attr (min32 (value + count) attr.maxValue)
      (⟨t, .signal count, value, some ()⟩ :: done) := by
  obtain ⟨hnonneg, hmax⟩ := h.bounds
  have hover := (sumFits_iff hnonneg hcount).mp hfits
  have hsum : (value + count).toInt = value.toInt + count.toInt :=
    BitVec.toInt_add_of_not_saddOverflow hover
  -- What the maximum cuts off only makes the balance smaller.
  constructor
  · rw [toInt_min32, hsum]
    omega
  · intro d hd count' hcall
    rcases List.mem_cons.mp hd with rfl | hd
    · cases hcall
      exact hover
    · exact h.noOverflow d hd count' hcall
  · have hbalance := h.balance
    simp only [List.map_cons, List.sum_cons, SemaphoreDone.taken, SemaphoreDone.given,
      toInt_min32, hsum]
    omega

variable [DecidableEq ι]

/-- The state of a semaphore whose waiting signals, if there were any, count upwards. -/
def SemaphoreKept (attr : SemaphoreAttr) (s : SemaphoreRun ι) : Prop :=
  Counted attr s.shared s.done ∧ s.AllWaiting CountsUp

theorem SemaphoreKept.step {s : SemaphoreRun ι} {e : Event ι SemaphoreCall}
    (h : SemaphoreKept attr s) (he : e.Makes CountsUp)
    (hguard : (semaphore attr).Admits SumFits s e) :
    SemaphoreKept attr ((semaphore attr).step s e) := by
  refine ⟨?_, allWaiting_step h.2 he⟩
  refine step_invariant (I := Counted attr) (G := fun v c => SumFits v c ∧ CountsUp c) ?_
    (fun _ _ _ _ hI hready => hI.giveUp hready) h.1
    fun t c hp hready => ⟨hguard t c hp hready, pending_of_makes h.2 he hp⟩
  intro value done t c hI hready hG
  cases c with
  | wait timeoutUs => exact hI.wait hready
  | signal count => exact hI.signal hG.2 hG.1

/-- **Semaphore safety**, in exactly the runs in which no sum of a signal leaves 32 bits. -/
theorem safe_iff (attr : SemaphoreAttr) (hinitial : 0 ≤ attr.initialValue.toInt)
    (hmax : attr.initialValue.toInt ≤ attr.maxValue.toInt) (events : List (Event ι SemaphoreCall))
    (hcounts : ∀ e ∈ events, e.Makes CountsUp) :
    AllStates (semaphore attr).step (Safe attr) (createSemaphore ι attr) events ↔
      AllSteps (semaphore attr).step ((semaphore attr).Admits SumFits)
        (createSemaphore ι attr) events := by
  refine allStates_iff_allSteps_of (I := SemaphoreKept attr) ?_
    (fun s e he hI hguard => hI.step (hcounts e he) hguard) ?_ ?_
  · rintro s ⟨h, -⟩
    obtain ⟨hnonneg, hmax⟩ := h.bounds
    have hbalance := h.balance
    exact ⟨h.bounds, h.noOverflow, by omega⟩
  · intro s e he hI hsafe t c hp hready
    cases c with
    | wait timeoutUs => trivial
    | signal count =>
        -- The sum is in the record of the step.
        rw [step_of_ready hp hready] at hsafe
        have hcount : CountsUp (.signal count) := pending_of_makes hI.2 (hcounts e he) hp
        exact (sumFits_iff hI.1.bounds.1 hcount).mpr
          (hsafe.noOverflow _ List.mem_cons_self count rfl)
  · refine ⟨⟨⟨hinitial, hmax⟩, fun d hd => absurd hd List.not_mem_nil, ?_⟩,
      fun t c hc => nomatch hc⟩
    show 0 + attr.initialValue.toInt ≤ attr.initialValue.toInt + 0
    omega

theorem safe_iff_onePermit :
    AllStates (semaphore ⟨1, 2⟩).step (Safe ⟨1, 2⟩) (createSemaphore ℕ ⟨1, 2⟩)
        [.call 0 (.wait 0), .call 1 (.signal 1)] ↔
      AllSteps (semaphore ⟨1, 2⟩).step ((semaphore ⟨1, 2⟩).Admits SumFits)
        (createSemaphore ℕ ⟨1, 2⟩) [.call 0 (.wait 0), .call 1 (.signal 1)] := by
  refine safe_iff _ (by decide) (by decide) _ ?_
  rw [List.forall_mem_cons, List.forall_mem_singleton]
  exact ⟨Event.makes_call trivial, Event.makes_call (by decide)⟩

/-- One more count on top of `INT32_MAX` others makes the value negative. -/
theorem not_safe_fullCount :
    ¬ ∀ (attr : SemaphoreAttr) (events : List (Event ℕ SemaphoreCall)),
      0 ≤ attr.initialValue.toInt → attr.initialValue.toInt ≤ attr.maxValue.toInt →
      (∀ e ∈ events, e.Makes CountsUp) →
      AllStates (semaphore attr).step (Safe attr) (createSemaphore ℕ attr) events := by
  intro h
  have hrun := h { initialValue := 1 } [.call 0 (.signal (BitVec.intMax 32))] (by decide)
    (by decide) ?_
  · exact absurd (hrun _ (List.prefix_refl _)).bounds.1 (by decide)
  · rw [List.forall_mem_singleton]
    exact Event.makes_call (by decide)

end Semaphore

/-! ## Events -/

structure EventAttr where
  autoReset : Bool := false
  initialSet : Bool := false

/-- `SetEvent`, `ClearEvent` and the arguments of `WaitEvent`. -/
inductive EventCall where
  | set
  | clear
  | wait (timeoutUs : U64)

/-- `SetEvent`, `ClearEvent` and `WaitEvent` on one event, whose state is `ke->set`. -/
def eventObject (attr : EventAttr) : Monitor Bool EventCall Unit where
  ready
    | .set, _ | .clear, _ => true
    | .wait _, set => set
  timed
    | .set | .clear => false
    | .wait timeoutUs => timeoutUs != uint64Max
  run
    | .set, _ => (true, ())
    | .clear, _ => (false, ())
    | .wait _, set => (if attr.autoReset then false else set, ())

/-- An event as `CreateEvent` makes it. -/
def createEvent (ι : Type*) (attr : EventAttr) : Config ι Bool EventCall Unit :=
  { shared := attr.initialSet }

section Events

variable {ι : Type*} {attr : EventAttr}

abbrev EventDone (ι : Type*) := Done ι Bool EventCall Unit

/-- A `WaitEvent` that returned true. -/
def EventDone.woke (d : EventDone ι) : Bool :=
  match d.call, d.result with
  | .wait _, some _ => true
  | _, _ => false

def EventDone.wasSet (d : EventDone ι) : Bool :=
  match d.call, d.result with
  | .set, some _ => true
  | _, _ => false

/-- Between any two waits that returned true the event was set. -/
def SetBetween (done : List (EventDone ι)) : Prop :=
  ∀ newer mid older w w', done = newer ++ w' :: mid ++ w :: older →
    EventDone.woke w = true → EventDone.woke w' = true → mid.any EventDone.wasSet = true

/-- What the callers of an event that resets itself may rely on. -/
structure WakesOnce (attr : EventAttr) (s : Config ι Bool EventCall Unit) : Prop where
  enough : s.done.countP EventDone.woke ≤
    s.done.countP EventDone.wasSet + attr.initialSet.toNat
  between : SetBetween s.done

/-- What carries the exclusiveness of an event through a run.  An event that has let a wait
through is not set until it is set again. -/
structure Spent (attr : EventAttr) (set : Bool) (done : List (EventDone ι)) : Prop where
  balance : done.countP EventDone.woke + set.toNat ≤
    done.countP EventDone.wasSet + attr.initialSet.toNat
  spent : ∀ mid older w, done = mid ++ w :: older → EventDone.woke w = true →
    mid.any EventDone.wasSet = false → set = false
  between : SetBetween done

variable {set set' : Bool} {done : List (EventDone ι)} {d : EventDone ι}

/-- A wait that returns uses the set up, and only a set makes the event set. -/
theorem Spent.cons (h : Spent attr set done)
    (hwoke : EventDone.woke d = true → set = true ∧ set' = false)
    (hset : set' = true → EventDone.wasSet d = true ∨ set = true ∧ EventDone.woke d = false) :
    Spent attr set' (d :: done) := by
  constructor
  · have hbalance := h.balance
    rw [List.countP_cons, List.countP_cons]
    by_cases hd : EventDone.woke d = true
    · obtain ⟨rfl, rfl⟩ := hwoke hd
      rw [if_pos hd]
      simp only [Bool.toNat_true, Bool.toNat_false] at hbalance ⊢
      omega
    · rw [if_neg hd]
      cases set' with
      | false =>
          rw [Bool.toNat_false]
          omega
      | true =>
          rcases hset rfl with hsets | ⟨rfl, -⟩
          · rw [if_pos hsets, Bool.toNat_true]
            omega
          · omega
  · intro mid older w hsplit hw hmid
    cases mid with
    | nil =>
        -- The call at hand is the wait itself, which left the event unset.
        obtain ⟨rfl, rfl⟩ := List.cons_eq_cons.mp hsplit
        exact (hwoke hw).2
    | cons m mid =>
        obtain ⟨rfl, hdone⟩ := List.cons_eq_cons.mp hsplit
        obtain ⟨hm, hmid⟩ := Bool.or_eq_false_iff.mp (List.any_cons.symm.trans hmid)
        -- No set came between, so only this call could have set the event.
        have hunset := h.spent mid older w hdone hw hmid
        rw [← Bool.not_eq_true]
        intro hset'
        rcases hset hset' with hsets | ⟨hwasSet, -⟩
        · rw [hm] at hsets
          cases hsets
        · rw [hunset] at hwasSet
          cases hwasSet
  · intro newer mid older w w' hsplit hw hw'
    cases newer with
    | nil =>
        obtain ⟨rfl, hdone⟩ := List.cons_eq_cons.mp hsplit
        -- The call at hand found the event set, so it was set after the older wait.
        rw [← Bool.not_eq_false]
        intro hmid
        have hunset := h.spent mid older w hdone hw hmid
        rw [(hwoke hw').1] at hunset
        cases hunset
    | cons n newer =>
        exact h.between newer mid older w w' (List.cons_eq_cons.mp hsplit).2 hw hw'

variable [DecidableEq ι]

/-- **An event that resets itself wakes at most one waiter per set.** -/
theorem wakesOnce_run (attr : EventAttr) (hauto : attr.autoReset = true)
    (events : List (Event ι EventCall)) :
    AllStates (eventObject attr).step (WakesOnce attr) (createEvent ι attr) events := by
  refine allStates_of_invariant (I := Spent attr) ?_ ?_ ?_ ?_
  · intro s h
    have hbalance := h.balance
    exact ⟨by omega, h.between⟩
  · intro set done t c h hready
    cases c with
    | set => exact h.cons (fun hwoke => nomatch hwoke) fun _ => .inl rfl
    | clear => exact h.cons (fun hwoke => nomatch hwoke) fun hset => nomatch hset
    | wait timeoutUs =>
        have hreset : ((eventObject attr).run (.wait timeoutUs) set).1 = false := if_pos hauto
        refine h.cons (fun _ => ⟨hready, hreset⟩) fun hset => ?_
        rw [hreset] at hset
        cases hset
  · intro set done t c h hready
    apply h.cons
    · intro hwoke
      cases c <;> cases hwoke
    · intro hset
      refine .inr ⟨hset, ?_⟩
      cases c <;> rfl
  · refine ⟨?_, ?_, ?_⟩
    · exact le_refl _
    · intro mid older w hsplit
      exact absurd hsplit.symm (List.append_ne_nil_of_right_ne_nil mid (List.cons_ne_nil w older))
    · intro newer mid older w w' hsplit
      cases newer with
      | nil => cases hsplit
      | cons n newer => cases hsplit

theorem wakesOnce_run_twoWaiters :
    AllStates (eventObject ⟨true, false⟩).step (WakesOnce ⟨true, false⟩)
      (createEvent ℕ ⟨true, false⟩)
      [.call 0 (.wait uint64Max), .call 1 (.wait 0), .call 2 .set, .wake 1, .wake 0, .expire 0] :=
  wakesOnce_run ⟨true, false⟩ rfl _

end Events

end KernelRuntime
