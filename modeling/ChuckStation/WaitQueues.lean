/-
# Wait queues of the kernel runtime

One wait queue, with any number of threads that wait, wake and destroy.  The waiters block on a
bare condition variable: whoever leaves it, for whatever reason but a timeout, returns true.

* `Promise`: what the header promises, as a queue of its own.  Waiters are released first in,
  first out, only a released waiter returns true, and destroying the queue turns away whoever
  waits.
* `Kept`: the calls, as they are seen from outside, are such as the promise allows.  They are
  as long as the condition variable does not wake without notice, notifies the longest waiter,
  and the queue is not destroyed while somebody waits.
-/
import ChuckStation.Bytes
import ChuckStation.OperationRuns

namespace KernelRuntime

open OperationRuns

/-! ## The promise -/

/-- What is seen of the calls from outside, in the order in which it happens. -/
inductive WqRecord (ι : Type) where
  | enqueued (t : ι)
  | wokeOne
  | wokeAll (count : U32)
  | destroyed
  | timeOver (t : ι)
  | returned (t : ι) (result : Bool)

inductive Fate where
  | released
  | turnedAway
deriving DecidableEq

/-- Those who wait, longest first, and what became of those who do not wait any more and have
not returned yet. -/
structure Promise (ι : Type) where
  waiting : List ι := []
  fate : ι → Option Fate := fun _ => none

section Promise

variable {ι : Type} [DecidableEq ι]

/-- What the promise allows: nothing, if a waiter returns in a way it may not. -/
def Promise.step (p : Promise ι) : WqRecord ι → Option (Promise ι)
  | .enqueued t => some ⟨p.waiting ++ [t], Function.update p.fate t none⟩
  | .wokeOne => match p.waiting with
    | [] => some p
    | t :: rest => some ⟨rest, Function.update p.fate t (some .released)⟩
  | .wokeAll _ => some ⟨[], fun t => if t ∈ p.waiting then some .released else p.fate t⟩
  | .destroyed => some ⟨[], fun t => if t ∈ p.waiting then some .turnedAway else p.fate t⟩
  | .timeOver t =>
    if t ∈ p.waiting then some ⟨p.waiting.erase t, Function.update p.fate t (some .turnedAway)⟩
    else none
  | .returned t true =>
    if p.fate t = some .released then some ⟨p.waiting, Function.update p.fate t none⟩ else none
  | .returned t false =>
    -- A released waiter may find its time over when it comes back.
    if (p.fate t).isSome then some ⟨p.waiting, Function.update p.fate t none⟩ else none

/-- The calls are such as the promise allows. -/
def Allowed (log : List (WqRecord ι)) : Prop :=
  (log.foldlM Promise.step ({} : Promise ι)).isSome

instance instDecidableAllowed (log : List (WqRecord ι)) : Decidable (Allowed log) :=
  inferInstanceAs (Decidable (_ = true))

end Promise

/-! ## The code -/

/-- Where a thread is in `WaitOnQueue`: it has found the queue, it is blocked, or it has left the
condition variable and is about to lock the mutex again. -/
inductive WqStatus where
  | outside
  | found (timeoutUs : U64)
  | blocked (timeoutUs : U64)
  | woken (timeoutUs : U64) (timedOut : Bool)

/-- The queue, whether `wqs` still has it, the threads blocked on `cv` in the order in which they
came, where each thread is, and what was seen so far. -/
structure WqRun (ι : Type) where
  registered : Bool := true
  waiters : U32 := 0
  blocked : List ι := []
  status : ι → WqStatus := fun _ => .outside
  log : List (WqRecord ι) := []

/-- What the scheduler does next.  `notify_one` takes any of the blocked threads, and a blocked
thread may wake at any time. -/
inductive WqEvent (ι : Type) where
  | waitOnQueue (t : ι) (timeoutUs : U64)
  | enqueue (t : ι)
  | wakeOne (picked : Option ι)
  | wakeAll
  | destroyWaitQueue
  | spurious (t : ι)
  | expire (t : ι)
  | leave (t : ι) (late : Bool)

/-- A thread leaves the condition variable. -/
def WqStatus.notified : WqStatus → WqStatus
  | .blocked timeoutUs => .woken timeoutUs false
  | st => st

section Step

variable {ι : Type} [DecidableEq ι]

def WqRun.setStatus (s : WqRun ι) (t : ι) (st : WqStatus) : WqRun ι :=
  { s with status := Function.update s.status t st }

def WqRun.see (s : WqRun ι) (r : WqRecord ι) : WqRun ι := { s with log := s.log ++ [r] }

def WqRun.unblock (s : WqRun ι) (t : ι) : WqRun ι :=
  { s with
    blocked := s.blocked.erase t
    status := Function.update s.status t (s.status t).notified }

def WqRun.notifyAll (s : WqRun ι) : WqRun ι :=
  { s with
    blocked := []
    status := fun t => (s.status t).notified }

def wqStep (s : WqRun ι) : WqEvent ι → WqRun ι
  | .waitOnQueue t timeoutUs => match s.status t with
    | .outside => if s.registered then s.setStatus t (.found timeoutUs) else s
    | _ => s
  | .enqueue t => match s.status t with
    | .found timeoutUs =>
      { (s.setStatus t (.blocked timeoutUs)).see (.enqueued t) with
        waiters := s.waiters + 1
        blocked := s.blocked ++ [t] }
    | _ => s
  | .wakeOne picked =>
    if s.registered then match picked with
      | none => if s.blocked = [] then s.see .wokeOne else s
      | some t => if t ∈ s.blocked then (s.unblock t).see .wokeOne else s
    else s
  | .wakeAll => if s.registered then s.notifyAll.see (.wokeAll s.waiters) else s
  | .destroyWaitQueue =>
    if s.registered then { s.notifyAll.see .destroyed with registered := false } else s
  | .spurious t => if t ∈ s.blocked then s.unblock t else s
  | .expire t => match s.status t with
    | .blocked timeoutUs =>
      if timeoutUs = uint64Max then s
      else { (s.setStatus t (.woken timeoutUs true)).see (.timeOver t) with
        blocked := s.blocked.erase t }
    | _ => s
  | .leave t late => match s.status t with
    | .woken timeoutUs timedOut =>
      -- `wait` tells nothing; `wait_for` tells whether the time is over.
      { (s.setStatus t .outside).see
          (.returned t (timeoutUs == uint64Max || !(timedOut || late))) with
        waiters := s.waiters - 1 }
    | _ => s

end Step

/-! ## When the promise is kept -/

/-- The condition variable behaves as a queue, and nobody is blocked on one that is destroyed. -/
def InOrder {ι : Type} (s : WqRun ι) : WqEvent ι → Prop
  | .spurious t => t ∉ s.blocked
  | .wakeOne (some t) => t ∈ s.blocked → s.blocked.head? = some t
  | .destroyWaitQueue => s.registered → s.blocked = []
  | _ => True

section Kept

variable {ι : Type} {s : WqRun ι} {e : WqEvent ι} {p : Promise ι} {t : ι} {timeoutUs : U64}

/-- What the code knows of a thread, and what the promise knows of it. -/
def Agrees (blocked : List ι) (t : ι) (fate : Option Fate) : WqStatus → Prop
  | .outside | .found _ => t ∉ blocked
  | .blocked _ => t ∈ blocked
  | .woken _ false => t ∉ blocked ∧ fate = some .released
  | .woken timeoutUs true => t ∉ blocked ∧ timeoutUs ≠ uint64Max ∧ fate = some .turnedAway

/-- Only the blocked threads matter to a thread. -/
theorem Agrees.congr {blocked blocked' : List ι} {fate : Option Fate} {st : WqStatus}
    (h : Agrees blocked t fate st) (hmem : t ∈ blocked' ↔ t ∈ blocked) :
    Agrees blocked' t fate st := by
  cases st with
  | outside | found τ => exact fun ht => h (hmem.mp ht)
  | blocked τ => exact hmem.mpr h
  | woken τ timedOut =>
      cases timedOut with
      | false => exact ⟨fun ht => h.1 (hmem.mp ht), h.2⟩
      | true => exact ⟨fun ht => h.1 (hmem.mp ht), h.2⟩

variable [DecidableEq ι]

/-- The promise and the code are in step. -/
structure InStep (s : WqRun ι) (p : Promise ι) : Prop where
  log : s.log.foldlM Promise.step {} = some p
  waiting : p.waiting = s.blocked
  nodup : s.blocked.Nodup
  threads : ∀ t, Agrees s.blocked t (p.fate t) (s.status t)

/-- One more record that the promise allows. -/
theorem foldlM_see {p' : Promise ι} {log : List (WqRecord ι)} {r : WqRecord ι}
    (h : log.foldlM Promise.step {} = some p) (hr : p.step r = some p') :
    (log ++ [r]).foldlM Promise.step {} = some p' := by
  rw [List.foldlM_append, h]
  show (p.step r).bind some = some p'
  rw [hr, Option.bind_some]

/-- One thread moves on, and the others stay where they are. -/
theorem agrees_update {blocked blocked' : List ι} {fate fate' : ι → Option Fate}
    {status : ι → WqStatus} {st : WqStatus} (h : ∀ t', Agrees blocked t' (fate t') (status t'))
    (ht : Agrees blocked' t (fate' t) st) (hfate : ∀ t', t' ≠ t → fate' t' = fate t')
    (hmem : ∀ t', t' ≠ t → (t' ∈ blocked' ↔ t' ∈ blocked)) (t' : ι) :
    Agrees blocked' t' (fate' t') (Function.update status t st t') := by
  by_cases heq : t' = t
  · subst heq
    rw [Function.update_self]
    exact ht
  · rw [Function.update_of_ne heq, hfate t' heq]
    exact (h t').congr (hmem t' heq)

theorem update_fate_of_ne {fate : ι → Option Fate} {f : Option Fate} (t' : ι) (hne : t' ≠ t) :
    Function.update fate t f t' = fate t' := Function.update_of_ne hne _ _

theorem InStep.found (h : InStep s p) (hst : s.status t = .outside) :
    InStep (s.setStatus t (.found timeoutUs)) p := by
  refine ⟨h.log, h.waiting, h.nodup, agrees_update h.threads ?_ (fun _ _ => rfl) fun _ _ => Iff.rfl⟩
  have ht := h.threads t
  rw [hst] at ht
  exact ht

theorem InStep.enqueue (h : InStep s p) (hst : s.status t = .found timeoutUs) :
    InStep { (s.setStatus t (.blocked timeoutUs)).see (.enqueued t) with
        waiters := s.waiters + 1
        blocked := s.blocked ++ [t] } ⟨p.waiting ++ [t], Function.update p.fate t none⟩ := by
  have ht := h.threads t
  rw [hst] at ht
  refine ⟨foldlM_see h.log rfl, ?_, ?_, agrees_update h.threads ?_ update_fate_of_ne ?_⟩
  · -- Both queues grow at the end.
    show p.waiting ++ [t] = s.blocked ++ [t]
    rw [h.waiting]
  · show (s.blocked ++ [t]).Nodup
    rw [← List.concat_eq_append]
    exact h.nodup.concat ht
  · exact List.mem_append_right _ List.mem_cons_self
  · intro t' hne
    rw [List.mem_append, List.mem_singleton, or_iff_left hne]

/-- The longest waiter leaves, as the promise has it. -/
theorem InStep.wakeOne (h : InStep s p) {rest : List ι} (hblocked : s.blocked = t :: rest) :
    InStep ((s.unblock t).see .wokeOne) ⟨rest, Function.update p.fate t (some .released)⟩ := by
  have hstep : p.step .wokeOne = some ⟨rest, Function.update p.fate t (some .released)⟩ := by
    rw [Promise.step, h.waiting, hblocked]
  have herase : s.blocked.erase t = rest := by rw [hblocked, List.erase_cons_head]
  -- The thread is blocked once, so it is not blocked any more.
  have hrest : t ∉ s.blocked.erase t := h.nodup.not_mem_erase
  have hmem : t ∈ s.blocked := by
    rw [hblocked]
    exact List.mem_cons_self
  refine ⟨foldlM_see h.log hstep, herase.symm, h.nodup.erase t,
    agrees_update h.threads ?_ update_fate_of_ne fun t' hne => List.mem_erase_of_ne hne⟩
  have ht := h.threads t
  have hfate : Function.update p.fate t (some .released) t = some .released :=
    Function.update_self _ _ _
  cases hst : s.status t with
  | outside | found τ =>
      rw [hst] at ht
      exact absurd hmem ht
  | blocked τ => exact ⟨hrest, hfate⟩
  | woken τ timedOut =>
      rw [hst] at ht
      cases timedOut with
      | false => exact absurd hmem ht.1
      | true => exact absurd hmem ht.1

theorem InStep.wakeNobody (h : InStep s p) (hblocked : s.blocked = []) :
    InStep (s.see .wokeOne) p := by
  have hstep : p.step .wokeOne = some p := by rw [Promise.step, h.waiting, hblocked]
  exact ⟨foldlM_see h.log hstep, h.waiting, h.nodup, h.threads⟩

theorem InStep.wakeAll (h : InStep s p) {count : U32} :
    InStep (s.notifyAll.see (.wokeAll count))
      ⟨[], fun t => if t ∈ p.waiting then some .released else p.fate t⟩ := by
  refine ⟨foldlM_see h.log rfl, rfl, List.nodup_nil, fun t => ?_⟩
  have ht := h.threads t
  show Agrees [] t (if t ∈ p.waiting then _ else _) (s.status t).notified
  rw [h.waiting]
  cases hst : s.status t with
  | outside | found τ => exact List.not_mem_nil
  | blocked τ =>
      rw [hst] at ht
      exact ⟨List.not_mem_nil, if_pos ht⟩
  | woken τ timedOut =>
      rw [hst] at ht
      cases timedOut with
      | false => exact ⟨List.not_mem_nil, (if_neg ht.1).trans ht.2⟩
      | true => exact ⟨List.not_mem_nil, ht.2.1, (if_neg ht.1).trans ht.2.2⟩

/-- Nobody is there to be turned away. -/
theorem InStep.destroy (h : InStep s p) (hblocked : s.blocked = []) :
    InStep { s.notifyAll.see .destroyed with registered := false } p := by
  have hstep : p.step .destroyed = some p := by
    have hwaiting : p.waiting = [] := h.waiting.trans hblocked
    obtain ⟨waiting, fate⟩ := p
    subst hwaiting
    rfl
  -- No thread is blocked, so the notification reaches nobody.
  have hstatus : (fun t => (s.status t).notified) = s.status := by
    funext t
    have ht := h.threads t
    rw [hblocked] at ht
    revert ht
    cases s.status t with
    | outside | found τ | woken τ timedOut => exact fun _ => rfl
    | blocked τ => exact fun ht => nomatch ht
  refine ⟨foldlM_see h.log hstep, h.waiting.trans hblocked, List.nodup_nil, fun t => ?_⟩
  show Agrees [] t (p.fate t) ((fun t => (s.status t).notified) t)
  rw [hstatus, ← hblocked]
  exact h.threads t

theorem InStep.expire (h : InStep s p) (hst : s.status t = .blocked timeoutUs)
    (htimed : timeoutUs ≠ uint64Max) :
    InStep { (s.setStatus t (.woken timeoutUs true)).see (.timeOver t) with
        blocked := s.blocked.erase t }
      ⟨p.waiting.erase t, Function.update p.fate t (some .turnedAway)⟩ := by
  have ht := h.threads t
  rw [hst] at ht
  have hmem : t ∈ p.waiting := by
    rw [h.waiting]
    exact ht
  refine ⟨foldlM_see h.log (if_pos hmem), ?_, h.nodup.erase t,
    agrees_update h.threads ?_ update_fate_of_ne fun t' hne => List.mem_erase_of_ne hne⟩
  · show p.waiting.erase t = s.blocked.erase t
    rw [h.waiting]
  · exact ⟨h.nodup.not_mem_erase, htimed, Function.update_self _ _ _⟩

/-- Who has left the condition variable was released, or its time is over. -/
theorem InStep.leave (h : InStep s p) {timedOut : Bool} (late : Bool)
    (hst : s.status t = .woken timeoutUs timedOut) :
    InStep { (s.setStatus t .outside).see
          (.returned t (timeoutUs == uint64Max || !(timedOut || late))) with
        waiters := s.waiters - 1 } ⟨p.waiting, Function.update p.fate t none⟩ := by
  have ht := h.threads t
  rw [hst] at ht
  -- The result is true only for one that was released.
  have hstep : p.step (.returned t (timeoutUs == uint64Max || !(timedOut || late))) =
      some ⟨p.waiting, Function.update p.fate t none⟩ := by
    cases timedOut with
    | false =>
        cases timeoutUs == uint64Max || !(false || late) with
        | false => exact if_pos (Option.isSome_iff_exists.mpr ⟨_, ht.2⟩)
        | true => exact if_pos ht.2
    | true =>
        have hfalse : (timeoutUs == uint64Max || !(true || late)) = false := by
          rw [Bool.true_or, Bool.not_true, Bool.or_false]
          exact beq_eq_false_iff_ne.mpr ht.2.1
        rw [hfalse]
        exact if_pos (Option.isSome_iff_exists.mpr ⟨_, ht.2.2⟩)
  refine ⟨foldlM_see h.log hstep, h.waiting, h.nodup,
    agrees_update h.threads ?_ update_fate_of_ne fun _ _ => Iff.rfl⟩
  cases timedOut with
  | false => exact ht.1
  | true => exact ht.1

theorem InStep.step (h : InStep s p) (hguard : InOrder s e) : ∃ p', InStep (wqStep s e) p' := by
  cases e with
  | waitOnQueue t timeoutUs =>
      rw [wqStep]
      cases hst : s.status t with
      | outside =>
          dsimp only
          split_ifs
          · exact ⟨p, h.found hst⟩
          · exact ⟨p, h⟩
      | found τ | blocked τ | woken τ timedOut => exact ⟨p, h⟩
  | enqueue t =>
      rw [wqStep]
      cases hst : s.status t with
      | found τ => exact ⟨_, h.enqueue hst⟩
      | outside | blocked τ | woken τ timedOut => exact ⟨p, h⟩
  | wakeOne picked =>
      cases picked with
      | none =>
          rw [wqStep]
          split_ifs with hregistered hblocked
          · exact ⟨p, h.wakeNobody hblocked⟩
          · exact ⟨p, h⟩
          · exact ⟨p, h⟩
      | some t =>
          rw [wqStep]
          split_ifs with hregistered hmem
          · -- The guard has it that the first blocked thread is picked.
            obtain ⟨rest, hblocked⟩ := List.head?_eq_some_iff.mp (hguard hmem)
            exact ⟨_, h.wakeOne hblocked⟩
          · exact ⟨p, h⟩
          · exact ⟨p, h⟩
  | wakeAll =>
      rw [wqStep]
      split_ifs
      · exact ⟨_, h.wakeAll⟩
      · exact ⟨p, h⟩
  | destroyWaitQueue =>
      rw [wqStep]
      split_ifs with hregistered
      · exact ⟨p, h.destroy (hguard hregistered)⟩
      · exact ⟨p, h⟩
  | spurious t =>
      rw [wqStep, if_neg hguard]
      exact ⟨p, h⟩
  | expire t =>
      rw [wqStep]
      cases hst : s.status t with
      | blocked τ =>
          dsimp only
          split_ifs with htimed
          · exact ⟨p, h⟩
          · exact ⟨_, h.expire hst htimed⟩
      | outside | found τ | woken τ timedOut => exact ⟨p, h⟩
  | leave t late =>
      rw [wqStep]
      cases hst : s.status t with
      | woken τ timedOut => exact ⟨_, h.leave late hst⟩
      | outside | found τ | blocked τ => exact ⟨p, h⟩

/-- **Wait queues keep the promise of their header** in every run in which the condition variable
behaves as a queue and nobody waits on a queue that is destroyed. -/
theorem allowed_run (events : List (WqEvent ι)) (hall : AllSteps wqStep InOrder {} events) :
    AllStates wqStep (fun s => Allowed s.log) {} events := by
  refine allStates_of_allSteps (I := fun s => ∃ p, InStep s p) ?_ ?_ ?_ hall
  · rintro s ⟨p, h⟩
    exact Option.isSome_iff_exists.mpr ⟨p, h.log⟩
  · rintro s e ⟨p, h⟩ hguard
    exact h.step hguard
  · exact ⟨{}, rfl, rfl, List.nodup_nil, fun _ => List.not_mem_nil⟩

theorem allowed_run_twoWaiters :
    AllStates wqStep (fun s => Allowed s.log) ({} : WqRun ℕ)
      [.waitOnQueue 0 uint64Max, .enqueue 0, .waitOnQueue 1 5, .enqueue 1, .wakeOne (some 0),
        .expire 1, .leave 1 false, .leave 0 false, .destroyWaitQueue] := by
  apply allowed_run
  refine ⟨trivial, trivial, trivial, trivial, fun _ => rfl, trivial, trivial, trivial, fun _ => rfl,
    trivial⟩

/-- A waiter that is there when the queue is destroyed returns true. -/
theorem not_allowed_destroyed :
    ¬ ∀ events : List (WqEvent ℕ), AllStates wqStep (fun s => Allowed s.log) {} events := by
  intro h
  have hallowed : Allowed (([.waitOnQueue 0 uint64Max, .enqueue 0, .destroyWaitQueue,
      .leave 0 false] : List (WqEvent ℕ)).foldl wqStep {}).log := h _ _ (List.prefix_refl _)
  revert hallowed
  decide

end Kept

end KernelRuntime
