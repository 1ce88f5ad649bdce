/-
# The event browser

The debugger keeps a log of runtime events (`Debugger.cpp`).  `AttachEventBrowser` subscribes to
the event system and sets a flag; `Init` and `Shutdown` clear the flag, and the subscription stays.

* `Expected`: what the log of an event browser is.
* `QuietOnceDetached`: the exact condition under which the debugger keeps that log.
-/
import ChuckStation.OperationRuns
import ChuckStation.RuntimeEvents

namespace EventBrowser

open OperationRuns
open RuntimeEvents (EventType EventState RuntimeEvent Publication HandlerEntry)

/-! ## The debugger -/

/-- `struct EventLogEntry`. -/
structure EventLogEntry where
  type : EventType
  timestampNs : U64
  deriving DecidableEq, Repr

/-- A handler of runtime events: the one of the browser, or one that leaves the debugger alone. -/
inductive Listener where
  | logEvent
  | other
  deriving DecidableEq, Repr

/-- `struct State`, what the browser uses of it, and the event system. -/
structure State where
  initialised : Bool := false
  eventLog : List EventLogEntry := []
  browserAttached : Bool := false
  es : EventState Listener := {}

/-- `Init`. -/
def init (st : State) : State :=
  { st with eventLog := [], browserAttached := false, initialised := true }

/-- `Shutdown`. -/
def shutdown (st : State) : State :=
  { st with initialised := false, browserAttached := false }

/-- `AttachEventBrowser`. -/
def attachEventBrowser (st : State) : State :=
  if st.browserAttached then st
  else { st with browserAttached := true, es := (st.es.subscribe .logEvent none).1 }

/-- `ClearEventLog`. -/
def clearEventLog (st : State) : State := { st with eventLog := [] }

/-- What a handler does to the log. -/
def Listener.run (ev : RuntimeEvent) (eventLog : List EventLogEntry) : Listener → List EventLogEntry
  | .logEvent => eventLog ++ [⟨ev.type, ev.timestampUs * 1000⟩]
  | .other => eventLog

/-- `RuntimeEvents::Publish`. -/
def publish (st : State) (p : Publication) : State :=
  { st with
    es := st.es.publishing p
    eventLog := (st.es.listeners (st.es.makeEvent p)).foldl
      (fun eventLog h => h.fn.run (st.es.makeEvent p) eventLog) st.eventLog }

inductive Op where
  | init
  | shutdown
  | attachEventBrowser
  | clearEventLog
  | publish (p : Publication)

def step (st : State) : Op → State
  | .init => init st
  | .shutdown => shutdown st
  | .attachEventBrowser => attachEventBrowser st
  | .clearEventLog => clearEventLog st
  | .publish p => publish st p

/-! ## What a browser is for -/

/-- A browser, and its log. -/
structure Expected where
  attached : Bool := false
  log : List EventLogEntry := []

/-- The entry of a published event. -/
def logged (p : Publication) : EventLogEntry := ⟨p.type, p.now * 1000⟩

/-- An attached browser logs every event once, another one none. -/
def Expected.step (b : Expected) : Op → Expected
  | .init => {}
  | .shutdown => { b with attached := false }
  | .attachEventBrowser => { b with attached := true }
  | .clearEventLog => { b with log := [] }
  | .publish p => if b.attached then { b with log := b.log ++ [logged p] } else b

/-- The debugger beside the browser it should be. -/
def both (s : State × Expected) (op : Op) : State × Expected := (step s.1 op, s.2.step op)

def SameLog (s : State × Expected) : Prop := s.1.eventLog = s.2.log

/-! ## Conditions on the calls -/

def Op.detaches : Op → Bool
  | .init | .shutdown => true
  | _ => false

def Op.publishes : Op → Bool
  | .publish _ => true
  | _ => false

/-- No event is published after an `Init` or a `Shutdown`. -/
def QuietOnceDetached (ops : List Op) : Prop :=
  ops.Pairwise fun op later => op.detaches = true → later.publishes = false

/-! ## Subscriptions -/

/-- The browser is subscribed to all events, `k` times. -/
structure Subscribed (k : ℕ) (st : State) : Prop where
  count : st.es.handlers.countP (fun h => h.fn = .logEvent) = k
  filter : ∀ h ∈ st.es.handlers, h.fn = .logEvent → h.filter = none

section Subscriptions

variable {k : ℕ} {st : State}

theorem foldl_run (ev : RuntimeEvent) (hs : List (HandlerEntry Listener))
    (hfilter : ∀ h ∈ hs, h.fn = .logEvent → h.filter = none) (eventLog : List EventLogEntry) :
    (hs.filter fun h => h.listens ev.type).foldl (fun eventLog h => h.fn.run ev eventLog) eventLog =
      eventLog ++ List.replicate (hs.countP fun h => h.fn = .logEvent)
        ⟨ev.type, ev.timestampUs * 1000⟩ := by
  induction hs generalizing eventLog with
  | nil => exact (List.append_nil _).symm
  | cons h hs ih =>
      have hrest := ih fun h' hin => hfilter h' (List.mem_cons_of_mem _ hin)
      cases hfn : h.fn with
      | logEvent =>
          have hlistens : h.listens ev.type = true := by
            rw [HandlerEntry.listens, hfilter h List.mem_cons_self hfn]
          rw [List.filter_cons, if_pos hlistens, List.foldl_cons, hrest,
            List.countP_cons_of_pos (by simpa using hfn), hfn, List.replicate_succ]
          exact List.append_assoc _ _ _
      | other =>
          rw [List.countP_cons_of_neg (by simp [hfn])]
          cases hlistens : h.listens ev.type with
          | true =>
              rw [List.filter_cons, if_pos hlistens, List.foldl_cons, hfn]
              exact hrest _
          | false =>
              rw [List.filter_cons, if_neg (by simp [hlistens])]
              exact hrest _

/-- **A published event** is logged once for every subscription. -/
theorem eventLog_publish (h : Subscribed k st) (p : Publication) :
    (publish st p).eventLog = st.eventLog ++ List.replicate k (logged p) := by
  have hrun := foldl_run (st.es.makeEvent p) st.es.handlers h.filter st.eventLog
  rw [h.count] at hrun
  exact hrun

theorem Subscribed.publish (h : Subscribed k st) (p : Publication) :
    Subscribed k (publish st p) := by
  have hsame : (EventBrowser.publish st p).es.handlers = st.es.handlers :=
    st.es.handlers_publishing p
  exact ⟨by rw [hsame]; exact h.count, by rw [hsame]; exact h.filter⟩

/-- A browser that is not attached is subscribed once more. -/
theorem Subscribed.attach (h : Subscribed k st) (hattached : st.browserAttached = false) :
    Subscribed (k + 1) (attachEventBrowser st) := by
  rw [attachEventBrowser, hattached, if_neg Bool.false_ne_true]
  refine ⟨?_, fun h' hin => ?_⟩
  · show (st.es.handlers ++ [_]).countP _ = k + 1
    rw [List.countP_append, h.count]
    rfl
  · rcases List.mem_append.mp hin with hin | hin
    · exact h.filter h' hin
    · rw [List.mem_singleton.mp hin]
      exact fun _ => rfl

end Subscriptions

/-! ## Runs -/

/-- The browser is subscribed `k` times, and the flag says whether it is attached. -/
structure Follows (k : ℕ) (s : State × Expected) : Prop where
  subscribed : Subscribed k s.1
  attached : s.2.attached = s.1.browserAttached

section Runs

variable {k : ℕ} {s : State × Expected} {op : Op} {ops : List Op}

/-- No call but `AttachEventBrowser` changes the subscriptions. -/
theorem Follows.both (h : Follows k s) (hop : op ≠ .attachEventBrowser) :
    Follows k (both s op) := by
  cases op with
  | attachEventBrowser => exact absurd rfl hop
  | init => exact ⟨⟨h.subscribed.count, h.subscribed.filter⟩, rfl⟩
  | shutdown => exact ⟨⟨h.subscribed.count, h.subscribed.filter⟩, rfl⟩
  | clearEventLog => exact ⟨⟨h.subscribed.count, h.subscribed.filter⟩, h.attached⟩
  | publish p =>
      refine ⟨h.subscribed.publish p, ?_⟩
      show (s.2.step (.publish p)).attached = s.1.browserAttached
      rw [Expected.step, ← h.attached]
      split_ifs <;> rfl

theorem Follows.attach (h : Follows k s) (hnot : s.2.attached = false) :
    Follows (k + 1) (EventBrowser.both s .attachEventBrowser) := by
  have hattached : s.1.browserAttached = false := h.attached.symm.trans hnot
  refine ⟨h.subscribed.attach hattached, ?_⟩
  show true = (attachEventBrowser s.1).browserAttached
  rw [attachEventBrowser, hattached, if_neg Bool.false_ne_true]

theorem Follows.attach_again (h : Follows k s) (hon : s.2.attached = true) :
    Follows k (EventBrowser.both s .attachEventBrowser) := by
  have hattached : s.1.browserAttached = true := h.attached.symm.trans hon
  have hsame : attachEventBrowser s.1 = s.1 := by rw [attachEventBrowser, if_pos hattached]
  refine ⟨?_, ?_⟩
  · show Subscribed k (attachEventBrowser s.1)
    rw [hsame]
    exact h.subscribed
  · show true = (attachEventBrowser s.1).browserAttached
    rw [hsame, hattached]

/-- **One call**: only a publication makes a difference, if the browser is not subscribed exactly
as often as it should be. -/
theorem sameLog_both_iff (h : Follows k s) (hlog : SameLog s) (op : Op) :
    SameLog (both s op) ↔ (op.publishes = true → k = s.2.attached.toNat) := by
  cases op with
  | init => exact iff_of_true rfl (fun hpub => absurd hpub Bool.false_ne_true)
  | shutdown => exact iff_of_true hlog (fun hpub => absurd hpub Bool.false_ne_true)
  | clearEventLog => exact iff_of_true rfl (fun hpub => absurd hpub Bool.false_ne_true)
  | attachEventBrowser =>
      refine iff_of_true ?_ (fun hpub => absurd hpub Bool.false_ne_true)
      show (attachEventBrowser s.1).eventLog = s.2.log
      rw [attachEventBrowser]
      split_ifs <;> exact hlog
  | publish p =>
      have hexpected : (s.2.step (.publish p)).log =
          s.2.log ++ List.replicate s.2.attached.toNat (logged p) := by
        rw [Expected.step]
        cases s.2.attached with
        | true => rfl
        | false => exact (List.append_nil _).symm
      show (publish s.1 p).eventLog = (s.2.step (.publish p)).log ↔ _
      rw [eventLog_publish h.subscribed, hexpected, hlog, List.append_cancel_left_eq,
        List.replicate_left_inj]
      exact ⟨fun heq _ => heq, fun heq => heq rfl⟩

theorem quietOnceDetached_of_detaches (h : op.detaches = true) :
    QuietOnceDetached (op :: ops) ↔ ∀ later ∈ ops, later.publishes = false := by
  rw [QuietOnceDetached, List.pairwise_cons]
  constructor
  · exact fun hops later hin => hops.1 later hin h
  · intro hops
    refine ⟨fun later hin _ => hops later hin, ?_⟩
    exact List.pairwise_of_forall_mem_list fun _ _ later hin _ => hops later hin

theorem quietOnceDetached_of_not_detaches (h : op.detaches = false) :
    QuietOnceDetached (op :: ops) ↔ QuietOnceDetached ops := by
  rw [QuietOnceDetached, List.pairwise_cons]
  refine and_iff_right fun later _ hdetaches => ?_
  rw [h] at hdetaches
  cases hdetaches

theorem toNat_attached_step_le (b : Expected) (hop : op ≠ .attachEventBrowser) :
    (b.step op).attached.toNat ≤ b.attached.toNat := by
  cases op with
  | attachEventBrowser => exact absurd rfl hop
  | init => exact Nat.zero_le _
  | shutdown => exact Nat.zero_le _
  | clearEventLog => exact le_rfl
  | publish p =>
      rw [Expected.step]
      split_ifs <;> exact le_rfl

/-- Subscribed too often, the debugger cannot log an event any more as it should. -/
theorem allStates_of_spoiled (h : Follows k s) (hmore : s.2.attached.toNat < k) :
    AllStates both SameLog s ops ↔ SameLog s ∧ ∀ op ∈ ops, op.publishes = false := by
  induction ops generalizing k s with
  | nil => rw [allStates_nil, and_iff_left (List.forall_mem_nil _)]
  | cons op ops ih =>
      have hnext : ∃ k', Follows k' (both s op) ∧ (both s op).2.attached.toNat < k' := by
        by_cases hop : op = .attachEventBrowser
        · rw [hop]
          cases hattached : s.2.attached with
          | true =>
              rw [hattached] at hmore
              exact ⟨k, h.attach_again hattached, hmore⟩
          | false =>
              rw [hattached] at hmore
              exact ⟨k + 1, h.attach hattached, Nat.succ_lt_succ hmore⟩
        · exact ⟨k, h.both hop, (toNat_attached_step_le s.2 hop).trans_lt hmore⟩
      obtain ⟨k', hfollows, hmore'⟩ := hnext
      rw [allStates_cons, ih hfollows hmore', List.forall_mem_cons]
      refine and_congr_right fun hlog => and_congr_left fun _ => ?_
      rw [sameLog_both_iff h hlog]
      cases op.publishes with
      | true => exact iff_of_false (fun heq => hmore.ne' (heq rfl)) nofun
      | false => exact iff_of_true nofun rfl

/-- Attached, and subscribed once. -/
theorem allStates_of_attached (h : Follows 1 s) (hattached : s.2.attached = true)
    (hlog : SameLog s) : AllStates both SameLog s ops ↔ QuietOnceDetached ops := by
  have hsame : ∀ s op, Follows 1 s → s.2.attached = true → SameLog s → SameLog (both s op) := by
    intro s op h hattached hlog
    rw [sameLog_both_iff h hlog, hattached]
    exact fun _ => rfl
  induction ops generalizing s with
  | nil => exact iff_of_true (allStates_nil.mpr hlog) List.Pairwise.nil
  | cons op ops ih =>
      rw [allStates_cons, and_iff_right hlog]
      have hlog' := hsame s op h hattached hlog
      cases hdetaches : op.detaches with
      | true =>
          have hop : op ≠ .attachEventBrowser := by
            rintro rfl
            cases hdetaches
          have hoff : (both s op).2.attached = false := by
            cases op <;> first | rfl | cases hdetaches
          rw [quietOnceDetached_of_detaches hdetaches,
            allStates_of_spoiled (h.both hop) (by rw [hoff]; exact Nat.one_pos),
            and_iff_right hlog']
      | false =>
          rw [quietOnceDetached_of_not_detaches hdetaches]
          by_cases hop : op = .attachEventBrowser
          · subst hop
            exact ih (h.attach_again hattached) rfl hlog'
          · refine ih (h.both hop) ?_ hlog'
            cases op with
            | init => cases hdetaches
            | shutdown => cases hdetaches
            | attachEventBrowser => rfl
            | clearEventLog => exact hattached
            | publish p =>
                show (s.2.step (.publish p)).attached = true
                rw [Expected.step, if_pos hattached]
                exact hattached

/-- Not attached, and not subscribed. -/
theorem allStates_of_unsubscribed (h : Follows 0 s) (hnot : s.2.attached = false)
    (hlog : SameLog s) : AllStates both SameLog s ops ↔
      ∀ after, (.attachEventBrowser :: after) <:+ ops → QuietOnceDetached after := by
  induction ops generalizing s with
  | nil =>
      refine iff_of_true (allStates_nil.mpr hlog) fun after hsuffix => ?_
      cases List.suffix_nil.mp hsuffix
  | cons op ops ih =>
      have hlog' : SameLog (both s op) := by
        rw [sameLog_both_iff h hlog, hnot]
        exact fun _ => rfl
      rw [allStates_cons, and_iff_right hlog]
      by_cases hop : op = .attachEventBrowser
      · subst hop
        rw [allStates_of_attached (h.attach hnot) rfl hlog']
        constructor
        · intro hquiet after hsuffix
          rcases List.suffix_cons_iff.mp hsuffix with heq | hsuffix
          · rw [List.tail_eq_of_cons_eq heq]
            exact hquiet
          · exact hquiet.sublist ((List.suffix_cons _ _).trans hsuffix).sublist
        · exact fun hall => hall ops List.suffix_rfl
      · have hoff : (both s op).2.attached = false := by
          have hle := toNat_attached_step_le s.2 hop
          rw [hnot] at hle
          exact Bool.toNat_eq_zero.mp (Nat.le_zero.mp hle)
        rw [ih (h.both hop) hoff hlog']
        refine forall_congr' fun after => ?_
        rw [List.suffix_cons_iff, or_iff_right]
        exact fun heq => hop (List.head_eq_of_cons_eq heq).symm

end Runs

/-- The browser has not been attached yet. -/
structure Fresh (st : State) : Prop where
  notAttached : st.browserAttached = false
  notSubscribed : ∀ h ∈ st.es.handlers, h.fn ≠ .logEvent

/-- **The event log** is that of an event browser, all along a run from before the first
`AttachEventBrowser`, exactly if after that call no event is published once the browser has been
detached by an `Init` or a `Shutdown`. -/
theorem sameLog_run_iff (st : State) (ops : List Op) (h : Fresh st) :
    AllStates both SameLog (st, { attached := false, log := st.eventLog }) ops ↔
      ∀ after, (.attachEventBrowser :: after) <:+ ops → QuietOnceDetached after := by
  apply allStates_of_unsubscribed
  · refine ⟨⟨?_, fun entry hin hfn => absurd hfn (h.notSubscribed entry hin)⟩, h.notAttached.symm⟩
    rw [List.countP_eq_zero]
    intro entry hin
    simpa using h.notSubscribed entry hin
  · rfl
  · rfl

/-- One session. -/
theorem sameLog_run_iff_session :
    AllStates both SameLog ({}, { attached := false, log := [] })
      [.init, .attachEventBrowser, .publish { type := .FrameEnd }, .shutdown] := by
  refine (sameLog_run_iff {} _ ⟨rfl, nofun⟩).mpr fun after hsuffix => ?_
  rcases List.suffix_cons_iff.mp hsuffix with heq | hsuffix
  · cases heq
  rcases List.suffix_cons_iff.mp hsuffix with heq | hsuffix
  · cases heq
    simp [QuietOnceDetached, Op.detaches]
  · simp [List.suffix_cons_iff] at hsuffix

/-- The events of a debugger that is shut down are still logged. -/
theorem not_sameLog_shutdown :
    ¬ AllStates both SameLog ({}, { attached := false, log := [] })
      [.attachEventBrowser, .shutdown, .publish { type := .FrameEnd }] := by
  intro h
  have hlog := h _ List.prefix_rfl
  revert hlog
  show ¬ ([⟨.FrameEnd, 0 * 1000⟩] : List EventLogEntry) = []
  exact List.cons_ne_nil _ _

end EventBrowser
