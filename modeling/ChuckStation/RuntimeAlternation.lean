/-
# Up and down in turn

`InitOne` leaves a subsystem alone that is running; `InitAll` does not look, and calls the init
function of everything the sort comes to.  With a log of what goes up and down beside the table,
the exact condition under which every subsystem goes up and down in turn.

A function that is not there counts as the code counts it: as an init function that returns
`true`, and as a shutdown function that does nothing.
-/
import ChuckStation.RuntimeRuns

namespace Runtime

open OperationRuns

/-! ## The log -/

inductive Event where
  /-- `init` has returned `true`. -/
  | init (id : SubsystemId)
  /-- `shutdown` is called. -/
  | shutdown (id : SubsystemId)
  deriving DecidableEq

def Event.id : Event → SubsystemId
  | .init id => id
  | .shutdown id => id

/-- The loop of `ShutdownAll` calls `shutdown` on what it finds running. -/
def shutdowns : Table × List Call → List SubsystemId → List Event
  | _, [] => []
  | run, id :: ids =>
      (if isRunning id run.1 then [.shutdown id] else []) ++ shutdowns (shutdownStep run id) ids

/-- What a call brings about.  An id is put into `initOrder` when and only when its init function
has returned `true`. -/
def events (st : RuntimeState) : Op → List Event
  | .register _ => []
  | .initAll order results =>
      ((initAll order results st).st.initOrder.drop st.initOrder.length).map .init
  | .initOne id result =>
      ((initOne id result st).2.initOrder.drop st.initOrder.length).map .init
  | .shutdownOne id => if isRunning id st.entries then [.shutdown id] else []
  | .shutdownAll => shutdowns (st.entries, []) st.initOrder.reverse

/-- What `InitAll` finds running and leaves in another state. -/
def abandoned (st : RuntimeState) : Op → List SubsystemId
  | .initAll order results => st.entries.keys.filter fun id =>
      isRunning id st.entries && !isRunning id (initAll order results st).st.entries
  | _ => []

/-- The runtime manager, what was abandoned, and what went up and down. -/
structure History where
  st : RuntimeState := {}
  left : List SubsystemId := []
  log : List Event := []

def historyStep (h : History) (op : Op) : History where
  st := step h.st op
  left := h.left ++ abandoned h.st op
  log := h.log ++ events h.st op

/-- What happened to one subsystem, which is down at first. -/
def past (id : SubsystemId) (log : List Event) : List Event :=
  .shutdown id :: log.filter fun e => e.id = id

/-- Every subsystem goes up and down in turn. -/
def Alternating (log : List Event) : Prop :=
  ∀ id, (past id log).IsChain fun before after => before ≠ after

/-- It went up last. -/
def Up (id : SubsystemId) (log : List Event) : Prop := (past id log).getLast? = some (.init id)

/-- The id that is registered is new. -/
def FreshId (st : RuntimeState) : Op → Prop
  | .register desc => st.entries.lookup desc.id = none
  | _ => True

/-- The call brings the subsystem up. -/
def Starting (st : RuntimeState) (id : SubsystemId) : Op → Prop
  | .initAll _ results => Starts st.entries results id
  | .initOne other result => id = other ∧ isRunning id st.entries = false ∧
      ∃ e, st.entries.lookup id = some e ∧ initResult (fun _ => result) id e = true
  | _ => False

/-- Nothing is brought up that runs, or that `InitAll` has once found running and left. -/
def StartsOnce (h : History) (op : Op) : Prop :=
  ∀ id, Starting h.st id op → isRunning id h.st.entries = false ∧ id ∉ h.left

/-- What a call does to one subsystem: it brings it up, or it stops it, or neither; and then the
subsystem runs on unless it is abandoned. -/
inductive Turn (st : RuntimeState) (id : SubsystemId) (op : Op) : Prop
  | up (hstart : Starting st id op)
      (hevents : ((events st op).filter fun e => e.id = id) = [.init id])
      (hafter : isRunning id (step st op).entries = true)
  | down (hstart : ¬ Starting st id op) (hbefore : isRunning id st.entries = true)
      (hevents : ((events st op).filter fun e => e.id = id) = [.shutdown id])
      (hafter : isRunning id (step st op).entries = false) (hleft : id ∉ abandoned st op)
  | still (hstart : ¬ Starting st id op)
      (hevents : ((events st op).filter fun e => e.id = id) = [])
      (hafter : isRunning id st.entries = true ↔
        isRunning id (step st op).entries = true ∨ id ∈ abandoned st op)

section Log

variable {id : SubsystemId} {log es : List Event}

theorem past_append : past id (log ++ es) = past id log ++ es.filter fun e => e.id = id := by
  rw [past, List.filter_append]
  rfl

theorem up_append_nil (h : (es.filter fun e => e.id = id) = []) :
    Up id (log ++ es) ↔ Up id log := by
  rw [Up, past_append, h, List.append_nil, Up]

theorem up_append_init (h : (es.filter fun e => e.id = id) = [.init id]) : Up id (log ++ es) := by
  rw [Up, past_append, h, List.getLast?_append]
  rfl

theorem not_up_append_shutdown (h : (es.filter fun e => e.id = id) = [.shutdown id]) :
    ¬ Up id (log ++ es) := by
  rw [Up, past_append, h, List.getLast?_append]
  show ¬ some (Event.shutdown id) = some (.init id)
  simp

/-- One more event, when it is not the last one again. -/
theorem isChain_past_append {e : Event} (h : (es.filter fun e => e.id = id) = [e]) :
    (past id (log ++ es)).IsChain (fun before after => before ≠ after) ↔
      (past id log).IsChain (fun before after => before ≠ after) ∧
        (past id log).getLast? ≠ some e := by
  rw [past_append, h, List.isChain_append]
  refine and_congr_right fun _ => ⟨fun hlast heq => ?_, fun hne => ?_⟩
  · exact hlast.2 e heq e rfl rfl
  · refine ⟨List.isChain_singleton e, fun x hx y hy => ?_⟩
    rintro rfl
    rw [List.head?_singleton, Option.mem_some_iff] at hy
    subst hy
    exact hne hx

end Log

/-! ## One call -/

section OneCall

variable {st : RuntimeState} {id : SubsystemId} {op : Op}

/-- What `ShutdownAll` does to a subsystem, it does once. -/
theorem filter_shutdowns (ids : List SubsystemId) (run : Table × List Call) :
    ((shutdowns run ids).filter fun e => e.id = id) =
      if isRunning id run.1 = true ∧ id ∈ ids then [.shutdown id] else [] := by
  induction ids generalizing run with
  | nil => simp [shutdowns]
  | cons a ids ih =>
      obtain ⟨-, hrunning⟩ := shutdownStep_spec run a
      have hstill : (isRunning id (shutdownStep run a).1 = true ∧ id ∈ ids) ↔
          isRunning id run.1 = true ∧ id ≠ a ∧ id ∈ ids := by
        rw [hrunning, Bool.and_eq_true, bne_iff_ne, and_assoc]
      rw [shutdowns, List.filter_append, ih, if_congr hstill rfl rfl]
      by_cases hid : id = a
      · subst hid
        cases hrun : isRunning id run.1 <;> simp [Event.id]
      · have hhead : ((if isRunning a run.1 = true then [Event.shutdown a] else []).filter
            fun e => e.id = id) = [] := by
          split_ifs
          · simp [Event.id, Ne.symm hid]
          · rfl
        rw [hhead, List.nil_append]
        refine if_congr ?_ rfl rfl
        rw [List.mem_cons, or_iff_right hid, ne_eq, and_iff_right hid]

/-- What has been started is started once. -/
theorem filter_map_init {new : List SubsystemId} (hnodup : new.Nodup) :
    ((new.map Event.init).filter fun e => e.id = id) = if id ∈ new then [.init id] else [] := by
  induction new with
  | nil => rfl
  | cons a new ih =>
      obtain ⟨hout, hrest⟩ := List.nodup_cons.mp hnodup
      rw [List.map_cons, List.filter_cons, ih hrest]
      by_cases hid : a = id
      · subst hid
        simp [Event.id, hout]
      · simp [Event.id, hid, Ne.symm hid]

theorem turn_register {desc : SubsystemDesc} (hfresh : st.entries.lookup desc.id = none) :
    Turn st id (.register desc) := by
  refine .still not_false rfl ?_
  show isRunning id st.entries = true ↔
    isRunning id (st.entries.insert desc.id _) = true ∨ id ∈ []
  rw [isRunning_insert, or_iff_left List.not_mem_nil]
  split_ifs with hid
  · -- What was not there was not running.
    rw [isRunning, getState, hid, hfresh]
    exact iff_of_false Bool.false_ne_true Bool.false_ne_true
  · exact Iff.rfl

theorem turn_initAll (order : HashOrder) (results : SubsystemId → Bool) :
    Turn st id (.initAll order results) := by
  obtain ⟨hsort, -, hmem⟩ := topoSort_spec order st.entries
  obtain ⟨new, hnew, hsub, hstarts, -⟩ := (initAll_inited order results st).order
  have hevents : events st (.initAll order results) = new.map .init := by
    rw [events, hnew, List.drop_left]
  have hin : id ∈ new ↔ Starts st.entries results id := by
    rw [hstarts, hmem]
    exact and_iff_right_of_imp Starts.grounded
  have hfilter : ((new.map Event.init).filter fun e => e.id = id) =
      if id ∈ new then [.init id] else [] := filter_map_init (hsub.nodup hsort)
  rw [← hevents] at hfilter
  by_cases hid : Starts st.entries results id
  · refine .up hid (hfilter.trans (if_pos (hin.mpr hid))) ?_
    exact (isRunning_initAll_of_grounded hid.grounded).mpr hid
  refine .still hid (hfilter.trans (if_neg fun h => hid (hin.mp h))) ?_
  have hkeys : isRunning id st.entries = true → id ∈ st.entries.keys := by
    intro hrun
    obtain ⟨e, he, -⟩ := isRunning_iff.mp hrun
    exact AList.mem_keys.mp (AList.lookup_isSome.mp (by rw [he]; rfl))
  show isRunning id st.entries = true ↔
    isRunning id (initAll order results st).st.entries = true ∨ id ∈ st.entries.keys.filter _
  rw [List.mem_filter, Bool.and_eq_true, Bool.not_eq_true']
  constructor
  · intro hrun
    cases hafter : isRunning id (initAll order results st).st.entries with
    | true => exact .inl rfl
    | false => exact .inr ⟨hkeys hrun, hrun, rfl⟩
  · rintro (hafter | ⟨-, hrun, -⟩)
    · -- It runs without having been started, so the loop has not come to it.
      by_cases hgrounded : Grounded st.entries id
      · exact absurd ((isRunning_initAll_of_grounded hgrounded).mp hafter) hid
      · rwa [isRunning_initAll_of_not_grounded hgrounded] at hafter
    · exact hrun

theorem turn_initOne (other : SubsystemId) (result : Bool) :
    Turn st id (.initOne other result) := by
  have hnone : ∀ {after : RuntimeState}, (initOne other result st).2 = after →
      after.initOrder = st.initOrder →
      ((events st (.initOne other result)).filter fun e => e.id = id) = [] := by
    rintro after rfl horder
    rw [events, horder, List.drop_length]
    rfl
  rcases initOne_cases other result st with ⟨heq, hnot⟩ | ⟨e, he, hstate, -, hway⟩
  · refine .still ?_ (hnone heq rfl) ?_
    · rintro ⟨rfl, hrun, e, he, hresult⟩
      refine hnot e he (fun hstate => ?_) hresult
      rw [isRunning_iff.mpr ⟨e, he, hstate⟩] at hrun
      cases hrun
    · show _ ↔ isRunning id (initOne other result st).2.entries = true ∨ id ∈ []
      rw [heq, or_iff_left List.not_mem_nil]
  -- It was not running.
  have hbefore : isRunning other st.entries = false := by
    rw [isRunning, getState_of_lookup he]
    exact beq_eq_false_iff_ne.mpr hstate
  rcases hway with ⟨hresult, horder, hrunning⟩ | ⟨hresult, horder, hrunning⟩
  · have hevents : events st (.initOne other result) = [.init other] := by
      rw [events, horder, List.drop_left]
      rfl
    by_cases hid : id = other
    · subst hid
      refine .up ⟨rfl, hbefore, e, he, hresult⟩ ?_ ((hrunning id).mpr (.inl rfl))
      rw [hevents]
      simp [Event.id]
    · refine .still (fun h => hid h.1) ?_ ?_
      · rw [hevents]
        simp [Event.id, Ne.symm hid]
      · show _ ↔ isRunning id (initOne other result st).2.entries = true ∨ id ∈ []
        rw [hrunning, or_iff_left List.not_mem_nil, or_iff_right hid]
  · refine .still ?_ (hnone rfl horder) ?_
    · rintro ⟨rfl, -, e', he', hresult'⟩
      rw [he] at he'
      cases he'
      rw [hresult] at hresult'
      cases hresult'
    · show _ ↔ isRunning id (initOne other result st).2.entries = true ∨ id ∈ []
      rw [hrunning, or_iff_left List.not_mem_nil]

theorem turn_shutdownOne (other : SubsystemId) : Turn st id (.shutdownOne other) := by
  obtain ⟨-, -, hrunning⟩ := shutdownOne_spec other st
  have hstays : ¬ (id = other ∧ isRunning id st.entries = true) →
      (isRunning id st.entries = true ↔
        isRunning id (shutdownOne other st).entries = true ∨ id ∈ []) := by
    intro hnot
    rw [hrunning, or_iff_left List.not_mem_nil]
    exact ⟨fun hrun => ⟨fun heq => hnot ⟨heq, hrun⟩, hrun⟩, And.right⟩
  by_cases hid : id = other
  · subst hid
    cases hrun : isRunning id st.entries with
    | true =>
        refine .down not_false hrun ?_ ?_ List.not_mem_nil
        · rw [events, if_pos hrun]
          simp [Event.id]
        · rw [← Bool.not_eq_true]
          exact fun hafter => ((hrunning id).mp hafter).1 rfl
    | false =>
        refine .still not_false ?_ (hstays fun h => ?_)
        · rw [events, hrun]
          rfl
        · rw [hrun] at h
          exact Bool.false_ne_true h.2
  · refine .still not_false ?_ (hstays fun h => hid h.1)
    rw [events]
    split_ifs
    · simp [Event.id, Ne.symm hid]
    · rfl

theorem turn_shutdownAll : Turn st id .shutdownAll := by
  have hrunning := (foldl_shutdownStep st.initOrder.reverse (st.entries, [])).2 id
  have hfilter : ((shutdowns (st.entries, []) st.initOrder.reverse).filter fun e => e.id = id) =
      if isRunning id st.entries = true ∧ id ∈ st.initOrder.reverse then [.shutdown id] else [] :=
    filter_shutdowns st.initOrder.reverse (st.entries, [])
  by_cases hid : isRunning id st.entries = true ∧ id ∈ st.initOrder.reverse
  · refine .down not_false hid.1 (hfilter.trans (if_pos hid)) ?_ List.not_mem_nil
    rw [← Bool.not_eq_true]
    exact fun hafter => (hrunning.mp hafter).2 hid.2
  · refine .still not_false (hfilter.trans (if_neg hid)) ?_
    show _ ↔ _ ∨ id ∈ []
    rw [or_iff_left List.not_mem_nil]
    exact ⟨fun hrun => hrunning.mpr ⟨hrun, fun hin => hid ⟨hrun, hin⟩⟩,
      fun hafter => (hrunning.mp hafter).1⟩

/-- **One call** and one subsystem. -/
theorem turn_step (hfresh : FreshId st op) (id : SubsystemId) : Turn st id op := by
  cases op with
  | register desc => exact turn_register hfresh
  | initAll order results => exact turn_initAll order results
  | initOne other result => exact turn_initOne other result
  | shutdownOne other => exact turn_shutdownOne other
  | shutdownAll => exact turn_shutdownAll

/-- What is abandoned does not run any more. -/
theorem isRunning_of_mem_abandoned (h : id ∈ abandoned st op) :
    isRunning id (step st op).entries = false := by
  cases op with
  | initAll order results =>
      have hand := (List.mem_filter.mp h).2
      rw [Bool.and_eq_true, Bool.not_eq_true'] at hand
      exact hand.2
  | register desc => cases h
  | initOne other result => cases h
  | shutdownOne other => cases h
  | shutdownAll => cases h

end OneCall

/-! ## Runs -/

/-- What is up runs or has been abandoned; and what has been abandoned does not run. -/
structure InTurn (h : History) : Prop where
  alternating : Alternating h.log
  up : ∀ id, Up id h.log ↔ isRunning id h.st.entries = true ∨ id ∈ h.left
  left : ∀ id ∈ h.left, isRunning id h.st.entries = false

section Runs

variable {h : History} {op : Op}

theorem InTurn.step (hturn : InTurn h) (hfresh : FreshId h.st op) (hguard : StartsOnce h op) :
    InTurn (historyStep h op) := by
  -- What is in the list afterwards and does not run.
  have hmem : ∀ {id}, id ∈ (historyStep h op).left ↔ id ∈ h.left ∨ id ∈ abandoned h.st op :=
    List.mem_append
  refine ⟨fun id => ?_, fun id => ?_, fun id hin => ?_⟩
  · have hpast := hturn.alternating id
    show (past id (h.log ++ events h.st op)).IsChain _
    cases turn_step hfresh id with
    | up hstart hevents _ =>
        refine (isChain_past_append hevents).mpr ⟨hpast, fun hup => ?_⟩
        obtain ⟨hstopped, hout⟩ := hguard id hstart
        rcases (hturn.up id).mp hup with hrun | hin
        · rw [hstopped] at hrun
          cases hrun
        · exact hout hin
    | down _ hbefore hevents _ _ =>
        refine (isChain_past_append hevents).mpr ⟨hpast, fun hdown => ?_⟩
        have hup : (past id h.log).getLast? = some (.init id) :=
          (hturn.up id).mpr (.inl hbefore)
        rw [hup] at hdown
        cases hdown
    | still _ hevents _ =>
        rw [past_append, hevents, List.append_nil]
        exact hpast
  · show Up id (h.log ++ events h.st op) ↔ isRunning id (Runtime.step h.st op).entries = true ∨ _
    rw [hmem]
    cases turn_step hfresh id with
    | up _ hevents hafter => exact iff_of_true (up_append_init hevents) (.inl hafter)
    | down _ hbefore hevents hafter hleft =>
        refine iff_of_false (not_up_append_shutdown hevents) ?_
        rw [hafter]
        rintro (hrun | hin | hin)
        · cases hrun
        · rw [hturn.left id hin] at hbefore
          cases hbefore
        · exact hleft hin
    | still _ hevents hafter =>
        rw [up_append_nil hevents, hturn.up, hafter]
        tauto
  · show isRunning id (Runtime.step h.st op).entries = false
    rcases hmem.mp hin with hin | hin
    · have hbefore := hturn.left id hin
      cases turn_step hfresh id with
      | up hstart _ _ => exact absurd hin (hguard id hstart).2
      | down _ _ _ hafter _ => exact hafter
      | still _ _ hafter =>
          rw [← Bool.not_eq_true] at hbefore ⊢
          exact fun hrun => hbefore (hafter.mpr (.inl hrun))
    · exact isRunning_of_mem_abandoned hin

/-- Bringing up what is up breaks the order. -/
theorem InTurn.startsOnce (hturn : InTurn h) (hfresh : FreshId h.st op)
    (hafter : Alternating (historyStep h op).log) : StartsOnce h op := by
  intro id hstart
  have hdown : ¬ Up id h.log := by
    have hpast : (past id (h.log ++ events h.st op)).IsChain _ := hafter id
    cases turn_step hfresh id with
    | up _ hevents _ => exact ((isChain_past_append hevents).mp hpast).2
    | down hnot _ _ _ _ => exact absurd hstart hnot
    | still hnot _ _ => exact absurd hstart hnot
  rw [hturn.up, not_or, Bool.not_eq_true] at hdown
  exact hdown

end Runs

theorem inTurn_start : InTurn {} where
  alternating _ := List.isChain_singleton _
  up id := by
    refine iff_of_false (fun hup => ?_) ?_
    · have hlast : some (Event.shutdown id) = some (.init id) := hup
      cases hlast
    · rintro (hrun | hin)
      · cases hrun
      · cases hin
  left _ hin := by cases hin

/-- **Every subsystem goes up and down in turn**, in every state of a run that registers fresh
ids, exactly if no call of it brings up a subsystem that is running, or that an `InitAll` has
found running and left in another state. -/
theorem alternating_run_iff (ops : List Op)
    (hfresh : AllSteps historyStep (fun h => FreshId h.st) {} ops) :
    AllStates historyStep (fun h => Alternating h.log) {} ops ↔
      AllSteps historyStep StartsOnce {} ops :=
  allStates_iff_allSteps_under (fun _ h => h.alternating) (fun _ _ h => h.step)
    (fun _ _ h => h.startsOnce) inTurn_start hfresh

/-- Two subsystems up together, down together, and one of them up alone. -/
theorem alternating_run_twoSubsystems :
    AllStates historyStep (fun h => Alternating h.log) {}
      [.register { id := 1 }, .register { id := 2, deps := [1] },
        .initAll listOrder fun _ => true, .shutdownAll, .initOne 1 true] := by
  have hregistered : ∀ x ∈ (([.register { id := 1 }, .register { id := 2, deps := [1] }].foldl
      step {}).entries.entries), x.2.state = .Registered := by decide
  refine (alternating_run_iff _ ?_).mpr ?_
  · exact ⟨rfl, rfl, trivial, trivial, trivial, trivial⟩
  refine ⟨fun _ h => h.elim, fun _ h => h.elim, fun id _ => ⟨?_, List.not_mem_nil⟩,
    fun _ h => h.elim, fun id h => ⟨h.2.1, List.not_mem_nil⟩, trivial⟩
  rw [← Bool.not_eq_true, isRunning_iff]
  rintro ⟨e, he, hrun⟩
  have hstate := hregistered ⟨id, e⟩ (AList.mem_lookup_iff.mp he)
  rw [hrun] at hstate
  cases hstate

/-- `InitAll` twice: the init function of the only subsystem is called twice, with no shutdown
between. -/
theorem not_alternating_initAll_initAll :
    AllSteps historyStep (fun h => FreshId h.st) {} [.register { id := 1 },
        .initAll listOrder fun _ => true, .initAll listOrder fun _ => true] ∧
      ¬ AllStates historyStep (fun h => Alternating h.log) {} [.register { id := 1 },
        .initAll listOrder fun _ => true, .initAll listOrder fun _ => true] := by
  refine ⟨⟨rfl, trivial, trivial, trivial⟩, fun hall => ?_⟩
  have hlast := hall _ (List.prefix_refl _) 1
  exact absurd hlast (by decide)

end Runtime
