/-
# The mutexes of the event system

The ring, the handlers, the timeline and the profile each have a mutex, and none is recursive: a
thread that locks one while it holds it blocks for ever.  Handlers run with the mutex of the
handlers locked, and inside `PublishProfileBegin` with that of the profile too; they are programs
that use the event system themselves.

* `ListenersQuiet`: the exact condition under which a call comes through.
-/
import ChuckStation.OperationRuns
import ChuckStation.RuntimeEvents

namespace RuntimeEvents

open OperationRuns

/-! ## The mutexes -/

inductive Mutex where
  | ring
  | handler
  | timeline
  | profile
  deriving DecidableEq, Repr

/-- The thread waits for itself. -/
inductive Deadlock where
  | blocksForEver (mtx : Mutex)
  deriving DecidableEq, Repr

/-- The event system, and the mutexes that the calling thread holds, last one first. -/
structure Locked (κ : Type*) where
  es : EventState κ := {}
  held : List Mutex := []

section Calls

variable {κ ρ : Type}

/-- `std::lock_guard` to the end of a block. -/
def withLock (mtx : Mutex) (body : Locked κ → Except Deadlock (Locked κ × ρ)) (s : Locked κ) :
    Except Deadlock (Locked κ × ρ) :=
  if mtx ∈ s.held then .error (.blocksForEver mtx)
  else (body { s with held := mtx :: s.held }).map fun r =>
    ({ r.1 with held := r.1.held.erase mtx }, r.2)

/-- A block that calls nothing. -/
def locked (mtx : Mutex) (body : EventState κ → EventState κ × ρ) (s : Locked κ) :
    Except Deadlock (Locked κ × ρ) :=
  withLock mtx (fun s => .ok ({ s with es := (body s.es).1 }, (body s.es).2)) s

/-- What a handler is, when it is run. -/
abbrev RunHandler (κ : Type) := κ → RuntimeEvent → Locked κ → Except Deadlock (Locked κ)

/-- `DispatchToHandlers`. -/
def dispatchToHandlers (run : RunHandler κ) (ev : RuntimeEvent) (s : Locked κ) :
    Except Deadlock (Locked κ × Unit) :=
  withLock .handler (fun s => do
    let s ← (s.es.listeners ev).foldlM (fun s h => run h.fn ev s) s
    .ok (s, ())) s

/-- `Publish`. -/
def publish (run : RunHandler κ) (p : Publication) (s : Locked κ) :
    Except Deadlock (Locked κ × Unit) := do
  let ev := s.es.makeEvent p
  let s := { s with es := s.es.drawId.count }
  let (s, _) ← locked .ring (fun es => (es.insertEvent ev, ())) s
  let (s, _) ← if onTimeline ev.type then
      locked .timeline (fun es => (es.appendTimeline ev (eventTypeName ev.type) 0, ())) s
    else .ok (s, ())
  dispatchToHandlers run ev s

/-- `PublishProfileBegin`: the profile stays locked while the event is published. -/
def publishProfileBegin (run : RunHandler κ) (label : String) (beganUs now : U64) (s : Locked κ) :
    Except Deadlock (Locked κ × Unit) :=
  withLock .profile (fun s =>
    publish run { type := .ProfileBegin, payload := .profile label 0, now := now }
      { s with es := s.es.beginProfile label beganUs }) s

/-- `PublishProfileEnd`. -/
def publishProfileEnd (run : RunHandler κ) (label : String) (durationUs endedUs now : U64)
    (s : Locked κ) : Except Deadlock (Locked κ × Unit) := do
  let (s, dur) ← locked .profile (fun es => es.endProfile label durationUs endedUs) s
  publish run { type := .ProfileEnd, payload := .profile label dur, now := now } s

/-- `Subscribe`. -/
def subscribe (fn : κ) (filter : Option EventType) (s : Locked κ) :
    Except Deadlock (Locked κ × U32) :=
  locked .handler (fun es => es.subscribe fn filter) s

/-- `Unsubscribe`. -/
def unsubscribe (handlerId : U32) (s : Locked κ) : Except Deadlock (Locked κ × Unit) :=
  locked .handler (fun es => (es.unsubscribe handlerId, ())) s

end Calls

/-! ## Handlers -/

/-- What a handler does to the event system. -/
inductive Program where
  | done
  | publish (p : Publication) (next : Program)
  | profileBegin (label : String) (beganUs now : U64) (next : Program)
  | profileEnd (label : String) (durationUs endedUs now : U64) (next : Program)
  | subscribe (fn : RuntimeEvent → Program) (filter : Option EventType) (next : U32 → Program)
  | unsubscribe (handlerId : U32) (next : Program)

/-- An `EventHandlerFn`. -/
abbrev EventHandlerFn := RuntimeEvent → Program

/-- A handler is run; `nested` is for the handlers that would be run in its calls. -/
def runProgram (nested : RunHandler EventHandlerFn) :
    Program → Locked EventHandlerFn → Except Deadlock (Locked EventHandlerFn)
  | .done, s => .ok s
  | .publish p next, s => do
    let (s, _) ← publish nested p s
    runProgram nested next s
  | .profileBegin label beganUs now next, s => do
    let (s, _) ← publishProfileBegin nested label beganUs now s
    runProgram nested next s
  | .profileEnd label durationUs endedUs now next, s => do
    let (s, _) ← publishProfileEnd nested label durationUs endedUs now s
    runProgram nested next s
  | .subscribe fn filter next, s => do
    let (s, id) ← subscribe fn filter s
    runProgram nested (next id) s
  | .unsubscribe handlerId next, s => do
    let (s, _) ← unsubscribe handlerId s
    runProgram nested next s

/-- A call from outside. -/
inductive Op where
  | publish (p : Publication)
  | profileBegin (label : String) (beganUs now : U64)
  | profileEnd (label : String) (durationUs endedUs now : U64)
  | subscribe (fn : EventHandlerFn) (filter : Option EventType)
  | unsubscribe (handlerId : U32)

def opWith (nested : RunHandler EventHandlerFn) (s : Locked EventHandlerFn) :
    Op → Except Deadlock (Locked EventHandlerFn)
  | .publish p => (publish (fun fn ev => runProgram nested (fn ev)) p s).map Prod.fst
  | .profileBegin label beganUs now =>
    (publishProfileBegin (fun fn ev => runProgram nested (fn ev)) label beganUs now s).map Prod.fst
  | .profileEnd label durationUs endedUs now =>
    (publishProfileEnd (fun fn ev => runProgram nested (fn ev)) label durationUs endedUs now s).map
      Prod.fst
  | .subscribe fn filter => (subscribe fn filter s).map Prod.fst
  | .unsubscribe handlerId => (unsubscribe handlerId s).map Prod.fst

/-- Handlers in handlers never come to be run, so it does not matter what is said of them. -/
def step : Locked EventHandlerFn → Op → Except Deadlock (Locked EventHandlerFn) :=
  opWith fun _ _ s => .ok s

/-! ## Blocks of a thread that does not hold the mutex -/

section Blocks

variable {κ ρ : Type} {es : EventState κ} {held : List Mutex} {mtx : Mutex}

theorem withLock_of_mem (body : Locked κ → Except Deadlock (Locked κ × ρ)) (h : mtx ∈ held) :
    withLock mtx body ⟨es, held⟩ = .error (.blocksForEver mtx) := if_pos h

theorem locked_of_mem (body : EventState κ → EventState κ × ρ) (h : mtx ∈ held) :
    locked mtx body ⟨es, held⟩ = .error (.blocksForEver mtx) := if_pos h

theorem locked_of_notMem (body : EventState κ → EventState κ × ρ) (h : mtx ∉ held) :
    locked mtx body ⟨es, held⟩ = .ok (⟨(body es).1, held⟩, (body es).2) := by
  rw [locked, withLock, if_neg h]
  show Except.ok (({ es := (body es).1, held := (mtx :: held).erase mtx } : Locked κ), _) = _
  rw [List.erase_cons_head]

/-- `Publish` comes to the handlers. -/
theorem publish_of_notMem (run : RunHandler κ) (p : Publication) (hring : Mutex.ring ∉ held)
    (htimeline : Mutex.timeline ∉ held) : publish run p ⟨es, held⟩ =
      dispatchToHandlers run (es.makeEvent p) ⟨es.publishing p, held⟩ := by
  have htype : (es.makeEvent p).type = p.type := rfl
  rw [publish, EventState.publishing, EventState.recordTimeline, htype]
  simp only [locked_of_notMem _ hring, bind, Except.bind]
  split_ifs
  · simp only [locked_of_notMem _ htimeline]
  · rfl

theorem listeners_publishing (es : EventState κ) (p : Publication) (ev : RuntimeEvent) :
    (es.publishing p).listeners ev = es.listeners ev := by
  rw [EventState.listeners, EventState.handlers_publishing]
  rfl

end Blocks

/-! ## With the handlers locked -/

section Held

variable {es : EventState EventHandlerFn} {held : List Mutex}

/-- What is locked while a handler runs: the mutex of the handlers, and perhaps the profile. -/
structure DuringDispatch (held : List Mutex) : Prop where
  handler : Mutex.handler ∈ held
  ring : Mutex.ring ∉ held
  timeline : Mutex.timeline ∉ held

/-- **A handler** that makes a call never returns. -/
theorem runProgram_of_held (es : EventState EventHandlerFn) (h : DuringDispatch held)
    (p : Program) :
    (p = .done ∧ ∀ nested, runProgram nested p ⟨es, held⟩ = .ok ⟨es, held⟩) ∨
      (p ≠ .done ∧ ∃ e, ∀ nested, runProgram nested p ⟨es, held⟩ = .error e) := by
  have hpublish : ∀ (nested : RunHandler EventHandlerFn) es held p, DuringDispatch held →
      publish nested p ⟨es, held⟩ = .error (.blocksForEver .handler) := by
    intro nested es held p h
    rw [publish_of_notMem nested p h.ring h.timeline]
    exact withLock_of_mem _ h.handler
  have hmore : DuringDispatch (.profile :: held) :=
    ⟨List.mem_cons_of_mem _ h.handler, by simp [h.ring], by simp [h.timeline]⟩
  cases p with
  | done => exact .inl ⟨rfl, fun _ => rfl⟩
  | publish p next =>
      refine .inr ⟨nofun, .blocksForEver .handler, fun nested => ?_⟩
      rw [runProgram, hpublish nested es held p h]
      rfl
  | subscribe fn filter next =>
      refine .inr ⟨nofun, .blocksForEver .handler, fun nested => ?_⟩
      rw [runProgram, subscribe, locked_of_mem _ h.handler]
      rfl
  | unsubscribe handlerId next =>
      refine .inr ⟨nofun, .blocksForEver .handler, fun nested => ?_⟩
      rw [runProgram, unsubscribe, locked_of_mem _ h.handler]
      rfl
  | profileBegin label beganUs now next =>
      by_cases hprofile : Mutex.profile ∈ held
      · refine .inr ⟨nofun, .blocksForEver .profile, fun nested => ?_⟩
        rw [runProgram, publishProfileBegin, withLock_of_mem _ hprofile]
        rfl
      · refine .inr ⟨nofun, .blocksForEver .handler, fun nested => ?_⟩
        rw [runProgram, publishProfileBegin, withLock, if_neg hprofile,
          hpublish nested _ _ _ hmore]
        rfl
  | profileEnd label durationUs endedUs now next =>
      by_cases hprofile : Mutex.profile ∈ held
      · refine .inr ⟨nofun, .blocksForEver .profile, fun nested => ?_⟩
        rw [runProgram, publishProfileEnd, locked_of_mem _ hprofile]
        rfl
      · refine .inr ⟨nofun, .blocksForEver .handler, fun nested => ?_⟩
        simp only [runProgram, publishProfileEnd, locked_of_notMem _ hprofile, bind, Except.bind,
          hpublish nested _ _ _ h]

/-- The handlers, one after the other. -/
theorem foldlM_listeners (es : EventState EventHandlerFn) (h : DuringDispatch held)
    (ev : RuntimeEvent) (hs : List (HandlerEntry EventHandlerFn)) :
    ((∀ h ∈ hs, h.fn ev = .done) ∧ ∀ nested,
        hs.foldlM (fun s h => runProgram nested (h.fn ev) s) ⟨es, held⟩ = .ok ⟨es, held⟩) ∨
      (¬ (∀ h ∈ hs, h.fn ev = .done) ∧ ∃ e, ∀ nested,
        hs.foldlM (fun s h => runProgram nested (h.fn ev) s) ⟨es, held⟩ = .error e) := by
  induction hs with
  | nil => exact .inl ⟨List.forall_mem_nil _, fun _ => rfl⟩
  | cons entry hs ih =>
      rw [List.forall_mem_cons]
      rcases runProgram_of_held es h (entry.fn ev) with ⟨hdone, hrun⟩ | ⟨hnot, e, hrun⟩
      · rcases ih with ⟨hall, hrest⟩ | ⟨hall, e, hrest⟩
        · refine .inl ⟨⟨hdone, hall⟩, fun nested => ?_⟩
          rw [List.foldlM_cons, hrun]
          exact hrest nested
        · refine .inr ⟨fun h => hall h.2, e, fun nested => ?_⟩
          rw [List.foldlM_cons, hrun]
          exact hrest nested
      · refine .inr ⟨fun h => hnot h.1, e, fun nested => ?_⟩
        rw [List.foldlM_cons, hrun]
        rfl

/-- `Publish`, by a thread that holds at most the mutex of the profile. -/
theorem publish_of_free (es : EventState EventHandlerFn) (p : Publication)
    (hheld : held ⊆ [.profile]) :
    ((∀ h ∈ es.listeners (es.makeEvent p), h.fn (es.makeEvent p) = .done) ∧ ∀ nested,
        publish (fun fn ev => runProgram nested (fn ev)) p ⟨es, held⟩ =
          .ok (⟨es.publishing p, held⟩, ())) ∨
      (¬ (∀ h ∈ es.listeners (es.makeEvent p), h.fn (es.makeEvent p) = .done) ∧ ∃ e, ∀ nested,
        publish (fun fn ev => runProgram nested (fn ev)) p ⟨es, held⟩ = .error e) := by
  have hfree : ∀ mtx, mtx ≠ .profile → mtx ∉ held := fun mtx hne hin =>
    hne (List.mem_singleton.mp (hheld hin))
  have hduring : DuringDispatch (.handler :: held) :=
    ⟨List.mem_cons_self, by simp [hfree .ring], by simp [hfree .timeline]⟩
  have hdispatch : ∀ nested, publish (fun fn ev => runProgram nested (fn ev)) p ⟨es, held⟩ =
      (((es.listeners (es.makeEvent p)).foldlM
        (fun s h => runProgram nested (h.fn (es.makeEvent p)) s)
        ⟨es.publishing p, .handler :: held⟩).bind fun s => .ok (s, ())).map fun r =>
          ({ r.1 with held := r.1.held.erase .handler }, r.2) := by
    intro nested
    rw [← listeners_publishing es p, publish_of_notMem _ p (hfree _ (by decide))
      (hfree _ (by decide)), dispatchToHandlers, withLock, if_neg (hfree .handler (by decide))]
    rfl
  rcases foldlM_listeners (es.publishing p) hduring (es.makeEvent p)
    (es.listeners (es.makeEvent p)) with ⟨hall, hrun⟩ | ⟨hall, e, hrun⟩
  · refine .inl ⟨hall, fun nested => ?_⟩
    rw [hdispatch, hrun]
    show Except.ok (({ es := _, held := (Mutex.handler :: held).erase .handler } : Locked _), _) = _
    rw [List.erase_cons_head]
  · refine .inr ⟨hall, e, fun nested => ?_⟩
    rw [hdispatch, hrun]
    rfl

end Held

/-! ## Calls from outside -/

/-- What a call publishes. -/
def Op.publication (es : EventState EventHandlerFn) : Op → Option Publication
  | .publish p => some p
  | .profileBegin label _ now =>
    some { type := .ProfileBegin, payload := .profile label 0, now := now }
  | .profileEnd label durationUs endedUs now =>
    some { type := .ProfileEnd, now := now,
           payload := .profile label (es.endProfile label durationUs endedUs).2 }
  | _ => none

/-- No handler that is told of the event makes a call. -/
def ListenersQuiet (s : Locked EventHandlerFn) (op : Op) : Prop :=
  ∀ p, op.publication s.es = some p →
    ∀ h ∈ s.es.listeners (s.es.makeEvent p), h.fn (s.es.makeEvent p) = .done

section Ops

variable {es : EventState EventHandlerFn}

theorem listeners_endProfile (label : String) (durationUs endedUs : U64) (ev : RuntimeEvent) :
    (es.endProfile label durationUs endedUs).1.listeners ev = es.listeners ev := by
  rw [EventState.endProfile]
  split
  · split_ifs <;> rfl
  · rfl

theorem makeEvent_endProfile (label : String) (durationUs endedUs : U64) (p : Publication) :
    (es.endProfile label durationUs endedUs).1.makeEvent p = es.makeEvent p := by
  rw [EventState.endProfile]
  split
  · split_ifs <;> rfl
  · rfl

theorem listenersQuiet_iff {op : Op} {p : Publication} (hp : op.publication es = some p) :
    ListenersQuiet ⟨es, []⟩ op ↔
      ∀ h ∈ es.listeners (es.makeEvent p), h.fn (es.makeEvent p) = .done := by
  constructor
  · exact fun h => h p hp
  · intro h p' hp'
    obtain rfl : p' = p := Option.some.inj (hp'.symm.trans hp)
    exact h

theorem listenersQuiet_of_none {op : Op} (h : op.publication es = none) :
    ListenersQuiet ⟨es, []⟩ op := by
  intro p hp
  rw [h] at hp
  cases hp

/-- **One call** from outside comes through exactly if the handlers make no calls, and then all
mutexes are free again; whatever is said of handlers in handlers. -/
theorem opWith_of_free (es : EventState EventHandlerFn) (op : Op) :
    (ListenersQuiet ⟨es, []⟩ op ∧
        ∃ es', ∀ nested, opWith nested ⟨es, []⟩ op = .ok ⟨es', []⟩) ∨
      (¬ ListenersQuiet ⟨es, []⟩ op ∧
        ∃ e, ∀ nested, opWith nested ⟨es, []⟩ op = .error e) := by
  cases op with
  | subscribe fn filter =>
      refine .inl ⟨listenersQuiet_of_none rfl, (es.subscribe fn filter).1, fun nested => ?_⟩
      rw [opWith, subscribe, locked_of_notMem _ List.not_mem_nil]
      rfl
  | unsubscribe handlerId =>
      refine .inl ⟨listenersQuiet_of_none rfl, es.unsubscribe handlerId, fun nested => ?_⟩
      rw [opWith, unsubscribe, locked_of_notMem _ List.not_mem_nil]
      rfl
  | publish p =>
      rw [listenersQuiet_iff rfl]
      rcases publish_of_free es p (List.nil_subset _) with ⟨hall, hrun⟩ | ⟨hall, e, hrun⟩
      · refine .inl ⟨hall, es.publishing p, fun nested => ?_⟩
        rw [opWith, hrun]
        rfl
      · refine .inr ⟨hall, e, fun nested => ?_⟩
        rw [opWith, hrun]
        rfl
  | profileBegin label beganUs now =>
      rw [listenersQuiet_iff rfl]
      rcases publish_of_free (es.beginProfile label beganUs)
        { type := .ProfileBegin, payload := .profile label 0, now := now }
        (List.Subset.refl [Mutex.profile]) with ⟨hall, hrun⟩ | ⟨hall, e, hrun⟩
      · refine .inl ⟨hall, (es.beginProfile label beganUs).publishing
          { type := .ProfileBegin, payload := .profile label 0, now := now }, fun nested => ?_⟩
        rw [opWith, publishProfileBegin, withLock, if_neg List.not_mem_nil, hrun]
        rfl
      · refine .inr ⟨hall, e, fun nested => ?_⟩
        rw [opWith, publishProfileBegin, withLock, if_neg List.not_mem_nil, hrun]
        rfl
  | profileEnd label durationUs endedUs now =>
      rw [listenersQuiet_iff rfl, ← makeEvent_endProfile label durationUs endedUs,
        ← listeners_endProfile label durationUs endedUs]
      rcases publish_of_free (es.endProfile label durationUs endedUs).1
        { type := .ProfileEnd, now := now,
          payload := .profile label (es.endProfile label durationUs endedUs).2 }
        (List.nil_subset _) with ⟨hall, hrun⟩ | ⟨hall, e, hrun⟩
      · refine .inl ⟨hall, (es.endProfile label durationUs endedUs).1.publishing
          { type := .ProfileEnd, now := now,
            payload := .profile label (es.endProfile label durationUs endedUs).2 },
          fun nested => ?_⟩
        rw [opWith, publishProfileEnd, locked_of_notMem _ List.not_mem_nil]
        simp only [bind, Except.bind, hrun, Except.map]
      · refine .inr ⟨hall, e, fun nested => ?_⟩
        rw [opWith, publishProfileEnd, locked_of_notMem _ List.not_mem_nil]
        simp only [bind, Except.bind, hrun, Except.map]

/-- What is said of handlers in handlers plays no part. -/
theorem opWith_eq_step (nested : RunHandler EventHandlerFn) (op : Op) :
    opWith nested ⟨es, []⟩ op = step ⟨es, []⟩ op := by
  rcases opWith_of_free es op with ⟨-, es', hrun⟩ | ⟨-, e, hrun⟩
  · rw [step, hrun nested, hrun]
  · rw [step, hrun nested, hrun]

theorem step_isOk_iff (op : Op) :
    (∃ t, step ⟨es, []⟩ op = .ok t) ↔ ListenersQuiet ⟨es, []⟩ op := by
  rcases opWith_of_free es op with ⟨hquiet, es', hrun⟩ | ⟨hquiet, e, hrun⟩
  · exact iff_of_true ⟨_, hrun _⟩ hquiet
  · refine iff_of_false ?_ hquiet
    rintro ⟨t, ht⟩
    rw [step, hrun] at ht
    cases ht

theorem held_step {op : Op} {t : Locked EventHandlerFn} (h : step ⟨es, []⟩ op = .ok t) :
    t.held = [] := by
  rcases opWith_of_free es op with ⟨-, es', hrun⟩ | ⟨-, e, hrun⟩
  · rw [step, hrun] at h
    cases h
    rfl
  · rw [step, hrun] at h
    cases h

end Ops

/-! ## Runs -/

/-- **All calls return** exactly if no event is told to a handler that makes a call. -/
theorem callsReturn_iff (es : EventState EventHandlerFn) (ops : List Op) :
    (∃ s, ops.foldlM step ⟨es, []⟩ = .ok s) ↔ AllReached step ListenersQuiet ⟨es, []⟩ ops := by
  apply foldlM_isOk_iff (I := fun s => s.held = [])
  · rintro ⟨es, held⟩ op rfl
    exact step_isOk_iff op
  · rintro ⟨es, held⟩ op t rfl
    exact held_step
  · rfl

/-- A handler for frames that publishes a profile mark. -/
def markFrames : EventHandlerFn := fun _ => .publish { type := .ProfileMark } .done

/-- The mark is never published: the thread waits for the mutex of the handlers. -/
theorem not_callsReturn_markFrames :
    ¬ ∃ s, [Op.subscribe markFrames (some .FrameEnd), .publish { type := .FrameEnd }].foldlM step
      { es := {}, held := [] } = .ok s := by
  have hrun : [Op.subscribe markFrames (some .FrameEnd), .publish { type := .FrameEnd }].foldlM step
      { es := {}, held := [] } = .error (.blocksForEver .handler) := rfl
  rintro ⟨s, hs⟩
  rw [hrun] at hs
  cases hs

end RuntimeEvents
