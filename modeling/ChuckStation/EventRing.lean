/-
# The order of the event ring

A thread draws the id of its event before it locks the ring, and other threads may draw theirs
and insert their events in between.

* `Ordered`: what is expected of the ring and of the queries.
* `InTurn`: the exact condition under which an insertion keeps it.
-/
import ChuckStation.OperationRuns
import ChuckStation.RuntimeEvents

namespace RuntimeEvents

open OperationRuns

/-! ## Publishing step by step -/

/-- Where a call of `Publish` is, behind `MakeEvent`. -/
inductive Stage where
  | made (ev : RuntimeEvent)
  | counted (ev : RuntimeEvent)
  | inserted (ev : RuntimeEvent)
  | recorded (ev : RuntimeEvent)

/-- The event system under calls of `Publish` that are on their way, and what the handlers were
told. -/
structure EventRun (ι κ : Type*) where
  es : EventState κ
  calls : ι → Option Stage := fun _ => none
  told : List (U32 × RuntimeEvent) := []

/-- What is done next: a call of `Publish` begins with `MakeEvent`, or one goes on. -/
inductive PublishEvent (ι : Type*) where
  | begin (t : ι) (p : Publication)
  | go (t : ι)

section Run

variable {ι κ : Type*} [DecidableEq ι]

def EventRun.go (s : EventRun ι κ) (t : ι) : EventRun ι κ :=
  match s.calls t with
  | none => s
  | some (.made ev) =>
    { s with es := s.es.count, calls := Function.update s.calls t (some (.counted ev)) }
  | some (.counted ev) =>
    { s with es := s.es.insertEvent ev, calls := Function.update s.calls t (some (.inserted ev)) }
  | some (.inserted ev) =>
    { s with es := s.es.recordTimeline ev,
             calls := Function.update s.calls t (some (.recorded ev)) }
  | some (.recorded ev) =>
    { s with told := s.told ++ (s.es.listeners ev).map fun h => (h.id, ev),
             calls := Function.update s.calls t none }

def publishStep (s : EventRun ι κ) : PublishEvent ι → EventRun ι κ
  | .begin t p =>
    if (s.calls t).isSome then s
    else { s with es := s.es.drawId,
                  calls := Function.update s.calls t (some (.made (s.es.makeEvent p))) }
  | .go t => s.go t

/-- Behind `Init`, with the handlers that have subscribed. -/
def freshRun (ι : Type*) (capacity : ℕ) (handlers : List (HandlerEntry κ)) : EventRun ι κ :=
  { es := { init capacity ({} : EventState κ) with handlers := handlers } }

end Run

/-! ## What is expected -/

/-- `out` are the `n` events of `es` with the largest ids, in the order of the ids. -/
structure Largest (es : List RuntimeEvent) (n : ℕ) (out : List RuntimeEvent) : Prop where
  sublist : out.Sublist es
  length : out.length = min n es.length
  increasing : out.Pairwise fun e e' => e.id < e'.id
  largest : ∀ e ∈ es, e ∉ out → ∀ e' ∈ out, e.id < e'.id

/-- The ring is in the order of the ids, and so are the queries. -/
structure Ordered {κ : Type*} (es : EventState κ) : Prop where
  increasing : es.ring.Pairwise fun e e' => e.id < e'.id
  recent : ∀ n, Largest es.ring n (es.getRecent n)
  byType : ∀ type n, Largest (es.ring.filter fun e => e.type = type) n (es.getByType type n)

/-- An event that is inserted has a larger id than those that stay in the ring. -/
def InTurn {ι κ : Type*} (s : EventRun ι κ) : PublishEvent ι → Prop
  | .go t => ∀ ev, s.calls t = some (.counted ev) → ∀ e ∈ s.es.retained, e.id < ev.id
  | _ => True

/-! ## The queries of a ring in order -/

section Queries

variable {κ : Type*} {es : EventState κ} {evs out : List RuntimeEvent} {type : EventType} {n : ℕ}

/-- The last `n` events of a list that is in order. -/
theorem largest_drop (h : evs.Pairwise fun e e' => e.id < e'.id) (n : ℕ) :
    Largest evs n (evs.drop (evs.length - n)) where
  sublist := List.drop_sublist _ _
  length := by
    rw [List.length_drop]
    omega
  increasing := h.sublist (List.drop_sublist _ _)
  largest := by
    intro e he hout e' he'
    rw [← List.take_append_drop (evs.length - n) evs] at he h
    rcases List.mem_append.mp he with he | he
    · exact (List.pairwise_append.mp h).2.2 e he e' he'
    · exact absurd he hout

theorem getRecent_eq (n : ℕ) : es.getRecent n = es.ring.drop (es.ring.length - n) := by
  rw [EventState.getRecent]
  split_ifs with hn
  · rfl
  · rw [Nat.sub_eq_zero_of_le (Nat.not_lt.mp hn)]

/-- The loop of `GetByType` takes as many events of the type as there is room for. -/
theorem collect_eq (type : EventType) (n : ℕ) (evs out : List RuntimeEvent) :
    EventState.collect type n evs out =
      out ++ (evs.filter fun e => e.type = type).take (n - out.length) := by
  induction evs generalizing out with
  | nil => simp [EventState.collect]
  | cons ev evs ih =>
      rw [EventState.collect]
      by_cases hroom : out.length < n
      · rw [if_pos hroom, ih]
        by_cases htype : ev.type = type
        · have hsucc : n - out.length = n - (out.length + 1) + 1 := by omega
          rw [if_pos htype, List.filter_cons_of_pos (by simpa using htype), List.length_append,
            List.length_singleton, hsucc, List.take_succ_cons, List.append_assoc]
          rfl
        · rw [if_neg htype, List.filter_cons_of_neg (by simpa using htype)]
      · rw [if_neg hroom, Nat.sub_eq_zero_of_le (Nat.not_lt.mp hroom), List.take_zero,
          List.append_nil]

theorem getByType_eq (type : EventType) (n : ℕ) :
    es.getByType type n = (es.ring.filter fun e => e.type = type).drop
      ((es.ring.filter fun e => e.type = type).length - n) := by
  rw [EventState.getByType, collect_eq, List.nil_append, List.length_nil, Nat.sub_zero,
    List.filter_reverse, List.take_reverse, List.reverse_reverse]

/-- It is the order of the ring that matters. -/
theorem ordered_iff : Ordered es ↔ es.ring.Pairwise fun e e' => e.id < e'.id := by
  constructor
  · exact Ordered.increasing
  · intro h
    refine ⟨h, fun n => ?_, fun type n => ?_⟩
    · rw [getRecent_eq]
      exact largest_drop h n
    · rw [getByType_eq]
      exact largest_drop (h.filter _) n

end Queries

/-! ## Runs -/

section Runs

variable {ι κ : Type*} [DecidableEq ι] {s : EventRun ι κ}

theorem pairwise_retained {es : EventState κ} (h : es.ring.Pairwise fun e e' => e.id < e'.id) :
    es.retained.Pairwise fun e e' => e.id < e'.id := by
  rw [EventState.retained]
  split_ifs
  · exact h.sublist (List.tail_sublist _)
  · exact h

/-- Only an insertion changes the ring. -/
theorem ring_publishStep (s : EventRun ι κ) (e : PublishEvent ι) :
    ((publishStep s e).es.ring = s.es.ring ∧
        ∀ t ev, e = .go t → s.calls t ≠ some (.counted ev)) ∨
      ∃ t ev, e = .go t ∧ s.calls t = some (.counted ev) ∧
        (publishStep s e).es.ring = s.es.retained ++ [ev] := by
  cases e with
  | begin t p =>
      refine .inl ⟨?_, fun _ _ h => by cases h⟩
      rw [publishStep]
      split_ifs <;> rfl
  | go t =>
      -- A thread that is anywhere else has no event to insert.
      have hother : (∀ ev, s.calls t ≠ some (.counted ev)) →
          ∀ t' ev, PublishEvent.go t = .go t' → s.calls t' ≠ some (.counted ev) := by
        rintro hcalls t' ev ⟨⟩
        exact hcalls ev
      rw [publishStep, EventRun.go]
      cases hcall : s.calls t with
      | none => exact .inl ⟨rfl, hother fun ev h => by cases hcall.symm.trans h⟩
      | some stage =>
          cases stage with
          | counted ev => exact .inr ⟨t, ev, rfl, hcall, rfl⟩
          | made ev => exact .inl ⟨rfl, hother fun ev h => by cases hcall.symm.trans h⟩
          | recorded ev => exact .inl ⟨rfl, hother fun ev h => by cases hcall.symm.trans h⟩
          | inserted ev =>
              refine .inl ⟨?_, hother fun ev h => by cases hcall.symm.trans h⟩
              show (s.es.recordTimeline ev).ring = s.es.ring
              rw [EventState.recordTimeline]
              split_ifs <;> rfl

/-- **One step** of a ring in order. -/
theorem ordered_publishStep_iff (hs : Ordered s.es) (e : PublishEvent ι) :
    Ordered (publishStep s e).es ↔ InTurn s e := by
  rw [ordered_iff]
  rw [ordered_iff] at hs
  rcases ring_publishStep s e with ⟨hring, hnot⟩ | ⟨t, ev, rfl, hcall, hring⟩
  · rw [hring]
    refine iff_of_true hs ?_
    cases e with
    | begin t p => trivial
    | go t => exact fun ev hev => absurd hev (hnot t ev rfl)
  · rw [hring, List.pairwise_append, InTurn]
    constructor
    · rintro ⟨-, -, hlast⟩ ev' hev' e he
      rw [hcall] at hev'
      cases hev'
      exact hlast e he ev (List.mem_singleton_self _)
    · intro h
      refine ⟨pairwise_retained hs, List.pairwise_singleton _ _, fun e he e' he' => ?_⟩
      rw [List.mem_singleton.mp he']
      exact h ev hcall e he

/-- **Any interleaving.**  The ring is in order all the time exactly if every event is inserted
before those that stay in the ring had drawn their ids. -/
theorem ordered_run_iff (capacity : ℕ) (handlers : List (HandlerEntry κ))
    (events : List (PublishEvent ι)) :
    AllStates publishStep (fun s => Ordered s.es) (freshRun ι capacity handlers) events ↔
      AllSteps publishStep InTurn (freshRun ι capacity handlers) events :=
  allStates_iff_allSteps (fun _ e hs => ordered_publishStep_iff hs e)
    (ordered_iff.mpr List.Pairwise.nil)

end Runs

/-- Thread 1 draws its id behind thread 0 and inserts its event before it. -/
theorem not_ordered_overtaken :
    ¬ AllStates publishStep (fun s => Ordered s.es)
      (freshRun (Fin 2) 4 ([] : List (HandlerEntry Empty)))
      [.begin 0 { type := .Custom }, .begin 1 { type := .Custom }, .go 0, .go 1, .go 1, .go 0] := by
  intro h
  have hlast := (h _ List.prefix_rfl).increasing
  revert hlast
  decide

end RuntimeEvents
