/-
# The event ring as the end of its history

With one publisher the ring holds the last events that were published, and the queries tell the
last ones of these: the system refines one that keeps every event and answers from there.
-/
import ChuckStation.BoundedLogs
import ChuckStation.EventRing

namespace RuntimeEvents

open BoundedLogs

variable {κ : Type*}

/-! ## Calls -/

/-- What a publisher does, and what it asks in between. -/
inductive RingCall (κ : Type*) where
  | publish (p : Publication)
  | getRecent (n : ℕ)
  | getByType (type : EventType) (maxCount : ℕ)
  | subscribe (fn : κ) (filter : Option EventType)
  | unsubscribe (handlerId : U32)

/-- The event system, and the answers that it gave. -/
structure Asked (κ : Type*) where
  es : EventState κ
  answers : List (List RuntimeEvent) := []

def callStep (s : Asked κ) : RingCall κ → Asked κ
  | .publish p => { s with es := s.es.publishing p }
  | .getRecent n => { s with answers := s.answers ++ [s.es.getRecent n] }
  | .getByType type n => { s with answers := s.answers ++ [s.es.getByType type n] }
  | .subscribe fn filter => { s with es := (s.es.subscribe fn filter).1 }
  | .unsubscribe handlerId => { s with es := s.es.unsubscribe handlerId }

/-- Behind `Init`. -/
def freshSystem (κ : Type*) (capacity : ℕ) : Asked κ :=
  { es := init capacity ({} : EventState κ) }

/-! ## The history -/

/-- Every event that was published, and the answers that follow from them. -/
structure History where
  events : List RuntimeEvent := []
  answers : List (List RuntimeEvent) := []

/-- The next event; the ids count the events. -/
def History.next (h : History) (p : Publication) : RuntimeEvent :=
  { id := BitVec.ofNat 64 (h.events.length + 1), type := p.type, timestampUs := p.now,
    pid := p.pid, tid := p.tid, payload := p.payload }

/-- What a ring with room for `c` events retains. -/
def History.retained (h : History) (c : ℕ) : List RuntimeEvent :=
  h.events.rtake (min h.events.length c)

def History.recent (h : History) (c k : ℕ) : List RuntimeEvent :=
  h.events.rtake (min k (min h.events.length c))

/-- The retained events of a type. -/
def History.ofType (h : History) (c : ℕ) (type : EventType) : List RuntimeEvent :=
  (h.retained c).filter fun ev => ev.type = type

def History.byType (h : History) (c : ℕ) (type : EventType) (k : ℕ) : List RuntimeEvent :=
  (h.ofType c type).rtake (min k (h.ofType c type).length)

def historyStep (c : ℕ) (h : History) : RingCall κ → History
  | .publish p => { h with events := h.events ++ [h.next p] }
  | .getRecent n => { h with answers := h.answers ++ [h.recent c n] }
  | .getByType type n => { h with answers := h.answers ++ [h.byType c type n] }
  | .subscribe _ _ => h
  | .unsubscribe _ => h

/-- What is expected of the ring, of the queries, and of the answers given so far. -/
structure Tells (c : ℕ) (s : Asked κ) (h : History) : Prop where
  ring : s.es.ring = h.retained c
  recent : ∀ k, s.es.getRecent k = h.recent c k
  byType : ∀ type k, s.es.getByType type k = h.byType c type k
  answers : s.answers = h.answers

/-! ## Refinement -/

/-- The ring, the next id and the answers, by the history. -/
structure Refines (c : ℕ) (s : Asked κ) (h : History) : Prop where
  capacity : s.es.capacity = c
  nextId : s.es.nextId = BitVec.ofNat 64 (h.events.length + 1)
  ring : s.es.ring = h.events.rtake c
  answers : s.answers = h.answers

section Refinement

variable {c : ℕ} {s : Asked κ} {h : History}

theorem retained_eq (h : History) (c : ℕ) : h.retained c = h.events.rtake c := by
  rw [History.retained, min_comm, rtake_min_length]

theorem Refines.recent (hs : Refines c s h) (k : ℕ) : s.es.getRecent k = h.recent c k := by
  have hlast : s.es.getRecent k = s.es.ring.rtake k := getRecent_eq k
  rw [hlast, hs.ring, rtake_rtake, History.recent, ← rtake_min_length, min_assoc, min_comm c]

theorem Refines.byType (hs : Refines c s h) (type : EventType) (k : ℕ) :
    s.es.getByType type k = h.byType c type k := by
  have hlast : s.es.getByType type k = (s.es.ring.filter fun e => e.type = type).rtake k :=
    getByType_eq type k
  rw [hlast, hs.ring, History.byType, rtake_min_length, History.ofType, retained_eq]

theorem Refines.tells (hs : Refines c s h) : Tells c s h :=
  ⟨hs.ring.trans (retained_eq h c).symm, hs.recent, hs.byType, hs.answers⟩

/-- The event is put into the ring; the timeline is another matter. -/
theorem ring_publishing (es : EventState κ) (p : Publication) :
    (es.publishing p).ring = push es.capacity es.ring (es.makeEvent p) ∧
      (es.publishing p).capacity = es.capacity ∧ (es.publishing p).nextId = es.nextId + 1 := by
  rw [EventState.publishing, EventState.recordTimeline]
  split_ifs
  · exact ⟨rfl, rfl, rfl⟩
  · exact ⟨rfl, rfl, rfl⟩

theorem Refines.makeEvent (hs : Refines c s h) (p : Publication) :
    s.es.makeEvent p = h.next p := by
  rw [EventState.makeEvent, History.next, hs.nextId]

theorem Refines.callStep (hc : 1 ≤ c) (hs : Refines c s h) (call : RingCall κ) :
    Refines c (callStep s call) (historyStep c h call) := by
  cases call with
  | publish p =>
      obtain ⟨hring, hcapacity, hnext⟩ := ring_publishing s.es p
      refine ⟨hcapacity.trans hs.capacity, ?_, ?_, hs.answers⟩
      · show (s.es.publishing p).nextId = BitVec.ofNat 64 ((h.events ++ [h.next p]).length + 1)
        rw [hnext, hs.nextId, List.length_append, List.length_singleton]
        exact (BitVec.ofNat_add (h.events.length + 1) 1).symm
      · show (s.es.publishing p).ring = (h.events ++ [h.next p]).rtake c
        rw [hring, hs.capacity, hs.ring, hs.makeEvent, push_rtake hc]
  | getRecent n =>
      refine ⟨hs.capacity, hs.nextId, hs.ring, ?_⟩
      show s.answers ++ _ = h.answers ++ _
      rw [hs.answers, hs.recent]
  | getByType type n =>
      refine ⟨hs.capacity, hs.nextId, hs.ring, ?_⟩
      show s.answers ++ _ = h.answers ++ _
      rw [hs.answers, hs.byType]
  | subscribe fn filter => exact ⟨hs.capacity, hs.nextId, hs.ring, hs.answers⟩
  | unsubscribe handlerId => exact ⟨hs.capacity, hs.nextId, hs.ring, hs.answers⟩

theorem Refines.run (hc : 1 ≤ c) (hs : Refines c s h) (calls : List (RingCall κ)) :
    Refines c (calls.foldl RuntimeEvents.callStep s) (calls.foldl (historyStep c) h) := by
  induction calls generalizing s h with
  | nil => exact hs
  | cons call calls ih => exact ih (hs.callStep hc call)

end Refinement

/-- **The contents of the event ring**: after any calls it holds the last events of the history,
and it answered every query in between by them. -/
theorem ring_tells_history {c : ℕ} (hc : 1 ≤ c) (calls : List (RingCall κ)) :
    Tells c (calls.foldl callStep (freshSystem κ c)) (calls.foldl (historyStep c) {}) := by
  have hfresh : Refines c (freshSystem κ c) {} := ⟨rfl, rfl, (List.rtake_nil c).symm, rfl⟩
  exact (hfresh.run hc calls).tells

/-- A ring for one event, asked for two behind the second one. -/
theorem ring_tells_history_one :
    Tells 1
      ([.publish { type := .FrameBegin }, .publish { type := .FrameEnd }, .getRecent 2].foldl
        callStep (freshSystem Empty 1))
      ([.publish { type := .FrameBegin }, .publish { type := .FrameEnd }, .getRecent 2].foldl
        (historyStep (κ := Empty) 1) {}) :=
  ring_tells_history le_rfl _

end RuntimeEvents
