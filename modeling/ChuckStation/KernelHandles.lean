/-
# The handle table of the kernel runtime

Kernel objects are shared pointers in a table under numbers that one counter gives out.
`AllocHandle` gives out numbers as well, from a counter and into a table of its own.

* `Distinct`: no two open handles have the same number, and `GetHandleType` tells of each what it
  was opened as.  This holds exactly as long as the two tables stay clear of each other's
  numbers and `AllocHandle` is asked for nothing but `Unknown`.
-/
import ChuckStation.HandleCounters
import ChuckStation.KernelObjects

namespace KernelRuntime

open HandleCounter OperationRuns

/-! ## Objects and handles -/

abbrev KHandle := BitVec 32

def invalidHandle : KHandle := -1

/-- `enum class KObjectType`. -/
inductive KObjectType where
  | Unknown
  | Thread
  | Mutex
  | Semaphore
  | Event
  | Timer
  | File
  | Socket
  | Module
  deriving DecidableEq, Repr

/-- What a handle leads to.  Only semaphores and events have a state here. -/
inductive KObject where
  | thread
  | mutex
  | semaphore (attr : SemaphoreAttr) (value : BitVec 32)
  | event (attr : EventAttr) (set : Bool)
  | timer

def KObject.type : KObject → KObjectType
  | .thread => .Thread
  | .mutex => .Mutex
  | .semaphore _ _ => .Semaphore
  | .event _ _ => .Event
  | .timer => .Timer

/-- `struct HandleEntry`.  An object is known by how many were made before; it lives as long as a
handle leads to it, so it is never taken off the list. -/
structure HandleEntry where
  type : KObjectType := .Unknown
  obj : ℕ

structure KernelState where
  objects : List KObject := []
  handles : KHandle → Option HandleEntry := fun _ => none
  nextHandle : KHandle := 1

namespace KernelState

/-- `Alloc` of a new object. -/
def alloc (obj : KObject) (st : KernelState) : KernelState × KHandle :=
  ({ objects := st.objects ++ [obj]
     handles := Function.update st.handles st.nextHandle (some ⟨obj.type, st.objects.length⟩)
     nextHandle := st.nextHandle + 1 }, st.nextHandle)

/-- `Free`, which is `CloseHandle`. -/
def closeHandle (h : KHandle) (st : KernelState) : KernelState × Bool :=
  ({ st with handles := Function.update st.handles h none }, (st.handles h).isSome)

def getHandleType (h : KHandle) (st : KernelState) : KObjectType :=
  match st.handles h with
  | none => .Unknown
  | some e => e.type

def createThread (st : KernelState) : KernelState × KHandle := st.alloc .thread

def createMutex (st : KernelState) : KernelState × KHandle := st.alloc .mutex

def createSemaphore (attr : SemaphoreAttr) (st : KernelState) : KernelState × KHandle :=
  st.alloc (.semaphore attr attr.initialValue)

def createEvent (attr : EventAttr) (st : KernelState) : KernelState × KHandle :=
  st.alloc (.event attr attr.initialSet)

def createTimer (st : KernelState) : KernelState × KHandle := st.alloc .timer

def duplicateHandle (src : KHandle) (st : KernelState) : KernelState × KHandle :=
  match st.handles src with
  | none => (st, invalidHandle)
  | some e =>
    ({ st with
      handles := Function.update st.handles st.nextHandle (some e)
      nextHandle := st.nextHandle + 1 }, st.nextHandle)

end KernelState

/-- `alloc_table` and `next_handle`. -/
structure AllocTable where
  entries : KHandle → Option KObjectType := fun _ => none
  nextHandle : KHandle := 1000

namespace AllocTable

def allocHandle (type : KObjectType) (t : AllocTable) : AllocTable × KHandle :=
  ({ entries := Function.update t.entries t.nextHandle (some type)
     nextHandle := t.nextHandle + 1 }, t.nextHandle)

def freeHandle (h : KHandle) (t : AllocTable) : AllocTable :=
  { t with entries := Function.update t.entries h none }

end AllocTable

/-! ## Runs -/

/-- The calls that open and close handles. -/
inductive HandleOp where
  | createThread
  | createMutex
  | createSemaphore (attr : SemaphoreAttr)
  | createEvent (attr : EventAttr)
  | createTimer
  | duplicate (src : KHandle)
  | close (h : KHandle)
  | alloc (type : KObjectType)
  | free (h : KHandle)

/-- An open handle, with the type that it was opened as, and whether it is one of `AllocHandle`. -/
structure OpenHandle where
  handle : KHandle
  type : KObjectType
  allocated : Bool

/-- The tables, the handles that are open, and how many have been given out. -/
structure HandleRun where
  st : KernelState := {}
  table : AllocTable := {}
  live : List OpenHandle := []
  handed : ℕ := 0

/-- A handle of a kernel object has been opened. -/
def HandleRun.opened (s : HandleRun) (type : KObjectType) : KernelState × KHandle → HandleRun
  | (st, h) => { s with st := st, live := ⟨h, type, false⟩ :: s.live, handed := s.handed + 1 }

def HandleRun.drop (s : HandleRun) (h : KHandle) (allocated : Bool) : List OpenHandle :=
  s.live.filter fun x => !(x.handle == h && x.allocated == allocated)

def handleStep (s : HandleRun) : HandleOp → HandleRun
  | .createThread => s.opened .Thread s.st.createThread
  | .createMutex => s.opened .Mutex s.st.createMutex
  | .createSemaphore attr => s.opened .Semaphore (s.st.createSemaphore attr)
  | .createEvent attr => s.opened .Event (s.st.createEvent attr)
  | .createTimer => s.opened .Timer s.st.createTimer
  | .duplicate src =>
    if (s.st.handles src).isSome then
      s.opened (s.st.getHandleType src) (s.st.duplicateHandle src)
    else s
  | .close h => { s with st := (s.st.closeHandle h).1, live := s.drop h false }
  | .alloc type =>
    match s.table.allocHandle type with
    | (table, h) =>
      { s with table := table, live := ⟨h, type, true⟩ :: s.live, handed := s.handed + 1 }
  | .free h => { s with table := s.table.freeHandle h, live := s.drop h true }

/-- What the callers may rely on. -/
structure Distinct (s : HandleRun) : Prop where
  unique : (s.live.map OpenHandle.handle).Nodup
  typed : ∀ x ∈ s.live, s.st.getHandleType x.handle = x.type

/-- A new handle of a kernel object is none of `AllocHandle`; one of `AllocHandle` is none of a
kernel object, and asked for as one of `Unknown`. -/
def KeepsApart (s : HandleRun) : HandleOp → Prop
  | .duplicate src => (s.st.handles src).isSome → s.table.entries s.st.nextHandle = none
  | .alloc type => type = .Unknown ∧ s.st.handles s.table.nextHandle = none
  | .close _ | .free _ => True
  | _ => s.table.entries s.st.nextHandle = none

/-- So few handles that no counter comes round. -/
def HandleRun.InRange (s : HandleRun) : Prop := s.handed < 2 ^ 31

instance (s : HandleRun) : Decidable s.InRange := inferInstanceAs (Decidable (s.handed < 2 ^ 31))

/-! ## What keeps handles apart -/

/-- The tables hold the handles that are open, and the counters are ahead of them. -/
structure HandlesKept (s : HandleRun) : Prop where
  unique : (s.live.map OpenHandle.handle).Nodup
  objects : ∀ h type, ⟨h, type, false⟩ ∈ s.live ↔
    (s.st.handles h).map HandleEntry.type = some type
  allocated : ∀ h type, ⟨h, type, true⟩ ∈ s.live ↔ s.table.entries h = some type
  unknown : ∀ h type, s.table.entries h = some type → type = .Unknown
  counters : ∃ a b, a + b = s.handed ∧
    GivenOut 1 a s.st.nextHandle (fun h => s.st.handles h ≠ none) ∧
    GivenOut 1000 b s.table.nextHandle (fun h => s.table.entries h ≠ none)

section Kept

variable {s : HandleRun} {h : KHandle} {type : KObjectType} {x : OpenHandle}

theorem handlesKept_empty : HandlesKept {} where
  unique := List.nodup_nil
  objects := fun _ _ => iff_of_false List.not_mem_nil fun heq => nomatch heq
  allocated := fun _ _ => iff_of_false List.not_mem_nil fun heq => nomatch heq
  unknown := fun _ _ heq => nomatch heq
  counters := ⟨0, 0, rfl, GivenOut.zero.mono fun _ hne => hne rfl,
    GivenOut.zero.mono fun _ hne => hne rfl⟩

theorem getHandleType_eq {st : KernelState}
    (htype : (st.handles h).map HandleEntry.type = some type) : st.getHandleType h = type := by
  obtain ⟨e, he, rfl⟩ := Option.map_eq_some_iff.mp htype
  unfold KernelState.getHandleType
  rw [he]

/-- An open handle is in one of the tables. -/
theorem HandlesKept.mem_map_iff (hs : HandlesKept s) :
    h ∈ s.live.map OpenHandle.handle ↔ s.st.handles h ≠ none ∨ s.table.entries h ≠ none := by
  rw [List.mem_map]
  constructor
  · rintro ⟨⟨h, type, allocated⟩, hx, rfl⟩
    cases allocated with
    | false =>
        obtain ⟨e, he, -⟩ := Option.map_eq_some_iff.mp ((hs.objects h type).mp hx)
        exact .inl (Option.ne_none_iff_exists'.mpr ⟨e, he⟩)
    | true =>
        exact .inr (Option.ne_none_iff_exists'.mpr ⟨type, (hs.allocated h type).mp hx⟩)
  · rintro (hne | hne)
    · obtain ⟨e, he⟩ := Option.ne_none_iff_exists'.mp hne
      exact ⟨_, (hs.objects h e.type).mpr (by rw [he]; rfl), rfl⟩
    · obtain ⟨type, htype⟩ := Option.ne_none_iff_exists'.mp hne
      exact ⟨_, (hs.allocated h type).mpr htype, rfl⟩

/-- And only in one. -/
theorem HandlesKept.handles_eq_none (hs : HandlesKept s) (hx : ⟨h, type, true⟩ ∈ s.live) :
    s.st.handles h = none := by
  by_contra hne
  obtain ⟨e, he⟩ := Option.ne_none_iff_exists'.mp hne
  have hother : ⟨h, e.type, false⟩ ∈ s.live := (hs.objects h e.type).mpr (by rw [he]; rfl)
  have hsame := List.inj_on_of_nodup_map hs.unique hx hother rfl
  cases hsame

theorem HandlesKept.distinct (hs : HandlesKept s) : Distinct s where
  unique := hs.unique
  typed := by
    rintro ⟨h, type, allocated⟩ hx
    cases allocated with
    | false => exact getHandleType_eq ((hs.objects h type).mp hx)
    | true =>
        unfold KernelState.getHandleType
        rw [hs.handles_eq_none hx]
        exact (hs.unknown h type ((hs.allocated h type).mp hx)).symm

/-- The numbers that are about to be given out are not in use in their own tables. -/
theorem HandlesKept.next_unused (hs : HandlesKept s) (hrange : s.InRange) :
    s.st.handles s.st.nextHandle = none ∧ s.table.entries s.table.nextHandle = none := by
  obtain ⟨a, b, hsum, ha, hb⟩ := hs.counters
  unfold HandleRun.InRange at hrange
  exact ⟨not_not.mp (ha.next_unused (by omega)), not_not.mp (hb.next_unused (by omega))⟩

/-- A handle of a kernel object, with a number that `AllocHandle` has not given out. -/
theorem HandlesKept.open (hs : HandlesKept s) (hrange : s.InRange) {e : HandleEntry}
    {st : KernelState}
    (hhandles : st.handles = Function.update s.st.handles s.st.nextHandle (some e))
    (hnext : st.nextHandle = s.st.nextHandle + 1)
    (hfree : s.table.entries s.st.nextHandle = none) :
    HandlesKept (s.opened e.type (st, s.st.nextHandle)) := by
  obtain ⟨hnew, -⟩ := hs.next_unused hrange
  constructor
  · refine List.nodup_cons.mpr ⟨?_, hs.unique⟩
    rw [hs.mem_map_iff]
    exact not_or.mpr ⟨not_not.mpr hnew, not_not.mpr hfree⟩
  · intro h type
    show ⟨h, type, false⟩ ∈ _ :: s.live ↔ (st.handles h).map HandleEntry.type = some type
    rw [hhandles, List.mem_cons, hs.objects]
    by_cases hh : h = s.st.nextHandle
    · subst hh
      rw [Function.update_self, hnew]
      simp [eq_comm]
    · rw [Function.update_of_ne hh]
      simp [hh]
  · intro h type
    show ⟨h, type, true⟩ ∈ _ :: s.live ↔ s.table.entries h = some type
    rw [List.mem_cons, hs.allocated]
    simp
  · exact hs.unknown
  · obtain ⟨a, b, hsum, ha, hb⟩ := hs.counters
    refine ⟨a + 1, b, ?_, ?_, hb⟩
    · show a + 1 + b = s.handed + 1
      omega
    · show GivenOut 1 (a + 1) st.nextHandle fun h => st.handles h ≠ none
      rw [hhandles, hnext]
      apply ha.succ
      intro h hne
      by_cases hh : h = s.st.nextHandle
      · exact .inl hh
      · rw [Function.update_of_ne hh] at hne
        exact .inr hne

/-- A handle of `AllocHandle`, with a number that no kernel object has. -/
theorem HandlesKept.alloc (hs : HandlesKept s) (hrange : s.InRange)
    (hfree : s.st.handles s.table.nextHandle = none) :
    HandlesKept (handleStep s (.alloc .Unknown)) := by
  obtain ⟨-, hnew⟩ := hs.next_unused hrange
  constructor
  · refine List.nodup_cons.mpr ⟨?_, hs.unique⟩
    rw [hs.mem_map_iff]
    exact not_or.mpr ⟨not_not.mpr hfree, not_not.mpr hnew⟩
  · intro h type
    show ⟨h, type, false⟩ ∈ _ :: s.live ↔ (s.st.handles h).map HandleEntry.type = some type
    rw [List.mem_cons, hs.objects]
    simp
  · intro h type
    show ⟨h, type, true⟩ ∈ _ :: s.live ↔
      Function.update s.table.entries s.table.nextHandle (some .Unknown) h = some type
    rw [List.mem_cons, hs.allocated]
    by_cases hh : h = s.table.nextHandle
    · subst hh
      rw [Function.update_self, hnew]
      simp [eq_comm]
    · rw [Function.update_of_ne hh]
      simp [hh]
  · intro h type htype
    have htype : Function.update s.table.entries s.table.nextHandle (some .Unknown) h =
      some type := htype
    by_cases hh : h = s.table.nextHandle
    · subst hh
      rw [Function.update_self] at htype
      exact (Option.some_inj.mp htype).symm
    · rw [Function.update_of_ne hh] at htype
      exact hs.unknown h type htype
  · obtain ⟨a, b, hsum, ha, hb⟩ := hs.counters
    refine ⟨a, b + 1, ?_, ha, hb.succ fun h hne => ?_⟩
    · show a + (b + 1) = s.handed + 1
      omega
    · by_cases hh : h = s.table.nextHandle
      · exact .inl hh
      · have hne : Function.update s.table.entries s.table.nextHandle (some .Unknown) h ≠ none :=
          hne
        rw [Function.update_of_ne hh] at hne
        exact .inr hne

/-- What stays open when a handle is closed. -/
theorem mem_drop_iff {allocated : Bool} :
    x ∈ s.drop h allocated ↔ x ∈ s.live ∧ ¬ (x.handle = h ∧ x.allocated = allocated) := by
  unfold HandleRun.drop
  rw [List.mem_filter, Bool.not_eq_true', ← Bool.not_eq_true, Bool.and_eq_true, beq_iff_eq,
    beq_iff_eq]

theorem HandlesKept.nodup_drop (hs : HandlesKept s) (h : KHandle) (allocated : Bool) :
    ((s.drop h allocated).map OpenHandle.handle).Nodup :=
  hs.unique.sublist (List.filter_sublist.map _)

theorem HandlesKept.close (hs : HandlesKept s) (h : KHandle) :
    HandlesKept (handleStep s (.close h)) := by
  constructor
  · exact hs.nodup_drop h false
  · intro h' type
    show ⟨h', type, false⟩ ∈ s.drop h false ↔
      (Function.update s.st.handles h none h').map HandleEntry.type = some type
    rw [mem_drop_iff, hs.objects]
    by_cases hh : h' = h
    · simp [hh]
    · simp [hh]
  · intro h' type
    show ⟨h', type, true⟩ ∈ s.drop h false ↔ _
    rw [mem_drop_iff, hs.allocated]
    simp [handleStep]
  · exact hs.unknown
  · obtain ⟨a, b, hsum, ha, hb⟩ := hs.counters
    refine ⟨a, b, hsum, ha.mono fun h' hne => ?_, hb⟩
    have hne : Function.update s.st.handles h none h' ≠ none := hne
    by_cases hh : h' = h
    · simp [hh] at hne
    · rwa [Function.update_of_ne hh] at hne

theorem HandlesKept.free (hs : HandlesKept s) (h : KHandle) :
    HandlesKept (handleStep s (.free h)) := by
  constructor
  · exact hs.nodup_drop h true
  · intro h' type
    show ⟨h', type, false⟩ ∈ s.drop h true ↔ _
    rw [mem_drop_iff, hs.objects]
    simp [handleStep]
  · intro h' type
    show ⟨h', type, true⟩ ∈ s.drop h true ↔
      Function.update s.table.entries h none h' = some type
    rw [mem_drop_iff, hs.allocated]
    by_cases hh : h' = h
    · simp [hh]
    · simp [hh]
  · intro h' type htype
    have htype : Function.update s.table.entries h none h' = some type := htype
    by_cases hh : h' = h
    · simp [hh] at htype
    · rw [Function.update_of_ne hh] at htype
      exact hs.unknown h' type htype
  · obtain ⟨a, b, hsum, ha, hb⟩ := hs.counters
    refine ⟨a, b, hsum, ha, hb.mono fun h' hne => ?_⟩
    have hne : Function.update s.table.entries h none h' ≠ none := hne
    by_cases hh : h' = h
    · simp [hh] at hne
    · rwa [Function.update_of_ne hh] at hne

/-- The handles that have been given out are not taken back. -/
theorem inRange_of_step {op : HandleOp} (h : (handleStep s op).InRange) : s.InRange := by
  have hle : s.handed ≤ (handleStep s op).handed := by
    cases op with
    | duplicate src =>
        unfold handleStep
        dsimp only
        split_ifs
        · exact Nat.le_succ _
        · exact le_refl _
    | close h | free h => exact le_refl _
    | createThread | createMutex | createSemaphore attr | createEvent attr | createTimer
      | alloc type => exact Nat.le_succ _
  exact hle.trans_lt h

/-- A handle of a kernel object is opened: what the code does, and when that keeps the handles
apart. -/
theorem handlesKept_opened_iff (hs : HandlesKept s) {e : HandleEntry} (st : KernelState)
    (hhandles : st.handles = Function.update s.st.handles s.st.nextHandle (some e))
    (hnext : st.nextHandle = s.st.nextHandle + 1) (hrange : s.InRange) :
    (s.table.entries s.st.nextHandle = none →
      HandlesKept (s.opened e.type (st, s.st.nextHandle))) ∧
    (Distinct (s.opened e.type (st, s.st.nextHandle)) →
      s.table.entries s.st.nextHandle = none) := by
  refine ⟨hs.open hrange hhandles hnext, fun hdistinct => ?_⟩
  have hnew := (List.nodup_cons.mp hdistinct.unique).1
  rw [hs.mem_map_iff] at hnew
  exact not_not.mp (not_or.mp hnew).2

theorem handlesKept_alloc_iff (hs : HandlesKept s) (obj : KObject) (hrange : s.InRange) :
    (s.table.entries s.st.nextHandle = none →
      HandlesKept (s.opened obj.type (s.st.alloc obj))) ∧
    (Distinct (s.opened obj.type (s.st.alloc obj)) → s.table.entries s.st.nextHandle = none) :=
  handlesKept_opened_iff (e := ⟨obj.type, s.st.objects.length⟩) hs (s.st.alloc obj).1 rfl rfl
    hrange

theorem handleStep_duplicate_of_none {src : KHandle} (he : s.st.handles src = none) :
    handleStep s (.duplicate src) = s := by
  unfold handleStep
  dsimp only
  rw [he]
  rfl

theorem handleStep_duplicate_of_some {src : KHandle} {e : HandleEntry}
    (he : s.st.handles src = some e) :
    handleStep s (.duplicate src) = s.opened e.type ({ s.st with
      handles := Function.update s.st.handles s.st.nextHandle (some e)
      nextHandle := s.st.nextHandle + 1 }, s.st.nextHandle) := by
  unfold handleStep KernelState.getHandleType KernelState.duplicateHandle
  dsimp only
  rw [he]
  rfl

/-- One call keeps the handles apart exactly under its guard. -/
theorem handleStep_spec (hs : HandlesKept s) (op : HandleOp)
    (hrange : (handleStep s op).InRange) :
    (KeepsApart s op → HandlesKept (handleStep s op)) ∧
      (Distinct (handleStep s op) → KeepsApart s op) := by
  have hbefore : s.handed + 1 < 2 ^ 31 → s.InRange := fun h => Nat.lt_of_succ_lt h
  cases op with
  | createThread => exact handlesKept_alloc_iff hs .thread (hbefore hrange)
  | createMutex => exact handlesKept_alloc_iff hs .mutex (hbefore hrange)
  | createSemaphore attr =>
      exact handlesKept_alloc_iff hs (.semaphore attr attr.initialValue) (hbefore hrange)
  | createEvent attr =>
      exact handlesKept_alloc_iff hs (.event attr attr.initialSet) (hbefore hrange)
  | createTimer => exact handlesKept_alloc_iff hs .timer (hbefore hrange)
  | duplicate src =>
      cases he : s.st.handles src with
      | none =>
          rw [handleStep_duplicate_of_none he]
          refine ⟨fun _ => hs, fun _ hsome => ?_⟩
          rw [he] at hsome
          cases hsome
      | some e =>
          rw [handleStep_duplicate_of_some he] at hrange ⊢
          have hsome : (s.st.handles src).isSome = true := by
            rw [he]
            rfl
          obtain ⟨hkeep, hbreak⟩ := handlesKept_opened_iff (e := e) hs { s.st with
            handles := Function.update s.st.handles s.st.nextHandle (some e)
            nextHandle := s.st.nextHandle + 1 } rfl rfl (hbefore hrange)
          exact ⟨fun hguard => hkeep (hguard hsome), fun hdistinct _ => hbreak hdistinct⟩
  | close h => exact ⟨fun _ => hs.close h, fun _ => trivial⟩
  | free h => exact ⟨fun _ => hs.free h, fun _ => trivial⟩
  | alloc type =>
      constructor
      · rintro ⟨rfl, hfree⟩
        exact hs.alloc (hbefore hrange) hfree
      · intro hdistinct
        have hnew := (List.nodup_cons.mp hdistinct.unique).1
        rw [hs.mem_map_iff] at hnew
        have hfree := not_not.mp (not_or.mp hnew).1
        -- The kernel objects have nothing under the new number, so its type is unknown.
        have htyped := hdistinct.typed _ List.mem_cons_self
        have hunknown : s.st.getHandleType s.table.nextHandle = .Unknown := by
          unfold KernelState.getHandleType
          rw [hfree]
        exact ⟨htyped.symm.trans hunknown, hfree⟩

/-- **Kernel handles are unique and typed**, as long as fewer than `2 ^ 31` have been given out,
in exactly the runs that keep the two tables apart. -/
theorem distinct_run_iff (ops : List HandleOp) :
    AllStates handleStep (fun s => s.InRange → Distinct s) {} ops ↔
      AllSteps handleStep (fun s op => (handleStep s op).InRange → KeepsApart s op) {} ops := by
  refine allStates_iff_allSteps_of (I := fun s => s.InRange → HandlesKept s)
    (fun s hs hrange => (hs hrange).distinct) ?_ ?_ fun _ => handlesKept_empty
  · intro s op _ hs hguard hrange
    exact (handleStep_spec (hs (inRange_of_step hrange)) op hrange).1 (hguard hrange)
  · intro s op _ hs hdistinct hrange
    exact (handleStep_spec (hs (inRange_of_step hrange)) op hrange).2 (hdistinct hrange)

/-- A handle that `AllocHandle` gives out for a file has no type. -/
theorem not_distinct_allocatedFile :
    ¬ ∀ ops : List HandleOp, AllStates handleStep (fun s => s.InRange → Distinct s) {} ops := by
  intro h
  have hdistinct := h [.alloc .File] _ (List.prefix_refl _) (by decide)
  exact absurd (hdistinct.typed _ List.mem_cons_self) (by decide)

end Kept

end KernelRuntime
