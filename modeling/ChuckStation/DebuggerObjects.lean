/-
# The ids of the debugger's objects

Breakpoints and watches are found by an id that the call creating them returned.  Breakpoints take
theirs from two counters, one for conditional breakpoints, and `AddWatchpoint` returns one less
than the id of the watch it adds.

`Handed` runs the calls beside what their callers know, the id returned for every object that is
left.  `identified_run_iff` says for which sequences these ids are good for anything.
-/
import ChuckStation.DebuggerBreakpoints

namespace Debugger

open OperationRuns NumberedList

/-! ## Watches -/

/-- `struct WatchExpression`. -/
structure WatchExpression where
  id : U32 := 0
  name : String := ""
  address : U64 := 0
  size : U64 := 8
  lastValue : U64 := 0
  changed : Bool := false
  deriving DecidableEq, Repr

/-- The two lists of objects. -/
structure Objects where
  sys : System
  watches : List WatchExpression := []
  nextWatchId : U32 := 1

/-- `Init()`, with the interpreter's own. -/
def Objects.fresh (s : System) : Objects := { sys := s.fresh }

/-- `AddWatch(name, address, size)`. -/
def addWatch (o : Objects) (name : String) (address size : U64) : U32 × Objects :=
  let id := o.nextWatchId
  (id, { o with
    nextWatchId := o.nextWatchId + 1
    watches := o.watches ++ [{ id, name, address, size := if 8 < size then 8 else size }] })

/-- `AddWatchpoint(address, size, onRead, onWrite, label)`. -/
def addWatchpoint (o : Objects) (address size : U64) (label : String) : U32 × Objects :=
  let (id, o) := addWatch o label address size
  (if 0 < id then id - 1 else 0, o)

/-- `RemoveWatch(id)`. -/
def removeWatch (o : Objects) (id : U32) : Bool × Objects :=
  match o.watches.find? fun w => w.id == id with
  | none => (false, o)
  | some _ => (true, { o with watches := o.watches.eraseP fun w => w.id == id })

/-- `ClearWatchpoints()`. -/
def clearWatchpoints (o : Objects) : Objects := { o with watches := [] }

/-! ## Sequences of calls -/

/-- A call that creates or removes objects. -/
inductive ObjectCall where
  | setBreakpoint (addr : U64) (label : String)
  | addConditionalBreakpoint (address : U64) (label : String)
  | addWatch (name : String) (address size : U64)
  | addWatchpoint (address size : U64) (label : String)
  | removeBreakpoint (id : U32)
  | removeWatch (id : U32)
  | clearAllBreakpoints
  | clearWatchpoints

/-- The objects, and the ids that were returned for those that are left. -/
structure Handed where
  objects : Objects
  bpIds : List U32 := []
  watchIds : List U32 := []

namespace Handed

abbrev breakpoints (s : Handed) : List BreakpointEntry := s.objects.sys.dbg.breakpoints

abbrev watches (s : Handed) : List WatchExpression := s.objects.watches

/-- A call, and what its caller writes down. -/
def step (s : Handed) : ObjectCall → Handed
  | .setBreakpoint addr label =>
      let (id, sys) := setBreakpoint s.objects.sys addr label
      { s with objects.sys := sys, bpIds := s.bpIds ++ [id] }
  | .addConditionalBreakpoint address label =>
      let (id, sys) := addConditionalBreakpoint s.objects.sys address label
      { s with objects.sys := sys, bpIds := s.bpIds ++ [id] }
  | .addWatch name address size =>
      let (id, objects) := addWatch s.objects name address size
      { s with objects, watchIds := s.watchIds ++ [id] }
  | .addWatchpoint address size label =>
      let (id, objects) := addWatchpoint s.objects address size label
      { s with objects, watchIds := s.watchIds ++ [id] }
  | .removeBreakpoint id =>
      { s with
        objects.sys := (removeBreakpoint s.objects.sys id).2
        bpIds := s.bpIds.erase id }
  | .removeWatch id =>
      { s with objects := (removeWatch s.objects id).2, watchIds := s.watchIds.erase id }
  | .clearAllBreakpoints =>
      { s with objects.sys := clearAllBreakpoints s.objects.sys, bpIds := [] }
  | .clearWatchpoints => { s with objects := clearWatchpoints s.objects, watchIds := [] }

/-- The id returned for an object identifies it among the objects of its kind that are left, and
removes it and nothing else. -/
structure Identified (s : Handed) : Prop where
  breakpoints : Identifies BreakpointEntry.id s.breakpoints s.bpIds
  watches : Identifies WatchExpression.id s.watches s.watchIds
  removeBreakpoint : ∀ (i : ℕ) (id : U32), s.bpIds[i]? = some id →
    (removeBreakpoint s.objects.sys id).1 = true ∧
      (removeBreakpoint s.objects.sys id).2.dbg.breakpoints = s.breakpoints.eraseIdx i
  removeWatch : ∀ (i : ℕ) (id : U32), s.watchIds[i]? = some id →
    (removeWatch s.objects id).1 = true ∧
      (removeWatch s.objects id).2.watches = s.watches.eraseIdx i

/-- When a call leaves the ids good: what its counter gives out is not the id of an object of the
kind, and `AddWatchpoint` only where there is nothing to subtract from. -/
def Guarded (s : Handed) : ObjectCall → Prop
  | .setBreakpoint _ _ => ∀ b ∈ s.breakpoints, b.id ≠ s.objects.sys.dbg.nextBpId
  | .addConditionalBreakpoint _ _ => ∀ b ∈ s.breakpoints, b.id ≠ s.objects.sys.dbg.nextCondBpId
  | .addWatch _ _ _ => ∀ w ∈ s.watches, w.id ≠ s.objects.nextWatchId
  | .addWatchpoint _ _ _ => s.objects.nextWatchId = 0 ∧ ∀ w ∈ s.watches, w.id ≠ 0
  | .removeBreakpoint _ | .removeWatch _ | .clearAllBreakpoints | .clearWatchpoints => True

section Steps

variable {s : Handed}

theorem breakpoints_removeBreakpoint (sys : System) (id : U32) :
    (Debugger.removeBreakpoint sys id).2.dbg.breakpoints =
      sys.dbg.breakpoints.eraseP fun b => b.id == id := by
  unfold Debugger.removeBreakpoint
  cases hfind : sys.dbg.breakpoints.find? fun b => b.id == id with
  | none => exact (List.eraseP_of_forall_not (List.find?_eq_none.mp hfind)).symm
  | some b => rfl

theorem watches_removeWatch (o : Objects) (id : U32) :
    (Debugger.removeWatch o id).2.watches = o.watches.eraseP fun w => w.id == id := by
  unfold Debugger.removeWatch
  cases hfind : o.watches.find? fun w => w.id == id with
  | none => exact (List.eraseP_of_forall_not (List.find?_eq_none.mp hfind)).symm
  | some w => rfl

/-- Ids that identify are ids to remove by. -/
theorem identified_iff : Identified s ↔ Identifies BreakpointEntry.id s.breakpoints s.bpIds ∧
    Identifies WatchExpression.id s.watches s.watchIds := by
  refine ⟨fun h => ⟨h.breakpoints, h.watches⟩, fun ⟨hbps, hwatches⟩ => ⟨hbps, hwatches, ?_, ?_⟩⟩
  · intro i id hid
    rw [breakpoints_removeBreakpoint, hbps.eraseP_eq hid]
    obtain ⟨b, hfind⟩ := hbps.exists_find? hid
    refine ⟨?_, rfl⟩
    simp only [Debugger.removeBreakpoint, hfind]
  · intro i id hid
    rw [watches_removeWatch, hwatches.eraseP_eq hid]
    obtain ⟨w, hfind⟩ := hwatches.exists_find? hid
    refine ⟨?_, rfl⟩
    simp only [Debugger.removeWatch, hfind]

/-- A new object under the number its counter gave out. -/
theorem identifies_append_self_iff {α : Type} {number : α → U32} {l : List α} {given : List U32}
    {x : α} (h : Identifies number l given) :
    Identifies number (l ++ [x]) (given ++ [number x]) ↔ ∀ y ∈ l, number y ≠ number x := by
  rw [identifies_append_iff h, and_iff_right rfl, ← (identifies_iff.mp h).1, List.mem_map]
  simp only [not_exists, not_and, ne_eq]

/-- One less is the same id only where nothing is subtracted. -/
theorem eq_sub_one_iff (n : U32) : (n = if 0 < n then n - 1 else 0) ↔ n = 0 := by
  by_cases hn : 0 < n
  · rw [if_pos hn]
    constructor
    · intro heq
      have hone : (1 : U32) = 0 := by simpa using (sub_eq_self (a := n)).mp heq.symm
      exact absurd hone (by decide)
    · rintro rfl
      exact absurd hn (by decide)
  · rw [if_neg hn]

/-- **One call**, exactly. -/
theorem identified_step_iff (c : ObjectCall) (h : Identified s) :
    Identified (s.step c) ↔ Guarded s c := by
  obtain ⟨hbps, hwatches⟩ := identified_iff.mp h
  rw [identified_iff]
  cases c with
  | setBreakpoint addr label =>
      exact (and_iff_left hwatches).trans (identifies_append_self_iff hbps)
  | addConditionalBreakpoint address label =>
      exact (and_iff_left hwatches).trans (identifies_append_self_iff hbps)
  | addWatch name address size =>
      exact (and_iff_right hbps).trans (identifies_append_self_iff hwatches)
  | addWatchpoint address size label =>
      refine (and_iff_right hbps).trans ((identifies_append_iff hwatches).trans ?_)
      change s.objects.nextWatchId = (if 0 < s.objects.nextWatchId then s.objects.nextWatchId - 1
        else 0) ∧ (if 0 < s.objects.nextWatchId then s.objects.nextWatchId - 1 else 0) ∉
          s.watchIds ↔ s.objects.nextWatchId = 0 ∧ ∀ w ∈ s.watches, w.id ≠ 0
      rw [eq_sub_one_iff, ← (identifies_iff.mp hwatches).1]
      refine and_congr_right fun hzero => ?_
      rw [hzero, if_neg (by decide), List.mem_map]
      simp only [not_exists, not_and, ne_eq]
  | removeBreakpoint id =>
      refine iff_of_true ⟨?_, hwatches⟩ trivial
      change Identifies _ (Debugger.removeBreakpoint s.objects.sys id).2.dbg.breakpoints _
      rw [breakpoints_removeBreakpoint]
      exact hbps.eraseP id
  | removeWatch id =>
      have hsys : (Debugger.removeWatch s.objects id).2.sys = s.objects.sys := by
        unfold Debugger.removeWatch
        split <;> rfl
      refine iff_of_true ⟨?_, ?_⟩ trivial
      · change Identifies _ (Debugger.removeWatch s.objects id).2.sys.dbg.breakpoints _
        rw [hsys]
        exact hbps
      · change Identifies _ (Debugger.removeWatch s.objects id).2.watches _
        rw [watches_removeWatch]
        exact hwatches.eraseP id
  | clearAllBreakpoints => exact iff_of_true ⟨identifies_nil, hwatches⟩ trivial
  | clearWatchpoints => exact iff_of_true ⟨hbps, identifies_nil⟩ trivial

end Steps

end Handed

/-- Nothing is handed out by a debugger freshly initialised. -/
def Handed.fresh (s : System) : Handed := { objects := Objects.fresh s }

theorem identified_fresh (s : System) : (Handed.fresh s).Identified :=
  Handed.identified_iff.mpr ⟨identifies_nil, identifies_nil⟩

/-- **Ids, exactly.**  After every call of a sequence the id returned for each object that is left
identifies it and removes it alone, if and only if every call of the sequence is guarded: no
counter gives out the id of an object that is left, and `AddWatchpoint` is called only with its
counter at zero. -/
theorem identified_run_iff (s : System) (calls : List ObjectCall) :
    AllStates Handed.step Handed.Identified (Handed.fresh s) calls ↔
      AllSteps Handed.step Handed.Guarded (Handed.fresh s) calls :=
  allStates_iff_allSteps (fun _ c h => Handed.identified_step_iff c h) (identified_fresh s)

/-- A watch and a watchpoint, both under the id 1: removing the watchpoint removes the watch. -/
theorem not_identified_watchpoint :
    ¬ ∀ (s : System) (calls : List ObjectCall),
      Handed.Identified (calls.foldl Handed.step (Handed.fresh s)) := by
  intro h
  have hid := h ⟨{}, {}⟩ [.addWatch "rax" 0x1000 8, .addWatchpoint 0x2000 8 "stack"]
  have hremoved := (hid.removeWatch 1 1 rfl).2
  exact absurd hremoved (by decide)

end Debugger
