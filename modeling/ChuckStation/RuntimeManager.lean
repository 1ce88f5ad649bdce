/-
# Runtime manager

`Runtime.cpp` without names and timings: the table of subsystems and the calls that register,
start and stop them.  What an init function returns is told by the caller of a definition; init
and shutdown functions do not call back.  Hash maps are gone over in an order of their own,
which is a parameter too.
-/
import ChuckStation.AssociationLists
import ChuckStation.Bytes
import ChuckStation.TopologicalSort

namespace Runtime

/-! ## Data model -/

/-- `enum class SubsystemId`; any 32-bit value can be one. -/
abbrev SubsystemId := U32

/-- `enum class SubsystemState`. -/
inductive SubsystemState where
  | Unregistered
  | Registered
  | Initialising
  | Running
  | ShuttingDown
  | Stopped
  | Failed
  deriving DecidableEq, Repr

/-- `struct SubsystemDesc`; of its functions, whether they are there. -/
structure SubsystemDesc where
  id : SubsystemId
  init : Bool := true
  shutdown : Bool := true
  deps : List SubsystemId := []
  optional : Bool := false
  deriving DecidableEq, Repr

/-- `struct Entry`. -/
structure Entry where
  desc : SubsystemDesc
  state : SubsystemState := .Unregistered
  failReason : String := ""
  deriving DecidableEq, Repr

abbrev Table := AList fun _ : SubsystemId => Entry

/-- `struct RuntimeState`. -/
structure RuntimeState where
  entries : Table := ∅
  initOrder : List SubsystemId := []

/-- A function of a subsystem is called; and how the table is at that moment. -/
structure Call where
  id : SubsystemId
  table : Table

/-! ## Queries -/

/-- `GetState`. -/
def getState (id : SubsystemId) (t : Table) : SubsystemState :=
  match t.lookup id with
  | none => .Unregistered
  | some e => e.state

/-- `IsRunning`. -/
def isRunning (id : SubsystemId) (t : Table) : Bool := getState id t == .Running

/-! ## The order -/

/-- How the two hash maps of `TopoSort` are gone over, for any table. -/
structure HashOrder where
  entries : Table → List (Sigma fun _ : SubsystemId => Entry)
  inDegree : Table → List SubsystemId
  entries_perm : ∀ t, (entries t).Perm t.entries
  inDegree_perm : ∀ t, (inDegree t).Perm t.keys

/-- The order in which the list has them. -/
def listOrder : HashOrder where
  entries t := t.entries
  inDegree t := t.keys
  entries_perm _ := List.Perm.refl _
  inDegree_perm _ := List.Perm.refl _

/-- `TopoSort`. -/
def topoSort (order : HashOrder) (t : Table) : List SubsystemId :=
  TopologicalSort.topoSort ((order.entries t).map fun e => (e.1, e.2.desc.deps))
    (order.inDegree t)

/-! ## Calls -/

/-- `Register`. -/
def register (desc : SubsystemDesc) (st : RuntimeState) : RuntimeState :=
  { st with entries := st.entries.insert desc.id { desc := desc, state := .Registered } }

/-- The variables of `InitAll`. -/
structure InitRun where
  st : RuntimeState
  ok : Bool := true
  calls : List Call := []

/-- What comes of `init`: a function that is not there counts as one that returns `true`. -/
def initResult (results : SubsystemId → Bool) (id : SubsystemId) (e : Entry) : Bool :=
  if e.desc.init then results id else true

/-- The loop body of `InitAll`. -/
def initStep (results : SubsystemId → Bool) (run : InitRun) (id : SubsystemId) : InitRun :=
  match run.st.entries.lookup id with
  | none => run
  | some e =>
    let depsOk := e.desc.deps.all fun dep => isRunning dep run.st.entries
    if !depsOk && !e.desc.optional then
      let failed := { e with state := .Failed, failReason := "dependency not running" }
      { run with
        st := { run.st with entries := run.st.entries.insert id failed }
        ok := false }
    else
      let entries := run.st.entries.insert id { e with state := .Initialising }
      if !depsOk then { run with st := { run.st with entries := entries } }
      else
        let calls := if e.desc.init then run.calls ++ [⟨id, entries⟩] else run.calls
        if initResult results id e then
          { st :=
              { entries := entries.insert id { e with state := .Running }
                initOrder := run.st.initOrder ++ [id] }
            ok := run.ok
            calls := calls }
        else
          let failed := { e with state := .Failed, failReason := "init() returned false" }
          { st := { run.st with entries := entries.insert id failed }
            ok := if e.desc.optional then run.ok else false
            calls := calls }

/-- `InitAll`. -/
def initAll (order : HashOrder) (results : SubsystemId → Bool) (st : RuntimeState) : InitRun :=
  (topoSort order st.entries).foldl (initStep results) { st := st }

/-- The loop body of `ShutdownAll`. -/
def shutdownStep (run : Table × List Call) (id : SubsystemId) : Table × List Call :=
  match run.1.lookup id with
  | none => run
  | some e =>
    if e.state ≠ .Running then run
    else
      let t := run.1.insert id { e with state := .ShuttingDown }
      (t.insert id { e with state := .Stopped },
        if e.desc.shutdown then run.2 ++ [⟨id, t⟩] else run.2)

/-- `ShutdownAll`. -/
def shutdownAll (st : RuntimeState) : RuntimeState × List Call :=
  match st.initOrder.reverse.foldl shutdownStep (st.entries, []) with
  | (t, calls) => ({ entries := t, initOrder := [] }, calls)

/-- `Reset`. -/
def reset (_ : RuntimeState) : RuntimeState := {}

/-- `InitOne`; `result` is what its init function would return. -/
def initOne (id : SubsystemId) (result : Bool) (st : RuntimeState) : Bool × RuntimeState :=
  match st.entries.lookup id with
  | none => (false, st)
  | some e =>
    if e.state = .Running then (true, st)
    else
      let ok := if e.desc.init then result else true
      let e := { e with state := if ok then .Running else .Failed }
      (ok,
        { entries := st.entries.insert id e
          initOrder := if ok then st.initOrder ++ [id] else st.initOrder })

/-- `ShutdownOne`. -/
def shutdownOne (id : SubsystemId) (st : RuntimeState) : RuntimeState :=
  match st.entries.lookup id with
  | none => st
  | some e =>
    if e.state ≠ .Running then st
    else { st with entries := st.entries.insert id { e with state := .Stopped } }

/-! ## What the sort gives -/

section Order

variable {t : Table} {id : SubsystemId} {e e' : Entry}

theorem isRunning_iff : isRunning id t = true ↔ ∃ e, t.lookup id = some e ∧ e.state = .Running := by
  rw [isRunning, getState, beq_iff_eq]
  cases t.lookup id with
  | none => simp
  | some e => simp

theorem isRunning_insert (t : Table) (id other : SubsystemId) (e : Entry) :
    isRunning other (t.insert id e) =
      if other = id then e.state == .Running else isRunning other t := by
  rw [isRunning, getState, AList.lookup_insert_ite]
  split_ifs with h
  · rfl
  · rfl

/-- The subsystem is registered, and so are all that it needs, without a cycle. -/
inductive Grounded (t : Table) : SubsystemId → Prop
  | intro {id : SubsystemId} {e : Entry} (h : t.lookup id = some e)
      (hdeps : ∀ dep ∈ e.desc.deps, Grounded t dep) : Grounded t id

theorem Grounded.exists_lookup (h : Grounded t id) : ∃ e, t.lookup id = some e := by
  cases h with
  | intro h _ => exact ⟨_, h⟩

theorem Grounded.deps (h : Grounded t id) (he : t.lookup id = some e) :
    ∀ dep ∈ e.desc.deps, Grounded t dep := by
  cases h with
  | intro h hdeps =>
      rw [h] at he
      cases he
      exact hdeps

theorem mem_visit_iff (order : HashOrder) {deps : List SubsystemId} :
    (id, deps) ∈ ((order.entries t).map fun e => (e.1, e.2.desc.deps)) ↔
      ∃ e, t.lookup id = some e ∧ e.desc.deps = deps := by
  rw [List.mem_map]
  constructor
  · rintro ⟨⟨other, e⟩, he, heq⟩
    cases heq
    exact ⟨e, AList.mem_lookup_iff.mpr ((order.entries_perm t).mem_iff.mp he), rfl⟩
  · rintro ⟨e, he, rfl⟩
    exact ⟨⟨id, e⟩, (order.entries_perm t).mem_iff.mpr (AList.mem_lookup_iff.mp he), rfl⟩

/-- **`TopoSort`**: the grounded subsystems, once each, behind what they need. -/
theorem topoSort_spec (order : HashOrder) (t : Table) :
    (topoSort order t).Nodup ∧
      (∀ pre id post e, topoSort order t = pre ++ id :: post → t.lookup id = some e →
        ∀ dep ∈ e.desc.deps, dep ∈ pre) ∧
      ∀ id, id ∈ topoSort order t ↔ Grounded t id := by
  have hkeys : ((order.entries t).map fun e => (e.1, e.2.desc.deps)).map Prod.fst =
      (order.entries t).map Sigma.fst := by
    rw [List.map_map]
    rfl
  have hperm : ((order.entries t).map Sigma.fst).Perm t.keys := (order.entries_perm t).map _
  have hnodup : (((order.entries t).map fun e => (e.1, e.2.desc.deps)).map Prod.fst).Nodup := by
    rw [hkeys]
    exact hperm.nodup_iff.mpr t.nodupKeys
  obtain ⟨hsort, hclosed, hmem⟩ := TopologicalSort.topoSort_spec hnodup
    (hkeys ▸ (order.inDegree_perm t).trans hperm.symm)
  refine ⟨hsort, fun pre id post e heq he => ?_, fun id => ?_⟩
  · exact hclosed pre id post e.desc.deps heq ((mem_visit_iff order).mpr ⟨e, he, rfl⟩)
  · rw [topoSort, hmem]
    constructor
    · intro h
      induction h with
      | intro hk _ ih =>
          obtain ⟨e, he, rfl⟩ := (mem_visit_iff order).mp hk
          exact .intro he ih
    · intro h
      induction h with
      | intro h _ ih => exact .intro ((mem_visit_iff order).mpr ⟨_, h, rfl⟩) ih

end Order

end Runtime
