/-
# Runs of the runtime manager

`InitAll` looks at dependencies; `InitOne` and `ShutdownOne` do not, although they are
announced to.  For each call, the exact condition under which it leaves every running subsystem
with running dependencies, and from it the runs in which that always holds.
-/
import ChuckStation.OperationRuns
import ChuckStation.RuntimeInit

namespace Runtime

open OperationRuns

/-! ## Calls -/

inductive Op where
  | register (desc : SubsystemDesc)
  | initAll (order : HashOrder) (results : SubsystemId → Bool)
  | initOne (id : SubsystemId) (result : Bool)
  | shutdownOne (id : SubsystemId)
  | shutdownAll

def step (st : RuntimeState) : Op → RuntimeState
  | .register desc => register desc st
  | .initAll order results => (initAll order results st).st
  | .initOne id result => (initOne id result st).2
  | .shutdownOne id => shutdownOne id st
  | .shutdownAll => (shutdownAll st).1

/-! ## What runs, and what it needs -/

/-- The subsystem is registered with this dependency. -/
def Needs (t : Table) (id dep : SubsystemId) : Prop :=
  ∃ e, t.lookup id = some e ∧ dep ∈ e.desc.deps

/-- What runs has all its dependencies running, and so registered. -/
def RunningDeps (t : Table) : Prop :=
  ∀ id dep, isRunning id t = true → Needs t id dep → isRunning dep t = true

/-- That, and what runs is in the list for `ShutdownAll`. -/
structure Kept (st : RuntimeState) : Prop where
  deps : RunningDeps st.entries
  listed : ∀ id, isRunning id st.entries = true → id ∈ st.initOrder

/-- When a call keeps running dependencies:

* `Register` replaces nothing that a running subsystem needs (and nothing at all if the id is
  new);
* `InitAll` starts again what is needed by a running subsystem that it does not come to itself;
* `InitOne` starts a subsystem only when all that it needs runs;
* `ShutdownOne` stops nothing that another running subsystem needs. -/
def Guard (st : RuntimeState) : Op → Prop
  | .register desc => ∀ id, id ≠ desc.id → isRunning id st.entries = true →
      ¬ Needs st.entries id desc.id
  | .initAll _ results => ∀ id dep, isRunning id st.entries = true → ¬ Grounded st.entries id →
      Needs st.entries id dep → Grounded st.entries dep → Starts st.entries results dep
  | .initOne id result => ∀ e, st.entries.lookup id = some e → e.state ≠ .Running →
      initResult (fun _ => result) id e = true → ∀ dep ∈ e.desc.deps,
        dep = id ∨ isRunning dep st.entries = true
  | .shutdownOne id => isRunning id st.entries = true → ∀ other, other ≠ id →
      isRunning other st.entries = true → ¬ Needs st.entries other id
  | .shutdownAll => True

section Effects

variable {t t' : Table} {id other dep : SubsystemId} {e : Entry}

theorem needs_congr (h : (t.lookup id).map Entry.desc = (t'.lookup id).map Entry.desc) :
    Needs t id dep ↔ Needs t' id dep := by
  have hneeds : ∀ t : Table, Needs t id dep ↔
      ∃ d, (t.lookup id).map Entry.desc = some d ∧ dep ∈ d.deps := by
    intro t
    constructor
    · rintro ⟨e, he, hdep⟩
      exact ⟨e.desc, by rw [he]; rfl, hdep⟩
    · rintro ⟨d, hd, hdep⟩
      obtain ⟨e, he, rfl⟩ := Option.map_eq_some_iff.mp hd
      exact ⟨e, he, hdep⟩
  rw [hneeds, hneeds, h]

/-- An entry that is replaced by one with the same descriptor. -/
theorem needs_insert {e' : Entry} (he : t.lookup id = some e) (hdesc : e'.desc = e.desc) :
    Needs (t.insert id e') other dep ↔ Needs t other dep := by
  apply needs_congr
  rw [AList.lookup_insert_ite]
  split_ifs with h
  · rw [h, he, Option.map_some, Option.map_some, hdesc]
  · rfl

theorem Starts.of_needs {results : SubsystemId → Bool} (h : Starts t results id)
    (hdep : Needs t id dep) : Starts t results dep := by
  obtain ⟨e, he, hin⟩ := hdep
  exact ((starts_iff he).mp h).1 dep hin

theorem needs_initAll (order : HashOrder) (results : SubsystemId → Bool) (st : RuntimeState) :
    Needs (initAll order results st).st.entries id dep ↔ Needs st.entries id dep := by
  apply needs_congr
  by_cases hid : Grounded st.entries id
  · obtain ⟨e, he⟩ := hid.exists_lookup
    have hin := ((topoSort_spec order st.entries).2.2 id).mpr hid
    obtain ⟨e', he', hdesc, -⟩ := (initAll_inited order results st).state id e hin he
    rw [he, he', Option.map_some, Option.map_some, hdesc]
  · rw [lookup_initAll_of_not_grounded hid]

end Effects

/-! ## One call -/

section OneCall

variable {st : RuntimeState}

/-- `Register`. -/
theorem runningDeps_register_iff (h : Kept st) (desc : SubsystemDesc) :
    RunningDeps (register desc st).entries ↔ Guard st (.register desc) := by
  have hrunning : ∀ id, isRunning id (register desc st).entries = true ↔
      id ≠ desc.id ∧ isRunning id st.entries = true := by
    intro id
    rw [register, isRunning_insert]
    split_ifs with hid
    · simp [hid]
    · simp [hid]
  have hneeds : ∀ id dep, id ≠ desc.id →
      (Needs (register desc st).entries id dep ↔ Needs st.entries id dep) := by
    intro id dep hid
    apply needs_congr
    rw [register, AList.lookup_insert_ite, if_neg hid]
  constructor
  · intro hall id hid hrun hneed
    have hdep := hall id desc.id ((hrunning id).mpr ⟨hid, hrun⟩) ((hneeds id _ hid).mpr hneed)
    exact ((hrunning _).mp hdep).1 rfl
  · intro hguard id dep hrun hneed
    obtain ⟨hid, hrun⟩ := (hrunning id).mp hrun
    rw [hneeds id dep hid] at hneed
    refine (hrunning dep).mpr ⟨?_, h.deps id dep hrun hneed⟩
    rintro rfl
    exact hguard id hid hrun hneed

/-- `InitAll`. -/
theorem runningDeps_initAll_iff (h : Kept st) (order : HashOrder) (results : SubsystemId → Bool) :
    RunningDeps (initAll order results st).st.entries ↔ Guard st (.initAll order results) := by
  constructor
  · intro hall id dep hrun hid hneed hdep
    have hstays : isRunning id (initAll order results st).st.entries = true := by
      rw [isRunning_initAll_of_not_grounded hid]
      exact hrun
    have hruns := hall id dep hstays ((needs_initAll order results st).mpr hneed)
    rw [isRunning_initAll_of_grounded hdep] at hruns
    exact hruns
  · intro hguard id dep hrun hneed
    rw [needs_initAll] at hneed
    by_cases hid : Grounded st.entries id
    · -- What has been started again has its dependencies started again.
      rw [isRunning_initAll_of_grounded hid] at hrun
      have hdep := hrun.of_needs hneed
      rw [isRunning_initAll_of_grounded hdep.grounded]
      exact hdep
    · rw [isRunning_initAll_of_not_grounded hid] at hrun
      by_cases hdep : Grounded st.entries dep
      · rw [isRunning_initAll_of_grounded hdep]
        exact hguard id dep hrun hid hneed hdep
      · rw [isRunning_initAll_of_not_grounded hdep]
        exact h.deps id dep hrun hneed

/-- What `InitOne` leaves running, and in the list. -/
theorem initOne_cases (id : SubsystemId) (result : Bool) (st : RuntimeState) :
    ((initOne id result st).2 = st ∧
      ∀ e, st.entries.lookup id = some e → e.state ≠ .Running →
        initResult (fun _ => result) id e = true → False) ∨
    (∃ e, st.entries.lookup id = some e ∧ e.state ≠ .Running ∧
      (∀ other dep, Needs (initOne id result st).2.entries other dep ↔
        Needs st.entries other dep) ∧
      ((initResult (fun _ => result) id e = true ∧
          (initOne id result st).2.initOrder = st.initOrder ++ [id] ∧
          ∀ other, isRunning other (initOne id result st).2.entries = true ↔
            other = id ∨ isRunning other st.entries = true) ∨
        (initResult (fun _ => result) id e = false ∧
          (initOne id result st).2.initOrder = st.initOrder ∧
          ∀ other, isRunning other (initOne id result st).2.entries =
            isRunning other st.entries))) := by
  rw [initOne]
  cases he : st.entries.lookup id with
  | none => exact .inl ⟨rfl, fun e h => by cases h⟩
  | some e =>
      dsimp only
      by_cases hstate : e.state = .Running
      · rw [if_pos hstate]
        refine .inl ⟨rfl, fun e' h hne => ?_⟩
        cases h
        exact absurd hstate hne
      · rw [if_neg hstate]
        -- It was not running, so a failure changes nothing about what runs.
        have hrun : isRunning id st.entries = false := by
          rw [isRunning, getState_of_lookup he]
          exact beq_eq_false_iff_ne.mpr hstate
        refine .inr ⟨e, rfl, hstate, fun other dep => needs_insert he rfl, ?_⟩
        show (initResult (fun _ => result) id e = true ∧ _) ∨ _
        cases hresult : initResult (fun _ => result) id e with
        | true =>
            have hok : (if e.desc.init = true then result else true) = true := hresult
            refine .inl ⟨rfl, if_pos hok, fun other => ?_⟩
            dsimp only
            rw [isRunning_insert, if_pos hok]
            split_ifs with hother
            · simp [hother]
            · simp [hother]
        | false =>
            have hok : ¬ (if e.desc.init = true then result else true) = true := by
              show ¬ initResult (fun _ => result) id e = true
              rw [hresult]
              exact Bool.false_ne_true
            refine .inr ⟨rfl, if_neg hok, fun other => ?_⟩
            dsimp only
            rw [isRunning_insert, if_neg hok]
            split_ifs with hother
            · rw [hother, hrun]
              rfl
            · rfl

/-- `InitOne`. -/
theorem runningDeps_initOne_iff (h : Kept st) (id : SubsystemId) (result : Bool) :
    RunningDeps (initOne id result st).2.entries ↔ Guard st (.initOne id result) := by
  rcases initOne_cases id result st with ⟨heq, hnone⟩ | ⟨e, he, hstate, hneeds, hway⟩
  · rw [heq]
    exact iff_of_true h.deps fun e he hne hresult => (hnone e he hne hresult).elim
  rcases hway with ⟨hresult, -, hrunning⟩ | ⟨hresult, -, hrunning⟩
  · constructor
    · intro hall e' he' _ _ dep hdep
      rw [he] at he'
      cases he'
      exact (hrunning dep).mp
        (hall id dep ((hrunning id).mpr (.inl rfl)) ((hneeds id dep).mpr ⟨e, he, hdep⟩))
    · intro hguard other dep hrun hneed
      rw [hneeds] at hneed
      rcases (hrunning other).mp hrun with rfl | hrun
      · obtain ⟨e', he', hdep⟩ := hneed
        rw [he] at he'
        cases he'
        exact (hrunning dep).mpr (hguard e he hstate hresult dep hdep)
      · exact (hrunning dep).mpr (.inr (h.deps other dep hrun hneed))
  · refine iff_of_true (fun other dep hrun hneed => ?_) fun e' he' _ htrue => ?_
    · rw [hrunning] at hrun ⊢
      exact h.deps other dep hrun ((hneeds other dep).mp hneed)
    · rw [he] at he'
      cases he'
      rw [hresult] at htrue
      cases htrue

/-- What `ShutdownOne` leaves running. -/
theorem shutdownOne_spec (id : SubsystemId) (st : RuntimeState) :
    (shutdownOne id st).initOrder = st.initOrder ∧
      (∀ other dep, Needs (shutdownOne id st).entries other dep ↔ Needs st.entries other dep) ∧
      ∀ other, isRunning other (shutdownOne id st).entries = true ↔
        other ≠ id ∧ isRunning other st.entries = true := by
  rw [shutdownOne]
  have hkept : isRunning id st.entries = false → ∀ other, isRunning other st.entries = true ↔
      other ≠ id ∧ isRunning other st.entries = true := by
    intro hrun other
    refine ⟨fun hother => ⟨?_, hother⟩, And.right⟩
    rintro rfl
    rw [hrun] at hother
    cases hother
  cases he : st.entries.lookup id with
  | none =>
      refine ⟨rfl, fun _ _ => Iff.rfl, hkept ?_⟩
      rw [isRunning, getState, he]
      rfl
  | some e =>
      dsimp only
      by_cases hstate : e.state = .Running
      · rw [if_neg (not_not_intro hstate)]
        refine ⟨rfl, fun other dep => needs_insert he rfl, fun other => ?_⟩
        dsimp only
        rw [isRunning_insert]
        split_ifs with hother
        · simp [hother]
        · simp [hother]
      · rw [if_pos hstate]
        refine ⟨rfl, fun _ _ => Iff.rfl, hkept ?_⟩
        rw [isRunning, getState_of_lookup he]
        exact beq_eq_false_iff_ne.mpr hstate

/-- `ShutdownOne`. -/
theorem runningDeps_shutdownOne_iff (h : Kept st) (id : SubsystemId) :
    RunningDeps (shutdownOne id st).entries ↔ Guard st (.shutdownOne id) := by
  obtain ⟨-, hneeds, hrunning⟩ := shutdownOne_spec id st
  constructor
  · intro hall _ other hother hrun hneed
    have hid := hall other id ((hrunning other).mpr ⟨hother, hrun⟩) ((hneeds other id).mpr hneed)
    exact ((hrunning id).mp hid).1 rfl
  · intro hguard other dep hrun hneed
    obtain ⟨hother, hstill⟩ := (hrunning other).mp hrun
    rw [hneeds] at hneed
    have hdep := h.deps other dep hstill hneed
    refine (hrunning dep).mpr ⟨?_, hdep⟩
    rintro rfl
    exact hguard hdep other hother hstill hneed

/-- `ShutdownAll` leaves nothing running. -/
theorem isRunning_shutdownAll (h : Kept st) (id : SubsystemId) :
    isRunning id (shutdownAll st).1.entries = false := by
  rw [← Bool.not_eq_true]
  show ¬ isRunning id (st.initOrder.reverse.foldl shutdownStep (st.entries, [])).1 = true
  rw [(foldl_shutdownStep _ _).2, List.mem_reverse]
  exact fun hand => hand.2 (h.listed id hand.1)

/-- **One call** leaves running subsystems with running dependencies exactly under its guard. -/
theorem runningDeps_step_iff (h : Kept st) (op : Op) :
    RunningDeps (step st op).entries ↔ Guard st op := by
  cases op with
  | register desc => exact runningDeps_register_iff h desc
  | initAll order results => exact runningDeps_initAll_iff h order results
  | initOne id result => exact runningDeps_initOne_iff h id result
  | shutdownOne id => exact runningDeps_shutdownOne_iff h id
  | shutdownAll =>
      refine iff_of_true (fun id dep hrun _ => ?_) trivial
      rw [step, isRunning_shutdownAll h] at hrun
      cases hrun

/-- What runs is in the list, whatever is called. -/
theorem listed_step (h : Kept st) (op : Op) :
    ∀ id, isRunning id (step st op).entries = true → id ∈ (step st op).initOrder := by
  intro id hrun
  cases op with
  | register desc =>
      rw [step, register, isRunning_insert] at hrun
      split_ifs at hrun
      · cases hrun
      · exact h.listed id hrun
  | initAll order results =>
      obtain ⟨new, hnew, -, hmem, -⟩ := (initAll_inited order results st).order
      rw [step] at hrun ⊢
      rw [hnew, List.mem_append]
      by_cases hid : Grounded st.entries id
      · right
        rw [isRunning_initAll_of_grounded hid] at hrun
        exact (hmem id).mpr ⟨((topoSort_spec order st.entries).2.2 id).mpr hid, hrun⟩
      · left
        rw [isRunning_initAll_of_not_grounded hid] at hrun
        exact h.listed id hrun
  | initOne other result =>
      rw [step] at hrun ⊢
      rcases initOne_cases other result st with ⟨heq, -⟩ | ⟨e, -, -, -, hway⟩
      · rw [heq] at hrun ⊢
        exact h.listed id hrun
      rcases hway with ⟨-, horder, hrunning⟩ | ⟨-, horder, hrunning⟩
      · rw [horder, List.mem_append]
        rcases (hrunning id).mp hrun with rfl | hrun
        · exact .inr List.mem_cons_self
        · exact .inl (h.listed id hrun)
      · rw [hrunning] at hrun
        rw [horder]
        exact h.listed id hrun
  | shutdownOne other =>
      obtain ⟨horder, -, hrunning⟩ := shutdownOne_spec other st
      rw [step] at hrun ⊢
      rw [horder]
      exact h.listed id ((hrunning id).mp hrun).2
  | shutdownAll =>
      rw [step, isRunning_shutdownAll h] at hrun
      cases hrun

end OneCall

/-! ## Runs -/

/-- **Running subsystems have running dependencies**, in every state of a run, exactly if every
call of the run meets its guard. -/
theorem runningDeps_run_iff (ops : List Op) :
    AllStates step (fun st => RunningDeps st.entries) {} ops ↔ AllSteps step Guard {} ops := by
  have hstart : Kept {} := by
    refine ⟨fun id dep hrun _ => ?_, fun id hrun => ?_⟩
    · simp [isRunning, getState] at hrun
    · simp [isRunning, getState] at hrun
  refine allStates_iff_allSteps_of (fun st h => h.deps) (fun st op _ h hguard => ?_)
    (fun st op _ h => (runningDeps_step_iff h op).mp) hstart
  exact ⟨(runningDeps_step_iff h op).mpr hguard, listed_step h op⟩

/-- `InitOne` of a subsystem whose dependency has not been started. -/
theorem not_runningDeps_initOne :
    ¬ AllStates step (fun st => RunningDeps st.entries) {}
      [.register { id := 1 }, .register { id := 2, deps := [1] }, .initOne 2 true] := by
  intro h
  have hlast := h _ (List.prefix_refl _)
  have hneeds : Needs ([Op.register { id := 1 }, .register { id := 2, deps := [1] },
      .initOne 2 true].foldl step {}).entries 2 1 :=
    ⟨{ desc := { id := 2, deps := [1] }, state := .Running }, rfl, List.mem_cons_self⟩
  exact absurd (hlast 2 1 rfl hneeds) (by decide)

end Runtime
