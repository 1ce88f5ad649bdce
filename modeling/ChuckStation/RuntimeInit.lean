/-
# What `InitAll` and `ShutdownAll` do

`InitAll` comes to every grounded subsystem once, behind all that it needs.  When it comes to
one, the states of its dependencies are final; so what becomes of it is settled by the results
of the init functions alone.  `ShutdownAll` goes back over what has started.
-/
import ChuckStation.RuntimeManager

namespace Runtime

/-! ## What becomes of a subsystem -/

/-- The subsystem and all that it needs can be started. -/
inductive Starts (t : Table) (results : SubsystemId → Bool) : SubsystemId → Prop
  | intro {id : SubsystemId} {e : Entry} (h : t.lookup id = some e)
      (hresult : initResult results id e = true)
      (hdeps : ∀ dep ∈ e.desc.deps, Starts t results dep) : Starts t results id

/-- All that the subsystem needs can be started. -/
def DepsStart (t : Table) (results : SubsystemId → Bool) (e : Entry) : Prop :=
  ∀ dep ∈ e.desc.deps, Starts t results dep

/-- The state of a subsystem after its turn in the loop of `InitAll`. -/
def verdict (depsOk result optional : Bool) : SubsystemState :=
  if depsOk then
    if result then .Running else .Failed
  else if optional then .Initialising
  else .Failed

open Classical in
/-- The same, as the table and the results settle it. -/
noncomputable def stateAfter (t : Table) (results : SubsystemId → Bool) (id : SubsystemId)
    (e : Entry) : SubsystemState :=
  verdict (decide (DepsStart t results e)) (initResult results id e) e.desc.optional

section States

variable {t : Table} {results : SubsystemId → Bool} {id : SubsystemId} {e : Entry}

theorem verdict_eq_running_iff {depsOk result optional : Bool} :
    verdict depsOk result optional = .Running ↔ depsOk = true ∧ result = true := by
  cases depsOk <;> cases result <;> cases optional <;> simp [verdict]

theorem verdict_eq_initialising_iff {depsOk result optional : Bool} :
    verdict depsOk result optional = .Initialising ↔ depsOk = false ∧ optional = true := by
  cases depsOk <;> cases result <;> cases optional <;> simp [verdict]

theorem verdict_ne_registered {depsOk result optional : Bool} :
    verdict depsOk result optional ≠ .Registered := by
  cases depsOk <;> cases result <;> cases optional <;> simp [verdict]

theorem starts_iff (he : t.lookup id = some e) :
    Starts t results id ↔ DepsStart t results e ∧ initResult results id e = true := by
  constructor
  · intro h
    cases h with
    | intro h hresult hdeps =>
        rw [h] at he
        cases he
        exact ⟨hdeps, hresult⟩
  · rintro ⟨hdeps, hresult⟩
    exact .intro he hresult hdeps

theorem Starts.grounded (h : Starts t results id) : Grounded t id := by
  induction h with
  | intro h _ _ ih => exact .intro h ih

open Classical in
theorem stateAfter_eq_running_iff (he : t.lookup id = some e) :
    stateAfter t results id e = .Running ↔ Starts t results id := by
  rw [starts_iff he, stateAfter, verdict_eq_running_iff, decide_eq_true_eq]

end States

/-! ## One turn of the loop -/

/-- What one turn does to a subsystem that is registered. -/
theorem initStep_turn (results : SubsystemId → Bool) {run : InitRun} {id : SubsystemId} {e : Entry}
    (he : run.st.entries.lookup id = some e) {depsOk : Bool}
    (hdeps : (e.desc.deps.all fun dep => isRunning dep run.st.entries) = depsOk) :
    (∃ e', e'.desc = e.desc ∧
      e'.state = verdict depsOk (initResult results id e) e.desc.optional ∧
      ∀ other, (initStep results run id).st.entries.lookup other =
        if other = id then some e' else run.st.entries.lookup other) ∧
    ((initStep results run id).st.initOrder =
      if depsOk && initResult results id e then run.st.initOrder ++ [id]
      else run.st.initOrder) ∧
    ((initStep results run id).ok =
      (run.ok && (e.desc.optional || (depsOk && initResult results id e)))) ∧
    ∃ table : Table, (∀ other, other ≠ id → table.lookup other = run.st.entries.lookup other) ∧
      (initStep results run id).calls =
        if depsOk && e.desc.init then run.calls ++ [⟨id, table⟩] else run.calls := by
  have htable : ∀ other, other ≠ id →
      (run.st.entries.insert id { e with state := .Initialising }).lookup other =
        run.st.entries.lookup other := by
    intro other hne
    rw [AList.lookup_insert_ite, if_neg hne]
  -- It is written twice in one turn, and the second time counts.
  have htwice : ∀ (e₁ e₂ : Entry) (other : SubsystemId),
      ((run.st.entries.insert id e₁).insert id e₂).lookup other =
        if other = id then some e₂ else run.st.entries.lookup other := by
    intro e₁ e₂ other
    rw [AList.lookup_insert_ite, AList.lookup_insert_ite]
    split_ifs <;> rfl
  rw [initStep, he]
  dsimp only
  rw [hdeps]
  cases depsOk with
  | false =>
      cases hoptional : e.desc.optional with
      | false =>
          let failed : Entry := { e with state := .Failed, failReason := "dependency not running" }
          refine ⟨⟨failed, rfl, rfl, fun other => AList.lookup_insert_ite _ _ _ _⟩, rfl, ?_, _,
            htable, rfl⟩
          exact (Bool.and_false _).symm
      | true =>
          let left : Entry := { e with state := .Initialising }
          refine ⟨⟨left, rfl, rfl, fun other => AList.lookup_insert_ite _ _ _ _⟩, rfl, ?_, _,
            htable, rfl⟩
          exact (Bool.and_true _).symm
  | true =>
      cases hresult : initResult results id e with
      | false =>
          let failed : Entry := { e with state := .Failed, failReason := "init() returned false" }
          refine ⟨⟨failed, rfl, rfl, fun other => htwice _ _ other⟩, rfl, ?_, _, htable, rfl⟩
          cases hoptional : e.desc.optional with
          | false => exact (Bool.and_false _).symm
          | true => exact (Bool.and_true _).symm
      | true =>
          let started : Entry := { e with state := .Running }
          refine ⟨⟨started, rfl, rfl, fun other => htwice _ _ other⟩, rfl, ?_, _, htable, rfl⟩
          cases e.desc.optional <;> exact (Bool.and_true _).symm

/-! ## The loop of `InitAll` -/

/-- How things are when the loop has come to the subsystems in `reached`, on a table that was
`t`, when those in `before` had been started earlier. -/
structure Inited (t : Table) (results : SubsystemId → Bool) (before reached : List SubsystemId)
    (run : InitRun) : Prop where
  others : ∀ id, id ∉ reached → run.st.entries.lookup id = t.lookup id
  state : ∀ id e, id ∈ reached → t.lookup id = some e →
    ∃ e', run.st.entries.lookup id = some e' ∧ e'.desc = e.desc ∧
      e'.state = stateAfter t results id e
  order : ∃ new, run.st.initOrder = before ++ new ∧ new.Sublist reached ∧
    (∀ id, id ∈ new ↔ id ∈ reached ∧ Starts t results id) ∧
    new.filter (fun id => (t.lookup id).any fun e => e.desc.init) =
      (run.calls.map Call.id).filter fun id => isRunning id run.st.entries
  ok : run.ok = true ↔
    ∀ id e, id ∈ reached → t.lookup id = some e → e.desc.optional = false → Starts t results id
  calls : (run.calls.map Call.id).Sublist reached ∧ ∀ call ∈ run.calls,
    ∃ e, t.lookup call.id = some e ∧ ∀ dep ∈ e.desc.deps, isRunning dep call.table = true

section Loop

variable {t : Table} {results : SubsystemId → Bool} {before reached : List SubsystemId}
  {run : InitRun} {id : SubsystemId} {e : Entry}

/-- Of what the loop has come to, that runs which starts. -/
theorem Inited.isRunning_iff (h : Inited t results before reached run) (hid : id ∈ reached)
    (he : t.lookup id = some e) : isRunning id run.st.entries = true ↔ Starts t results id := by
  obtain ⟨e', he', -, hstate⟩ := h.state id e hid he
  rw [Runtime.isRunning_iff, he', ← stateAfter_eq_running_iff he, ← hstate]
  simp

open Classical in
/-- What the check of the dependencies finds. -/
theorem Inited.depsOk (h : Inited t results before reached run)
    (hdeps : ∀ dep ∈ e.desc.deps, dep ∈ reached)
    (hknown : ∀ dep ∈ reached, ∃ e, t.lookup dep = some e) :
    (e.desc.deps.all fun dep => isRunning dep run.st.entries) =
      decide (DepsStart t results e) := by
  rw [Bool.eq_iff_iff, List.all_eq_true, decide_eq_true_eq]
  refine forall₂_congr fun dep hdep => ?_
  obtain ⟨e', he'⟩ := hknown dep (hdeps dep hdep)
  exact h.isRunning_iff (hdeps dep hdep) he'

theorem isRunning_congr {t t' : Table} (h : t.lookup id = t'.lookup id) :
    isRunning id t = isRunning id t' := by
  rw [isRunning, isRunning, getState, getState, h]

theorem inited_start (t : Table) (results : SubsystemId → Bool) (before : List SubsystemId) :
    Inited t results before [] { st := ⟨t, before⟩ } where
  others _ _ := rfl
  state _ _ hid := absurd hid List.not_mem_nil
  order := ⟨[], (List.append_nil _).symm, List.nil_sublist _, by simp, rfl⟩
  ok := by simp
  calls := ⟨List.nil_sublist _, by simp⟩

open Classical in
/-- What the loop tests to see whether the subsystem has started. -/
theorem decide_depsStart_iff (he : t.lookup id = some e) :
    (decide (DepsStart t results e) && initResult results id e) = true ↔ Starts t results id := by
  rw [starts_iff he, Bool.and_eq_true, decide_eq_true_eq]

section Turn

variable (h : Inited t results before reached run) (hid : id ∉ reached)
  (he : t.lookup id = some e) (hdeps : ∀ dep ∈ e.desc.deps, dep ∈ reached)
  (hknown : ∀ dep ∈ reached, ∃ e, t.lookup dep = some e)

include h hid he hdeps hknown

/-- One turn starts the subsystem or not, and no other. -/
theorem Inited.isRunning_turn :
    (∀ other ∈ reached, isRunning other (initStep results run id).st.entries =
      isRunning other run.st.entries) ∧
    (isRunning id (initStep results run id).st.entries = true ↔ Starts t results id) := by
  obtain ⟨⟨e', -, hstate, hlookup⟩, -⟩ :=
    initStep_turn results ((h.others id hid).trans he) (h.depsOk hdeps hknown)
  constructor
  · intro other hin
    apply isRunning_congr
    rw [hlookup, if_neg (ne_of_mem_of_not_mem hin hid)]
  · rw [Runtime.isRunning_iff, hlookup, if_pos rfl, ← stateAfter_eq_running_iff he]
    simp only [Option.some.injEq, exists_eq_left', hstate, stateAfter]

open Classical in
/-- The order after one turn. -/
theorem Inited.order_turn :
    ∃ new, (initStep results run id).st.initOrder = before ++ new ∧
      new.Sublist (reached ++ [id]) ∧
      (∀ other, other ∈ new ↔ other ∈ reached ++ [id] ∧ Starts t results other) ∧
      new.filter (fun id => (t.lookup id).any fun e => e.desc.init) =
        ((initStep results run id).calls.map Call.id).filter fun other =>
          isRunning other (initStep results run id).st.entries := by
  obtain ⟨-, horder, -, table, -, hcalls⟩ :=
    initStep_turn results ((h.others id hid).trans he) (h.depsOk hdeps hknown)
  obtain ⟨hsame, hnow⟩ := h.isRunning_turn hid he hdeps hknown
  obtain ⟨new, hnew, hsub, hmem, hfilter⟩ := h.order
  -- The calls from before are about other subsystems, whose states stay.
  have holdFilter : (run.calls.map Call.id).filter
      (fun other => isRunning other (initStep results run id).st.entries) =
        (run.calls.map Call.id).filter fun other => isRunning other run.st.entries :=
    List.filter_congr fun other hin => hsame other (h.calls.1.subset hin)
  have hinit : ((t.lookup id).any fun e => e.desc.init) = e.desc.init := by
    rw [he]
    rfl
  by_cases hst : Starts t results id
  · have hdepsStart := ((starts_iff he).mp hst).1
    refine ⟨new ++ [id], ?_, hsub.append (List.Sublist.refl _), fun other => ?_, ?_⟩
    · rw [horder, if_pos ((decide_depsStart_iff he).mpr hst), hnew, List.append_assoc]
    · simp only [List.mem_append, List.mem_singleton, hmem]
      constructor
      · rintro (⟨hin, hs⟩ | rfl)
        · exact ⟨.inl hin, hs⟩
        · exact ⟨.inr rfl, hst⟩
      · rintro ⟨hin | rfl, hs⟩
        · exact .inl ⟨hin, hs⟩
        · exact .inr rfl
    · rw [List.filter_append, hfilter, hcalls, decide_eq_true hdepsStart, Bool.true_and]
      cases hfn : e.desc.init with
      | true =>
          rw [if_pos rfl, List.map_append, List.filter_append, holdFilter]
          congr 1
          rw [List.map_singleton, List.filter_singleton, List.filter_singleton, hinit, hfn,
            hnow.mpr hst]
      | false =>
          -- It runs without a call.
          rw [if_neg Bool.false_ne_true, holdFilter, List.filter_singleton, hinit, hfn]
          exact List.append_nil _
  · refine ⟨new, ?_, hsub.trans (List.sublist_append_left _ _), fun other => ?_, ?_⟩
    · rw [horder, if_neg fun htrue => hst ((decide_depsStart_iff he).mp htrue), hnew]
    · simp only [List.mem_append, List.mem_singleton, hmem]
      constructor
      · rintro ⟨hin, hs⟩
        exact ⟨.inl hin, hs⟩
      · rintro ⟨hin | rfl, hs⟩
        · exact ⟨hin, hs⟩
        · exact absurd hs hst
    · rw [hfilter, hcalls]
      split_ifs
      · -- A call that failed is filtered out again.
        rw [List.map_append, List.filter_append, holdFilter, List.map_singleton,
          List.filter_singleton, Bool.eq_false_iff.mpr fun hr => hst (hnow.mp hr)]
        exact (List.append_nil _).symm
      · exact holdFilter.symm

open Classical in
/-- The result after one turn. -/
theorem Inited.ok_turn :
    (initStep results run id).ok = true ↔
      ∀ other e, other ∈ reached ++ [id] → t.lookup other = some e → e.desc.optional = false →
        Starts t results other := by
  obtain ⟨-, -, hok, -⟩ :=
    initStep_turn results ((h.others id hid).trans he) (h.depsOk hdeps hknown)
  rw [hok, Bool.and_eq_true, h.ok, Bool.or_eq_true, decide_depsStart_iff he]
  constructor
  · rintro ⟨hall, hlast⟩ other e₁ hin he₁ hrequired
    rcases List.mem_append.mp hin with hin | hin
    · exact hall other e₁ hin he₁ hrequired
    · rw [List.mem_singleton] at hin
      subst hin
      rw [he] at he₁
      cases he₁
      rw [hrequired] at hlast
      exact hlast.resolve_left Bool.false_ne_true
  · intro hall
    refine ⟨fun other e₁ hin => hall other e₁ (List.mem_append_left _ hin), ?_⟩
    cases hoptional : e.desc.optional with
    | true => exact .inl rfl
    | false =>
        exact .inr (hall id e (List.mem_append_right _ List.mem_cons_self) he hoptional)

open Classical in
/-- The calls after one turn. -/
theorem Inited.calls_turn :
    ((initStep results run id).calls.map Call.id).Sublist (reached ++ [id]) ∧
      ∀ call ∈ (initStep results run id).calls,
        ∃ e, t.lookup call.id = some e ∧ ∀ dep ∈ e.desc.deps, isRunning dep call.table = true := by
  obtain ⟨-, -, -, table, htable, hcalls⟩ :=
    initStep_turn results ((h.others id hid).trans he) (h.depsOk hdeps hknown)
  rw [hcalls]
  split_ifs with hcall
  · rw [Bool.and_eq_true, decide_eq_true_eq] at hcall
    refine ⟨?_, fun call hin => ?_⟩
    · rw [List.map_append]
      exact h.calls.1.append (List.Sublist.refl _)
    · rcases List.mem_append.mp hin with hin | hin
      · exact h.calls.2 call hin
      · -- The dependencies have been come to, and the table of the call has them as they are.
        rw [List.mem_singleton] at hin
        subst hin
        refine ⟨e, he, fun dep hdep => ?_⟩
        have hreached := hdeps dep hdep
        obtain ⟨e₁, he₁⟩ := hknown dep hreached
        rw [isRunning_congr (htable dep (ne_of_mem_of_not_mem hreached hid)),
          h.isRunning_iff hreached he₁]
        exact hcall.1 dep hdep
  · exact ⟨h.calls.1.trans (List.sublist_append_left _ _), h.calls.2⟩

/-- **One turn** of the loop. -/
theorem Inited.turn : Inited t results before (reached ++ [id]) (initStep results run id) := by
  obtain ⟨⟨e', hdesc, hstate, hlookup⟩, -⟩ :=
    initStep_turn results ((h.others id hid).trans he) (h.depsOk hdeps hknown)
  constructor
  · intro other hout
    rw [List.mem_append, List.mem_singleton, not_or] at hout
    rw [hlookup, if_neg hout.2]
    exact h.others other hout.1
  · intro other e₁ hin he₁
    rw [hlookup]
    rcases List.mem_append.mp hin with hin | hin
    · rw [if_neg (ne_of_mem_of_not_mem hin hid)]
      exact h.state other e₁ hin he₁
    · rw [List.mem_singleton] at hin
      subst hin
      rw [he] at he₁
      cases he₁
      exact ⟨e', if_pos rfl, hdesc, hstate⟩
  · exact h.order_turn hid he hdeps hknown
  · exact h.ok_turn hid he hdeps hknown
  · exact h.calls_turn hid he hdeps hknown

end Turn

end Loop

/-- **The loop of `InitAll`** comes to all that is grounded, and to nothing else. -/
theorem initAll_inited (order : HashOrder) (results : SubsystemId → Bool) (st : RuntimeState) :
    Inited st.entries results st.initOrder (topoSort order st.entries)
      (initAll order results st) := by
  obtain ⟨hnodup, hclosed, hmem⟩ := topoSort_spec order st.entries
  have hknown : ∀ id ∈ topoSort order st.entries, ∃ e, st.entries.lookup id = some e :=
    fun id hid => ((hmem id).mp hid).exists_lookup
  have hloop : ∀ (rest reached : List SubsystemId) (run : InitRun),
      topoSort order st.entries = reached ++ rest →
      Inited st.entries results st.initOrder reached run →
      Inited st.entries results st.initOrder (topoSort order st.entries)
        (rest.foldl (initStep results) run) := by
    intro rest
    induction rest with
    | nil =>
        intro reached run heq h
        rw [heq, List.append_nil]
        exact h
    | cons id rest ih =>
        intro reached run heq h
        have hin : id ∈ topoSort order st.entries := by
          rw [heq]
          exact List.mem_append_right _ List.mem_cons_self
        obtain ⟨e, he⟩ := hknown id hin
        have hout : id ∉ reached := by
          rw [heq] at hnodup
          intro hid
          exact (List.nodup_append.mp hnodup).2.2 id hid id List.mem_cons_self rfl
        refine ih (reached ++ [id]) _ (by rw [heq, List.append_assoc]; rfl) ?_
        refine h.turn hout he (hclosed reached id rest e heq he) fun dep hdep => hknown dep ?_
        rw [heq]
        exact List.mem_append_left _ hdep
  exact hloop _ [] _ (List.nil_append _).symm (inited_start _ _ _)

/-! ## The verdict -/

section Verdict

variable {order : HashOrder} {results : SubsystemId → Bool} {st : RuntimeState}
  {id : SubsystemId} {e : Entry}

theorem getState_of_lookup {t : Table} (he : t.lookup id = some e) : getState id t = e.state := by
  rw [getState, he]

/-- What is grounded is left as settled. -/
theorem getState_initAll_of_grounded (he : st.entries.lookup id = some e)
    (hid : Grounded st.entries id) :
    getState id (initAll order results st).st.entries = stateAfter st.entries results id e := by
  have hin := ((topoSort_spec order st.entries).2.2 id).mpr hid
  obtain ⟨e', he', -, hstate⟩ := (initAll_inited order results st).state id e hin he
  rw [getState_of_lookup he', hstate]

/-- What is not is left alone. -/
theorem lookup_initAll_of_not_grounded (hid : ¬ Grounded st.entries id) :
    (initAll order results st).st.entries.lookup id = st.entries.lookup id := by
  apply (initAll_inited order results st).others
  rw [(topoSort_spec order st.entries).2.2]
  exact hid

theorem isRunning_initAll_of_grounded (hid : Grounded st.entries id) :
    isRunning id (initAll order results st).st.entries = true ↔
      Starts st.entries results id := by
  obtain ⟨e, he⟩ := hid.exists_lookup
  rw [isRunning, beq_iff_eq, getState_initAll_of_grounded he hid, stateAfter_eq_running_iff he]

theorem isRunning_initAll_of_not_grounded (hid : ¬ Grounded st.entries id) :
    isRunning id (initAll order results st).st.entries = isRunning id st.entries :=
  isRunning_congr (lookup_initAll_of_not_grounded hid)

/-- The flag is about what is grounded. -/
theorem ok_initAll_iff : (initAll order results st).ok = true ↔
    ∀ id e, st.entries.lookup id = some e → Grounded st.entries id → e.desc.optional = false →
      Starts st.entries results id := by
  obtain ⟨-, -, hmem⟩ := topoSort_spec order st.entries
  rw [(initAll_inited order results st).ok]
  constructor
  · intro h id e he hid
    exact h id e ((hmem id).mpr hid) he
  · intro h id e hin he
    exact h id e he ((hmem id).mp hin)

/-- What would have to run is about all subsystems. -/
theorem required_running_iff :
    (∀ id e, st.entries.lookup id = some e → e.desc.optional = false →
      isRunning id (initAll order results st).st.entries = true) ↔
    (∀ id e, st.entries.lookup id = some e → Grounded st.entries id → e.desc.optional = false →
      Starts st.entries results id) ∧
    ∀ id e, st.entries.lookup id = some e → ¬ Grounded st.entries id →
      e.desc.optional = false → e.state = .Running := by
  have hleft : ∀ id e, st.entries.lookup id = some e → ¬ Grounded st.entries id →
      (isRunning id (initAll order results st).st.entries = true ↔ e.state = .Running) := by
    intro id e he hid
    rw [isRunning_initAll_of_not_grounded hid, isRunning, getState_of_lookup he, beq_iff_eq]
  constructor
  · intro h
    refine ⟨fun id e he hid hrequired => ?_, fun id e he hid hrequired => ?_⟩
    · exact (isRunning_initAll_of_grounded hid).mp (h id e he hrequired)
    · exact (hleft id e he hid).mp (h id e he hrequired)
  · rintro ⟨hgrounded, hothers⟩ id e he hrequired
    by_cases hid : Grounded st.entries id
    · exact (isRunning_initAll_of_grounded hid).mpr (hgrounded id e he hid hrequired)
    · exact (hleft id e he hid).mpr (hothers id e he hid hrequired)

open Classical in
/-- Who is left on the way. -/
theorem settled_initAll_iff :
    (∀ id, getState id (initAll order results st).st.entries ≠ .Registered ∧
      getState id (initAll order results st).st.entries ≠ .Initialising) ↔
    (∀ id e, st.entries.lookup id = some e → ¬ Grounded st.entries id →
      e.state ≠ .Registered ∧ e.state ≠ .Initialising) ∧
    ∀ id e, st.entries.lookup id = some e → Grounded st.entries id → e.desc.optional = true →
      DepsStart st.entries results e := by
  have hleft : ∀ id e, st.entries.lookup id = some e → ¬ Grounded st.entries id →
      getState id (initAll order results st).st.entries = e.state := by
    intro id e he hid
    rw [getState, lookup_initAll_of_not_grounded hid, he]
  constructor
  · intro h
    refine ⟨fun id e he hid => ?_, fun id e he hid hoptional => ?_⟩
    · rw [← hleft id e he hid]
      exact h id
    · by_contra hdeps
      apply (h id).2
      rw [getState_initAll_of_grounded he hid, stateAfter, verdict_eq_initialising_iff]
      exact ⟨decide_eq_false hdeps, hoptional⟩
  · rintro ⟨hothers, hoptional⟩ id
    cases he : st.entries.lookup id with
    | none =>
        -- What is not registered has no dependencies to wait for.
        have hid : ¬ Grounded st.entries id := by
          intro hid
          obtain ⟨e, he'⟩ := hid.exists_lookup
          rw [he] at he'
          cases he'
        rw [getState, lookup_initAll_of_not_grounded hid, he]
        exact ⟨by simp, by simp⟩
    | some e =>
        by_cases hid : Grounded st.entries id
        · rw [getState_initAll_of_grounded he hid]
          refine ⟨verdict_ne_registered, fun hinit => ?_⟩
          rw [stateAfter, verdict_eq_initialising_iff, decide_eq_false_iff_not] at hinit
          exact hinit.1 (hoptional id e he hid hinit.2)
        · rw [hleft id e he hid]
          exact hothers id e he hid

end Verdict

/-- **The verdict of `InitAll`** is right, and nothing is left on the way, exactly if whatever
the sort does not come to (it is on or behind a cycle, or behind something that is not
registered) is neither registered nor on the way, what is optional has dependencies that can
be started, and no required subsystem that the sort does not come to spoils a good result. -/
theorem initAll_verdict_iff (order : HashOrder) (results : SubsystemId → Bool)
    (st : RuntimeState) :
    (((initAll order results st).ok = true ↔
        ∀ id e, st.entries.lookup id = some e → e.desc.optional = false →
          isRunning id (initAll order results st).st.entries = true) ∧
      ∀ id, getState id (initAll order results st).st.entries ≠ .Registered ∧
        getState id (initAll order results st).st.entries ≠ .Initialising) ↔
    (∀ id e, st.entries.lookup id = some e → ¬ Grounded st.entries id →
        e.state ≠ .Registered ∧ e.state ≠ .Initialising) ∧
      (∀ id e, st.entries.lookup id = some e → Grounded st.entries id →
        e.desc.optional = true → DepsStart st.entries results e) ∧
      ((∀ id e, st.entries.lookup id = some e → Grounded st.entries id →
          e.desc.optional = false → Starts st.entries results id) →
        ∀ id e, st.entries.lookup id = some e → ¬ Grounded st.entries id →
          e.desc.optional = false → e.state = .Running) := by
  rw [ok_initAll_iff, required_running_iff, settled_initAll_iff]
  constructor
  · rintro ⟨hflag, hothers, hoptional⟩
    exact ⟨hothers, hoptional, fun hall => (hflag.mp hall).2⟩
  · rintro ⟨hothers, hoptional, hrequired⟩
    exact ⟨⟨fun hall => ⟨hall, hrequired hall⟩, fun hall => hall.1⟩, hothers, hoptional⟩

/-- Two subsystems that need each other. -/
def eachOther : RuntimeState :=
  register { id := 1, deps := [2] } (register { id := 2, deps := [1] } {})

/-- They are never come to: the verdict is good, and both are as they were registered. -/
theorem not_initAll_verdict_eachOther :
    ¬ (((initAll listOrder (fun _ => true) eachOther).ok = true ↔
        ∀ id e, eachOther.entries.lookup id = some e → e.desc.optional = false →
          isRunning id (initAll listOrder (fun _ => true) eachOther).st.entries = true) ∧
      ∀ id, getState id (initAll listOrder (fun _ => true) eachOther).st.entries ≠ .Registered ∧
        getState id (initAll listOrder (fun _ => true) eachOther).st.entries ≠ .Initialising) := by
  rintro ⟨-, h⟩
  exact (h 1).1 (by decide)

/-! ## Going down -/

section Shutdown

variable {run : Table × List Call} {id : SubsystemId} {e : Entry}

theorem shutdownStep_of_not_running (h : isRunning id run.1 = false) :
    shutdownStep run id = run := by
  rw [shutdownStep]
  cases he : run.1.lookup id with
  | none => rfl
  | some e =>
      have hstate : e.state ≠ .Running := by
        intro heq
        rw [isRunning, getState_of_lookup he, heq] at h
        cases h
      dsimp only
      rw [if_pos hstate]

/-- What running subsystems are stopped. -/
theorem shutdownStep_of_running (he : run.1.lookup id = some e) (hstate : e.state = .Running) :
    (∀ other, (shutdownStep run id).1.lookup other =
      if other = id then some { e with state := .Stopped } else run.1.lookup other) ∧
    (shutdownStep run id).2.map Call.id =
      run.2.map Call.id ++ if e.desc.shutdown then [id] else [] := by
  rw [shutdownStep, he]
  dsimp only
  rw [if_neg (not_not_intro hstate)]
  refine ⟨fun other => ?_, ?_⟩
  · rw [AList.lookup_insert_ite, AList.lookup_insert_ite]
    split_ifs <;> rfl
  · cases e.desc.shutdown with
    | true => exact List.map_append
    | false => exact (List.append_nil _).symm

/-- One subsystem. -/
theorem shutdownStep_spec (run : Table × List Call) (id : SubsystemId) :
    (∀ other, ((shutdownStep run id).1.lookup other).map Entry.desc =
        (run.1.lookup other).map Entry.desc) ∧
      ∀ other, isRunning other (shutdownStep run id).1 =
        (isRunning other run.1 && other != id) := by
  cases hrunning : isRunning id run.1 with
  | false =>
      rw [shutdownStep_of_not_running hrunning]
      refine ⟨fun _ => rfl, fun other => ?_⟩
      by_cases hother : other = id
      · rw [hother, hrunning, Bool.false_and]
      · rw [bne_iff_ne.mpr hother, Bool.and_true]
  | true =>
      obtain ⟨e, he, hstate⟩ := isRunning_iff.mp hrunning
      obtain ⟨hlookup, -⟩ := shutdownStep_of_running he hstate
      refine ⟨fun other => ?_, fun other => ?_⟩
      · rw [hlookup]
        split_ifs with hother
        · rw [hother, he]
          rfl
        · rfl
      · by_cases hother : other = id
        · rw [isRunning, getState, hlookup, if_pos hother, hother, bne_self_eq_false,
            Bool.and_false]
          rfl
        · rw [bne_iff_ne.mpr hother, Bool.and_true]
          apply isRunning_congr
          rw [hlookup, if_neg hother]

/-- All of a list: the descriptors stay, and what has been gone over does not run any more. -/
theorem foldl_shutdownStep (l : List SubsystemId) (run : Table × List Call) :
    (∀ id, ((l.foldl shutdownStep run).1.lookup id).map Entry.desc =
        (run.1.lookup id).map Entry.desc) ∧
      ∀ id, isRunning id (l.foldl shutdownStep run).1 = true ↔
        isRunning id run.1 = true ∧ id ∉ l := by
  induction l generalizing run with
  | nil => simp
  | cons a l ih =>
      obtain ⟨hdesc, hrunning⟩ := ih (shutdownStep run a)
      obtain ⟨hdesc₁, hrunning₁⟩ := shutdownStep_spec run a
      rw [List.foldl_cons]
      refine ⟨fun id => (hdesc id).trans (hdesc₁ id), fun id => ?_⟩
      rw [hrunning, hrunning₁, Bool.and_eq_true, bne_iff_ne, List.mem_cons, not_or, and_assoc]

/-- Which shutdown functions are called, when all of the list are running and none comes
twice. -/
theorem calls_foldl_shutdownStep {l : List SubsystemId} (hnodup : l.Nodup)
    (run : Table × List Call) (hall : ∀ id ∈ l, isRunning id run.1 = true) :
    (l.foldl shutdownStep run).2.map Call.id =
      run.2.map Call.id ++ l.filter fun id => (run.1.lookup id).any fun e => e.desc.shutdown := by
  induction l generalizing run with
  | nil => exact (List.append_nil _).symm
  | cons a l ih =>
      obtain ⟨hout, hrest⟩ := List.nodup_cons.mp hnodup
      obtain ⟨e, he, hstate⟩ := isRunning_iff.mp (hall a List.mem_cons_self)
      obtain ⟨hdesc, hrunning⟩ := shutdownStep_spec run a
      obtain ⟨-, hcalls⟩ := shutdownStep_of_running he hstate
      -- The others run on, with the descriptions they had.
      have hstill : ∀ id ∈ l, isRunning id (shutdownStep run a).1 = true := by
        intro id hid
        have hne : id ≠ a := by
          rintro rfl
          exact hout hid
        rw [hrunning, hall id (List.mem_cons_of_mem a hid), bne_iff_ne.mpr hne]
        rfl
      have hsame : ∀ id, (((shutdownStep run a).1.lookup id).any fun e => e.desc.shutdown) =
          (run.1.lookup id).any fun e => e.desc.shutdown := by
        intro id
        have hany : ∀ o : Option Entry,
            (o.any fun e => e.desc.shutdown) = (o.map Entry.desc).any fun d => d.shutdown := by
          intro o
          cases o <;> rfl
        rw [hany, hany, hdesc]
      rw [List.foldl_cons, ih hrest _ hstill, hcalls, List.append_assoc]
      congr 1
      simp only [hsame]
      rw [List.filter_cons, he]
      cases hfn : e.desc.shutdown with
      | true => simp [hfn]
      | false => simp [hfn]

end Shutdown

/-- Of two subsystems in the order, the first does not need the second. -/
theorem pairwise_topoSort (order : HashOrder) (t : Table) :
    (topoSort order t).Pairwise fun a b => ∀ e, t.lookup a = some e → b ∉ e.desc.deps := by
  obtain ⟨hnodup, hclosed, -⟩ := topoSort_spec order t
  have hsuffix : ∀ (post pre : List SubsystemId), topoSort order t = pre ++ post →
      post.Pairwise fun a b => ∀ e, t.lookup a = some e → b ∉ e.desc.deps := by
    intro post
    induction post with
    | nil => exact fun _ _ => List.Pairwise.nil
    | cons a post ih =>
        intro pre heq
        refine List.Pairwise.cons (fun b hb e he hdep => ?_)
          (ih (pre ++ [a]) (by rw [heq, List.append_assoc]; rfl))
        have hpre := hclosed pre a post e heq he b hdep
        rw [heq] at hnodup
        exact (List.nodup_append.mp hnodup).2.2 b hpre b (List.mem_cons_of_mem a hb) rfl
  exact hsuffix _ [] (List.nil_append _).symm

/-- What is said of an `InitAll` on `st` that left `up`, and a `ShutdownAll` after it: init
functions are called once each, when all that is needed runs; the shutdown functions of what
runs are called once each, in the reverse of the order in which it started; and nothing runs any
more. -/
structure UpAndDown (st : RuntimeState) (up : InitRun) (down : RuntimeState × List Call) :
    Prop where
  initOnce : (up.calls.map Call.id).Nodup
  depsRun : ∀ call ∈ up.calls, ∃ e, st.entries.lookup call.id = some e ∧
    ∀ dep ∈ e.desc.deps, isRunning dep call.table = true
  started : ∀ id, id ∈ up.st.initOrder ↔ isRunning id up.st.entries = true
  startOrder : (up.st.initOrder.filter fun id => (st.entries.lookup id).any fun e => e.desc.init) =
    (up.calls.map Call.id).filter fun id => isRunning id up.st.entries
  stopOrder : down.2.map Call.id =
    up.st.initOrder.reverse.filter fun id => (st.entries.lookup id).any fun e => e.desc.shutdown
  stopOnce : (down.2.map Call.id).Nodup
  stopFirst : (down.2.map Call.id).Pairwise
    fun first second => ∀ e, st.entries.lookup second = some e → first ∉ e.desc.deps
  stopped : ∀ id, isRunning id down.1.entries = false

/-- **Up and down**, from a table of freshly registered subsystems. -/
theorem initAll_shutdownAll (order : HashOrder) (results : SubsystemId → Bool) (st : RuntimeState)
    (hfresh : ∀ id e, st.entries.lookup id = some e → e.state = .Registered)
    (hnone : st.initOrder = []) :
    UpAndDown st (initAll order results st) (shutdownAll (initAll order results st).st) := by
  obtain ⟨hsort, -, hmem⟩ := topoSort_spec order st.entries
  have h := initAll_inited order results st
  obtain ⟨new, hnew, hsub, hstarts, hfilter⟩ := h.order
  rw [hnone, List.nil_append] at hnew
  let up := initAll order results st
  -- What was started is what runs: nothing ran before.
  have hstarted : ∀ id, id ∈ new ↔ isRunning id up.st.entries = true := by
    intro id
    rw [hstarts, hmem]
    by_cases hid : Grounded st.entries id
    · rw [isRunning_initAll_of_grounded hid]
      exact and_iff_right hid
    · rw [isRunning_initAll_of_not_grounded hid, isRunning_iff]
      refine ⟨fun hand => absurd hand.1 hid, ?_⟩
      rintro ⟨e, he, hstate⟩
      rw [hfresh id e he] at hstate
      cases hstate
  have hnodup : new.Nodup := hsub.nodup hsort
  -- The loop has kept the descriptions.
  have hshutdown : ∀ id ∈ new.reverse, ((up.st.entries.lookup id).any fun e => e.desc.shutdown) =
      (st.entries.lookup id).any fun e => e.desc.shutdown := by
    intro id hid
    have hin := (hstarts id).mp (List.mem_reverse.mp hid)
    obtain ⟨e, he⟩ := hin.2.grounded.exists_lookup
    obtain ⟨e', he', hdesc, -⟩ := h.state id e hin.1 he
    rw [he, he', Option.any_some, Option.any_some, hdesc]
  have hcalls : (shutdownAll up.st).2.map Call.id =
      new.reverse.filter fun id => (st.entries.lookup id).any fun e => e.desc.shutdown := by
    have hdown := calls_foldl_shutdownStep (List.nodup_reverse.mpr hnodup) (up.st.entries, [])
      fun id hid => (hstarted id).mp (List.mem_reverse.mp hid)
    rw [List.filter_congr hshutdown, List.map_nil, List.nil_append, ← hnew] at hdown
    rw [← hnew]
    exact hdown
  have hpairwise := ((pairwise_topoSort order st.entries).sublist hsub)
  refine ⟨h.calls.1.nodup hsort, h.calls.2, ?_, ?_, ?_, ?_, ?_, ?_⟩
  · rw [hnew]
    exact hstarted
  · rw [hnew]
    exact hfilter
  · rw [hnew]
    exact hcalls
  · rw [hcalls]
    exact (List.nodup_reverse.mpr hnodup).filter _
  · rw [hcalls]
    exact (List.pairwise_reverse.mpr hpairwise).sublist List.filter_sublist
  · intro id
    rw [← Bool.not_eq_true]
    show ¬ isRunning id (up.st.initOrder.reverse.foldl shutdownStep (up.st.entries, [])).1 = true
    rw [(foldl_shutdownStep _ _).2, hnew, List.mem_reverse, hstarted]
    exact fun hand => hand.2 hand.1

/-- A subsystem, one that needs it, and one that needs what is not there. -/
def threeSubsystems : RuntimeState :=
  register { id := 1 } (register { id := 2, deps := [1] } (register { id := 3, deps := [9] } {}))

/-- The first two go up and down. -/
theorem initAll_shutdownAll_threeSubsystems :
    UpAndDown threeSubsystems (initAll listOrder (fun _ => true) threeSubsystems)
        (shutdownAll (initAll listOrder (fun _ => true) threeSubsystems).st) ∧
      (initAll listOrder (fun _ => true) threeSubsystems).st.initOrder = [1, 2] := by
  refine ⟨initAll_shutdownAll listOrder (fun _ => true) threeSubsystems ?_ rfl, by decide⟩
  intro id e he
  have hin : (⟨id, e⟩ : Sigma fun _ : SubsystemId => Entry) ∈ threeSubsystems.entries.entries :=
    AList.mem_lookup_iff.mp he
  have hall : ∀ x ∈ threeSubsystems.entries.entries, x.2.state = .Registered := by decide
  exact hall _ hin

end Runtime
