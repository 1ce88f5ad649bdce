/-
# Runs of the module registry

The registry under its calls, and what its containers have to do with one another.  Each
registration adds to four of them; one call looks an id up before it gives it away, and none
looks at the name and the id both.
-/
import ChuckStation.AssociationLists
import ChuckStation.MemoryTable
import ChuckStation.ModuleRelocations
import ChuckStation.OperationRuns

namespace ModuleRegistry

open Memory Loader OperationRuns

/-! ## Calls -/

/-- The registry, and the loader with the memory manager. -/
structure Session where
  registry : RegistryState := {}
  loader : State

/-- The calls.  `Load` comes with what it finds on disk and in the heap; `Init` is where a run
starts. -/
inductive Op where
  | register (name path : List Byte) (elfInfo : ExecutableInfo) (isMain : Bool)
  | registerDesc (desc : ModuleDesc)
  | load (heap : Heap) (outside : U64 → Option Byte) (path : List Byte)
      (inspected mapped : Option File)
  | retain (id : ModuleId)
  | unload (id : ModuleId)
  | reset

def step (os : Os) (s : Session) : Op → Except HostAbort Session
  | .register name path elfInfo isMain =>
      .ok { s with registry := (register name path elfInfo isMain s.registry).2 }
  | .registerDesc desc => .ok { s with registry := (registerDesc desc s.registry).2 }
  | .load heap outside path inspected mapped =>
      match load os heap outside path inspected mapped s.registry s.loader with
      | .error e => .error e
      | .ok (_, registry, loader) => .ok { registry := registry, loader := loader }
  | .retain id => .ok { s with registry := (retain id s.registry).2 }
  | .unload id =>
      match unload os id s.registry s.loader.mem with
      | (_, registry, mem) => .ok { registry := registry, loader := { s.loader with mem := mem } }
  | .reset =>
      match reset os s.registry s.loader.mem with
      | (registry, mem) => .ok { registry := registry, loader := { s.loader with mem := mem } }

/-! ## Consistency -/

/-- The containers tell the same: every registered id was handed out once and stands once in
the load order, under its own key and under its name alone, and the main module is one of
them, if there is one. -/
structure Consistent (r : RegistryState) : Prop where
  nodup : r.loadOrder.Nodup
  order : ∀ id, id ∈ r.loadOrder ↔ id ∈ r.modules
  names : ∀ name id, r.byName.lookup name = some id ↔
    ∃ m, r.modules.lookup id = some m ∧ m.name = name
  key : ∀ id m, r.modules.lookup id = some m → m.id = id
  main : r.mainModule = INVALID_MODULE ∨ r.mainModule ∈ r.modules

section Containers

variable {r : RegistryState} {id : ModuleId} {m : ModuleDesc}

/-- A module's name is known. -/
theorem Consistent.lookup_name (h : Consistent r) (hm : r.modules.lookup id = some m) :
    r.byName.lookup m.name = some id :=
  (h.names m.name id).mpr ⟨m, hm, rfl⟩

/-- A known name is a module's. -/
theorem Consistent.of_lookup_name (h : Consistent r) {name : List Byte}
    (hname : r.byName.lookup name = some id) : id ∈ r.modules := by
  obtain ⟨m, hm, -⟩ := (h.names name id).mp hname
  exact AList.mem_of_lookup hm

/-- A new entry for a module that keeps its id and its name. -/
theorem Consistent.update (h : Consistent r) (hm : r.modules.lookup id = some m) {m' : ModuleDesc}
    (hid : m'.id = m.id) (hname : m'.name = m.name) :
    Consistent { r with modules := r.modules.insert id m' } := by
  have hmem : ∀ other, other ∈ r.modules.insert id m' ↔ other ∈ r.modules := by
    intro other
    rw [AList.mem_insert]
    exact ⟨fun hor => hor.elim (fun heq => heq ▸ AList.mem_of_lookup hm) fun hin => hin, .inr⟩
  refine ⟨h.nodup, fun other => (h.order other).trans (hmem other).symm, ?_, ?_, ?_⟩
  · intro name other
    rw [h.names name other]
    dsimp only
    rw [AList.lookup_insert_ite]
    split_ifs with heq
    · subst heq
      rw [hm]
      simp only [Option.some.injEq, exists_eq_left', hname]
    · exact Iff.rfl
  · intro other m₁ hlookup
    dsimp only at hlookup
    rw [AList.lookup_insert_ite] at hlookup
    split_ifs at hlookup with heq
    · cases hlookup
      rw [heq, hid, h.key id m hm]
    · exact h.key other m₁ hlookup
  · exact h.main.imp_right (hmem r.mainModule).mpr

/-- **Registration.**  A module goes into the containers without harm exactly if neither its id
nor its name is there. -/
theorem consistent_insert_iff (h : Consistent r) (id : ModuleId) (m : ModuleDesc)
    (next main : ModuleId) (hid : m.id = id) (hmain : main = r.mainModule ∨ main = id) :
    Consistent ⟨r.modules.insert id m, r.byName.insert m.name id, r.loadOrder ++ [id], next,
      main⟩ ↔ id ∉ r.modules ∧ m.name ∉ r.byName := by
  constructor
  · intro hnew
    have hfresh : id ∉ r.modules := by
      intro hin
      have hdisj := List.disjoint_of_nodup_append hnew.nodup
      exact hdisj ((h.order id).mpr hin) (List.mem_singleton.mpr rfl)
    refine ⟨hfresh, fun hin => ?_⟩
    -- Two modules under one name: the old one is still there, its name leads to the new one.
    obtain ⟨old, hold⟩ := Option.isSome_iff_exists.mp (AList.lookup_isSome.mpr hin)
    obtain ⟨m₀, hm₀, hname⟩ := (h.names m.name old).mp hold
    have hne : old ≠ id := fun heq => hfresh (heq ▸ AList.mem_of_lookup hm₀)
    have hold' := (hnew.names m.name old).mpr
      ⟨m₀, by dsimp only; rw [AList.lookup_insert_ite, if_neg hne, hm₀], hname⟩
    dsimp only at hold'
    rw [AList.lookup_insert_ite, if_pos rfl] at hold'
    exact hne (Option.some.inj hold').symm
  · rintro ⟨hfresh, hname⟩
    refine ⟨?_, ?_, ?_, ?_, ?_⟩
    · apply List.Nodup.append h.nodup (List.nodup_singleton id)
      intro other hin hsingle
      rw [List.mem_singleton.mp hsingle] at hin
      exact hfresh ((h.order id).mp hin)
    · intro other
      dsimp only
      rw [List.mem_append, List.mem_singleton, AList.mem_insert, h.order]
      exact or_comm
    · intro name other
      dsimp only
      rw [AList.lookup_insert_ite, AList.lookup_insert_ite]
      by_cases hother : other = id
      · rw [if_pos hother]
        by_cases heq : name = m.name
        · subst hother heq
          simp only [if_true, Option.some.injEq, exists_eq_left']
        · rw [if_neg heq]
          have hno : r.byName.lookup name ≠ some other := fun hlookup =>
            hfresh (hother ▸ h.of_lookup_name hlookup)
          simp only [Option.some.injEq, exists_eq_left']
          exact iff_of_false hno fun hback => heq hback.symm
      · rw [if_neg hother]
        by_cases heq : name = m.name
        · rw [if_pos heq]
          refine iff_of_false (fun hsome => hother (Option.some.inj hsome).symm) ?_
          rintro ⟨m₀, hm₀, hname₀⟩
          apply hname
          rw [← AList.lookup_isSome, ← heq, ← hname₀, h.lookup_name hm₀]
          rfl
        · rw [if_neg heq]
          exact h.names name other
    · intro other m₁ hlookup
      dsimp only at hlookup
      rw [AList.lookup_insert_ite] at hlookup
      split_ifs at hlookup with heq
      · cases hlookup
        rw [heq, hid]
      · exact h.key other m₁ hlookup
    · dsimp only
      rcases hmain with rfl | rfl
      · exact h.main.imp_right fun hin => (AList.mem_insert _).mpr (.inr hin)
      · exact .inr ((AList.mem_insert _).mpr (.inl rfl))

/-- **Removal.**  A module leaves the containers without harm exactly if it is not the main
one. -/
theorem consistent_removeModule_iff (h : Consistent r) (hm : r.modules.lookup id = some m) :
    Consistent (removeModule id m r) ↔ (r.mainModule = id → id = INVALID_MODULE) := by
  constructor
  · intro hnew hmain
    rcases hnew.main with hinvalid | hin
    · rw [← hmain]
      exact hinvalid
    · exact absurd hmain (AList.mem_erase.mp hin).1
  · intro hmain
    refine ⟨h.nodup.filter _, ?_, ?_, ?_, ?_⟩
    · intro other
      simp only [removeModule, List.mem_filter, bne_iff_ne, AList.mem_erase, h.order]
      exact and_comm
    · intro name other
      simp only [removeModule, AList.lookup_erase_ite]
      -- A name that led to the module leads nowhere now; the other names are not touched.
      by_cases heq : other = id
      · simp only [if_pos heq, reduceCtorEq, false_and, exists_false, iff_false]
        intro hlookup
        by_cases hname : name = m.name
        · rw [if_pos hname] at hlookup
          cases hlookup
        · rw [if_neg hname, h.names, heq, hm] at hlookup
          obtain ⟨m₀, hm₀, hback⟩ := hlookup
          cases hm₀
          exact hname hback.symm
      · rw [if_neg heq, ← h.names]
        by_cases hname : name = m.name
        · rw [if_pos hname, hname, h.lookup_name hm]
          exact iff_of_false (fun hnone => by cases hnone)
            fun hsome => heq (Option.some.inj hsome).symm
        · rw [if_neg hname]
    · intro other m₁ hlookup
      simp only [removeModule, AList.lookup_erase_ite] at hlookup
      split_ifs at hlookup
      exact h.key other m₁ hlookup
    · rcases h.main with hinvalid | hin
      · exact .inl hinvalid
      · by_cases heq : r.mainModule = id
        · exact .inl (heq.trans (hmain heq))
        · exact .inr (AList.mem_erase.mpr ⟨heq, hin⟩)

end Containers

/-! ## One call -/

section Calls

variable {os : Os} {s : Session} {id : ModuleId} {r : RegistryState}

/-- A registration by a new name is handed a new id. -/
def HandsOutNew (name : List Byte) (r : RegistryState) : Prop :=
  name ∈ r.byName ∨ r.nextId ∉ r.modules

instance (name : List Byte) (r : RegistryState) : Decidable (HandsOutNew name r) := by
  unfold HandsOutNew; infer_instance

/-- Calls that keep the containers consistent: a registration uses a new id and a new name (or,
by name, finds the old one), and the main module is not unloaded. -/
def KeepsConsistent (os : Os) (s : Session) : Op → Prop
  | .register name _ _ _ => HandsOutNew name s.registry
  | .registerDesc desc =>
      idFor desc s.registry ∉ s.registry.modules ∧ desc.name ∉ s.registry.byName
  | .load heap _ path inspected mapped =>
      (loadExecutable os heap path inspected mapped {} s.loader).1 = .returned .Ok →
        HandsOutNew (filename path) s.registry
  | .retain _ => True
  | .unload id => ∀ m, s.registry.modules.lookup id = some m → ¬ 1 < m.refCount →
      hasDependents id s.registry = false → s.registry.mainModule = id → id = INVALID_MODULE
  | .reset => True

theorem consistent_empty (next : ModuleId) : Consistent { nextId := next } := by
  refine ⟨List.nodup_nil, fun id => ?_, fun name id => ?_, fun id m h => ?_, .inl rfl⟩
  · exact iff_of_false List.not_mem_nil (AList.notMem_empty id)
  · simp
  · simp at h

theorem Consistent.addReference (h : Consistent r) (hid : id ∈ r.modules) :
    Consistent (addReference id r) := by
  obtain ⟨m, hm⟩ := AList.exists_lookup hid
  rw [ModuleRegistry.addReference, hm]
  exact h.update hm rfl rfl

theorem consistent_register_iff (h : Consistent r) (name path : List Byte)
    (elfInfo : ExecutableInfo) (isMain : Bool) :
    Consistent (register name path elfInfo isMain r).2 ↔ HandsOutNew name r := by
  rw [register, HandsOutNew]
  cases hname : r.byName.lookup name with
  | some id =>
      have hin : name ∈ r.byName := by
        rw [← AList.lookup_isSome, hname]
        rfl
      exact iff_of_true (h.addReference (h.of_lookup_name hname)) (.inl hin)
  | none =>
      have hnew : name ∉ r.byName := AList.lookup_eq_none.mp hname
      have hmain : (if isMain then r.nextId else r.mainModule) = r.mainModule ∨
          (if isMain then r.nextId else r.mainModule) = r.nextId := by
        cases isMain with
        | true => exact .inr rfl
        | false => exact .inl rfl
      have hinsert := consistent_insert_iff h r.nextId (newDesc r.nextId name path elfInfo isMain)
        (r.nextId + 1) _ rfl hmain
      refine hinsert.trans ⟨fun hfresh => .inr hfresh.1, fun hor => ⟨hor.resolve_left hnew, hnew⟩⟩

theorem unload_cases (os : Os) (id : ModuleId) (r : RegistryState) (mem : Process) :
    (r.modules.lookup id = none ∧ unload os id r mem = (false, r, mem)) ∨
    ∃ m, r.modules.lookup id = some m ∧
      ((1 < m.refCount ∧ unload os id r mem = (true, { r with
          modules := r.modules.insert id { m with refCount := m.refCount - 1 } }, mem)) ∨
       (¬ 1 < m.refCount ∧ hasDependents id r = true ∧ unload os id r mem = (false, r, mem)) ∨
       (¬ 1 < m.refCount ∧ hasDependents id r = false ∧
          unload os id r mem = (true, removeModule id m r, releaseModule os m mem))) := by
  rw [unload]
  cases hm : r.modules.lookup id with
  | none => exact .inl ⟨rfl, rfl⟩
  | some m =>
      refine .inr ⟨m, rfl, ?_⟩
      dsimp only
      by_cases hcount : 1 < m.refCount
      · rw [if_pos hcount]
        exact .inl ⟨hcount, rfl⟩
      · rw [if_neg hcount]
        cases hdeps : hasDependents id r with
        | true => exact .inr (.inl ⟨hcount, rfl, rfl⟩)
        | false => exact .inr (.inr ⟨hcount, rfl, rfl⟩)

/-- A load that returns. -/
theorem step_load_eq_ok {heap : Heap} {outside : U64 → Option Byte} {path : List Byte}
    {inspected mapped : Option File} {t : Session}
    (h : step os s (.load heap outside path inspected mapped) = .ok t) :
    ∃ id, load os heap outside path inspected mapped s.registry s.loader =
      .ok (id, t.registry, t.loader) := by
  rw [step] at h
  rcases hload : load os heap outside path inspected mapped s.registry s.loader with
    e | ⟨id, r', loader'⟩
  · rw [hload] at h
    cases h
  · rw [hload] at h
    cases h
    exact ⟨id, rfl⟩

/-- One call. -/
theorem consistent_step_iff (h : Consistent s.registry) (a : Op) {t : Session}
    (hstep : step os s a = .ok t) : Consistent t.registry ↔ KeepsConsistent os s a := by
  cases a with
  | register name path elfInfo isMain =>
      cases hstep
      exact consistent_register_iff h name path elfInfo isMain
  | registerDesc desc =>
      cases hstep
      exact consistent_insert_iff h _ { desc with id := idFor desc s.registry } _ _ rfl (.inl rfl)
  | load heap outside path inspected mapped =>
      obtain ⟨id, hload⟩ := step_load_eq_ok hstep
      rw [KeepsConsistent]
      rcases load_cases hload with ⟨old, hname, hold, -⟩ | ⟨-, hno, hsame, -⟩ |
        ⟨-, elfInfo, s₁, bytes, hok, hnew, -⟩
      · -- The file was loaded before, or it did not load, or it is registered now.
        rw [hold]
        refine iff_of_true (h.addReference (h.of_lookup_name hname)) fun _ => .inl ?_
        rw [← AList.lookup_isSome, hname]
        rfl
      · rw [hsame]
        exact iff_of_true h fun hok => absurd hok hno
      · rw [hok, hnew]
        exact (consistent_register_iff h _ _ _ _).trans ⟨fun hnew _ => hnew, fun hnew => hnew rfl⟩
  | retain id =>
      cases hstep
      refine iff_of_true ?_ trivial
      rw [retain]
      cases hm : s.registry.modules.lookup id with
      | none => exact h
      | some m => exact h.update hm rfl rfl
  | unload id =>
      have ht : t.registry = (unload os id s.registry s.loader.mem).2.1 := by
        cases hstep
        rfl
      rw [ht, KeepsConsistent]
      rcases unload_cases os id s.registry s.loader.mem with ⟨hm, hun⟩ | ⟨m, hm, hway⟩
      · rw [hun, hm]
        exact iff_of_true h fun m hsome => by cases hsome
      rw [hm]
      rcases hway with ⟨hcount, hun⟩ | ⟨-, hdeps, hun⟩ | ⟨hcount, hdeps, hun⟩
      · rw [hun]
        -- References are left.
        refine iff_of_true (h.update hm rfl rfl) fun m' hm' hle => absurd hcount ?_
        cases hm'
        exact hle
      · rw [hun]
        refine iff_of_true h fun m' _ _ hno => ?_
        rw [hdeps] at hno
        cases hno
      · rw [hun]
        -- The last reference, and nobody depends on the module.
        refine (consistent_removeModule_iff h hm).trans ⟨fun hmain _ _ _ _ => hmain, fun hall => ?_⟩
        exact hall m rfl hcount hdeps
  | reset =>
      cases hstep
      exact iff_of_true (consistent_empty _) trivial

end Calls

/-! ## Runs -/

/-- **The representation of the registry** stays consistent through a run exactly if every
call of the run that returns registers a new id under a new name, or finds the name, and does
not unload the main module. -/
theorem consistent_run_iff (os : Os) (loader : State) (ops : List Op) :
    AllStatesReached (step os) (fun s => Consistent s.registry) ⟨{}, loader⟩ ops ↔
      AllReached (step os) (fun s a => ∀ t, step os s a = .ok t → KeepsConsistent os s a)
        ⟨{}, loader⟩ ops := by
  apply allStatesReached_iff
  · intro s a t hs hstep
    exact consistent_step_iff hs a hstep
  · exact consistent_empty 1

/-- A session without modules, on a system that grants nothing. -/
def emptySession : Session := ⟨{}, ⟨{}, emptyProcess⟩⟩

/-- Registering the descriptor of a registered module again lists its id twice; unloading the
main module leaves its id behind. -/
theorem not_consistent_registerTwice :
    ¬ AllStatesReached (step refusingOs) (fun s => Consistent s.registry) emptySession
        [.registerDesc { id := 5, refCount := 1 }, .registerDesc { id := 5, refCount := 1 }] ∧
      ¬ AllStatesReached (step refusingOs) (fun s => Consistent s.registry) emptySession
        [.register [0x61] [] {} true, .unload 1] := by
  constructor
  · intro h
    have hlast : Consistent (registerDesc { id := 5, refCount := 1 }
        (registerDesc { id := 5, refCount := 1 } {}).2).2 :=
      h _ (List.prefix_refl _) ⟨_, _⟩ rfl
    exact absurd hlast.nodup (by decide)
  · intro h
    have hlast : Consistent (unload refusingOs 1 (register [0x61] [] {} true {}).2
        emptyProcess).2.1 :=
      h _ (List.prefix_refl _) ⟨_, _⟩ rfl
    exact absurd hlast.main (by decide)

end ModuleRegistry
