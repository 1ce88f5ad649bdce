/-
# Order and cycles of the dependencies

`TopologicalOrder` and `DetectCycles` of the linker, over the modules the registry lists.  A
module may name itself, a module twice, or ids that nobody has; and an id that was registered
twice is listed twice.

* `topologicalOrder_resolves`: the order has every module whose chains of dependencies all end,
  once, behind its dependencies.
* `detectCycles_run`: in every registry that calls can make, a path is found exactly if there is
  a cycle, and it runs into one.
-/
import ChuckStation.CycleSearch
import ChuckStation.RegistryRuns
import ChuckStation.TopologicalSort

namespace ModuleRegistry

/-- `GetAllModules`. -/
def getAllModules (r : RegistryState) : List ModuleDesc :=
  r.loadOrder.filterMap fun id => r.modules.lookup id

/-- `GetDependencies`. -/
def getDependencies (id : ModuleId) (r : RegistryState) : List ModuleId :=
  match r.modules.lookup id with
  | none => []
  | some m => m.deps

/-- The registry lists a module under the id. -/
def Registered (r : RegistryState) (id : ModuleId) : Prop := ∃ m ∈ getAllModules r, m.id = id

/-- A listed module names another id among its dependencies. -/
def Needs (r : RegistryState) (id dep : ModuleId) : Prop :=
  ∃ m ∈ getAllModules r, m.id = id ∧ dep ∈ m.deps

theorem mem_getAllModules {r : RegistryState} {m : ModuleDesc} :
    m ∈ getAllModules r ↔ ∃ id ∈ r.loadOrder, r.modules.lookup id = some m := List.mem_filterMap

/-- In a consistent registry the listed modules are all there are. -/
theorem Consistent.registered_iff {r : RegistryState} (h : Consistent r) (id : ModuleId) :
    Registered r id ↔ id ∈ r.modules := by
  constructor
  · rintro ⟨m, hm, rfl⟩
    obtain ⟨id, -, hlookup⟩ := mem_getAllModules.mp hm
    rw [h.key id m hlookup]
    exact AList.mem_of_lookup hlookup
  · intro hid
    obtain ⟨m, hm⟩ := AList.exists_lookup hid
    exact ⟨m, mem_getAllModules.mpr ⟨id, (h.order id).mpr hid, hm⟩, h.key id m hm⟩

end ModuleRegistry

namespace DynamicLinker

open Memory Loader ModuleRegistry OperationRuns Relation

/-! ## Topological order -/

/-- The order in which a hash map is gone over, for any keys that are put into it. -/
structure KeyOrder where
  keys : List ModuleId → List ModuleId
  perm : ∀ ids, (keys ids).Perm ids.dedup

/-- The modules with what they depend on, as the first loop goes over them. -/
def visited (r : RegistryState) : List (ModuleId × List ModuleId) :=
  (getAllModules r).map fun m => (m.id, m.deps)

/-- `TopologicalOrder`.  The loop gets one round for every listed module; it would be nothing if
the stack were not empty then. -/
def topologicalOrder (order : KeyOrder) (r : RegistryState) : Option (List ModuleId) :=
  let g := TopologicalSort.graphOf (visited r)
  let s := TopologicalSort.drain g.adj (visited r).length
    (TopologicalSort.start g (order.keys ((visited r).map Prod.fst)))
  if s.stack = [] then some s.order else none

section Order

variable {r : RegistryState} {id dep : ModuleId}

theorem registered_iff_mem_visited : id ∈ (visited r).map Prod.fst ↔ Registered r id := by
  rw [visited, List.map_map, List.mem_map]
  rfl

theorem dependsOn_visited_iff : TopologicalSort.DependsOn (visited r) id dep ↔ Needs r id dep := by
  rw [TopologicalSort.DependsOn, TopologicalSort.depsOf, visited, List.mem_flatMap]
  constructor
  · rintro ⟨node, hnode, hdep⟩
    obtain ⟨m, hm, rfl⟩ := List.mem_map.mp hnode
    split_ifs at hdep with hid
    · exact ⟨m, hm, hid, hdep⟩
    · cases hdep
  · rintro ⟨m, hm, hid, hdep⟩
    refine ⟨(m.id, m.deps), List.mem_map_of_mem hm, ?_⟩
    rw [if_pos hid]
    exact hdep

end Order

/-! ## Cycles -/

/-- Deeper than this the search cannot go: it enters no id twice, and enters listed ids and
dependencies only. -/
def searchDepth (r : RegistryState) : ℕ :=
  (getAllModules r).length + (r.modules.entries.flatMap fun e => e.2.deps).length

/-- `DetectCycles`.  It would be nothing if the recursion went deeper than that. -/
def detectCycles (r : RegistryState) : Option (Option (List ModuleId)) :=
  CycleSearch.searchFrom (fun id => getDependencies id r) (searchDepth r)
    ((getAllModules r).map ModuleDesc.id) {}

/-- What a caller may make of the answer. -/
def CyclesDetected (r : RegistryState) : Prop :=
  ∃ found, detectCycles r = some found ∧ (found = none ↔ ∀ id, ¬ TransGen (Needs r) id id) ∧
    ∀ path ∈ found, path.IsChain (Needs r) ∧
      ∃ front last, path = front ++ [last] ∧ last ∈ front

/-- Listed ids have their modules, and what is not listed needs nothing. -/
structure Tidy (r : RegistryState) : Prop where
  listed : ∀ id ∈ r.loadOrder, ∃ m, r.modules.lookup id = some m ∧ m.id = id
  unlisted : ∀ id m, r.modules.lookup id = some m → id ∉ r.loadOrder → m.deps = []

section Cycles

variable {r : RegistryState} {id dep : ModuleId} {m : ModuleDesc}

theorem Tidy.needs_iff (h : Tidy r) : Needs r id dep ↔ dep ∈ getDependencies id r := by
  rw [getDependencies]
  constructor
  · rintro ⟨m, hm, rfl, hdep⟩
    obtain ⟨id, hid, hlookup⟩ := mem_getAllModules.mp hm
    obtain ⟨m', hm', hkey⟩ := h.listed id hid
    rw [hlookup] at hm'
    cases hm'
    rw [hkey, hlookup]
    exact hdep
  · intro hdep
    cases hlookup : r.modules.lookup id with
    | none =>
        rw [hlookup] at hdep
        cases hdep
    | some m =>
        rw [hlookup] at hdep
        have hid : id ∈ r.loadOrder := by
          by_contra hid
          have hnone := h.unlisted id m hlookup hid
          have hdep : dep ∈ m.deps := hdep
          rw [hnone] at hdep
          cases hdep
        obtain ⟨m', hm', hkey⟩ := h.listed id hid
        rw [hlookup] at hm'
        cases hm'
        exact ⟨m, mem_getAllModules.mpr ⟨id, hid, hlookup⟩, hkey, hdep⟩

/-- The ids that a search can come to. -/
def reachableIds (r : RegistryState) : Finset ModuleId :=
  ((getAllModules r).map ModuleDesc.id ++ r.modules.entries.flatMap fun e => e.2.deps).toFinset

theorem mem_reachableIds_of_dep (hdep : dep ∈ getDependencies id r) : dep ∈ reachableIds r := by
  rw [getDependencies] at hdep
  cases hlookup : r.modules.lookup id with
  | none =>
      rw [hlookup] at hdep
      cases hdep
  | some m =>
      rw [hlookup] at hdep
      rw [reachableIds, List.mem_toFinset, List.mem_append, List.mem_flatMap]
      exact .inr ⟨⟨id, m⟩, AList.mem_lookup_iff.mp hlookup, hdep⟩

theorem card_reachableIds (r : RegistryState) : (reachableIds r).card ≤ searchDepth r := by
  apply (List.toFinset_card_le _).trans
  rw [List.length_append, List.length_map, searchDepth]

/-- **The search for cycles** does what it should in a tidy registry. -/
theorem Tidy.cyclesDetected (h : Tidy r) : CyclesDetected r := by
  have hedge : CycleSearch.Edge (fun id => getDependencies id r) = Needs r := by
    funext id dep
    exact propext h.needs_iff.symm
  have hnodes : ∀ a ∈ reachableIds r, ∀ b ∈ getDependencies a r, b ∈ reachableIds r :=
    fun _ _ _ hb => mem_reachableIds_of_dep hb
  have hroots : ∀ a ∈ (getAllModules r).map ModuleDesc.id, a ∈ reachableIds r :=
    fun a ha => List.mem_toFinset.mpr (List.mem_append_left _ ha)
  obtain ⟨found, hfound, hlasso, hnone⟩ :=
    CycleSearch.searchFrom_spec hnodes (card_reachableIds r) hroots CycleSearch.sound_empty rfl
  refine ⟨found, hfound, ⟨fun hn id hcycle => ?_, fun hacyclic => ?_⟩, fun path hpath => ?_⟩
  · -- Whatever lies on a cycle needs something, so it is listed.
    obtain ⟨dep, ⟨m, hm, rfl, -⟩, -⟩ := TransGen.head'_iff.mp hcycle
    refine hnone hn m.id (List.mem_map_of_mem hm) ?_
    rw [hedge]
    exact hcycle
  · cases found with
    | none => rfl
    | some path =>
        obtain ⟨id, hcycle⟩ := (hlasso path rfl).cycle
        rw [hedge] at hcycle
        exact absurd hcycle (hacyclic id)
  · obtain ⟨hchain, hback⟩ := hlasso path hpath
    rw [hedge] at hchain
    exact ⟨hchain, hback⟩

/-! ## Registries that calls can make -/

/-- An entry that keeps its id and its dependencies. -/
theorem Tidy.update (h : Tidy r) (hm : r.modules.lookup id = some m) {m' : ModuleDesc}
    (hid : m'.id = m.id) (hdeps : m'.deps = m.deps) :
    Tidy { r with modules := r.modules.insert id m' } := by
  constructor
  · intro other hother
    dsimp only
    rw [AList.lookup_insert_ite]
    split_ifs with heq
    · subst heq
      obtain ⟨m₀, hm₀, hkey⟩ := h.listed other hother
      rw [hm] at hm₀
      cases hm₀
      exact ⟨m', rfl, hid.trans hkey⟩
    · exact h.listed other hother
  · intro other m₁ hlookup hout
    dsimp only at hlookup
    rw [AList.lookup_insert_ite] at hlookup
    split_ifs at hlookup with heq
    · cases hlookup
      rw [hdeps]
      exact h.unlisted id m hm (heq ▸ hout)
    · exact h.unlisted other m₁ hlookup hout

/-- A module that goes into the load order under its id. -/
theorem Tidy.insert (h : Tidy r) (hid : m.id = id) (byName : NameMap) (next main : ModuleId) :
    Tidy ⟨r.modules.insert id m, byName, r.loadOrder ++ [id], next, main⟩ := by
  constructor
  · intro other hother
    dsimp only
    rw [AList.lookup_insert_ite]
    split_ifs with heq
    · exact ⟨m, rfl, hid.trans heq.symm⟩
    · rcases List.mem_append.mp hother with hother | hother
      · exact h.listed other hother
      · exact absurd (List.mem_singleton.mp hother) heq
  · intro other m₁ hlookup hout
    dsimp only at hlookup
    rw [AList.lookup_insert_ite] at hlookup
    split_ifs at hlookup with heq
    · exact absurd (List.mem_append_right _ (List.mem_singleton.mpr heq)) hout
    · exact h.unlisted other m₁ hlookup fun hin => hout (List.mem_append_left _ hin)

/-- A reference to a name whose module has gone makes an entry that is not listed. -/
theorem Tidy.addReference (h : Tidy r) (id : ModuleId) : Tidy (addReference id r) := by
  rw [ModuleRegistry.addReference]
  cases hm : r.modules.lookup id with
  | some m => exact h.update hm rfl rfl
  | none =>
      have hout : id ∉ r.loadOrder := by
        intro hin
        obtain ⟨m, hm', -⟩ := h.listed id hin
        rw [hm] at hm'
        cases hm'
      constructor
      · intro other hother
        have hne : other ≠ id := ne_of_mem_of_not_mem hother hout
        dsimp only
        rw [AList.lookup_insert_ite, if_neg hne]
        exact h.listed other hother
      · intro other m₁ hlookup hother
        dsimp only at hlookup
        rw [AList.lookup_insert_ite] at hlookup
        split_ifs at hlookup
        · cases hlookup
          rfl
        · exact h.unlisted other m₁ hlookup hother

theorem Tidy.register (h : Tidy r) (name path : List Byte) (elfInfo : ExecutableInfo)
    (isMain : Bool) : Tidy (register name path elfInfo isMain r).2 := by
  cases hname : r.byName.lookup name with
  | some id =>
      rw [register_of_some hname]
      exact h.addReference id
  | none =>
      rw [register_of_none hname]
      exact h.insert (m := newDesc r.nextId name path elfInfo isMain) rfl _ _ _

theorem Tidy.removeModule (h : Tidy r) : Tidy (removeModule id m r) := by
  have hin : ∀ other, other ∈ r.loadOrder.filter (fun other => other != id) ↔
      other ∈ r.loadOrder ∧ other ≠ id := by
    intro other
    rw [List.mem_filter, bne_iff_ne]
  constructor
  · intro other hother
    obtain ⟨hother, hne⟩ := (hin other).mp hother
    show ∃ m, (r.modules.erase id).lookup other = some m ∧ m.id = other
    rw [AList.lookup_erase_ite, if_neg hne]
    exact h.listed other hother
  · intro other m₁ hlookup hout
    have hlookup : (r.modules.erase id).lookup other = some m₁ := hlookup
    rw [AList.lookup_erase_ite] at hlookup
    split_ifs at hlookup with hne
    exact h.unlisted other m₁ hlookup fun hother => hout ((hin other).mpr ⟨hother, hne⟩)

theorem tidy_empty (next : ModuleId) : Tidy { nextId := next } where
  listed := fun id hid => absurd hid List.not_mem_nil
  unlisted := fun id m hlookup => by simp at hlookup

theorem Tidy.step {os : Os} {s t : Session} (h : Tidy s.registry) (a : Op)
    (hstep : ModuleRegistry.step os s a = .ok t) : Tidy t.registry := by
  cases a with
  | register name path elfInfo isMain =>
      cases hstep
      exact h.register name path elfInfo isMain
  | registerDesc desc =>
      cases hstep
      exact h.insert (m := { desc with id := idFor desc s.registry }) rfl _ _ _
  | load heap outside path inspected mapped =>
      obtain ⟨id, hload⟩ := step_load_eq_ok hstep
      -- A file that is known, one that does not load, or a new module.
      rcases load_cases hload with ⟨old, -, hold, -⟩ | ⟨-, -, hsame, -⟩ |
        ⟨-, elfInfo, s₁, bytes, -, hnew, -⟩
      · rw [hold]
        exact h.addReference old
      · rw [hsame]
        exact h
      · rw [hnew]
        exact h.register _ _ _ _
  | retain id =>
      cases hstep
      cases hm : s.registry.modules.lookup id with
      | none =>
          rw [retain_of_none hm]
          exact h
      | some m =>
          rw [retain_of_some hm]
          exact h.update hm rfl rfl
  | unload id =>
      have ht : t.registry = (unload os id s.registry s.loader.mem).2.1 := by
        cases hstep
        rfl
      rw [ht]
      rcases unload_cases os id s.registry s.loader.mem with ⟨-, hun⟩ | ⟨m, hm, hway⟩
      · rw [hun]
        exact h
      rcases hway with ⟨-, hun⟩ | ⟨-, -, hun⟩ | ⟨-, -, hun⟩
      · rw [hun]
        exact h.update hm rfl rfl
      · rw [hun]
        exact h
      · rw [hun]
        -- Only the last reference takes the module away.
        exact h.removeModule
  | reset =>
      cases hstep
      exact tidy_empty _

/-- **Cycle detection.**  In every registry that calls can make, the search ends; it finds
nothing exactly if the registered modules have no cycle of dependencies, and a path that it
finds follows the dependencies and ends in an id that it has been at before. -/
theorem detectCycles_run (os : Os) (loader : State) (ops : List Op) :
    AllStatesReached (ModuleRegistry.step os) (fun s => CyclesDetected s.registry) ⟨{}, loader⟩
      ops := by
  exact allStatesReached_of_allReached (I := fun s => Tidy s.registry) (G := fun _ _ => True)
    (fun s h => h.cyclesDetected) (fun s a t h _ hstep => h.step a hstep) (tidy_empty 1)
    (allReached_of_forall fun _ _ => trivial)

end Cycles

end DynamicLinker
