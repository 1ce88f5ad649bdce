/-
# Symbol cache of the dynamic linker

`LookupSymbol` keeps what `ResolveSymbol` told it, under the name asked for.  Nothing tells it
when a module goes; whoever unloads one has to.  Between the two, entries of modules that have
gone are stale, and no others are: resolution follows the load order, new modules come last,
and so the first module that exports a name stays the first until it goes itself.
-/
import ChuckStation.RegistryRuns

namespace DynamicLinker

open Memory Loader ModuleRegistry OperationRuns

/-! ## The cache -/

/-- `struct CachedSymbol`. -/
structure CachedSymbol where
  name : List Byte := []
  address : U64 := 0
  moduleId : ModuleId := INVALID_MODULE
  hitCount : U64 := 0
  deriving DecidableEq, Repr

abbrev SymbolCache := AList fun _ : List Byte => CachedSymbol

/-- `struct LinkerState`, the part about symbols. -/
structure LinkerState where
  cache : SymbolCache := ∅
  cacheHits : U64 := 0
  cacheMisses : U64 := 0

/-- What the cache keeps of a symbol. -/
def cachedOf (sym : ExportedSymbol) : CachedSymbol where
  name := sym.name
  address := sym.address
  moduleId := sym.owner
  hitCount := 1

/-- `LookupSymbol`. -/
def lookupSymbol (name : List Byte) (r : RegistryState) (ls : LinkerState) :
    Option CachedSymbol × LinkerState :=
  match ls.cache.lookup name with
  | some cs =>
    let cs := { cs with hitCount := cs.hitCount + 1 }
    (some cs, { ls with cache := ls.cache.insert name cs, cacheHits := ls.cacheHits + 1 })
  | none =>
    let ls := { ls with cacheMisses := ls.cacheMisses + 1 }
    match resolveSymbol name r with
    | none => (none, ls)
    | some sym => (some (cachedOf sym), { ls with cache := ls.cache.insert name (cachedOf sym) })

/-- `InvalidateCache`. -/
def invalidateCache (id : ModuleId) (ls : LinkerState) : LinkerState :=
  { ls with
    cache := ⟨ls.cache.entries.filter fun e => e.2.moduleId != id,
      ls.cache.nodupKeys.sublist List.filter_sublist⟩ }

/-- `ClearCache`. -/
def clearCache (ls : LinkerState) : LinkerState := { ls with cache := ∅ }

/-! ## Calls -/

/-- The registry with what it works on, the linker, and the modules that were removed and not
yet taken out of the cache. -/
structure Linked where
  session : Session
  linker : LinkerState := {}
  pending : List ModuleId := []

inductive Call where
  | register (name path : List Byte) (elfInfo : ExecutableInfo) (isMain : Bool)
  | retain (id : ModuleId)
  | unload (id : ModuleId)
  | lookupSymbol (name : List Byte)
  | invalidateCache (id : ModuleId)
  | clearCache

def step (os : Os) (w : Linked) : Call → Linked
  | .register name path elfInfo isMain =>
      { w with session := { w.session with
          registry := (register name path elfInfo isMain w.session.registry).2 } }
  | .retain id =>
      { w with session := { w.session with registry := (retain id w.session.registry).2 } }
  | .unload id =>
      match unload os id w.session.registry w.session.loader.mem with
      | (_, registry, mem) =>
        { w with
          session := ⟨registry, { w.session.loader with mem := mem }⟩
          pending :=
            if id ∈ w.session.registry.modules ∧ id ∉ registry.modules then id :: w.pending
            else w.pending }
  | .lookupSymbol name =>
      { w with linker := (lookupSymbol name w.session.registry w.linker).2 }
  | .invalidateCache id =>
      { w with
        linker := invalidateCache id w.linker
        pending := w.pending.filter fun other => other != id }
  | .clearCache => { w with linker := clearCache w.linker }

/-! ## Coherence -/

/-- With no removed module left in the cache, a lookup of any name finds what the registry
would resolve it to, and nothing exactly if the registry finds nothing. -/
def Coherent (w : Linked) : Prop :=
  w.pending = [] → ∀ name,
    (lookupSymbol name w.session.registry w.linker).1.map (fun cs => (cs.address, cs.moduleId)) =
      (resolveSymbol name w.session.registry).map fun sym => (sym.address, sym.owner)

/-- What keeps it: the registry's containers agree (but for the main module), symbols know
their modules, and an entry that is not about a removed module is what resolution finds. -/
structure Kept (w : Linked) : Prop where
  consistent : Consistent { w.session.registry with mainModule := INVALID_MODULE }
  owner : ∀ id m, w.session.registry.modules.lookup id = some m → ∀ sym ∈ m.exports, sym.owner = id
  cached : ∀ name cs, w.linker.cache.lookup name = some cs → cs.moduleId ∈ w.pending ∨
    ∃ sym, resolveSymbol name w.session.registry = some sym ∧ sym.address = cs.address ∧
      sym.owner = cs.moduleId

section Resolution

variable {r r' : RegistryState} {name : List Byte} {sym : ExportedSymbol} {id : ModuleId}
  {m m' : ModuleDesc}

/-- Leaving out elements that are not the first hit. -/
theorem findSome?_filter {α β : Type*} {f g : α → Option β} {p : α → Bool} {b : β} {l : List α}
    (hfg : ∀ x ∈ l, p x = true → g x = f x) (hhit : ∀ x, f x = some b → p x = true)
    (h : l.findSome? f = some b) : (l.filter p).findSome? g = some b := by
  induction l with
  | nil => cases h
  | cons x l ih =>
      obtain ⟨hx, hrest⟩ := List.forall_mem_cons.mp hfg
      rw [List.findSome?_cons] at h
      cases hfx : f x with
      | some b' =>
          rw [hfx] at h
          cases h
          have hpx := hhit x hfx
          rw [List.filter_cons_of_pos hpx, List.findSome?_cons, hx hpx, hfx]
      | none =>
          rw [hfx] at h
          by_cases hpx : p x = true
          · rw [List.filter_cons_of_pos hpx, List.findSome?_cons, hx hpx, hfx]
            exact ih hrest h
          · rw [List.filter_cons_of_neg hpx]
            exact ih hrest h

/-- The module that a symbol was found in. -/
theorem exists_of_resolveSymbol (h : resolveSymbol name r = some sym) :
    ∃ id m, r.modules.lookup id = some m ∧ sym ∈ m.exports := by
  rw [resolveSymbol] at h
  obtain ⟨id, -, hid⟩ := List.exists_of_findSome?_eq_some h
  obtain ⟨m, hm, hfind⟩ := Option.bind_eq_some_iff.mp hid
  exact ⟨id, m, hm, List.mem_of_find?_eq_some hfind⟩

/-- A new entry with the same exports. -/
theorem resolveSymbol_update (hm : r.modules.lookup id = some m) (hexports : m'.exports = m.exports)
    (name : List Byte) :
    resolveSymbol name { r with modules := r.modules.insert id m' } = resolveSymbol name r := by
  rw [resolveSymbol, resolveSymbol]
  congr 1
  funext other
  rw [AList.lookup_insert_ite]
  split_ifs with heq
  · rw [heq, hm, Option.bind_some, Option.bind_some, hexports]
  · rfl

/-- A module that comes last changes nothing that was found before. -/
theorem resolveSymbol_append {next main : ModuleId} {byName : NameMap}
    (hnew : id ∉ r.loadOrder) (h : resolveSymbol name r = some sym) :
    resolveSymbol name ⟨r.modules.insert id m, byName, r.loadOrder ++ [id], next, main⟩ =
      some sym := by
  rw [resolveSymbol] at h ⊢
  have hsame : (r.loadOrder.filter fun _ => true).findSome? (fun other =>
      ((r.modules.insert id m).lookup other).bind
        fun m => m.exports.find? fun sym => sym.name == name) = some sym := by
    refine findSome?_filter (fun other hother _ => ?_) (fun _ _ => rfl) h
    have hne : other ≠ id := by
      rintro rfl
      exact hnew hother
    rw [AList.lookup_insert_ite, if_neg hne]
  rw [List.filter_true] at hsame
  rw [List.findSome?_append, hsame, Option.some_or]

/-- Nor does a module that goes, if it was not the one. -/
theorem resolveSymbol_remove
    (howner : ∀ id m, r.modules.lookup id = some m → ∀ sym ∈ m.exports, sym.owner = id)
    (h : resolveSymbol name r = some sym) (hne : sym.owner ≠ id) :
    resolveSymbol name (removeModule id m r) = some sym := by
  rw [resolveSymbol] at h ⊢
  refine findSome?_filter (fun other _ hother => ?_) (fun other hother => ?_) h
  · dsimp only [removeModule]
    rw [AList.lookup_erase_ite, if_neg (bne_iff_ne.mp hother)]
  · obtain ⟨m', hm', hfind⟩ := Option.bind_eq_some_iff.mp hother
    have hsym := howner other m' hm' sym (List.mem_of_find?_eq_some hfind)
    rw [bne_iff_ne, ← hsym]
    exact hne

end Resolution

/-! ## One call -/

section Calls

variable {os : Os} {w : Linked}

/-- An entry that counts a hit still says the same. -/
theorem coherent_of_kept (h : Kept w) : Coherent w := by
  intro hpending name
  rw [lookupSymbol]
  cases hcache : w.linker.cache.lookup name with
  | some cs =>
      rcases h.cached name cs hcache with hstale | ⟨sym, hsym, haddress, howner⟩
      · rw [hpending] at hstale
        exact absurd hstale List.not_mem_nil
      · rw [hsym, Option.map_some, Option.map_some, haddress, howner]
  | none =>
      cases hsym : resolveSymbol name w.session.registry with
      | none => rfl
      | some sym => rfl

theorem mem_invalidateCache {id : ModuleId} {ls : LinkerState} {name : List Byte}
    {cs : CachedSymbol} (h : (invalidateCache id ls).cache.lookup name = some cs) :
    ls.cache.lookup name = some cs ∧ cs.moduleId ≠ id := by
  have hmem := AList.mem_lookup_iff.mp h
  obtain ⟨hin, hne⟩ := List.mem_filter.mp hmem
  exact ⟨AList.mem_lookup_iff.mpr hin, bne_iff_ne.mp hne⟩

/-- Entries that stay valid: whatever resolved before, to a module that is not removed, resolves
now. -/
theorem Kept.cached_of {registry : RegistryState} {pending : List ModuleId} (h : Kept w)
    (hpending : ∀ id ∈ w.pending, id ∈ pending)
    (hresolve : ∀ name sym, resolveSymbol name w.session.registry = some sym →
      sym.owner ∈ pending ∨ resolveSymbol name registry = some sym) :
    ∀ name cs, w.linker.cache.lookup name = some cs → cs.moduleId ∈ pending ∨
      ∃ sym, resolveSymbol name registry = some sym ∧ sym.address = cs.address ∧
        sym.owner = cs.moduleId := by
  intro name cs hcs
  rcases h.cached name cs hcs with hstale | ⟨sym, hsym, haddress, howner⟩
  · exact .inl (hpending _ hstale)
  · rcases hresolve name sym hsym with hgone | hstill
    · exact .inl (howner ▸ hgone)
    · exact .inr ⟨sym, hstill, haddress, howner⟩

theorem Kept.update (h : Kept w) {id : ModuleId} {m : ModuleDesc}
    (hm : w.session.registry.modules.lookup id = some m) (m' : ModuleDesc) (hid : m'.id = m.id)
    (hname : m'.name = m.name) (hexports : m'.exports = m.exports) (loader : State) :
    Kept { w with session :=
      ⟨{ w.session.registry with modules := w.session.registry.modules.insert id m' },
        loader⟩ } := by
  refine ⟨h.consistent.update hm hid hname, ?_, ?_⟩
  · intro other m₁ hlookup sym hsym
    dsimp only at hlookup
    rw [AList.lookup_insert_ite] at hlookup
    split_ifs at hlookup with heq
    · cases hlookup
      rw [hexports] at hsym
      rw [heq]
      exact h.owner id m hm sym hsym
    · exact h.owner other m₁ hlookup sym hsym
  · refine h.cached_of (fun _ hin => hin) fun name sym hsym => .inr ?_
    rw [← hsym]
    exact resolveSymbol_update hm hexports name

theorem Kept.registered (h : Kept w) {name : List Byte} (path : List Byte)
    (elfInfo : ExecutableInfo) (isMain : Bool) (hnew : HandsOutNew name w.session.registry) :
    Kept { w with session := { w.session with
      registry := (register name path elfInfo isMain w.session.registry).2 } } := by
  cases hname : w.session.registry.byName.lookup name with
  | some id =>
      obtain ⟨m, hm⟩ := AList.exists_lookup (h.consistent.of_lookup_name hname)
      rw [register_of_some hname]
      dsimp only at hm ⊢
      rw [addReference, hm]
      exact h.update hm { m with refCount := m.refCount + 1 } rfl rfl rfl w.session.loader
  | none =>
      have hunknown : name ∉ w.session.registry.byName := AList.lookup_eq_none.mp hname
      have hfresh := hnew.resolve_left hunknown
      rw [register_of_none hname]
      refine ⟨?_, ?_, ?_⟩
      · exact (consistent_insert_iff h.consistent _ (newDesc _ name path elfInfo isMain) _ _ rfl
          (.inl rfl)).mpr ⟨hfresh, hunknown⟩
      · intro other m hlookup sym hsym
        dsimp only at hlookup
        rw [AList.lookup_insert_ite] at hlookup
        split_ifs at hlookup with heq
        · cases hlookup
          obtain ⟨sym₀, -, rfl⟩ := List.mem_map.mp hsym
          exact heq.symm
        · exact h.owner other m hlookup sym hsym
      · refine h.cached_of (fun _ hin => hin) fun other sym hsym => .inr ?_
        refine resolveSymbol_append (fun hin => ?_) hsym
        exact hfresh ((h.consistent.order _).mp hin)

theorem Kept.removed (h : Kept w) {id : ModuleId} {m : ModuleDesc}
    (hm : w.session.registry.modules.lookup id = some m) (loader : State) :
    Kept { w with
      session := ⟨removeModule id m w.session.registry, loader⟩
      pending := id :: w.pending } := by
  refine ⟨?_, ?_, ?_⟩
  · exact (consistent_removeModule_iff h.consistent hm).mpr fun hzero => hzero.symm
  · intro other m₁ hlookup sym hsym
    simp only [removeModule, AList.lookup_erase_ite] at hlookup
    split_ifs at hlookup
    exact h.owner other m₁ hlookup sym hsym
  · refine h.cached_of (fun _ hin => List.mem_cons_of_mem _ hin) fun name sym hsym => ?_
    by_cases hgone : sym.owner = id
    · exact .inl (hgone ▸ List.mem_cons_self)
    · exact .inr (resolveSymbol_remove h.owner hsym hgone)

theorem Kept.unloaded (h : Kept w) (os : Os) (id : ModuleId) :
    Kept (step os w (.unload id)) := by
  rw [step]
  rcases unload_cases os id w.session.registry w.session.loader.mem with ⟨hm, hun⟩ | ⟨m, hm, hway⟩
  · rw [hun]
    dsimp only
    rw [if_neg fun hand => hand.2 hand.1]
    exact h
  rcases hway with ⟨-, hun⟩ | ⟨-, -, hun⟩ | ⟨-, -, hun⟩
  · rw [hun]
    dsimp only
    rw [if_neg fun hand => hand.2 ((AList.mem_insert _).mpr (.inl rfl))]
    exact h.update hm { m with refCount := m.refCount - 1 } rfl rfl rfl _
  · rw [hun]
    dsimp only
    rw [if_neg fun hand => hand.2 hand.1]
    exact h
  · rw [hun]
    dsimp only
    rw [if_pos ⟨AList.mem_of_lookup hm, fun hin => (AList.mem_erase.mp hin).1 rfl⟩]
    exact h.removed hm _

theorem Kept.lookedUp (h : Kept w) (name : List Byte) :
    Kept { w with linker := (lookupSymbol name w.session.registry w.linker).2 } := by
  refine ⟨h.consistent, h.owner, fun other cs hcs => ?_⟩
  rw [lookupSymbol] at hcs
  cases hcache : w.linker.cache.lookup name with
  | some old =>
      rw [hcache] at hcs
      dsimp only at hcs
      by_cases heq : other = name
      · rw [heq, AList.lookup_insert] at hcs
        cases hcs
        rw [heq]
        exact h.cached name old hcache
      · rw [AList.lookup_insert_ne heq] at hcs
        exact h.cached other cs hcs
  | none =>
      rw [hcache] at hcs
      cases hsym : resolveSymbol name w.session.registry with
      | none =>
          rw [hsym] at hcs
          exact h.cached other cs hcs
      | some sym =>
          rw [hsym] at hcs
          dsimp only at hcs
          by_cases heq : other = name
          · rw [heq, AList.lookup_insert] at hcs
            cases hcs
            rw [heq]
            exact .inr ⟨sym, hsym, rfl, rfl⟩
          · rw [AList.lookup_insert_ne heq] at hcs
            exact h.cached other cs hcs

/-- A registration finds its name or is handed the id of no module that is there. -/
def HandsOut (w : Linked) : Call → Prop
  | .register name _ _ _ => HandsOutNew name w.session.registry
  | _ => True

/-- One call. -/
theorem Kept.step (h : Kept w) (call : Call) (hcall : HandsOut w call) :
    Kept (DynamicLinker.step os w call) := by
  cases call with
  | register name path elfInfo isMain => exact h.registered path elfInfo isMain hcall
  | retain id =>
      rw [DynamicLinker.step]
      cases hm : w.session.registry.modules.lookup id with
      | none =>
          rw [retain_of_none hm]
          exact h
      | some m =>
          rw [retain_of_some hm]
          exact h.update hm { m with refCount := m.refCount + 1 } rfl rfl rfl w.session.loader
  | unload id => exact h.unloaded os id
  | lookupSymbol name => exact h.lookedUp name
  | invalidateCache id =>
      refine ⟨h.consistent, h.owner, fun name cs hcs => ?_⟩
      obtain ⟨hold, hne⟩ := mem_invalidateCache hcs
      refine (h.cached name cs hold).imp_left fun hin => ?_
      exact List.mem_filter.mpr ⟨hin, bne_iff_ne.mpr hne⟩
  | clearCache =>
      refine ⟨h.consistent, h.owner, fun name cs hcs => ?_⟩
      dsimp only [DynamicLinker.step, clearCache] at hcs
      rw [AList.lookup_empty] at hcs
      cases hcs

end Calls

/-! ## Runs -/

/-- **The symbol cache is coherent** in every state of a run from the empty registry, as long as
no registration is handed the id of a module that is still there. -/
theorem coherent_run (os : Os) (loader : State) {calls : List Call}
    (hcalls : AllSteps (step os) HandsOut ⟨⟨{}, loader⟩, {}, []⟩ calls) :
    AllStates (step os) Coherent ⟨⟨{}, loader⟩, {}, []⟩ calls := by
  refine allStates_of_allSteps (fun w => coherent_of_kept) (fun w call h hcall => h.step call hcall)
    ⟨consistent_empty 1, ?_, ?_⟩ hcalls
  · intro id m hlookup
    simp at hlookup
  · intro name cs hcs
    simp at hcs

/-- An executable with one function, `x`. -/
def exporting (value : U64) : ExecutableInfo :=
  { symbols := [{ name := [0x78], value := value, type := STT_FUNC, shndx := 1 }] }

/-- A module is found, unloaded and taken out of the cache, and its symbol is gone. -/
theorem coherent_run_invalidated :
    AllStates (step refusingOs) Coherent ⟨emptySession, {}, []⟩
      [.register [0x61] [] (exporting 1) false, .lookupSymbol [0x78], .unload 1,
        .invalidateCache 1, .lookupSymbol [0x78]] := by
  have hcalls : AllSteps (step refusingOs) HandsOut ⟨emptySession, {}, []⟩
      [.register [0x61] [] (exporting 1) false, .lookupSymbol [0x78], .unload 1,
        .invalidateCache 1, .lookupSymbol [0x78]] :=
    ⟨.inr (AList.notMem_empty _), trivial, trivial, trivial, trivial, trivial⟩
  exact coherent_run refusingOs ⟨{}, emptyProcess⟩ hcalls

/-! ## When the ids come round -/

/-- Registrations and removals of a module `b`, `k` times, from the id `id` on. -/
def rounds : ℕ → ModuleId → List Call
  | 0, _ => []
  | k + 1, id =>
    .register [0x62] [] {} false :: .unload id :: .invalidateCache id :: rounds k (id + 1)

/-- The module `a` exports `x`, which is looked up; the other ids are used up; a module `c` that
exports `x` is registered. -/
def reusedIds : List Call :=
  .register [0x61] [] (exporting 1) false :: .lookupSymbol [0x78] ::
    (rounds (2 ^ 32 - 1) 2 ++ [.register [0x63] [] (exporting 2) false])

/-- The module `a` is registered and its symbol is cached. -/
def withOneModule (next : ModuleId) : Linked where
  session :=
    { registry :=
        { modules := AList.singleton 1 (newDesc 1 [0x61] [] (exporting 1) false)
          byName := AList.singleton [0x61] 1
          loadOrder := [1]
          nextId := next }
      loader := ⟨{}, emptyProcess⟩ }
  linker :=
    { cache := AList.singleton [0x78]
        { name := [0x78], address := 1, moduleId := 1, hitCount := 1 }
      cacheMisses := 1 }

/-- What was not there is put in and taken out. -/
theorem erase_insert {α : Type*} {β : α → Type*} [DecidableEq α] {a : α} {s : AList β}
    (h : a ∉ s) (b : β a) : (s.insert a b).erase a = s := by
  apply AList.ext
  have hentries : ((s.insert a b).erase a).entries = List.kerase a (s.insert a b).entries := rfl
  rw [hentries, AList.entries_insert_of_notMem h]
  exact List.kerase_cons_eq (s := ⟨a, b⟩) rfl

/-- One round leaves no trace but in the counter. -/
theorem step_round {id : ModuleId} (hid : id ≠ 1) :
    step refusingOs (step refusingOs (step refusingOs (withOneModule id)
      (.register [0x62] [] {} false)) (.unload id)) (.invalidateCache id) =
        withOneModule (id + 1) := by
  let r := (withOneModule id).session.registry
  let m := newDesc id [0x62] [] {} false
  let r₁ : RegistryState := ⟨r.modules.insert id m, r.byName.insert [0x62] id, [1, id], id + 1, 0⟩
  have hmodule : id ∉ r.modules := fun hin => hid (List.mem_singleton.mp hin)
  have hname : ([0x62] : List Byte) ∉ r.byName := by
    intro hin
    exact absurd (List.mem_singleton.mp hin) (by decide)
  -- The name is not known, so a module is made.
  have hregister : register [0x62] [] {} false r = (id, r₁) :=
    register_of_none (AList.lookup_eq_none.mpr hname) [] {} false
  have hm : r₁.modules.lookup id = some m := AList.lookup_insert _
  -- The other module depends on nothing.
  have hdeps : hasDependents id r₁ = false := by
    have hentries : r₁.modules.entries = ⟨id, m⟩ :: r.modules.entries :=
      AList.entries_insert_of_notMem hmodule
    rw [hasDependents, hentries]
    simp [r, withOneModule, AList.singleton, newDesc]
  -- What the registration has put in comes out again.
  have hremove : removeModule id m r₁ = { r with nextId := id + 1 } := by
    have horder : [1, id].filter (fun other => other != id) = [1] := by
      have hother : ∀ other ∈ [(1 : ModuleId)], (other != id) = true := by
        intro other hin
        rw [List.mem_singleton.mp hin]
        exact bne_iff_ne.mpr (Ne.symm hid)
      have hsplit : [1, id] = [1] ++ [id] := rfl
      rw [hsplit, List.filter_append, List.filter_eq_self.mpr hother,
        List.filter_cons_of_neg (by simp), List.filter_nil, List.append_nil]
    have hmodules : r₁.modules.erase id = r.modules := erase_insert hmodule m
    have hnames : r₁.byName.erase m.name = r.byName := erase_insert hname id
    rw [removeModule, hmodules, hnames]
    show (⟨_, _, [1, id].filter (fun other => other != id), _, _⟩ : RegistryState) = _
    rw [horder]
    rfl
  have hcount : ¬ 1 < m.refCount := by
    show ¬ (1 : U32) < 1
    decide
  have hunload : unload refusingOs id r₁ emptyProcess =
      (true, { r with nextId := id + 1 }, emptyProcess) := by
    rw [unload, hm]
    dsimp only
    rw [if_neg hcount, hdeps, if_neg Bool.false_ne_true, hremove]
    rfl
  have hfirst : step refusingOs (withOneModule id) (.register [0x62] [] {} false) =
      { withOneModule id with session := ⟨r₁, ⟨{}, emptyProcess⟩⟩ } := by
    rw [step, show (withOneModule id).session.registry = r from rfl, hregister]
    rfl
  have hgone : id ∈ r₁.modules ∧ id ∉ ({ r with nextId := id + 1 } : RegistryState).modules :=
    ⟨AList.mem_of_lookup hm, hmodule⟩
  -- The one cached symbol is of the other module.
  have hcache : invalidateCache id (withOneModule id).linker = (withOneModule id).linker := by
    rw [invalidateCache]
    have hkept : (withOneModule id).linker.cache.entries.filter
        (fun e => e.2.moduleId != id) = (withOneModule id).linker.cache.entries := by
      apply List.filter_eq_self.mpr
      intro e he
      rw [List.mem_singleton.mp he]
      exact bne_iff_ne.mpr (Ne.symm hid)
    congr 1
    exact AList.ext hkept
  rw [hfirst, step]
  dsimp only
  rw [hunload]
  dsimp only
  rw [if_pos hgone, step]
  dsimp only
  rw [hcache, List.filter_cons_of_neg (by simp)]
  rfl

theorem foldl_rounds {k : ℕ} (hk : k < 2 ^ 32) {id : ModuleId}
    (hid : ∀ j < k, id + BitVec.ofNat 32 j ≠ 1) :
    (rounds k id).foldl (step refusingOs) (withOneModule id) =
      withOneModule (id + BitVec.ofNat 32 k) := by
  induction k generalizing id with
  | zero => simp [rounds]
  | succ k ih =>
      have hfirst : id ≠ 1 := by
        intro heq
        apply hid 0 (Nat.succ_pos k)
        rw [heq]
        rfl
      have hshift : ∀ j, id + 1 + BitVec.ofNat 32 j = id + BitVec.ofNat 32 (j + 1) := by
        intro j
        rw [BitVec.ofNat_add j 1, BitVec.add_assoc, BitVec.add_comm 1]
        rfl
      rw [rounds, List.foldl_cons, List.foldl_cons, List.foldl_cons, step_round hfirst,
        ih (by omega) fun j hj => ?_, hshift]
      rw [hshift]
      exact hid (j + 1) (by omega)

/-- After 2 ^ 32 registrations a module is handed the id of one that is still there, and the
cache answers with the symbol of the old one. -/
theorem not_coherent_reusedIds :
    ¬ AllStates (step refusingOs) Coherent ⟨emptySession, {}, []⟩ reusedIds := by
  intro h
  have hlast := h _ (List.prefix_refl _)
  have hstart : step refusingOs (step refusingOs ⟨emptySession, {}, []⟩
      (.register [0x61] [] (exporting 1) false)) (.lookupSymbol [0x78]) = withOneModule 2 := rfl
  have hrounds : (rounds (2 ^ 32 - 1) 2).foldl (step refusingOs) (withOneModule 2) =
      withOneModule 1 := by
    refine foldl_rounds (by norm_num) fun j hj heq => ?_
    have hnat := congrArg BitVec.toNat heq
    rw [BitVec.toNat_add, BitVec.toNat_ofNat] at hnat
    simp at hnat
    omega
  rw [reusedIds, List.foldl_cons, List.foldl_cons, hstart, List.foldl_append, hrounds] at hlast
  exact absurd (hlast rfl [0x78]) (by decide)

end DynamicLinker
