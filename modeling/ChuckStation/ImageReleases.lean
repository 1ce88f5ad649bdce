/-
# Releases of loaded images

The record of a loaded executable is copied: into the loader, into the variable of the caller
and into the module registry.  Each copy has its own way of being unloaded, and none tells
the others.  Here the three are one system under its calls, and a ledger beside it notes which
load each copy is of and which ranges its unloading took away.
-/
import ChuckStation.LoaderRanges
import ChuckStation.OperationRuns
import ChuckStation.RegistryRuns
import ChuckStation.ReleaseLedger

namespace ImageReleases

open Memory Loader OperationRuns
open ModuleRegistry (ModuleId ModuleDesc RegistryState releaseModule hasDependents)

/-! ## The system -/

/-- The loader with the memory manager, the variables of its callers, and the registry. -/
structure System where
  loader : State
  vars : ℕ → ExecutableInfo := fun _ => {}
  registry : RegistryState := {}

/-- The calls.  A load comes with what it finds on disk and in the heap. -/
inductive Op where
  | loadExecutable (v : ℕ) (heap : Heap) (path : List Byte) (inspected mapped : Option File)
  | loadFromMemory (data : List Byte)
  | load (heap : Heap) (outside : U64 → Option Byte) (path : List Byte)
      (inspected mapped : Option File)
  | unloadExecutable (v : ℕ)
  | unload (id : ModuleId)
  | resetRegistry
  | resetLoader

namespace System

def setMem (s : System) (mem : Process) : System :=
  { s with loader := { s.loader with mem := mem } }

def setVar (s : System) (v : ℕ) (info : ExecutableInfo) : System :=
  { s with vars := fun v' => if v' = v then info else s.vars v' }

def step (os : Os) (s : System) : Op → Except HostAbort System
  | .loadExecutable v heap path inspected mapped =>
      match loadExecutable os heap path inspected mapped (s.vars v) s.loader with
      | (.abort e, _, _) => .error e
      | (.returned _, out, loader) => .ok ({ s with loader := loader }.setVar v out)
  | .loadFromMemory data =>
      match loadFromMemory os data s.loader with
      | (.abort e, _) => .error e
      | (.returned _, loader) => .ok { s with loader := loader }
  | .load heap outside path inspected mapped =>
      match ModuleRegistry.load os heap outside path inspected mapped s.registry s.loader with
      | .error e => .error e
      | .ok (_, registry, loader) => .ok { s with registry := registry, loader := loader }
  | .unloadExecutable v =>
      match unloadExecutable os (s.vars v) s.loader.mem with
      | (_, info, mem) => .ok ((s.setMem mem).setVar v info)
  | .unload id =>
      match ModuleRegistry.unload os id s.registry s.loader.mem with
      | (_, registry, mem) => .ok { s.setMem mem with registry := registry }
  | .resetRegistry =>
      match ModuleRegistry.reset os s.registry s.loader.mem with
      | (registry, mem) => .ok { s.setMem mem with registry := registry }
  | .resetLoader => .ok { s with loader := Loader.reset os s.loader }

end System

/-! ## The ledger -/

/-- Where the record of an executable can be. -/
inductive Place where
  | current
  | caller (v : ℕ)
  | registered (id : ModuleId)
  deriving DecidableEq

abbrev Book := Ledger Place (U64 × ℕ)

/-- The walk of `ModuleRegistry::Reset` over one id. -/
def resetEntry (os : Os) (r : RegistryState) (x : Process × Book) (id : ModuleId) :
    Process × Book :=
  match r.modules.lookup id with
  | none => x
  | some m => (releaseModule os m x.1, x.2.giveBack (.registered id)
      (x.1.host.releasedSince (releaseModule os m x.1).host))

/-- `ModuleRegistry::Load` comes to load the file, and that succeeds. -/
def LoadsModule (os : Os) (heap : Heap) (path : List Byte) (inspected mapped : Option File)
    (s : System) : Prop :=
  s.registry.byName.lookup (filename path) = none ∧
    (loadExecutable os heap path inspected mapped {} s.loader).1 = .returned .Ok

instance (os : Os) (heap : Heap) (path : List Byte) (inspected mapped : Option File)
    (s : System) : Decidable (LoadsModule os heap path inspected mapped s) :=
  inferInstanceAs (Decidable (_ ∧ _))

/-- What the ledger says after a call that went from `s` to `s'`.  A load that fails may have
changed the caller's variable, which is then no copy any more. -/
def note (os : Os) (s s' : System) (book : Book) : Op → Book
  | .loadExecutable v heap path inspected mapped =>
      if (loadExecutable os heap path inspected mapped (s.vars v) s.loader).1 = .returned .Ok then
        book.acquire [.current, .caller v] (ranges (s'.vars v).segments)
      else if s'.vars v = s.vars v then book
      else book.forget fun p => p == .caller v
  | .loadFromMemory data =>
      if (loadFromMemory os data s.loader).1 = .returned .Ok then
        book.acquire [.current] (ranges s'.loader.current.segments)
      else book
  | .load heap _ path inspected mapped =>
      if LoadsModule os heap path inspected mapped s then
        book.acquire [.current, .registered s.registry.nextId] (ranges s'.loader.current.segments)
      else book
  | .unloadExecutable v =>
      if (s.vars v).loaded then
        book.giveBack (.caller v) (s.loader.mem.host.releasedSince s'.loader.mem.host)
      else book
  | .unload id =>
      if id ∈ s.registry.modules ∧ id ∉ s'.registry.modules then
        book.giveBack (.registered id) (s.loader.mem.host.releasedSince s'.loader.mem.host)
      else book
  | .resetRegistry =>
      (s.registry.loadOrder.reverse.foldl (resetEntry os s.registry) (s.loader.mem, book)).2
  | .resetLoader =>
      book.giveBack .current (s.loader.mem.host.releasedSince s'.loader.mem.host)

/-- The system with its ledger, and what the last call took away. -/
structure Tracked where
  sys : System
  book : Book := {}
  freed : List (U64 × ℕ) := []

namespace Tracked

def host (t : Tracked) : Host := t.sys.loader.mem.host

/-- One call. -/
def step (os : Os) (t : Tracked) (op : Op) : Except HostAbort Tracked :=
  match t.sys.step os op with
  | .error e => .error e
  | .ok s => .ok
      { sys := s
        book := note os t.sys s t.book op
        freed := t.host.releasedSince s.loader.mem.host }

/-- Nothing is loaded. -/
def start (mem : Process) : Tracked := { sys := { loader := { mem := mem } } }

end Tracked

/-- **Every mapping of a load is released exactly once and in full**: what was taken away since
`before` are ranges of loads, each of them once and as a whole, and all of a load's when every
copy of it was unloaded or reset; the others are still mapped, and what the last call took
away is not. -/
structure ReleasedInFull (before : List (U64 × ℕ)) (t : Tracked) : Prop where
  releasedOnce : t.book.ReleasedOnce
  calls : t.host.released = t.book.released.map Prod.snd ++ before
  mapped : ∀ k r, t.book.Outstanding k r → ∀ a, InRange r.1 r.2 a → t.host.prot a ≠ none
  freed : ∀ r ∈ t.freed, ∀ a, InRange r.1 r.2 a → t.host.prot a = none

/-! ## The condition -/

/-- The record has no mappings; or it is a copy of a load none of whose copies was unloaded
before, its sizes are those of its mappings, and the system unmaps them. -/
def MayUnload (os : Os) (book : Book) (p : Place) (segs : List Segment) (mem : Process) : Prop :=
  ranges segs = [] ∨
    ((∃ k, book.holds p = some k ∧ ∀ r, (some k, r) ∉ book.released) ∧ ExactSizes segs ∧
      Grants os segs mem)

/-- What a call unloads may be unloaded. -/
def Orderly (os : Os) (t : Tracked) : Op → Prop
  | .unloadExecutable v => (t.sys.vars v).loaded = true →
      MayUnload os t.book (.caller v) (t.sys.vars v).segments t.sys.loader.mem
  | .unload id => ∀ m, t.sys.registry.modules.lookup id = some m → ¬ 1 < m.refCount →
      hasDependents id t.sys.registry = false → m.loaded = true → m.elfInfo.loaded = true →
      MayUnload os t.book (.registered id) m.elfInfo.segments t.sys.loader.mem
  | .resetRegistry => AllSteps (resetEntry os t.sys.registry)
      (fun x id => ∀ m, t.sys.registry.modules.lookup id = some m → m.loaded = true →
        m.elfInfo.loaded = true → MayUnload os x.2 (.registered id) m.elfInfo.segments x.1)
      (t.sys.loader.mem, t.book) t.sys.registry.loadOrder.reverse
  | .resetLoader =>
      MayUnload os t.book .current t.sys.loader.current.segments t.sys.loader.mem
  | _ => True

/-! ## The invariant -/

/-- The ranges that unloading a record is for. -/
def recordRanges (info : ExecutableInfo) : List (U64 × ℕ) :=
  if info.loaded then ranges info.segments else []

def moduleRanges (m : ModuleDesc) : List (U64 × ℕ) :=
  if m.loaded then recordRanges m.elfInfo else []

/-- The ranges that unloading the record at a place is for. -/
def System.contents (s : System) : Place → List (U64 × ℕ)
  | .current => ranges s.loader.current.segments
  | .caller v => recordRanges (s.vars v)
  | .registered id => ((s.registry.modules.lookup id).map moduleRanges).getD []

/-- A module that has ranges is in the load order. -/
def Listed (r : RegistryState) : Prop :=
  ∀ id m, r.modules.lookup id = some m → moduleRanges m ≠ [] → id ∈ r.loadOrder

/-- The ledger and the address space agree, when the places have these ranges: copies have the
ranges of their load, and all that is outstanding is mapped, each range apart from the
others. -/
structure Good (before : List (U64 × ℕ)) (host : Host) (contents : Place → List (U64 × ℕ))
    (book : Book) : Prop where
  sound : book.Sound
  copies : ∀ p k, book.holds p = some k → book.lots[k]? = some (contents p)
  calls : host.released = book.released.map Prod.snd ++ before
  mapped : ∀ k r, book.Outstanding k r → ∀ a, InRange r.1 r.2 a → host.prot a ≠ none
  apart : ∀ k r k' r', book.Outstanding k r → book.Outstanding k' r' → (k, r) ≠ (k', r') →
    ∀ a, InRange r.1 r.2 a → ¬ InRange r'.1 r'.2 a

section Good

variable {os : Os} {before lot rs : List (U64 × ℕ)} {host host' : Host}
  {contents contents' : Place → List (U64 × ℕ)} {book : Book} {p : Place} {segs : List Segment}
  {mem : Process}

/-- Nothing is taken away, and the copies stay what they are. -/
theorem Good.keep (h : Good before host contents book) (hkeep : host.Keeps host')
    (hcopies : ∀ p k, book.holds p = some k → contents' p = contents p) :
    Good before host' contents' book where
  sound := h.sound
  copies := by
    intro p k hk
    rw [hcopies p k hk]
    exact h.copies p k hk
  calls := hkeep.released.trans h.calls
  mapped := fun k r hr a ha => hkeep.mapped a (h.mapped k r hr a ha)
  apart := h.apart

theorem Good.forget (h : Good before host contents book) (q : Place → Bool) :
    Good before host contents (book.forget q) where
  sound := h.sound.forget q
  copies := by
    intro p k hk
    rw [Ledger.forget] at hk
    dsimp only at hk
    split_ifs at hk
    exact h.copies p k hk
  calls := h.calls
  mapped := h.mapped
  apart := h.apart

/-- A load. -/
theorem Good.acquire (h : Good before host contents book) {places : List Place}
    (hplaces : places ≠ []) (hkeep : host.Keeps host') (hnew : NewRanges host host' lot)
    (hin : ∀ p ∈ places, contents' p = lot)
    (hother : ∀ p ∉ places, ∀ k, book.holds p = some k → contents' p = contents p) :
    Good before host' contents' (book.acquire places lot) where
  sound := h.sound.acquire hplaces hnew.nodup
  copies := by
    intro p k hk
    rw [Ledger.getElem?_acquire]
    rw [Ledger.acquire] at hk
    dsimp only at hk
    split_ifs at hk with hp
    · exact .inr ⟨(Option.some.inj hk).symm, hin p (List.contains_iff_mem.mp hp)⟩
    · left
      rw [hother p (fun hmem => hp (List.contains_iff_mem.mpr hmem)) k hk]
      exact h.copies p k hk
  calls := hkeep.released.trans h.calls
  mapped := by
    intro k r hr a ha
    rcases Ledger.outstanding_acquire hr with hold | ⟨-, hlot⟩
    · exact hkeep.mapped a (h.mapped k r hold a ha)
    · exact hnew.mapped r hlot a ha
  apart := by
    intro k r k' r' hr hr' hne a ha ha'
    rcases Ledger.outstanding_acquire hr with hold | ⟨hk, hlot⟩
    · rcases Ledger.outstanding_acquire hr' with hold' | ⟨-, hlot'⟩
      · -- An old range and a new one: the new one was free.
        exact h.apart k r k' r' hold hold' hne a ha ha'
      · exact h.mapped k r hold a ha (hnew.fresh r' hlot' a ha')
    · rcases Ledger.outstanding_acquire hr' with hold' | ⟨hk', hlot'⟩
      · exact h.mapped k' r' hold' a ha' (hnew.fresh r hlot a ha)
      · -- Two ranges of the new load.
        have hrr : r ≠ r' := by
          rintro rfl
          exact hne (by rw [hk, hk'])
        exact hnew.apart_of_ne hlot hlot' hrr a ha ha'

/-- A copy is given back, with what that takes away. -/
theorem Good.giveBack (h : Good before host contents book) (hfrees : host.Frees host' rs)
    (hreturns : book.Returns p rs) : Good before host' contents (book.giveBack p rs) where
  sound := h.sound.giveBack hreturns
  copies := by
    intro p' k hk
    rw [Ledger.giveBack] at hk
    dsimp only at hk
    split_ifs at hk
    exact h.copies p' k hk
  calls := by
    rw [hfrees.released, h.calls, Ledger.giveBack, List.map_append, List.map_map,
      ← List.append_assoc]
    congr 2
    exact (List.map_id rs).symm
  mapped := by
    intro k r hr a ha
    obtain ⟨hold, hnot⟩ := Ledger.outstanding_giveBack hr
    rw [hfrees.prot, if_neg]
    · exact h.mapped k r hold a ha
    -- The ranges that are taken away are outstanding too, and other ones.
    rintro ⟨r', hr', ha'⟩
    rcases hreturns with ⟨-, rfl⟩ | ⟨k', lot, hk', hlot, hperm, hfirst⟩
    · exact absurd hr' List.not_mem_nil
    · have hout : book.Outstanding k' r' := ⟨⟨lot, hlot, hperm.mem_iff.mp hr'⟩, hfirst r'⟩
      refine h.apart k r k' r' hold hout ?_ a ha ha'
      intro heq
      obtain ⟨rfl, rfl⟩ := Prod.mk.inj heq
      exact hnot ⟨hk', hr'⟩
  apart := fun k r k' r' hr hr' =>
    h.apart k r k' r' (Ledger.outstanding_giveBack hr).1 (Ledger.outstanding_giveBack hr').1

/-- Where there are no ranges, nothing has to be released: if there is a copy, it is of a load
that mapped nothing. -/
theorem Good.returns_nil (h : Good before host contents book) (hp : contents p = []) :
    book.Returns p [] := by
  cases hk : book.holds p with
  | none => exact .inl ⟨hk, rfl⟩
  | some k =>
      have hlot := h.copies p k hk
      rw [hp] at hlot
      refine .inr ⟨k, [], hk, hlot, List.Perm.refl _, fun r hr => ?_⟩
      obtain ⟨k', lot, hk', hlot', hin⟩ := h.sound.whole _ r hr
      rw [← Option.some.inj hk', hlot, Option.some.injEq] at hlot'
      rw [← hlot'] at hin
      exact absurd hin List.not_mem_nil

/-- An unload that may be: the copy's ranges are taken away. -/
theorem Good.unload (h : Good before mem.host contents book)
    (hmay : MayUnload os book p segs mem) (hp : contents p = ranges segs) :
    Good before (unmapSegments os segs mem).host contents (book.giveBack p
        (mem.host.releasedSince (unmapSegments os segs mem).host)) ∧
      mem.host.Frees (unmapSegments os segs mem).host
        (mem.host.releasedSince (unmapSegments os segs mem).host) := by
  rcases hmay with hnone | ⟨⟨k, hk, hfirst⟩, hsizes, hgrants⟩
  · rw [unmapSegments_of_ranges os mem hnone, (Host.Keeps.refl _).releasedSince]
    exact ⟨h.giveBack (Host.Frees.nil _) (h.returns_nil (hp.trans hnone)), Host.Frees.nil _⟩
  · have hfrees := frees_unmapSegments hgrants hsizes
    rw [hfrees.releasedSince]
    refine ⟨h.giveBack hfrees (.inr ⟨k, ranges segs, hk, ?_, List.reverse_perm _, hfirst⟩), hfrees⟩
    rw [← hp]
    exact h.copies p k hk

/-- A module's record, which is unloaded if it counts as loaded twice over. -/
theorem Good.release (h : Good before mem.host contents book) {m : ModuleDesc}
    (hmay : m.loaded = true → m.elfInfo.loaded = true →
      MayUnload os book p m.elfInfo.segments mem) (hp : contents p = moduleRanges m) :
    Good before (releaseModule os m mem).host contents (book.giveBack p
        (mem.host.releasedSince (releaseModule os m mem).host)) ∧
      mem.host.Frees (releaseModule os m mem).host
        (mem.host.releasedSince (releaseModule os m mem).host) := by
  by_cases hloaded : m.loaded = true ∧ m.elfInfo.loaded = true
  · have hmem : releaseModule os m mem = unmapSegments os m.elfInfo.segments mem := by
      rw [releaseModule, if_pos hloaded.1, unloadExecutable, if_pos hloaded.2]
    rw [moduleRanges, recordRanges, if_pos hloaded.1, if_pos hloaded.2] at hp
    rw [hmem]
    exact h.unload (hmay hloaded.1 hloaded.2) hp
  · have hmem : releaseModule os m mem = mem := by
      rw [releaseModule, unloadExecutable]
      split_ifs with hm hinfo
      · exact absurd ⟨hm, hinfo⟩ hloaded
      · rfl
      · rfl
    have hnone : contents p = [] := by
      rw [hp, moduleRanges, recordRanges]
      split_ifs with hm hinfo
      · exact absurd ⟨hm, hinfo⟩ hloaded
      · rfl
      · rfl
    rw [hmem, (Host.Keeps.refl _).releasedSince]
    exact ⟨h.giveBack (Host.Frees.nil _) (h.returns_nil hnone), Host.Frees.nil _⟩

end Good

/-! ## One call -/

section Steps

variable {os : Os} {before : List (U64 × ℕ)} {s : System} {book : Book}

theorem contents_setVar (s : System) (v : ℕ) (info : ExecutableInfo) (p : Place) :
    (s.setVar v info).contents p =
      if p = .caller v then recordRanges info else s.contents p := by
  cases p with
  | current => rfl
  | registered id => rfl
  | caller v' =>
      rw [System.contents, System.setVar]
      dsimp only
      by_cases hv : v' = v
      · rw [if_pos hv, if_pos (by rw [hv])]
      · rw [if_neg hv, if_neg (fun heq => hv (Place.caller.inj heq))]
        rfl

theorem good_loadExecutable (hos : os.Conforms) (h : Good before s.loader.mem.host s.contents book)
    {v : ℕ} {heap : Heap} {path : List Byte} {inspected mapped : Option File} {res : LoadResult}
    {out : ExecutableInfo} {loader : State}
    (hload : loadExecutable os heap path inspected mapped (s.vars v) s.loader =
      (.returned res, out, loader)) :
    s.loader.mem.host.Keeps loader.mem.host ∧
      Good before loader.mem.host (({ s with loader := loader } : System).setVar v out).contents
        (note os s (({ s with loader := loader } : System).setVar v out) book
          (.loadExecutable v heap path inspected mapped)) := by
  obtain ⟨hkeep, hcurrent⟩ :=
    keeps_loadExecutable os heap path inspected mapped (s.vars v) s.loader
  have hvar : (({ s with loader := loader } : System).setVar v out).vars v = out := if_pos rfl
  rw [hload] at hkeep hcurrent
  refine ⟨hkeep, ?_⟩
  rw [note, hload, hvar]
  by_cases hok : res = .Ok
  · subst hok
    obtain ⟨hcopy, hloaded, hnew⟩ := newRanges_loadExecutable hos hload
    rw [if_pos rfl]
    -- The new mappings are held by the current image and by the caller's record of it.
    refine h.acquire (List.cons_ne_nil _ _) hkeep hnew ?_ ?_
    · intro p hp
      rw [contents_setVar]
      rcases List.mem_cons.mp hp with rfl | hp
      · rw [if_neg (by simp), ← hcopy]
        rfl
      · rw [if_pos (List.mem_singleton.mp hp), recordRanges, if_pos hloaded]
    · intro p hp k hk
      rw [contents_setVar, if_neg fun heq => hp (by simp [heq])]
      cases p with
      | current => exact absurd List.mem_cons_self hp
      | caller v' => rfl
      | registered id => rfl
  · have hne : Exit.returned res ≠ .returned .Ok := fun heq => hok (Exit.returned.inj heq)
    -- A load that fails may have written to the record of the caller.
    have hsame := hcurrent hne
    rw [if_neg hne]
    split_ifs with hout
    · refine h.keep hkeep fun p k hk => ?_
      rw [contents_setVar]
      split_ifs with hp
      · rw [hp, hout]
        rfl
      · cases p with
        | current => exact congrArg (fun info : ExecutableInfo => ranges info.segments) hsame
        | caller v' => rfl
        | registered id => rfl
    · refine (h.forget _).keep hkeep fun p k hk => ?_
      rw [Ledger.forget] at hk
      dsimp only at hk
      split_ifs at hk with hp
      rw [contents_setVar, if_neg (by simpa using hp)]
      cases p with
      | current => exact congrArg (fun info : ExecutableInfo => ranges info.segments) hsame
      | caller v' => rfl
      | registered id => rfl

theorem good_loadFromMemory (hos : os.Conforms) (h : Good before s.loader.mem.host s.contents book)
    {data : List Byte} {res : LoadResult} {loader : State}
    (hload : loadFromMemory os data s.loader = (.returned res, loader)) :
    s.loader.mem.host.Keeps loader.mem.host ∧
      Good before loader.mem.host ({ s with loader := loader } : System).contents
        (note os s { s with loader := loader } book (.loadFromMemory data)) := by
  obtain ⟨hkeep, hcurrent⟩ := keeps_loadFromMemory os data s.loader
  rw [hload] at hkeep hcurrent
  refine ⟨hkeep, ?_⟩
  rw [note, hload]
  by_cases hok : res = .Ok
  · subst hok
    rw [if_pos rfl]
    refine h.acquire (List.cons_ne_nil _ _) hkeep (newRanges_loadFromMemory hos hload) ?_ ?_
    · intro p hp
      rw [List.mem_singleton.mp hp]
      rfl
    · intro p hp k hk
      cases p with
      | current => exact absurd List.mem_cons_self hp
      | caller v' => rfl
      | registered id => rfl
  · have hne : Exit.returned res ≠ .returned .Ok := fun heq => hok (Exit.returned.inj heq)
    rw [if_neg hne]
    refine h.keep hkeep fun p k hk => ?_
    cases p with
    | current => exact congrArg (fun info : ExecutableInfo => ranges info.segments) (hcurrent hne)
    | caller v' => rfl
    | registered id => rfl

/-- What `Load` does to the registry's records when it has not loaded anything. -/
theorem contents_addReference (s : System) (id : ModuleId) (p : Place) :
    ({ s with registry := ModuleRegistry.addReference id s.registry } : System).contents p =
      s.contents p := by
  cases p with
  | current => rfl
  | caller v => rfl
  | registered other =>
      simp only [System.contents, ModuleRegistry.addReference, AList.lookup_insert_ite]
      by_cases hid : other = id
      · subst hid
        rw [if_pos rfl]
        cases s.registry.modules.lookup other with
        | none => rfl
        | some m => rfl
      · rw [if_neg hid]

/-- What it does to them when it has. -/
theorem contents_register (s : System) {name : List Byte}
    (hname : s.registry.byName.lookup name = none) (path : List Byte) (info : ExecutableInfo)
    (p : Place) :
    ({ s with registry := (ModuleRegistry.register name path info false s.registry).2 } :
        System).contents p =
      if p = .registered s.registry.nextId then recordRanges info else s.contents p := by
  rw [ModuleRegistry.register_of_none hname]
  cases p with
  | current => rfl
  | caller v => rfl
  | registered id =>
      simp only [System.contents, AList.lookup_insert_ite, Place.registered.injEq]
      split_ifs
      · rfl
      · rfl

theorem good_load (hos : os.Conforms) (h : Good before s.loader.mem.host s.contents book)
    {heap : Heap} {outside : U64 → Option Byte} {path : List Byte}
    {inspected mapped : Option File} {id : ModuleId} {registry : RegistryState} {loader : State}
    (hload : ModuleRegistry.load os heap outside path inspected mapped s.registry s.loader =
      .ok (id, registry, loader)) :
    s.loader.mem.host.Keeps loader.mem.host ∧
      Good before loader.mem.host
        ({ s with registry := registry, loader := loader } : System).contents
        (note os s { s with registry := registry, loader := loader } book
          (.load heap outside path inspected mapped)) := by
  rcases ModuleRegistry.load_cases hload with ⟨old, hname, rfl, rfl⟩ | ⟨hname, hfail, rfl, rfl⟩ |
    ⟨hname, elfInfo, s₁, bytes, hexec, rfl, rfl⟩
  · have hnot : ¬ LoadsModule os heap path inspected mapped s := by
      rintro ⟨hnone, -⟩
      rw [hname] at hnone
      cases hnone
    refine ⟨Host.Keeps.refl _, ?_⟩
    rw [note, if_neg hnot]
    exact h.keep (Host.Keeps.refl _) fun p k hk => contents_addReference s old p
  · have hnot : ¬ LoadsModule os heap path inspected mapped s := fun hloads => hfail hloads.2
    obtain ⟨hkeep, hcurrent⟩ := keeps_loadExecutable os heap path inspected mapped {} s.loader
    refine ⟨hkeep, ?_⟩
    rw [note, if_neg hnot]
    refine h.keep hkeep fun p k hk => ?_
    cases p with
    | current =>
        exact congrArg (fun info : ExecutableInfo => ranges info.segments) (hcurrent hfail)
    | caller v => rfl
    | registered id => rfl
  · have hloads : LoadsModule os heap path inspected mapped s := ⟨hname, by rw [hexec]⟩
    obtain ⟨hkeep, -⟩ := keeps_loadExecutable os heap path inspected mapped {} s.loader
    rw [hexec] at hkeep
    obtain ⟨rfl, hloaded, hnew⟩ := newRanges_loadExecutable hos hexec
    refine ⟨hkeep.trans (Host.Keeps.bytes _ _), ?_⟩
    rw [note, if_pos hloads]
    -- The relocations change bytes, which no range is about.
    refine h.acquire (List.cons_ne_nil _ _) (hkeep.trans (Host.Keeps.bytes _ _))
      ⟨hnew.positive, hnew.apart, hnew.fresh, hnew.mapped⟩ ?_ ?_
    · intro p hp
      rcases List.mem_cons.mp hp with rfl | hp
      · rfl
      · obtain rfl := List.mem_singleton.mp hp
        refine (contents_register s hname path s₁.current (.registered _)).trans ?_
        rw [if_pos rfl, recordRanges, if_pos hloaded]
    · intro p hp k hk
      have hid : p ≠ .registered s.registry.nextId := fun heq => hp (by simp [heq])
      cases p with
      | current => exact absurd List.mem_cons_self hp
      | caller v => rfl
      | registered id =>
          exact (contents_register s hname path s₁.current _).trans (if_neg hid)

theorem good_unloadExecutable (h : Good before s.loader.mem.host s.contents book) {v : ℕ}
    (hmay : (s.vars v).loaded = true →
      MayUnload os book (.caller v) (s.vars v).segments s.loader.mem)
    {res : LoadResult} {info : ExecutableInfo} {mem : Process}
    (hunload : unloadExecutable os (s.vars v) s.loader.mem = (res, info, mem)) :
    (∃ rs, s.loader.mem.host.Frees mem.host rs) ∧
      Good before mem.host ((s.setMem mem).setVar v info).contents
        (note os s ((s.setMem mem).setVar v info) book (.unloadExecutable v)) := by
  rw [unloadExecutable] at hunload
  split_ifs at hunload with hloaded
  · obtain ⟨-, rfl, rfl⟩ := hunload
    have hp : s.contents (.caller v) = ranges (s.vars v).segments := if_pos hloaded
    obtain ⟨hgood, hfrees⟩ := h.unload (hmay hloaded) hp
    refine ⟨⟨_, hfrees⟩, ?_⟩
    rw [note, if_pos hloaded]
    refine hgood.keep (Host.Keeps.refl _) fun p k hk => ?_
    rw [Ledger.giveBack] at hk
    dsimp only at hk
    split_ifs at hk with hne
    rw [contents_setVar, if_neg hne]
    cases p <;> rfl
  · obtain ⟨-, rfl, rfl⟩ := hunload
    refine ⟨⟨[], Host.Frees.nil _⟩, ?_⟩
    rw [note, if_neg hloaded]
    refine h.keep (Host.Keeps.refl _) fun p k hk => ?_
    rw [contents_setVar]
    split_ifs with hp
    · rw [hp]
      rfl
    · cases p <;> rfl

theorem good_resetLoader (h : Good before s.loader.mem.host s.contents book)
    (hmay : MayUnload os book .current s.loader.current.segments s.loader.mem) :
    (∃ rs, s.loader.mem.host.Frees (Loader.reset os s.loader).mem.host rs) ∧
      Good before (Loader.reset os s.loader).mem.host
        ({ s with loader := Loader.reset os s.loader } : System).contents
        (note os s { s with loader := Loader.reset os s.loader } book .resetLoader) := by
  obtain ⟨hgood, hfrees⟩ := h.unload hmay rfl
  refine ⟨⟨_, hfrees⟩, ?_⟩
  refine hgood.keep (Host.Keeps.refl _) fun p k hk => ?_
  rw [Ledger.giveBack] at hk
  dsimp only at hk
  split_ifs at hk with hp
  cases p with
  | current => exact absurd rfl hp
  | caller v => rfl
  | registered id => rfl

/-- What `Unload` does to the records of the modules it leaves. -/
theorem contents_unload (os : Os) (s : System) (id : ModuleId) (mem : Process) {p : Place}
    (hp : (id ∈ s.registry.modules →
        id ∈ (ModuleRegistry.unload os id s.registry s.loader.mem).2.1.modules) ∨
      p ≠ .registered id) :
    ({ s.setMem mem with
        registry := (ModuleRegistry.unload os id s.registry s.loader.mem).2.1 } :
      System).contents p = s.contents p := by
  cases p with
  | current => rfl
  | caller v => rfl
  | registered other =>
      rcases ModuleRegistry.unload_cases os id s.registry s.loader.mem with ⟨-, hun⟩ |
        ⟨m, hm, ⟨-, hun⟩ | ⟨-, -, hun⟩ | ⟨-, -, hun⟩⟩
      · rw [hun]
        rfl
      · rw [hun]
        simp only [System.contents, AList.lookup_insert_ite]
        by_cases hid : other = id
        · rw [if_pos hid, hid, hm]
          rfl
        · rw [if_neg hid]
      · rw [hun]
        rfl
      · have hid : other ≠ id := by
          rintro rfl
          rw [hun] at hp
          rcases hp with hin | hne
          · exact (AList.mem_erase.mp (hin (AList.mem_of_lookup hm))).1 rfl
          · exact hne rfl
        rw [hun]
        simp only [System.contents, ModuleRegistry.removeModule, AList.lookup_erase_ite,
          if_neg hid]

/-- A module leaves the registry, or nothing is released. -/
theorem note_unload (os : Os) (s s' : System) (book : Book) {id : ModuleId}
    (h : id ∈ s.registry.modules → id ∈ s'.registry.modules) :
    note os s s' book (.unload id) = book :=
  if_neg fun hgone => hgone.2 (h hgone.1)

theorem good_unload (h : Good before s.loader.mem.host s.contents book) {id : ModuleId}
    (hmay : ∀ m, s.registry.modules.lookup id = some m → ¬ 1 < m.refCount →
      hasDependents id s.registry = false → m.loaded = true → m.elfInfo.loaded = true →
      MayUnload os book (.registered id) m.elfInfo.segments s.loader.mem)
    {result : Bool} {registry : RegistryState} {mem : Process}
    (hunload : ModuleRegistry.unload os id s.registry s.loader.mem = (result, registry, mem)) :
    (∃ rs, s.loader.mem.host.Frees mem.host rs) ∧
      Good before mem.host ({ s.setMem mem with registry := registry } : System).contents
        (note os s { s.setMem mem with registry := registry } book (.unload id)) := by
  have hcontents := fun p => contents_unload os s id mem (p := p)
  rw [hunload] at hcontents
  -- Nothing is released while the module stays.
  have hstays : mem = s.loader.mem → (id ∈ s.registry.modules → id ∈ registry.modules) →
      (∃ rs, s.loader.mem.host.Frees mem.host rs) ∧
        Good before mem.host ({ s.setMem mem with registry := registry } : System).contents
          (note os s { s.setMem mem with registry := registry } book (.unload id)) := by
    intro hmem hin
    rw [note_unload os s { s.setMem mem with registry := registry } book hin]
    subst hmem
    exact ⟨⟨[], Host.Frees.nil _⟩, h.keep (Host.Keeps.refl _) fun p k _ => hcontents p (.inl hin)⟩
  rcases ModuleRegistry.unload_cases os id s.registry s.loader.mem with ⟨hm, hun⟩ |
    ⟨m, hm, ⟨-, hun⟩ | ⟨-, -, hun⟩ | ⟨hcount, hdeps, hun⟩⟩
  · rw [hun] at hunload
    obtain ⟨-, rfl, rfl⟩ := hunload
    exact hstays rfl fun hin => hin
  · rw [hun] at hunload
    obtain ⟨-, rfl, rfl⟩ := hunload
    exact hstays rfl fun _ => (AList.mem_insert _).mpr (.inl rfl)
  · rw [hun] at hunload
    obtain ⟨-, rfl, rfl⟩ := hunload
    exact hstays rfl fun hin => hin
  · rw [hun] at hunload
    obtain ⟨-, rfl, rfl⟩ := hunload
    have hp : s.contents (.registered id) = moduleRanges m := by
      rw [System.contents, hm]
      rfl
    obtain ⟨hgood, hfrees⟩ := h.release (hmay m hm hcount hdeps) hp
    have hgone : id ∉ (ModuleRegistry.removeModule id m s.registry).modules :=
      fun hin => (AList.mem_erase.mp hin).1 rfl
    refine ⟨⟨_, hfrees⟩, ?_⟩
    rw [note, if_pos ⟨AList.mem_of_lookup hm, hgone⟩]
    refine hgood.keep (Host.Keeps.refl _) fun p k hk => ?_
    rw [Ledger.giveBack] at hk
    dsimp only at hk
    split_ifs at hk with hne
    exact hcontents p (.inr hne)

/-- The walk of `ModuleRegistry::Reset` does to the process what the source says. -/
theorem fst_foldl_resetEntry (os : Os) (r : RegistryState) (ids : List ModuleId)
    (x : Process × Book) :
    (ids.foldl (resetEntry os r) x).1 = ids.foldl (fun mem id =>
      match r.modules.lookup id with
      | none => mem
      | some m => releaseModule os m mem) x.1 := by
  induction ids generalizing x with
  | nil => rfl
  | cons id ids ih =>
      rw [List.foldl_cons, List.foldl_cons, ih, resetEntry]
      cases r.modules.lookup id with
      | none => rfl
      | some m => rfl

/-- A place that holds a copy after the walk has held it before, and was not come to. -/
theorem holds_foldl_resetEntry {r : RegistryState} {ids : List ModuleId} {x : Process × Book}
    {p : Place} {k : ℕ} (hk : (ids.foldl (resetEntry os r) x).2.holds p = some k) :
    x.2.holds p = some k ∧
      ∀ id, p = .registered id → id ∈ ids → r.modules.lookup id = none := by
  induction ids generalizing x with
  | nil => exact ⟨hk, fun id _ hid => absurd hid List.not_mem_nil⟩
  | cons id ids ih =>
      obtain ⟨hfirst, hrest⟩ := ih hk
      rw [resetEntry] at hfirst
      cases hm : r.modules.lookup id with
      | none =>
          rw [hm] at hfirst
          refine ⟨hfirst, fun id' hp hid' => ?_⟩
          rcases List.mem_cons.mp hid' with rfl | hid'
          · exact hm
          · exact hrest id' hp hid'
      | some m =>
          rw [hm] at hfirst
          dsimp only [Ledger.giveBack] at hfirst
          split_ifs at hfirst with hne
          refine ⟨hfirst, fun id' hp hid' => ?_⟩
          rcases List.mem_cons.mp hid' with rfl | hid'
          · exact absurd hp hne
          · exact hrest id' hp hid'

theorem good_foldl_resetEntry {r : RegistryState} {contents : Place → List (U64 × ℕ)}
    (hcontents : ∀ id m, r.modules.lookup id = some m →
      contents (.registered id) = moduleRanges m) {ids : List ModuleId} {x : Process × Book}
    (h : Good before x.1.host contents x.2)
    (hall : AllSteps (resetEntry os r) (fun x id => ∀ m, r.modules.lookup id = some m →
      m.loaded = true → m.elfInfo.loaded = true →
      MayUnload os x.2 (.registered id) m.elfInfo.segments x.1) x ids) :
    (∃ rs, x.1.host.Frees (ids.foldl (resetEntry os r) x).1.host rs) ∧
      Good before (ids.foldl (resetEntry os r) x).1.host contents
        (ids.foldl (resetEntry os r) x).2 := by
  induction ids generalizing x with
  | nil => exact ⟨⟨[], Host.Frees.nil _⟩, h⟩
  | cons id ids ih =>
      obtain ⟨hmay, hall⟩ := hall
      rw [List.foldl_cons]
      cases hm : r.modules.lookup id with
      | none =>
          have hskip : resetEntry os r x id = x := by rw [resetEntry, hm]
          rw [hskip] at hall ⊢
          exact ih h hall
      | some m =>
          obtain ⟨hgood, hfirst⟩ := h.release (hmay m hm) (hcontents id m hm)
          have hstep : resetEntry os r x id = (releaseModule os m x.1,
              x.2.giveBack (.registered id)
                (x.1.host.releasedSince (releaseModule os m x.1).host)) := by
            rw [resetEntry, hm]
          rw [hstep] at hall ⊢
          obtain ⟨⟨rs, hfrees⟩, hlast⟩ := ih hgood hall
          exact ⟨⟨_, hfirst.append hfrees⟩, hlast⟩

theorem good_resetRegistry (h : Good before s.loader.mem.host s.contents book)
    (hlisted : Listed s.registry)
    (hall : AllSteps (resetEntry os s.registry) (fun x id => ∀ m,
      s.registry.modules.lookup id = some m → m.loaded = true → m.elfInfo.loaded = true →
      MayUnload os x.2 (.registered id) m.elfInfo.segments x.1)
      (s.loader.mem, book) s.registry.loadOrder.reverse)
    {registry : RegistryState} {mem : Process}
    (hreset : ModuleRegistry.reset os s.registry s.loader.mem = (registry, mem)) :
    (∃ rs, s.loader.mem.host.Frees mem.host rs) ∧
      Good before mem.host ({ s.setMem mem with registry := registry } : System).contents
        (note os s { s.setMem mem with registry := registry } book .resetRegistry) := by
  have hcontents : ∀ id m, s.registry.modules.lookup id = some m →
      s.contents (.registered id) = moduleRanges m := by
    intro id m hm
    rw [System.contents, hm]
    rfl
  obtain ⟨hfrees, hgood⟩ := good_foldl_resetEntry hcontents h hall
  rw [fst_foldl_resetEntry] at hfrees hgood
  obtain ⟨rfl, rfl⟩ := hreset
  refine ⟨hfrees, hgood.keep (Host.Keeps.refl _) fun p k hk => ?_⟩
  cases p with
  | current => rfl
  | caller v => rfl
  | registered id =>
      -- What is still held was not come to, so it has no ranges.
      obtain ⟨-, hnot⟩ := holds_foldl_resetEntry hk
      show [] = s.contents (.registered id)
      rw [System.contents]
      cases hm : s.registry.modules.lookup id with
      | none => rfl
      | some m =>
          by_contra hne
          have hlist := hlisted id m hm fun hnone => hne hnone.symm
          rw [hnot id rfl (List.mem_reverse.mpr hlist)] at hm
          cases hm

theorem listed_load {heap : Heap} {outside : U64 → Option Byte} {path : List Byte}
    {inspected mapped : Option File} {id : ModuleId} {registry : RegistryState} {loader : State}
    (h : Listed s.registry)
    (hload : ModuleRegistry.load os heap outside path inspected mapped s.registry s.loader =
      .ok (id, registry, loader)) : Listed registry := by
  rcases ModuleRegistry.load_cases hload with ⟨old, -, rfl, -⟩ | ⟨-, -, rfl, -⟩ |
    ⟨hname, elfInfo, s₁, bytes, -, rfl, -⟩
  · intro id' m hm hne
    rw [ModuleRegistry.addReference, AList.lookup_insert_ite] at hm
    split_ifs at hm with hid
    · obtain rfl := Option.some.inj hm
      cases hold : s.registry.modules.lookup old with
      | none =>
          rw [hold] at hne
          exact absurd rfl hne
      | some m₀ =>
          rw [hold] at hne
          rw [hid]
          exact h old m₀ hold hne
    · exact h id' m hm hne
  · exact h
  · intro id' m hm hne
    rw [ModuleRegistry.register_of_none hname] at hm ⊢
    dsimp only at hm ⊢
    rw [AList.lookup_insert_ite] at hm
    split_ifs at hm with hid
    · exact List.mem_append_right _ (List.mem_singleton.mpr hid)
    · exact List.mem_append_left _ (h id' m hm hne)

theorem listed_unload (os : Os) (id : ModuleId) {r : RegistryState} (mem : Process)
    (h : Listed r) : Listed (ModuleRegistry.unload os id r mem).2.1 := by
  rcases ModuleRegistry.unload_cases os id r mem with ⟨-, hun⟩ |
    ⟨m, hm, ⟨-, hun⟩ | ⟨-, -, hun⟩ | ⟨-, -, hun⟩⟩
  · rw [hun]
    exact h
  · rw [hun]
    intro other m' hm' hne
    rw [AList.lookup_insert_ite] at hm'
    split_ifs at hm' with hid
    · obtain rfl := Option.some.inj hm'
      rw [hid]
      exact h id m hm hne
    · exact h other m' hm' hne
  · rw [hun]
    exact h
  · rw [hun]
    intro other m' hm' hne
    rw [ModuleRegistry.removeModule, AList.lookup_erase_ite] at hm'
    split_ifs at hm' with hid
    exact List.mem_filter.mpr ⟨h other m' hm' hne, bne_iff_ne.mpr hid⟩

end Steps

/-! ## Runs -/

/-- What every call keeps. -/
structure Kept (before : List (U64 × ℕ)) (t : Tracked) : Prop where
  good : Good before t.host t.sys.contents t.book
  listed : Listed t.sys.registry
  freed : ∀ r ∈ t.freed, ∀ a, InRange r.1 r.2 a → t.host.prot a = none

section Runs

variable {os : Os} {before : List (U64 × ℕ)} {t t' : Tracked} {op : Op}

theorem Kept.releasedInFull (h : Kept before t) : ReleasedInFull before t where
  releasedOnce := h.good.sound.releasedOnce
  calls := h.good.calls
  mapped := h.good.mapped
  freed := h.freed

theorem kept_start (mem : Process) : Kept mem.host.released (Tracked.start mem) where
  good :=
    { sound := Ledger.sound_empty
      copies := fun _ _ hk => nomatch hk
      calls := rfl
      mapped := fun _ _ hr => absurd hr.1.choose_spec.1 (by simp [Tracked.start])
      apart := fun _ _ _ _ hr => absurd hr.1.choose_spec.1 (by simp [Tracked.start]) }
  listed := fun _ _ hm => nomatch hm
  freed := fun _ hr => absurd hr List.not_mem_nil

/-- A call that takes nothing away. -/
theorem freed_of_keeps {h h' : Host} (hkeep : h.Keeps h') :
    ∀ r ∈ h.releasedSince h', ∀ a, InRange r.1 r.2 a → h'.prot a = none := by
  intro r hr
  rw [hkeep.releasedSince] at hr
  exact absurd hr List.not_mem_nil

/-- What a call takes away is not mapped after it. -/
theorem freed_of_frees {h h' : Host} (hfrees : ∃ rs, h.Frees h' rs) :
    ∀ r ∈ h.releasedSince h', ∀ a, InRange r.1 r.2 a → h'.prot a = none := by
  obtain ⟨rs, hfrees⟩ := hfrees
  intro r hr a ha
  rw [hfrees.releasedSince] at hr
  rw [hfrees.prot, if_pos ⟨r, hr, ha⟩]

theorem Kept.step (hos : os.Conforms) (h : Kept before t) (hop : Orderly os t op)
    (hstep : t.step os op = .ok t') : Kept before t' := by
  rw [Tracked.step] at hstep
  cases hsys : t.sys.step os op with
  | error e =>
      rw [hsys] at hstep
      cases hstep
  | ok s =>
      rw [hsys] at hstep
      cases hstep
      cases op with
      | loadExecutable v heap path inspected mapped =>
          rw [System.step] at hsys
          rcases hload : loadExecutable os heap path inspected mapped (t.sys.vars v)
            t.sys.loader with ⟨res | e, out, loader⟩
          · rw [hload] at hsys
            cases hsys
            obtain ⟨hkeep, hgood⟩ := good_loadExecutable hos h.good hload
            exact ⟨hgood, h.listed, freed_of_keeps hkeep⟩
          · rw [hload] at hsys
            cases hsys
      | loadFromMemory data =>
          rw [System.step] at hsys
          rcases hload : loadFromMemory os data t.sys.loader with ⟨res | e, loader⟩
          · rw [hload] at hsys
            cases hsys
            obtain ⟨hkeep, hgood⟩ := good_loadFromMemory hos h.good hload
            exact ⟨hgood, h.listed, freed_of_keeps hkeep⟩
          · rw [hload] at hsys
            cases hsys
      | load heap outside path inspected mapped =>
          rw [System.step] at hsys
          rcases hload : ModuleRegistry.load os heap outside path inspected mapped
            t.sys.registry t.sys.loader with e | ⟨id, registry, loader⟩
          · rw [hload] at hsys
            cases hsys
          · rw [hload] at hsys
            cases hsys
            obtain ⟨hkeep, hgood⟩ := good_load hos h.good hload
            exact ⟨hgood, listed_load h.listed hload, freed_of_keeps hkeep⟩
      | unloadExecutable v =>
          rw [System.step] at hsys
          cases hsys
          obtain ⟨hfrees, hgood⟩ := good_unloadExecutable h.good hop rfl
          exact ⟨hgood, h.listed, freed_of_frees hfrees⟩
      | unload id =>
          rw [System.step] at hsys
          cases hsys
          obtain ⟨hfrees, hgood⟩ := good_unload h.good hop rfl
          exact ⟨hgood, listed_unload os id _ h.listed, freed_of_frees hfrees⟩
      | resetRegistry =>
          rw [System.step] at hsys
          cases hsys
          obtain ⟨hfrees, hgood⟩ := good_resetRegistry h.good h.listed hop rfl
          exact ⟨hgood, fun _ _ hm => (nomatch hm), freed_of_frees hfrees⟩
      | resetLoader =>
          cases hsys
          obtain ⟨hfrees, hgood⟩ := good_resetLoader h.good hop
          exact ⟨hgood, h.listed, freed_of_frees hfrees⟩

/-- **Every mapping of a load is released exactly once and in full**, in every run in which
each record that is unloaded may be. -/
theorem releasedInFull_run (hos : os.Conforms) (mem : Process) {ops : List Op}
    (h : AllReached (Tracked.step os) (Orderly os) (.start mem) ops) :
    AllStatesReached (Tracked.step os) (ReleasedInFull mem.host.released) (.start mem) ops :=
  allStatesReached_of_allReached (fun _ hkept => hkept.releasedInFull)
    (fun _ _ _ hkept hop hstep => hkept.step hos hop hstep) (kept_start mem) h

end Runs

/-! ## Two images -/

section Images

variable {seg : Segment}

/-- A segment without file bytes is mapped where it asks to be. -/
theorem mapLoop_zeros (fetch : Fetch) (hfilesz : seg.filesz = 0) (hmemsz : seg.memsz ≠ 0)
    (hhint : seg.aVa ≠ 0) (hsize : alignUp seg.mapSz PAGE_SIZE ≠ 0)
    (hwrap : seg.aVa.toNat + (alignUp seg.mapSz PAGE_SIZE).toNat < 2 ^ 64)
    (hva : seg.vaddr = seg.aVa)
    (hfits : seg.memsz.toNat ≤ (alignUp seg.mapSz PAGE_SIZE).toNat) :
    ∃ st, mapLoop obligingOs false memoryElf fetch [seg] { mem := emptyProcess } =
      (none, [{ seg with hostBase := seg.aVa }], st) := by
  -- The system grants what it is asked for.
  have hanswer : obligingOs.mmap emptyProcess.host (0 + seg.aVa) (alignUp seg.mapSz PAGE_SIZE)
      (protToMmap Prot.RW) false = some seg.aVa := by
    have hzero : (0 : U64) + seg.aVa = seg.aVa := BitVec.zero_add _
    rw [hzero]
    exact obligingOs_mmap hhint hsize hwrap fun i _ => rfl
  obtain ⟨p, hmap, -, hhost⟩ := map_of_some seg.allocType memoryElf hanswer
  -- The new pages can be written.
  have hallow : p.host.allows canWrite seg.aVa seg.memsz.toNat := by
    intro i hi
    refine ⟨protToMmap Prot.RW, ?_, by decide⟩
    have hin : (seg.aVa + BitVec.ofNat 64 i - seg.aVa).toNat <
        (alignUp seg.mapSz PAGE_SIZE).toNat := by
      rw [add_sub_cancel_left, BitVec.toNat_ofNat]
      exact lt_of_le_of_lt (Nat.mod_le _ _) (lt_of_lt_of_le hi hfits)
    rw [hhost, Host.record_prot, Host.mapZero_prot_of_lt hin]
  -- The file has no bytes for the segment, so it is filled with zeros from its start.
  have hzero : ∃ st, zeroSegment { seg with hostBase := seg.aVa } ⟨0, 0, p⟩ = .ok st := by
    have hbss : ({ seg with hostBase := seg.aVa } : Segment).bss = seg.aVa := by
      show seg.aVa + (seg.vaddr - seg.aVa + seg.filesz) = seg.aVa
      rw [← hva, hfilesz, sub_self, add_zero, add_zero]
    have hlen : ({ seg with hostBase := seg.aVa } : Segment).zeros.length = seg.memsz.toNat := by
      rw [Segment.length_zeros]
      show seg.memsz.toNat - seg.filesz.toNat = seg.memsz.toNat
      rw [hfilesz]
      rfl
    rw [zeroSegment]
    split_ifs
    · rw [hbss, store, hlen, if_pos hallow]
      exact ⟨_, rfl⟩
    · exact ⟨_, rfl⟩
  obtain ⟨st, hzero⟩ := hzero
  have hcopy : copySegment fetch { seg with hostBase := seg.aVa } ⟨0, 0, p⟩ = .ok ⟨0, 0, p⟩ :=
    if_pos hfilesz
  have hstep : mapSegment obligingOs false memoryElf fetch seg { mem := emptyProcess } = _ :=
    mapSegment_of_map false fetch hmemsz hmap
  have hbias : biasAfter false 0 seg.aVa seg.aVa = 0 := rfl
  rw [if_neg hhint, hbias, fillSegment, hcopy] at hstep
  simp only [bind, Except.bind, hzero, pure, Except.pure] at hstep
  generalize (⟨st.loadBias, st.reads, _⟩ : MapState) = st' at hstep
  refine ⟨st', ?_⟩
  rw [mapLoop_cons hstep]
  rfl

/-- Loading an image of one such segment, first of all. -/
theorem step_zeros {data : List Byte} {info : ExecutableInfo} (hparse : parseMemory data = .ok info)
    (hpic : info.isPic = false) (hsegs : info.segments = [seg]) (hfilesz : seg.filesz = 0)
    (hmemsz : seg.memsz ≠ 0) (hhint : seg.aVa ≠ 0) (hsize : alignUp seg.mapSz PAGE_SIZE ≠ 0)
    (hwrap : seg.aVa.toNat + (alignUp seg.mapSz PAGE_SIZE).toNat < 2 ^ 64)
    (hva : seg.vaddr = seg.aVa)
    (hfits : seg.memsz.toNat ≤ (alignUp seg.mapSz PAGE_SIZE).toNat) :
    ∃ t, Tracked.step obligingOs (.start emptyProcess) (.loadFromMemory data) = .ok t ∧
      t.sys.loader.current.segments = [{ seg with hostBase := seg.aVa }] ∧
      t.book = ({} : Book).acquire [.current] (ranges [{ seg with hostBase := seg.aVa }]) := by
  have hloop := mapLoop_zeros (fetchMemory data) hfilesz hmemsz hhint hsize hwrap hva hfits
  rw [← hsegs, ← hpic] at hloop
  obtain ⟨s', hload, hloaded⟩ := loadFromMemory_of_loop obligingOs ⟨{}, emptyProcess⟩ hparse hloop
  have hstart : (Tracked.start emptyProcess).sys.loader = ⟨{}, emptyProcess⟩ := rfl
  have hsys : System.step obligingOs (Tracked.start emptyProcess).sys (.loadFromMemory data) =
      .ok { loader := s' } := by
    rw [System.step, hstart, hload]
    rfl
  refine ⟨_, by rw [Tracked.step, hsys], hloaded, ?_⟩
  show note obligingOs (Tracked.start emptyProcess).sys { loader := s' } {}
    (.loadFromMemory data) = _
  rw [note, hstart, hload, if_pos rfl, hloaded]

/-- An image of `memsz` zeros. -/
def zerosImage (memsz align : U64) : List Byte :=
  image ET_EXEC [⟨PT_LOAD, PF_R, 120, 0x10000000, 0, memsz, align⟩] []

def zerosSegment (memsz align : U64) : Segment :=
  ⟨0x10000000, 120, 0, memsz, PF_R, PT_LOAD, align, 0⟩

def zerosInfo (memsz align : U64) : ExecutableInfo :=
  { imageBase := 0x10000000, imageSize := memsz, segments := [zerosSegment memsz align] }

theorem parse_onePage : parseMemory (zerosImage 0x1000 0x1000) = .ok (zerosInfo 0x1000 0x1000) := by
  decide +kernel

theorem parse_oneZero : parseMemory (zerosImage 1 0x4000) = .ok (zerosInfo 1 0x4000) := by
  decide +kernel

/-- A page of the kernel is released as it was mapped. -/
theorem releasedInFull_run_onePage :
    AllStatesReached (Tracked.step obligingOs) (ReleasedInFull []) (.start emptyProcess)
      [.loadFromMemory (zerosImage 0x1000 0x1000), .resetLoader] := by
  have hone : (zerosInfo 0x1000 0x1000).segments = [zerosSegment 0x1000 0x1000] := rfl
  obtain ⟨t, hstep, hsegs, hbook⟩ := step_zeros parse_onePage rfl hone rfl
    (by decide) (by decide) (by decide) (by decide) (by decide) (by decide)
  refine releasedInFull_run obligingOs_conforms emptyProcess ⟨trivial, fun t' ht' => ?_⟩
  rw [hstep] at ht'
  cases ht'
  refine ⟨?_, fun _ _ => trivial⟩
  show MayUnload obligingOs t.book .current t.sys.loader.current.segments t.sys.loader.mem
  rw [hbook, hsegs]
  refine .inr ⟨⟨0, rfl, fun r hr => absurd hr List.not_mem_nil⟩, ?_, fun _ => rfl, trivial⟩
  intro seg hseg _
  rw [List.mem_singleton.mp hseg]
  decide

/-- Of a segment whose size is less than its alignment only the first page is released. -/
theorem not_releasedInFull_oneZero : obligingOs.Conforms ∧
    ¬ AllStatesReached (Tracked.step obligingOs) (ReleasedInFull []) (.start emptyProcess)
      [.loadFromMemory (zerosImage 1 0x4000), .resetLoader] := by
  have hone : (zerosInfo 1 0x4000).segments = [zerosSegment 1 0x4000] := rfl
  obtain ⟨t, hstep, hsegs, hbook⟩ := step_zeros parse_oneZero rfl hone rfl
    (by decide) (by decide) (by decide) (by decide) (by decide) (by decide)
  refine ⟨obligingOs_conforms, fun hall => ?_⟩
  have hreset : Tracked.step obligingOs t .resetLoader = .ok
      { sys := { t.sys with loader := Loader.reset obligingOs t.sys.loader }
        book := t.book.giveBack .current
          (t.host.releasedSince (Loader.reset obligingOs t.sys.loader).mem.host)
        freed := t.host.releasedSince (Loader.reset obligingOs t.sys.loader).mem.host } := rfl
  have hgood := hall _ List.prefix_rfl _ (by
    rw [List.foldlM_cons, hstep]
    show (Tracked.step obligingOs t .resetLoader >>= fun t => pure t) = _
    rw [hreset]
    rfl)
  have hmem : (Loader.reset obligingOs t.sys.loader).mem =
      (unmap obligingOs 0x10000000 1 t.sys.loader.mem).2 := by
    rw [Loader.reset, hsegs]
    rfl
  have hfrees := frees_unmap obligingOs 0x10000000 1 t.sys.loader.mem rfl
  rw [← hmem] at hfrees
  have hreleased := hgood.releasedOnce.whole (some 0) (0x10000000, kernelPages 1) (by
    show _ ∈ (t.book.giveBack .current (t.host.releasedSince _)).released
    rw [hbook]
    refine List.mem_append_left _ (List.mem_map.mpr ⟨_, ?_, rfl⟩)
    rw [Tracked.host, hfrees.releasedSince]
    exact List.mem_singleton_self _)
  obtain ⟨k, lot, hk, hlot, hin⟩ := hreleased
  obtain rfl := Option.some.inj hk
  have hlots : lot = ranges [{ zerosSegment 1 0x4000 with
      hostBase := (zerosSegment 1 0x4000).aVa }] := by
    rw [hbook] at hlot
    exact (Option.some.inj hlot).symm
  rw [hlots] at hin
  exact absurd hin (by decide)

end Images

end ImageReleases
