/-
# The capacity of the shader cache

Callers of `Compile` and the worker both come to the cache with an entry that they have compiled
meanwhile, and other calls come in between.  `LoadFromDisk` brings as many entries as it finds.

* `KeepsCapacity`: what is expected of an operation.
* `FitsIn`: the exact condition under which it does that.
-/
import ChuckStation.OperationRuns
import ChuckStation.ShaderDisk

namespace ShaderCache

open OperationRuns

/-! ## Operations -/

/-- The cache, the calls of `Compile` that wait for the compiler, and the job of the worker. -/
structure System where
  cs : CacheState := {}
  calls : List CompileJob := []
  working : Option CompileJob := none

/-- What happens next.  `compile` is a call of `Compile` up to the compiler, `compileDone` one of
these calls behind it; `takeJob` and `jobDone` are the same for the worker. -/
inductive Op where
  | setCompiler (fn : Option CompileFn)
  | lookup (key : ShaderKey) (nowUs : U64)
  | compile (job : CompileJob) (nowUs : U64)
  | compileDone (call : ℕ) (order : MapOrder) (ms nowUs : U64)
  | queueCompile (job : CompileJob)
  | takeJob
  | jobDone (order : MapOrder) (ms nowUs : U64)
  | invalidate (key : ShaderKey)
  | invalidateAll
  | evict (maxAgeUs nowUs : U64)
  | loadFromDisk (file : Option (List Byte))

def step (s : System) : Op → Except Undefined System
  | .setCompiler fn => .ok { s with cs := s.cs.setCompiler fn }
  | .lookup key nowUs => .ok { s with cs := (s.cs.lookup key nowUs).1 }
  | .compile job nowUs =>
    match s.cs.lookup job.key nowUs with
    | (cs, some _) => .ok { s with cs := cs }
    | (cs, none) => .ok { s with cs := cs, calls := s.calls ++ [job] }
  | .compileDone call order ms nowUs =>
    match s.calls[call]? with
    | none => .ok s
    | some job => (s.cs.finishCompile order job ms nowUs).map fun cs =>
        { s with cs := cs, calls := s.calls.eraseIdx call }
  | .queueCompile job => .ok { s with cs := s.cs.queueCompile job }
  | .takeJob =>
    match s.working, s.cs.takeJob with
    | none, some (job, cs) => .ok { s with cs := cs, working := some job }
    | _, _ => .ok s
  | .jobDone order ms nowUs =>
    match s.working with
    | none => .ok s
    | some job => (s.cs.finishJob order job ms nowUs).map fun cs =>
        { s with cs := cs, working := none }
  | .invalidate key => .ok { s with cs := (s.cs.invalidate key).1 }
  | .invalidateAll => .ok { s with cs := s.cs.invalidateAll.1 }
  | .evict maxAgeUs nowUs => .ok { s with cs := (s.cs.evict maxAgeUs nowUs).1 }
  | .loadFromDisk file => .ok { s with cs := (s.cs.loadFromDisk file).1 }

def Op.brings : Op → Bool
  | .compileDone .. | .jobDone .. | .loadFromDisk .. => true
  | _ => false

/-- The key that an operation stores an entry for. -/
def stores (s : System) : Op → Option ShaderKey
  | .compileDone call _ _ _ => s.calls[call]?.map CompileJob.key
  | .jobDone _ _ _ =>
    (s.working.filter fun job => s.cs.workerBinary job ≠ []).map CompileJob.key
  | _ => none

/-- The cache holds no more entries than it should, and no other entry has gone for one whose key
was cached. -/
def KeepsCapacity (s : System) (op : Op) : Prop :=
  ∃ t, step s op = .ok t ∧ t.cs.size ≤ t.cs.maxEntries ∧
    ∀ key, stores s op = some key → key ∈ s.cs.entries →
      ∀ other ∈ s.cs.entries, other ∈ t.cs.entries

/-- An entry for this key can be stored: if the key is cached, the cache is not full, or it is the
entry of this very key that has been unused for longest. -/
def CanOverwrite (cs : CacheState) (order : MapOrder) (key : ShaderKey) : Prop :=
  key ∈ cs.entries → cs.size < cs.maxEntries ∨ cs.victim order = some key

/-- When an operation keeps the capacity. -/
def FitsIn (s : System) : Op → Prop
  | .compileDone call order _ _ =>
    ∀ job, s.calls[call]? = some job → CanOverwrite s.cs order job.key
  | .jobDone order _ _ =>
    ∀ job, s.working = some job → s.cs.workerBinary job ≠ [] → CanOverwrite s.cs order job.key
  | .loadFromDisk (some bytes) =>
    ((recordsIn bytes).map CacheEntry.key ++ s.cs.entries.keys).dedup.length ≤ s.cs.maxEntries
  | _ => True

/-! ## Sizes -/

section Sizes

variable {cs cs' : CacheState} {order : MapOrder} {key : ShaderKey} {e : CacheEntry}
  {m : AList fun _ : ShaderKey => CacheEntry}

theorem length_keys_insert_of_mem (h : key ∈ m) (e : CacheEntry) :
    (m.insert key e).keys.length = m.keys.length := by
  have hpos := List.length_pos_of_mem (AList.mem_keys.mp h)
  rw [AList.keys_insert, List.length_cons, List.length_erase_of_mem (AList.mem_keys.mp h)]
  omega

theorem length_keys_insert_le (m : AList fun _ : ShaderKey => CacheEntry) (key : ShaderKey)
    (e : CacheEntry) : (m.insert key e).keys.length ≤ m.keys.length + 1 := by
  rw [AList.keys_insert, List.length_cons]
  exact Nat.succ_le_succ List.length_erase_le

theorem length_keys_erase_le (m : AList fun _ : ShaderKey => CacheEntry) (key : ShaderKey) :
    (m.erase key).keys.length ≤ m.keys.length := by
  rw [AList.keys_erase]
  exact List.length_erase_le

/-- **Storing** keeps the capacity, and a cached key costs no other entry exactly if it can be
overwritten. -/
theorem size_stored (hmax : 1 ≤ cs.maxEntries) (hsize : cs.size ≤ cs.maxEntries)
    (hroom : cs.room order = some m) (hentries : cs'.entries = m.insert key e) :
    cs'.size ≤ cs.maxEntries ∧ (key ∈ cs.entries →
      ((∀ other ∈ cs.entries, other ∈ cs'.entries) ↔
        cs.size < cs.maxEntries ∨ cs.victim order = some key)) := by
  rw [CacheState.size, hentries]
  rcases cs.room_cases order with ⟨hfree, hm⟩ | ⟨victim, hfull, hvictim, hm⟩ | ⟨hzero, -, -⟩
  · obtain rfl : m = cs.entries := Option.some.inj (hroom.symm.trans hm)
    refine ⟨(length_keys_insert_le _ _ _).trans hfree, fun _ => ?_⟩
    exact iff_of_true (fun other hin => (AList.mem_insert _).mpr (.inr hin)) (.inl hfree)
  · obtain rfl : m = cs.entries.erase victim := Option.some.inj (hroom.symm.trans hm)
    have hin : victim ∈ cs.entries.keys := CacheState.victim_mem hvictim
    constructor
    · refine (length_keys_insert_le _ _ _).trans ?_
      have hpos := List.length_pos_of_mem hin
      rw [AList.keys_erase, List.length_erase_of_mem hin]
      rw [CacheState.size] at hsize
      omega
    · intro hcached
      rw [hvictim]
      constructor
      · intro hall
        rcases (AList.mem_insert _).mp (hall victim (AList.mem_keys.mpr hin)) with heq | hleft
        · exact .inr (by rw [heq])
        · exact absurd rfl (AList.mem_erase.mp hleft).1
      · rintro (hfree | heq) other hother
        · omega
        · rw [← Option.some.inj heq]
          refine (AList.mem_insert _).mpr ?_
          by_cases hsame : other = victim
          · exact .inl hsame
          · exact .inr (AList.mem_erase.mpr ⟨hsame, hother⟩)
  · omega

theorem size_lookup (cs : CacheState) (key : ShaderKey) (nowUs : U64) :
    (cs.lookup key nowUs).1.size = cs.size := by
  rw [CacheState.lookup]
  cases h : cs.entries.lookup key with
  | none => rfl
  | some e => exact length_keys_insert_of_mem (AList.mem_of_lookup h) _

theorem size_evict_le (maxAgeUs nowUs : U64) : (cs.evict maxAgeUs nowUs).1.size ≤ cs.size := by
  have hfold : ∀ (keys : List ShaderKey) (m : AList fun _ : ShaderKey => CacheEntry),
      (keys.foldl (fun entries key => entries.erase key) m).keys.length ≤ m.keys.length := by
    intro keys
    induction keys with
    | nil => exact fun m => le_rfl
    | cons key keys ih => exact fun m => (ih _).trans (length_keys_erase_le m key)
  exact hfold _ _

/-- A file brings the keys that are not cached yet. -/
theorem size_loadFromDisk (bytes : List Byte) : (cs.loadFromDisk (some bytes)).1.size =
    ((recordsIn bytes).map CacheEntry.key ++ cs.entries.keys).dedup.length := by
  refine ((List.perm_ext_iff_of_nodup (AList.keys_nodup _) (List.nodup_dedup _)).mpr
    fun key => ?_).length_eq
  rw [List.mem_dedup, List.mem_append]
  exact AList.mem_foldl_insert CacheEntry.key id

end Sizes

/-! ## One operation -/

/-- What an operation needs: room for one entry, and no more entries than the capacity. -/
structure WithinCapacity (cs : CacheState) : Prop where
  max : 1 ≤ cs.maxEntries
  size : cs.size ≤ cs.maxEntries

section Steps

variable {s t : System} {op : Op}

/-- An operation that stores nothing. -/
theorem keepsCapacity_of_ok (hstep : step s op = .ok t) (hstores : stores s op = none) :
    KeepsCapacity s op ↔ t.cs.size ≤ t.cs.maxEntries := by
  constructor
  · rintro ⟨t', ht', hsize, -⟩
    rw [hstep] at ht'
    cases ht'
    exact hsize
  · refine fun hsize => ⟨t, hstep, hsize, fun key hkey => ?_⟩
    rw [hstores] at hkey
    cases hkey

/-- An operation that stores an entry. -/
theorem keepsCapacity_of_stored {m : AList fun _ : ShaderKey => CacheEntry} {order : MapOrder}
    {key : ShaderKey} {e : CacheEntry} (h : WithinCapacity s.cs) (hstep : step s op = .ok t)
    (hstores : stores s op = some key) (hroom : s.cs.room order = some m)
    (hentries : t.cs.entries = m.insert key e) (hmax : t.cs.maxEntries = s.cs.maxEntries) :
    KeepsCapacity s op ↔ CanOverwrite s.cs order key := by
  obtain ⟨hsize, hothers⟩ := size_stored h.max h.size hroom hentries
  constructor
  · rintro ⟨t', ht', -, hkeep⟩ hcached
    rw [hstep] at ht'
    cases ht'
    exact (hothers hcached).mp (hkeep key hstores hcached)
  · intro hover
    refine ⟨t, hstep, by rw [hmax]; exact hsize, fun key' hkey' hcached => ?_⟩
    obtain rfl : key = key' := Option.some.inj (hstores.symm.trans hkey')
    exact (hothers hcached).mpr (hover hcached)

theorem WithinCapacity.room_ne_none (h : WithinCapacity s.cs) (order : MapOrder) :
    s.cs.room order ≠ none := by
  rcases s.cs.room_cases order with ⟨-, hm⟩ | ⟨key, -, -, hm⟩ | ⟨hzero, -, -⟩
  · rw [hm]
    nofun
  · rw [hm]
    nofun
  · have hmax := h.max
    omega

/-- An operation that brings no entry. -/
theorem step_of_not_brings (hop : op.brings = false) :
    ∃ t, step s op = .ok t ∧ t.cs.size ≤ s.cs.size ∧ t.cs.maxEntries = s.cs.maxEntries := by
  cases op with
  | compileDone => cases hop
  | jobDone => cases hop
  | loadFromDisk => cases hop
  | setCompiler fn => exact ⟨_, rfl, le_rfl, rfl⟩
  | lookup key nowUs =>
      refine ⟨_, rfl, (size_lookup s.cs key nowUs).le, ?_⟩
      dsimp only
      rw [CacheState.lookup]
      cases s.cs.entries.lookup key <;> rfl
  | compile job nowUs =>
      have hsize := size_lookup s.cs job.key nowUs
      rw [step]
      revert hsize
      rw [CacheState.lookup]
      cases s.cs.entries.lookup job.key with
      | none => exact fun hsize => ⟨_, rfl, hsize.le, rfl⟩
      | some e => exact fun hsize => ⟨_, rfl, hsize.le, rfl⟩
  | queueCompile job => exact ⟨_, rfl, le_rfl, rfl⟩
  | takeJob =>
      rw [step, CacheState.takeJob]
      cases s.working with
      | some job => exact ⟨_, rfl, le_rfl, rfl⟩
      | none => cases s.cs.jobQueue <;> exact ⟨_, rfl, le_rfl, rfl⟩
  | invalidate key => exact ⟨_, rfl, length_keys_erase_le _ _, rfl⟩
  | invalidateAll => exact ⟨_, rfl, Nat.zero_le _, rfl⟩
  | evict maxAgeUs nowUs => exact ⟨_, rfl, size_evict_le maxAgeUs nowUs, rfl⟩

/-- A call of `Compile` that is done, or there is none. -/
theorem step_compileDone (call : ℕ) (order : MapOrder) (ms nowUs : U64) {job : CompileJob}
    (hcall : s.calls[call]? = some job) (h : WithinCapacity s.cs) :
    ∃ m t e, s.cs.room order = some m ∧ step s (.compileDone call order ms nowUs) = .ok t ∧
      t.cs.entries = m.insert job.key e ∧ t.cs.maxEntries = s.cs.maxEntries := by
  rcases s.cs.store_cases order (s.cs.compiledEntry job ms nowUs) with
    ⟨m, cs, hroom, hstore, hentries, hmax⟩ | ⟨hroom, -⟩
  · refine ⟨m, { s with cs := cs, calls := s.calls.eraseIdx call }, _, hroom, ?_, hentries, hmax⟩
    rw [step, hcall]
    show (s.cs.store order (s.cs.compiledEntry job ms nowUs)).map _ = _
    rw [hstore]
    rfl
  · exact absurd hroom (h.room_ne_none order)

/-- A job of the worker that is done, and something was made of it. -/
theorem step_jobDone (order : MapOrder) (ms nowUs : U64) {job : CompileJob}
    (hworking : s.working = some job) (hbinary : s.cs.workerBinary job ≠ [])
    (h : WithinCapacity s.cs) :
    ∃ m t e, s.cs.room order = some m ∧ step s (.jobDone order ms nowUs) = .ok t ∧
      t.cs.entries = m.insert job.key e ∧ t.cs.maxEntries = s.cs.maxEntries := by
  rcases s.cs.finishJob_of_compiled order job ms nowUs hbinary with
    ⟨m, cs, hroom, hrun, hentries, hmax⟩ | ⟨hroom, -⟩
  · refine ⟨m, { s with cs := cs, working := none }, _, hroom, ?_, hentries, hmax⟩
    rw [step, hworking]
    dsimp only
    rw [hrun]
    rfl
  · exact absurd hroom (h.room_ne_none order)

/-- **What an operation does**: it stores an entry where there is room, it loads a file, or it
brings nothing. -/
theorem step_cases (h : WithinCapacity s.cs) (op : Op) :
    (∃ order key m t e, stores s op = some key ∧ s.cs.room order = some m ∧ step s op = .ok t ∧
        t.cs.entries = m.insert key e ∧ t.cs.maxEntries = s.cs.maxEntries ∧
        (FitsIn s op ↔ CanOverwrite s.cs order key)) ∨
      (∃ bytes, op = .loadFromDisk (some bytes)) ∨
      (∃ t, stores s op = none ∧ step s op = .ok t ∧ t.cs.size ≤ s.cs.size ∧
        t.cs.maxEntries = s.cs.maxEntries ∧ FitsIn s op) := by
  by_cases hop : op.brings = false
  · obtain ⟨t, hstep, hsize, hmax⟩ := step_of_not_brings (s := s) hop
    refine .inr (.inr ⟨t, ?_, hstep, hsize, hmax, ?_⟩)
    · cases op <;> first | rfl | cases hop
    · cases op <;> trivial
  cases op with
  | compileDone call order ms nowUs =>
      cases hcall : s.calls[call]? with
      | none =>
          refine .inr (.inr ⟨s, ?_, ?_, le_rfl, rfl, fun job hjob => ?_⟩)
          · rw [stores, hcall]
            rfl
          · rw [step, hcall]
          · rw [hcall] at hjob
            cases hjob
      | some job =>
          obtain ⟨m, t, e, hroom, hstep, hentries, hmax⟩ :=
            step_compileDone call order ms nowUs hcall h
          refine .inl ⟨order, job.key, m, t, e, ?_, hroom, hstep, hentries, hmax, ?_⟩
          · rw [stores, hcall]
            rfl
          · rw [FitsIn, hcall]
            exact ⟨fun hall => hall job rfl, fun hover job' heq => Option.some.inj heq ▸ hover⟩
  | jobDone order ms nowUs =>
      cases hworking : s.working with
      | none =>
          refine .inr (.inr ⟨s, ?_, ?_, le_rfl, rfl, fun job hjob => ?_⟩)
          · rw [stores, hworking]
            rfl
          · rw [step, hworking]
          · rw [hworking] at hjob
            cases hjob
      | some job =>
          by_cases hbinary : s.cs.workerBinary job = []
          · refine .inr (.inr ⟨⟨{ s.cs with pendingJobs := s.cs.pendingJobs - 1 }, s.calls, none⟩,
              ?_, ?_, le_rfl, rfl, fun job' hjob hmade => ?_⟩)
            · rw [stores, hworking, Option.filter_some, if_neg (by simpa using hbinary)]
              rfl
            · rw [step, hworking]
              dsimp only
              rw [CacheState.finishJob_of_failed _ _ _ _ _ hbinary]
              rfl
            · obtain rfl : job = job' := Option.some.inj (hworking.symm.trans hjob)
              exact absurd hbinary hmade
          · obtain ⟨m, t, e, hroom, hstep, hentries, hmax⟩ :=
              step_jobDone order ms nowUs hworking hbinary h
            refine .inl ⟨order, job.key, m, t, e, ?_, hroom, hstep, hentries, hmax, ?_⟩
            · rw [stores, hworking, Option.filter_some, if_pos (by simpa using hbinary)]
              rfl
            · rw [FitsIn, hworking]
              exact ⟨fun hall => hall job rfl hbinary,
                fun hover job' heq _ => Option.some.inj heq ▸ hover⟩
  | loadFromDisk file =>
      cases file with
      | none => exact .inr (.inr ⟨s, rfl, rfl, le_rfl, rfl, trivial⟩)
      | some bytes => exact .inr (.inl ⟨bytes, rfl⟩)
  | _ => exact absurd rfl hop

/-- The capacity is that of the beginning. -/
theorem maxEntries_step (h : WithinCapacity s.cs) (hstep : step s op = .ok t) :
    t.cs.maxEntries = s.cs.maxEntries := by
  rcases step_cases h op with ⟨_, _, _, t', _, -, -, hstep', -, hmax, -⟩ | ⟨bytes, rfl⟩ |
    ⟨t', -, hstep', -, hmax, -⟩
  · rw [hstep] at hstep'
    cases hstep'
    exact hmax
  · cases hstep
    rfl
  · rw [hstep] at hstep'
    cases hstep'
    exact hmax

/-- **One operation** keeps the capacity exactly if it fits in. -/
theorem keepsCapacity_iff (h : WithinCapacity s.cs) (op : Op) :
    KeepsCapacity s op ↔ FitsIn s op := by
  rcases step_cases h op with ⟨order, key, m, t, e, hstores, hroom, hstep, hentries, hmax, hfits⟩ |
    ⟨bytes, rfl⟩ | ⟨t, hstores, hstep, hsize, hmax, hfits⟩
  · exact (keepsCapacity_of_stored h hstep hstores hroom hentries hmax).trans hfits.symm
  · rw [keepsCapacity_of_ok rfl rfl, FitsIn, ← size_loadFromDisk]
    rfl
  · refine (keepsCapacity_of_ok hstep hstores).trans (iff_of_true ?_ hfits)
    rw [hmax]
    exact hsize.trans h.size

end Steps

/-! ## Runs -/

/-- The cache begins empty. -/
def System.init (s : System) (maxEntries : ℕ) : System := { s with cs := s.cs.init maxEntries }

/-- **Every run** from an empty cache keeps the capacity exactly if all its operations fit in. -/
theorem keepsCapacity_run_iff (s : System) (maxEntries : ℕ) (ops : List Op)
    (hmax : 1 ≤ maxEntries) :
    AllReached step KeepsCapacity (s.init maxEntries) ops ↔
      AllReached step FitsIn (s.init maxEntries) ops := by
  apply allReached_congr (I := fun s => WithinCapacity s.cs)
  · exact fun s op h => keepsCapacity_iff h op
  · intro s op t h hkeeps hstep
    obtain ⟨t', ht', hsize, -⟩ := hkeeps
    rw [hstep] at ht'
    cases ht'
    exact ⟨by rw [maxEntries_step h hstep]; exact h.max, hsize⟩
  · exact ⟨hmax, Nat.zero_le _⟩

/-! ## Two runs -/

/-- The jobs of two shaders. -/
def firstJob : CompileJob := { key := { stage := 0 }, spirv := [1] }

def secondJob : CompileJob := { key := { stage := 1 }, spirv := [2] }

/-- A cache for one shader, and one shader. -/
theorem keepsCapacity_run_iff_oneShader :
    AllReached step KeepsCapacity (System.init {} 1)
      [.compile firstJob 0, .compileDone 0 keyOrder 0 1, .lookup firstJob.key 2] := by
  refine (keepsCapacity_run_iff {} 1 _ le_rfl).mpr ⟨trivial, fun t ht => ?_⟩
  cases ht
  exact ⟨fun job _ _ => .inl Nat.one_pos, fun t _ => ⟨trivial, fun _ _ => trivial⟩⟩

/-- A cache for two shaders, one of which is compiled again by the worker: the other one goes. -/
theorem not_keepsCapacity_recompiled :
    ¬ AllReached step KeepsCapacity (System.init {} 2)
      [.setCompiler (some fun spirv _ => spirv), .compile firstJob 0,
        .compileDone 0 keyOrder 0 1, .compile secondJob 1, .compileDone 0 keyOrder 0 2,
        .queueCompile secondJob, .takeJob, .jobDone keyOrder 0 3] := by
  intro h
  obtain ⟨⟨t, ht, -, hkeep⟩, -⟩ := (((((((h.2 _ rfl).2 _ rfl).2 _ rfl).2 _ rfl).2 _ rfl).2 _
    rfl).2 _ rfl)
  cases ht
  have hfirst := hkeep secondJob.key rfl (by decide) firstJob.key (by decide)
  revert hfirst
  decide

end ShaderCache
