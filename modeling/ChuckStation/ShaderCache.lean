/-
# The shader cache

Compiled shaders under the hashes of what they were made of (`ShaderCache.cpp`).  `Compile` makes
an entry at once, `QueueCompile` leaves it to a worker thread; both give up the entry that has
been unused for longest when the cache is full.

A hash map is gone over in an order of its own, which is given with every call that does so, as
are the times that the clock tells.  A `double` is its bits; the sum of the compile times is left
out.
-/
import ChuckStation.AssociationLists
import ChuckStation.Bytes

namespace ShaderCache

/-! ## Entries -/

/-- `enum class ShaderStage : uint8_t`; out of a file comes any byte. -/
abbrev ShaderStage := Byte

/-- `struct ShaderKey`. -/
structure ShaderKey where
  spirvHash : U64 := 0
  pipelineHash : U64 := 0
  stage : ShaderStage := 0
  deriving DecidableEq, Repr

/-- `struct CacheEntry`. -/
structure CacheEntry where
  key : ShaderKey
  binary : List Byte := []
  spirv : List Byte := []
  compiledAtUs : U64 := 0
  lastUsedUs : U64 := 0
  hitCount : U32 := 0
  compilationMs : U64 := 0
  debugName : List Byte := []
  valid : Bool := false
  deriving DecidableEq, Repr

/-- `struct CompileJob`. -/
structure CompileJob where
  key : ShaderKey
  spirv : List Byte
  debugName : List Byte := []
  deriving DecidableEq, Repr

/-- `CompileFn`. -/
abbrev CompileFn := List Byte → ShaderStage → List Byte

/-- `struct CacheState`. -/
structure CacheState where
  entries : AList fun _ : ShaderKey => CacheEntry := ∅
  maxEntries : ℕ := 4096
  compileFn : Option CompileFn := none
  jobQueue : List CompileJob := []
  pendingJobs : U32 := 0
  hits : U64 := 0
  misses : U64 := 0
  evictions : U64 := 0
  compilations : U64 := 0

/-- The order in which the hash map is gone over, for any keys that are in it. -/
structure MapOrder where
  keys : List ShaderKey → List ShaderKey
  perm : ∀ ks, (keys ks).Perm ks

/-- What the language does not define. -/
inductive Undefined where
  /-- `entries.erase(entries.end())` -/
  | eraseEnd
  deriving DecidableEq, Repr

namespace CacheState

variable (cs : CacheState)

/-- `entries.size()`. -/
def size : ℕ := cs.entries.keys.length

/-- `Init`, except that a file is loaded. -/
def init (maxEntries : ℕ) : CacheState :=
  { cs with
    entries := ∅
    maxEntries := maxEntries
    compileFn := none
    pendingJobs := 0
    hits := 0
    misses := 0
    evictions := 0
    compilations := 0 }

/-- `SetCompiler`. -/
def setCompiler (fn : Option CompileFn) : CacheState := { cs with compileFn := fn }

/-! ## Looking up -/

/-- A hit. -/
def touch (nowUs : U64) (e : CacheEntry) : CacheEntry :=
  { e with hitCount := e.hitCount + 1, lastUsedUs := nowUs }

/-- `Lookup`. -/
def lookup (key : ShaderKey) (nowUs : U64) : CacheState × Option CacheEntry :=
  match cs.entries.lookup key with
  | none => ({ cs with misses := cs.misses + 1 }, none)
  | some e =>
    ({ cs with entries := cs.entries.insert key (touch nowUs e), hits := cs.hits + 1 },
      some (touch nowUs e))

/-! ## Storing -/

/-- When the entry of a key was last used. -/
def lastUsedUs (key : ShaderKey) : U64 :=
  ((cs.entries.lookup key).map CacheEntry.lastUsedUs).getD 0

/-- The loop for the entry that has been unused for longest; nothing for `entries.end()`. -/
def oldest (lastUsedUs : ShaderKey → U64) : List ShaderKey → Option ShaderKey
  | [] => none
  | key :: keys => some (keys.foldl
      (fun oldest it => if lastUsedUs it < lastUsedUs oldest then it else oldest) key)

/-- The entry that goes when there is no room. -/
def victim (order : MapOrder) : Option ShaderKey :=
  oldest cs.lastUsedUs (order.keys cs.entries.keys)

/-- The capacity step of `Compile` and of the worker. -/
def makeRoom (order : MapOrder) : Except Undefined CacheState :=
  if cs.maxEntries ≤ cs.size then
    match cs.victim order with
    | none => .error .eraseEnd
    | some key =>
      .ok { cs with entries := cs.entries.erase key, evictions := cs.evictions + 1 }
  else .ok cs

/-- `entries[key] = entry` behind the capacity step. -/
def store (order : MapOrder) (entry : CacheEntry) : Except Undefined CacheState := do
  let cs ← cs.makeRoom order
  .ok { cs with
    entries := cs.entries.insert entry.key entry, compilations := cs.compilations + 1 }

/-- The time that the compiler took; none for no compiler. -/
def compileMs (ms : U64) : U64 := if cs.compileFn.isSome then ms else 0

/-! ## Compiling at once -/

/-- The entry that `Compile` makes; without a compiler the SPIR-V is the binary. -/
def compiledEntry (job : CompileJob) (ms nowUs : U64) : CacheEntry :=
  let binary := match cs.compileFn with
    | some compileFn => compileFn job.spirv job.key.stage
    | none => job.spirv
  { key := job.key
    binary := binary
    spirv := job.spirv
    compiledAtUs := nowUs
    lastUsedUs := nowUs
    compilationMs := cs.compileMs ms
    debugName := job.debugName
    valid := !binary.isEmpty }

/-- `Compile` behind a miss. -/
def finishCompile (order : MapOrder) (job : CompileJob) (ms nowUs : U64) :
    Except Undefined CacheState :=
  cs.store order (cs.compiledEntry job ms nowUs)

/-- `Compile`, when nobody comes in between. -/
def compile (order : MapOrder) (job : CompileJob) (lookedUpUs ms nowUs : U64) :
    Except Undefined (CacheState × Option CacheEntry) :=
  match cs.lookup job.key lookedUpUs with
  | (cs, some hit) => .ok (cs, some hit)
  | (cs, none) => do
    let stored ← cs.finishCompile order job ms nowUs
    .ok (stored, some (cs.compiledEntry job ms nowUs))

/-! ## The worker -/

/-- `QueueCompile`. -/
def queueCompile (job : CompileJob) : CacheState :=
  { cs with jobQueue := cs.jobQueue ++ [job], pendingJobs := cs.pendingJobs + 1 }

/-- The worker takes a job off the queue. -/
def takeJob : Option (CompileJob × CacheState) :=
  match cs.jobQueue with
  | [] => none
  | job :: jobQueue => some (job, { cs with jobQueue := jobQueue })

/-- What the worker compiles: nothing, without a compiler. -/
def workerBinary (job : CompileJob) : List Byte :=
  match cs.compileFn with
  | some compileFn => compileFn job.spirv job.key.stage
  | none => []

/-- The entry that the worker makes. -/
def workerEntry (job : CompileJob) (ms nowUs : U64) : CacheEntry :=
  { key := job.key
    binary := cs.workerBinary job
    spirv := job.spirv
    compiledAtUs := nowUs
    lastUsedUs := nowUs
    hitCount := 0
    compilationMs := cs.compileMs ms
    debugName := job.debugName
    valid := true }

/-- The worker compiles a job. -/
def finishJob (order : MapOrder) (job : CompileJob) (ms nowUs : U64) :
    Except Undefined CacheState := do
  let cs ← if cs.workerBinary job ≠ [] then cs.store order (cs.workerEntry job ms nowUs)
    else .ok cs
  .ok { cs with pendingJobs := cs.pendingJobs - 1 }

/-! ## Management -/

/-- `Invalidate`. -/
def invalidate (key : ShaderKey) : CacheState × Bool :=
  ({ cs with entries := cs.entries.erase key }, (cs.entries.lookup key).isSome)

/-- `InvalidateAll`. -/
def invalidateAll : CacheState × U32 := ({ cs with entries := ∅ }, BitVec.ofNat 32 cs.size)

/-- `Evict`; the cutoff wraps around if the age is above the time. -/
def evict (maxAgeUs nowUs : U64) : CacheState × U32 :=
  let stale := cs.entries.keys.filter fun key => cs.lastUsedUs key < nowUs - maxAgeUs
  let n := BitVec.ofNat 32 stale.length
  ({ cs with
      entries := stale.foldl (fun entries key => entries.erase key) cs.entries
      evictions := cs.evictions + n.setWidth 64 }, n)

end CacheState

/-! ## What a step does to the keys -/

namespace CacheState

variable {cs cs' : CacheState} {order : MapOrder} {key : ShaderKey} {entry : CacheEntry}

theorem foldl_older_mem (last : ShaderKey → U64) (keys : List ShaderKey) (key : ShaderKey) :
    keys.foldl (fun oldest it => if last it < last oldest then it else oldest) key ∈
      key :: keys := by
  induction keys generalizing key with
  | nil => exact List.mem_cons_self
  | cons it keys ih =>
      rw [List.foldl_cons]
      rcases List.mem_cons.mp (ih (if last it < last key then it else key)) with heq | hin
      · rw [heq]
        split_ifs
        · exact List.mem_cons_of_mem _ List.mem_cons_self
        · exact List.mem_cons_self
      · exact List.mem_cons_of_mem _ (List.mem_cons_of_mem _ hin)

theorem victim_mem (h : cs.victim order = some key) : key ∈ cs.entries.keys := by
  rw [victim] at h
  cases hkeys : order.keys cs.entries.keys with
  | nil =>
      rw [hkeys] at h
      cases h
  | cons k keys =>
      rw [hkeys, oldest] at h
      rw [← Option.some.inj h]
      apply (order.perm cs.entries.keys).mem_iff.mp
      rw [hkeys]
      exact foldl_older_mem _ _ _

/-- There is something to give up, if there is something. -/
theorem victim_eq_none_iff : cs.victim order = none ↔ cs.size = 0 := by
  have hlen := (order.perm cs.entries.keys).length_eq
  rw [victim, size, ← hlen]
  cases order.keys cs.entries.keys with
  | nil => exact iff_of_true rfl rfl
  | cons k keys => exact iff_of_false nofun (Nat.succ_ne_zero _)

/-- The entries when there is room for one more. -/
def room (cs : CacheState) (order : MapOrder) : Option (AList fun _ : ShaderKey => CacheEntry) :=
  if cs.maxEntries ≤ cs.size then (cs.victim order).map cs.entries.erase else some cs.entries

/-- **Making room**: below the capacity nothing happens, and otherwise one entry goes. -/
theorem room_cases (cs : CacheState) (order : MapOrder) :
    (cs.size < cs.maxEntries ∧ cs.room order = some cs.entries) ∨
      (∃ key, cs.maxEntries ≤ cs.size ∧ cs.victim order = some key ∧
        cs.room order = some (cs.entries.erase key)) ∨
      (cs.maxEntries = 0 ∧ cs.size = 0 ∧ cs.room order = none) := by
  by_cases hfull : cs.maxEntries ≤ cs.size
  · cases hvictim : cs.victim order with
    | none =>
        have hsize : cs.size = 0 := victim_eq_none_iff.mp hvictim
        refine .inr (.inr ⟨by omega, hsize, ?_⟩)
        rw [room, if_pos hfull, hvictim]
        rfl
    | some key =>
        refine .inr (.inl ⟨key, hfull, rfl, ?_⟩)
        rw [room, if_pos hfull, hvictim]
        rfl
  · refine .inl ⟨by omega, ?_⟩
    rw [room, if_neg hfull]

/-- **Storing** an entry puts it where there is room. -/
theorem store_cases (cs : CacheState) (order : MapOrder) (entry : CacheEntry) :
    (∃ m cs', cs.room order = some m ∧ cs.store order entry = .ok cs' ∧
        cs'.entries = m.insert entry.key entry ∧ cs'.maxEntries = cs.maxEntries) ∨
      (cs.room order = none ∧ cs.store order entry = .error .eraseEnd) := by
  rw [store, makeRoom, room]
  split_ifs
  · cases cs.victim order with
    | none => exact .inr ⟨rfl, rfl⟩
    | some key => exact .inl ⟨_, _, rfl, rfl, rfl, rfl⟩
  · exact .inl ⟨_, _, rfl, rfl, rfl, rfl⟩

/-- A key that is cached: `Compile` looks it up. -/
theorem compile_of_hit {job : CompileJob} {e : CacheEntry} (order : MapOrder)
    (lookedUpUs ms nowUs : U64) (he : cs.entries.lookup job.key = some e) :
    cs.compile order job lookedUpUs ms nowUs =
      .ok ({ cs with
        entries := cs.entries.insert job.key (touch lookedUpUs e)
        hits := cs.hits + 1 }, some (touch lookedUpUs e)) := by
  rw [compile, lookup, he]

/-- A key that is not cached: `Compile` stores an entry in any case. -/
theorem compile_of_miss {job : CompileJob} (order : MapOrder) (lookedUpUs ms nowUs : U64)
    (he : cs.entries.lookup job.key = none) :
    (∃ m a, cs.room order = some m ∧
        cs.compile order job lookedUpUs ms nowUs = .ok (a, some (cs.compiledEntry job ms nowUs)) ∧
        a.entries = m.insert job.key (cs.compiledEntry job ms nowUs)) ∨
      (cs.room order = none ∧
        cs.compile order job lookedUpUs ms nowUs = .error .eraseEnd) := by
  have hrun : cs.compile order job lookedUpUs ms nowUs =
      (store { cs with misses := cs.misses + 1 } order (cs.compiledEntry job ms nowUs)).bind
        fun stored => .ok (stored, some (cs.compiledEntry job ms nowUs)) := by
    rw [compile, lookup, he]
    rfl
  rw [hrun]
  rcases store_cases { cs with misses := cs.misses + 1 } order (cs.compiledEntry job ms nowUs) with
    ⟨m, a, hroom, hstore, hentries, -⟩ | ⟨hroom, hstore⟩
  · rw [hstore]
    exact .inl ⟨m, a, hroom, rfl, hentries⟩
  · rw [hstore]
    exact .inr ⟨hroom, rfl⟩

/-- The worker, when it makes nothing of the job. -/
theorem finishJob_of_failed (cs : CacheState) (order : MapOrder) (job : CompileJob) (ms nowUs : U64)
    (h : cs.workerBinary job = []) :
    cs.finishJob order job ms nowUs = .ok { cs with pendingJobs := cs.pendingJobs - 1 } := by
  rw [finishJob, if_neg (not_not_intro h)]
  rfl

/-- The worker, when it makes something of it. -/
theorem finishJob_of_compiled (cs : CacheState) (order : MapOrder) (job : CompileJob)
    (ms nowUs : U64) (h : cs.workerBinary job ≠ []) :
    (∃ m cs', cs.room order = some m ∧ cs.finishJob order job ms nowUs = .ok cs' ∧
        cs'.entries = m.insert job.key (cs.workerEntry job ms nowUs) ∧
        cs'.maxEntries = cs.maxEntries) ∨
      (cs.room order = none ∧ cs.finishJob order job ms nowUs = .error .eraseEnd) := by
  rw [finishJob, if_pos h]
  rcases cs.store_cases order (cs.workerEntry job ms nowUs) with
    ⟨m, cs', hroom, hstore, hentries, hmax⟩ | ⟨hroom, hstore⟩
  · rw [hstore]
    exact .inl ⟨m, _, hroom, rfl, hentries, hmax⟩
  · rw [hstore]
    exact .inr ⟨hroom, rfl⟩

end CacheState

end ShaderCache
