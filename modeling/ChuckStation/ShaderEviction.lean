/-
# What a synchronous compilation gives up

`Compile` of a cached key is a hit; of any other key it stores an entry, for which the one that
has been unused for longest goes when the cache is full.  Every other entry stays as it is.
-/
import ChuckStation.ShaderCapacity

namespace ShaderCache

/-! ## The longest unused entry -/

/-- The loop for the longest unused entry is a search for the least time. -/
theorem oldest_eq_argmin (last : ShaderKey → U64) (keys : List ShaderKey) :
    CacheState.oldest last keys = keys.argmin fun key => (last key).toNat := by
  cases keys with
  | nil => rfl
  | cons key keys =>
      rw [CacheState.oldest, List.argmin, List.foldl_cons]
      show _ = keys.foldl _ (some key)
      induction keys generalizing key with
      | nil => rfl
      | cons it keys ih =>
          rw [List.foldl_cons, List.foldl_cons, ih]
          congr 1
          exact apply_ite some (last it < last key) it key

/-- No entry has been unused for longer than the one that goes, whatever the order of the map. -/
theorem victim_le {cs : CacheState} {order : MapOrder} {victim : ShaderKey} {e : CacheEntry}
    (h : cs.victim order = some victim) (he : cs.entries.lookup victim = some e)
    {key : ShaderKey} {other : CacheEntry} (hother : cs.entries.lookup key = some other) :
    e.lastUsedUs ≤ other.lastUsedUs := by
  rw [CacheState.victim, oldest_eq_argmin] at h
  have hkey : key ∈ order.keys cs.entries.keys :=
    (order.perm cs.entries.keys).mem_iff.mpr (AList.mem_keys.mp (AList.mem_of_lookup hother))
  have hle := List.le_of_mem_argmin hkey h
  rw [CacheState.lastUsedUs, CacheState.lastUsedUs, he, hother] at hle
  exact BitVec.le_def.mpr hle

/-! ## A compilation -/

variable (cs : CacheState) (order : MapOrder) (job : CompileJob) (lookedUpUs ms nowUs : U64)

/-- What `Compile` does with a cached key: it returns the entry, and counts the use. -/
def HitKept (e : CacheEntry) : Prop :=
  ∃ after hit, cs.compile order job lookedUpUs ms nowUs = .ok (after, some hit) ∧
    hit.binary = e.binary ∧
    hit = { e with hitCount := e.hitCount + 1, lastUsedUs := lookedUpUs } ∧
    after.entries.lookup job.key = some hit ∧
    ∀ key ≠ job.key, after.entries.lookup key = cs.entries.lookup key

/-- The entry `e` under `victim` goes, and no entry has been unused for longer. -/
structure LeastUsed (victim : ShaderKey) (e : CacheEntry) : Prop where
  cached : cs.entries.lookup victim = some e
  least : ∀ key other, cs.entries.lookup key = some other → e.lastUsedUs ≤ other.lastUsedUs

/-- What becomes of the other entries: they all stay if there is room, and otherwise all but one. -/
def OthersKept (after : CacheState) : Prop :=
  (cs.size < cs.maxEntries ∧
      ∀ key ≠ job.key, after.entries.lookup key = cs.entries.lookup key) ∨
    (cs.size = cs.maxEntries ∧ ∃ victim e, LeastUsed cs victim e ∧
      after.entries.lookup victim = none ∧
      ∀ key ≠ job.key, key ≠ victim → after.entries.lookup key = cs.entries.lookup key)

/-- What `Compile` does with a key that is not cached. -/
def MissStored : Prop :=
  ∃ after new, cs.compile order job lookedUpUs ms nowUs = .ok (after, some new) ∧
    OthersKept cs job after ∧ after.entries.lookup job.key = some new ∧
    ∀ laterUs, ∃ found, (after.lookup job.key laterUs).2 = some found ∧
      found.binary = new.binary

variable {cs} {job}

theorem hitKept_of_lookup {e : CacheEntry} (he : cs.entries.lookup job.key = some e) :
    HitKept cs order job lookedUpUs ms nowUs e := by
  refine ⟨_, _, CacheState.compile_of_hit order lookedUpUs ms nowUs he, rfl, rfl,
    AList.lookup_insert _, fun key hkey => ?_⟩
  exact AList.lookup_insert_ne hkey

/-- Behind the capacity step a new entry stands in nobody's place but the one of the entry that
went. -/
theorem othersKept_of_room (hcs : WithinCapacity cs) (hnew : cs.entries.lookup job.key = none)
    {m : AList fun _ : ShaderKey => CacheEntry} (hroom : cs.room order = some m)
    {after : CacheState} {new : CacheEntry} (hafter : after.entries = m.insert job.key new) :
    OthersKept cs job after := by
  rcases cs.room_cases order with ⟨hfree, hm⟩ | ⟨victim, hfull, hvictim, hm⟩ | ⟨-, -, hm⟩
  · obtain rfl : m = cs.entries := Option.some.inj (hroom.symm.trans hm)
    refine Or.inl ⟨hfree, fun key hkey => ?_⟩
    rw [hafter, AList.lookup_insert_ne hkey]
  · obtain rfl : m = cs.entries.erase victim := Option.some.inj (hroom.symm.trans hm)
    obtain ⟨e, he⟩ := AList.exists_lookup (AList.mem_keys.mpr (CacheState.victim_mem hvictim))
    have hne : victim ≠ job.key := by
      rintro rfl
      rw [hnew] at he
      cases he
    refine Or.inr ⟨le_antisymm hcs.size hfull, victim, e, ⟨he, ?_⟩, ?_, fun key hkey hother => ?_⟩
    · intro key other hother
      exact victim_le hvictim he hother
    · rw [hafter, AList.lookup_insert_ne hne, AList.lookup_erase]
    · rw [hafter, AList.lookup_insert_ne hkey, AList.lookup_erase_ne hother]
  · rw [hm] at hroom
    cases hroom

theorem missStored_of_lookup (hcs : WithinCapacity cs)
    (hnew : cs.entries.lookup job.key = none) :
    MissStored cs order job lookedUpUs ms nowUs := by
  rcases CacheState.compile_of_miss order lookedUpUs ms nowUs hnew with
    ⟨m, after, hroom, hcompile, hafter⟩ | ⟨hroom, -⟩
  · have hstored : after.entries.lookup job.key = some (cs.compiledEntry job ms nowUs) := by
      rw [hafter, AList.lookup_insert]
    refine ⟨after, _, hcompile, othersKept_of_room order hcs hnew hroom hafter, hstored,
      fun laterUs => ⟨CacheState.touch laterUs (cs.compiledEntry job ms nowUs), ?_, rfl⟩⟩
    rw [CacheState.lookup, hstored]
  · rcases cs.room_cases order with ⟨-, hm⟩ | ⟨victim, -, -, hm⟩ | ⟨hzero, -, -⟩
    · rw [hm] at hroom
      cases hroom
    · rw [hm] at hroom
      cases hroom
    · have hmax := hcs.max
      omega

/-- **Synchronous compilation**, in a cache within its capacity: a cached key is returned and
counted, any other is stored in the place of the longest unused entry if there is no room. -/
theorem compile_keeps (hcs : WithinCapacity cs) :
    (∀ e, cs.entries.lookup job.key = some e → HitKept cs order job lookedUpUs ms nowUs e) ∧
      (cs.entries.lookup job.key = none → MissStored cs order job lookedUpUs ms nowUs) := by
  constructor
  · intro e he
    exact hitKept_of_lookup order lookedUpUs ms nowUs he
  · intro hnew
    exact missStored_of_lookup order lookedUpUs ms nowUs hcs hnew

/-- A cache for one shader, full: the first job has to go for the second. -/
theorem compile_keeps_full :
    MissStored
      { maxEntries := 1, entries := AList.singleton firstJob.key { key := firstJob.key } } keyOrder
      secondJob 1 0 2 :=
  (compile_keeps keyOrder 1 0 2 ⟨le_rfl, le_rfl⟩).2 rfl

end ShaderCache
