/-
# Compiling at once and in the background

`Compile` and the worker were written one beside the other.  They differ where the key is cached,
where there is no compiler, and where the compiler fails.

* `PathsMeet`: the exact condition under which they come to the same cache, and neither keeps a
  failed compilation.
-/
import ChuckStation.ShaderCache

namespace ShaderCache

namespace CacheState

/-- `QueueCompile`, and the worker when it has come to the job. -/
def background (cs : CacheState) (order : MapOrder) (job : CompileJob) (ms nowUs : U64) :
    Except Undefined CacheState :=
  { cs.queueCompile job with jobQueue := cs.jobQueue }.finishJob order job ms nowUs

/-- That is what an idle worker comes to next. -/
theorem takeJob_queueCompile {cs : CacheState} (job : CompileJob) (h : cs.jobQueue = []) :
    (cs.queueCompile job).takeJob =
      some (job, { cs.queueCompile job with jobQueue := cs.jobQueue }) := by
  rw [takeJob, queueCompile, h]
  rfl

end CacheState

/-! ## Agreement -/

/-- The same keys, with the same binaries and flags. -/
def SameShaders (a b : CacheState) : Prop :=
  ∀ key, (a.entries.lookup key).map (fun e => (e.binary, e.valid)) =
    (b.entries.lookup key).map fun e => (e.binary, e.valid)

/-- The key is found now, and it is not a shader. -/
def LeavesFailure (before after : CacheState) (key : ShaderKey) : Prop :=
  key ∉ before.entries ∧ ∃ e, after.entries.lookup key = some e ∧ e.valid = false

/-- The times at which `Compile` and the worker look at the clock, and how long they compile. -/
structure Times where
  lookedUpUs : U64
  ms : U64
  nowUs : U64
  workerMs : U64
  workerNowUs : U64

/-- Both paths come through, to the same cache and without a failed compilation in it. -/
def Agree (cs : CacheState) (order : MapOrder) (job : CompileJob) (t : Times) : Prop :=
  ∃ a hit b, cs.compile order job t.lookedUpUs t.ms t.nowUs = .ok (a, hit) ∧
    cs.background order job t.workerMs t.workerNowUs = .ok b ∧ SameShaders a b ∧
    ¬ LeavesFailure cs a job.key ∧ ¬ LeavesFailure cs b job.key

/-- When the paths agree:

* if the key is cached, the compiler makes nothing of the job, or the very binary that is cached
  as a shader, and no other entry has to go for it;
* if it is not, there is a compiler, it makes something of the job, and the cache can hold it. -/
def PathsMeet (cs : CacheState) (order : MapOrder) (job : CompileJob) : Prop :=
  match cs.entries.lookup job.key with
  | some e => cs.workerBinary job = [] ∨
      (e.binary = cs.workerBinary job ∧ e.valid = true ∧
        (cs.size < cs.maxEntries ∨ cs.victim order = some job.key))
  | none => cs.workerBinary job ≠ [] ∧ (cs.size ≠ 0 ∨ cs.maxEntries ≠ 0)

section Paths

variable {cs : CacheState} {order : MapOrder} {job : CompileJob} {e : CacheEntry} {t : Times}

/-- A cached key: `Compile` leaves the shaders as they are. -/
theorem sameShaders_compile_of_hit (order : MapOrder) (t : Times)
    (he : cs.entries.lookup job.key = some e) :
    ∃ a hit, cs.compile order job t.lookedUpUs t.ms t.nowUs = .ok (a, hit) ∧ SameShaders a cs := by
  refine ⟨{ cs with
      entries := cs.entries.insert job.key (CacheState.touch t.lookedUpUs e)
      hits := cs.hits + 1 }, some (CacheState.touch t.lookedUpUs e), ?_, fun key => ?_⟩
  · exact CacheState.compile_of_hit order t.lookedUpUs t.ms t.nowUs he
  · dsimp only
    rw [AList.lookup_insert_ite]
    split_ifs with hkey
    · rw [hkey, he]
      rfl
    · rfl

theorem background_of_failed (order : MapOrder) (h : cs.workerBinary job = []) (ms nowUs : U64) :
    ∃ b, cs.background order job ms nowUs = .ok b ∧ b.entries = cs.entries :=
  ⟨_, CacheState.finishJob_of_failed { cs.queueCompile job with jobQueue := cs.jobQueue } order job
    ms nowUs h, rfl⟩

theorem background_of_compiled (order : MapOrder) (h : cs.workerBinary job ≠ []) (ms nowUs : U64) :
    (∃ m b, cs.room order = some m ∧ cs.background order job ms nowUs = .ok b ∧
        b.entries = m.insert job.key (cs.workerEntry job ms nowUs)) ∨
      (cs.room order = none ∧ cs.background order job ms nowUs = .error .eraseEnd) := by
  rcases CacheState.finishJob_of_compiled { cs.queueCompile job with jobQueue := cs.jobQueue }
    order job ms nowUs h with ⟨m, b, hroom, hrun, hentries, -⟩ | ⟨hroom, hrun⟩
  · exact .inl ⟨m, b, hroom, hrun, hentries⟩
  · exact .inr ⟨hroom, hrun⟩

/-- The worker overwrites a cached key. -/
theorem sameShaders_insert_iff {m : AList fun _ : ShaderKey => CacheEntry} {b : CacheState}
    (he : cs.entries.lookup job.key = some e)
    (hrest : ∀ key ≠ job.key, m.lookup key = cs.entries.lookup key) {ms nowUs : U64}
    (hb : b.entries = m.insert job.key (cs.workerEntry job ms nowUs)) :
    SameShaders cs b ↔ e.binary = cs.workerBinary job ∧ e.valid = true := by
  constructor
  · intro hsame
    have hkey := hsame job.key
    rw [hb, AList.lookup_insert, he] at hkey
    exact Prod.mk.inj (Option.some.inj hkey)
  · rintro ⟨hbinary, hvalid⟩ key
    rw [hb, AList.lookup_insert_ite]
    split_ifs with hkey
    · rw [hkey, he, Option.map_some, Option.map_some, hbinary, hvalid]
      rfl
    · rw [hrest key hkey]

/-- A cached key: room can be made. -/
theorem room_ne_none_of_hit (order : MapOrder) (he : cs.entries.lookup job.key = some e) :
    cs.room order ≠ none := by
  rcases cs.room_cases order with ⟨-, hm⟩ | ⟨key, -, -, hm⟩ | ⟨-, hsize, -⟩
  · rw [hm]
    exact Option.some_ne_none _
  · rw [hm]
    exact Option.some_ne_none _
  · have hin : job.key ∈ cs.entries.keys := AList.mem_of_lookup he
    rw [List.length_eq_zero_iff.mp hsize] at hin
    cases hin

/-- The worker stores a binary for a cached key. -/
theorem sameShaders_iff_of_room {m : AList fun _ : ShaderKey => CacheEntry} {b : CacheState}
    (he : cs.entries.lookup job.key = some e) (hroom : cs.room order = some m) {ms nowUs : U64}
    (hb : b.entries = m.insert job.key (cs.workerEntry job ms nowUs)) :
    SameShaders cs b ↔ e.binary = cs.workerBinary job ∧ e.valid = true ∧
      (cs.size < cs.maxEntries ∨ cs.victim order = some job.key) := by
  rcases cs.room_cases order with ⟨hsize, hm⟩ | ⟨key, hfull, hvictim, hm⟩ | ⟨-, -, hm⟩
  · obtain rfl : m = cs.entries := Option.some.inj (hroom.symm.trans hm)
    rw [sameShaders_insert_iff he (fun _ _ => rfl) hb]
    exact ⟨fun h => ⟨h.1, h.2, .inl hsize⟩, fun h => ⟨h.1, h.2.1⟩⟩
  · obtain rfl : m = cs.entries.erase key := Option.some.inj (hroom.symm.trans hm)
    by_cases hkey : key = job.key
    · subst hkey
      rw [sameShaders_insert_iff he (fun key hne => AList.lookup_erase_ne hne) hb]
      exact ⟨fun h => ⟨h.1, h.2, .inr hvictim⟩, fun h => ⟨h.1, h.2.1⟩⟩
    · -- the shader that went for the binary is missing
      refine iff_of_false (fun hsame => ?_) ?_
      · obtain ⟨e', he'⟩ := AList.exists_lookup (AList.mem_keys.mpr
          (CacheState.victim_mem hvictim))
        have hgone := hsame key
        rw [he', hb, AList.lookup_insert_ne hkey, AList.lookup_erase] at hgone
        cases hgone
      · rintro ⟨-, -, hsize | hsame⟩
        · omega
        · rw [hvictim] at hsame
          exact hkey (Option.some.inj hsame)
  · rw [hm] at hroom
    cases hroom

/-- A cached key: it is the worker that decides. -/
theorem agree_iff_background (he : cs.entries.lookup job.key = some e) :
    Agree cs order job t ↔
      ∃ b, cs.background order job t.workerMs t.workerNowUs = .ok b ∧ SameShaders cs b := by
  obtain ⟨a, hit, hcompile, hsame⟩ := sameShaders_compile_of_hit order t he
  have hcached : ∀ cs', ¬ LeavesFailure cs cs' job.key := fun cs' hleaves =>
    hleaves.1 (AList.mem_of_lookup he)
  constructor
  · rintro ⟨a', hit', b, ha, hb, hagree, -, -⟩
    rw [hcompile] at ha
    cases ha
    exact ⟨b, hb, fun key => (hsame key).symm.trans (hagree key)⟩
  · rintro ⟨b, hb, hagree⟩
    exact ⟨a, hit, b, hcompile, hb, fun key => (hsame key).trans (hagree key), hcached a,
      hcached b⟩

/-- **A cached key.** -/
theorem agree_iff_of_hit (he : cs.entries.lookup job.key = some e) :
    Agree cs order job t ↔ cs.workerBinary job = [] ∨
      (e.binary = cs.workerBinary job ∧ e.valid = true ∧
        (cs.size < cs.maxEntries ∨ cs.victim order = some job.key)) := by
  rw [agree_iff_background he]
  by_cases hfailed : cs.workerBinary job = []
  · obtain ⟨b, hb, hentries⟩ := background_of_failed order hfailed t.workerMs t.workerNowUs
    exact iff_of_true ⟨b, hb, fun key => by rw [hentries]⟩ (.inl hfailed)
  rw [or_iff_right hfailed]
  rcases background_of_compiled order hfailed t.workerMs t.workerNowUs with
    ⟨m, b, hroom, hb, hentries⟩ | ⟨hroom, -⟩
  · rw [← sameShaders_iff_of_room he hroom hentries, hb]
    exact ⟨fun ⟨b', heq, hsame⟩ => Except.ok.inj heq ▸ hsame, fun hsame => ⟨b, rfl, hsame⟩⟩
  · exact absurd hroom (room_ne_none_of_hit order he)

theorem room_isSome_iff (order : MapOrder) :
    (cs.room order).isSome = true ↔ cs.size ≠ 0 ∨ cs.maxEntries ≠ 0 := by
  rcases cs.room_cases order with ⟨hsize, hm⟩ | ⟨key, hfull, hvictim, hm⟩ | ⟨hmax, hsize, hm⟩
  · rw [hm]
    exact iff_of_true rfl (.inr (by omega))
  · rw [hm]
    refine iff_of_true rfl (.inl fun hsize => ?_)
    rw [CacheState.victim_eq_none_iff.mpr hsize] at hvictim
    cases hvictim
  · rw [hm]
    exact iff_of_false Bool.false_ne_true (by omega)

/-- With a compiler that makes something of the job, `Compile` and the worker make the same. -/
theorem compiledEntry_of_compiled (h : cs.workerBinary job ≠ []) (ms nowUs : U64) :
    (cs.compiledEntry job ms nowUs).binary = cs.workerBinary job ∧
      (cs.compiledEntry job ms nowUs).valid = true := by
  rw [CacheState.workerBinary] at h ⊢
  rw [CacheState.compiledEntry]
  cases hfn : cs.compileFn with
  | none =>
      rw [hfn] at h
      exact absurd rfl h
  | some compileFn =>
      rw [hfn] at h
      refine ⟨rfl, ?_⟩
      simpa using h

/-- **A key that is not cached.** -/
theorem agree_iff_of_miss (he : cs.entries.lookup job.key = none) :
    Agree cs order job t ↔
      cs.workerBinary job ≠ [] ∧ (cs.size ≠ 0 ∨ cs.maxEntries ≠ 0) := by
  rw [← room_isSome_iff order]
  rcases CacheState.compile_of_miss order t.lookedUpUs t.ms t.nowUs he with
    ⟨m, a, hroom, hcompile, ha⟩ | ⟨hroom, hcompile⟩
  · rw [hroom, Option.isSome_some, and_iff_left rfl]
    by_cases hfailed : cs.workerBinary job = []
    · refine iff_of_false ?_ (not_not_intro hfailed)
      rintro ⟨a', hit', b, ha', hb, hsame, -, -⟩
      obtain ⟨b', hb', hentries⟩ := background_of_failed order hfailed t.workerMs
        t.workerNowUs
      rw [hcompile] at ha'
      rw [hb'] at hb
      cases ha'
      cases hb
      have hkey := hsame job.key
      rw [ha, hentries, AList.lookup_insert, he] at hkey
      cases hkey
    · refine iff_of_true ?_ hfailed
      obtain ⟨hbinary, hvalid⟩ := compiledEntry_of_compiled hfailed t.ms t.nowUs
      rcases background_of_compiled order hfailed t.workerMs t.workerNowUs with
        ⟨m', b, hroom', hb, hentries⟩ | ⟨hnone, -⟩
      · obtain rfl : m' = m := Option.some.inj (hroom'.symm.trans hroom)
        refine ⟨a, _, b, hcompile, hb, fun key => ?_, ?_, ?_⟩
        · rw [ha, hentries, AList.lookup_insert_ite, AList.lookup_insert_ite]
          split_ifs
          · rw [Option.map_some, Option.map_some, hbinary, hvalid]
            rfl
          · rfl
        · rintro ⟨-, e, hfound, hinvalid⟩
          rw [ha, AList.lookup_insert] at hfound
          rw [← Option.some.inj hfound, hvalid] at hinvalid
          cases hinvalid
        · rintro ⟨-, e, hfound, hinvalid⟩
          rw [hentries, AList.lookup_insert] at hfound
          rw [← Option.some.inj hfound] at hinvalid
          cases hinvalid
      · rw [hnone] at hroom
        cases hroom
  · rw [hroom]
    refine iff_of_false ?_ (fun h => Bool.false_ne_true h.2)
    rintro ⟨a', hit', b, ha', -, -, -, -⟩
    rw [hcompile] at ha'
    cases ha'

/-- **Compiling at once and in the background** comes to the same cache, without a failed
compilation in it, exactly if the paths meet. -/
theorem agree_iff (cs : CacheState) (order : MapOrder) (job : CompileJob) (t : Times) :
    Agree cs order job t ↔ PathsMeet cs order job := by
  rw [PathsMeet]
  cases he : cs.entries.lookup job.key with
  | none => exact agree_iff_of_miss he
  | some e => exact agree_iff_of_hit he

/-- Without a compiler `Compile` caches the SPIR-V, and the worker nothing. -/
theorem not_agree_noCompiler :
    ¬ Agree {} ⟨id, fun _ => .refl _⟩ { key := {}, spirv := [1] } ⟨0, 0, 0, 0, 0⟩ := by
  rintro ⟨a, hit, b, ha, hb, hsame, -, -⟩
  cases ha
  cases hb
  have hkey := hsame {}
  cases hkey

end Paths

end ShaderCache
