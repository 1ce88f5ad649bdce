/-
# Entries that are too old

`Evict` removes the entries that were last used before a cut-off, which is the time less the age
that is asked for.  The difference is taken in 64 bits: an age above the time puts the cut-off
into the far future, and then the entries go that should all stay.

* `evictsStale_iff`: when exactly the stale entries go.
-/
import ChuckStation.ShaderCache

namespace ShaderCache

variable (cs : CacheState) (maxAgeUs nowUs : U64)

/-! ## Staleness -/

/-- The entry was not used in the last `maxAgeUs` microseconds, as numbers. -/
def IsStale (e : CacheEntry) : Prop :=
  (maxAgeUs.toNat : ℤ) < (nowUs.toNat : ℤ) - e.lastUsedUs.toNat

instance : DecidablePred (IsStale maxAgeUs nowUs) := fun _ => Int.decLt _ _

/-- How many entries are stale. -/
def staleCount : ℕ := cs.entries.entries.countP fun s => IsStale maxAgeUs nowUs s.2

/-- `Evict` takes away the stale entries and no others, and returns how many there were. -/
structure EvictsStale : Prop where
  entries : ∀ key, (cs.evict maxAgeUs nowUs).1.entries.lookup key =
    (cs.entries.lookup key).filter fun e => ¬ IsStale maxAgeUs nowUs e
  count : (cs.evict maxAgeUs nowUs).2.toNat = staleCount cs maxAgeUs nowUs

/-- The age is within the time, or every entry was last used at or behind the cut-off that has
wrapped around. -/
def CutoffFits : Prop :=
  maxAgeUs ≤ nowUs ∨ ∀ key e, cs.entries.lookup key = some e →
    2 ^ 64 + nowUs.toNat ≤ e.lastUsedUs.toNat + maxAgeUs.toNat

/-! ## The cut-off -/

section Cutoff

variable {cs maxAgeUs nowUs}

theorem lt_cutoff_of_le (h : maxAgeUs ≤ nowUs) (e : CacheEntry) :
    e.lastUsedUs < nowUs - maxAgeUs ↔ IsStale maxAgeUs nowUs e := by
  rw [IsStale]
  bv_omega

theorem lt_cutoff_of_lt (h : nowUs < maxAgeUs) (e : CacheEntry) :
    e.lastUsedUs < nowUs - maxAgeUs ↔
      e.lastUsedUs.toNat + maxAgeUs.toNat < 2 ^ 64 + nowUs.toNat := by
  bv_omega

theorem not_isStale_of_lt (h : nowUs < maxAgeUs) (e : CacheEntry) :
    ¬ IsStale maxAgeUs nowUs e := by
  rw [IsStale]
  bv_omega

theorem lastUsedUs_of_lookup {key : ShaderKey} {e : CacheEntry}
    (h : cs.entries.lookup key = some e) : cs.lastUsedUs key = e.lastUsedUs := by
  rw [CacheState.lastUsedUs, h]
  rfl

/-- What `Evict` leaves: the entries that are not before the cut-off. -/
theorem lookup_evict (key : ShaderKey) : (cs.evict maxAgeUs nowUs).1.entries.lookup key =
    (cs.entries.lookup key).filter fun e => ¬ e.lastUsedUs < nowUs - maxAgeUs := by
  rw [CacheState.evict]
  dsimp only
  rw [AList.lookup_foldl_erase]
  cases he : cs.entries.lookup key with
  | none =>
      rw [ite_self]
      rfl
  | some e =>
      have hin : key ∈ cs.entries.keys := AList.mem_keys.mp (AList.mem_of_lookup he)
      simp only [List.mem_filter, hin, lastUsedUs_of_lookup he, Option.filter_some, true_and,
        decide_eq_true_eq, ite_not]

/-- What `Evict` returns. -/
theorem count_evict : (cs.evict maxAgeUs nowUs).2.toNat =
    (cs.entries.entries.countP fun s => s.2.lastUsedUs < nowUs - maxAgeUs) % 2 ^ 32 := by
  rw [CacheState.evict]
  dsimp only
  rw [BitVec.toNat_ofNat]
  congr 1
  refine AList.length_filter_keys _
    (fun e : CacheEntry => e.lastUsedUs < nowUs - maxAgeUs) fun key e he => ?_
  rw [lastUsedUs_of_lookup he]

/-- Behind an age within the time exactly the stale entries are before the cut-off. -/
theorem evictsStale_iff_of_le (h : maxAgeUs ≤ nowUs) :
    EvictsStale cs maxAgeUs nowUs ↔ staleCount cs maxAgeUs nowUs < 2 ^ 32 := by
  have hcount : (cs.evict maxAgeUs nowUs).2.toNat = staleCount cs maxAgeUs nowUs % 2 ^ 32 := by
    rw [count_evict, staleCount]
    simp only [lt_cutoff_of_le h]
  constructor
  · intro hevicts
    rw [← hevicts.count]
    exact BitVec.isLt _
  · intro hfew
    refine ⟨fun key => ?_, ?_⟩
    · rw [lookup_evict]
      simp only [lt_cutoff_of_le h]
    · rw [hcount, Nat.mod_eq_of_lt hfew]

theorem staleCount_of_lt (h : nowUs < maxAgeUs) : staleCount cs maxAgeUs nowUs = 0 :=
  List.countP_eq_zero.mpr fun s _ => by simpa using not_isStale_of_lt h s.2

/-- Behind an age above the time nothing is stale, but all that is before the cut-off goes. -/
theorem evictsStale_iff_of_lt (h : nowUs < maxAgeUs) :
    EvictsStale cs maxAgeUs nowUs ↔ ∀ key e, cs.entries.lookup key = some e →
      2 ^ 64 + nowUs.toNat ≤ e.lastUsedUs.toNat + maxAgeUs.toNat := by
  constructor
  · intro hevicts key e he
    have hkept := hevicts.entries key
    rw [lookup_evict, he, Option.filter_some, Option.filter_some] at hkept
    simp only [not_isStale_of_lt h, lt_cutoff_of_lt h, not_false_eq_true, decide_true, if_true,
      decide_eq_true_eq] at hkept
    by_contra hlt
    rw [if_neg (by omega)] at hkept
    cases hkept
  · intro hall
    refine ⟨fun key => ?_, ?_⟩
    · rw [lookup_evict]
      cases he : cs.entries.lookup key with
      | none => rfl
      | some e =>
          have hle := hall key e he
          simp only [Option.filter_some, not_isStale_of_lt h, lt_cutoff_of_lt h, not_lt.mpr hle]
    · rw [count_evict, staleCount_of_lt h]
      have hnone : (cs.entries.entries.countP fun s => s.2.lastUsedUs < nowUs - maxAgeUs) = 0 := by
        refine List.countP_eq_zero.mpr fun s hs => ?_
        have hle := hall s.1 s.2 (AList.mem_lookup_iff.mpr hs)
        simp only [lt_cutoff_of_lt h, decide_eq_true_eq]
        omega
      rw [hnone, Nat.zero_mod]

end Cutoff

/-! ## Exactly the stale entries -/

/-- **Eviction by age** takes exactly the stale entries if and only if the cut-off does not wrap
around in front of an entry, and they are few enough to be counted in 32 bits. -/
theorem evictsStale_iff :
    EvictsStale cs maxAgeUs nowUs ↔
      CutoffFits cs maxAgeUs nowUs ∧ staleCount cs maxAgeUs nowUs < 2 ^ 32 := by
  by_cases h : maxAgeUs ≤ nowUs
  · rw [evictsStale_iff_of_le h, CutoffFits]
    exact (and_iff_right (Or.inl h)).symm
  · have hlt : nowUs < maxAgeUs := by bv_omega
    rw [evictsStale_iff_of_lt hlt, CutoffFits, staleCount_of_lt hlt, or_iff_right h]
    exact (and_iff_left (by norm_num)).symm

/-- An entry that was used at time 3 goes at time 5, although it may be of any age up to 10. -/
theorem not_evictsStale_wrapped : ¬ ∀ cs maxAgeUs nowUs, EvictsStale cs maxAgeUs nowUs := by
  intro h
  have hevicts := h { entries := AList.singleton {} { key := {}, lastUsedUs := 3 } } 10 5
  exact absurd (hevicts.entries {}) (by decide)

end ShaderCache
