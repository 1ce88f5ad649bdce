/-
# The statistics of the memory manager

The counters against the table: the number of regions, the sizes reserved and allocated, and the
largest number of regions so far.  They are kept up modulo what fits into them; the number of
regions has 32 bits, and more regions than that fit into an address space.
-/
import ChuckStation.MemoryOutcomes
import ChuckStation.OperationRuns

namespace Memory

open OperationRuns

/-! ## What is counted -/

/-- The sizes of the regions together. -/
def reservedSize (regions : List Region) : ℕ := (regions.map fun r => r.size.toNat).sum

/-- The sizes of the live heap blocks together. -/
def allocatedSize (blocks : List (U64 × HeapAlloc)) : ℕ :=
  (blocks.map fun e => e.2.size.toNat).sum

/-- A manager, and the largest count of regions since it was started anew. -/
structure Watched (m : Manager) where
  s : m.State
  peak : ℕ := 0

namespace Watched

variable {m : Manager} (w : Watched m)

def st : MemState := m.table w.s

/-- The count of regions that the statistics show. -/
def count : ℕ := w.st.stats.regionCount.toNat

def call (c : Call) : Watched m where
  s := m.call w.s c
  peak :=
    let count := (m.table (m.call w.s c)).stats.regionCount.toNat
    if c.clears then count else max w.peak count

/-- The rule for what the call is handed out. -/
def Fresh (c : Call) : Prop := FreshAnswer w.st c (m.answer w.s c)

end Watched

/-- The statistics are right; the count of regions while `small` says so of their number. -/
structure Statistics (small : ℕ → Prop) {m : Manager} (w : Watched m) : Prop where
  regionCount : small w.st.regions.length → w.count = w.st.regions.length
  totalReserved : reservedSize w.st.regions < 2 ^ 64 →
    w.st.stats.totalReserved.toNat = reservedSize w.st.regions
  totalAllocated : allocatedSize w.st.heapAllocs < 2 ^ 64 →
    w.st.stats.totalAllocated.toNat = allocatedSize w.st.heapAllocs
  peakRegionCount : w.st.stats.peakRegionCount.toNat = w.peak

/-- The statistics are right after the call, and a call that fails has changed nothing. -/
structure Accounts (small : ℕ → Prop) {m : Manager} (w : Watched m) (c : Call) : Prop where
  statistics : Statistics small (w.call c)
  failed : (m.answer w.s c).failed = true → (w.call c).st = w.st
  unknown : ∀ ptr, c = .free ptr → ptr ∉ w.st.heapAllocs.map Prod.fst → (w.call c).st = w.st

/-! ## One call -/

/-- The counters, modulo what fits into them. -/
structure Counted (st : MemState) : Prop where
  regions : st.stats.regionCount = BitVec.ofNat 32 st.regions.length
  reserved : st.stats.totalReserved = BitVec.ofNat 64 (reservedSize st.regions)
  allocated : st.stats.totalAllocated = BitVec.ofNat 64 (allocatedSize st.heapAllocs)

section OneCall

variable {st st' : MemState} {c : Call} {answer : Answer}

theorem counted_empty : Counted {} := ⟨rfl, rfl, rfl⟩

theorem Counted.removeRegion (h : Counted st) (base : U64) : Counted (removeRegion st base) := by
  rcases removeRegion_cases st base with ⟨-, hsame⟩ | ⟨before, r, after, hsplit, -, -, hgone⟩
  · rw [hsame]
    exact h
  · rw [hgone]
    refine ⟨?_, ?_, h.allocated⟩
    · show st.stats.regionCount - 1 = BitVec.ofNat 32 (before ++ after).length
      have hlen : st.regions.length = (before ++ after).length + 1 := by
        rw [hsplit]
        simp only [List.length_append, List.length_cons]
        omega
      rw [h.regions, hlen, BitVec.ofNat_add]
      exact BitVec.add_sub_cancel _ _
    · show st.stats.totalReserved - r.size = BitVec.ofNat 64 (reservedSize (before ++ after))
      have hsum : reservedSize st.regions = reservedSize (before ++ after) + r.size.toNat := by
        rw [hsplit]
        simp only [reservedSize, List.map_append, List.map_cons, List.sum_append, List.sum_cons]
        omega
      rw [h.reserved, hsum, BitVec.ofNat_add, BitVec.ofNat_toNat, BitVec.setWidth_eq,
        BitVec.add_sub_cancel]

theorem reservedSize_append (rs : List Region) (r : Region) :
    reservedSize (rs ++ [r]) = reservedSize rs + r.size.toNat := by
  simp [reservedSize]

theorem Counted.addMapping (h : Counted st) (r : Region) (again : U64) :
    Counted (st.addMapping r again) := by
  refine ⟨?_, ?_, h.allocated⟩
  · show st.stats.regionCount + 1 = BitVec.ofNat 32 (st.regions ++ [r]).length
    rw [List.length_append, BitVec.ofNat_add, h.regions]
    rfl
  · show st.stats.totalReserved + r.size = BitVec.ofNat 64 (reservedSize (st.regions ++ [r]))
    rw [reservedSize_append, BitVec.ofNat_add, h.reserved, BitVec.ofNat_toNat,
      BitVec.setWidth_eq]

/-- A mark changes no size. -/
theorem Counted.mark (h : Counted st) (base : U64) {f : Region → Region}
    (hf : ∀ r, (f r).size = r.size) :
    Counted (st.withRegions (modifyRegion base f st.regions)) := by
  have hsum : reservedSize (modifyRegion base f st.regions) = reservedSize st.regions := by
    rw [reservedSize, map_modifyRegion (fun r => r.size.toNat) fun r => by rw [hf r]]
    rfl
  refine ⟨?_, ?_, h.allocated⟩
  · show st.stats.regionCount = BitVec.ofNat 32 (modifyRegion base f st.regions).length
    rw [length_modifyRegion]
    exact h.regions
  · show st.stats.totalReserved = BitVec.ofNat 64 (reservedSize (modifyRegion base f st.regions))
    rw [hsum]
    exact h.reserved

theorem Counted.addBlock (h : Counted st) {ptr : U64} (size : U64) (type : AllocType)
    (hfresh : ∀ e ∈ st.heapAllocs, e.1 ≠ ptr) : Counted (st.addBlock ptr size type) := by
  refine ⟨h.regions, h.reserved, ?_⟩
  rw [heapAllocs_addBlock size type hfresh, allocatedSize, List.map_cons, List.sum_cons, add_comm,
    ← allocatedSize, BitVec.ofNat_add, BitVec.ofNat_toNat, BitVec.setWidth_eq, ← h.allocated]
  rfl

theorem Counted.removeBlock (h : Counted st) {ptr : U64} {e : U64 × HeapAlloc}
    (hfind : st.heapAllocs.find? (fun e => e.1 == ptr) = some e) :
    Counted (st.removeBlock ptr e.2.size) := by
  obtain ⟨before, after, hsplit, -, herase⟩ := heapAllocs_removeBlock e.2.size hfind
  have hsum : allocatedSize st.heapAllocs =
      allocatedSize (before ++ after) + e.2.size.toNat := by
    rw [hsplit]
    simp only [allocatedSize, List.map_append, List.map_cons, List.sum_append, List.sum_cons]
    omega
  refine ⟨h.regions, h.reserved, ?_⟩
  rw [herase]
  show st.stats.totalAllocated - e.2.size = BitVec.ofNat 64 (allocatedSize (before ++ after))
  rw [h.allocated, hsum, BitVec.ofNat_add, BitVec.ofNat_toNat, BitVec.setWidth_eq,
    BitVec.add_sub_cancel]

/-- **A call** keeps the counters. -/
theorem Counted.outcome (h : Counted st) (hout : Outcome st c st' answer)
    (hfresh : FreshAnswer st c answer) : Counted st' := by
  cases hout with
  | cleared => exact counted_empty
  | refused => exact h
  | unknown => exact h
  | granted => exact h.addMapping _ _
  | marked hmarked hf => exact h.mark _ fun r => (hf r).2
  | removed => exact h.removeRegion _
  | allocated hptr => exact h.addBlock _ _ (hfresh hptr)
  | freed hptr hfind => exact h.removeBlock hfind

/-- One more region, which may make a new peak; or no more, and the peak is left alone. -/
theorem Outcome.growth (hout : Outcome st c st' answer) (hclears : c.clears = false) :
    (st'.regions.length = st.regions.length + 1 ∧ st'.stats.peakRegionCount.toNat =
        max st.stats.peakRegionCount.toNat st'.stats.regionCount.toNat) ∨
      (st'.regions.length ≤ st.regions.length ∧
        st'.stats.peakRegionCount = st.stats.peakRegionCount) := by
  cases hout with
  | cleared h =>
      rw [h] at hclears
      cases hclears
  | refused => exact .inr ⟨le_rfl, rfl⟩
  | unknown => exact .inr ⟨le_rfl, rfl⟩
  | allocated => exact .inr ⟨le_rfl, rfl⟩
  | freed => exact .inr ⟨le_rfl, rfl⟩
  | @granted _ r again =>
      refine .inl ⟨List.length_append, ?_⟩
      show BitVec.toNat (if st.stats.regionCount + 1 > st.stats.peakRegionCount then
        st.stats.regionCount + 1 else st.stats.peakRegionCount) =
          max st.stats.peakRegionCount.toNat (st.stats.regionCount + 1).toNat
      split_ifs with hgt
      · exact (max_eq_right (BitVec.lt_def.mp hgt).le).symm
      · exact (max_eq_left (BitVec.le_def.mp (BitVec.not_lt.mp hgt))).symm
  | @marked _ base f =>
      exact .inr ⟨(length_modifyRegion base f st.regions).le, rfl⟩
  | @removed base =>
      right
      rcases removeRegion_cases st base with ⟨-, hsame⟩ | ⟨before, r, after, hsplit, -, -, hgone⟩
      · rw [hsame]
        exact ⟨le_rfl, rfl⟩
      · rw [hgone]
        refine ⟨?_, rfl⟩
        rw [hsplit]
        simp only [List.length_append, List.length_cons]
        omega

theorem Outcome.eq_of_clears (hout : Outcome st c st' answer) (h : c.clears = true) :
    st' = {} := by
  cases hout with
  | cleared => rfl
  | allocated => cases h
  | freed => cases h
  | unknown => cases h
  | removed => cases h
  | refused hclears =>
      rw [h] at hclears
      cases hclears
  | granted hrange =>
      rw [Call.clears_of_range hrange] at h
      cases h
  | marked hmarked =>
      rw [Call.clears_of_marked hmarked] at h
      cases h

/-- A call that fails changes nothing. -/
theorem Outcome.eq_of_failed (hout : Outcome st c st' answer) (h : answer.failed = true) :
    st' = st := by
  cases hout with
  | refused => rfl
  | unknown => rfl
  | cleared => cases h
  | freed => cases h
  | marked => cases h
  | removed => cases h
  | granted hrange hbase => exact absurd (by simpa [Answer.failed] using h) hbase
  | allocated hptr => exact absurd (by simpa [Answer.failed] using h) hptr

/-- A pointer that is not recorded is freed to no effect. -/
theorem Outcome.eq_of_unknown {ptr : U64} (hout : Outcome st (.free ptr) st' answer)
    (h : ptr ∉ st.heapAllocs.map Prod.fst) : st' = st := by
  cases hout with
  | refused => rfl
  | unknown => rfl
  | cleared hclears => cases hclears
  | granted hrange => cases hrange
  | marked hmarked => cases hmarked
  | @freed _ e hptr hfind =>
      have hfound := List.find?_some hfind
      exact absurd (List.mem_map.mpr ⟨e, List.mem_of_find?_eq_some hfind, by simpa using hfound⟩) h

end OneCall

/-! ## Runs -/

/-- The counters are kept, and so is the largest count.  A count that has come round to 0 was at
its largest before. -/
structure Kept {m : Manager} (w : Watched m) : Prop where
  counted : Counted w.st
  peak : w.st.stats.peakRegionCount.toNat = w.peak
  reached : min w.st.regions.length (2 ^ 32 - 1) ≤ w.peak

section Runs

variable {m : Manager} {w : Watched m} {c : Call}

theorem kept_empty {s : m.State} (hs : m.table s = {}) : Kept (⟨s, 0⟩ : Watched m) := by
  have hst : (⟨s, 0⟩ : Watched m).st = {} := hs
  constructor <;> rw [hst]
  · exact counted_empty
  · rfl
  · exact le_rfl

theorem mod_le_min {n N : ℕ} (hN : 0 < N) : n % N ≤ min n (N - 1) :=
  le_min (Nat.mod_le n N) (Nat.le_sub_one_of_lt (Nat.mod_lt n hN))

/-- The largest remainder so far, when one more is counted. -/
theorem min_succ_le {n N k : ℕ} (hN : 0 < N) (h : min n (N - 1) ≤ k) :
    min (n + 1) (N - 1) ≤ max k ((n + 1) % N) := by
  rcases lt_or_ge (n + 1) N with hlt | hge
  · rw [Nat.mod_eq_of_lt hlt]
    exact (min_le_left _ _).trans (le_max_right _ _)
  · have hfull : min n (N - 1) = N - 1 := min_eq_right (by omega)
    rw [hfull] at h
    exact (min_le_right _ _).trans (h.trans (le_max_left _ _))

theorem Counted.count_eq (h : Counted w.st) : w.count = w.st.regions.length % 2 ^ 32 := by
  rw [Watched.count, h.regions, BitVec.toNat_ofNat]

theorem Counted.call (h : Counted w.st) (hfresh : w.Fresh c) : Counted (w.call c).st :=
  h.outcome (m.outcome w.s c) hfresh

/-- **One call** keeps the statistics. -/
theorem Kept.call (h : Kept w) (hfresh : w.Fresh c) : Kept (w.call c) := by
  have hout : Outcome w.st c (w.call c).st (m.answer w.s c) := m.outcome w.s c
  have hcounted := h.counted.call hfresh
  have hcount := hcounted.count_eq
  cases hclears : c.clears with
  | true =>
      have hst : (w.call c).st = {} := hout.eq_of_clears hclears
      have hpeak : (w.call c).peak = (w.call c).count := if_pos hclears
      refine ⟨hcounted, ?_, ?_⟩
      · rw [hpeak, Watched.count, hst]
      · rw [hst]
        exact Nat.zero_le _
  | false =>
      have hpeak : (w.call c).peak = max w.peak (w.call c).count :=
        if_neg (Bool.eq_false_iff.mp hclears)
      rcases hout.growth hclears with ⟨hlen, hnew⟩ | ⟨hlen, hold⟩
      · refine ⟨hcounted, ?_, ?_⟩
        · rw [hnew, h.peak, hpeak]
          rfl
        · rw [hpeak, hcount, hlen]
          exact min_succ_le (by norm_num) h.reached
      · -- The count is no larger than one that there was.
        have hle : (w.call c).count ≤ w.peak := by
          rw [hcount]
          exact (mod_le_min (by norm_num)).trans ((min_le_min_right _ hlen).trans h.reached)
        rw [max_eq_left hle] at hpeak
        refine ⟨hcounted, ?_, ?_⟩
        · rw [hold, h.peak, hpeak]
        · rw [hpeak]
          exact (min_le_min_right _ hlen).trans h.reached

theorem Kept.statistics (h : Kept w) : Statistics (· < 2 ^ 32) w where
  regionCount hsmall := h.counted.count_eq.trans (Nat.mod_eq_of_lt hsmall)
  totalReserved hsmall := by
    rw [h.counted.reserved, BitVec.toNat_ofNat, Nat.mod_eq_of_lt hsmall]
  totalAllocated hsmall := by
    rw [h.counted.allocated, BitVec.toNat_ofNat, Nat.mod_eq_of_lt hsmall]
  peakRegionCount := h.peak

end Runs

/-- **The statistics over a run**, while fewer than `2 ^ 32` regions are recorded. -/
theorem accounts_run (pl : Platform) (s : pl.manager.State) (calls : List Call)
    (hstart : pl.manager.table s = {})
    (hfresh : AllSteps Watched.call Watched.Fresh (⟨s, 0⟩ : Watched pl.manager) calls) :
    Statistics (· < 2 ^ 32) (⟨s, 0⟩ : Watched pl.manager) ∧
      AllSteps Watched.call (Accounts (· < 2 ^ 32)) (⟨s, 0⟩ : Watched pl.manager) calls := by
  have hkept : Kept (⟨s, 0⟩ : Watched pl.manager) := kept_empty hstart
  refine ⟨hkept.statistics, allSteps_of_allSteps (I := Kept)
    (fun w c hw hc => hw.call hc) (fun w c hw hc => ?_) hkept hfresh⟩
  have hout := pl.manager.outcome w.s c
  refine ⟨(hw.call hc).statistics, hout.eq_of_failed, ?_⟩
  rintro ptr rfl hunknown
  exact hout.eq_of_unknown hunknown

/-- What holds after each call holds at the end. -/
theorem statistics_of_accounts {small : ℕ → Prop} {m : Manager} {w : Watched m}
    {calls : List Call} (h : AllSteps Watched.call (Accounts small) w calls)
    (hw : Statistics small w) : Statistics small (calls.foldl Watched.call w) := by
  induction calls generalizing w with
  | nil => exact hw
  | cons c calls ih => exact ih h.2 h.1.statistics

/-! ## More regions than are counted -/

theorem obligingOs_nonNull : obligingOs.NonNull where
  mmap := fun h hint size prot fixed hnull =>
    obligingOs_conforms.nonnull h hint size prot fixed 0 hnull rfl
  memalign := fun _ _ _ => nofun

abbrev obliging : Platform := .posix obligingOs obligingOs_nonNull

theorem obliging_call (p : Process) (c : Call) :
    obliging.manager.call p c = p.call obligingOs c := rfl

theorem obliging_answer (p : Process) (c : Call) :
    obliging.manager.answer p c = p.answer obligingOs c := rfl

/-- The `i`-th page, the one at the null pointer not counted. -/
def pageAt (i : ℕ) : U64 := BitVec.ofNat 64 (0x4000 * (i + 1))

/-- One page after the other is reserved.  Never to be unfolded for many pages. -/
@[irreducible] def reserves (n : ℕ) : List Call :=
  (List.range n).map fun i => .reserve (pageAt i) PAGE_SIZE []

/-- The first `n` pages are reserved, and nothing above them is mapped. -/
structure Filled (n : ℕ) (w : Watched obliging.manager) : Prop where
  counted : Counted w.st
  length : w.st.regions.length = n
  below : ∀ r ∈ w.st.regions, r.base.toNat < 0x4000 * (n + 1)
  unmapped : ∀ a : U64, 0x4000 * (n + 1) ≤ a.toNat → w.s.host.prot a = none

theorem toNat_pageAt {i : ℕ} (hi : i < 2 ^ 32) : (pageAt i).toNat = 0x4000 * (i + 1) := by
  rw [pageAt, BitVec.toNat_ofNat, Nat.mod_eq_of_lt (by omega)]

theorem obliging_mmap_pageAt {w : Watched obliging.manager} {n : ℕ} (h : Filled n w)
    (hn : n < 2 ^ 32) :
    obligingOs.mmap w.s.host (pageAt n) PAGE_SIZE Prot.None (pageAt n != 0) =
      some (pageAt n) := by
  have hpage := toNat_pageAt hn
  have hsize : BitVec.toNat PAGE_SIZE = 0x4000 := rfl
  refine obligingOs_mmap ?_ (by decide) (by omega) ?_
  · intro hzero
    have hnull : BitVec.toNat (0 : U64) = 0 := rfl
    rw [hzero, hnull] at hpage
    omega
  · intro i hi
    refine h.unmapped _ ?_
    rw [BitVec.toNat_add, BitVec.toNat_ofNat, hpage, Nat.mod_eq_of_lt (by omega),
      Nat.mod_eq_of_lt (by omega)]
    omega

/-- The next page is reserved. -/
theorem Filled.reserve {w : Watched obliging.manager} {n : ℕ} (h : Filled n w) (hn : n < 2 ^ 32) :
    w.Fresh (.reserve (pageAt n) PAGE_SIZE []) ∧
      Filled (n + 1) (w.call (.reserve (pageAt n) PAGE_SIZE [])) := by
  have hpage := toNat_pageAt hn
  have hsize : alignUp PAGE_SIZE PAGE_SIZE = PAGE_SIZE := by decide
  have hmmap := obliging_mmap_pageAt h hn
  have hreserve : Memory.reserve obligingOs (pageAt n) PAGE_SIZE [] w.s =
      (pageAt n, ⟨addRegion w.s.st { base := pageAt n, size := PAGE_SIZE },
        (w.s.host.mapZero (pageAt n) PAGE_SIZE.toNat Prot.None).record
          (.mmap (pageAt n) PAGE_SIZE Prot.None (pageAt n != 0) (some (pageAt n)))⟩) := by
    simp only [Memory.reserve, sysMmap, hsize, hmmap, Option.isNone_some, Bool.false_and,
      Bool.false_eq_true, if_false]
  have hfresh : w.Fresh (.reserve (pageAt n) PAGE_SIZE []) := by
    rw [Watched.Fresh, obliging_answer, Process.answer, hreserve]
    intro _ r hr hbase
    have hbelow := h.below r hr
    rw [hbase, hpage] at hbelow
    omega
  have hs : (w.call (.reserve (pageAt n) PAGE_SIZE [])).s =
      (Memory.reserve obligingOs (pageAt n) PAGE_SIZE [] w.s).2 := by
    rw [Watched.call, obliging_call, Process.call]
  have hst : (w.call (.reserve (pageAt n) PAGE_SIZE [])).st =
      addRegion w.st { base := pageAt n, size := PAGE_SIZE } := by
    rw [Watched.st, hs, hreserve]
    rfl
  refine ⟨hfresh, h.counted.call hfresh, ?_, ?_, ?_⟩
  · rw [hst]
    show (w.st.regions ++ [_]).length = n + 1
    rw [List.length_append, h.length]
    rfl
  · rw [hst]
    intro r hr
    rcases List.mem_append.mp hr with hold | hnew
    · have hbelow := h.below r hold
      omega
    · rw [List.mem_singleton.mp hnew, hpage]
      omega
  · intro a ha
    have hsize : BitVec.toNat PAGE_SIZE = 0x4000 := rfl
    rw [hs, hreserve]
    -- What is mapped now ends where the next page begins.
    have hout : ¬ (a - pageAt n).toNat < PAGE_SIZE.toNat := by
      rw [BitVec.toNat_sub_of_le (BitVec.le_def.mpr (by omega))]
      omega
    exact (if_neg hout).trans (h.unmapped a (by omega))

theorem filled_zero : Filled 0 (⟨emptyProcess, 0⟩ : Watched obliging.manager) where
  counted := counted_empty
  length := rfl
  below := fun _ hr => absurd hr List.not_mem_nil
  unmapped := fun _ _ => rfl

/-- **One page after the other** is reserved, none of them recorded already. -/
theorem reserves_run {n : ℕ} (hn : n ≤ 2 ^ 32) :
    AllSteps Watched.call Watched.Fresh (⟨emptyProcess, 0⟩ : Watched obliging.manager)
        (reserves n) ∧
      Filled n ((reserves n).foldl Watched.call
        (⟨emptyProcess, 0⟩ : Watched obliging.manager)) := by
  induction n with
  | zero =>
      rw [reserves]
      exact ⟨trivial, filled_zero⟩
  | succ n ih =>
      obtain ⟨hfresh, hfilled⟩ := ih (by omega)
      obtain ⟨hnext, hfilled'⟩ := hfilled.reserve (by omega)
      have hsplit : reserves (n + 1) = reserves n ++ [.reserve (pageAt n) PAGE_SIZE []] := by
        simp only [reserves, List.range_succ, List.map_append, List.map_cons, List.map_nil]
      rw [hsplit, allSteps_append, List.foldl_append]
      exact ⟨⟨hfresh, hnext, trivial⟩, hfilled'⟩

/-- As many regions as come round to none. -/
theorem not_accounts_of_mod_eq_zero {n : ℕ} (hn : n ≤ 2 ^ 32) (hpos : 0 < n)
    (hmod : n % 2 ^ 32 = 0) :
    ¬ AllSteps Watched.call (Accounts fun _ => True)
      (⟨emptyProcess, 0⟩ : Watched obliging.manager) (reserves n) := by
  intro hall
  obtain ⟨-, hfilled⟩ := reserves_run hn
  have hstart : Statistics (fun _ => True) (⟨emptyProcess, 0⟩ : Watched obliging.manager) :=
    ⟨fun _ => rfl, fun _ => rfl, fun _ => rfl, rfl⟩
  have hcount := (statistics_of_accounts hall hstart).regionCount trivial
  rw [hfilled.counted.count_eq, hfilled.length, hmod] at hcount
  exact hpos.ne hcount

theorem not_accounts_reserves :
    AllSteps Watched.call Watched.Fresh (⟨emptyProcess, 0⟩ : Watched obliging.manager)
        (reserves (2 ^ 32)) ∧
      ¬ AllSteps Watched.call (Accounts fun _ => True)
        (⟨emptyProcess, 0⟩ : Watched obliging.manager) (reserves (2 ^ 32)) :=
  ⟨(reserves_run le_rfl).1,
    not_accounts_of_mod_eq_zero le_rfl (Nat.two_pow_pos 32) (Nat.mod_self (2 ^ 32))⟩

theorem accounts_run_reserves :
    Statistics (· < 2 ^ 32) (⟨emptyProcess, 0⟩ : Watched obliging.manager) ∧
      AllSteps Watched.call (Accounts (· < 2 ^ 32)) (⟨emptyProcess, 0⟩ : Watched obliging.manager)
        (reserves 2) :=
  accounts_run obliging emptyProcess (reserves 2) rfl (reserves_run (by norm_num)).1

end Memory
