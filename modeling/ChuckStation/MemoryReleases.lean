/-
# What the memory manager gives back

The ranges and the heap blocks that are held, told from the calls and their answers alone, against
what `Shutdown` and `Reset` release.  Both leave the regions behind that are only reserved, and
`Reset` leaves the heap blocks behind as well.
-/
import ChuckStation.MemoryOutcomes
import ChuckStation.OperationRuns

namespace Memory

open OperationRuns

/-! ## Releases -/

/-- What is given back to the operating system or its allocator. -/
inductive Release where
  | range (base size : U64)
  | reservation (base : U64)
  | block (ptr : U64)
  deriving DecidableEq, Repr

def HostCall.release : HostCall → Option Release
  | .munmap base size _ => some (.range base size)
  | .free ptr => some (.block ptr)
  | _ => none

def Windows.SysCall.release : Windows.SysCall → Option Release
  | .virtualFree address _ => some (.reservation address)
  | .alignedFree ptr => some (.block ptr)
  | _ => none

namespace Platform

/-- The releases that were asked for so far, last one first. -/
def releases : (pl : Platform) → pl.manager.State → List Release
  | .posix _ _, p => p.host.calls.filterMap HostCall.release
  | .windows _, p => p.calls.filterMap Windows.SysCall.release

/-- The release of a range with its base and size. -/
def release : Platform → U64 × U64 → Release
  | .posix _ _, (base, size) => .range base size
  | .windows _, (base, _) => .reservation base

end Platform

/-! ## What is held -/

/-- The ranges that are held after a call. -/
def heldRanges (ranges : List (U64 × U64)) : Call → Answer → List (U64 × U64)
  | .reserve _ size _, .address base =>
      if base = 0 then ranges else (base, alignUp size PAGE_SIZE) :: ranges
  | .map _ size _ _ _, .address base =>
      if base = 0 then ranges else (base, alignUp size PAGE_SIZE) :: ranges
  | .unmap base size, .flag true => ranges.erase (base, size)
  | _, _ => ranges

/-- The heap blocks that are held after a call. -/
def heldBlocks (blocks : List U64) : Call → Answer → List U64
  | .alloc _ _ _, .address ptr => if ptr = 0 then blocks else ptr :: blocks
  | .free ptr, .done => blocks.erase ptr
  | _, _ => blocks

/-- A manager, and what its callers hold. -/
structure Held (m : Manager) where
  s : m.State
  ranges : List (U64 × U64) := []
  blocks : List U64 := []

namespace Held

section Manager

variable {m : Manager} (w : Held m)

def st : MemState := m.table w.s

def call (c : Call) : Held m where
  s := m.call w.s c
  ranges := heldRanges w.ranges c (m.answer w.s c)
  blocks := heldBlocks w.blocks c (m.answer w.s c)

/-- The rule for the callers, who unmap whole ranges and start nothing anew, and for the operating
system, which hands out nothing that is still recorded. -/
structure Rule (c : Call) : Prop where
  keeps : c.clears = false
  whole : ∀ base size, c = .unmap base size → (base, size) ∈ w.ranges
  fresh : FreshAnswer w.st c (m.answer w.s c)

end Manager

/-- The call releases what is held, each range and each block once, and nothing else. -/
def GivesBack {pl : Platform} (w : Held pl.manager) (c : Call) : Prop :=
  ∃ new, pl.releases (w.call c).s = new ++ pl.releases w.s ∧
    new.Perm (w.ranges.map pl.release ++ w.blocks.map Release.block)

end Held

/-! ## The table and what is held -/

/-- What is held is what is recorded. -/
structure Matches (st : MemState) (ranges : List (U64 × U64)) (blocks : List U64) : Prop where
  recorded : ranges.Perm (st.regions.map fun r => (r.base, r.size))
  live : blocks.Perm (st.heapAllocs.map Prod.fst)
  distinct : (st.regions.map Region.base).Nodup
  nonnull : (0 : U64) ∉ blocks

section OneCall

variable {st st' : MemState} {c : Call} {answer : Answer} {ranges : List (U64 × U64)}
  {blocks : List U64} {base size ptr : U64}

theorem heldRanges_of_failed (h : answer.failed = true) : heldRanges ranges c answer = ranges := by
  cases answer with
  | done => cases h
  | flag ok =>
      cases ok with
      | false => cases c <;> rfl
      | true => cases h
  | address base =>
      have hbase : base = 0 := by simpa [Answer.failed] using h
      cases c with
      | reserve hint size tag => exact if_pos hbase
      | map hint size prot type tag => exact if_pos hbase
      | _ => rfl

theorem heldBlocks_of_failed (h : answer.failed = true) : heldBlocks blocks c answer = blocks := by
  cases answer with
  | done => cases h
  | flag ok => cases c <;> rfl
  | address ptr =>
      have hptr : ptr = 0 := by simpa [Answer.failed] using h
      cases c with
      | alloc size align type => exact if_pos hptr
      | _ => rfl

theorem heldRanges_of_granted (h : c.range = some size) (hbase : base ≠ 0) :
    heldRanges ranges c (.address base) = (base, size) :: ranges := by
  cases c with
  | reserve hint size' tag =>
      obtain rfl : alignUp size' PAGE_SIZE = size := Option.some.inj h
      exact if_neg hbase
  | map hint size' prot type tag =>
      obtain rfl : alignUp size' PAGE_SIZE = size := Option.some.inj h
      exact if_neg hbase
  | _ => cases h

theorem heldBlocks_of_granted (h : c.range = some size) :
    heldBlocks blocks c (.address base) = blocks := by
  cases c with
  | alloc size' align type => cases h
  | _ => rfl

theorem FreshAnswer.of_granted (hfresh : FreshAnswer st c (.address base))
    (h : c.range = some size) (hbase : base ≠ 0) : ∀ r ∈ st.regions, r.base ≠ base := by
  cases c with
  | reserve hint size' tag => exact hfresh hbase
  | map hint size' prot type tag => exact hfresh hbase
  | _ => cases h

theorem matches_empty : Matches {} [] [] :=
  ⟨List.Perm.refl _, List.Perm.refl _, List.nodup_nil, List.not_mem_nil⟩

/-- A region that is unmapped whole goes, and nothing else. -/
theorem Matches.removeRegion (h : Matches st ranges blocks) (hwhole : (base, size) ∈ ranges) :
    Matches (removeRegion st base) (ranges.erase (base, size)) blocks := by
  obtain ⟨r₀, hr₀, hpair⟩ := List.mem_map.mp (h.recorded.mem_iff.mp hwhole)
  obtain ⟨hbase₀, hsize₀⟩ := Prod.mk.inj hpair
  rcases removeRegion_cases st base with ⟨hnone, -⟩ | ⟨before, r, after, hsplit, hbase, hbefore,
    hremoved⟩
  · -- It is recorded, so it is found.
    have hno := List.find?_eq_none.mp hnone r₀ hr₀
    exact absurd (beq_iff_eq.mpr hbase₀) hno
  · have hdistinct := h.distinct
    rw [hsplit, List.map_append, List.map_cons] at hdistinct
    have hsame : r₀ = r := by
      rw [hsplit] at hr₀
      rcases List.mem_append.mp hr₀ with hold | hnew
      · exact absurd hbase₀ (hbefore r₀ hold)
      · rcases List.mem_cons.mp hnew with heq | hlater
        · exact heq
        · have hnotin := (List.nodup_cons.mp (List.nodup_append.mp hdistinct).2.1).1
          refine absurd (List.mem_map.mpr ⟨r₀, hlater, ?_⟩) hnotin
          rw [hbase₀, hbase]
    have hmid : (st.regions.map fun r => (r.base, r.size)).Perm
        ((base, size) :: (before ++ after).map fun r => (r.base, r.size)) := by
      rw [hsplit, List.map_append, List.map_cons, List.map_append, ← hsame, hpair]
      exact List.perm_middle
    rw [hremoved]
    refine ⟨?_, h.live, ?_, h.nonnull⟩
    · have herase := (h.recorded.trans hmid).erase (base, size)
      rwa [List.erase_cons_head] at herase
    · show ((before ++ after).map Region.base).Nodup
      rw [List.map_append]
      exact hdistinct.sublist ((List.Sublist.refl _).append (List.sublist_cons_self _ _))

/-- A heap block that is freed goes, and nothing else. -/
theorem Matches.removeBlock (h : Matches st ranges blocks) {e : U64 × HeapAlloc}
    (hfind : st.heapAllocs.find? (fun e => e.1 == ptr) = some e) :
    Matches (st.removeBlock ptr e.2.size) ranges (blocks.erase ptr) := by
  obtain ⟨before, after, hsplit, hptr, herase⟩ := heapAllocs_removeBlock e.2.size hfind
  have hmid : (st.heapAllocs.map Prod.fst).Perm (ptr :: (before ++ after).map Prod.fst) := by
    rw [hsplit, List.map_append, List.map_cons, List.map_append, hptr]
    exact List.perm_middle
  refine ⟨h.recorded, ?_, h.distinct, fun hzero => h.nonnull (List.mem_of_mem_erase hzero)⟩
  have hblocks := (h.live.trans hmid).erase ptr
  rwa [List.erase_cons_head, ← herase] at hblocks

theorem Matches.addMapping (h : Matches st ranges blocks) {r : Region} (again : U64)
    (hfresh : ∀ r' ∈ st.regions, r'.base ≠ r.base) :
    Matches (st.addMapping r again) ((r.base, r.size) :: ranges) blocks := by
  refine ⟨?_, h.live, ?_, h.nonnull⟩
  · show ((r.base, r.size) :: ranges).Perm ((st.regions ++ [r]).map _)
    rw [List.map_append]
    exact (h.recorded.cons _).trans (List.perm_append_singleton _ _).symm
  · show ((st.regions ++ [r]).map Region.base).Nodup
    rw [List.map_append]
    refine h.distinct.append (List.nodup_singleton _) fun base hold hnew => ?_
    obtain ⟨r', hr', rfl⟩ := List.mem_map.mp hold
    exact hfresh r' hr' (List.mem_singleton.mp hnew)

/-- A mark moves no region. -/
theorem Matches.mark (h : Matches st ranges blocks) (base : U64) {f : Region → Region}
    (hf : ∀ r, (f r).base = r.base ∧ (f r).size = r.size) :
    Matches (st.withRegions (modifyRegion base f st.regions)) ranges blocks := by
  refine ⟨?_, h.live, ?_, h.nonnull⟩
  · show ranges.Perm ((modifyRegion base f st.regions).map _)
    rw [map_modifyRegion (fun r => (r.base, r.size)) fun r => by rw [(hf r).1, (hf r).2]]
    exact h.recorded
  · show ((modifyRegion base f st.regions).map Region.base).Nodup
    rw [map_modifyRegion Region.base fun r => (hf r).1]
    exact h.distinct

theorem Matches.addBlock (h : Matches st ranges blocks) (size : U64) (type : AllocType)
    (hptr : ptr ≠ 0) (hfresh : ∀ e ∈ st.heapAllocs, e.1 ≠ ptr) :
    Matches (st.addBlock ptr size type) ranges (ptr :: blocks) := by
  refine ⟨h.recorded, ?_, h.distinct, ?_⟩
  · rw [heapAllocs_addBlock size type hfresh]
    exact h.live.cons ptr
  · intro hzero
    rcases List.mem_cons.mp hzero with heq | hold
    · exact hptr heq.symm
    · exact h.nonnull hold

/-- **A call** that keeps to the rule keeps what is held and what is recorded together. -/
theorem Matches.outcome (h : Matches st ranges blocks) (hout : Outcome st c st' answer)
    (hkeeps : c.clears = false)
    (hwhole : ∀ base size, c = .unmap base size → (base, size) ∈ ranges)
    (hfresh : FreshAnswer st c answer) :
    Matches st' (heldRanges ranges c answer) (heldBlocks blocks c answer) := by
  cases hout with
  | cleared hclears =>
      rw [hclears] at hkeeps
      cases hkeeps
  | refused _ hfailed =>
      rw [heldRanges_of_failed hfailed, heldBlocks_of_failed hfailed]
      exact h
  | granted hrange hbase =>
      rw [heldRanges_of_granted hrange hbase, heldBlocks_of_granted hrange]
      exact h.addMapping _ (hfresh.of_granted hrange hbase)
  | @marked c base f hmarked hf =>
      have hheld : heldRanges ranges c (.flag true) = ranges ∧
          heldBlocks blocks c (.flag true) = blocks := by
        cases c with
        | unmap => cases hmarked
        | _ => exact ⟨rfl, rfl⟩
      rw [hheld.1, hheld.2]
      exact h.mark base hf
  | @removed base size => exact h.removeRegion (hwhole base size rfl)
  | @allocated size align ptr type hptr =>
      have hheld : heldBlocks blocks (.alloc size align type) (.address ptr) = ptr :: blocks :=
        if_neg hptr
      rw [hheld]
      exact h.addBlock size type hptr (hfresh hptr)
  | freed hptr hfind => exact h.removeBlock hfind
  | @unknown ptr hunknown =>
      have hheld : heldBlocks blocks (.free ptr) .done = blocks := by
        refine List.erase_of_not_mem fun hmem => ?_
        rcases hunknown with rfl | hnone
        · exact h.nonnull hmem
        · obtain ⟨e, he, rfl⟩ := List.mem_map.mp (h.live.mem_iff.mp hmem)
          exact List.find?_eq_none.mp hnone e he (beq_self_eq_true e.1)
      rw [hheld]
      exact h

end OneCall

/-! ## What is released -/

/-- The release of every committed region. -/
def Platform.committedReleases (pl : Platform) (st : MemState) : List Release :=
  (st.regions.filter fun r => r.committed).map fun r => pl.release (r.base, r.size)

/-- The release of every heap block. -/
def blockReleases (st : MemState) : List Release := st.heapAllocs.map fun e => .block e.1

section Releases

/-- Steps that each log one release. -/
theorem log_foldl {σ α : Type} (log : σ → List Release) {step : σ → α → σ} {f : α → Release}
    (h : ∀ s a, log (step s a) = f a :: log s) (as : List α) (s : σ) :
    log (as.foldl step s) = (as.map f).reverse ++ log s := by
  induction as generalizing s with
  | nil => rfl
  | cons a as ih =>
      rw [List.foldl_cons, ih, h, List.map_cons, List.reverse_cons, List.append_assoc]
      rfl

theorem calls_sysMunmap (os : Os) (base size : U64) (h : Host) :
    (sysMunmap os base size h).2.calls = .munmap base size (os.munmap h base size) :: h.calls := by
  rw [sysMunmap, Host.record]
  dsimp only
  split_ifs <;> rfl

theorem release_unmapCommitted (os : Os) (regions : List Region) (h : Host) :
    (unmapCommitted os regions h).calls.filterMap HostCall.release =
      ((regions.filter fun r => r.committed).map fun r => Release.range r.base r.size).reverse ++
        h.calls.filterMap HostCall.release := by
  refine log_foldl (fun h : Host => h.calls.filterMap HostCall.release) ?_ _ h
  intro h r
  rw [calls_sysMunmap]
  rfl

variable (pl : Platform) (s : pl.manager.State)

/-- **Reset** releases the committed regions. -/
theorem releases_reset : pl.releases (pl.manager.call s .reset) =
    (pl.committedReleases (pl.manager.table s)).reverse ++ pl.releases s := by
  cases pl with
  | posix os hos => exact release_unmapCommitted os _ _
  | windows os =>
      exact log_foldl (List.filterMap Windows.SysCall.release) (fun _ _ => rfl) _ _

/-- **Shutdown** releases the committed regions, then the heap blocks. -/
theorem releases_shutdown : pl.releases (pl.manager.call s .shutdown) =
    ((blockReleases (pl.manager.table s)).reverse ++
      (pl.committedReleases (pl.manager.table s)).reverse) ++ pl.releases s := by
  rw [List.append_assoc, ← releases_reset]
  cases pl with
  | posix os hos =>
      exact log_foldl (fun h : Host => h.calls.filterMap HostCall.release)
        (fun _ _ => rfl) _ _
  | windows os =>
      exact log_foldl (List.filterMap Windows.SysCall.release) (fun _ _ => rfl) _ _

end Releases

/-! ## What is released and what is held -/

namespace Held

section Teardown

variable {pl : Platform} {w : Held pl.manager}

/-- Everything that is recorded, as releases. -/
theorem releases_held (h : Matches w.st w.ranges w.blocks) :
    (w.ranges.map pl.release ++ w.blocks.map Release.block).Perm
      ((w.st.regions.map fun r => pl.release (r.base, r.size)) ++ blockReleases w.st) := by
  have hranges := h.recorded.map pl.release
  have hblocks := h.live.map Release.block
  rw [List.map_map] at hranges hblocks
  exact hranges.append hblocks

theorem length_committedReleases_le (pl : Platform) (st : MemState) :
    (pl.committedReleases st).length ≤ st.regions.length := by
  rw [Platform.committedReleases, List.length_map]
  exact List.length_filter_le _ _

theorem committed_of_length (pl : Platform) {st : MemState}
    (h : (pl.committedReleases st).length = st.regions.length) :
    ∀ r ∈ st.regions, r.committed = true := by
  rw [Platform.committedReleases, List.length_map] at h
  exact List.length_filter_eq_length_iff.mp h

theorem committedReleases_of_committed {st : MemState}
    (h : ∀ r ∈ st.regions, r.committed = true) :
    pl.committedReleases st = st.regions.map fun r => pl.release (r.base, r.size) := by
  rw [Platform.committedReleases, List.filter_eq_self.mpr h]

/-- What a call releases is what it adds to the log. -/
theorem givesBack_iff {c : Call} {new : List Release}
    (hlog : pl.releases (pl.manager.call w.s c) = new ++ pl.releases w.s)
    (h : Matches w.st w.ranges w.blocks) :
    w.GivesBack c ↔ new.Perm
      ((w.st.regions.map fun r => pl.release (r.base, r.size)) ++ blockReleases w.st) := by
  constructor
  · rintro ⟨new', hnew', hperm⟩
    obtain rfl : new = new' := List.append_cancel_right (hlog.symm.trans hnew')
    exact hperm.trans (releases_held h)
  · intro hperm
    exact ⟨new, hlog, hperm.trans (releases_held h).symm⟩

/-- **Shutdown** gives everything back exactly if every region is committed. -/
theorem givesBack_shutdown_iff (h : Matches w.st w.ranges w.blocks) :
    w.GivesBack .shutdown ↔ ∀ r ∈ w.st.regions, r.committed = true := by
  rw [givesBack_iff (releases_shutdown pl w.s) h]
  constructor
  · intro hperm
    have hlen := hperm.length_eq
    simp only [List.length_append, List.length_reverse, List.length_map] at hlen
    refine committed_of_length pl ?_
    have hst : pl.manager.table w.s = w.st := rfl
    rw [hst] at hlen
    omega
  · intro hall
    rw [← committedReleases_of_committed hall]
    exact ((List.reverse_perm _).append (List.reverse_perm _)).trans List.perm_append_comm

/-- **Reset** gives everything back exactly if there is no heap block besides. -/
theorem givesBack_reset_iff (h : Matches w.st w.ranges w.blocks) :
    w.GivesBack .reset ↔
      (∀ r ∈ w.st.regions, r.committed = true) ∧ w.st.heapAllocs = [] := by
  rw [givesBack_iff (releases_reset pl w.s) h]
  constructor
  · intro hperm
    have hlen := hperm.length_eq
    simp only [List.length_append, List.length_reverse, List.length_map, blockReleases] at hlen
    have hst : pl.manager.table w.s = w.st := rfl
    have hle := length_committedReleases_le pl w.st
    rw [hst] at hlen
    exact ⟨committed_of_length pl (by omega), List.length_eq_zero_iff.mp (by omega)⟩
  · rintro ⟨hall, hblocks⟩
    rw [← committedReleases_of_committed hall, blockReleases, hblocks, List.map_nil,
      List.append_nil]
    exact List.reverse_perm _

end Teardown

end Held

/-- **Shutdown and Reset in a reached state.** -/
theorem givesBack_iff_run (pl : Platform) (s : pl.manager.State) (calls : List Call)
    (hstart : pl.manager.table s = {})
    (hrule : AllSteps Held.call Held.Rule (⟨s, [], []⟩ : Held pl.manager) calls) :
    AllStates Held.call (fun w : Held pl.manager =>
        (w.GivesBack .shutdown ∧ w.GivesBack .reset) ↔
          (∀ r ∈ w.st.regions, r.committed = true) ∧ w.st.heapAllocs = [])
      ⟨s, [], []⟩ calls := by
  refine allStates_of_allSteps (I := fun w => Matches w.st w.ranges w.blocks) ?_ ?_ ?_ hrule
  · intro w h
    rw [Held.givesBack_shutdown_iff h, Held.givesBack_reset_iff h]
    exact and_iff_right_of_imp And.left
  · intro w c h hc
    exact h.outcome (pl.manager.outcome w.s c) hc.keeps hc.whole hc.fresh
  · rw [Held.st, hstart]
    exact matches_empty

/-! ## Leaks -/

/-- A system that grants everything, memory at the address asked for. -/
def grantingSystem : Windows.System where
  virtualAlloc _ address _ _ _ := address
  virtualProtect _ _ _ _ := true
  virtualFree _ _ := true
  alignedMalloc calls _ _ := BitVec.ofNat 64 (0x1000 * (calls.length + 1))

abbrev granting : Platform := .windows grantingSystem

theorem givesBack_map_unmap :
    AllStates Held.call (fun w : Held granting.manager =>
        (w.GivesBack .shutdown ∧ w.GivesBack .reset) ↔
          (∀ r ∈ w.st.regions, r.committed = true) ∧ w.st.heapAllocs = [])
      ⟨({} : Windows.Process), [], []⟩
      [.map 0x10000000 PAGE_SIZE Prot.RW AllocType.Data [], .unmap 0x10000000 PAGE_SIZE,
        .alloc 16 8 AllocType.Heap] := by
  refine givesBack_iff_run granting ({} : Windows.Process) _ rfl ⟨⟨rfl, nofun, ?_⟩,
    ⟨rfl, ?_, trivial⟩, ⟨rfl, nofun, ?_⟩, trivial⟩
  · exact fun _ _ hr => absurd hr List.not_mem_nil
  · rintro base size ⟨⟩
    exact List.mem_cons_self
  · exact fun _ _ he => absurd he List.not_mem_nil

/-- A range that is only reserved, and a heap block. -/
def leakingCalls : List Call := [.reserve 0x10000000 PAGE_SIZE [], .alloc 16 8 AllocType.Heap]

/-- Shutdown releases the block and not the range, Reset neither. -/
theorem not_givesBack_leakingCalls :
    AllSteps Held.call Held.Rule (⟨({} : Windows.Process), [], []⟩ : Held granting.manager)
        leakingCalls ∧
      ¬ (leakingCalls.foldl Held.call
        (⟨({} : Windows.Process), [], []⟩ : Held granting.manager)).GivesBack .shutdown ∧
      ¬ (leakingCalls.foldl Held.call
        (⟨({} : Windows.Process), [], []⟩ : Held granting.manager)).GivesBack .reset := by
  refine ⟨⟨⟨rfl, nofun, ?_⟩, ⟨rfl, nofun, ?_⟩, trivial⟩, ?_, ?_⟩
  · exact fun _ _ hr => absurd hr List.not_mem_nil
  · exact fun _ _ he => absurd he List.not_mem_nil
  · rintro ⟨new, hnew, hperm⟩
    -- One release for two things held.
    have hone := congrArg List.length hnew
    have htwo := hperm.length_eq
    rw [List.length_append, htwo] at hone
    exact absurd hone (by decide)
  · rintro ⟨new, hnew, hperm⟩
    have hnone := congrArg List.length hnew
    have htwo := hperm.length_eq
    rw [List.length_append, htwo] at hnone
    exact absurd hnone (by decide)

end Memory
