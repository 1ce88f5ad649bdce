/-
# Committed memory

The counter `stats.totalCommitted` against the sizes of the regions whose committed flag is
set.  `Map` adds the size of its region twice, once in `addRegion` and once by itself, and
`Commit` sets the flag before it asks whether to add the size, so it never does: the counter
is right as long as nothing is committed, and wrong from the first commitment on.
-/
import ChuckStation.MemoryTable
import ChuckStation.OperationRuns

namespace Memory

/-! ## The counter and the table -/

/-- The sizes of the committed regions together. -/
def committedSize (regions : List Region) : ℕ :=
  ((regions.filter fun r => r.committed).map fun r => r.size.toNat).sum

/-- The counter is the committed size, at most the reserved size, no smaller than a region
that would be subtracted from it, and 0 for an empty table. -/
structure Accounted (st : MemState) : Prop where
  eq_committed : st.stats.totalCommitted.toNat = committedSize st.regions
  le_reserved : st.stats.totalCommitted ≤ st.stats.totalReserved
  noWrap : ∀ r ∈ st.regions, r.committed = true → r.size ≤ st.stats.totalCommitted
  empty : st.regions = [] → st.stats.totalCommitted = 0

/-- The call commits nothing that was not: `Map` is refused, and `Commit` is refused or
finds no uncommitted region at its base. -/
def CommitsNothing (os : Os) (p : Process) : Call → Prop
  | .map hint size prot _ _ =>
      os.mmap p.host hint (alignUp size PAGE_SIZE) (protToMmap prot) false = none
  | .commit base size prot =>
      os.mprotect p.host base (alignUp size PAGE_SIZE) (protToMmap prot) = false ∨
        ∀ r, p.st.regions.find? (fun r => r.base == base) = some r → r.committed = true
  | _ => True

theorem committedSize_append (rs : List Region) (r : Region) :
    committedSize (rs ++ [r]) = committedSize rs + if r.committed then r.size.toNat else 0 := by
  cases hr : r.committed <;> simp [committedSize, hr]

theorem committedSize_of_none {rs : List Region} (h : ∀ r ∈ rs, r.committed = false) :
    committedSize rs = 0 := by
  have hnil : rs.filter (fun r => r.committed) = [] := by
    rw [List.filter_eq_nil_iff]
    intro r hr
    simp [h r hr]
  rw [committedSize, hnil, List.map_nil, List.sum_nil]

/-- Committing the first region at `base`, which was not committed, adds its size. -/
theorem committedSize_modifyRegion {rs : List Region} {base : U64} {r : Region} (prot : Prot)
    (hfind : rs.find? (fun r => r.base == base) = some r) (hr : r.committed = false) :
    committedSize (modifyRegion base (fun r => { r with committed := true, prot := prot }) rs) =
      committedSize rs + r.size.toNat := by
  induction rs with
  | nil => cases hfind
  | cons r' rs ih =>
      rw [List.find?_cons] at hfind
      rw [modifyRegion]
      cases hbase : r'.base == base with
      | true =>
          rw [hbase] at hfind
          obtain rfl : r' = r := Option.some.inj hfind
          simp [committedSize, hr, Nat.add_comm]
      | false =>
          rw [hbase] at hfind
          have hrest := ih hfind
          cases hr' : r'.committed
          · simpa [committedSize, List.filter_cons, hr'] using hrest
          · simp only [committedSize, List.filter_cons, hr', if_true, List.map_cons,
              List.sum_cons, Bool.false_eq_true, if_false] at hrest ⊢
            rw [hrest, Nat.add_assoc]

/-! ## While nothing is committed -/

/-- Nothing is committed, and the counter says so. -/
structure NothingCommitted (p : Process) : Prop where
  sound : SoundTable p.st.regions
  none : ∀ r ∈ p.st.regions, r.committed = false
  counter : p.st.stats.totalCommitted = 0

section Step

variable {os : Os} {p : Process} {c : Call}

theorem NothingCommitted.accounted (h : NothingCommitted p) : Accounted p.st where
  eq_committed := by
    rw [h.counter, committedSize_of_none h.none]
    rfl
  le_reserved := by
    rw [h.counter]
    exact Nat.zero_le _
  noWrap := by
    intro r hr hcommitted
    rw [h.none r hr] at hcommitted
    cases hcommitted
  empty := fun _ => h.counter

/-- What a call that commits nothing does to the flags and the counter. -/
theorem flags_of_commitsNothing (h : NothingCommitted p) (hc : CommitsNothing os p c) :
    (∀ r ∈ (p.call os c).st.regions, r.committed = false) ∧
      (p.call os c).st.stats.totalCommitted = 0 := by
  cases c with
  | init => exact ⟨by simp [Process.call, init], rfl⟩
  | reset => exact ⟨by simp [Process.call, reset], rfl⟩
  | shutdown => exact ⟨by simp [Process.call, shutdown], rfl⟩
  | alloc size align type =>
      simp only [Process.call, alloc]
      split <;> exact ⟨h.none, h.counter⟩
  | free ptr =>
      simp only [Process.call, free]
      split_ifs
      · exact ⟨h.none, h.counter⟩
      · split <;> exact ⟨h.none, h.counter⟩
  | reserve hint size tag =>
      rcases reserve_cases os p hint size tag with ⟨hsame, -⟩ | ⟨_, _, _, base, -, -, hadd, -⟩
      · rw [Process.call, hsame]
        exact ⟨h.none, h.counter⟩
      · rw [Process.call, hadd]
        refine ⟨fun r hr => ?_, ?_⟩
        · rcases List.mem_append.mp hr with hr | hr
          · exact h.none r hr
          · rw [List.mem_singleton.mp hr]
        · simp [addRegion, h.counter]
  | commit base size prot =>
      -- The system refuses, or there is no region to mark.
      have hfind : os.mprotect p.host base (alignUp size PAGE_SIZE) (protToMmap prot) = false ∨
          p.st.regions.find? (fun r => r.base == base) = none := by
        refine hc.imp_right fun hcommitted => ?_
        by_contra hsome
        obtain ⟨r, hr⟩ := Option.ne_none_iff_exists'.mp hsome
        -- A region that is found would be marked already.
        have hno := h.none r (List.mem_of_find?_eq_some hr)
        rw [hcommitted r hr] at hno
        cases hno
      simp only [Process.call, commit]
      rcases hfind with hrefused | hnone
      · simp only [sysMprotect, hrefused]
        exact ⟨h.none, h.counter⟩
      · split
        · exact ⟨h.none, h.counter⟩
        · simp only [MemState.withRegions, modifyRegion_of_find_none hnone]
          exact ⟨h.none, h.counter⟩
  | map hint size prot type tag =>
      rw [Process.call, map_of_none type tag hc]
      exact ⟨h.none, h.counter⟩
  | protect base size prot =>
      simp only [Process.call, protect]
      split
      · exact ⟨h.none, h.counter⟩
      · refine ⟨fun r hr => ?_, h.counter⟩
        rcases mem_modifyRegion hr with hold | ⟨r', hr', rfl⟩
        · exact h.none r hold
        · exact h.none r' hr'
  | unmap base size =>
      simp only [Process.call, unmap]
      split
      · exact ⟨h.none, h.counter⟩
      · simp only [removeRegion]
        split
        · exact ⟨h.none, h.counter⟩
        · rename_i r hr
          have hno := h.none r (List.mem_of_find?_eq_some hr)
          refine ⟨fun r' hr' => h.none r' (List.mem_of_mem_eraseP hr'), ?_⟩
          simp [hno, h.counter]

theorem NothingCommitted.call (hos : os.Conforms) (h : NothingCommitted p)
    (hc : CommitsNothing os p c) : NothingCommitted (p.call os c) where
  sound := h.sound.call hos c
  none := (flags_of_commitsNothing h hc).1
  counter := (flags_of_commitsNothing h hc).2

/-- The first commitment is counted wrong. -/
theorem commitsNothing_of_accounted (hos : os.Conforms) (h : NothingCommitted p)
    (hacc : Accounted (p.call os c).st) : CommitsNothing os p c := by
  cases c with
  | map hint size prot type tag =>
      rw [CommitsNothing]
      by_contra hsome
      obtain ⟨base, hbase⟩ := Option.ne_none_iff_exists'.mp hsome
      have hsize := hos.nonempty _ _ _ _ _ _ hbase
      have hne : (alignUp size PAGE_SIZE).toNat ≠ 0 := fun hzero =>
        hsize (BitVec.eq_of_toNat_eq hzero)
      obtain ⟨q, hq, hregions, -⟩ := map_of_some type tag hbase
      have hcounter := map_totalCommitted type tag hbase
      have heq := hacc.eq_committed
      rw [call_map, hcounter, hq, hregions, committedSize_append, committedSize_of_none h.none,
        h.counter, zero_add, BitVec.toNat_add, if_pos rfl] at heq
      -- The counter holds twice the size of the only committed region.
      dsimp only at heq
      have hlt := (alignUp size PAGE_SIZE).isLt
      omega
  | commit base size prot =>
      rw [CommitsNothing]
      by_contra hbad
      rw [not_or, not_forall] at hbad
      obtain ⟨hgranted, r, hr⟩ := hbad
      obtain ⟨hfind, hflag⟩ := Classical.not_imp.mp hr
      have hmem := List.mem_of_find?_eq_some hfind
      have hsize := (h.sound r hmem).size_pos
      rw [BitVec.lt_def] at hsize
      have heq := hacc.eq_committed
      simp only [Process.call, commit, sysMprotect, Bool.eq_true_of_not_eq_false hgranted,
        MemState.withRegions] at heq
      rw [committedSize_modifyRegion prot hfind (h.none r hmem), committedSize_of_none h.none,
        h.counter, Nat.zero_add] at heq
      exact hsize.ne heq
  | _ => trivial

end Step

/-- **Accounting over a run.** -/
theorem accounted_iff {os : Os} (hos : os.Conforms) (host : Host) (calls : List Call) :
    OperationRuns.AllStates (Process.call os) (fun p => Accounted p.st) ⟨{}, host⟩ calls ↔
      OperationRuns.AllSteps (Process.call os) (CommitsNothing os) ⟨{}, host⟩ calls := by
  refine OperationRuns.allStates_iff_allSteps_of (I := NothingCommitted)
    (fun p h => h.accounted) (fun p c _ h hc => h.call hos hc)
    (fun p c _ h hacc => commitsNothing_of_accounted hos h hacc) ?_
  exact ⟨fun r hr => absurd hr List.not_mem_nil, fun r hr => absurd hr List.not_mem_nil, rfl⟩

theorem accounted_iff_reserve : OperationRuns.AllStates (Process.call obligingOs)
    (fun p => Accounted p.st) emptyProcess [.reserve 0x10000000 PAGE_SIZE []] :=
  (accounted_iff obligingOs_conforms _ _).mpr ⟨trivial, trivial⟩

/-- One page mapped is counted as two. -/
theorem not_accounted_map : obligingOs.Conforms ∧
    ¬ Accounted (([.map 0x10000000 PAGE_SIZE Prot.RW AllocType.Data []] : List Call).foldl
      (Process.call obligingOs) emptyProcess).st := by
  refine ⟨obligingOs_conforms, fun hacc => ?_⟩
  have hsize : alignUp PAGE_SIZE PAGE_SIZE = PAGE_SIZE := by decide
  have hplace : obligingOs.mmap emptyProcess.host 0x10000000 (alignUp PAGE_SIZE PAGE_SIZE)
      (protToMmap Prot.RW) false = some 0x10000000 := by
    rw [hsize]
    exact obligingOs_mmap (by decide) (by decide) (by decide) fun i _ => rfl
  obtain ⟨q, hq, hregions, -⟩ := map_of_some AllocType.Data [] hplace
  have hcounter := map_totalCommitted AllocType.Data [] hplace
  have heq := hacc.eq_committed
  rw [List.foldl_cons, List.foldl_nil, call_map, hcounter, hq, hregions, hsize] at heq
  exact absurd heq (by decide)

end Memory
