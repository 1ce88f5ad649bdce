/-
# The region table and the address space

The table works on whole regions, found by their exact base; the kernel works on the pages
of the range it is given.  The two stay in step as long as every call acts on both alike.
-/
import ChuckStation.MemoryTable
import ChuckStation.OperationRuns

namespace Memory

/-! ## What the table says -/

/-- The protection of a region, `Prot::None` while it is not committed. -/
def Region.mode (r : Region) : Prot := if r.committed then r.prot else Prot.None

/-- An address is mapped with a protection exactly if one region covers it, no other does,
and the region has that protection. -/
def Mirrors (p : Process) : Prop :=
  ∀ a q, p.host.prot a = some q ↔
    ∃ r, p.st.regions.filter (fun r => r.covers a) = [r] ∧ protToMmap r.mode = q

/-- What the table says of an address, when at most one region covers it. -/
def tableProt (regions : List Region) (a : U64) : Option Prot :=
  (regions.find? fun r => r.covers a).map fun r => protToMmap r.mode

/-- No address is covered by two regions. -/
def DisjointTable (regions : List Region) : Prop :=
  regions.Pairwise fun r s => ∀ a, r.covers a = true → s.covers a = false

/-! ## Calls that act on both alike -/

/-- The calls that are made for a mapping. -/
def Call.isMapping : Call → Bool
  | .reserve .. | .commit .. | .map .. | .protect .. | .unmap .. => true
  | _ => false

/-- `a` is one of the `n` addresses from `base` on. -/
def InRange (base : U64) (n : ℕ) (a : U64) : Prop := (a - base).toNat < n

instance (base : U64) (n : ℕ) : DecidablePred (InRange base n) :=
  fun a => inferInstanceAs (Decidable ((a - base).toNat < n))

/-- `a` lies in the first region at `base`, and that region meets `ok`. -/
def InRegionAt (regions : List Region) (base : U64) (ok : Region → Bool) (a : U64) : Prop :=
  ∃ r, regions.find? (fun r => r.base == base) = some r ∧ ok r = true ∧ r.covers a = true

/-- Where only one of kernel and table acts, the address is as it should become. -/
def SameEffect (p : Process) (kernel table : U64 → Prop) (prot : Option Prot) : Prop :=
  ∀ a, ¬ (kernel a ↔ table a) → p.host.prot a = prot

/-- The call changes the pages that its region covers and no others, except for pages that
have the new protection already. -/
def InStep (os : Os) (p : Process) : Call → Prop
  | .commit base size prot =>
      let size := alignUp size PAGE_SIZE
      let prot := protToMmap prot
      if os.mprotect p.host base size prot then
        SameEffect p (InRange base (kernelPages size))
          (InRegionAt p.st.regions base fun _ => true) (some prot)
      else
        SameEffect p (InRange base (os.mprotectPart p.host base size prot)) (fun _ => False)
          (some prot)
  | .protect base size prot =>
      let prot := protToMmap prot
      if os.mprotect p.host base size prot then
        SameEffect p (InRange base (kernelPages size))
          (InRegionAt p.st.regions base fun r => r.committed) (some prot)
      else
        SameEffect p (InRange base (os.mprotectPart p.host base size prot)) (fun _ => False)
          (some prot)
  | .unmap base size =>
      os.munmap p.host base size = true →
        SameEffect p (InRange base (kernelPages size))
          (InRegionAt p.st.regions base fun _ => true) none
  | _ => True

/-! ## Disjoint tables -/

section Tables

variable {regions : List Region} {r : Region} {base a : U64} {f : Region → Region}

theorem Region.Sound.covers_iff (h : r.Sound) :
    r.covers a = true ↔ InRange r.base r.size.toNat a := by
  have hwrap := h.noWrap
  have ha := a.isLt
  have hsum : (r.base + r.size).toNat = r.base.toNat + r.size.toNat := by
    rw [BitVec.toNat_add, Nat.mod_eq_of_lt hwrap]
  simp only [Region.covers, InRange, Bool.and_eq_true, decide_eq_true_eq, BitVec.le_def,
    BitVec.lt_def, hsum, BitVec.toNat_sub]
  omega

theorem filter_covers (h : DisjointTable regions) :
    regions.filter (fun r => r.covers a) = (regions.find? fun r => r.covers a).toList := by
  induction regions with
  | nil => rfl
  | cons r rs ih =>
      obtain ⟨hhead, hrest⟩ := List.pairwise_cons.mp h
      rw [List.filter_cons, List.find?_cons]
      cases hr : r.covers a with
      | false => simpa using ih hrest
      | true =>
          have hnil : rs.filter (fun r => r.covers a) = [] := by
            rw [List.filter_eq_nil_iff]
            intro s hs
            simp [hhead s hs a hr]
          simp [hnil]

theorem mirrors_iff_tableProt {p : Process} (h : DisjointTable p.st.regions) :
    Mirrors p ↔ ∀ a, p.host.prot a = tableProt p.st.regions a := by
  have hcell : ∀ a q, (∃ r, p.st.regions.filter (fun r => r.covers a) = [r] ∧
      protToMmap r.mode = q) ↔ tableProt p.st.regions a = some q := by
    intro a q
    rw [filter_covers h, tableProt]
    cases p.st.regions.find? fun r => r.covers a with
    | none => simp
    | some r => simp
  simp only [Mirrors, hcell]
  constructor
  · intro hall a
    exact Option.ext fun q => hall a q
  · intro hall a q
    rw [hall a]

theorem covers_of_mem_false (h : tableProt regions a = none) :
    ∀ r ∈ regions, r.covers a = false := by
  intro r hr
  rw [tableProt, Option.map_eq_none_iff, List.find?_eq_none] at h
  simpa using h r hr

/-- A region on unmapped pages. -/
theorem DisjointTable.append (h : DisjointTable regions)
    (hr : ∀ a, r.covers a = true → tableProt regions a = none) :
    DisjointTable (regions ++ [r]) := by
  rw [DisjointTable, List.pairwise_append]
  refine ⟨h, List.pairwise_singleton _ _, fun s hs r' hr' a hsa => ?_⟩
  rw [List.mem_singleton] at hr'
  subst hr'
  by_contra hcov
  rw [Bool.not_eq_false] at hcov
  rw [covers_of_mem_false (hr a hcov) s hs] at hsa
  cases hsa

theorem tableProt_append (hr : ∀ a, r.covers a = true → tableProt regions a = none) :
    tableProt (regions ++ [r]) a =
      if r.covers a then some (protToMmap r.mode) else tableProt regions a := by
  cases hcov : r.covers a with
  | true =>
      have hnone := hr a hcov
      rw [tableProt, Option.map_eq_none_iff] at hnone
      simp [tableProt, List.find?_append, hnone, hcov]
  | false =>
      simp [tableProt, List.find?_append, hcov]

/-- Regions that cover the same addresses one by one. -/
theorem DisjointTable.modifyRegion (h : DisjointTable regions)
    (hf : ∀ (r : Region) (a : U64), (f r).covers a = r.covers a) :
    DisjointTable (modifyRegion base f regions) := by
  induction regions with
  | nil => exact h
  | cons r rs ih =>
      obtain ⟨hhead, hrest⟩ := List.pairwise_cons.mp h
      rw [Memory.modifyRegion]
      split_ifs
      · refine List.pairwise_cons.mpr ⟨fun s hs a hra => hhead s hs a ?_, hrest⟩
        rwa [hf] at hra
      · refine List.pairwise_cons.mpr ⟨fun s hs a hra => ?_, ih hrest⟩
        rcases mem_modifyRegion hs with hold | ⟨s', hs', rfl⟩
        · exact hhead s hold a hra
        · rw [hf]
          exact hhead s' hs' a hra

theorem tableProt_cons : tableProt (r :: regions) a =
    if r.covers a then some (protToMmap r.mode) else tableProt regions a := by
  rw [tableProt, List.find?_cons]
  cases r.covers a <;> rfl

theorem tableProt_of_forall (h : ∀ r ∈ regions, r.covers a = false) :
    tableProt regions a = none := by
  rw [tableProt, Option.map_eq_none_iff, List.find?_eq_none]
  simpa using h

theorem inRegionAt_cons {ok : Region → Bool} : InRegionAt (r :: regions) base ok a ↔
    if r.base == base then ok r = true ∧ r.covers a = true
    else InRegionAt regions base ok a := by
  rw [InRegionAt, List.find?_cons]
  cases hbase : r.base == base with
  | true => simp
  | false => rfl

theorem InRegionAt.exists_covers {ok : Region → Bool} (h : InRegionAt regions base ok a) :
    ∃ r ∈ regions, r.covers a = true := by
  obtain ⟨r, hfind, -, hcov⟩ := h
  exact ⟨r, List.mem_of_find?_eq_some hfind, hcov⟩

/-- The regions after the head of a disjoint table leave its addresses alone. -/
theorem not_inRegionAt_of_head {ok : Region → Bool} (h : DisjointTable (r :: regions))
    (hr : r.covers a = true) : ¬ InRegionAt regions base ok a := by
  intro hin
  obtain ⟨s, hs, hcov⟩ := hin.exists_covers
  rw [(List.pairwise_cons.mp h).1 s hs a hr] at hcov
  cases hcov

open Classical in
/-- Changing the region at `base` changes what the table says of its addresses. -/
theorem tableProt_modifyRegion (h : DisjointTable regions)
    (hf : ∀ (r : Region) (a : U64), (f r).covers a = r.covers a) {ok : Region → Bool} {q : Prot}
    (hok : ∀ r : Region, ok r = true → protToMmap (f r).mode = q)
    (hno : ∀ r : Region, ok r = false → (f r).mode = r.mode) :
    tableProt (modifyRegion base f regions) a =
      if InRegionAt regions base ok a then some q else tableProt regions a := by
  induction regions with
  | nil =>
      refine (if_neg ?_).symm
      rintro ⟨r, hr, -⟩
      cases hr
  | cons r rs ih =>
      rw [modifyRegion, tableProt_cons, inRegionAt_cons]
      cases hbase : r.base == base with
      | true =>
          rw [if_pos rfl, if_pos rfl, tableProt_cons, hf]
          cases hcov : r.covers a with
          | false => simp
          | true =>
              cases hr : ok r with
              | true => simp [hok r hr]
              | false => simp [hno r hr]
      | false =>
          rw [if_neg Bool.false_ne_true, if_neg Bool.false_ne_true, tableProt_cons,
            ih (List.pairwise_cons.mp h).2]
          cases hcov : r.covers a with
          | false => simp
          | true => simp [not_inRegionAt_of_head h hcov]

open Classical in
/-- Removing the region at `base` uncovers its addresses. -/
theorem tableProt_eraseP (h : DisjointTable regions) :
    tableProt (regions.eraseP fun r => r.base == base) a =
      if InRegionAt regions base (fun _ => true) a then none else tableProt regions a := by
  induction regions with
  | nil =>
      refine (if_neg ?_).symm
      rintro ⟨r, hr, -⟩
      cases hr
  | cons r rs ih =>
      obtain ⟨hhead, hrest⟩ := List.pairwise_cons.mp h
      rw [List.eraseP_cons, tableProt_cons, inRegionAt_cons]
      cases hbase : r.base == base with
      | true =>
          cases hcov : r.covers a with
          | false => simp
          | true => simpa using tableProt_of_forall fun s hs => hhead s hs a hcov
      | false =>
          rw [cond_false, tableProt_cons, ih hrest]
          cases hcov : r.covers a with
          | false => simp
          | true => simp [not_inRegionAt_of_head h hcov]

end Tables

/-! ## One call -/

/-- The table mirrors the address space, and its regions are sound and disjoint. -/
structure Mirrored (p : Process) : Prop where
  sound : SoundTable p.st.regions
  disjoint : DisjointTable p.st.regions
  prot_eq : ∀ a, p.host.prot a = tableProt p.st.regions a

theorem Mirrored.mirrors {p : Process} (h : Mirrored p) : Mirrors p :=
  (mirrors_iff_tableProt h.disjoint).mpr h.prot_eq

section Step

variable {os : Os} {p : Process} {c : Call}

/-- A mapping at a fresh place, with the region for it. -/
theorem Mirrored.append (h : Mirrored p) {r : Region} (hr : r.Sound) {host : Host}
    (hhost : host.prot = p.host.prot) (hfresh : host.Unmapped r.base r.size.toNat) :
    DisjointTable (p.st.regions ++ [r]) ∧
      ∀ a, (host.mapZero r.base r.size.toNat (protToMmap r.mode)).prot a =
        tableProt (p.st.regions ++ [r]) a := by
  have hfree : ∀ a, r.covers a = true → tableProt p.st.regions a = none := by
    intro a ha
    rw [← h.prot_eq a, ← hhost]
    exact hfresh.prot_eq_none (hr.covers_iff.mp ha)
  refine ⟨h.disjoint.append hfree, fun a => ?_⟩
  rw [tableProt_append hfree]
  by_cases ha : r.covers a = true
  · rw [if_pos ha, Host.mapZero_prot_of_lt (hr.covers_iff.mp ha)]
  · rw [if_neg ha, ← h.prot_eq a, ← hhost]
    exact if_neg fun hin => ha (hr.covers_iff.mpr hin)

/-- Kernel and table both set a protection: they agree afterwards exactly if they did so at
the same addresses, or where that protection was already. -/
theorem sameEffect_iff (h : Mirrored p) {kernel table : U64 → Prop} [DecidablePred kernel]
    [DecidablePred table] {v : Option Prot} :
    (∀ a, (if kernel a then v else p.host.prot a) =
        if table a then v else tableProt p.st.regions a) ↔
      SameEffect p kernel table v := by
  refine forall_congr' fun a => ?_
  rw [← h.prot_eq a]
  by_cases hk : kernel a <;> by_cases ht : table a <;> simp [hk, ht, eq_comm]

theorem setProt_prot (h : Host) (base : U64) (n : ℕ) (v : Option Prot) (a : U64) :
    (h.setProt base n v).prot a = if InRange base n a then v else h.prot a := rfl

/-- A region is given a protection, and a range of pages is. -/
theorem prot_eq_modifyRegion_iff (h : Mirrored p) {base : U64} {n : ℕ} {f : Region → Region}
    {ok : Region → Bool} {q : Prot}
    (hf : ∀ (r : Region) (a : U64), (f r).covers a = r.covers a)
    (hok : ∀ r : Region, ok r = true → protToMmap (f r).mode = q)
    (hno : ∀ r : Region, ok r = false → (f r).mode = r.mode) :
    (∀ a, (p.host.setProt base n (some q)).prot a =
        tableProt (modifyRegion base f p.st.regions) a) ↔
      SameEffect p (InRange base n) (InRegionAt p.st.regions base ok) (some q) := by
  classical
  simp only [setProt_prot, tableProt_modifyRegion h.disjoint hf hok hno]
  exact sameEffect_iff h

/-- Only a range of pages is given a protection. -/
theorem prot_eq_iff (h : Mirrored p) {base : U64} {n : ℕ} {q : Prot} :
    (∀ a, (p.host.setProt base n (some q)).prot a = tableProt p.st.regions a) ↔
      SameEffect p (InRange base n) (fun _ => False) (some q) := by
  rw [← sameEffect_iff h]
  simp only [setProt_prot, if_false]

theorem commit_iff (h : Mirrored p) (base size : U64) (prot : Prot) :
    DisjointTable (p.call os (.commit base size prot)).st.regions ∧
      ((∀ a, (p.call os (.commit base size prot)).host.prot a =
          tableProt (p.call os (.commit base size prot)).st.regions a) ↔
        InStep os p (.commit base size prot)) := by
  simp only [Process.call, commit, sysMprotect, InStep]
  cases hok : os.mprotect p.host base (alignUp size PAGE_SIZE) (protToMmap prot) with
  | false => exact ⟨h.disjoint, prot_eq_iff h⟩
  | true =>
      refine ⟨h.disjoint.modifyRegion fun r a => rfl, ?_⟩
      refine prot_eq_modifyRegion_iff h (fun r a => rfl) (fun r _ => rfl) fun r hr => ?_
      cases hr

theorem protect_iff (h : Mirrored p) (base size : U64) (prot : Prot) :
    DisjointTable (p.call os (.protect base size prot)).st.regions ∧
      ((∀ a, (p.call os (.protect base size prot)).host.prot a =
          tableProt (p.call os (.protect base size prot)).st.regions a) ↔
        InStep os p (.protect base size prot)) := by
  simp only [Process.call, protect, sysMprotect, InStep]
  cases hok : os.mprotect p.host base size (protToMmap prot) with
  | false => exact ⟨h.disjoint, prot_eq_iff h⟩
  | true =>
      refine ⟨h.disjoint.modifyRegion fun r a => rfl, ?_⟩
      refine prot_eq_modifyRegion_iff h (fun r a => rfl) (fun r hr => ?_) fun r hr => ?_
      · simp [Region.mode, hr]
      · simp [Region.mode, hr]

theorem removeRegion_regions (st : MemState) (base : U64) :
    (removeRegion st base).regions = st.regions.eraseP fun r => r.base == base := by
  rw [removeRegion]
  split
  · rename_i hnone
    rw [List.find?_eq_none] at hnone
    exact (List.eraseP_of_forall_not hnone).symm
  · rfl

theorem call_unmap_prot {base size : U64} (hok : os.munmap p.host base size = true) (a : U64) :
    (p.call os (.unmap base size)).host.prot a =
      if InRange base (kernelPages size) a then none else p.host.prot a := by
  simp only [Process.call, unmap, sysMunmap, hok, if_true, Host.record_prot, setProt_prot]

theorem call_unmap_regions {base size : U64} (hok : os.munmap p.host base size = true) :
    (p.call os (.unmap base size)).st.regions =
      p.st.regions.eraseP fun r => r.base == base := by
  simp only [Process.call, unmap, sysMunmap, hok, removeRegion_regions]

theorem unmap_iff (h : Mirrored p) (base size : U64) :
    DisjointTable (p.call os (.unmap base size)).st.regions ∧
      ((∀ a, (p.call os (.unmap base size)).host.prot a =
          tableProt (p.call os (.unmap base size)).st.regions a) ↔
        InStep os p (.unmap base size)) := by
  classical
  cases hok : os.munmap p.host base size with
  | false =>
      simp only [Process.call, unmap, sysMunmap, InStep, hok]
      exact ⟨h.disjoint, by simp [h.prot_eq]⟩
  | true =>
      rw [call_unmap_regions hok]
      refine ⟨h.disjoint.sublist List.eraseP_sublist, ?_⟩
      simp only [InStep, hok, true_imp_iff, call_unmap_prot hok, tableProt_eraseP h.disjoint]
      exact sameEffect_iff h

/-- **One call**: the table stays disjoint, and mirrors the address space afterwards exactly
if the call acted on both alike. -/
theorem call_iff (hos : os.Conforms) (h : Mirrored p) (hc : c.isMapping = true) :
    DisjointTable (p.call os c).st.regions ∧
      ((∀ a, (p.call os c).host.prot a = tableProt (p.call os c).st.regions a) ↔
        InStep os p c) := by
  cases c with
  | commit base size prot => exact commit_iff h base size prot
  | protect base size prot => exact protect_iff h base size prot
  | unmap base size => exact unmap_iff h base size
  | reserve hint size tag =>
      rcases reserve_cases os p hint size tag with
        ⟨hst, hprot⟩ | ⟨host, hint', fixed, base, hmap, hhost, hst, hprot⟩
      · simp only [Process.call, hst, hprot, InStep]
        exact ⟨h.disjoint, iff_true_intro h.prot_eq⟩
      · have hr : Region.Sound { base := base, size := alignUp size PAGE_SIZE, tag := tag } :=
          sound_of_mmap hos hmap rfl rfl
        obtain ⟨hdisj, htable⟩ := h.append hr hhost (hos.fresh _ _ _ _ _ _ hmap)
        -- A reservation has no rights, whatever its region says.
        have hmode : protToMmap (Region.mode
            { base := base, size := alignUp size PAGE_SIZE, tag := tag }) = Prot.None := by
          rw [Region.mode, if_neg Bool.false_ne_true]
          decide
        rw [hmode] at htable
        simp only [Process.call, hst, hprot, InStep]
        exact ⟨hdisj, iff_true_intro htable⟩
  | map hint size prot type tag =>
      cases hmap : os.mmap p.host hint (alignUp size PAGE_SIZE) (protToMmap prot) false with
      | none =>
          simp only [call_map, map_of_none type tag hmap, InStep]
          exact ⟨h.disjoint, iff_true_intro h.prot_eq⟩
      | some base =>
          obtain ⟨q, hq, hregions, hhost⟩ := map_of_some type tag hmap
          have hr : Region.Sound ⟨base, alignUp size PAGE_SIZE, prot, type, tag, true⟩ :=
            sound_of_mmap hos hmap rfl rfl
          obtain ⟨hdisj, htable⟩ := h.append hr rfl (hos.fresh _ _ _ _ _ _ hmap)
          simp only [call_map, hq, hregions, hhost, InStep]
          exact ⟨hdisj, iff_true_intro htable⟩
  | _ => cases hc

end Step

/-- **The table mirrors the address space** in every state of a run exactly if every call of
the run acts on both alike. -/
theorem mirrors_iff {os : Os} (hos : os.Conforms) (bytes : U64 → Byte) (log : List HostCall)
    {calls : List Call} (hcalls : ∀ c ∈ calls, c.isMapping = true) :
    OperationRuns.AllStates (Process.call os) Mirrors ⟨{}, ⟨fun _ => none, bytes, log⟩⟩ calls ↔
      OperationRuns.AllSteps (Process.call os) (InStep os) ⟨{}, ⟨fun _ => none, bytes, log⟩⟩
        calls := by
  refine OperationRuns.allStates_iff_allSteps_of (I := Mirrored) (fun p h => h.mirrors)
    (fun p c hc h hstep => ?_) (fun p c hc h hmirrors => ?_) ?_
  · obtain ⟨hdisj, hiff⟩ := call_iff hos h (hcalls c hc)
    exact ⟨h.sound.call hos c, hdisj, hiff.mpr hstep⟩
  · obtain ⟨hdisj, hiff⟩ := call_iff hos h (hcalls c hc)
    exact hiff.mp ((mirrors_iff_tableProt hdisj).mp hmirrors)
  · exact ⟨fun r hr => absurd hr List.not_mem_nil, List.Pairwise.nil, fun a => rfl⟩

theorem mirrors_iff_map : OperationRuns.AllStates (Process.call obligingOs) Mirrors
    emptyProcess [.map 0x10000000 0x8000 Prot.RW AllocType.Data []] := by
  refine (mirrors_iff obligingOs_conforms (fun _ => 0) [] fun c hc => ?_).mpr
    ⟨trivial, trivial⟩
  rw [List.mem_singleton.mp hc]
  rfl

/-- Two pages are mapped and the second one is unmapped: the table keeps both. -/
theorem not_mirrors_unmap : obligingOs.Conforms ∧
    ¬ Mirrors (([.map 0x10000000 0x8000 Prot.RW AllocType.Data [],
      .unmap 0x10004000 0x4000] : List Call).foldl (Process.call obligingOs) emptyProcess) := by
  refine ⟨obligingOs_conforms, fun hmirrors => ?_⟩
  have hsize : alignUp 0x8000 PAGE_SIZE = 0x8000 := by decide
  have hplace : obligingOs.mmap emptyProcess.host 0x10000000 (alignUp 0x8000 PAGE_SIZE)
      (protToMmap Prot.RW) false = some 0x10000000 := by
    rw [hsize]
    exact obligingOs_mmap (by decide) (by decide) (by decide) fun i _ => rfl
  obtain ⟨q, hq, hregions, -⟩ := map_of_some AllocType.Data [] hplace
  rw [hsize] at hregions
  rw [List.foldl_cons, List.foldl_cons, List.foldl_nil, call_map, hq] at hmirrors
  have hhost : (q.call obligingOs (.unmap 0x10004000 0x4000)).host.prot 0x10004000 = none := by
    rw [call_unmap_prot rfl]
    exact if_pos (by decide)
  have hsecond := (hmirrors 0x10004000 (protToMmap Prot.RW)).mpr
  rw [call_unmap_regions rfl, hregions, hhost] at hsecond
  cases hsecond ⟨⟨0x10000000, 0x8000, Prot.RW, AllocType.Data, [], true⟩, by decide, by decide⟩

end Memory
