/-
# Loads that fail

Neither load path undoes anything: what was mapped before a load fails stays mapped, and no
record of it is kept.  So a failed load leaves everything as it was exactly if it got no
mapping at all.
-/
import ChuckStation.LoaderEffects
import ChuckStation.MemoryTable

namespace Loader

open Memory

/-- The region table, the mapped ranges, the bytes of memory and the current executable. -/
structure Unchanged (s s' : State) : Prop where
  regions : s'.mem.st.regions = s.mem.st.regions
  prot : s'.mem.host.prot = s.mem.host.prot
  bytes : s'.mem.host.bytes = s.mem.host.bytes
  current : s'.current = s.current

/-- The system refuses the first mapping of the segments, if they need one. -/
def FirstRefused (os : Os) (segments : List Segment) (mem : Process) : Prop :=
  ∀ seg, segments.find? (fun seg => seg.memsz != 0) = some seg →
    os.mmap mem.host seg.aVa (alignUp seg.mapSz PAGE_SIZE) (protToMmap Prot.RW) false = none

section Loop

variable {os : Os} {isPic : Bool} {tag : List Byte} {fetch : Fetch} {seg : Segment}
  {segs : List Segment} {st : MapState} {p : Process}

/-! ## The region table only grows -/

theorem length_modifyRegion (base : U64) (f : Region → Region) (rs : List Region) :
    (modifyRegion base f rs).length = rs.length := by
  induction rs with
  | nil => rfl
  | cons r rs ih =>
      rw [modifyRegion]
      split_ifs
      · rfl
      · rw [List.length_cons, ih, List.length_cons]

theorem length_regions_protect (os : Os) (base size : U64) (prot : Prot) (p : Process) :
    (protect os base size prot p).2.st.regions.length = p.st.regions.length := by
  simp only [protect]
  split
  · rfl
  · exact length_modifyRegion _ _ _

theorem length_regions_map (tag : List Byte) (hint size : U64) (type : AllocType) :
    (map os hint size Prot.RW type tag p).2.st.regions.length = p.st.regions.length +
      if os.mmap p.host hint (alignUp size PAGE_SIZE) (protToMmap Prot.RW) false = none then 0
      else 1 := by
  cases hmap : os.mmap p.host hint (alignUp size PAGE_SIZE) (protToMmap Prot.RW) false with
  | none =>
      rw [map_of_none type tag hmap]
      simp
  | some base =>
      obtain ⟨q, hq, hregions, -⟩ := map_of_some type tag hmap
      rw [hq, hregions]
      simp

theorem length_regions_fillSegment {st' : MapState} (h : fillSegment os fetch seg st = .ok st') :
    st'.mem.st.regions.length = st.mem.st.regions.length := by
  obtain ⟨bs, mem, -, -, rfl, hmem⟩ := fillSegment_eq_ok h
  rw [hmem, length_regions_protect]

/-- The loop body adds a region exactly if the segment is mapped. -/
theorem length_regions_mapSegment (hmemsz : seg.memsz ≠ 0) :
    (mapSegment os isPic tag fetch seg st).2.2.mem.st.regions.length =
      st.mem.st.regions.length +
        if os.mmap st.mem.host (st.loadBias + seg.aVa) (alignUp seg.mapSz PAGE_SIZE)
          (protToMmap Prot.RW) false = none then 0 else 1 := by
  rw [← length_regions_map tag _ _ seg.allocType]
  rcases hmap : map os (st.loadBias + seg.aVa) seg.mapSz Prot.RW seg.allocType tag st.mem with
    ⟨base, mem⟩
  rw [mapSegment_of_map isPic fetch hmemsz hmap]
  split_ifs
  · rfl
  · split
    · rfl
    · rename_i hfill
      exact length_regions_fillSegment hfill

theorem length_regions_mapLoop (segs : List Segment) (st : MapState) :
    st.mem.st.regions.length ≤
      (mapLoop os isPic tag fetch segs st).2.2.mem.st.regions.length := by
  induction segs generalizing st with
  | nil => exact le_rfl
  | cons seg segs ih =>
      have hbody : st.mem.st.regions.length ≤
          (mapSegment os isPic tag fetch seg st).2.2.mem.st.regions.length := by
        by_cases hmemsz : seg.memsz = 0
        · rw [mapSegment_of_memsz hmemsz]
        · rw [length_regions_mapSegment hmemsz]
          exact Nat.le_add_right _ _
      rcases hseg : mapSegment os isPic tag fetch seg st with ⟨_ | e, seg', st'⟩
      · rw [hseg] at hbody
        rw [mapLoop_cons hseg]
        exact hbody.trans (ih st')
      · rw [hseg] at hbody
        rw [mapLoop_cons_exit hseg]
        exact hbody

/-! ## The first mapping decides -/

variable (os isPic tag fetch segs st) in
/-- A first mapping that is granted adds a region for good. -/
theorem length_lt_of_not_refused (h : ¬ FirstRefused os segs st.mem) (hbias : st.loadBias = 0) :
    st.mem.st.regions.length <
      (mapLoop os isPic tag fetch segs st).2.2.mem.st.regions.length := by
  induction segs generalizing st with
  | nil => exact absurd (fun seg hseg => by cases hseg) h
  | cons seg segs ih =>
      by_cases hmemsz : seg.memsz = 0
      · rw [mapLoop_cons (mapSegment_of_memsz hmemsz)]
        refine ih st (fun hrefused => h fun seg' hseg' => hrefused seg' ?_) hbias
        rwa [List.find?_cons_of_neg (by simpa using hmemsz)] at hseg'
      · have hgranted : os.mmap st.mem.host (st.loadBias + seg.aVa)
            (alignUp seg.mapSz PAGE_SIZE) (protToMmap Prot.RW) false ≠ none := by
          intro hnone
          rw [hbias, zero_add] at hnone
          refine h fun seg' hseg' => ?_
          rw [List.find?_cons_of_pos (by simpa using hmemsz), Option.some.injEq] at hseg'
          rwa [← hseg']
        have hbody : st.mem.st.regions.length <
            (mapSegment os isPic tag fetch seg st).2.2.mem.st.regions.length := by
          rw [length_regions_mapSegment hmemsz, if_neg hgranted]
          exact Nat.lt_succ_self _
        rcases hseg : mapSegment os isPic tag fetch seg st with ⟨_ | e, seg', st'⟩
        · rw [hseg] at hbody
          rw [mapLoop_cons hseg]
          exact hbody.trans_le (length_regions_mapLoop segs st')
        · rw [hseg] at hbody
          rw [mapLoop_cons_exit hseg]
          exact hbody

variable (os isPic tag fetch segs st) in
/-- A refused first mapping, or none at all, leaves memory alone. -/
theorem mapLoop_of_refused (h : FirstRefused os segs st.mem) (hbias : st.loadBias = 0) :
    (mapLoop os isPic tag fetch segs st).2.2.mem.st = st.mem.st ∧
      (mapLoop os isPic tag fetch segs st).2.2.mem.host.prot = st.mem.host.prot ∧
      (mapLoop os isPic tag fetch segs st).2.2.mem.host.bytes = st.mem.host.bytes := by
  induction segs generalizing st with
  | nil => exact ⟨rfl, rfl, rfl⟩
  | cons seg segs ih =>
      by_cases hmemsz : seg.memsz = 0
      · rw [mapLoop_cons (mapSegment_of_memsz hmemsz)]
        refine ih st (fun seg' hseg' => h seg' ?_) hbias
        rwa [List.find?_cons_of_neg (by simpa using hmemsz)]
      · have hnone := h seg (List.find?_cons_of_pos (by simpa using hmemsz))
        rw [← zero_add seg.aVa, ← hbias] at hnone
        have hstep := mapSegment_of_map isPic fetch hmemsz (map_of_none seg.allocType tag hnone)
        rw [if_pos rfl] at hstep
        rw [mapLoop_cons_exit hstep]
        exact ⟨rfl, rfl, rfl⟩

variable (os isPic tag fetch) in
/-- What the loop did to memory, for a caller that keeps its current executable. -/
theorem unchanged_mapLoop_iff (segs : List Segment) (s : State) :
    Unchanged s { s with mem := (mapLoop os isPic tag fetch segs { mem := s.mem }).2.2.mem } ↔
      FirstRefused os segs s.mem := by
  constructor
  · intro h
    by_contra hgranted
    have hlt := length_lt_of_not_refused os isPic tag fetch segs { mem := s.mem } hgranted rfl
    exact hlt.ne (congrArg List.length h.regions).symm
  · intro h
    obtain ⟨hst, hprot, hbytes⟩ :=
      mapLoop_of_refused os isPic tag fetch segs { mem := s.mem } h rfl
    exact ⟨congrArg MemState.regions hst, hprot, hbytes, rfl⟩

theorem Unchanged.refl (s : State) : Unchanged s s := ⟨rfl, rfl, rfl, rfl⟩

end Loop

/-! ## Both load paths -/

section Paths

variable {os : Os} {s s' : State} {r : LoadResult}

theorem loadFromMemory_unchanged_iff {data : List Byte}
    (h : loadFromMemory os data s = (.returned r, s')) (hr : r ≠ .Ok) :
    Unchanged s s' ↔
      ∀ info, parseMemory data = .ok info → FirstRefused os info.segments s.mem := by
  rw [loadFromMemory] at h
  cases hparse : parseMemory data with
  | error e =>
      rw [hparse] at h
      rw [← (Prod.mk.inj h).2]
      exact iff_of_true (Unchanged.refl s) fun info hinfo => by cases hinfo
  | ok info =>
      rw [hparse] at h
      dsimp only at h
      simp only [Except.ok.injEq, forall_eq']
      rw [← unchanged_mapLoop_iff os info.isPic memoryElf (fetchMemory data)]
      rcases hloop : mapLoop os info.isPic memoryElf (fetchMemory data) info.segments
          { mem := s.mem } with ⟨_ | e, segs, st⟩
      · rw [hloop] at h
        exact absurd (Exit.returned.inj (Prod.mk.inj h).1).symm hr
      · rw [hloop] at h
        rw [← (Prod.mk.inj h).2]

theorem loadExecutable_unchanged_iff {heap : Heap} {path : List Byte}
    {inspected mapped : Option File} {out out' : ExecutableInfo}
    (h : loadExecutable os heap path inspected mapped out s = (.returned r, out', s'))
    (hr : r ≠ .Ok) :
    Unchanged s s' ↔ ∀ info, inspectElf heap path inspected out = (.returned .Ok, info) →
      mapped ≠ none → FirstRefused os info.segments s.mem := by
  rw [loadExecutable] at h
  rcases hinspect : inspectElf heap path inspected out with ⟨e, info⟩
  rw [hinspect] at h
  dsimp only at h
  split_ifs at h with he hvalid hmap
  · -- The file was not accepted.
    obtain ⟨-, -, rfl⟩ := h
    refine iff_of_true (Unchanged.refl s) fun info' hinfo' => ?_
    exact absurd (Prod.mk.inj hinfo').1 he
  · -- It has no segments.
    obtain ⟨-, -, rfl⟩ := h
    refine iff_of_true (Unchanged.refl s) fun info' hinfo' _ seg hseg => ?_
    obtain ⟨-, rfl⟩ := hinfo'
    rw [validateExecutable] at hvalid
    split_ifs at hvalid with hnil
    · rw [hnil] at hseg
      cases hseg
    · exact absurd rfl hvalid
  · have he : e = .returned .Ok := not_not.mp he
    subst he
    simp only [Prod.mk.injEq, true_and, forall_eq']
    cases mapped with
    | none =>
        obtain ⟨-, -, rfl⟩ := h
        exact iff_of_true (Unchanged.refl s) fun hno => absurd rfl hno
    | some file =>
        simp only [mapSegments] at h hmap
        rw [← unchanged_mapLoop_iff os info.isPic (filename path) (fetchFile heap file)]
        rcases hloop : mapLoop os info.isPic (filename path) (fetchFile heap file) info.segments
            { mem := s.mem } with ⟨_ | e, segs, st⟩
        · rw [hloop] at hmap
          exact absurd rfl hmap
        · rw [hloop] at h
          obtain ⟨-, -, rfl⟩ := h
          exact ⟨fun hsame _ => hsame, fun hsame => hsame (Option.some_ne_none file)⟩
  · exact absurd (Exit.returned.inj (Prod.mk.inj h).1).symm hr

end Paths

/-- **A failed load** leaves everything as it was exactly if no mapping was granted: the
headers were turned down, or the system refused the first mapping. -/
theorem unchanged_iff (os : Os) :
    (∀ data s s' r, loadFromMemory os data s = (.returned r, s') → r ≠ .Ok →
      (Unchanged s s' ↔
        ∀ info, parseMemory data = .ok info → FirstRefused os info.segments s.mem)) ∧
    ∀ heap path inspected mapped out s out' s' r,
      loadExecutable os heap path inspected mapped out s = (.returned r, out', s') → r ≠ .Ok →
      (Unchanged s s' ↔ ∀ info, inspectElf heap path inspected out = (.returned .Ok, info) →
        mapped ≠ none → FirstRefused os info.segments s.mem) :=
  ⟨fun _ _ _ _ h hr => loadFromMemory_unchanged_iff h hr,
    fun _ _ _ _ _ _ _ _ _ h hr => loadExecutable_unchanged_iff h hr⟩

/-- Two segments of one byte, far from each other. -/
def twoPages : List Byte :=
  image ET_EXEC [⟨PT_LOAD, PF_R, 176, 0x10000000, 1, 1, 0x4000⟩,
    ⟨PT_LOAD, PF_R, 176, 0x20000000, 1, 1, 0x4000⟩] [0xAA]

/-- A system that grants one mapping and then no more. -/
def onceOs : Os where
  mmap h _ _ _ _ := if h.calls = [] then some 0x10000000 else none
  mprotect _ _ _ _ := true
  munmap _ _ _ := true
  memalign _ _ _ := none
  canRead p := p != Prot.None

theorem loadFromMemory_twoPages :
    ∃ s', loadFromMemory onceOs twoPages ⟨{}, emptyProcess⟩ = (.returned .MemoryError, s') ∧
      s'.mem.st.regions ≠ [] := by
  have hresult : (loadFromMemory onceOs twoPages ⟨{}, emptyProcess⟩).1 =
      .returned .MemoryError := by
    decide +kernel
  have hregions : (loadFromMemory onceOs twoPages ⟨{}, emptyProcess⟩).2.mem.st.regions ≠ [] := by
    decide +kernel
  generalize loadFromMemory onceOs twoPages ⟨{}, emptyProcess⟩ = r at hresult hregions
  obtain ⟨e, s'⟩ := r
  exact ⟨s', by rw [← hresult], hregions⟩

theorem unchanged_iff_twoPages : ∃ s', Unchanged ⟨{}, emptyProcess⟩ s' ↔
    ∀ info, parseMemory twoPages = .ok info → FirstRefused onceOs info.segments emptyProcess := by
  obtain ⟨s', hload, -⟩ := loadFromMemory_twoPages
  exact ⟨s', (unchanged_iff onceOs).1 twoPages _ s' _ hload (by decide)⟩

/-- The second mapping is refused, and the first one stays. -/
theorem not_unchanged_twoPages : ∃ s',
    loadFromMemory onceOs twoPages ⟨{}, emptyProcess⟩ = (.returned .MemoryError, s') ∧
      ¬ Unchanged ⟨{}, emptyProcess⟩ s' := by
  obtain ⟨s', hload, hregions⟩ := loadFromMemory_twoPages
  exact ⟨s', hload, fun h => hregions h.regions⟩

end Loader
