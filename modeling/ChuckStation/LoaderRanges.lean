/-
# Ranges that loads map

What a load adds to the address space and what an unload takes from it, as ranges: a load
leaves alone what is mapped, and what it maps is new; an unload that is granted takes away the
ranges of its segments.
-/
import ChuckStation.LoaderLayout
import ChuckStation.MemoryMirror

namespace Memory

/-! ## The log of the process -/

/-- The range that a call took away. -/
def HostCall.released : HostCall → Option (U64 × ℕ)
  | .munmap base size true => some (base, kernelPages size)
  | _ => none

/-- All ranges that were taken away, last one first. -/
def Host.released (h : Host) : List (U64 × ℕ) := h.calls.filterMap HostCall.released

/-- What is mapped stays so, and nothing is taken away. -/
structure Host.Keeps (h h' : Host) : Prop where
  mapped : ∀ a, h.prot a ≠ none → h'.prot a ≠ none
  released : h'.released = h.released

namespace Host.Keeps

variable {h h₁ h' : Host}

theorem refl (h : Host) : h.Keeps h := ⟨fun _ ha => ha, rfl⟩

theorem trans (hkeep : h.Keeps h₁) (hkeep₁ : h₁.Keeps h') : h.Keeps h' :=
  ⟨fun a ha => hkeep₁.mapped a (hkeep.mapped a ha), hkeep₁.released.trans hkeep.released⟩

theorem bytes (h : Host) (bytes : U64 → Byte) : h.Keeps { h with bytes := bytes } :=
  ⟨fun _ ha => ha, rfl⟩

theorem setProt (h : Host) (base : U64) (n : ℕ) (p : Prot) :
    h.Keeps (h.setProt base n (some p)) := by
  refine ⟨fun a ha => ?_, rfl⟩
  rw [Host.setProt]
  dsimp only
  split_ifs
  · exact Option.some_ne_none p
  · exact ha

/-- A call that takes nothing away. -/
theorem record {call : HostCall} (hcall : call.released = none) : h.Keeps (h.record call) := by
  refine ⟨fun a ha => ha, ?_⟩
  rw [Host.released, Host.record, List.filterMap_cons_none hcall]
  rfl

end Host.Keeps

/-- The ranges are taken away, and nothing else changes about what is mapped. -/
structure Host.Frees (h h' : Host) (rs : List (U64 × ℕ)) : Prop where
  released : h'.released = rs ++ h.released
  prot : ∀ a, h'.prot a = if ∃ r ∈ rs, InRange r.1 r.2 a then none else h.prot a

namespace Host.Frees

variable {h h₁ h' : Host} {rs rs' : List (U64 × ℕ)}

theorem nil (h : Host) : h.Frees h [] where
  released := rfl
  prot := fun a => by simp

theorem append (hfirst : h.Frees h₁ rs) (hsecond : h₁.Frees h' rs') : h.Frees h' (rs' ++ rs) where
  released := by rw [hsecond.released, hfirst.released, List.append_assoc]
  prot := by
    intro a
    rw [hsecond.prot, hfirst.prot, ← ite_or]
    refine if_congr ?_ rfl rfl
    simp only [List.mem_append, or_and_right, exists_or]

end Host.Frees

/-- What was taken away between two states of one process. -/
def Host.releasedSince (h h' : Host) : List (U64 × ℕ) :=
  h'.released.take (h'.released.length - h.released.length)

theorem Host.Frees.releasedSince {h h' : Host} {rs : List (U64 × ℕ)} (hfrees : h.Frees h' rs) :
    h.releasedSince h' = rs := by
  rw [Host.releasedSince, hfrees.released, List.length_append, Nat.add_sub_cancel_right,
    List.take_left]

theorem Host.Keeps.releasedSince {h h' : Host} (hkeep : h.Keeps h') : h.releasedSince h' = [] := by
  rw [Host.releasedSince, hkeep.released, Nat.sub_self, List.take_zero]

section Calls

variable (os : Os) (base size : U64) (prot : Prot) (p : Process)

theorem keeps_map (type : AllocType) (tag : List Byte) :
    p.host.Keeps (map os base size prot type tag p).2.host := by
  cases h : os.mmap p.host base (alignUp size PAGE_SIZE) (protToMmap prot) false with
  | none =>
      rw [map_of_none type tag h]
      exact Host.Keeps.record rfl
  | some answer =>
      obtain ⟨p', hmap, -, hhost⟩ := map_of_some type tag h
      rw [hmap, hhost]
      refine Host.Keeps.trans ?_ (Host.Keeps.record rfl)
      exact (Host.Keeps.setProt _ _ _ _).trans (Host.Keeps.bytes _ _)

theorem keeps_protect : p.host.Keeps (protect os base size prot p).2.host := by
  have hcall : p.host.Keeps (sysMprotect os base size (protToMmap prot) p.host).2 :=
    (Host.Keeps.setProt _ _ _ _).trans (Host.Keeps.record rfl)
  rw [protect]
  generalize sysMprotect os base size (protToMmap prot) p.host = r at hcall ⊢
  rcases r with ⟨_ | _, host⟩
  · exact hcall
  · exact hcall

/-- `Unmap` granted: the kernel's pages of the range are gone. -/
theorem frees_unmap (h : os.munmap p.host base size = true) :
    p.host.Frees (unmap os base size p).2.host [(base, kernelPages size)] := by
  have hhost : (unmap os base size p).2.host =
      (p.host.setProt base (kernelPages size) none).record (.munmap base size true) := by
    simp only [unmap, sysMunmap, h, if_true]
  rw [hhost]
  refine ⟨rfl, fun a => ?_⟩
  simp only [List.mem_singleton, exists_eq_left]
  rfl

end Calls

end Memory

namespace Loader

open Memory

/-! ## Loads -/

namespace Segment

/-- The segment has a mapping: what both ways of unloading ask. -/
def isMapped (seg : Segment) : Bool := seg.hostBase != 0 && seg.memsz != 0

theorem isMapped_iff (seg : Segment) : seg.isMapped = true ↔ seg.hostBase ≠ 0 ∧ seg.memsz ≠ 0 := by
  rw [isMapped, Bool.and_eq_true, bne_iff_ne, bne_iff_ne]

/-- Where the mapping is. -/
def range (seg : Segment) : U64 × ℕ := (seg.hostBase, seg.mapSz.toNat)

end Segment

/-- The ranges of the segments that have a mapping. -/
def ranges (segments : List Segment) : List (U64 × ℕ) :=
  (segments.filter Segment.isMapped).map Segment.range

/-- The ranges are new: nothing of them was mapped, all of them is, and none has an address of
another. -/
structure NewRanges (h h' : Host) (rs : List (U64 × ℕ)) : Prop where
  positive : ∀ r ∈ rs, 0 < r.2
  apart : rs.Pairwise fun r r' => ∀ a, InRange r.1 r.2 a → ¬ InRange r'.1 r'.2 a
  fresh : ∀ r ∈ rs, ∀ a, InRange r.1 r.2 a → h.prot a = none
  mapped : ∀ r ∈ rs, ∀ a, InRange r.1 r.2 a → h'.prot a ≠ none

section Loads

variable {os : Os} {isPic : Bool} {tag : List Byte} {fetch : Fetch} {file : List Byte}
  {seg seg' : Segment} {segs segs' : List Segment} {st st' : MapState} {h h₁ h' : Host}
  {rs : List (U64 × ℕ)}

theorem inRange_self {r : U64 × ℕ} (hr : 0 < r.2) : InRange r.1 r.2 r.1 := by
  rw [InRange, sub_self]
  exact hr

theorem NewRanges.nodup (hnew : NewRanges h h' rs) : rs.Nodup := by
  refine hnew.apart.imp_of_mem fun {r r'} hr _ hapart heq => ?_
  subst heq
  have hin := inRange_self (hnew.positive r hr)
  exact hapart _ hin hin

theorem NewRanges.apart_of_ne (hnew : NewRanges h h' rs) {r r' : U64 × ℕ} (hr : r ∈ rs)
    (hr' : r' ∈ rs) (hne : r ≠ r') : ∀ a, InRange r.1 r.2 a → ¬ InRange r'.1 r'.2 a := by
  have hsymm : Std.Symm fun r r' : U64 × ℕ => ∀ a, InRange r.1 r.2 a → ¬ InRange r'.1 r'.2 a :=
    ⟨fun _ _ hapart a ha ha' => hapart a ha' ha⟩
  exact hnew.apart.forall hr hr' hne

theorem newRanges_nil (h h' : Host) : NewRanges h h' [] where
  positive := fun _ hr => absurd hr List.not_mem_nil
  apart := List.Pairwise.nil
  fresh := fun _ hr => absurd hr List.not_mem_nil
  mapped := fun _ hr => absurd hr List.not_mem_nil

/-- One range, and more after it. -/
theorem NewRanges.cons {r : U64 × ℕ} (hr : NewRanges h h₁ [r]) (hrs : NewRanges h₁ h' rs)
    (hkeep : h.Keeps h₁) (hkeep₁ : h₁.Keeps h') : NewRanges h h' (r :: rs) where
  positive := List.forall_mem_cons.mpr ⟨hr.positive r List.mem_cons_self, hrs.positive⟩
  apart := by
    refine List.Pairwise.cons (fun r' hr' a ha ha' => ?_) hrs.apart
    exact hr.mapped r List.mem_cons_self a ha (hrs.fresh r' hr' a ha')
  fresh := by
    refine List.forall_mem_cons.mpr ⟨hr.fresh r List.mem_cons_self, fun r' hr' a ha => ?_⟩
    by_contra hne
    exact hkeep.mapped a hne (hrs.fresh r' hr' a ha)
  mapped := by
    refine List.forall_mem_cons.mpr ⟨fun a ha => ?_, hrs.mapped⟩
    exact hkeep₁.mapped a (hr.mapped r List.mem_cons_self a ha)

theorem keeps_fillSegment (h : fillSegment os fetch seg st = .ok st') :
    st.mem.host.Keeps st'.mem.host := by
  obtain ⟨bs, mem, -, -, hmem, hlast⟩ := fillSegment_eq_ok h
  rw [hlast]
  refine Host.Keeps.trans ?_ (keeps_protect os _ _ _ mem)
  rw [hmem]
  exact Host.Keeps.bytes _ _

/-- However the loop body ends. -/
theorem keeps_mapSegment (os : Os) (isPic : Bool) (tag : List Byte) (fetch : Fetch)
    (seg : Segment) (st : MapState) :
    st.mem.host.Keeps (mapSegment os isPic tag fetch seg st).2.2.mem.host := by
  by_cases hmemsz : seg.memsz = 0
  · rw [mapSegment_of_memsz hmemsz]
    exact Host.Keeps.refl _
  have hkeep := keeps_map os (st.loadBias + seg.aVa) seg.mapSz Prot.RW st.mem seg.allocType tag
  rcases hmap : map os (st.loadBias + seg.aVa) seg.mapSz Prot.RW seg.allocType tag st.mem with
    ⟨base, mem⟩
  rw [hmap] at hkeep
  rw [mapSegment_of_map isPic fetch hmemsz hmap]
  split_ifs
  · exact hkeep
  · split
    · exact hkeep
    · rename_i hfill
      exact hkeep.trans (keeps_fillSegment hfill)

/-- However the loop ends. -/
theorem keeps_mapLoop (os : Os) (isPic : Bool) (tag : List Byte) (fetch : Fetch)
    (segs : List Segment) (st : MapState) :
    st.mem.host.Keeps (mapLoop os isPic tag fetch segs st).2.2.mem.host := by
  induction segs generalizing st with
  | nil => exact Host.Keeps.refl _
  | cons seg segs ih =>
      have hkeep := keeps_mapSegment os isPic tag fetch seg st
      rcases hseg : mapSegment os isPic tag fetch seg st with ⟨_ | e, seg', st'⟩
      · rw [hseg] at hkeep
        rw [mapLoop_cons hseg]
        exact hkeep.trans (ih st')
      · rw [hseg] at hkeep
        rw [mapLoop_cons_exit hseg]
        exact hkeep

/-- The mapping of one segment is new. -/
theorem newRanges_mapSegment (hos : os.Conforms) (hfetch : fetch.Reads file)
    (hmemsz : seg.memsz ≠ 0) (h : mapSegment os isPic tag fetch seg st = (none, seg', st')) :
    seg'.isMapped = true ∧ NewRanges st.mem.host st'.mem.host [seg'.range] := by
  have heffect := effect_of_mapSegment hos hfetch hmemsz h
  rcases mapSegment_eq_none h with ⟨hzero, -⟩ | ⟨base, mem, -, hbase, hmap, rfl, -⟩
  · exact absurd hzero hmemsz
  -- Nothing is granted for a size of 0.
  have hmapSz : seg.mapSz ≠ 0 := by
    intro hzero
    obtain ⟨hanswer, -⟩ := map_granted hmap hbase
    rw [hzero] at hanswer
    exact hos.nonempty _ _ _ _ _ _ hanswer (by decide)
  refine ⟨?_, ?_, List.pairwise_singleton _ _, ?_, ?_⟩
  · rw [Segment.isMapped_iff]
    exact ⟨hbase, hmemsz⟩
  · intro r hr
    rw [List.mem_singleton.mp hr]
    exact Nat.pos_of_ne_zero fun hzero => hmapSz (BitVec.eq_of_toNat_eq hzero)
  · intro r hr a ha
    rw [List.mem_singleton.mp hr] at ha
    exact (heffect.fresh a ha).1
  · intro r hr a ha
    rw [List.mem_singleton.mp hr] at ha
    exact (heffect.fresh a ha).2

theorem newRanges_mapLoop (hos : os.Conforms) (hfetch : fetch.Reads file)
    (h : mapLoop os isPic tag fetch segs st = (none, segs', st')) :
    NewRanges st.mem.host st'.mem.host (ranges segs') := by
  induction segs generalizing segs' st with
  | nil =>
      cases h
      exact newRanges_nil _ _
  | cons seg segs ih =>
      obtain ⟨seg₁, st₁, rest, hbody, hrest, rfl⟩ := mapLoop_eq_none h
      by_cases hmemsz : seg.memsz = 0
      · rw [mapSegment_of_memsz hmemsz] at hbody
        cases hbody
        have hskip : seg.isMapped = false := by simp [Segment.isMapped, hmemsz]
        rw [ranges, List.filter_cons_of_neg (by simp [hskip])]
        exact ih hrest
      · obtain ⟨hmapped, hnew⟩ := newRanges_mapSegment hos hfetch hmemsz hbody
        have hkeep := keeps_mapSegment os isPic tag fetch seg st
        have hkeep₁ := keeps_mapLoop os isPic tag fetch segs st₁
        rw [hbody] at hkeep
        rw [hrest] at hkeep₁
        rw [ranges, List.filter_cons_of_pos hmapped, List.map_cons]
        exact hnew.cons (ih hrest) hkeep hkeep₁

/-! ## The two loads -/

theorem keeps_mapSegments (os : Os) (heap : Heap) (path : List Byte) (file : Option File)
    (info : ExecutableInfo) (mem : Process) :
    mem.host.Keeps (mapSegments os heap path file info mem).2.2.host := by
  cases file with
  | none => exact Host.Keeps.refl _
  | some file =>
      have hkeep := keeps_mapLoop os info.isPic (filename path) (fetchFile heap file)
        info.segments { mem := mem }
      simp only [mapSegments]
      generalize mapLoop os info.isPic (filename path) (fetchFile heap file) info.segments
        { mem := mem } = r at hkeep ⊢
      rcases r with ⟨_ | e, segments, st⟩
      · exact hkeep
      · exact hkeep

/-- `LoadExecutable`, however it ends; only a success changes the loader's own copy. -/
theorem keeps_loadExecutable (os : Os) (heap : Heap) (path : List Byte)
    (inspected mapped : Option File) (out : ExecutableInfo) (s : State) :
    s.mem.host.Keeps (loadExecutable os heap path inspected mapped out s).2.2.mem.host ∧
      ((loadExecutable os heap path inspected mapped out s).1 ≠ .returned .Ok →
        (loadExecutable os heap path inspected mapped out s).2.2.current = s.current) := by
  rw [loadExecutable]
  rcases inspectElf heap path inspected out with ⟨e, out⟩
  have hkeep := keeps_mapSegments os heap path mapped out s.mem
  dsimp only
  split_ifs
  · exact ⟨Host.Keeps.refl _, fun _ => rfl⟩
  · exact ⟨Host.Keeps.refl _, fun _ => rfl⟩
  · exact ⟨hkeep, fun _ => rfl⟩
  · exact ⟨hkeep, fun hne => absurd rfl hne⟩

/-- A `LoadExecutable` that succeeds: both copies, and what it mapped. -/
theorem newRanges_loadExecutable (hos : os.Conforms) {heap : Heap} {path : List Byte}
    {inspected mapped : Option File} {out out' : ExecutableInfo} {s s' : State}
    (h : loadExecutable os heap path inspected mapped out s = (.returned .Ok, out', s')) :
    s'.current = out' ∧ out'.loaded = true ∧
      NewRanges s.mem.host s'.mem.host (ranges out'.segments) := by
  simp only [loadExecutable] at h
  generalize (inspectElf heap path inspected out).2 = info at h
  split_ifs at h with he hvalid hok
  · exact absurd (Prod.mk.inj h).1 he
  · exact absurd (Exit.returned.inj (Prod.mk.inj h).1) hvalid
  · exact absurd (Prod.mk.inj h).1 hok
  · rcases hmap : mapSegments os heap path mapped info s.mem with ⟨e, out₁, mem⟩
    rw [hmap] at h hok
    obtain rfl : e = .returned .Ok := not_not.mp hok
    obtain ⟨f, segs, st, -, hloop, hinfo, rfl⟩ := mapSegments_eq_ok hmap
    obtain ⟨-, rfl, rfl⟩ := h
    rw [hinfo]
    exact ⟨rfl, rfl, newRanges_mapLoop hos (reads_fetchFile heap f) hloop⟩

/-- `LoadFromMemory`, however it ends. -/
theorem keeps_loadFromMemory (os : Os) (data : List Byte) (s : State) :
    s.mem.host.Keeps (loadFromMemory os data s).2.mem.host ∧
      ((loadFromMemory os data s).1 ≠ .returned .Ok →
        (loadFromMemory os data s).2.current = s.current) := by
  rw [loadFromMemory]
  cases parseMemory data with
  | error e => exact ⟨Host.Keeps.refl _, fun _ => rfl⟩
  | ok info =>
      have hkeep := keeps_mapLoop os info.isPic memoryElf (fetchMemory data) info.segments
        { mem := s.mem }
      dsimp only
      generalize mapLoop os info.isPic memoryElf (fetchMemory data) info.segments
        { mem := s.mem } = r at hkeep ⊢
      rcases r with ⟨_ | e, segments, st⟩
      · exact ⟨hkeep, fun hne => absurd rfl hne⟩
      · exact ⟨hkeep, fun _ => rfl⟩

theorem newRanges_loadFromMemory (hos : os.Conforms) {data : List Byte} {s s' : State}
    (h : loadFromMemory os data s = (.returned .Ok, s')) :
    NewRanges s.mem.host s'.mem.host (ranges s'.current.segments) := by
  obtain ⟨info, segs, st, -, hloop, rfl⟩ := loadFromMemory_eq_ok h
  exact newRanges_mapLoop hos (reads_fetchMemory data) hloop

end Loads

/-! ## Unloading -/

section Unloading

variable {os : Os} {segs : List Segment} {mem : Process}

/-- Every `munmap` of the unload is granted. -/
def Grants (os : Os) : List Segment → Process → Prop
  | [], _ => True
  | seg :: segs, mem =>
      (seg.isMapped = true → os.munmap mem.host seg.hostBase seg.memsz = true) ∧
        Grants os segs (unmapSegments os [seg] mem)

/-- The memory size of each segment, in pages of the kernel, is the size of its mapping. -/
def ExactSizes (segs : List Segment) : Prop :=
  ∀ seg ∈ segs, seg.isMapped = true → kernelPages seg.memsz = seg.mapSz.toNat

/-- An unload that is granted releases the ranges of the segments and nothing else. -/
theorem frees_unmapSegments (hgrants : Grants os segs mem) (hsizes : ExactSizes segs) :
    mem.host.Frees (unmapSegments os segs mem).host (ranges segs).reverse := by
  induction segs generalizing mem with
  | nil => exact Host.Frees.nil _
  | cons seg segs ih =>
      obtain ⟨hgrant, hrest⟩ := hgrants
      obtain ⟨hsize, hsizes⟩ := List.forall_mem_cons.mp hsizes
      have hfrees := ih hrest hsizes
      by_cases hmapped : seg.isMapped = true
      · have hone : unmapSegments os [seg] mem = (unmap os seg.hostBase seg.memsz mem).2 :=
          if_pos (seg.isMapped_iff.mp hmapped)
        have hfirst := frees_unmap os seg.hostBase seg.memsz mem (hgrant hmapped)
        rw [← hone, hsize hmapped] at hfirst
        rw [ranges, List.filter_cons_of_pos hmapped, List.map_cons, List.reverse_cons]
        exact hfirst.append hfrees
      · have hone : unmapSegments os [seg] mem = mem :=
          if_neg fun h => hmapped (seg.isMapped_iff.mpr h)
        rw [hone] at hfrees
        rw [ranges, List.filter_cons_of_neg hmapped]
        show mem.host.Frees (unmapSegments os segs (unmapSegments os [seg] mem)).host _
        rw [hone]
        exact hfrees

/-- Without a mapping there is nothing to unmap. -/
theorem unmapSegments_of_ranges (os : Os) (mem : Process) (h : ranges segs = []) :
    unmapSegments os segs mem = mem := by
  induction segs with
  | nil => rfl
  | cons seg segs ih =>
      rw [ranges, List.map_eq_nil_iff, List.filter_eq_nil_iff] at h
      obtain ⟨hseg, hsegs⟩ := List.forall_mem_cons.mp h
      have hone : unmapSegments os [seg] mem = mem :=
        if_neg fun hmapped => hseg (seg.isMapped_iff.mpr hmapped)
      have hrest : ranges segs = [] := by
        rw [ranges, List.map_eq_nil_iff, List.filter_eq_nil_iff]
        exact hsegs
      show unmapSegments os segs (unmapSegments os [seg] mem) = mem
      rw [hone, ih hrest]

end Unloading

end Loader
