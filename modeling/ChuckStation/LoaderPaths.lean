/-
# The two load paths

`LoadFromMemory` and `LoadExecutable` on the same bytes: what each of them reads of the
headers, and when they load the same segments to the same places.
-/
import ChuckStation.LoaderBounds
import ChuckStation.LoaderWrites

namespace Loader

open Memory

/-! ## Agreement -/

/-- The same executable in the same memory. -/
structure SameLoad (s s' : State) : Prop where
  segments : s.current.segments = s'.current.segments
  entryPoint : s.current.entryPoint = s'.current.entryPoint
  isPic : s.current.isPic = s'.current.isPic
  imageBase : s.current.imageBase = s'.current.imageBase
  host : s.mem.host = s'.mem.host

/-- `LoadFromMemory` of the bytes and `LoadExecutable` of a file that holds them both load
the same, or neither loads. -/
def Agree (os : Os) (heap : Heap) (path : List Byte) (out : ExecutableInfo) (data : List Byte)
    (s : State) : Prop :=
  let fromMemory := loadFromMemory os data s
  let fromFile := loadExecutable os heap path (some ⟨data, fun _ => false⟩)
    (some ⟨data, fun _ => false⟩) out s
  fromMemory.1 = .returned .Ok ∧ fromFile.1 = .returned .Ok ∧ SameLoad fromMemory.2 fromFile.2.2 ∨
    fromMemory.1 ≠ .returned .Ok ∧ fromFile.1 ≠ .returned .Ok

/-! ## What the file path reads -/

/-- The file header, if both paths accept it. -/
def checkedHeader (data : List Byte) : Option Ehdr :=
  match slice data 0 ehdrSize with
  | none => none
  | some bs => if (Ehdr.ofBytes bs).check = .Ok then some (Ehdr.ofBytes bs) else none

/-- The segments `InspectElf` finds: those of the headers that can be read. -/
def inspectedSegments (data : List Byte) (eh : Ehdr) : List Segment :=
  (inspectPhdrs ⟨data, fun _ => false⟩ eh.e_phoff eh.e_phnum.toNat 0 ⟨1, false⟩).1

/-- What `InspectElf` does after the program headers. -/
def inspectedTables (heap : Heap) (data : List Byte) (eh : Ehdr) :
    Except HostAbort (List Symbol × List RelaSection) :=
  inspectTables heap ⟨data, fun _ => false⟩ eh
    (inspectPhdrs ⟨data, fun _ => false⟩ eh.e_phoff eh.e_phnum.toNat 0 ⟨1, false⟩).2

/-- The segment needs bytes that are not there. -/
def Segment.NeedsMore (data : List Byte) (seg : Segment) : Prop :=
  seg.memsz ≠ 0 ∧ seg.filesz ≠ 0 ∧ data.length < seg.paddr.toNat + seg.filesz.toNat

/-- Neither path can load: the header is turned down, or what `InspectElf` finds has no
segments, or one whose bytes are not there. -/
def NeitherLoads (data : List Byte) : Prop :=
  ∀ eh, checkedHeader data = some eh →
    inspectedSegments data eh = [] ∨ ∃ seg ∈ inspectedSegments data eh, seg.NeedsMore data

/-- Both paths read the same: the program headers have an offset and lie in the file, so do
all segments by their 64-bit ends, the sections can be read and the heap holds the file bytes
of each segment. -/
def SameReading (heap : Heap) (data : List Byte) : Prop :=
  ∃ eh, acceptedHeader data = some eh ∧ eh.tableEnd ≤ data.length ∧
    (∀ ph ∈ loadHeaders data eh, ph.fileEnd % 2 ^ 64 ≤ data.length) ∧
    (∃ tables, inspectedTables heap data eh = .ok tables) ∧
    ∀ ph ∈ loadHeaders data eh, ph.p_memsz ≠ 0 → ph.p_filesz ≠ 0 →
      heap.grants ph.p_filesz.toNat = true

/-! ## The program headers -/

section Headers

variable {data : List Byte} {eh : Ehdr}

/-- The headers of a table inside the file are read one after another. -/
theorem inspectPhdrs_inside (hsize : data.length < 2 ^ 63) {phoff : U64} {n i k : ℕ}
    (h : phoff.toNat + (i + n) * phdrSize ≤ data.length) :
    inspectPhdrs ⟨data, fun _ => false⟩ phoff n i ⟨k, false⟩ =
      (((headersFrom data n (phoff.toNat + i * phdrSize)).filter
        fun ph => ph.p_type = PT_LOAD).map Phdr.segment, ⟨k + n, false⟩) := by
  have hsz : phdrSize = 56 := rfl
  induction n generalizing i k with
  | zero => rfl
  | succ n ih =>
      rw [hsz] at h
      -- The offsets stay in the file, so they do not wrap round.
      have hoff : (phoff + BitVec.ofNat 64 (i * phdrSize)).toNat = phoff.toNat + i * phdrSize := by
        rw [BitVec.toNat_add, BitVec.toNat_ofNat, hsz,
          Nat.mod_eq_of_lt (by omega : i * 56 < 2 ^ 64), Nat.mod_eq_of_lt (by omega)]
      have hread : Stream.read ⟨data, fun _ => false⟩ (phoff + BitVec.ofNat 64 (i * phdrSize))
          phdrSize ⟨k, false⟩ =
          ((data.drop (phoff.toNat + i * phdrSize)).take phdrSize, true, ⟨k + 1, false⟩) := by
        rw [← hoff]
        refine Stream.read_of_fits rfl ?_ rfl ?_
        · rw [hoff, hsz]
          omega
        · rw [hoff, hsz]
          dsimp only
          omega
      rw [inspectPhdrs, readAt, hread]
      dsimp only
      rw [ih (by rw [hsz]; omega), headersFrom]
      have hnext : phoff.toNat + (i + 1) * phdrSize = phoff.toNat + i * phdrSize + phdrSize := by
        rw [hsz]
        omega
      rw [hnext]
      split_ifs with htype
      · rw [List.filter_cons_of_neg (by simpa using htype)]
        simp only [Prod.mk.injEq, true_and, Stream.mk.injEq, and_true]
        omega
      · rw [List.filter_cons_of_pos (by simpa using htype), List.map_cons]
        simp only [Prod.mk.injEq, true_and, Stream.mk.injEq, and_true]
        omega

theorem inspectedSegments_inside (hsize : data.length < 2 ^ 63)
    (htable : eh.tableEnd ≤ data.length) :
    inspectedSegments data eh = (loadHeaders data eh).map Phdr.segment := by
  rw [Ehdr.tableEnd] at htable
  rw [inspectedSegments, inspectPhdrs_inside hsize (by rw [Nat.zero_add]; exact htable),
    loadHeaders]
  simp only [Nat.zero_mul, Nat.add_zero]

theorem checkedHeader_of_accepted (h : acceptedHeader data = some eh) :
    checkedHeader data = some eh := by
  rw [acceptedHeader] at h
  rw [checkedHeader]
  cases hbs : slice data 0 ehdrSize with
  | none =>
      rw [hbs] at h
      cases h
  | some bs =>
      rw [hbs] at h
      dsimp only at h ⊢
      split_ifs at h with hok
      rw [if_pos hok.1]
      exact h

/-- What the buffer path goes on with, it has read in full. -/
theorem parseMemory_eq_ok (hsize : data.length < 2 ^ 63) {info : ExecutableInfo}
    (h : parseMemory data = .ok info) :
    ∃ eh, acceptedHeader data = some eh ∧ eh.tableEnd ≤ data.length ∧
      (∀ ph ∈ loadHeaders data eh, ph.fileEnd % 2 ^ 64 ≤ data.length) ∧
      loadHeaders data eh ≠ [] ∧ info = ExecutableInfo.withRange
        { entryPoint := eh.e_entry, isPic := eh.isPic
          segments := (loadHeaders data eh).map Phdr.segment } := by
  cases heh : acceptedHeader data with
  | none =>
      obtain ⟨r, hr⟩ := parseMemory_of_rejected heh
      rw [hr] at h
      cases h
  | some eh =>
      refine ⟨eh, rfl, ?_⟩
      have htable : eh.tableEnd ≤ data.length := by
        by_contra hout
        rw [parseMemory_of_accepted heh] at h
        split_ifs at h with hend
        rw [readPhdrs_wrapped hsize (Nat.not_le.mp hout) (Nat.not_lt.mp hend)] at h
        cases h
      obtain ⟨hbad, hgood⟩ := parseMemory_inside heh htable
      by_cases hchecks : ∀ ph ∈ loadHeaders data eh, ph.fileEnd % 2 ^ 64 ≤ data.length
      · rw [hgood hchecks] at h
        split_ifs at h with hnil
        cases h
        exact ⟨htable, hchecks, hnil, rfl⟩
      · rw [hbad hchecks] at h
        cases h

end Headers

/-! ## The segment loop -/

section Loop

variable {os : Os} {isPic : Bool} {fetch fetch' : Fetch} {seg : Segment} {segs : List Segment}
  {st st' : MapState} {p p' : Process}

/-- Variables of the loop that differ in what the memory manager notes, and nothing else. -/
structure SameVars (st st' : MapState) : Prop where
  loadBias : st.loadBias = st'.loadBias
  reads : st.reads = st'.reads
  host : st.mem.host = st'.mem.host

/-- The same bytes for every segment that needs some. -/
def SameFetch (fetch fetch' : Fetch) (seg : Segment) : Prop :=
  seg.memsz ≠ 0 → seg.filesz ≠ 0 → ∀ k, fetch seg.paddr seg.filesz k = fetch' seg.paddr seg.filesz k

/-- The answer and the address space of `Map` do not depend on what the manager notes. -/
theorem map_host (os : Os) (hint size : U64) (prot : Prot) (type : AllocType)
    (tag tag' : List Byte) (h : p.host = p'.host) :
    (map os hint size prot type tag p).1 = (map os hint size prot type tag' p').1 ∧
      (map os hint size prot type tag p).2.host = (map os hint size prot type tag' p').2.host := by
  rw [map, map, h]
  dsimp only
  rcases sysMmap os hint (alignUp size PAGE_SIZE) (protToMmap prot) false p'.host with
    ⟨_ | base, host⟩
  · exact ⟨rfl, rfl⟩
  · exact ⟨rfl, rfl⟩

theorem protect_host (os : Os) (base size : U64) (prot : Prot) (h : p.host = p'.host) :
    (protect os base size prot p).2.host = (protect os base size prot p').2.host := by
  rw [protect, protect, h]
  dsimp only
  rcases sysMprotect os base size (protToMmap prot) p'.host with ⟨_ | _, host⟩
  · rfl
  · rfl

/-- Two computations that fail alike or succeed with related results. -/
def Parallel {ε σ : Type} (R : σ → σ → Prop) (r r' : Except ε σ) : Prop :=
  (∃ e, r = .error e ∧ r' = .error e) ∨ ∃ a a', r = .ok a ∧ r' = .ok a' ∧ R a a'

theorem Parallel.bind {ε σ τ : Type} {R : σ → σ → Prop} {S : τ → τ → Prop} {r r' : Except ε σ}
    {f f' : σ → Except ε τ} (h : Parallel R r r') (hf : ∀ a a', R a a' → Parallel S (f a) (f' a')) :
    Parallel S (r >>= f) (r' >>= f') := by
  rcases h with ⟨e, rfl, rfl⟩ | ⟨a, a', rfl, rfl, hR⟩
  · exact .inl ⟨e, rfl, rfl⟩
  · exact hf a a' hR

theorem store_parallel (addr : U64) (bs : List Byte) (h : p.host = p'.host) :
    Parallel (fun q q' : Process => q.host = q'.host) (store addr bs p) (store addr bs p') := by
  rw [store, store, h]
  split_ifs
  · exact .inr ⟨_, _, rfl, rfl, rfl⟩
  · exact .inl ⟨_, rfl, rfl⟩

theorem copySegment_parallel (h : SameVars st st') (hfetch : SameFetch fetch fetch' seg)
    (hmemsz : seg.memsz ≠ 0) :
    Parallel SameVars (copySegment fetch seg st) (copySegment fetch' seg st') := by
  rw [copySegment, copySegment]
  split_ifs with hfilesz
  · exact .inr ⟨_, _, rfl, rfl, h⟩
  · rw [hfetch hmemsz hfilesz st.reads, h.reads]
    cases fetch' seg.paddr seg.filesz st'.reads with
    | error e => exact .inl ⟨e, rfl, rfl⟩
    | ok bs =>
        rcases store_parallel seg.dest bs h.host with ⟨e, he, he'⟩ | ⟨q, q', hq, hq', hhost⟩
        · simp only [he, he']
          exact .inl ⟨_, rfl, rfl⟩
        · simp only [hq, hq']
          exact .inr ⟨_, _, rfl, rfl, h.loadBias, rfl, hhost⟩

theorem zeroSegment_parallel (seg : Segment) (h : SameVars st st') :
    Parallel SameVars (zeroSegment seg st) (zeroSegment seg st') := by
  rw [zeroSegment, zeroSegment]
  split_ifs
  · rcases store_parallel seg.bss seg.zeros h.host with ⟨e, he, he'⟩ | ⟨q, q', hq, hq', hhost⟩
    · simp only [he, he']
      exact .inl ⟨_, rfl, rfl⟩
    · simp only [hq, hq']
      exact .inr ⟨_, _, rfl, rfl, h.loadBias, h.reads, hhost⟩
  · exact .inr ⟨_, _, rfl, rfl, h⟩

theorem fillSegment_parallel (os : Os) (h : SameVars st st') (hfetch : SameFetch fetch fetch' seg)
    (hmemsz : seg.memsz ≠ 0) :
    Parallel SameVars (fillSegment os fetch seg st) (fillSegment os fetch' seg st') := by
  rw [fillSegment, fillSegment]
  refine (copySegment_parallel h hfetch hmemsz).bind fun t t' ht => ?_
  refine (zeroSegment_parallel seg ht).bind fun u u' hu => ?_
  exact .inr ⟨_, _, rfl, rfl, hu.loadBias, hu.reads, protect_host os _ _ _ hu.host⟩

/-- One segment on both paths: they go on or leave alike. -/
theorem mapSegment_same (os : Os) (isPic : Bool) (tag tag' : List Byte) (h : SameVars st st')
    (hfetch : SameFetch fetch fetch' seg) :
    (mapSegment os isPic tag fetch seg st).1 = (mapSegment os isPic tag' fetch' seg st').1 ∧
      (mapSegment os isPic tag fetch seg st).2.1 =
        (mapSegment os isPic tag' fetch' seg st').2.1 ∧
      SameVars (mapSegment os isPic tag fetch seg st).2.2
        (mapSegment os isPic tag' fetch' seg st').2.2 := by
  by_cases hmemsz : seg.memsz = 0
  · rw [mapSegment_of_memsz hmemsz, mapSegment_of_memsz hmemsz]
    exact ⟨rfl, rfl, h⟩
  obtain ⟨hbase, hhost⟩ := map_host os (st.loadBias + seg.aVa) seg.mapSz Prot.RW seg.allocType
    tag tag' h.host
  rcases hmap : map os (st.loadBias + seg.aVa) seg.mapSz Prot.RW seg.allocType tag st.mem with
    ⟨base, mem⟩
  rcases hmap' : map os (st.loadBias + seg.aVa) seg.mapSz Prot.RW seg.allocType tag' st'.mem with
    ⟨base', mem'⟩
  rw [hmap, hmap'] at hbase hhost
  dsimp only at hbase hhost
  -- The tag is only written down, so both get the same base.
  subst hbase
  rw [h.loadBias] at hmap'
  rw [mapSegment_of_map isPic fetch hmemsz hmap, mapSegment_of_map isPic fetch' hmemsz hmap']
  split_ifs with hzero
  · exact ⟨rfl, rfl, h.loadBias, h.reads, hhost⟩
  · have hvars : SameVars ⟨biasAfter isPic st.loadBias seg.aVa base, st.reads, mem⟩
        ⟨biasAfter isPic st'.loadBias seg.aVa base, st'.reads, mem'⟩ :=
      ⟨by simp only [h.loadBias], h.reads, hhost⟩
    have hfetch' : SameFetch fetch fetch' { seg with hostBase := base } := hfetch
    have hfill := fillSegment_parallel os hvars hfetch' hmemsz
    rcases hfill with ⟨e, he, he'⟩ | ⟨t, t', ht, ht', hsame⟩
    · rw [he, he']
      exact ⟨rfl, rfl, hvars⟩
    · rw [ht, ht']
      exact ⟨rfl, rfl, hsame⟩

/-- The whole loop on both paths. -/
theorem mapLoop_same (os : Os) (isPic : Bool) (tag tag' : List Byte) (h : SameVars st st')
    (hfetch : ∀ seg ∈ segs, SameFetch fetch fetch' seg) :
    (mapLoop os isPic tag fetch segs st).1 = (mapLoop os isPic tag' fetch' segs st').1 ∧
      (mapLoop os isPic tag fetch segs st).2.1 = (mapLoop os isPic tag' fetch' segs st').2.1 ∧
      SameVars (mapLoop os isPic tag fetch segs st).2.2
        (mapLoop os isPic tag' fetch' segs st').2.2 := by
  induction segs generalizing st st' with
  | nil => exact ⟨rfl, rfl, h⟩
  | cons seg segs ih =>
      obtain ⟨hseg, hsegs⟩ := List.forall_mem_cons.mp hfetch
      obtain ⟨hexit, hout, hvars⟩ := mapSegment_same os isPic tag tag' h hseg
      rcases hrun : mapSegment os isPic tag fetch seg st with ⟨exit, seg', t⟩
      rcases hrun' : mapSegment os isPic tag' fetch' seg st' with ⟨exit', seg'', t'⟩
      rw [hrun, hrun'] at hexit hout hvars
      dsimp only at hexit hout hvars
      subst hexit hout
      cases exit with
      | some e =>
          rw [mapLoop_cons_exit hrun, mapLoop_cons_exit hrun']
          exact ⟨rfl, rfl, hvars⟩
      | none =>
          rw [mapLoop_cons hrun, mapLoop_cons hrun']
          obtain ⟨hexits, houts, hvarss⟩ := ih hvars hsegs
          exact ⟨hexits, by simp only [houts], hvarss⟩

/-- A segment whose bytes cannot be had ends the loop. -/
theorem mapLoop_ne_none (os : Os) (isPic : Bool) (tag : List Byte) (st : MapState)
    (h : ∃ seg ∈ segs, seg.memsz ≠ 0 ∧ seg.filesz ≠ 0 ∧
      ∀ k bs, fetch seg.paddr seg.filesz k ≠ .ok bs) :
    (mapLoop os isPic tag fetch segs st).1 ≠ none := by
  induction segs generalizing st with
  | nil =>
      obtain ⟨seg, hseg, -⟩ := h
      cases hseg
  | cons seg segs ih =>
      intro hend
      rcases hloop : mapLoop os isPic tag fetch (seg :: segs) st with ⟨exit, segs', st'⟩
      rw [hloop] at hend
      dsimp only at hend
      subst hend
      obtain ⟨seg₁, st₁, rest, hseg, hrest, -⟩ := mapLoop_eq_none hloop
      obtain ⟨seg₂, hmem, hmemsz, hfilesz, hno⟩ := h
      rcases List.mem_cons.mp hmem with rfl | hmem
      · rcases mapSegment_eq_none hseg with ⟨hzero, -⟩ | ⟨base, mem, -, -, -, rfl, hfill⟩
        · exact hmemsz hzero
        · obtain ⟨bs, -, hfetched, -⟩ := fillSegment_eq_ok hfill
          rw [Fetched, if_neg hfilesz] at hfetched
          exact hno _ _ hfetched
      · exact ih st₁ ⟨seg₂, hmem, hmemsz, hfilesz, hno⟩ (congrArg Prod.fst hrest)

end Loop

/-! ## Fetching -/

section Fetching

variable {heap : Heap} {data : List Byte} {paddr filesz : U64}

/-- Bytes that are there come from the file as they come from the buffer. -/
theorem fetchFile_inside (hsize : data.length < 2 ^ 63)
    (hfits : paddr.toNat + filesz.toNat ≤ data.length)
    (hgrants : heap.grants filesz.toNat = true) (k : ℕ) :
    fetchFile heap ⟨data, fun _ => false⟩ paddr filesz k = fetchMemory data paddr filesz k := by
  have hread : Stream.read ⟨data, fun _ => false⟩ paddr filesz.toNat ⟨k, false⟩ =
      ((data.drop paddr.toNat).take filesz.toNat, true, ⟨k + 1, false⟩) :=
    Stream.read_of_fits rfl (by omega) rfl hfits
  have hlen : ((data.drop paddr.toNat).take filesz.toNat).length = filesz.toNat := by
    rw [List.length_take, List.length_drop]
    omega
  rw [fetchFile, newVector, if_neg (by omega), if_pos hgrants, fetchMemory, slice_of_le hfits]
  dsimp only
  rw [readBytes, hread]
  dsimp only
  rw [hlen, Nat.sub_self, List.replicate_zero, List.append_nil]

/-- A fetch from the file finds all its bytes there, in a vector of the heap. -/
theorem fetchFile_eq_ok {k : ℕ} {bs : List Byte} (hfilesz : filesz ≠ 0)
    (h : fetchFile heap ⟨data, fun _ => false⟩ paddr filesz k = .ok bs) :
    paddr.toNat + filesz.toNat ≤ data.length ∧ heap.grants filesz.toNat = true := by
  have hpos : filesz.toNat ≠ 0 := fun hzero => hfilesz (BitVec.eq_of_toNat_eq hzero)
  obtain ⟨hvector, hbytes, hlen⟩ := bytes_of_fetchFile h
  constructor
  · rw [hbytes, List.length_take, List.length_drop] at hlen
    dsimp only at hlen
    omega
  · rw [newVector] at hvector
    split_ifs at hvector with hlong hgrants
    exact hgrants

theorem fetchMemory_outside (h : data.length < paddr.toNat + filesz.toNat) (k : ℕ)
    (bs : List Byte) : fetchMemory data paddr filesz k ≠ .ok bs := by
  rw [fetchMemory, slice_of_lt h]
  exact fun hok => by cases hok

end Fetching

/-! ## Both paths -/

section Paths

variable {os : Os} {heap : Heap} {path : List Byte} {out : ExecutableInfo} {data : List Byte}
  {s : State} {eh : Ehdr}

/-- What the file path goes on with after the program headers. -/
def inspectedInfo (path : List Byte) (out : ExecutableInfo) (data : List Byte) (eh : Ehdr) :
    ExecutableInfo :=
  ExecutableInfo.withRange { out with
    path := path, entryPoint := eh.e_entry, isPic := eh.isPic
    segments := inspectedSegments data eh }

theorem readAt_header {bs : List Byte} (h : slice data 0 ehdrSize = some bs) :
    readAt ⟨data, fun _ => false⟩ 0 ehdrSize {} = (some bs, ⟨1, false⟩) := by
  rw [slice] at h
  split_ifs at h with hfits
  have hread : Stream.read ⟨data, fun _ => false⟩ 0 ehdrSize {} =
      (((data.drop 0).take ehdrSize), true, ⟨1, false⟩) :=
    Stream.read_of_fits rfl (by decide) rfl (by simpa using hfits)
  rw [readAt, hread, ← Option.some.inj h]

theorem readAt_short (h : slice data 0 ehdrSize = none) :
    (readAt ⟨data, fun _ => false⟩ 0 ehdrSize {}).1 = none := by
  rw [slice] at h
  split_ifs at h with hfits
  rw [readAt]
  rcases hread : Stream.read ⟨data, fun _ => false⟩ 0 ehdrSize {} with ⟨bs, _ | _, s'⟩
  · rfl
  · obtain ⟨rfl, hlen, -⟩ := Stream.read_eq_true hread
    rw [List.length_take, List.length_drop] at hlen
    dsimp only at hlen
    omega

/-- The file path is turned down at the header. -/
theorem inspectElf_of_rejected (heap : Heap) (path : List Byte) (out : ExecutableInfo)
    (h : checkedHeader data = none) :
    (inspectElf heap path (some ⟨data, fun _ => false⟩) out).1 ≠ .returned .Ok := by
  rw [checkedHeader] at h
  rw [inspectElf]
  cases hbs : slice data 0 ehdrSize with
  | none =>
      have hshort := readAt_short hbs
      rcases hread : readAt ⟨data, fun _ => false⟩ 0 ehdrSize {} with ⟨r, s'⟩
      rw [hread] at hshort
      dsimp only at hshort ⊢
      subst hshort
      exact fun hok => by cases hok
  | some bs =>
      rw [hbs] at h
      dsimp only at h ⊢
      split_ifs at h with hcheck
      rw [readAt_header hbs]
      dsimp only
      rw [if_pos hcheck]
      exact fun hok => hcheck (Exit.returned.inj hok)

theorem inspectElf_of_checked (heap : Heap) (path : List Byte) (out : ExecutableInfo)
    (h : checkedHeader data = some eh) :
    inspectElf heap path (some ⟨data, fun _ => false⟩) out =
      match inspectedTables heap data eh with
      | .error e => (.abort e, inspectedInfo path out data eh)
      | .ok (symbols, relas) =>
        (.returned .Ok,
          { inspectedInfo path out data eh with symbols := symbols, relaSections := relas }) := by
  rw [checkedHeader] at h
  cases hbs : slice data 0 ehdrSize with
  | none =>
      rw [hbs] at h
      cases h
  | some bs =>
      rw [hbs] at h
      dsimp only at h
      split_ifs at h with hcheck
      cases h
      rw [inspectElf, readAt_header hbs]
      dsimp only
      rw [if_neg (not_not.mpr hcheck)]
      rfl

theorem loadExecutable_of_inspect {e : Exit} {info : ExecutableInfo}
    (h : inspectElf heap path (some ⟨data, fun _ => false⟩) out = (e, info))
    (hno : e ≠ .returned .Ok ∨ info.segments = []) :
    (loadExecutable os heap path (some ⟨data, fun _ => false⟩) (some ⟨data, fun _ => false⟩) out
        s).1 ≠ .returned .Ok := by
  rw [loadExecutable, h]
  dsimp only
  by_cases he : e = .returned .Ok
  · have hnil := hno.resolve_left (not_not.mpr he)
    have hvalid : validateExecutable info = .InvalidProgramHeader := if_pos hnil
    rw [if_neg (not_not.mpr he), hvalid, if_pos (by decide)]
    exact fun hok => by cases hok
  · rw [if_pos he]
    exact he

/-- The file path once the segments are known: the outcome is that of the segment loop. -/
theorem loadExecutable_of_tables (os : Os) (path : List Byte) (out : ExecutableInfo) (s : State)
    {symbols : List Symbol} {relas : List RelaSection} (h : checkedHeader data = some eh)
    (htables : inspectedTables heap data eh = .ok (symbols, relas))
    (hsegs : inspectedSegments data eh ≠ []) :
    loadExecutable os heap path (some ⟨data, fun _ => false⟩) (some ⟨data, fun _ => false⟩) out
        s =
      match mapLoop os eh.isPic (filename path) (fetchFile heap ⟨data, fun _ => false⟩)
        (inspectedSegments data eh) { mem := s.mem } with
      | (some e, segs, st) =>
        (e, { inspectedInfo path out data eh with
          symbols := symbols, relaSections := relas, segments := segs }, { s with mem := st.mem })
      | (none, segs, st) =>
        let info := ExecutableInfo.withOffsets (ExecutableInfo.mapped
          { inspectedInfo path out data eh with symbols := symbols, relaSections := relas }
            segs st.loadBias) heap
        (.returned .Ok, info, { current := info, mem := st.mem }) := by
  have hinspect := inspectElf_of_checked heap path out h
  rw [htables] at hinspect
  dsimp only at hinspect
  have hvalid : validateExecutable { inspectedInfo path out data eh with
      symbols := symbols, relaSections := relas } = .Ok := if_neg hsegs
  rw [loadExecutable, hinspect]
  dsimp only
  rw [if_neg (not_not.mpr rfl), hvalid, if_neg (not_not.mpr rfl), mapSegments]
  have hpic : (inspectedInfo path out data eh).isPic = eh.isPic := rfl
  have hsame : (inspectedInfo path out data eh).segments = inspectedSegments data eh := rfl
  dsimp only
  rw [hpic, hsame]
  rcases hloop : mapLoop os eh.isPic (filename path) (fetchFile heap ⟨data, fun _ => false⟩)
    (inspectedSegments data eh) { mem := s.mem } with ⟨_ | e, segs, st⟩
  · rfl
  · -- A loop that stops early has something to report.
    have hne : e ≠ .returned .Ok := by
      rintro rfl
      refine mapLoop_exit_ne (fun paddr filesz k hfetch => ?_) (congrArg Prod.fst hloop)
      rcases fetchFile_eq_error hfetch with hway | ⟨a, hway⟩ <;> cases hway
    dsimp only
    rw [if_pos hne]

/-- The file path loads if the sections can be read, there are segments, and the loop comes to
its end. -/
theorem loadExecutable_ok_iff (h : checkedHeader data = some eh) :
    (loadExecutable os heap path (some ⟨data, fun _ => false⟩) (some ⟨data, fun _ => false⟩) out
        s).1 = .returned .Ok ↔
      (∃ tables, inspectedTables heap data eh = .ok tables) ∧ inspectedSegments data eh ≠ [] ∧
        (mapLoop os eh.isPic (filename path) (fetchFile heap ⟨data, fun _ => false⟩)
          (inspectedSegments data eh) { mem := s.mem }).1 = none := by
  have hinspect := inspectElf_of_checked heap path out h
  cases htables : inspectedTables heap data eh with
  | error e =>
      rw [htables] at hinspect
      refine iff_of_false (loadExecutable_of_inspect hinspect (.inl fun hok => by cases hok)) ?_
      rintro ⟨⟨tables, hok⟩, -⟩
      cases hok
  | ok tables =>
      obtain ⟨symbols, relas⟩ := tables
      rw [htables] at hinspect
      by_cases hsegs : inspectedSegments data eh = []
      · exact iff_of_false (loadExecutable_of_inspect hinspect (.inr hsegs))
          fun hall => hall.2.1 hsegs
      · rw [loadExecutable_of_tables os path out s h htables hsegs]
        rcases hloop : mapLoop os eh.isPic (filename path)
          (fetchFile heap ⟨data, fun _ => false⟩) (inspectedSegments data eh)
          { mem := s.mem } with ⟨_ | e, segs, st⟩
        · exact iff_of_true rfl ⟨⟨_, rfl⟩, hsegs, rfl⟩
        · refine iff_of_false ?_ fun hall => by cases hall.2.2
          rintro rfl
          refine mapLoop_exit_ne (fun paddr filesz k hfetch => ?_) (congrArg Prod.fst hloop)
          rcases fetchFile_eq_error hfetch with hway | ⟨a, hway⟩ <;> cases hway

theorem loadFromMemory_ok_iff : (loadFromMemory os data s).1 = .returned .Ok ↔
    ∃ info, parseMemory data = .ok info ∧
      (mapLoop os info.isPic memoryElf (fetchMemory data) info.segments { mem := s.mem }).1 =
        none := by
  constructor
  · intro h
    rcases hload : loadFromMemory os data s with ⟨e, s'⟩
    rw [hload] at h
    dsimp only at h
    subst h
    obtain ⟨info, segs, st, hparse, hloop, -⟩ := loadFromMemory_eq_ok hload
    exact ⟨info, hparse, congrArg Prod.fst hloop⟩
  · rintro ⟨info, hparse, hend⟩
    rw [loadFromMemory, hparse]
    dsimp only
    rcases hloop : mapLoop os info.isPic memoryElf (fetchMemory data) info.segments
      { mem := s.mem } with ⟨_ | e, segs, st⟩
    · rfl
    · rw [hloop] at hend
      cases hend

/-- Where neither path can load, neither does. -/
theorem agree_of_neitherLoads (hsize : data.length < 2 ^ 63) (h : NeitherLoads data) :
    Agree os heap path out data s := by
  right
  constructor
  · intro hok
    obtain ⟨info, hparse, hend⟩ := loadFromMemory_ok_iff.mp hok
    obtain ⟨eh, heh, htable, -, hne, rfl⟩ := parseMemory_eq_ok hsize hparse
    have hsegs := inspectedSegments_inside hsize htable
    rcases h eh (checkedHeader_of_accepted heh) with hnil | ⟨seg, hseg, hmemsz, hfilesz, hmore⟩
    · rw [hsegs, List.map_eq_nil_iff] at hnil
      exact hne hnil
    · rw [hsegs] at hseg
      exact mapLoop_ne_none os _ memoryElf _
        ⟨seg, hseg, hmemsz, hfilesz, fetchMemory_outside hmore⟩ hend
  · intro hok
    cases hcheck : checkedHeader data with
    | none =>
        rcases hinspect : inspectElf heap path (some ⟨data, fun _ => false⟩) out with ⟨e, info⟩
        have hno := inspectElf_of_rejected heap path out hcheck
        rw [hinspect] at hno
        exact loadExecutable_of_inspect hinspect (.inl hno) hok
    | some eh =>
        obtain ⟨-, hne, hend⟩ := (loadExecutable_ok_iff hcheck).mp hok
        rcases h eh hcheck with hnil | ⟨seg, hseg, hmemsz, hfilesz, hmore⟩
        · exact hne hnil
        · refine mapLoop_ne_none os _ (filename path) _ ⟨seg, hseg, hmemsz, hfilesz, ?_⟩ hend
          exact fun k bs hbs => absurd (fetchFile_eq_ok hfilesz hbs).1 (Nat.not_le.mpr hmore)

/-- Where both paths read the same, they load the same. -/
theorem agree_of_sameReading (hsize : data.length < 2 ^ 63) (h : SameReading heap data) :
    Agree os heap path out data s := by
  by_cases hneither : NeitherLoads data
  · exact agree_of_neitherLoads hsize hneither
  obtain ⟨eh, heh, htable, hchecks, ⟨⟨symbols, relas⟩, htables⟩, hgrants⟩ := h
  have hcheck := checkedHeader_of_accepted heh
  have hsegs := inspectedSegments_inside hsize htable
  rw [NeitherLoads] at hneither
  push Not at hneither
  obtain ⟨eh', hcheck', hne, hthere⟩ := hneither
  rw [hcheck, Option.some.injEq] at hcheck'
  subst hcheck'
  rw [hsegs] at hne hthere
  have hparse := (parseMemory_inside heh htable).2 hchecks
  rw [if_neg fun hnil => hne (by rw [hnil]; rfl)] at hparse
  -- Both loops get the same bytes for every segment.
  have hfetch : ∀ seg ∈ (loadHeaders data eh).map Phdr.segment,
      SameFetch (fetchMemory data) (fetchFile heap ⟨data, fun _ => false⟩) seg := by
    intro seg hseg hmemsz hfilesz k
    obtain ⟨ph, hph, rfl⟩ := List.mem_map.mp hseg
    have hfits : ¬ data.length < ph.segment.paddr.toNat + ph.segment.filesz.toNat :=
      fun hmore => hthere _ hseg ⟨hmemsz, hfilesz, hmore⟩
    exact (fetchFile_inside hsize (Nat.not_lt.mp hfits) (hgrants ph hph hmemsz hfilesz) k).symm
  have hstart : SameVars ({ mem := s.mem } : MapState) { mem := s.mem } := ⟨rfl, rfl, rfl⟩
  obtain ⟨hexit, hout, hvars⟩ := mapLoop_same os eh.isPic memoryElf (filename path) hstart hfetch
  rcases hloop : mapLoop os eh.isPic memoryElf (fetchMemory data)
    ((loadHeaders data eh).map Phdr.segment) { mem := s.mem } with ⟨exit, segs, st⟩
  rcases hloop' : mapLoop os eh.isPic (filename path) (fetchFile heap ⟨data, fun _ => false⟩)
    ((loadHeaders data eh).map Phdr.segment) { mem := s.mem } with ⟨exit', segs', st'⟩
  rw [hloop, hloop'] at hexit hout hvars
  dsimp only at hexit hout hvars
  subst hexit hout
  cases exit with
  | some e =>
      -- The loops stop at the same segment, and neither load succeeds.
      right
      constructor
      · intro hok
        obtain ⟨info, hinfo, hend⟩ := loadFromMemory_ok_iff.mp hok
        rw [hparse, Except.ok.injEq] at hinfo
        subst hinfo
        have hstop := congrArg Prod.fst hloop
        exact Option.some_ne_none e (hstop.symm.trans hend)
      · intro hok
        obtain ⟨-, -, hend⟩ := (loadExecutable_ok_iff hcheck).mp hok
        rw [hsegs, hloop'] at hend
        cases hend
  | none =>
      -- The loops come through with the same segments.
      left
      have hmemory : loadFromMemory os data s = (.returned .Ok,
          { current := ExecutableInfo.mapped (ExecutableInfo.withRange
              { entryPoint := eh.e_entry, isPic := eh.isPic
                segments := (loadHeaders data eh).map Phdr.segment }) segs st.loadBias
            mem := st.mem }) := by
        rw [loadFromMemory, hparse]
        dsimp only [ExecutableInfo.withRange]
        rw [hloop]
      have hfile := loadExecutable_of_tables os path out s hcheck htables
        (by rw [hsegs]; exact hne)
      rw [hsegs, hloop'] at hfile
      rw [hmemory, hfile]
      refine ⟨rfl, rfl, rfl, ?_, rfl, hvars.loadBias, hvars.host⟩
      have hbias := hvars.loadBias
      dsimp only [ExecutableInfo.mapped, ExecutableInfo.withRange, ExecutableInfo.withOffsets,
        inspectedInfo]
      rw [hbias]

/-- Where both paths load, they have read the same. -/
theorem sameReading_of_ok (hsize : data.length < 2 ^ 63)
    (hmemory : (loadFromMemory os data s).1 = .returned .Ok)
    (hfile : (loadExecutable os heap path (some ⟨data, fun _ => false⟩)
      (some ⟨data, fun _ => false⟩) out s).1 = .returned .Ok) : SameReading heap data := by
  obtain ⟨info, hparse, -⟩ := loadFromMemory_ok_iff.mp hmemory
  obtain ⟨eh, heh, htable, hchecks, -, -⟩ := parseMemory_eq_ok hsize hparse
  obtain ⟨htables, -, hend⟩ := (loadExecutable_ok_iff (checkedHeader_of_accepted heh)).mp hfile
  refine ⟨eh, heh, htable, hchecks, htables, fun ph hph hmemsz hfilesz => ?_⟩
  by_contra hrefused
  rw [inspectedSegments_inside hsize htable] at hend
  refine mapLoop_ne_none os _ (filename path) _
    ⟨ph.segment, List.mem_map_of_mem hph, hmemsz, hfilesz, fun k bs hbs => ?_⟩ hend
  exact hrefused (fetchFile_eq_ok hfilesz hbs).2

end Paths

/-- A heap that grants everything. -/
def ampleHeap : Heap where
  grants _ := true
  dataAt _ := 0

/-- A segment of one byte, and one without memory whose file range is not there. -/
def skippedImage : List Byte :=
  image ET_EXEC [⟨PT_LOAD, PF_R, 176, 0x10000000, 1, 1, 1⟩,
    ⟨PT_LOAD, PF_R, 0x1000, 0x20000000, 1, 0, 1⟩] [0xAA]

end Loader
