/-
# Layout of loaded images

Where the segments of an accepted image come to lie, and which bytes are in them after the
whole load.  The loop asks for each mapping at the load bias plus the rounded address, and
takes what it gets.
-/
import ChuckStation.LoaderWrites

namespace Loader

open Memory

/-! ## The image -/

namespace Segment

/-- The byte at offset `o` of the segment, as the file has it. -/
def wanted (file : List Byte) (seg : Segment) (o : ℕ) : Byte :=
  if o < seg.filesz.toNat then file.getD (seg.paddr.toNat + o) 0 else 0

/-- What the loop body stores at offset `o` of the segment: file bytes, then zeros up to the
memory size. -/
def storedAt (file : List Byte) (seg : Segment) (o : ℕ) : Option Byte :=
  if o < max seg.filesz.toNat seg.memsz.toNat then some (seg.wanted file o) else none

/-- The mappings of two segments have no address in common. -/
def Apart (a b : Segment) : Prop :=
  a.memsz ≠ 0 → b.memsz ≠ 0 → ∀ x, (x - a.hostBase).toNat < a.mapSz.toNat →
    ¬ (x - b.hostBase).toNat < b.mapSz.toNat

end Segment

/-- The byte that the last of the segments to store one at address `a` leaves there, when each
starts at its `place`. -/
def lastByte (file : List Byte) (place : Segment → U64) : List Segment → U64 → Option Byte
  | [], _ => none
  | seg :: segs, a => (lastByte file place segs a).or
      (if seg.memsz = 0 then none else seg.storedAt file (a - place seg).toNat)

/-- No segment has other bytes than a later one for an address that it has in memory. -/
def KeepsBytes (file : List Byte) : List Segment → Prop
  | [] => True
  | seg :: segs =>
      (seg.memsz ≠ 0 → ∀ i < seg.memsz.toNat,
        ∀ b, lastByte file Segment.vaddr segs (seg.vaddr + BitVec.ofNat 64 i) = some b →
          b = seg.wanted file i) ∧ KeepsBytes file segs

/-- The image as its headers describe it, moved by `bias`. -/
structure LaidOut (file : List Byte) (info loaded : ExecutableInfo) (host : Host) (bias : U64) :
    Prop where
  fixed : info.isPic = false → bias = 0
  hostBase : ∀ seg ∈ loaded.segments, seg.memsz ≠ 0 → seg.hostBase = bias + seg.aVa
  entryPoint : loaded.entryPoint = info.entryPoint + bias
  apart : loaded.segments.Pairwise Segment.Apart
  bytes : ∀ seg ∈ loaded.segments, seg.memsz ≠ 0 → ∀ i < seg.memsz.toNat,
    host.bytes (bias + seg.vaddr + BitVec.ofNat 64 i) = seg.wanted file i

/-- Every mapping is granted where the loop asks for it; a position-independent image may
have its first one anywhere. -/
def Placed (os : Os) (isPic : Bool) (tag : List Byte) (fetch : Fetch) :
    Bool → List Segment → MapState → Prop
  | _, [], _ => True
  | free, seg :: segs, st =>
      (seg.memsz ≠ 0 → free = true ∨
        (map os (st.loadBias + seg.aVa) seg.mapSz Prot.RW seg.allocType tag st.mem).1 =
          st.loadBias + seg.aVa) ∧
      Placed os isPic tag fetch (free && seg.memsz == 0) segs
        (mapSegment os isPic tag fetch seg st).2.2

/-! ## Stores of one segment -/

section Fill

variable {os : Os} {isPic : Bool} {tag : List Byte} {fetch : Fetch} {file : List Byte}
  {seg seg' : Segment} {segs segs' : List Segment} {st st' : MapState}

/-- What is fetched are the bytes of the file. -/
def Fetch.Reads (fetch : Fetch) (file : List Byte) : Prop :=
  ∀ paddr filesz k bs, fetch paddr filesz k = .ok bs →
    bs = (file.drop paddr.toNat).take filesz.toNat ∧ bs.length = filesz.toNat

theorem reads_fetchMemory (data : List Byte) : (fetchMemory data).Reads data := by
  intro paddr filesz k bs h
  refine ⟨?_, exact_fetchMemory data _ _ _ _ h⟩
  rw [fetchMemory, slice] at h
  split_ifs at h with hfit
  simp only [Except.ok.injEq] at h
  exact h.symm

theorem reads_fetchFile (heap : Heap) (file : File) : (fetchFile heap file).Reads file.bytes := by
  intro paddr filesz k bs h
  exact (bytes_of_fetchFile h).2

/-- The fetched bytes, one by one. -/
theorem Fetched.getElem? (hfetch : fetch.Reads file) {k : ℕ} {bs : List Byte}
    (h : Fetched fetch seg k bs) (o : ℕ) :
    bs[o]? = if o < seg.filesz.toNat then some (seg.wanted file o) else none := by
  rw [Fetched] at h
  by_cases hzero : seg.filesz = 0
  · rw [if_pos hzero] at h
    have hlen : seg.filesz.toNat = 0 := by rw [hzero]; rfl
    rw [h, hlen, if_neg (Nat.not_lt_zero o)]
    rfl
  · rw [if_neg hzero] at h
    obtain ⟨hbs, hlen⟩ := hfetch _ _ _ _ h
    by_cases ho : o < seg.filesz.toNat
    · have hin : seg.paddr.toNat + o < file.length := by
        rw [hbs, List.length_take, List.length_drop] at hlen
        omega
      rw [if_pos ho, Segment.wanted, if_pos ho, hbs, List.getElem?_take_of_lt ho,
        List.getElem?_drop, List.getElem?_eq_getElem hin, List.getD_eq_getElem _ _ hin]
    · rw [if_neg ho]
      exact List.getElem?_eq_none (by omega)

theorem Segment.getElem?_zeros (seg : Segment) (j : ℕ) :
    seg.zeros[j]? = if j < seg.memsz.toNat - seg.filesz.toNat then some 0 else none := by
  have hlen := seg.length_zeros
  split_ifs with hj
  · rw [← hlen] at hj
    rw [List.getElem?_eq_getElem hj]
    congr 1
    have hmem := List.getElem_mem hj
    generalize seg.zeros[j] = b at hmem ⊢
    rw [zeros] at hmem
    split_ifs at hmem with hbss
    · exact List.eq_of_mem_replicate hmem
    · cases hmem
  · exact List.getElem?_eq_none (by omega)

/-- Both stores of the loop body, as one. -/
theorem write_fill (m : U64 → Byte) {bs : List Byte}
    (hbs : ∀ o, bs[o]? = if o < seg.filesz.toNat then some (seg.wanted file o) else none)
    (a : U64) :
    ByteStore.write (ByteStore.write m seg.dest bs) seg.bss seg.zeros a =
      (seg.storedAt file (a - seg.dest).toNat).getD (m a) := by
  have hbss : a - seg.bss = a - seg.dest - seg.filesz := by
    rw [Segment.bss, Segment.dest]
    ring
  rw [ByteStore.write, ByteStore.write, seg.getElem?_zeros, hbs, hbss,
    BitVec.toNat_sub _ seg.filesz, Segment.storedAt]
  have hd := (a - seg.dest).isLt
  generalize (a - seg.dest).toNat = o at hd ⊢
  have hf := seg.filesz.isLt
  have hm := seg.memsz.isLt
  by_cases ho : o < seg.filesz.toNat
  · have hbefore : ¬ (2 ^ 64 - seg.filesz.toNat + o) % 2 ^ 64 <
        seg.memsz.toNat - seg.filesz.toNat := by
      omega
    rw [if_neg hbefore, if_pos ho, if_pos (lt_max_of_lt_left ho)]
    rfl
  · have hbehind : (2 ^ 64 - seg.filesz.toNat + o) % 2 ^ 64 = o - seg.filesz.toNat := by omega
    rw [hbehind, if_neg ho, Segment.wanted, if_neg ho]
    by_cases hzero : o < seg.memsz.toNat
    · rw [if_pos (by omega), if_pos (lt_max_of_lt_right hzero)]
      rfl
    · rw [if_neg (by omega), if_neg (by omega)]
      rfl

/-- A store is allowed where the host has pages. -/
theorem store_mapped {addr : U64} {bs : List Byte} {p q : Process} (h : store addr bs p = .ok q)
    {i : ℕ} (hi : i < bs.length) : p.host.prot (addr + BitVec.ofNat 64 i) ≠ none := by
  rw [store] at h
  split_ifs at h with hallow
  obtain ⟨prot, hprot, -⟩ := hallow i hi
  rw [hprot]
  exact Option.some_ne_none prot

/-- Changing a protection unmaps nothing. -/
theorem protect_mapped (os : Os) (base size : U64) (prot : Prot) {p : Process} {a : U64}
    (h : p.host.prot a ≠ none) : (protect os base size prot p).2.host.prot a ≠ none := by
  have hset : ∀ n, (p.host.setProt base n (some (protToMmap prot))).prot a ≠ none := by
    intro n
    rw [Host.setProt]
    dsimp only
    split_ifs
    · exact Option.some_ne_none _
    · exact h
  simp only [protect, sysMprotect]
  split
  · rename_i hcall
    rw [← (Prod.mk.inj hcall).2]
    exact hset _
  · rename_i hcall
    rw [← (Prod.mk.inj hcall).2]
    exact hset _

theorem copySegment_mapped (hfetch : fetch.Reads file) (h : copySegment fetch seg st = .ok st') :
    st'.mem.host.prot = st.mem.host.prot ∧
      ∀ o < seg.filesz.toNat, st.mem.host.prot (seg.dest + BitVec.ofNat 64 o) ≠ none := by
  rw [copySegment] at h
  by_cases hfilesz : seg.filesz = 0
  · rw [if_pos hfilesz] at h
    cases h
    refine ⟨rfl, fun o ho => ?_⟩
    rw [hfilesz] at ho
    exact absurd ho (Nat.not_lt_zero o)
  · rw [if_neg hfilesz] at h
    cases hbs : fetch seg.paddr seg.filesz st.reads with
    | error e' =>
        rw [hbs] at h
        cases h
    | ok bs =>
        rw [hbs] at h
        cases hstore : store seg.dest bs st.mem with
        | error abort =>
            simp only [hstore] at h
            cases h
        | ok mem =>
            simp only [hstore, Except.ok.injEq] at h
            rw [← h, store_eq_ok hstore]
            refine ⟨rfl, fun o ho => store_mapped hstore ?_⟩
            rw [(hfetch _ _ _ _ hbs).2]
            exact ho

theorem zeroSegment_mapped (h : zeroSegment seg st = .ok st') :
    st'.mem.host.prot = st.mem.host.prot ∧ ∀ j < seg.memsz.toNat - seg.filesz.toNat,
      st.mem.host.prot (seg.bss + BitVec.ofNat 64 j) ≠ none := by
  rw [zeroSegment] at h
  split_ifs at h with hbss
  · cases hstore : store seg.bss seg.zeros st.mem with
    | error abort =>
        rw [hstore] at h
        cases h
    | ok mem =>
        simp only [hstore, Except.ok.injEq] at h
        rw [← h, store_eq_ok hstore]
        refine ⟨rfl, fun j hj => store_mapped hstore ?_⟩
        rw [seg.length_zeros]
        exact hj
  · cases h
    refine ⟨rfl, fun j hj => ?_⟩
    rw [gt_iff_lt, BitVec.lt_def] at hbss
    omega

/-- What filling a segment does to the host: nothing is unmapped, and the bytes of the segment
are stored to pages that were there. -/
theorem fillSegment_host (hfetch : fetch.Reads file) (h : fillSegment os fetch seg st = .ok st') :
    (∀ a, st'.mem.host.bytes a =
        (seg.storedAt file (a - seg.dest).toNat).getD (st.mem.host.bytes a)) ∧
      (∀ a, st.mem.host.prot a ≠ none → st'.mem.host.prot a ≠ none) ∧
      ∀ a, seg.storedAt file (a - seg.dest).toNat ≠ none → st.mem.host.prot a ≠ none := by
  obtain ⟨bs, mem, hbs, -, hmem, hlast⟩ := fillSegment_eq_ok h
  rw [hlast]
  refine ⟨fun a => ?_, fun a ha => protect_mapped _ _ _ _ ?_, fun a ha => ?_⟩
  · rw [protect_bytes, hmem]
    exact write_fill _ (hbs.getElem? hfetch) a
  · rw [hmem]
    exact ha
  · rw [fillSegment] at h
    cases hcopy : copySegment fetch seg st with
    | error e' =>
        rw [hcopy] at h
        cases h
    | ok st₁ =>
        rw [hcopy] at h
        cases hzero : zeroSegment seg st₁ with
        | error e' =>
            simp only [bind, Except.bind, hzero] at h
            cases h
        | ok st₂ =>
            obtain ⟨hprot, hfile⟩ := copySegment_mapped hfetch hcopy
            obtain ⟨-, hzeros⟩ := zeroSegment_mapped hzero
            rw [hprot] at hzeros
            rw [Segment.storedAt, Ne, ite_eq_right_iff, not_forall] at ha
            obtain ⟨ho, -⟩ := ha
            -- A byte of the file, or one of the zeros behind them.
            by_cases hin : (a - seg.dest).toNat < seg.filesz.toNat
            · have hpage := hfile _ hin
              rwa [ByteStore.add_ofNat_toNat_sub] at hpage
            · have hd := (a - seg.dest).isLt
              have hf := seg.filesz.isLt
              have hbss : a - seg.bss = a - seg.dest - seg.filesz := by
                rw [Segment.bss, Segment.dest]
                ring
              have hpage := hzeros (a - seg.bss).toNat (by rw [hbss, BitVec.toNat_sub]; omega)
              rwa [ByteStore.add_ofNat_toNat_sub] at hpage

end Fill

/-! ## One segment -/

section Effect

variable {os : Os} {isPic : Bool} {tag : List Byte} {fetch : Fetch} {file : List Byte}
  {seg seg' : Segment} {segs segs' : List Segment} {st st' : MapState}

/-- What mapping and filling the segment did to the host: what was mapped stays so and has
the bytes of the segment wherever it stored some, and the mapping of the segment is new. -/
structure Segment.Effect (file : List Byte) (seg : Segment) (h h' : Host) : Prop where
  keep : ∀ a, h.prot a ≠ none → h'.prot a ≠ none ∧
    h'.bytes a = (seg.storedAt file (a - seg.dest).toNat).getD (h.bytes a)
  fresh : ∀ a, (a - seg.hostBase).toNat < seg.mapSz.toNat → h.prot a = none ∧ h'.prot a ≠ none
  stored : ∀ a b, seg.storedAt file (a - seg.dest).toNat = some b →
    h'.prot a ≠ none ∧ h'.bytes a = b

/-- `Map` granted: the answer of the system. -/
theorem map_granted {hint size base : U64} {prot : Prot} {type : AllocType} {p mem : Process}
    (h : map os hint size prot type tag p = (base, mem)) (hbase : base ≠ 0) :
    os.mmap p.host hint (alignUp size PAGE_SIZE) (protToMmap prot) false = some base ∧
      mem.host.prot =
        (p.host.mapZero base (alignUp size PAGE_SIZE).toNat (protToMmap prot)).prot ∧
      mem.host.bytes =
        (p.host.mapZero base (alignUp size PAGE_SIZE).toNat (protToMmap prot)).bytes := by
  cases hanswer : os.mmap p.host hint (alignUp size PAGE_SIZE) (protToMmap prot) false with
  | none =>
      rw [map_of_none type tag hanswer] at h
      exact absurd (Prod.mk.inj h).1.symm hbase
  | some b =>
      obtain ⟨p', hmap, -, hhost⟩ := map_of_some type tag hanswer
      rw [hmap] at h
      obtain ⟨rfl, rfl⟩ := Prod.mk.inj h
      rw [hhost]
      exact ⟨rfl, rfl, rfl⟩

/-- A size that was granted is not less than what was asked for. -/
theorem le_alignUp {v : U64} (h : alignUp v PAGE_SIZE ≠ 0) :
    v.toNat ≤ (alignUp v PAGE_SIZE).toNat := by
  have hpos : (alignUp v PAGE_SIZE).toNat ≠ 0 := fun hzero => h (BitVec.eq_of_toNat_eq hzero)
  have hv := v.isLt
  rw [alignUp_pageSize, Alignment.alignUp] at hpos ⊢
  have hlt := Alignment.lt_alignDown_add (v + BitVec.ofNat 64 (2 ^ 14 - 1)) 14
  have hle := Alignment.alignDown_le (v + BitVec.ofNat 64 (2 ^ 14 - 1)) 14
  obtain ⟨q, hq⟩ := Alignment.dvd_alignDown (v + BitVec.ofNat 64 (2 ^ 14 - 1)) 14
  rw [BitVec.toNat_add, BitVec.toNat_ofNat] at hlt hle
  omega

theorem effect_of_mapSegment (hos : os.Conforms) (hfetch : fetch.Reads file)
    (hmemsz : seg.memsz ≠ 0) (h : mapSegment os isPic tag fetch seg st = (none, seg', st')) :
    seg'.Effect file st.mem.host st'.mem.host := by
  rcases mapSegment_eq_none h with ⟨hzero, -⟩ | ⟨base, mem, -, hbase, hmap, rfl, hfill⟩
  · exact absurd hzero hmemsz
  obtain ⟨hanswer, hprot, hbytes⟩ := map_granted hmap hbase
  obtain ⟨hstored, hkept, hpages⟩ := fillSegment_host hfetch hfill
  have hfresh := hos.fresh _ _ _ _ _ _ hanswer
  have hle := le_alignUp (hos.nonempty _ _ _ _ _ _ hanswer)
  dsimp only at hstored hkept hpages
  refine ⟨fun a ha => ?_, fun a ha => ?_, fun a b hb => ?_⟩
  · have hmapped := Host.mapZero_prot_of_mapped (p := protToMmap Prot.RW) hfresh ha
    refine ⟨hkept a (by rw [hprot, hmapped]; exact ha), ?_⟩
    have hout : ¬ (a - base).toNat < (alignUp seg.mapSz PAGE_SIZE).toNat :=
      fun hin => ha (hfresh.prot_eq_none hin)
    rw [hstored, hbytes, Host.mapZero]
    dsimp only
    rw [ByteStore.write_apply_of_le]
    rw [List.length_replicate]
    exact Nat.not_lt.mp hout
  · have hin : (a - base).toNat < (alignUp seg.mapSz PAGE_SIZE).toNat := lt_of_lt_of_le ha hle
    refine ⟨hfresh.prot_eq_none hin, hkept a ?_⟩
    rw [hprot, Host.mapZero_prot_of_lt hin]
    exact Option.some_ne_none _
  · refine ⟨hkept a (hpages a ?_), ?_⟩
    · rw [hb]
      exact Option.some_ne_none b
    · rw [hstored, hb]
      rfl

/-! ## The whole loop -/

theorem mapSegment_memsz (h : mapSegment os isPic tag fetch seg st = (none, seg', st')) :
    seg'.memsz = seg.memsz := by
  rcases mapSegment_eq_none h with ⟨-, rfl, -⟩ | ⟨base, mem, -, -, -, rfl, -⟩
  · rfl
  · rfl

/-- What was mapped before the loop stays so, and has the last byte that was stored. -/
theorem mapLoop_keep (hos : os.Conforms) (hfetch : fetch.Reads file)
    (h : mapLoop os isPic tag fetch segs st = (none, segs', st')) {a : U64}
    (ha : st.mem.host.prot a ≠ none) :
    st'.mem.host.prot a ≠ none ∧ st'.mem.host.bytes a =
      (lastByte file Segment.dest segs' a).getD (st.mem.host.bytes a) := by
  induction segs generalizing segs' st with
  | nil =>
      cases h
      exact ⟨ha, rfl⟩
  | cons seg segs ih =>
      obtain ⟨seg₁, st₁, rest, hbody, hrest, rfl⟩ := mapLoop_eq_none h
      rw [lastByte]
      by_cases hmemsz : seg.memsz = 0
      · rw [mapSegment_of_memsz hmemsz] at hbody
        cases hbody
        obtain ⟨hprot, hbytes⟩ := ih hrest ha
        rw [if_pos hmemsz, Option.or_none]
        exact ⟨hprot, hbytes⟩
      · have heffect := effect_of_mapSegment hos hfetch hmemsz hbody
        have hmemsz' : seg₁.memsz ≠ 0 := by rwa [mapSegment_memsz hbody]
        obtain ⟨hprot₁, hbytes₁⟩ := heffect.keep a ha
        obtain ⟨hprot, hbytes⟩ := ih hrest hprot₁
        refine ⟨hprot, ?_⟩
        rw [hbytes, hbytes₁, if_neg hmemsz']
        cases lastByte file Segment.dest rest a <;> rfl

/-- The mappings of the loop are new. -/
theorem mapLoop_fresh (hos : os.Conforms) (hfetch : fetch.Reads file)
    (h : mapLoop os isPic tag fetch segs st = (none, segs', st')) {a : U64}
    (ha : st.mem.host.prot a ≠ none) :
    ∀ seg ∈ segs', seg.memsz ≠ 0 → ¬ (a - seg.hostBase).toNat < seg.mapSz.toNat := by
  induction segs generalizing segs' st with
  | nil =>
      cases h
      exact fun seg hseg => absurd hseg List.not_mem_nil
  | cons seg segs ih =>
      obtain ⟨seg₁, st₁, rest, hbody, hrest, rfl⟩ := mapLoop_eq_none h
      by_cases hmemsz : seg.memsz = 0
      · rw [mapSegment_of_memsz hmemsz] at hbody
        cases hbody
        exact List.forall_mem_cons.mpr ⟨fun hne => absurd hmemsz hne, ih hrest ha⟩
      · have heffect := effect_of_mapSegment hos hfetch hmemsz hbody
        refine List.forall_mem_cons.mpr ⟨fun _ hin => ha (heffect.fresh a hin).1, ?_⟩
        exact ih hrest (heffect.keep a ha).1

/-- The mappings of different segments have nothing in common. -/
theorem mapLoop_apart (hos : os.Conforms) (hfetch : fetch.Reads file)
    (h : mapLoop os isPic tag fetch segs st = (none, segs', st')) :
    segs'.Pairwise Segment.Apart := by
  induction segs generalizing segs' st with
  | nil =>
      cases h
      exact List.Pairwise.nil
  | cons seg segs ih =>
      obtain ⟨seg₁, st₁, rest, hbody, hrest, rfl⟩ := mapLoop_eq_none h
      refine List.Pairwise.cons (fun b hb hmemsz₁ hmemsz x hx => ?_) (ih hrest)
      have hne : seg.memsz ≠ 0 := by rwa [← mapSegment_memsz hbody]
      have heffect := effect_of_mapSegment hos hfetch hne hbody
      exact mapLoop_fresh hos hfetch hrest (heffect.fresh x hx).2 b hb hmemsz

/-- The loop changes where segments are, and nothing else about them. -/
theorem mapLoop_keepsBytes (file : List Byte)
    (h : mapLoop os isPic tag fetch segs st = (none, segs', st')) :
    (∀ a, lastByte file Segment.vaddr segs' a = lastByte file Segment.vaddr segs a) ∧
      (KeepsBytes file segs' ↔ KeepsBytes file segs) := by
  induction segs generalizing segs' st with
  | nil =>
      cases h
      exact ⟨fun _ => rfl, Iff.rfl⟩
  | cons seg segs ih =>
      obtain ⟨seg₁, st₁, rest, hbody, hrest, rfl⟩ := mapLoop_eq_none h
      obtain ⟨hlast, hkeeps⟩ := ih hrest
      have hseg : seg₁ = { seg with hostBase := seg₁.hostBase } := by
        rcases mapSegment_eq_none hbody with ⟨-, rfl, -⟩ | ⟨base, mem, -, -, -, rfl, -⟩
        · rfl
        · rfl
      rw [hseg, KeepsBytes, KeepsBytes, hkeeps]
      simp only [lastByte, hlast]
      exact ⟨fun _ => rfl, Iff.rfl⟩

/-- Segments that are all moved by `bias` store what the image has, moved by `bias`. -/
theorem lastByte_moved {bias : U64}
    (h : ∀ seg ∈ segs, seg.memsz ≠ 0 → seg.hostBase = bias + seg.aVa) (x : U64) :
    lastByte file Segment.dest segs (bias + x) = lastByte file Segment.vaddr segs x := by
  induction segs with
  | nil => rfl
  | cons seg segs ih =>
      obtain ⟨hseg, hsegs⟩ := List.forall_mem_cons.mp h
      rw [lastByte, lastByte, ih hsegs]
      split_ifs with hmemsz
      · rfl
      · have hoff : bias + x - seg.dest = x - seg.vaddr := by
          rw [Segment.dest, hseg hmemsz]
          ring
        rw [hoff]

/-- The bytes of segments that are all moved by `bias` are those of the image, exactly if no
segment is overwritten with other bytes. -/
theorem mapLoop_bytes_iff (hos : os.Conforms) (hfetch : fetch.Reads file) {bias : U64}
    (h : mapLoop os isPic tag fetch segs st = (none, segs', st'))
    (hbase : ∀ seg ∈ segs', seg.memsz ≠ 0 → seg.hostBase = bias + seg.aVa) :
    (∀ seg ∈ segs', seg.memsz ≠ 0 → ∀ i < seg.memsz.toNat,
      st'.mem.host.bytes (bias + seg.vaddr + BitVec.ofNat 64 i) = seg.wanted file i) ↔
        KeepsBytes file segs' := by
  induction segs generalizing segs' st with
  | nil =>
      cases h
      exact iff_of_true (fun seg hseg => absurd hseg List.not_mem_nil) trivial
  | cons seg segs ih =>
      obtain ⟨seg₁, st₁, rest, hbody, hrest, rfl⟩ := mapLoop_eq_none h
      obtain ⟨hseg, hsegs⟩ := List.forall_mem_cons.mp hbase
      rw [List.forall_mem_cons, KeepsBytes, ih hrest hsegs]
      refine and_congr (forall_congr' fun hmemsz => forall₂_congr fun i hi => ?_) Iff.rfl
      have hne : seg.memsz ≠ 0 := by rwa [← mapSegment_memsz hbody]
      have heffect := effect_of_mapSegment hos hfetch hne hbody
      have hoff : (bias + seg₁.vaddr + BitVec.ofNat 64 i - seg₁.dest).toNat = i := by
        have hdist : bias + seg₁.vaddr + BitVec.ofNat 64 i - seg₁.dest = BitVec.ofNat 64 i := by
          rw [Segment.dest, hseg hmemsz]
          ring
        have hm := seg₁.memsz.isLt
        rw [hdist, BitVec.toNat_ofNat, Nat.mod_eq_of_lt (by omega)]
      obtain ⟨hprot, hbyte⟩ := heffect.stored (bias + seg₁.vaddr + BitVec.ofNat 64 i)
        (seg₁.wanted file i) (by rw [hoff, Segment.storedAt, if_pos (lt_max_of_lt_right hi)])
      rw [(mapLoop_keep hos hfetch hrest hprot).2, hbyte, add_assoc, lastByte_moved hsegs]
      cases lastByte file Segment.vaddr rest (seg₁.vaddr + BitVec.ofNat 64 i) with
      | none => simp
      | some b => simp

/-! ## Placement -/

/-- A mapped segment is where `Map` put it, and that may decide the bias. -/
theorem mapSegment_placed (hmemsz : seg.memsz ≠ 0)
    (h : mapSegment os isPic tag fetch seg st = (none, seg', st')) :
    seg'.hostBase = (map os (st.loadBias + seg.aVa) seg.mapSz Prot.RW seg.allocType tag st.mem).1 ∧
      seg'.aVa = seg.aVa ∧ st'.loadBias = biasAfter isPic st.loadBias seg.aVa seg'.hostBase := by
  rcases mapSegment_eq_none h with ⟨hzero, -⟩ | ⟨base, mem, -, -, hmap, rfl, hfill⟩
  · exact absurd hzero hmemsz
  obtain ⟨bs, mem', -, hbias, -⟩ := fillSegment_eq_ok hfill
  rw [hmap]
  exact ⟨rfl, rfl, hbias⟩

/-- A mapping at its hint leaves the bias as it is, decided or not. -/
theorem biasAfter_hint (isPic : Bool) (bias aVa : U64) :
    biasAfter isPic bias aVa (bias + aVa) = bias := by
  rw [biasAfter]
  split_ifs
  · ring
  · rfl

theorem placed_cons {free : Bool} (h : mapSegment os isPic tag fetch seg st = (none, seg', st')) :
    Placed os isPic tag fetch free (seg :: segs) st ↔
      (seg.memsz ≠ 0 → free = true ∨ seg'.hostBase = st.loadBias + seg.aVa) ∧
        Placed os isPic tag fetch (free && seg.memsz == 0) segs st' := by
  rw [Placed, h]
  refine and_congr (forall_congr' fun hmemsz => ?_) Iff.rfl
  rw [(mapSegment_placed hmemsz h).1]

/-- With the first mapping made, the others are where they are asked for exactly if all are
moved by the bias as it is. -/
theorem placed_iff_of_decided (h : mapLoop os isPic tag fetch segs st = (none, segs', st')) :
    Placed os isPic tag fetch false segs st ↔
      ∀ seg ∈ segs', seg.memsz ≠ 0 → seg.hostBase = st.loadBias + seg.aVa := by
  induction segs generalizing segs' st with
  | nil =>
      cases h
      exact iff_of_true trivial fun seg hseg => absurd hseg List.not_mem_nil
  | cons seg segs ih =>
      obtain ⟨seg₁, st₁, rest, hbody, hrest, rfl⟩ := mapLoop_eq_none h
      rw [placed_cons hbody, Bool.false_and, ih hrest, List.forall_mem_cons]
      by_cases hmemsz : seg.memsz = 0
      · rw [mapSegment_of_memsz hmemsz] at hbody
        cases hbody
        exact and_congr (by simp [hmemsz]) Iff.rfl
      · obtain ⟨-, haVa, hbias⟩ := mapSegment_placed hmemsz hbody
        rw [mapSegment_memsz hbody, haVa]
        simp only [Bool.false_eq_true, false_or]
        refine and_congr_right fun hhint => ?_
        rw [hbias, hhint hmemsz, biasAfter_hint]

/-- Segments that are all moved by the bias leave it as it is. -/
theorem loadBias_of_moved (h : mapLoop os isPic tag fetch segs st = (none, segs', st'))
    (hbase : ∀ seg ∈ segs', seg.memsz ≠ 0 → seg.hostBase = st.loadBias + seg.aVa) :
    st'.loadBias = st.loadBias := by
  induction segs generalizing segs' st with
  | nil =>
      cases h
      rfl
  | cons seg segs ih =>
      obtain ⟨seg₁, st₁, rest, hbody, hrest, rfl⟩ := mapLoop_eq_none h
      obtain ⟨hseg, hsegs⟩ := List.forall_mem_cons.mp hbase
      have hsame : st₁.loadBias = st.loadBias := by
        by_cases hmemsz : seg.memsz = 0
        · rw [mapSegment_of_memsz hmemsz] at hbody
          cases hbody
          rfl
        · obtain ⟨-, haVa, hbias⟩ := mapSegment_placed hmemsz hbody
          rw [hbias, hseg (by rwa [mapSegment_memsz hbody]), haVa, biasAfter_hint]
      rw [ih hrest (by rw [hsame]; exact hsegs), hsame]

/-- An image that is not position-independent has no bias. -/
theorem loadBias_of_fixed (h : mapLoop os false tag fetch segs st = (none, segs', st')) :
    st'.loadBias = st.loadBias := by
  induction segs generalizing segs' st with
  | nil =>
      cases h
      rfl
  | cons seg segs ih =>
      obtain ⟨seg₁, st₁, rest, hbody, hrest, rfl⟩ := mapLoop_eq_none h
      rw [ih hrest]
      by_cases hmemsz : seg.memsz = 0
      · rw [mapSegment_of_memsz hmemsz] at hbody
        cases hbody
        rfl
      · exact (mapSegment_placed hmemsz hbody).2.2

/-- The mappings are where they are asked for exactly if all segments are moved by the bias
the load ends with. -/
theorem placed_iff (h : mapLoop os isPic tag fetch segs st = (none, segs', st'))
    (hzero : st.loadBias = 0) :
    Placed os isPic tag fetch isPic segs st ↔
      ∀ seg ∈ segs', seg.memsz ≠ 0 → seg.hostBase = st'.loadBias + seg.aVa := by
  cases isPic with
  | false =>
      rw [loadBias_of_fixed h]
      exact placed_iff_of_decided h
  | true =>
      induction segs generalizing segs' st with
      | nil =>
          cases h
          exact iff_of_true trivial fun seg hseg => absurd hseg List.not_mem_nil
      | cons seg segs ih =>
          obtain ⟨seg₁, st₁, rest, hbody, hrest, rfl⟩ := mapLoop_eq_none h
          rw [placed_cons hbody, List.forall_mem_cons]
          by_cases hmemsz : seg.memsz = 0
          · have hfree : (true && seg.memsz == 0) = true := by rw [hmemsz]; rfl
            rw [mapSegment_of_memsz hmemsz] at hbody
            cases hbody
            rw [hfree, ih hzero hrest]
            exact and_congr (by simp [hmemsz]) Iff.rfl
          · -- The first mapping decides the bias.
            have hfree : (true && seg.memsz == 0) = false := by simpa using hmemsz
            obtain ⟨-, haVa, hbias⟩ := mapSegment_placed hmemsz hbody
            have hdecided : st₁.loadBias = seg₁.hostBase - seg.aVa := by
              rw [hbias, hzero]
              rfl
            rw [hfree, placed_iff_of_decided hrest, mapSegment_memsz hbody, haVa]
            simp only [true_or, implies_true, true_and]
            constructor
            · intro hmoved
              rw [loadBias_of_moved hrest hmoved]
              refine ⟨fun _ => ?_, hmoved⟩
              rw [hdecided]
              ring
            · rintro ⟨hseg, hmoved⟩
              have hsame : st₁.loadBias = st'.loadBias := by
                rw [hdecided, hseg hmemsz]
                ring
              rw [hsame]
              exact hmoved

end Effect

/-- What the loop leaves is laid out as the image exactly if the mappings are where they are
asked for and no segment is overwritten. -/
theorem laidOut_iff {os : Os} (hos : os.Conforms) {tag : List Byte} {fetch : Fetch}
    {file : List Byte} (hfetch : fetch.Reads file) {info loaded : ExecutableInfo} {mem : Process}
    {segs' : List Segment} {st' : MapState}
    (h : mapLoop os info.isPic tag fetch info.segments { mem := mem } = (none, segs', st'))
    (hsegs : loaded.segments = segs')
    (hentry : loaded.entryPoint =
      if info.isPic then info.entryPoint + st'.loadBias else info.entryPoint) :
    (∃ bias, LaidOut file info loaded st'.mem.host bias) ↔
      Placed os info.isPic tag fetch info.isPic info.segments { mem := mem } ∧
        KeepsBytes file info.segments := by
  rw [placed_iff h rfl, ← (mapLoop_keepsBytes file h).2]
  have hfixed : info.isPic = false → st'.loadBias = 0 := by
    intro hpic
    rw [hpic] at h
    exact loadBias_of_fixed h
  have hentry' : loaded.entryPoint = info.entryPoint + st'.loadBias := by
    cases hpic : info.isPic with
    | true => rw [hentry, hpic, if_pos rfl]
    | false => rw [hentry, hpic, if_neg Bool.false_ne_true, hfixed hpic, add_zero]
  constructor
  · rintro ⟨bias, hlaid⟩
    -- The entry point tells the bias.
    have hbias : bias = st'.loadBias := by
      have hsum := hlaid.entryPoint.symm.trans hentry'
      exact add_left_cancel hsum
    subst hbias
    have hbase := hlaid.hostBase
    have hbytes := hlaid.bytes
    rw [hsegs] at hbase hbytes
    exact ⟨hbase, (mapLoop_bytes_iff hos hfetch h hbase).mp hbytes⟩
  · rintro ⟨hbase, hkeeps⟩
    refine ⟨st'.loadBias, hfixed, ?_, hentry', ?_, ?_⟩
    · rw [hsegs]
      exact hbase
    · rw [hsegs]
      exact mapLoop_apart hos hfetch h
    · rw [hsegs]
      exact (mapLoop_bytes_iff hos hfetch h hbase).mpr hkeeps

/-- **Load layout**: an accepted image is laid out as its headers say, at one bias, exactly if
the system grants the mappings where they are asked for (the first one of a
position-independent image anywhere) and no segment stores other bytes over an earlier one. -/
theorem layout_iff {os : Os} (hos : os.Conforms) :
    (∀ data s s' info, loadFromMemory os data s = (.returned .Ok, s') →
      parseMemory data = .ok info →
      ((∃ bias, LaidOut data info s'.current s'.mem.host bias) ↔
        Placed os info.isPic memoryElf (fetchMemory data) info.isPic info.segments
            { mem := s.mem } ∧ KeepsBytes data info.segments)) ∧
    ∀ heap path file info mem info' mem',
      mapSegments os heap path (some file) info mem = (.returned .Ok, info', mem') →
      ((∃ bias, LaidOut file.bytes info info' mem'.host bias) ↔
        Placed os info.isPic (filename path) (fetchFile heap file) info.isPic info.segments
            { mem := mem } ∧ KeepsBytes file.bytes info.segments) := by
  constructor
  · intro data s s' info h hinfo
    obtain ⟨info', segs, st, hparse, hloop, rfl⟩ := loadFromMemory_eq_ok h
    rw [hinfo, Except.ok.injEq] at hparse
    subst hparse
    exact laidOut_iff hos (reads_fetchMemory data) hloop rfl rfl
  · intro heap path file info mem info' mem' h
    obtain ⟨f, segs, st, hfile, hloop, rfl, rfl⟩ := mapSegments_eq_ok h
    rw [Option.some.injEq] at hfile
    subst hfile
    exact laidOut_iff hos (reads_fetchFile heap file) hloop rfl rfl

/-- A system that maps at one place, if that is free, whatever the hint. -/
def elsewhereOs : Os where
  mmap h _ size _ _ :=
    if size ≠ 0 ∧ size.toNat ≤ 0x10000000 ∧ h.Unmapped 0x50000000 size.toNat then
      some 0x50000000
    else none
  mprotect _ _ _ _ := true
  munmap _ _ _ := true
  memalign _ _ _ := none
  canRead p := p != Prot.None

theorem elsewhereOs_mmap {h : Host} {size : U64} (hint : U64) (prot : Prot) (fixed : Bool)
    (hsize : size ≠ 0) (hle : size.toNat ≤ 0x10000000)
    (hfresh : h.Unmapped 0x50000000 size.toNat) :
    elsewhereOs.mmap h hint size prot fixed = some 0x50000000 :=
  if_pos ⟨hsize, hle, hfresh⟩

theorem elsewhereOs_conforms : elsewhereOs.Conforms := by
  have hcond : ∀ h hint size prot fixed a, elsewhereOs.mmap h hint size prot fixed = some a →
      (0x50000000 : U64) = a ∧ size ≠ 0 ∧ size.toNat ≤ 0x10000000 ∧
        h.Unmapped 0x50000000 size.toNat := by
    intro h hint size prot fixed a ha
    simp only [elsewhereOs, Option.ite_none_right_eq_some, Option.some.injEq] at ha
    exact ⟨ha.2, ha.1⟩
  constructor
  · intro h hint size prot fixed a ha
    exact (hcond h hint size prot fixed a ha).2.1
  · intro h hint size prot fixed a ha
    obtain ⟨rfl, -, hle, -⟩ := hcond h hint size prot fixed a ha
    have hbase : (0x50000000 : U64).toNat = 0x50000000 := rfl
    omega
  · intro h hint size prot fixed a ha
    obtain ⟨rfl, -⟩ := hcond h hint size prot fixed a ha
    decide
  · intro h hint size prot fixed a ha
    obtain ⟨rfl, -, -, hfresh⟩ := hcond h hint size prot fixed a ha
    exact hfresh

/-- One byte of memory from the file, at a fixed address. -/
def oneByteImage : List Byte := image ET_EXEC [⟨PT_LOAD, PF_R, 120, 0x10000000, 1, 1, 1⟩] [0xAA]

def oneByteSegment : Segment := ⟨0x10000000, 120, 1, 1, PF_R, PT_LOAD, 1, 0⟩

def oneByteInfo : ExecutableInfo :=
  { imageBase := 0x10000000, imageSize := 1, segments := [oneByteSegment] }

theorem parse_oneByteImage : parseMemory oneByteImage = .ok oneByteInfo := by
  decide +kernel

theorem mapLoop_oneByte (fetch : Fetch)
    (hbytes : fetch oneByteSegment.paddr oneByteSegment.filesz 0 = .ok [0xAA]) :
    ∃ st, mapLoop elsewhereOs false memoryElf fetch [oneByteSegment] { mem := emptyProcess } =
      (none, [{ oneByteSegment with hostBase := 0x50000000 }], st) := by
  have hsize : alignUp oneByteSegment.mapSz PAGE_SIZE = 0x4000 := by decide
  have hanswer : elsewhereOs.mmap emptyProcess.host (0 + oneByteSegment.aVa)
      (alignUp oneByteSegment.mapSz PAGE_SIZE) (protToMmap Prot.RW) false = some 0x50000000 := by
    rw [hsize]
    exact elsewhereOs_mmap _ _ _ (by decide) (by decide) fun i _ => rfl
  obtain ⟨p, hmap, -, hhost⟩ := map_of_some oneByteSegment.allocType memoryElf hanswer
  have hallow : p.host.allows canWrite 0x50000000 1 := by
    intro i hi
    obtain rfl : i = 0 := by omega
    refine ⟨protToMmap Prot.RW, ?_, by decide⟩
    have hin : ((0x50000000 : U64) + BitVec.ofNat 64 0 - 0x50000000).toNat <
        (alignUp oneByteSegment.mapSz PAGE_SIZE).toNat := by
      rw [hsize]
      decide
    rw [hhost, Host.record_prot, Host.mapZero_prot_of_lt hin]
  -- One store to the page that was mapped, and nothing to clear.
  have hcopy : ∃ st, copySegment fetch
      { oneByteSegment with hostBase := 0x50000000 } ⟨0, 0, p⟩ = .ok st := by
    have hdest : ({ oneByteSegment with hostBase := 0x50000000 } : Segment).dest = 0x50000000 := by
      decide
    rw [copySegment, if_neg (by decide), hbytes]
    dsimp only
    rw [hdest, store, List.length_singleton, if_pos hallow]
    exact ⟨_, rfl⟩
  obtain ⟨st, hcopy⟩ := hcopy
  have hzero : zeroSegment { oneByteSegment with hostBase := 0x50000000 } st = .ok st :=
    if_neg (by decide)
  have hstep : mapSegment elsewhereOs false memoryElf fetch oneByteSegment
      { mem := emptyProcess } = _ :=
    mapSegment_of_map false fetch (by decide) hmap
  have hbias : biasAfter false 0 oneByteSegment.aVa 0x50000000 = 0 := rfl
  rw [if_neg (by decide), hbias, fillSegment, hcopy] at hstep
  simp only [bind, Except.bind, hzero, pure, Except.pure] at hstep
  generalize (⟨st.loadBias, st.reads, _⟩ : MapState) = st' at hstep
  refine ⟨st', ?_⟩
  rw [mapLoop_cons hstep]
  rfl

theorem loadFromMemory_of_loop (os : Os) {data : List Byte} (s : State) {info : ExecutableInfo}
    {segs : List Segment} (hparse : parseMemory data = .ok info)
    (hloop : ∃ st, mapLoop os info.isPic memoryElf (fetchMemory data) info.segments
      { mem := s.mem } = (none, segs, st)) :
    ∃ s', loadFromMemory os data s = (.returned .Ok, s') ∧ s'.current.segments = segs := by
  obtain ⟨st, hloop⟩ := hloop
  refine ⟨{ current := info.mapped segs st.loadBias, mem := st.mem }, ?_, rfl⟩
  rw [loadFromMemory, hparse]
  dsimp only
  rw [hloop]

theorem loadFromMemory_oneByteImage : ∃ s',
    loadFromMemory elsewhereOs oneByteImage ⟨{}, emptyProcess⟩ = (.returned .Ok, s') ∧
      s'.current.segments = [{ oneByteSegment with hostBase := 0x50000000 }] := by
  have hbytes : fetchMemory oneByteImage oneByteSegment.paddr oneByteSegment.filesz 0 =
      .ok [0xAA] := by
    decide +kernel
  have hloop := mapLoop_oneByte (fetchMemory oneByteImage) hbytes
  exact loadFromMemory_of_loop elsewhereOs ⟨{}, emptyProcess⟩ parse_oneByteImage hloop

theorem layout_iff_oneByteImage : ∃ s' : State,
    (∃ bias, LaidOut oneByteImage oneByteInfo s'.current s'.mem.host bias) ↔
      Placed elsewhereOs oneByteInfo.isPic memoryElf (fetchMemory oneByteImage) oneByteInfo.isPic
        oneByteInfo.segments { mem := emptyProcess } ∧
        KeepsBytes oneByteImage oneByteInfo.segments := by
  obtain ⟨s', hload, -⟩ := loadFromMemory_oneByteImage
  exact ⟨s', (layout_iff elsewhereOs_conforms).1 oneByteImage ⟨{}, emptyProcess⟩ s' oneByteInfo
    hload parse_oneByteImage⟩

/-- The image is not position-independent, and yet lies elsewhere. -/
theorem not_laidOut_oneByteImage : elsewhereOs.Conforms ∧ ∃ s',
    loadFromMemory elsewhereOs oneByteImage ⟨{}, emptyProcess⟩ = (.returned .Ok, s') ∧
      ¬ ∃ bias, LaidOut oneByteImage oneByteInfo s'.current s'.mem.host bias := by
  obtain ⟨s', hload, hsegs⟩ := loadFromMemory_oneByteImage
  refine ⟨elsewhereOs_conforms, s', hload, fun ⟨bias, hlaid⟩ => ?_⟩
  obtain rfl := hlaid.fixed rfl
  have hbase := hlaid.hostBase
  rw [hsegs] at hbase
  exact absurd (hbase _ List.mem_cons_self (by decide)) (by decide)

end Loader
