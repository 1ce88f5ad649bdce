/-
# What the segment loop does

One lemma for each step of the loop: how it can leave the function, and what it has done to
the variables and to memory when it does not.
-/
import ChuckStation.LoaderMap

namespace Loader

open Memory

section Effects

variable {os : Os} {isPic : Bool} {tag : List Byte} {fetch : Fetch} {seg seg' : Segment}
  {segs segs' : List Segment} {st st' : MapState} {e : Exit} {p q : Process}

/-! ## Stores -/

theorem store_eq_ok {addr : U64} {bs : List Byte} (h : store addr bs p = .ok q) :
    q = { p with host := { p.host with bytes := ByteStore.write p.host.bytes addr bs } } := by
  rw [store] at h
  split_ifs at h
  exact (Except.ok.inj h).symm

theorem store_eq_error {addr : U64} {bs : List Byte} {abort : HostAbort}
    (h : store addr bs p = .error abort) : abort = .segfault := by
  rw [store] at h
  split_ifs at h
  exact (Except.error.inj h).symm

/-! ## Leaving the function -/

theorem copySegment_eq_error (h : copySegment fetch seg st = .error e) :
    e = .abort .segfault ∨ seg.filesz ≠ 0 ∧ fetch seg.paddr seg.filesz st.reads = .error e := by
  rw [copySegment] at h
  split_ifs at h with hfilesz
  cases hfetch : fetch seg.paddr seg.filesz st.reads with
  | error e' =>
      rw [hfetch] at h
      cases h
      exact .inr ⟨hfilesz, rfl⟩
  | ok bs =>
      rw [hfetch] at h
      cases hstore : store seg.dest bs st.mem with
      | ok mem =>
          simp only [hstore] at h
          cases h
      | error abort =>
          simp only [hstore, Except.error.injEq] at h
          rw [← h, store_eq_error hstore]
          exact .inl rfl

theorem zeroSegment_eq_error (h : zeroSegment seg st = .error e) : e = .abort .segfault := by
  rw [zeroSegment] at h
  split_ifs at h
  cases hstore : store seg.bss seg.zeros st.mem with
  | ok mem =>
      rw [hstore] at h
      cases h
  | error abort =>
      rw [hstore] at h
      rw [← Except.error.inj h, store_eq_error hstore]

theorem fillSegment_eq_error (h : fillSegment os fetch seg st = .error e) :
    e = .abort .segfault ∨ seg.filesz ≠ 0 ∧ fetch seg.paddr seg.filesz st.reads = .error e := by
  rw [fillSegment] at h
  cases hcopy : copySegment fetch seg st with
  | error e' =>
      rw [hcopy] at h
      cases h
      exact copySegment_eq_error hcopy
  | ok st₁ =>
      rw [hcopy] at h
      cases hzero : zeroSegment seg st₁ with
      | error e' =>
          simp only [bind, Except.bind, hzero] at h
          cases h
          exact .inl (zeroSegment_eq_error hzero)
      | ok st₂ =>
          simp only [bind, Except.bind, hzero] at h
          cases h

theorem mapSegment_of_memsz (h : seg.memsz = 0) :
    mapSegment os isPic tag fetch seg st = (none, seg, st) := if_pos h

/-- The segment and the variables once the segment is mapped at `base`. -/
theorem mapSegment_of_map (isPic : Bool) (fetch : Fetch) {base : U64} {mem : Process}
    (hmemsz : seg.memsz ≠ 0)
    (hmap : map os (st.loadBias + seg.aVa) seg.mapSz Prot.RW seg.allocType tag st.mem =
      (base, mem)) :
    mapSegment os isPic tag fetch seg st =
      if base = 0 then (some (.returned .MemoryError), seg, { st with mem := mem })
      else
        match fillSegment os fetch { seg with hostBase := base }
          ⟨biasAfter isPic st.loadBias seg.aVa base, st.reads, mem⟩ with
        | .error e => (some e, { seg with hostBase := base },
            ⟨biasAfter isPic st.loadBias seg.aVa base, st.reads, mem⟩)
        | .ok st => (none, { seg with hostBase := base }, st) := by
  rw [mapSegment, if_neg hmemsz]
  generalize map os (st.loadBias + seg.aVa) seg.mapSz Prot.RW seg.allocType tag st.mem = r at hmap ⊢
  subst hmap
  rfl

/-- The ways out of the loop body. -/
theorem mapSegment_exit (h : (mapSegment os isPic tag fetch seg st).1 = some e) :
    seg.memsz ≠ 0 ∧ (e = .returned .MemoryError ∨ e = .abort .segfault ∨
      seg.filesz ≠ 0 ∧ fetch seg.paddr seg.filesz st.reads = .error e) := by
  by_cases hmemsz : seg.memsz = 0
  · rw [mapSegment_of_memsz hmemsz] at h
    cases h
  refine ⟨hmemsz, ?_⟩
  rcases hmap : map os (st.loadBias + seg.aVa) seg.mapSz Prot.RW seg.allocType tag st.mem with
    ⟨base, mem⟩
  rw [mapSegment_of_map isPic fetch hmemsz hmap] at h
  split_ifs at h with hbase
  · cases h
    exact .inl rfl
  · split at h
    · rename_i hfill
      cases h
      rcases fillSegment_eq_error hfill with hfault | hfetch
      · exact .inr (.inl hfault)
      · exact .inr (.inr hfetch)
    · cases h

theorem mapLoop_cons (h : mapSegment os isPic tag fetch seg st = (none, seg', st')) :
    mapLoop os isPic tag fetch (seg :: segs) st =
      ((mapLoop os isPic tag fetch segs st').1, seg' :: (mapLoop os isPic tag fetch segs st').2.1,
        (mapLoop os isPic tag fetch segs st').2.2) := by
  rw [mapLoop, h]

theorem mapLoop_cons_exit (h : mapSegment os isPic tag fetch seg st = (some e, seg', st')) :
    mapLoop os isPic tag fetch (seg :: segs) st = (some e, seg' :: segs, st') := by
  rw [mapLoop, h]

/-- The ways out of the segment loop. -/
theorem mapLoop_exit (h : (mapLoop os isPic tag fetch segs st).1 = some e) :
    ∃ seg ∈ segs, seg.memsz ≠ 0 ∧ (e = .returned .MemoryError ∨ e = .abort .segfault ∨
      seg.filesz ≠ 0 ∧ ∃ k, fetch seg.paddr seg.filesz k = .error e) := by
  induction segs generalizing st with
  | nil => cases h
  | cons seg segs ih =>
      rcases hseg : mapSegment os isPic tag fetch seg st with ⟨_ | e', seg', st'⟩
      · rw [mapLoop_cons hseg] at h
        obtain ⟨seg₁, hmem, hexit⟩ := ih h
        exact ⟨seg₁, List.mem_cons_of_mem seg hmem, hexit⟩
      · rw [mapLoop_cons_exit hseg, Option.some.injEq] at h
        obtain ⟨hmemsz, hexit⟩ := mapSegment_exit (congrArg Prod.fst hseg)
        refine ⟨seg, List.mem_cons_self, hmemsz, ?_⟩
        rw [← h]
        exact hexit.imp_right (Or.imp_right (And.imp_right fun hfetch => ⟨st.reads, hfetch⟩))

/-! ## Going on -/

/-- The bytes the loop copies for a segment. -/
def Fetched (fetch : Fetch) (seg : Segment) (reads : ℕ) (bs : List Byte) : Prop :=
  if seg.filesz = 0 then bs = [] else fetch seg.paddr seg.filesz reads = .ok bs

/-- What a way of fetching hands on is as long as it was asked for. -/
def Fetch.Exact (fetch : Fetch) : Prop :=
  ∀ paddr filesz k bs, fetch paddr filesz k = .ok bs → bs.length = filesz.toNat

theorem exact_fetchMemory (data : List Byte) : (fetchMemory data).Exact := by
  intro paddr filesz k bs h
  rw [fetchMemory, slice] at h
  split_ifs at h with hfit
  simp only [Except.ok.injEq] at h
  rw [← h, List.length_take, List.length_drop]
  omega

/-- A fetch from the file that went well got a vector, and in it the bytes of the file. -/
theorem bytes_of_fetchFile {heap : Heap} {file : File} {paddr filesz : U64} {k : ℕ}
    {bs : List Byte} (h : fetchFile heap file paddr filesz k = .ok bs) :
    newVector heap filesz.toNat = .ok () ∧
      bs = (file.bytes.drop paddr.toNat).take filesz.toNat ∧ bs.length = filesz.toNat := by
  rw [fetchFile] at h
  split at h
  · cases h
  · rename_i hvector
    split at h
    · rename_i hread
      cases h
      rw [readBytes] at hread
      rcases hs : Stream.read file paddr filesz.toNat ⟨k, false⟩ with ⟨bs', ok, s'⟩
      rw [hs] at hread
      obtain ⟨rfl, rfl, -⟩ := hread
      obtain ⟨hbytes, hlen, -⟩ := Stream.read_eq_true hs
      rw [hlen, Nat.sub_self, List.replicate_zero, List.append_nil]
      exact ⟨hvector, hbytes, hlen⟩
    · cases h

theorem exact_fetchFile (heap : Heap) (file : File) : (fetchFile heap file).Exact :=
  fun _ _ _ _ h => (bytes_of_fetchFile h).2.2

theorem Fetched.length (hfetch : fetch.Exact) {k : ℕ} {bs : List Byte}
    (h : Fetched fetch seg k bs) : bs.length = seg.filesz.toNat := by
  rw [Fetched] at h
  split_ifs at h with hzero
  · rw [h, hzero]
    rfl
  · exact hfetch _ _ _ _ h

theorem copySegment_eq_ok (h : copySegment fetch seg st = .ok st') :
    ∃ bs, Fetched fetch seg st.reads bs ∧ st'.loadBias = st.loadBias ∧
      st'.mem = { st.mem with
        host := { st.mem.host with bytes := ByteStore.write st.mem.host.bytes seg.dest bs } } := by
  rw [copySegment] at h
  by_cases hfilesz : seg.filesz = 0
  · rw [if_pos hfilesz] at h
    cases h
    exact ⟨[], by rw [Fetched, if_pos hfilesz], rfl, by rw [ByteStore.write_nil]⟩
  · rw [if_neg hfilesz] at h
    cases hfetch : fetch seg.paddr seg.filesz st.reads with
    | error e' =>
        rw [hfetch] at h
        cases h
    | ok bs =>
        rw [hfetch] at h
        cases hstore : store seg.dest bs st.mem with
        | error abort =>
            simp only [hstore] at h
            cases h
        | ok mem =>
            simp only [hstore, Except.ok.injEq] at h
            rw [← h]
            exact ⟨bs, by rw [Fetched, if_neg hfilesz, hfetch], rfl, store_eq_ok hstore⟩

theorem zeroSegment_eq_ok (h : zeroSegment seg st = .ok st') :
    st'.loadBias = st.loadBias ∧ st'.mem = { st.mem with
      host := { st.mem.host with
        bytes := ByteStore.write st.mem.host.bytes seg.bss seg.zeros } } := by
  rw [zeroSegment] at h
  split_ifs at h with hbss
  · cases hstore : store seg.bss seg.zeros st.mem with
    | error abort =>
        rw [hstore] at h
        cases h
    | ok mem =>
        simp only [hstore, Except.ok.injEq] at h
        rw [← h]
        exact ⟨rfl, store_eq_ok hstore⟩
  · cases h
    rw [Segment.zeros, if_neg hbss, ByteStore.write_nil]
    exact ⟨rfl, rfl⟩

/-- The filled segment: two stores and a change of protection. -/
theorem fillSegment_eq_ok (h : fillSegment os fetch seg st = .ok st') :
    ∃ bs mem, Fetched fetch seg st.reads bs ∧ st'.loadBias = st.loadBias ∧
      mem = { st.mem with host := { st.mem.host with
        bytes := ByteStore.write (ByteStore.write st.mem.host.bytes seg.dest bs) seg.bss
          seg.zeros } } ∧
      st'.mem = (protect os seg.hostBase seg.mapSz (flagsToProt seg.flags) mem).2 := by
  rw [fillSegment] at h
  cases hcopy : copySegment fetch seg st with
  | error e' =>
      rw [hcopy] at h
      cases h
  | ok st₁ =>
      rw [hcopy] at h
      cases hzero : zeroSegment seg st₁ with
      | error e' =>
          simp only [bind, Except.bind, hzero] at h
          cases h
      | ok st₂ =>
          simp only [bind, Except.bind, hzero, pure, Except.pure, Except.ok.injEq] at h
          obtain ⟨bs, hbs, hbias₁, hmem₁⟩ := copySegment_eq_ok hcopy
          obtain ⟨hbias₂, hmem₂⟩ := zeroSegment_eq_ok hzero
          refine ⟨bs, st₂.mem, hbs, ?_, ?_, ?_⟩
          · rw [← h]
            exact hbias₂.trans hbias₁
          · rw [hmem₂, hmem₁]
          · rw [← h]

/-- A segment that was passed over, or mapped and filled. -/
theorem mapSegment_eq_none (h : mapSegment os isPic tag fetch seg st = (none, seg', st')) :
    (seg.memsz = 0 ∧ seg' = seg ∧ st' = st) ∨
      ∃ base mem, seg.memsz ≠ 0 ∧ base ≠ 0 ∧
        map os (st.loadBias + seg.aVa) seg.mapSz Prot.RW seg.allocType tag st.mem = (base, mem) ∧
        seg' = { seg with hostBase := base } ∧
        fillSegment os fetch seg' ⟨biasAfter isPic st.loadBias seg.aVa base, st.reads, mem⟩ =
          .ok st' := by
  by_cases hmemsz : seg.memsz = 0
  · rw [mapSegment_of_memsz hmemsz] at h
    cases h
    exact .inl ⟨hmemsz, rfl, rfl⟩
  right
  rcases hmap : map os (st.loadBias + seg.aVa) seg.mapSz Prot.RW seg.allocType tag st.mem with
    ⟨base, mem⟩
  rw [mapSegment_of_map isPic fetch hmemsz hmap] at h
  split_ifs at h with hbase
  · cases h
  · split at h
    · cases h
    · rename_i hfill
      cases h
      exact ⟨base, mem, hmemsz, hbase, rfl, rfl, hfill⟩

theorem mapLoop_eq_none (h : mapLoop os isPic tag fetch (seg :: segs) st = (none, segs', st')) :
    ∃ seg₁ st₁ rest, mapSegment os isPic tag fetch seg st = (none, seg₁, st₁) ∧
      mapLoop os isPic tag fetch segs st₁ = (none, rest, st') ∧ segs' = seg₁ :: rest := by
  rcases hseg : mapSegment os isPic tag fetch seg st with ⟨_ | e', seg₁, st₁⟩
  · rcases hrest : mapLoop os isPic tag fetch segs st₁ with ⟨exit, rest, st₂⟩
    rw [mapLoop_cons hseg, hrest] at h
    cases h
    exact ⟨seg₁, st₁, rest, rfl, hrest, rfl⟩
  · rw [mapLoop_cons_exit hseg] at h
    cases h

/-! ## Successful loads -/

theorem readPhdrs_eq_error {data : List Byte} {n pos : ℕ} (h : readPhdrs data n pos = .error e) :
    e = .abort .outOfBounds ∨ e = .returned .InvalidProgramHeader := by
  induction n generalizing pos with
  | zero => cases h
  | succ n ih =>
      rw [readPhdrs] at h
      split at h
      · cases h
        exact .inl rfl
      · dsimp only at h
        split_ifs at h
        · exact ih h
        · cases h
          exact .inr rfl
        · split at h
          · rename_i hrest
            cases h
            exact ih hrest
          · cases h

theorem parseMemory_eq_error {data : List Byte} (h : parseMemory data = .error e) :
    e ≠ .returned .Ok := by
  rintro rfl
  rw [parseMemory] at h
  split at h
  · cases h
  · dsimp only at h
    split_ifs at h with hcheck
    · simp only [Except.error.injEq, Exit.returned.injEq] at h
      exact hcheck h
    · cases h
    · split at h
      · rename_i hread
        cases h
        rcases readPhdrs_eq_error hread with hway | hway <;> cases hway
      · cases h
      · cases h

theorem fetchMemory_eq_error {data : List Byte} {paddr filesz : U64} {k : ℕ}
    (h : fetchMemory data paddr filesz k = .error e) :
    e = .abort .outOfBounds ∧ data.length < paddr.toNat + filesz.toNat := by
  rw [fetchMemory] at h
  by_cases hfit : paddr.toNat + filesz.toNat ≤ data.length
  · rw [slice_of_le hfit] at h
    cases h
  · rw [slice_of_lt (Nat.not_le.mp hfit)] at h
    cases h
    exact ⟨rfl, Nat.not_le.mp hfit⟩

theorem fetchFile_eq_error {heap : Heap} {file : File} {paddr filesz : U64} {k : ℕ}
    (h : fetchFile heap file paddr filesz k = .error e) :
    e = .returned .IoError ∨ ∃ a, e = .abort a := by
  rw [fetchFile] at h
  split at h
  · cases h
    exact .inr ⟨_, rfl⟩
  · split at h
    · cases h
    · cases h
      exact .inl rfl

/-- No way out of the loop is called a success. -/
theorem mapLoop_exit_ne (hfetch : ∀ paddr filesz k, fetch paddr filesz k ≠ .error (.returned .Ok)) :
    (mapLoop os isPic tag fetch segs st).1 ≠ some (.returned .Ok) := by
  intro hexit
  obtain ⟨seg, -, -, hway | hway | ⟨-, k, hway⟩⟩ := mapLoop_exit hexit
  · cases hway
  · cases hway
  · exact hfetch _ _ _ hway

theorem loadFromMemory_eq_ok {data : List Byte} {s s' : State}
    (h : loadFromMemory os data s = (.returned .Ok, s')) :
    ∃ info segs st, parseMemory data = .ok info ∧
      mapLoop os info.isPic memoryElf (fetchMemory data) info.segments { mem := s.mem } =
        (none, segs, st) ∧ s' = { current := info.mapped segs st.loadBias, mem := st.mem } := by
  rw [loadFromMemory] at h
  cases hparse : parseMemory data with
  | error e' =>
      rw [hparse] at h
      exact absurd (Prod.mk.inj h).1 (parseMemory_eq_error hparse)
  | ok info =>
      rw [hparse] at h
      dsimp only at h
      rcases hloop : mapLoop os info.isPic memoryElf (fetchMemory data) info.segments
          { mem := s.mem } with ⟨_ | e', segs, st⟩
      · rw [hloop] at h
        exact ⟨info, segs, st, rfl, hloop, (Prod.mk.inj h).2.symm⟩
      · rw [hloop] at h
        obtain rfl := (Prod.mk.inj h).1
        refine absurd (congrArg Prod.fst hloop) (mapLoop_exit_ne fun paddr filesz k hfetch => ?_)
        cases (fetchMemory_eq_error hfetch).1

theorem mapSegments_eq_ok {heap : Heap} {path : List Byte} {file : Option File}
    {info info' : ExecutableInfo}
    (h : mapSegments os heap path file info p = (.returned .Ok, info', q)) :
    ∃ f segs st, file = some f ∧
      mapLoop os info.isPic (filename path) (fetchFile heap f) info.segments { mem := p } =
        (none, segs, st) ∧ info' = (info.mapped segs st.loadBias).withOffsets heap ∧
      q = st.mem := by
  cases file with
  | none => cases (Prod.mk.inj h).1
  | some f =>
      simp only [mapSegments] at h
      rcases hloop : mapLoop os info.isPic (filename path) (fetchFile heap f) info.segments
          { mem := p } with ⟨_ | e', segs, st⟩
      · rw [hloop] at h
        obtain ⟨-, rfl, rfl⟩ := h
        exact ⟨f, segs, st, rfl, hloop, rfl, rfl⟩
      · rw [hloop] at h
        obtain rfl := (Prod.mk.inj h).1
        refine absurd (congrArg Prod.fst hloop) (mapLoop_exit_ne fun paddr filesz k hfetch => ?_)
        rcases fetchFile_eq_error hfetch with hway | ⟨a, hway⟩ <;> cases hway

end Effects

end Loader
