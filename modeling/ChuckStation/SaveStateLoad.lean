/-
# Saving and loading a machine

`Save` and `Load` of `SaveState.cpp` over the machine they capture: the live CPU context,
the memory manager with the process it runs in, and the GPU statistics.

`Load` writes into the live machine while it reads: the context field by field, then the
memory record by record.  What one record does is `restoreRegion`; its specification is
`restoreRegion_cases`.
-/
import ChuckStation.SaveStateFormat

namespace SaveState

open BinaryFormats Memory
open Cpu (CpuContext)

/-! ## The machine and the slot -/

/-- What a save state captures. -/
structure Machine where
  ctx : CpuContext
  mem : Process
  gpu : GpuStats

/-- The file of a slot, as `Load` finds it. -/
inductive SlotFile where
  | missing
  | unopenable
  | unreadable (fileSize : ℕ)
  | bytes (fileData : List Byte)
  deriving DecidableEq, Repr

/-- `enum class SaveResult`. -/
inductive SaveResult where
  | Ok
  | FileError
  | InvalidState
  | DiskFull
  | ChecksumMismatch
  deriving DecidableEq, Repr

/-- How far the file system lets `Save` come. -/
inductive WriteOutcome where
  | refused
  | failedAfter (n : ℕ)
  | complete
  deriving DecidableEq, Repr

/-- `std::vector<uint8_t>(n)` outside of a blob. -/
def allocate (alloc : ℕ → Bool) (n : ℕ) : Except HostAbort Unit :=
  if 2 ^ 63 - 1 < n then .error .lengthError
  else if alloc n then .ok ()
  else .error .badAlloc

/-! ## Save -/

/-- The pages of a region, read from where they are mapped. -/
def hostPages (os : Os) (host : Host) (r : Region) : Except HostAbort (List Byte) :=
  if host.allows os.canRead r.base r.size.toNat then
    .ok (ByteStore.read host.bytes r.base r.size.toNat)
  else .error .segfault

/-- `Save`: the result and the slot's file afterwards. -/
def save (os : Os) (alloc : ℕ → Bool) (initialised : Bool) (slot : ℤ) (notes : SaveNotes)
    (outcome : WriteOutcome) (file : SlotFile) (m : Machine) :
    Except HostAbort (SaveResult × SlotFile) :=
  if initialised = false then .ok (.InvalidState, file)
  else if slot < 0 ∨ 9 < slot then .ok (.InvalidState, file)
  else do
    let cpu := serializeCpuContext m.ctx
    let mem ← serializeMemoryMap (hostPages os m.mem.host) m.mem.st.regions
    let gpu := serializeGpuState m.gpu
    allocate alloc (cpu.length + mem.length + gpu.length)
    let data := buildFile notes cpu mem gpu
    match outcome with
    | .refused => .ok (.FileError, file)
    | .failedAfter n => .ok (.DiskFull, .bytes (data.take n))
    | .complete => .ok (.Ok, .bytes data)

/-! ## Load -/

/-- `std::memcpy` of the pages of a record to `base`. -/
def copyPages (record : SerializedRegion) (base : U64) (p : Process) : Except HostAbort Process :=
  if 0 < record.size ∧ base ≠ 0 then
    if p.host.allows canWrite base record.pageData.length then
      .ok { p with host :=
        { p.host with bytes := ByteStore.write p.host.bytes base record.pageData } }
    else .error .segfault
  else .ok p

/-- One pass of the loop of `DeserializeMemoryMap` over a record it has read.  A region that
covers the base is taken as it is; a mapping made elsewhere takes the base's place; one
that is refused is skipped. -/
def restoreRegion (os : Os) (p : Process) (record : SerializedRegion) : Except HostAbort Process :=
  match findRegion p record.base with
  | some _ => copyPages record record.base p
  | none =>
    let mapped := map os record.base record.size record.prot record.type record.tag p
    if mapped.1 = 0 then .ok mapped.2
    else copyPages record mapped.1 mapped.2

/-- The part of `Load` behind the checks. -/
def restore (os : Os) (alloc : ℕ → Bool) (blobs : Blobs) (m : Machine) :
    Except HostAbort (LoadResult × Machine) :=
  match deserializeCpuContext ⟨blobs.cpu, 0⟩ m.ctx with
  | .error e => .error e
  | .ok (false, ctx, _) => .ok (.CorruptFile, { m with ctx := ctx })
  | .ok (true, ctx, _) =>
    match deserializeMemoryMap alloc (restoreRegion os) ⟨blobs.mem, 0⟩ m.mem with
    | .error e => .error e
    | .ok (false, mem, _) => .ok (.MemoryConflict, { m with ctx := ctx, mem := mem })
    | .ok (true, mem, _) =>
      match deserializeGpuState ⟨blobs.gpu, 0⟩ with
      | .error e => .error e
      | .ok (false, _, _) => .ok (.CorruptFile, { m with ctx := ctx, mem := mem })
      | .ok (true, _, _) => .ok (.Ok, { m with ctx := ctx, mem := mem })

/-- `Load`. -/
def load (os : Os) (alloc : ℕ → Bool) (initialised : Bool) (file : SlotFile) (m : Machine) :
    Except HostAbort (LoadResult × Machine) :=
  if initialised = false then .ok (.CorruptFile, m)
  else match file with
    | .missing => .ok (.FileNotFound, m)
    | .unopenable => .ok (.CorruptFile, m)
    | .unreadable fileSize =>
      match allocate alloc fileSize with
      | .error e => .error e
      | .ok () => .ok (.CorruptFile, m)
    | .bytes fileData =>
      match allocate alloc fileData.length with
      | .error e => .error e
      | .ok () =>
        match validate fileData with
        | .error result => .ok (result, m)
        | .ok blobs => restore os alloc blobs m

/-! ## What restoring a record does -/

section RestoreRegion

variable {os : Os} {p p' : Process} {record : SerializedRegion}

/-- The bytes after the pages of a record were copied to `base`. -/
def pagesOver (record : SerializedRegion) (base : U64) (bytes : U64 → Byte) : U64 → Byte :=
  if 0 < record.size ∧ base ≠ 0 then ByteStore.write bytes base record.pageData else bytes

theorem copyPages_eq_ok {base : U64} (h : copyPages record base p = .ok p') :
    p'.st = p.st ∧ p'.host.prot = p.host.prot ∧
      p'.host.bytes = pagesOver record base p.host.bytes ∧
      (0 < record.size → base ≠ 0 → p.host.allows canWrite base record.pageData.length) := by
  unfold copyPages at h
  unfold pagesOver
  split_ifs at h with hsize hallow
  · cases h
    refine ⟨rfl, rfl, ?_, fun _ _ => hallow⟩
    rw [if_pos hsize]
  · cases h
    refine ⟨rfl, rfl, ?_, fun hpos hbase => absurd ⟨hpos, hbase⟩ hsize⟩
    rw [if_neg hsize]

/-- The host after `Map` was granted `base` for a record. -/
def hostMapped (record : SerializedRegion) (base : U64) (h : Host) : Host :=
  h.mapZero base (alignUp record.size PAGE_SIZE).toNat (protToMmap record.prot)

/-- The question `Map` asks the system for a record. -/
def placement (os : Os) (p : Process) (record : SerializedRegion) : Option U64 :=
  os.mmap p.host record.base (alignUp record.size PAGE_SIZE) (protToMmap record.prot) false

/-- The three ways of restoring a record: its base is covered and only bytes change, or it
is not and nothing is mapped, or a region is added wherever the mapping was placed and
the bytes go there. -/
inductive Restores (os : Os) (p : Process) (record : SerializedRegion) (p' : Process) : Prop where
  | overwritten (r : Region) (hfind : findRegion p record.base = some r)
      (hregions : p'.st.regions = p.st.regions) (hprot : p'.host.prot = p.host.prot)
      (hbytes : p'.host.bytes = pagesOver record record.base p.host.bytes)
      (hallow : 0 < record.size → record.base ≠ 0 →
        p.host.allows canWrite record.base record.pageData.length)
  | skipped (hfind : findRegion p record.base = none) (hplace : placement os p record = none)
      (hregions : p'.st.regions = p.st.regions) (hprot : p'.host.prot = p.host.prot)
      (hbytes : p'.host.bytes = p.host.bytes)
  | placed (base : U64) (hfind : findRegion p record.base = none)
      (hplace : placement os p record = some base)
      (hregions : p'.st.regions = p.st.regions ++ [⟨base, alignUp record.size PAGE_SIZE,
        record.prot, record.type, record.tag, true⟩])
      (hprot : p'.host.prot = (hostMapped record base p.host).prot)
      (hbytes : p'.host.bytes = pagesOver record base (hostMapped record base p.host).bytes)

theorem restores_of_restoreRegion (h : restoreRegion os p record = .ok p') :
    Restores os p record p' := by
  unfold restoreRegion at h
  cases hfind : findRegion p record.base with
  | some r =>
      rw [hfind] at h
      obtain ⟨hst, hprot, hbytes, hallow⟩ := copyPages_eq_ok h
      exact .overwritten r hfind (by rw [hst]) hprot hbytes hallow
  | none =>
      rw [hfind] at h
      cases hplace : placement os p record with
      | none =>
          simp only [map_of_none _ _ hplace, if_true] at h
          cases h
          exact .skipped hfind hplace rfl rfl rfl
      | some base =>
          obtain ⟨q, hq, hregions, hhost⟩ :=
            map_of_some record.type record.tag hplace
          rw [hq] at h
          dsimp only at h
          split_ifs at h with hbase
          · cases h
            refine .placed base hfind hplace hregions (by rw [hhost]; rfl) ?_
            rw [pagesOver, if_neg fun hc => hc.2 hbase, hhost]
            rfl
          · obtain ⟨hst, hprot, hbytes, -⟩ := copyPages_eq_ok h
            refine .placed base hfind hplace (by rw [hst, hregions]) (by rw [hprot, hhost]; rfl) ?_
            rw [hbytes, hhost]
            rfl

end RestoreRegion

/-! ## What `Load` went through -/

section Load

variable {os : Os} {alloc : ℕ → Bool} {initialised : Bool} {file : SlotFile} {m m' : Machine}
  {result : LoadResult}

/-- A load that got behind the checks. -/
theorem load_of_validate {fileData : List Byte} {blobs : Blobs}
    (halloc : allocate alloc fileData.length = .ok ()) (hvalid : validate fileData = .ok blobs) :
    load os alloc true (.bytes fileData) m = restore os alloc blobs m := by
  rw [load, if_neg (by decide)]
  simp only [halloc, hvalid]

theorem validate_ne_ok {fileData : List Byte} : validate fileData ≠ .error .Ok := by
  intro h
  unfold validate at h
  dsimp only at h
  split_ifs at h <;> cases h

/-- Behind the checks the blobs are as long as the header says. -/
theorem length_blobs {fileData : List Byte} {blobs : Blobs} (h : validate fileData = .ok blobs) :
    blobs.cpu.length = (headerOf fileData).cpuStateSize.toNat ∧
      blobs.mem.length = (headerOf fileData).memoryMapSize.toNat ∧
      blobs.gpu.length = (headerOf fileData).gpuStateSize.toNat := by
  unfold validate at h
  dsimp only at h
  split_ifs at h
  cases h
  simp only [List.length_take, List.length_drop]
  omega

/-- **A load that returns** either changed nothing, or got behind the checks. -/
theorem load_cases (h : load os alloc initialised file m = .ok (result, m')) :
    (result ≠ .Ok ∧ m' = m ∧ ∀ fileData, file = .bytes fileData → initialised = true →
      ∃ e, validate fileData = .error e) ∨
    ∃ fileData blobs, file = .bytes fileData ∧ initialised = true ∧
      validate fileData = .ok blobs ∧ restore os alloc blobs m = .ok (result, m') := by
  unfold load at h
  cases hinit : initialised with
  | false =>
      rw [if_pos hinit] at h
      cases h
      exact .inl ⟨by decide, rfl, by simp⟩
  | true =>
      rw [if_neg (by simp [hinit])] at h
      cases file with
      | missing =>
          cases h
          exact .inl ⟨by decide, rfl, by simp⟩
      | unopenable =>
          cases h
          exact .inl ⟨by decide, rfl, by simp⟩
      | unreadable fileSize =>
          cases halloc : allocate alloc fileSize with
          | error e =>
              simp only [halloc, reduceCtorEq] at h
          | ok u =>
              simp only [halloc] at h
              cases h
              exact .inl ⟨by decide, rfl, by simp⟩
      | bytes fileData =>
          -- The buffer for the file comes first.
          cases halloc : allocate alloc fileData.length with
          | error e =>
              simp only [halloc, reduceCtorEq] at h
          | ok u =>
              simp only [halloc] at h
              cases hvalid : validate fileData with
              | error e =>
                  simp only [hvalid] at h
                  cases h
                  refine .inl ⟨fun he => validate_ne_ok (he ▸ hvalid), rfl, ?_⟩
                  intro data hdata _
                  cases hdata
                  exact ⟨_, hvalid⟩
              | ok blobs =>
                  simp only [hvalid] at h
                  exact .inr ⟨fileData, blobs, rfl, rfl, hvalid, h⟩

end Load

end SaveState
