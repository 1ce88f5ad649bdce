/-
# Saves that fail

What is in the slot after a save that could not write its file.  `Save` truncates the file of the
slot when it opens it, hands its bytes to a stream that may still hold some of them when it asks
whether all went well, and does not ask again after closing it.

So an old save survives a failed one exactly if the file could not even be opened, and an `Ok` can
be relied on exactly if the disk takes all the bytes.
-/
import ChuckStation.SaveStateRestore

namespace SaveState

open BinaryFormats Memory OperationRuns
open Cpu (CpuContext)

/-! ## The stream -/

/-- What becomes of a file that is written: whether it opens, how many bytes the disk takes, and
how many of the last bytes the stream still holds when it is asked for errors. -/
structure Disk where
  opens : Bool
  room : ℕ
  held : ℕ
  deriving DecidableEq, Repr

/-- The writing part of `Save`.  What the stream still holds is written by `close`, and an error
there goes unseen. -/
def Disk.write (disk : Disk) (data : List Byte) (file : SlotFile) : SaveResult × SlotFile :=
  if disk.opens = false then (.FileError, file)
  else if disk.room < data.length - disk.held then (.DiskFull, .bytes (data.take disk.room))
  else (.Ok, .bytes (data.take disk.room))

/-- The bytes `Save` has to write. -/
def newFile (os : Os) (alloc : ℕ → Bool) (notes : SaveNotes) (m : Machine) :
    Except HostAbort (List Byte) := do
  let cpu := serializeCpuContext m.ctx
  let mem ← serializeMemoryMap (hostPages os m.mem.host) m.mem.st.regions
  let gpu := serializeGpuState m.gpu
  allocate alloc (cpu.length + mem.length + gpu.length)
  pure (buildFile notes cpu mem gpu)

/-- `Save` through a stream. -/
def saveThrough (os : Os) (alloc : ℕ → Bool) (initialised : Bool) (slot : ℤ) (notes : SaveNotes)
    (disk : Disk) (file : SlotFile) (m : Machine) : Except HostAbort (SaveResult × SlotFile) :=
  if initialised = false then .ok (.InvalidState, file)
  else if slot < 0 ∨ 9 < slot then .ok (.InvalidState, file)
  else do
    let data ← newFile os alloc notes m
    pure (disk.write data file)

/-- How far a save of `n` bytes comes if every error is seen. -/
def Disk.outcome (disk : Disk) (n : ℕ) : WriteOutcome :=
  if disk.opens = false then .refused else if disk.room < n then .failedAfter disk.room
  else .complete

/-! ## The claim on a save -/

/-- After a save that is not `Ok` every file that could be loaded from the slot can be loaded with
the same result, and after one that is, the slot holds the new file. -/
def KeepsOldSave (os : Os) (alloc : ℕ → Bool) (slot : ℤ) (notes : SaveNotes) (disk : Disk)
    (m : Machine) : Prop :=
  ∀ (alloc' : ℕ → Bool) (file : SlotFile) (now loaded : Machine),
    load os alloc' true file now = .ok (.Ok, loaded) →
    ∀ (result : SaveResult) (file' : SlotFile),
      saveThrough os alloc true slot notes disk file m = .ok (result, file') →
      (result ≠ .Ok → load os alloc' true file' now = .ok (.Ok, loaded)) ∧
        (result = .Ok → ∃ data, newFile os alloc notes m = .ok data ∧ file' = .bytes data)

section Save

variable {os : Os} {alloc alloc' : ℕ → Bool} {initialised : Bool} {slot : ℤ} {notes : SaveNotes}
  {disk : Disk} {file file' : SlotFile} {m now loaded : Machine} {data : List Byte} {n : ℕ}
  {cpu mem gpu : List Byte} {blobs : Blobs} {result : SaveResult}

/-- A stream that holds nothing back sees every error. -/
theorem saveThrough_of_unheld (hheld : disk.held = 0)
    (hdata : newFile os alloc notes m = .ok data) :
    saveThrough os alloc initialised slot notes disk file m =
      save os alloc initialised slot notes (disk.outcome data.length) file m := by
  unfold saveThrough save
  refine if_congr Iff.rfl rfl (if_congr Iff.rfl rfl ?_)
  unfold newFile at hdata ⊢
  cases hmem : serializeMemoryMap (hostPages os m.mem.host) m.mem.st.regions with
  | error e =>
      rw [hmem] at hdata
      cases hdata
  | ok mem =>
      rw [hmem] at hdata
      simp only [ok_bind] at hdata ⊢
      cases halloc : allocate alloc ((serializeCpuContext m.ctx).length + mem.length +
          (serializeGpuState m.gpu).length) with
      | error e =>
          rw [halloc] at hdata
          cases hdata
      | ok u =>
          rw [halloc] at hdata
          cases hdata
          simp only [ok_bind, pure_bind, Disk.write, Disk.outcome, hheld, Nat.sub_zero]
          split_ifs with hopens hroom
          · rfl
          · rfl
          · rw [List.take_of_length_le (not_lt.mp hroom)]
            rfl

/-- Behind the first checks everything depends on the disk. -/
theorem saveThrough_eq_ok (hslot : ¬ (slot < 0 ∨ 9 < slot))
    (hdata : newFile os alloc notes m = .ok data) :
    saveThrough os alloc true slot notes disk file m = .ok (disk.write data file) := by
  rw [saveThrough, if_neg (by decide), if_neg hslot, hdata]
  rfl

/-- A file that is written was built of blobs that fit a vector. -/
theorem newFile_eq_ok (h : newFile os alloc notes m = .ok data) :
    ∃ mem, data = buildFile notes (serializeCpuContext m.ctx) mem (serializeGpuState m.gpu) := by
  unfold newFile at h
  cases hmem : serializeMemoryMap (hostPages os m.mem.host) m.mem.st.regions with
  | error e =>
      rw [hmem] at h
      cases h
  | ok mem =>
      rw [hmem] at h
      cases halloc : allocate alloc ((serializeCpuContext m.ctx).length + mem.length +
          (serializeGpuState m.gpu).length) with
      | error e =>
          simp only [ok_bind, halloc] at h
          cases h
      | ok u =>
          simp only [ok_bind, halloc] at h
          cases h
          exact ⟨mem, rfl⟩

/-- A new file cut short is reported as corrupt, if its sizes fit their words. -/
theorem validate_take_buildFile (hcpu : cpu.length < 2 ^ 32) (hmem : mem.length < 2 ^ 32)
    (hgpu : gpu.length < 2 ^ 32) (hn : n < (buildFile notes cpu mem gpu).length) :
    validate ((buildFile notes cpu mem gpu).take n) = .error .CorruptFile := by
  have hlen : (buildFile notes cpu mem gpu).length =
      headerSize + (cpu.length + mem.length + gpu.length) := by
    rw [buildFile, List.length_append, length_header, List.length_append, List.length_append]
  have hcut : ((buildFile notes cpu mem gpu).take n).length = n := by
    rw [List.length_take]
    omega
  have hsize : ∀ k, k < 2 ^ 32 → (BitVec.ofNat 32 k).toNat = k := fun k hk => by
    rw [BitVec.toNat_ofNat, Nat.mod_eq_of_lt hk]
  unfold validate
  rw [hcut]
  by_cases hheader : n < headerSize
  · rw [if_pos hheader]
  · dsimp only
    rw [if_neg hheader, headerOf_take (not_lt.mp hheader), headerOf_buildFile]
    simp only [buildHeader, hsize _ hcpu, hsize _ hmem, hsize _ hgpu]
    rw [if_neg (by simp), if_neg (by simp), if_pos (by omega)]

/-- **A load of a new file cut short** fails, and changes nothing. -/
theorem load_take_buildFile (halloc : allocate alloc' ((buildFile notes cpu mem gpu).take n).length
      = .ok ()) (hcpu : cpu.length < 2 ^ 32) (hmem : mem.length < 2 ^ 32)
    (hgpu : gpu.length < 2 ^ 32) (hn : n < (buildFile notes cpu mem gpu).length) :
    load os alloc' true (.bytes ((buildFile notes cpu mem gpu).take n)) now =
      .ok (.CorruptFile, now) := by
  rw [load, if_neg (by decide)]
  simp only [halloc, validate_take_buildFile hcpu hmem hgpu hn]

/-- What passes the checks of a new file cut short has its context. -/
theorem cpu_of_validate_take (hcpu : cpu.length < 2 ^ 32)
    (h : validate ((buildFile notes cpu mem gpu).take n) = .ok blobs) : blobs.cpu = cpu := by
  unfold validate at h
  dsimp only at h
  split_ifs at h with hshort hmagic hversion hfit
  cases h
  have hheader : headerSize ≤ n := by
    rw [List.length_take] at hshort
    omega
  have hsize : (BitVec.ofNat 32 cpu.length).toNat = cpu.length := by
    rw [BitVec.toNat_ofNat, Nat.mod_eq_of_lt hcpu]
  rw [headerOf_take hheader, headerOf_buildFile] at hfit ⊢
  simp only [buildHeader, hsize, List.length_take] at hfit ⊢
  rw [List.drop_take, List.take_take, Nat.min_eq_left (by omega), ← Nat.add_zero headerSize,
    drop_header, List.drop_zero, List.append_assoc, List.take_left]

/-- Where the sizes do not fit, a load may come through, but then with the new context. -/
theorem ctx_of_load_take
    (hload : load os alloc' true (.bytes ((buildFile notes (serializeCpuContext m.ctx) mem
      gpu).take n)) now = .ok (.Ok, loaded)) : loaded.ctx = m.ctx := by
  rcases load_cases hload with ⟨hne, -, -⟩ | ⟨fileData, blobs, hfile, -, hvalid, hrestore⟩
  · exact absurd rfl hne
  cases hfile
  have hcpu := cpu_of_validate_take (length_serializeCpuContext_lt _) hvalid
  obtain ⟨⟨r, hctx⟩, -⟩ := restore_eq_ok hrestore
  rw [hcpu, deserializeCpuContext_serialize] at hctx
  simp only [Except.ok.injEq, Prod.mk.injEq, true_and] at hctx
  exact hctx.1.symm

end Save

/-! ## An old save -/

/-- The file of a machine without memory. -/
def contextFile (ctx : CpuContext) : List Byte :=
  buildFile {} (serializeCpuContext ctx) (writeT (0 : U32)) (serializeGpuState {})

theorem length_contextFile (ctx : CpuContext) : (contextFile ctx).length = 880 := by
  rw [contextFile, buildFile, List.length_append, length_header, List.length_append,
    List.length_append, length_serializeCpuContext, length_serializeGpuState]
  rfl

/-- It can be loaded, and takes its context along. -/
theorem load_contextFile (os : Os) (ctx : CpuContext) :
    load os (fun _ => true) true (.bytes (contextFile ctx)) emptyMachine =
      .ok (.Ok, { emptyMachine with ctx := ctx }) :=
  load_of_foldlM (S := { emptyMachine with ctx := ctx }) (T := emptyMachine)
    (fun r hr => absurd hr List.not_mem_nil) rfl (by decide) rfl

section Exactly

variable {os : Os} {alloc : ℕ → Bool} {slot : ℤ} {notes : SaveNotes} {disk : Disk} {m : Machine}
  {data : List Byte}

/-- A file cut short keeps no old save: whatever can still be loaded has the new context, and an
`Ok` does not stand for the whole file. -/
theorem not_keepsOldSave_of_cut (hslot : ¬ (slot < 0 ∨ 9 < slot)) (hopens : disk.opens ≠ false)
    (hdata : newFile os alloc notes m = .ok data) (hroom : disk.room < data.length) :
    ¬ KeepsOldSave os alloc slot notes disk m := by
  intro hkeeps
  -- An old save of another context.
  let ctx : CpuContext := { m.ctx with rip := m.ctx.rip + 1 }
  have hkeeps := hkeeps (fun _ => true) (.bytes (contextFile ctx)) emptyMachine _
    (load_contextFile os ctx)
  by_cases hseen : disk.room < data.length - disk.held
  · have hwrite : saveThrough os alloc true slot notes disk (.bytes (contextFile ctx)) m =
        .ok (.DiskFull, .bytes (data.take disk.room)) := by
      rw [saveThrough_eq_ok hslot hdata, Disk.write, if_neg hopens, if_pos hseen]
    have hload := (hkeeps _ _ hwrite).1 (by decide)
    obtain ⟨mem, rfl⟩ := newFile_eq_ok hdata
    have hrip := congrArg CpuContext.rip (ctx_of_load_take hload)
    simp [ctx] at hrip
  · have hwrite : saveThrough os alloc true slot notes disk (.bytes (contextFile ctx)) m =
        .ok (.Ok, .bytes (data.take disk.room)) := by
      rw [saveThrough_eq_ok hslot hdata, Disk.write, if_neg hopens, if_neg hseen]
    obtain ⟨data', hdata', hfile⟩ := (hkeeps _ _ hwrite).2 rfl
    rw [hdata] at hdata'
    cases hdata'
    have hwhole := congrArg List.length (SlotFile.bytes.inj hfile)
    rw [List.length_take] at hwhole
    omega

/-- Otherwise the file is as it was, or whole. -/
theorem keepsOldSave_of_whole (hcond : (slot < 0 ∨ 9 < slot) ∨ disk.opens = false ∨
      ∀ data, newFile os alloc notes m = .ok data → data.length ≤ disk.room) :
    KeepsOldSave os alloc slot notes disk m := by
  intro alloc' file now loaded hload result file' hsave
  by_cases hslot : slot < 0 ∨ 9 < slot
  · rw [saveThrough, if_neg (by decide), if_pos hslot] at hsave
    cases hsave
    exact ⟨fun _ => hload, fun h => absurd h (by decide)⟩
  cases hdata : newFile os alloc notes m with
  | error e =>
      rw [saveThrough, if_neg (by decide), if_neg hslot, hdata] at hsave
      cases hsave
  | ok data =>
      rw [saveThrough_eq_ok hslot hdata] at hsave
      rcases hcond with hbad | hopens | hroom
      · exact absurd hbad hslot
      · rw [Disk.write, if_pos hopens] at hsave
        cases hsave
        exact ⟨fun _ => hload, fun h => absurd h (by decide)⟩
      · have hfit := hroom data hdata
        rw [Disk.write, if_neg (by omega : ¬ disk.room < data.length - disk.held),
          List.take_of_length_le hfit] at hsave
        split_ifs at hsave
        · cases hsave
          exact ⟨fun _ => hload, fun h => absurd h (by decide)⟩
        · cases hsave
          exact ⟨fun h => absurd rfl h, fun _ => ⟨data, rfl, rfl⟩⟩

end Exactly

/-- **When a failed save keeps the old one.**  Exactly if `Save` does not come to write: the slot
is none, the new file cannot be built or the file of the slot cannot be opened; or if the disk
takes all bytes of the new file. -/
theorem keepsOldSave_iff (os : Os) (alloc : ℕ → Bool) (slot : ℤ) (notes : SaveNotes) (disk : Disk)
    (m : Machine) :
    KeepsOldSave os alloc slot notes disk m ↔
      (slot < 0 ∨ 9 < slot) ∨ disk.opens = false ∨
        ∀ data, newFile os alloc notes m = .ok data → data.length ≤ disk.room := by
  constructor
  · intro hkeeps
    by_contra hcond
    simp only [not_or, not_forall, not_le] at hcond
    obtain ⟨hslot, hopens, data, hdata, hroom⟩ := hcond
    exact not_keepsOldSave_of_cut (by omega) hopens hdata hroom hkeeps
  · exact keepsOldSave_of_whole

/-- A disk with no room left: the file is truncated, the save fails, and there is nothing to
load. -/
theorem not_keepsOldSave_full :
    ¬ ∀ (os : Os) (alloc : ℕ → Bool) (slot : ℤ) (notes : SaveNotes) (disk : Disk) (m : Machine),
      KeepsOldSave os alloc slot notes disk m := by
  intro h
  have hmem : serializeMemoryMap (hostPages refusingOs emptyMachine.mem.host)
      emptyMachine.mem.st.regions = .ok (writeT (0 : U32)) := rfl
  have halloc : allocate (fun _ => true) ((serializeCpuContext emptyMachine.ctx).length +
      (writeT (0 : U32)).length + (serializeGpuState emptyMachine.gpu).length) = .ok () := by
    rw [allocate, length_serializeCpuContext, length_serializeGpuState, if_neg (by decide),
      if_pos rfl]
  have hdata : newFile refusingOs (fun _ => true) {} emptyMachine = .ok (contextFile {}) := by
    rw [newFile, hmem]
    simp only [ok_bind, halloc]
    rfl
  have hsave : saveThrough refusingOs (fun _ => true) true 0 {} ⟨true, 0, 0⟩
      (.bytes (contextFile {})) emptyMachine = .ok (.DiskFull, .bytes []) := by
    rw [saveThrough_eq_ok (by decide) hdata, Disk.write, if_neg (by decide), if_pos, List.take_zero]
    rw [length_contextFile]
    decide
  have hload := (h refusingOs (fun _ => true) 0 {} ⟨true, 0, 0⟩ emptyMachine (fun _ => true)
    (.bytes (contextFile {})) emptyMachine _ (load_contextFile refusingOs {}) _ _ hsave).1
    (by decide)
  cases hload

end SaveState
