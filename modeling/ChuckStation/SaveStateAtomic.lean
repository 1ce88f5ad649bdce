/-
# Loads that fail

When a load that does not return `Ok` leaves the machine as it was.

The context is written field by field and the memory record by record, each before the
next is read.  So a load that fails behind the checks leaves no trace exactly if what it
had written by then was there before: `LeavesNoTrace`.
-/
import ChuckStation.MemoryTable
import ChuckStation.OperationRuns
import ChuckStation.SaveStateLoad
import ChuckStation.SaveStateRoundTrip

namespace SaveState

open BinaryFormats Memory OperationRuns
open Cpu (CpuContext)

/-! ## The condition -/

/-- The CPU context, the region table and the memory are the same. -/
def Unchanged (m m' : Machine) : Prop :=
  m'.ctx = m.ctx ∧ m'.mem.st.regions = m.mem.st.regions ∧
    m'.mem.host.prot = m.mem.host.prot ∧ m'.mem.host.bytes = m.mem.host.bytes

/-- The records of `n` that are there completely. -/
def readRegions (alloc : ℕ → Bool) : ℕ → BlobReader → List SerializedRegion
  | 0, _ => []
  | n + 1, r =>
    match readRegion alloc r with
    | .error _ => []
    | .ok (record, r) => record :: readRegions alloc n r

/-- The complete records of a memory blob. -/
def completeRecords (alloc : ℕ → Bool) (mem : List Byte) : List SerializedRegion :=
  match readT 32 ⟨mem, 0⟩ with
  | .error _ => []
  | .ok (count, r) => readRegions alloc count.toNat r

/-- The byte a record has for an address. -/
def pageByte (record : SerializedRegion) (a : U64) : Option Byte :=
  if 0 < record.size ∧ record.base ≠ 0 then record.pageData[(a - record.base).toNat]? else none

/-- The byte the last of the records that has one has for an address. -/
def lastByte : List SerializedRegion → U64 → Option Byte
  | [], _ => none
  | record :: records, a => (lastByte records a).or (pageByte record a)

/-- The records whose base is covered by the region table. -/
def coveredRecords (p : Process) (records : List SerializedRegion) : List SerializedRegion :=
  records.filter fun record => (findRegion p record.base).isSome

/-- No memory is mapped for a record: its base is covered or the system refuses. -/
def NotPlaced (os : Os) (p : Process) (record : SerializedRegion) : Prop :=
  findRegion p record.base = none → placement os p record = none

/-- Behind the checks of `Load`: the complete fields of the CPU blob are those of the live
context; and if all are there, no complete record gets memory mapped and the pages of
those that are covered hold, for every address, the byte the memory has. -/
def LeavesNoTrace (os : Os) (alloc : ℕ → Bool) (initialised : Bool) (file : SlotFile)
    (m : Machine) : Prop :=
  ∀ fileData blobs, file = .bytes fileData → initialised = true →
    validate fileData = .ok blobs →
    Agree cpuFields blobs.cpu m.ctx ∧
      (416 ≤ blobs.cpu.length →
        AllReached (restoreRegion os) (NotPlaced os) m.mem (completeRecords alloc blobs.mem) ∧
          ∀ a b, lastByte (coveredRecords m.mem (completeRecords alloc blobs.mem)) a = some b →
            m.mem.host.bytes a = b)

/-! ## Records restored one after the other -/

section Records

variable {os : Os} {alloc : ℕ → Bool} {p p' : Process} {record : SerializedRegion}
  {records : List SerializedRegion}

/-- Whatever the loop returns, it restored the complete records it came to. -/
theorem foldlM_of_deserializeRegions {σ : Type} {f : σ → SerializedRegion → Except HostAbort σ}
    {n : ℕ} {r r' : BlobReader} {s s' : σ} {complete : Bool}
    (h : deserializeRegions alloc f n r s = .ok (complete, s', r')) :
    (readRegions alloc n r).foldlM f s = .ok s' := by
  induction n generalizing r s with
  | zero =>
      cases h
      rfl
  | succ n ih =>
      rw [deserializeRegions] at h
      rw [readRegions]
      cases hread : readRegion alloc r with
      | error e =>
          cases e with
          | refused =>
              simp only [hread] at h
              cases h
              rfl
          | abort e => simp only [hread, reduceCtorEq] at h
      | ok x =>
          obtain ⟨record, r₁⟩ := x
          simp only [hread] at h
          cases hs : f s record with
          | error e => simp only [hs, reduceCtorEq] at h
          | ok s₁ =>
              simp only [hs] at h
              have hrest := ih h
              simp only [List.foldlM_cons, hs]
              exact hrest

theorem foldlM_of_deserializeMemoryMap {σ : Type}
    {f : σ → SerializedRegion → Except HostAbort σ} {mem : List Byte} {r' : BlobReader} {s s' : σ}
    {complete : Bool} (h : deserializeMemoryMap alloc f ⟨mem, 0⟩ s = .ok (complete, s', r')) :
    (completeRecords alloc mem).foldlM f s = .ok s' := by
  unfold deserializeMemoryMap at h
  unfold completeRecords
  cases hread : readT 32 ⟨mem, 0⟩ with
  | error e =>
      cases e with
      | refused =>
          simp only [hread] at h
          cases h
          rfl
      | abort e => simp only [hread, reduceCtorEq] at h
  | ok x =>
      simp only [hread] at h
      exact foldlM_of_deserializeRegions h

theorem pagesOver_apply {bytes : U64 → Byte} {a : U64} :
    pagesOver record record.base bytes a = (pageByte record a).getD (bytes a) := by
  unfold pagesOver pageByte
  split_ifs
  · rfl
  · rfl

theorem findRegion_congr (h : p'.st.regions = p.st.regions) (addr : U64) :
    findRegion p' addr = findRegion p addr := by
  rw [findRegion, h, findRegion]

/-- A run that places nothing: the table and the mappings stay, and every address has the
byte of the last covered record. -/
theorem foldlM_of_notPlaced
    (hall : AllReached (restoreRegion os) (NotPlaced os) p records)
    (hrun : records.foldlM (restoreRegion os) p = .ok p') :
    p'.st.regions = p.st.regions ∧ p'.host.prot = p.host.prot ∧
      ∀ a, p'.host.bytes a = (lastByte (coveredRecords p records) a).getD (p.host.bytes a) := by
  induction records generalizing p with
  | nil =>
      cases hrun
      exact ⟨rfl, rfl, fun a => rfl⟩
  | cons record records ih =>
      obtain ⟨q, hq, hrest⟩ := foldlM_cons_eq_ok hrun
      obtain ⟨hregions, hprot, hbytes⟩ := ih (hall.2 q hq) hrest
      cases restores_of_restoreRegion hq with
      | overwritten r hfind hregionsq hprotq hbytesq _ =>
          have hcovered : coveredRecords q records = coveredRecords p records := by
            simp only [coveredRecords, findRegion_congr hregionsq]
          refine ⟨hregions.trans hregionsq, hprot.trans hprotq, fun a => ?_⟩
          rw [hbytes, hcovered, hbytesq, pagesOver_apply, coveredRecords, coveredRecords,
            List.filter_cons_of_pos (by rw [hfind]; rfl), lastByte]
          cases lastByte (records.filter fun record => (findRegion p record.base).isSome) a <;> rfl
      | skipped hfind _ hregionsq hprotq hbytesq =>
          have hcovered : coveredRecords q records = coveredRecords p records := by
            simp only [coveredRecords, findRegion_congr hregionsq]
          refine ⟨hregions.trans hregionsq, hprot.trans hprotq, fun a => ?_⟩
          rw [hbytes, hcovered, hbytesq, coveredRecords, coveredRecords,
            List.filter_cons_of_neg (by rw [hfind]; simp)]
      | placed base hfind hplace _ _ _ =>
          have hnone := hall.1 hfind
          rw [hplace] at hnone
          cases hnone

/-- The table only grows, and a run over which it does not grow placed nothing. -/
theorem notPlaced_of_length (hrun : records.foldlM (restoreRegion os) p = .ok p') :
    p.st.regions.length ≤ p'.st.regions.length ∧
      (p'.st.regions.length = p.st.regions.length →
        AllReached (restoreRegion os) (NotPlaced os) p records) := by
  induction records generalizing p with
  | nil =>
      cases hrun
      exact ⟨le_rfl, fun _ => trivial⟩
  | cons record records ih =>
      obtain ⟨q, hq, hrest⟩ := foldlM_cons_eq_ok hrun
      obtain ⟨hle, hnext⟩ := ih hrest
      have hsame : q.st.regions = p.st.regions → NotPlaced os p record →
          p.st.regions.length ≤ p'.st.regions.length ∧
            (p'.st.regions.length = p.st.regions.length →
              AllReached (restoreRegion os) (NotPlaced os) p (record :: records)) := by
        intro hregions hnot
        rw [hregions] at hle hnext
        refine ⟨hle, fun heq => ⟨hnot, fun t ht => ?_⟩⟩
        rw [hq] at ht
        cases ht
        exact hnext heq
      cases restores_of_restoreRegion hq with
      | overwritten r hfind hregions _ _ _ =>
          exact hsame hregions fun hnone => by rw [hfind] at hnone; cases hnone
      | skipped hfind hplace hregions _ _ => exact hsame hregions fun _ => hplace
      | placed base _ _ hregions _ _ =>
          rw [hregions, List.length_append, List.length_singleton] at hle
          exact ⟨by omega, fun heq => by omega⟩

/-- **Memory that records leave as it was.** -/
theorem memory_unchanged_iff (hrun : records.foldlM (restoreRegion os) p = .ok p') :
    (p'.st.regions = p.st.regions ∧ p'.host.prot = p.host.prot ∧ p'.host.bytes = p.host.bytes) ↔
      AllReached (restoreRegion os) (NotPlaced os) p records ∧
        ∀ a b, lastByte (coveredRecords p records) a = some b → p.host.bytes a = b := by
  constructor
  · rintro ⟨hregions, -, hbytes⟩
    have hall := (notPlaced_of_length hrun).2 (by rw [hregions])
    refine ⟨hall, fun a b hb => ?_⟩
    have ha := (foldlM_of_notPlaced hall hrun).2.2 a
    rw [hb, Option.getD_some, hbytes] at ha
    exact ha
  · rintro ⟨hall, hpages⟩
    obtain ⟨hregions, hprot, hbytes⟩ := foldlM_of_notPlaced hall hrun
    refine ⟨hregions, hprot, funext fun a => ?_⟩
    rw [hbytes]
    cases hlast : lastByte (coveredRecords p records) a with
    | none => rfl
    | some b => exact (hpages a b hlast).symm

end Records

/-! ## Failed loads -/

section Load

variable {os : Os} {alloc : ℕ → Bool} {initialised : Bool} {file : SlotFile} {m m' : Machine}
  {result : LoadResult} {blobs : Blobs}

theorem length_blob_lt {fileData : List Byte} (h : validate fileData = .ok blobs) :
    blobs.cpu.length < 2 ^ 32 := by
  rw [(length_blobs h).1]
  exact BitVec.isLt _

/-- The CPU part of a load, as `decodeInto` on the blob. -/
theorem deserializeCpuContext_eq (cpu : List Byte) (hlen : cpu.length < 2 ^ 32)
    (ctx : CpuContext) : ∃ r, deserializeCpuContext ⟨cpu, 0⟩ ctx =
      .ok ((decodeInto cpuFields cpu ctx).1, (decodeInto cpuFields cpu ctx).2.1, r) := by
  have h := readFields_eq cpuFields ctx (Nat.zero_le cpu.length)
    (by rw [sum_cpuFields]; omega)
  rw [List.drop_zero] at h
  exact ⟨_, h⟩

/-- **What a failed load leaves.**  A load that returns anything but `Ok` leaves the CPU
context, the region table and the memory as they were exactly under `LeavesNoTrace`. -/
theorem load_unchanged_iff (h : load os alloc initialised file m = .ok (result, m'))
    (hres : result ≠ .Ok) :
    Unchanged m m' ↔ LeavesNoTrace os alloc initialised file m := by
  rcases load_cases h with ⟨-, rfl, hinvalid⟩ | ⟨fileData, blobs, rfl, rfl, hvalid, hrestore⟩
  · -- The checks failed before anything was written.
    refine iff_of_true ⟨rfl, rfl, rfl, rfl⟩ fun fileData blobs hfile hinit hvalid => ?_
    obtain ⟨e, he⟩ := hinvalid fileData hfile hinit
    rw [he] at hvalid
    cases hvalid
  -- The file and its blobs are the only ones that the condition speaks of.
  have hnotrace : LeavesNoTrace os alloc true (.bytes fileData) m ↔
      Agree cpuFields blobs.cpu m.ctx ∧ (416 ≤ blobs.cpu.length →
        AllReached (restoreRegion os) (NotPlaced os) m.mem (completeRecords alloc blobs.mem) ∧
          ∀ a b, lastByte (coveredRecords m.mem (completeRecords alloc blobs.mem)) a = some b →
            m.mem.host.bytes a = b) := by
    constructor
    · intro hall
      exact hall fileData blobs rfl rfl hvalid
    · intro hcond data blobs' hdata _ hvalid'
      cases hdata
      rw [hvalid] at hvalid'
      cases hvalid'
      exact hcond
  rw [hnotrace, ← decodeInto_eq_self_iff pairwise_cpuFields]
  have hcomplete := decodeInto_complete_iff cpuFields blobs.cpu m.ctx
  rw [sum_cpuFields] at hcomplete
  obtain ⟨r, hcpu⟩ := deserializeCpuContext_eq _ (length_blob_lt hvalid) m.ctx
  rw [restore, hcpu] at hrestore
  cases hdec : (decodeInto cpuFields blobs.cpu m.ctx).1 with
  | false =>
      rw [hdec] at hrestore hcomplete
      cases hrestore
      -- The registers that fit have been stored, and the memory is not come to.
      have hshort : ¬ 416 ≤ blobs.cpu.length := fun hle => by simpa using hcomplete.mpr hle
      simp [Unchanged, hshort]
  | true =>
      rw [hdec] at hrestore hcomplete
      have hlong : 416 ≤ blobs.cpu.length := hcomplete.mp rfl
      dsimp only at hrestore
      cases hmem : deserializeMemoryMap alloc (restoreRegion os) ⟨blobs.mem, 0⟩ m.mem with
      | error e => simp only [hmem, reduceCtorEq] at hrestore
      | ok x =>
          obtain ⟨complete, mem, r'⟩ := x
          rw [hmem] at hrestore
          -- What is left to fail writes to neither the context nor the memory.
          have hstate : m' = { m with
              ctx := (decodeInto cpuFields blobs.cpu m.ctx).2.1, mem := mem } := by
            cases complete with
            | false =>
                cases hrestore
                rfl
            | true =>
                dsimp only at hrestore
                cases hgpu : deserializeGpuState ⟨blobs.gpu, 0⟩ with
                | error e => simp only [hgpu, reduceCtorEq] at hrestore
                | ok y =>
                    obtain ⟨done, stats, r''⟩ := y
                    cases done with
                    | false =>
                        simp only [hgpu] at hrestore
                        cases hrestore
                        rfl
                    | true =>
                        simp only [hgpu] at hrestore
                        cases hrestore
                        exact absurd rfl hres
          have hmemory := memory_unchanged_iff (foldlM_of_deserializeMemoryMap hmem)
          rw [hstate, Unchanged]
          simp only [hlong, true_imp_iff]
          exact and_congr_right fun _ => hmemory

end Load

/-! ## A file of one register -/

/-- A machine with nothing in it. -/
def blankMachine : Machine where
  ctx := {}
  mem := ⟨{}, ⟨fun _ => none, fun _ => 0, []⟩⟩
  gpu := {}

/-- A file whose CPU blob holds one register, and whose checks pass. -/
def oneRegisterFile : List Byte := buildFile {} (writeT (1 : U64)) [] []

theorem allocate_oneRegister : allocate (fun _ => true) oneRegisterFile.length = .ok () := by
  have hlen : oneRegisterFile.length = 432 := by
    rw [oneRegisterFile, buildFile, List.length_append, length_header]
    rfl
  rw [hlen]
  rfl

theorem validate_oneRegister : validate oneRegisterFile = .ok ⟨writeT (1 : U64), [], []⟩ :=
  validate_buildFile _ (by decide) (by decide) (by decide)

theorem load_oneRegister :
    load refusingOs (fun _ => true) true (.bytes oneRegisterFile) blankMachine =
      .ok (.CorruptFile, { blankMachine with ctx := blankMachine.ctx.setGpr 0 1 }) := by
  obtain ⟨r, hcpu⟩ := deserializeCpuContext_eq (writeT (1 : U64)) (by decide)
    blankMachine.ctx
  have hdec : decodeInto cpuFields (writeT (1 : U64)) blankMachine.ctx =
      (false, blankMachine.ctx.setGpr 0 1, []) := rfl
  rw [load_of_validate allocate_oneRegister validate_oneRegister, restore, hcpu, hdec]

/-- What it leaves is what the condition says. -/
theorem load_unchanged_iff_oneRegister :
    Unchanged blankMachine { blankMachine with ctx := blankMachine.ctx.setGpr 0 1 } ↔
      LeavesNoTrace refusingOs (fun _ => true) true (.bytes oneRegisterFile) blankMachine :=
  load_unchanged_iff load_oneRegister (by decide)

/-- **A load that fails and leaves a trace**: the first register is overwritten before the
second is found missing. -/
theorem not_unchanged_oneRegister :
    ∃ m', load refusingOs (fun _ => true) true (.bytes oneRegisterFile) blankMachine =
        .ok (.CorruptFile, m') ∧ ¬ Unchanged blankMachine m' := by
  refine ⟨_, load_oneRegister, fun h => ?_⟩
  have hreg := congrArg (fun ctx : CpuContext => ctx.gpr 0) h.1
  simp [blankMachine, CpuContext.setGpr] at hreg

end SaveState
