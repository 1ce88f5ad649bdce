/-
# The memory manager

`Memory.cpp` on its POSIX path: the table of regions with its statistics, and the calls
it makes to the operating system.

The operating system is a parameter: it answers every call from the address space of the
process and the history of calls, so any pattern of answers over a run is some `Os`.
`Os.Conforms` is what the manual of `mmap` promises about its answers.
-/
import ChuckStation.Alignment
import ChuckStation.Bytes

namespace Memory

/-! ## Regions and statistics -/

abbrev PAGE_SIZE : U64 := 0x4000

/-- `enum class Prot : uint32_t`, a set of bits. -/
abbrev Prot := U32

namespace Prot

abbrev None : Prot := 0
abbrev Read : Prot := 1
abbrev Write : Prot := 2
abbrev Exec : Prot := 4
abbrev RW : Prot := Read ||| Write
abbrev RX : Prot := Read ||| Exec
abbrev RWX : Prot := Read ||| Write ||| Exec

end Prot

/-- `enum class AllocType : uint8_t`. -/
abbrev AllocType := Byte

namespace AllocType

abbrev Unknown : AllocType := 0
abbrev Code : AllocType := 1
abbrev Data : AllocType := 2
abbrev Stack : AllocType := 3
abbrev Heap : AllocType := 4
abbrev FlexHeap : AllocType := 5
abbrev GPU : AllocType := 6
abbrev System : AllocType := 7

end AllocType

/-- `struct Region`. -/
structure Region where
  base : U64 := 0
  size : U64 := 0
  prot : Prot := Prot.None
  type : AllocType := AllocType.Unknown
  tag : List Byte := []
  committed : Bool := false
  deriving DecidableEq, Repr

/-- `struct Stats`. -/
structure Stats where
  totalReserved : U64 := 0
  totalCommitted : U64 := 0
  totalAllocated : U64 := 0
  regionCount : U32 := 0
  peakRegionCount : U32 := 0
  deriving DecidableEq, Repr

/-- `struct HeapAlloc`, without the pointer it is filed under. -/
structure HeapAlloc where
  size : U64 := 0
  type : AllocType := AllocType.Unknown
  deriving DecidableEq, Repr

/-- `struct MemState`. -/
structure MemState where
  regions : List Region := []
  heapAllocs : List (U64 × HeapAlloc) := []
  stats : Stats := {}
  deriving DecidableEq, Repr

/-! ## The host process -/

/-- What ends the host process instead of an answer. -/
inductive HostAbort where
  | lengthError
  | badAlloc
  | outOfBounds
  | segfault
  deriving DecidableEq, Repr

/-- A call to the operating system or its allocator, with the answer it got. -/
inductive HostCall where
  | mmap (hint size : U64) (prot : Prot) (fixed : Bool) (answer : Option U64)
  | mprotect (base size : U64) (prot : Prot) (ok : Bool)
  | munmap (base size : U64) (ok : Bool)
  | memalign (align size : U64) (answer : Option U64)
  | free (ptr : U64)
  deriving DecidableEq, Repr

/-- The address space of the host process: the protection of every mapped address, the
bytes, and the calls made so far, last one first. -/
@[ext] structure Host where
  prot : U64 → Option Prot
  bytes : U64 → Byte
  calls : List HostCall := []

namespace Host

/-- Give the `n` addresses from `base` on the protection `p`, or unmap them. -/
def setProt (h : Host) (base : U64) (n : ℕ) (p : Option Prot) : Host :=
  { h with prot := fun a => if (a - base).toNat < n then p else h.prot a }

/-- A new private anonymous mapping: `n` zero bytes from `base` on. -/
def mapZero (h : Host) (base : U64) (n : ℕ) (p : Prot) : Host :=
  { h.setProt base n (some p) with bytes := ByteStore.write h.bytes base (List.replicate n 0) }

/-- Record a call. -/
def record (h : Host) (call : HostCall) : Host := { h with calls := call :: h.calls }

/-- Every address of the range is mapped with a protection that meets `ok`. -/
def allows (h : Host) (ok : Prot → Bool) (base : U64) (n : ℕ) : Prop :=
  ∀ i < n, ∃ p, h.prot (base + BitVec.ofNat 64 i) = some p ∧ ok p = true

instance (h : Host) (ok : Prot → Bool) (base : U64) (n : ℕ) :
    Decidable (h.allows ok base n) :=
  decidable_of_iff (∀ i < n, (h.prot (base + BitVec.ofNat 64 i)).any ok = true) <| by
    simp only [allows, Option.any_eq_true]

/-- Every address of the range is mapped with protection `p`. -/
def MappedWith (h : Host) (base : U64) (n : ℕ) (p : Prot) : Prop :=
  ∀ i < n, h.prot (base + BitVec.ofNat 64 i) = some p

/-- No address of the range is mapped. -/
def Unmapped (h : Host) (base : U64) (n : ℕ) : Prop :=
  ∀ i < n, h.prot (base + BitVec.ofNat 64 i) = none

instance (h : Host) (base : U64) (n : ℕ) : Decidable (h.Unmapped base n) :=
  inferInstanceAs (Decidable (∀ i < n, h.prot (base + BitVec.ofNat 64 i) = none))

section Lemmas

variable {h : Host} {base a : U64} {n : ℕ}

theorem setProt_prot_of_lt {p : Option Prot} (ha : (a - base).toNat < n) :
    (h.setProt base n p).prot a = p := if_pos ha

theorem mapZero_prot_of_lt {p : Prot} (ha : (a - base).toNat < n) :
    (h.mapZero base n p).prot a = some p := if_pos ha

theorem Unmapped.prot_eq_none (hfresh : h.Unmapped base n) (ha : (a - base).toNat < n) :
    h.prot a = none := by
  have hnone := hfresh _ ha
  rwa [ByteStore.add_ofNat_toNat_sub] at hnone

/-- A fresh mapping leaves alone what is mapped. -/
theorem mapZero_prot_of_mapped {p : Prot} (hfresh : h.Unmapped base n) (ha : h.prot a ≠ none) :
    (h.mapZero base n p).prot a = h.prot a :=
  if_neg fun hin => ha (hfresh.prot_eq_none hin)

@[simp] theorem record_prot (call : HostCall) : (h.record call).prot = h.prot := rfl
@[simp] theorem record_bytes (call : HostCall) : (h.record call).bytes = h.bytes := rfl

end Lemmas

end Host

/-- The host operating system, and which protections let the processor read a page
(a readable page always; for the others processors differ).  An `mprotect` that fails may
have changed some pages before it came to the one it failed at: `mprotectPart` bytes. -/
structure Os where
  mmap : Host → U64 → U64 → Prot → Bool → Option U64
  mprotect : Host → U64 → U64 → Prot → Bool
  mprotectPart : Host → U64 → U64 → Prot → ℕ := fun _ _ _ _ => 0
  munmap : Host → U64 → U64 → Bool
  memalign : Host → U64 → U64 → Option U64
  canRead : Prot → Bool

/-- What `mmap` promises: a mapping is not empty, ends below the end of the address space,
is no null pointer and never covers an address that was mapped already. -/
structure Os.Conforms (os : Os) : Prop where
  nonempty : ∀ h hint size prot fixed a, os.mmap h hint size prot fixed = some a → size ≠ 0
  noWrap : ∀ h hint size prot fixed a, os.mmap h hint size prot fixed = some a →
    a.toNat + size.toNat < 2 ^ 64
  nonnull : ∀ h hint size prot fixed a, os.mmap h hint size prot fixed = some a → a ≠ 0
  fresh : ∀ h hint size prot fixed a, os.mmap h hint size prot fixed = some a →
    h.Unmapped a size.toNat

/-- The processor lets a page be written if its protection says so. -/
def canWrite (p : Prot) : Bool := (p &&& Prot.Write) != Prot.None

/-- The manager's state and the process it runs in. -/
structure Process where
  st : MemState
  host : Host

/-! ## Platform helpers -/

/-- `ProtToMmap`. -/
def protToMmap (p : Prot) : Prot :=
  let r : Prot := 0
  let r := if p &&& Prot.Read ≠ Prot.None then r ||| 1 else r
  let r := if p &&& Prot.Write ≠ Prot.None then r ||| 2 else r
  if p &&& Prot.Exec ≠ Prot.None then r ||| 4 else r

/-- `AlignUp`. -/
def alignUp (v align : U64) : U64 := (v + align - 1) &&& ~~~(align - 1)

/-- The kernel rounds the length of `mprotect` and `munmap` up to its own pages. -/
def kernelPages (size : U64) : ℕ := (size.toNat + 0xFFF) / 0x1000 * 0x1000

/-- `mmap` of private anonymous memory: the address (or `MAP_FAILED`) and the process. -/
def sysMmap (os : Os) (hint size : U64) (prot : Prot) (fixed : Bool) (h : Host) :
    Option U64 × Host :=
  let answer := os.mmap h hint size prot fixed
  let h' := match answer with
    | some base => h.mapZero base size.toNat prot
    | none => h
  (answer, h'.record (.mmap hint size prot fixed answer))

def sysMprotect (os : Os) (base size : U64) (prot : Prot) (h : Host) : Bool × Host :=
  let ok := os.mprotect h base size prot
  let changed := if ok then kernelPages size else os.mprotectPart h base size prot
  let h' := h.setProt base changed (some prot)
  (ok, h'.record (.mprotect base size prot ok))

def sysMunmap (os : Os) (base size : U64) (h : Host) : Bool × Host :=
  let ok := os.munmap h base size
  let h' := if ok then h.setProt base (kernelPages size) none else h
  (ok, h'.record (.munmap base size ok))

/-! ## The region table -/

/-- `AddRegion`. -/
def addRegion (st : MemState) (r : Region) : MemState :=
  let count := st.stats.regionCount + 1
  { st with
    regions := st.regions ++ [r]
    stats := { st.stats with
      regionCount := count
      peakRegionCount :=
        if count > st.stats.peakRegionCount then count else st.stats.peakRegionCount
      totalReserved := st.stats.totalReserved + r.size
      totalCommitted := st.stats.totalCommitted + if r.committed then r.size else 0 } }

/-- `RemoveRegion`: the first region at `base`. -/
def removeRegion (st : MemState) (base : U64) : MemState :=
  match st.regions.find? fun r => r.base == base with
  | none => st
  | some r =>
    { st with
      regions := st.regions.eraseP fun r => r.base == base
      stats := { st.stats with
        totalReserved := st.stats.totalReserved - r.size
        totalCommitted := st.stats.totalCommitted - if r.committed then r.size else 0
        regionCount := st.stats.regionCount - 1 } }

/-- Change the first region at `base`, if there is one. -/
def modifyRegion (base : U64) (f : Region → Region) : List Region → List Region
  | [] => []
  | r :: rs => if r.base == base then f r :: rs else r :: modifyRegion base f rs

/-- The manager's lists after `f`. -/
def MemState.withRegions (st : MemState) (regions : List Region) : MemState :=
  { st with regions := regions }

/-! ## Virtual memory -/

/-- `Reserve`: the base, 0 on failure. -/
def reserve (os : Os) (hint size : U64) (tag : List Byte) (p : Process) : U64 × Process :=
  let size := alignUp size PAGE_SIZE
  let first := sysMmap os hint size Prot.None (hint != 0) p.host
  let second :=
    if first.1.isNone && hint != 0 then sysMmap os 0 size Prot.None false first.2 else first
  match second with
  | (none, host) => (0, { p with host := host })
  | (some base, host) =>
    let r : Region := { base := base, size := size, tag := tag }
    (base, ⟨addRegion p.st r, host⟩)

/-- `Commit`.  The region is marked before the mark is asked for, so no size is added. -/
def commit (os : Os) (base size : U64) (prot : Prot) (p : Process) : Bool × Process :=
  let size := alignUp size PAGE_SIZE
  match sysMprotect os base size (protToMmap prot) p.host with
  | (false, host) => (false, { p with host := host })
  | (true, host) =>
    let mark := fun r : Region => { r with committed := true, prot := prot }
    (true, ⟨p.st.withRegions (modifyRegion base mark p.st.regions), host⟩)

/-- `Map`: the base, 0 on failure.  The hint is no more than one. -/
def map (os : Os) (hint size : U64) (prot : Prot) (type : AllocType) (tag : List Byte)
    (p : Process) : U64 × Process :=
  let size := alignUp size PAGE_SIZE
  match sysMmap os hint size (protToMmap prot) false p.host with
  | (none, host) => (0, { p with host := host })
  | (some base, host) =>
    let r : Region :=
      { base := base, size := size, prot := prot, type := type, tag := tag, committed := true }
    let st := addRegion p.st r
    let st := { st with
      stats := { st.stats with totalCommitted := st.stats.totalCommitted + size } }
    (base, ⟨st, host⟩)

/-- `Protect`. -/
def protect (os : Os) (base size : U64) (prot : Prot) (p : Process) : Bool × Process :=
  match sysMprotect os base size (protToMmap prot) p.host with
  | (false, host) => (false, { p with host := host })
  | (true, host) =>
    let mark := fun r : Region => { r with prot := prot }
    (true, ⟨p.st.withRegions (modifyRegion base mark p.st.regions), host⟩)

/-- `Unmap`. -/
def unmap (os : Os) (base size : U64) (p : Process) : Bool × Process :=
  match sysMunmap os base size p.host with
  | (false, host) => (false, { p with host := host })
  | (true, host) => (true, ⟨removeRegion p.st base, host⟩)

/-! ## Aligned heap -/

/-- `Alloc`: the pointer, 0 on failure. -/
def alloc (os : Os) (size align : U64) (type : AllocType) (p : Process) : U64 × Process :=
  let align := if align < 8 then 8 else align
  let answer := os.memalign p.host align size
  let host := p.host.record (.memalign align size answer)
  match answer with
  | none => (0, { p with host := host })
  | some ptr =>
    let others := p.st.heapAllocs.filter fun e => e.1 != ptr
    let st := { p.st with
      heapAllocs := (ptr, { size := size, type := type }) :: others
      stats := { p.st.stats with totalAllocated := p.st.stats.totalAllocated + size } }
    (ptr, ⟨st, host⟩)

/-- `Free`. -/
def free (ptr : U64) (p : Process) : Process :=
  if ptr = 0 then p
  else match p.st.heapAllocs.find? fun e => e.1 == ptr with
    | none => p
    | some e =>
      let st := { p.st with
        heapAllocs := p.st.heapAllocs.eraseP fun e => e.1 == ptr
        stats := { p.st.stats with totalAllocated := p.st.stats.totalAllocated - e.2.size } }
      ⟨st, p.host.record (.free ptr)⟩

/-! ## Lifecycle -/

/-- `munmap` of every committed region, whatever it answers. -/
def unmapCommitted (os : Os) (regions : List Region) (h : Host) : Host :=
  (regions.filter fun r => r.committed).foldl (fun h r => (sysMunmap os r.base r.size h).2) h

/-- `Init`. -/
def init (p : Process) : Process := { p with st := {} }

/-- `Reset`: the heap blocks are forgotten, not freed. -/
def reset (os : Os) (p : Process) : Process :=
  ⟨{}, unmapCommitted os p.st.regions p.host⟩

/-- `Shutdown`. -/
def shutdown (os : Os) (p : Process) : Process :=
  let host := unmapCommitted os p.st.regions p.host
  ⟨{}, p.st.heapAllocs.foldl (fun h e => h.record (.free e.1)) host⟩

/-! ## Queries -/

/-- `addr >= r.base && addr < r.base + r.size`; the sum wraps. -/
def Region.covers (r : Region) (addr : U64) : Bool :=
  r.base ≤ addr && addr < r.base + r.size

/-- `FindRegion`. -/
def findRegion (p : Process) (addr : U64) : Option Region :=
  p.st.regions.find? fun r => r.covers addr

/-- `HasProt`: the first region that covers the range decides; both sums wrap. -/
def hasProt (p : Process) (base size : U64) (required : Prot) : Bool :=
  match p.st.regions.find? fun r => r.base ≤ base && base + size ≤ r.base + r.size with
  | some r => r.committed && (r.prot &&& required) == required
  | none => false

/-! ## What `Map` does -/

section Map

variable {os : Os} {hint size : U64} {prot : Prot} {p : Process}

/-- `Map` refused. -/
theorem map_of_none (type : AllocType) (tag : List Byte)
    (h : os.mmap p.host hint (alignUp size PAGE_SIZE) (protToMmap prot) false = none) :
    map os hint size prot type tag p = (0, { p with
      host := p.host.record
        (.mmap hint (alignUp size PAGE_SIZE) (protToMmap prot) false none) }) := by
  simp only [map, sysMmap, h]

/-- `Map` granted: one more region, and the mapping behind it. -/
theorem map_of_some {base : U64} (type : AllocType) (tag : List Byte)
    (h : os.mmap p.host hint (alignUp size PAGE_SIZE) (protToMmap prot) false = some base) :
    ∃ p', map os hint size prot type tag p = (base, p') ∧
      p'.st.regions = p.st.regions ++
        [⟨base, alignUp size PAGE_SIZE, prot, type, tag, true⟩] ∧
      p'.host = (p.host.mapZero base (alignUp size PAGE_SIZE).toNat (protToMmap prot)).record
        (.mmap hint (alignUp size PAGE_SIZE) (protToMmap prot) false (some base)) := by
  refine ⟨_, by simp only [map, sysMmap, h]; rfl, rfl, rfl⟩

/-- `Map` granted: the size is counted by `addRegion` and once more. -/
theorem map_totalCommitted {base : U64} (type : AllocType) (tag : List Byte)
    (h : os.mmap p.host hint (alignUp size PAGE_SIZE) (protToMmap prot) false = some base) :
    (map os hint size prot type tag p).2.st.stats.totalCommitted =
      p.st.stats.totalCommitted + alignUp size PAGE_SIZE + alignUp size PAGE_SIZE := by
  simp only [map, sysMmap, h, addRegion, if_true]

end Map

/-! ## What `Protect` does -/

/-- `Protect` granted: the first region at the base and the pages get the protection. -/
theorem protect_of_true (os : Os) (base size : U64) (prot : Prot) (p : Process)
    (h : os.mprotect p.host base size (protToMmap prot) = true) :
    ∃ p', protect os base size prot p = (true, p') ∧
      p'.st.regions = modifyRegion base (fun r => { r with prot := prot }) p.st.regions ∧
      p'.host = (p.host.setProt base (kernelPages size) (some (protToMmap prot))).record
        (.mprotect base size (protToMmap prot) true) := by
  refine ⟨_, by simp only [protect, sysMprotect, h]; rfl, rfl, rfl⟩

end Memory
