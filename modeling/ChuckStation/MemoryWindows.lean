/-
# The memory manager on Windows

`Memory.cpp` where `_WIN32` is defined: the same table of regions, over `VirtualAlloc`,
`VirtualProtect` and `VirtualFree`.  The operating system answers every call from the history of
calls.
-/
import ChuckStation.MemoryManager

namespace Memory.Windows

/-! ## The operating system -/

/-- The allocation types that are asked for. -/
inductive AllocationType where
  | reserve
  | commit
  | reserveCommit
  deriving DecidableEq, Repr

/-- A call to the operating system or its allocator, with the answer it got; a null pointer is a
refusal. -/
inductive SysCall where
  | virtualAlloc (address size : U64) (type : AllocationType) (prot : U32) (answer : U64)
  | virtualProtect (address size : U64) (prot : U32) (ok : Bool)
  | virtualFree (address : U64) (ok : Bool)
  | alignedMalloc (size align : U64) (answer : U64)
  | alignedFree (ptr : U64)
  deriving DecidableEq, Repr

/-- The operating system. -/
structure System where
  virtualAlloc : List SysCall → U64 → U64 → AllocationType → U32 → U64
  virtualProtect : List SysCall → U64 → U64 → U32 → Bool
  virtualFree : List SysCall → U64 → Bool
  alignedMalloc : List SysCall → U64 → U64 → U64

/-- The manager's state, and the calls made so far, last one first. -/
structure Process where
  st : MemState := {}
  calls : List SysCall := []

/-- `ProtToWin`. -/
def protToWin (p : Prot) : U32 :=
  if p = Prot.None then 0x01
  else if p = Prot.Read then 0x02
  else if p = Prot.RW then 0x04
  else if p = Prot.RX then 0x20
  else if p = Prot.RWX then 0x40
  else if p &&& Prot.Exec ≠ Prot.None ∧ p &&& Prot.Write ≠ Prot.None then 0x40
  else if p &&& Prot.Exec ≠ Prot.None then 0x20
  else if p &&& Prot.Write ≠ Prot.None then 0x04
  else 0x02

section Calls

variable (os : System)

def sysVirtualAlloc (address size : U64) (type : AllocationType) (prot : U32)
    (calls : List SysCall) : U64 × List SysCall :=
  let answer := os.virtualAlloc calls address size type prot
  (answer, .virtualAlloc address size type prot answer :: calls)

def sysVirtualProtect (address size : U64) (prot : U32) (calls : List SysCall) :
    Bool × List SysCall :=
  let ok := os.virtualProtect calls address size prot
  (ok, .virtualProtect address size prot ok :: calls)

/-- `VirtualFree` with `MEM_RELEASE`: the whole of what is reserved at the address. -/
def sysVirtualFree (address : U64) (calls : List SysCall) : Bool × List SysCall :=
  let ok := os.virtualFree calls address
  (ok, .virtualFree address ok :: calls)

/-! ## Virtual memory -/

/-- `Reserve`: the base, 0 on failure. -/
def reserve (hint size : U64) (tag : List Byte) (p : Process) : U64 × Process :=
  let size := alignUp size PAGE_SIZE
  let first := sysVirtualAlloc os hint size .reserve 0x01 p.calls
  let second := if first.1 = 0 then sysVirtualAlloc os 0 size .reserve 0x01 first.2 else first
  if second.1 = 0 then (0, { p with calls := second.2 })
  else
    let r : Region := { base := second.1, size := size, tag := tag }
    (second.1, ⟨addRegion p.st r, second.2⟩)

/-- `Commit`. -/
def commit (base size : U64) (prot : Prot) (p : Process) : Bool × Process :=
  let size := alignUp size PAGE_SIZE
  let answer := sysVirtualAlloc os base size .commit (protToWin prot) p.calls
  if answer.1 = 0 then (false, { p with calls := answer.2 })
  else
    let mark := fun r : Region => { r with committed := true, prot := prot }
    (true, ⟨p.st.withRegions (modifyRegion base mark p.st.regions), answer.2⟩)

/-- `Map`: the base, 0 on failure. -/
def map (hint size : U64) (prot : Prot) (type : AllocType) (tag : List Byte) (p : Process) :
    U64 × Process :=
  let size := alignUp size PAGE_SIZE
  let winProt := protToWin prot
  let first := sysVirtualAlloc os hint size .reserveCommit winProt p.calls
  let second :=
    if first.1 = 0 ∧ hint ≠ 0 then sysVirtualAlloc os 0 size .reserveCommit winProt first.2
    else first
  if second.1 = 0 then (0, { p with calls := second.2 })
  else
    let r : Region :=
      { base := second.1, size := size, prot := prot, type := type, tag := tag, committed := true }
    let st := addRegion p.st r
    let st := { st with
      stats := { st.stats with totalCommitted := st.stats.totalCommitted + size } }
    (second.1, ⟨st, second.2⟩)

/-- `Protect`. -/
def protect (base size : U64) (prot : Prot) (p : Process) : Bool × Process :=
  match sysVirtualProtect os base size (protToWin prot) p.calls with
  | (false, calls) => (false, { p with calls := calls })
  | (true, calls) =>
    let mark := fun r : Region => { r with prot := prot }
    (true, ⟨p.st.withRegions (modifyRegion base mark p.st.regions), calls⟩)

/-- `Unmap`; the size is not used. -/
def unmap (base _size : U64) (p : Process) : Bool × Process :=
  match sysVirtualFree os base p.calls with
  | (false, calls) => (false, { p with calls := calls })
  | (true, calls) => (true, ⟨removeRegion p.st base, calls⟩)

/-! ## Aligned heap -/

/-- `Alloc`: the pointer, 0 on failure. -/
def alloc (size align : U64) (type : AllocType) (p : Process) : U64 × Process :=
  let align := if align < 8 then 8 else align
  let ptr := os.alignedMalloc p.calls size align
  let calls := .alignedMalloc size align ptr :: p.calls
  if ptr = 0 then (0, { p with calls := calls })
  else
    let others := p.st.heapAllocs.filter fun e => e.1 != ptr
    let st := { p.st with
      heapAllocs := (ptr, { size := size, type := type }) :: others
      stats := { p.st.stats with totalAllocated := p.st.stats.totalAllocated + size } }
    (ptr, ⟨st, calls⟩)

/-- `Free`. -/
def free (ptr : U64) (p : Process) : Process :=
  if ptr = 0 then p
  else match p.st.heapAllocs.find? fun e => e.1 == ptr with
    | none => p
    | some e =>
      let st := { p.st with
        heapAllocs := p.st.heapAllocs.eraseP fun e => e.1 == ptr
        stats := { p.st.stats with totalAllocated := p.st.stats.totalAllocated - e.2.size } }
      ⟨st, .alignedFree ptr :: p.calls⟩

/-! ## Lifecycle -/

/-- `VirtualFree` of every committed region, whatever it answers. -/
def freeCommitted (regions : List Region) (calls : List SysCall) : List SysCall :=
  (regions.filter fun r => r.committed).foldl (fun calls r => (sysVirtualFree os r.base calls).2)
    calls

/-- `Init`. -/
def init (p : Process) : Process := { p with st := {} }

/-- `Reset`: the heap blocks are forgotten, not freed. -/
def reset (p : Process) : Process := ⟨{}, freeCommitted os p.st.regions p.calls⟩

/-- `Shutdown`. -/
def shutdown (p : Process) : Process :=
  let calls := freeCommitted os p.st.regions p.calls
  ⟨{}, p.st.heapAllocs.foldl (fun calls e => .alignedFree e.1 :: calls) calls⟩

end Calls

end Memory.Windows
