/-
# The guest CPU context

The register file, flags and step results of the x86-64 interpreter
(`Cpu.h`), and the guest memory it runs over.

The guest address space is the host's: `GuestRead` and `GuestWrite` ask
`Memory::IsReadable` / `Memory::IsWritable` for the range and then copy the bytes.
Which ranges these two accept is a parameter of the interpreter, so the memory is a
byte store together with two arbitrary range predicates.
-/
import ChuckStation.Bytes

namespace Cpu

/-! ## Registers and flags -/

/-- Index of a general-purpose register, in the order of `enum class Reg`. -/
abbrev RegIdx := Fin 16

namespace Reg

abbrev RAX : RegIdx := 0
abbrev RCX : RegIdx := 1
abbrev RDX : RegIdx := 2
abbrev RSP : RegIdx := 4
abbrev RBP : RegIdx := 5

end Reg

namespace Flags

abbrev CF : U64 := 0x001
abbrev PF : U64 := 0x004
abbrev AF : U64 := 0x010
abbrev ZF : U64 := 0x040
abbrev SF : U64 := 0x080
abbrev OF : U64 := 0x800

end Flags

/-- `struct CpuContext`. -/
@[ext] structure CpuContext where
  gpr : RegIdx → U64 := fun _ => 0
  rip : U64 := 0
  rflags : U64 := 0
  cs : U64 := 0x33
  ss : U64 := 0x2b
  xmm : Fin 16 → Fin 16 → Byte := fun _ _ => 0

namespace CpuContext

/-- `flag(mask)`. -/
def flag (ctx : CpuContext) (mask : U64) : Bool := (ctx.rflags &&& mask) != 0

/-- `set_flag(mask, v)`. -/
def setFlag (ctx : CpuContext) (mask : U64) (v : Bool) : CpuContext :=
  { ctx with rflags := if v then ctx.rflags ||| mask else ctx.rflags &&& ~~~mask }

/-- `ctx.gpr[r] = v`. -/
def setGpr (ctx : CpuContext) (r : RegIdx) (v : U64) : CpuContext :=
  { ctx with gpr := Function.update ctx.gpr r v }

/-- `ctx.rip += n`. -/
def advance (ctx : CpuContext) (n : ℕ) : CpuContext :=
  { ctx with rip := ctx.rip + BitVec.ofNat 64 n }

/-- `ctx.rip = v`. -/
def setRip (ctx : CpuContext) (v : U64) : CpuContext := { ctx with rip := v }

section FieldLemmas

variable (ctx : CpuContext) (mask v : U64) (b : Bool) (r : RegIdx) (n : ℕ)

@[simp] theorem setFlag_gpr : (ctx.setFlag mask b).gpr = ctx.gpr := rfl
@[simp] theorem setFlag_rip : (ctx.setFlag mask b).rip = ctx.rip := rfl
@[simp] theorem setGpr_gpr : (ctx.setGpr r v).gpr = Function.update ctx.gpr r v := rfl
@[simp] theorem setGpr_rip : (ctx.setGpr r v).rip = ctx.rip := rfl
@[simp] theorem setGpr_rflags : (ctx.setGpr r v).rflags = ctx.rflags := rfl
@[simp] theorem advance_gpr : (ctx.advance n).gpr = ctx.gpr := rfl
@[simp] theorem advance_rip : (ctx.advance n).rip = ctx.rip + BitVec.ofNat 64 n := rfl
@[simp] theorem advance_rflags : (ctx.advance n).rflags = ctx.rflags := rfl
@[simp] theorem setRip_gpr : (ctx.setRip v).gpr = ctx.gpr := rfl
@[simp] theorem setRip_rip : (ctx.setRip v).rip = v := rfl
@[simp] theorem setRip_rflags : (ctx.setRip v).rflags = ctx.rflags := rfl

end FieldLemmas

end CpuContext

/-! ## Step results, call frames and counters -/

/-- `enum class StepResult`. -/
inductive StepResult where
  | Ok
  | Breakpoint
  | Syscall
  | Fault
  | Halt
  | Unimplemented
  | Exit
  deriving DecidableEq, Repr

/-- `struct CallFrame`. -/
@[ext] structure CallFrame where
  returnAddr : U64 := 0
  frameBase : U64 := 0
  symbol : String := ""
  deriving DecidableEq, Repr

/-- `struct InterpreterStats`. -/
structure InterpreterStats where
  instructionsExecuted : U64 := 0
  syscallsDispatched : U64 := 0
  faults : U64 := 0
  breakpointsHit : U64 := 0
  unimplemented : U64 := 0
  deriving DecidableEq, Repr

/-! ## Guest memory -/

/-- Guest memory as the interpreter sees it: the bytes, and which ranges
`Memory::IsReadable` and `Memory::IsWritable` accept. -/
structure GuestMemory where
  bytes : U64 → Byte
  readable : U64 → ℕ → Bool
  writable : U64 → ℕ → Bool

/-- Kind of a guest data access. -/
inductive AccessKind where
  | load
  | store
  deriving DecidableEq, Repr

/-- A guest data access that was carried out: `size` bytes from `addr` on. -/
structure Access where
  kind : AccessKind
  addr : U64
  size : ℕ
  deriving DecidableEq, Repr

namespace GuestMemory

/-- `GuestRead(addr, dst, n)`: the bytes read, or nothing if the range is refused. -/
def guestRead (mem : GuestMemory) (addr : U64) (n : ℕ) : Option (List Byte) :=
  if mem.readable addr n then some (ByteStore.read mem.bytes addr n) else none

/-- `GuestWrite(addr, src, n)`: the memory afterwards, or nothing if the range is refused. -/
def guestWrite (mem : GuestMemory) (addr : U64) (src : List Byte) : Option GuestMemory :=
  if mem.writable addr src.length then
    some { mem with bytes := ByteStore.write mem.bytes addr src }
  else none

/-- `GuestRead<T>` for an unsigned word of `n` bytes. -/
def guestReadWord (w n : ℕ) (mem : GuestMemory) (addr : U64) : Option (BitVec w) :=
  (mem.guestRead addr n).map (LittleEndian.ofBytes w)

/-- `GuestWrite<T>` for an unsigned word of `n` bytes. -/
def guestWriteWord {w : ℕ} (n : ℕ) (mem : GuestMemory) (addr : U64) (v : BitVec w) :
    Option GuestMemory :=
  mem.guestWrite addr (LittleEndian.toBytes n v)

/-- The 64-bit guest word at `addr`. -/
def word64 (mem : GuestMemory) (addr : U64) : U64 :=
  LittleEndian.ofBytes 64 (ByteStore.read mem.bytes addr 8)

theorem guestReadWord_eq_some_iff {w n : ℕ} {mem : GuestMemory} {addr : U64} {v : BitVec w} :
    mem.guestReadWord w n addr = some v ↔
      mem.readable addr n = true ∧
        LittleEndian.ofBytes w (ByteStore.read mem.bytes addr n) = v := by
  simp [guestReadWord, guestRead]

theorem guestReadWord_eq_none_iff {w n : ℕ} {mem : GuestMemory} {addr : U64} :
    mem.guestReadWord w n addr = none ↔ mem.readable addr n = false := by
  simp [guestReadWord, guestRead]

theorem guestWriteWord_eq_some_iff {w n : ℕ} {mem mem' : GuestMemory} {addr : U64}
    {v : BitVec w} :
    mem.guestWriteWord n addr v = some mem' ↔
      mem.writable addr n = true ∧
        { mem with bytes := ByteStore.write mem.bytes addr (LittleEndian.toBytes n v) } = mem' := by
  simp [guestWriteWord, guestWrite]

theorem guestWriteWord_eq_none_iff {w n : ℕ} {mem : GuestMemory} {addr : U64} {v : BitVec w} :
    mem.guestWriteWord n addr v = none ↔ mem.writable addr n = false := by
  simp [guestWriteWord, guestWrite]

/-- The word just written is read back. -/
theorem word64_write_self (bytes : U64 → Byte) (readable writable : U64 → ℕ → Bool)
    (addr v : U64) :
    word64 ⟨ByteStore.write bytes addr (LittleEndian.toBytes 8 v), readable, writable⟩ addr =
      v := by
  have hread := ByteStore.read_write_self bytes addr (LittleEndian.toBytes 8 v) (by simp)
  rw [LittleEndian.length_toBytes] at hread
  rw [word64, hread, LittleEndian.ofBytes_toBytes 8 v (by norm_num)]

/-- A word whose bytes were not written over keeps its value. -/
theorem word64_write_of_disjoint (bytes : U64 → Byte) (readable writable : U64 → ℕ → Bool)
    (a b v : U64) (hdis : ∀ i < 8, 8 ≤ ((b + BitVec.ofNat 64 i) - a).toNat) :
    word64 ⟨ByteStore.write bytes a (LittleEndian.toBytes 8 v), readable, writable⟩ b =
      word64 ⟨bytes, readable, writable⟩ b := by
  rw [word64, word64, ByteStore.read_write_of_disjoint bytes a b 8 _ (by simpa using hdis)]

end GuestMemory

end Cpu
