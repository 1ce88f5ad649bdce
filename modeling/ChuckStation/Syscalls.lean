/-
# System calls

The dispatcher (`Syscalls.cpp`) and its built-in handlers.  A handler gets its six arguments
from guest registers and uses pointers among them as they are: the guest's memory is the
host's.  `Machine.touched` notes every range that is read or written.

What the operating system answers is given with every call (`Env`).  It may touch any part of
a buffer that it is handed.
-/
import ChuckStation.AssociationLists
import ChuckStation.CpuContext
import ChuckStation.ProgramBreak

namespace Syscalls

open Cpu (GuestMemory Access CpuContext)
open LittleEndian (ofBytes toBytes)

/-! ## The machine and the host -/

/-- What a handler works on: guest memory and the ranges of it that were touched, the break,
the blocks behind `mmap`, whether `Cpu::Stop` was called, and how long the thread slept. -/
structure Machine where
  mem : GuestMemory
  touched : List Access := []
  brk : WinMem.BrkState := {}
  mmapAllocs : List U64 := []
  stopped : Bool := false
  sleptMs : List U64 := []

namespace Machine

/-- `n` bytes are read. -/
def load (m : Machine) (addr : U64) (n : ℕ) : List Byte × Machine :=
  (ByteStore.read m.mem.bytes addr n, { m with touched := m.touched ++ [⟨.load, addr, n⟩] })

/-- Bytes are written. -/
def store (m : Machine) (addr : U64) (bs : List Byte) : Machine :=
  { m with
    mem := { m.mem with bytes := ByteStore.write m.mem.bytes addr bs }
    touched := m.touched ++ [⟨.store, addr, bs.length⟩] }

end Machine

/-- `PAGE_*`, as far as the handlers ask for them. -/
inductive WinProt where
  | noAccess
  | readOnly
  | readWrite
  | executeReadWrite
  deriving DecidableEq, Repr

/-- `WriteFile`: how many bytes it took, and what it says was written if it succeeded. -/
structure FileWrite where
  took : ℕ
  written : Option U32

/-- `ReadFile`: the bytes it stored, and what it says was read if it succeeded. -/
structure FileRead where
  gave : List Byte
  nRead : Option U32

/-- `DeviceIoControl`: how many bytes it took, and those it stored. -/
structure DeviceReply where
  took : ℕ
  gave : List Byte
  ok : Bool

/-- The build, and what the host answers during a call. -/
structure Env where
  build : Build
  processId : U32
  threadId : U32
  counter : U64
  freq : U64
  nowUs : U64
  writeFile : FileWrite
  readFile : FileRead
  deviceIoControl : DeviceReply
  brk : WinMem.BrkAnswers
  virtualAlloc : U64 → WinProt → Option U64
  virtualFree : U64 → Bool
  virtualProtect : U64 → U64 → WinProt → Bool
  alignedAlloc : U64 → Option U64

/-- `struct SyscallArgs`. -/
structure SyscallArgs where
  number : U64 := 0
  arg0 : U64 := 0
  arg1 : U64 := 0
  arg2 : U64 := 0
  arg3 : U64 := 0
  arg4 : U64 := 0
  arg5 : U64 := 0
  deriving DecidableEq, Repr

/-- An `int64_t`. -/
abbrev I64 := BitVec 64

/-- A `HandlerFn`. -/
abbrev HandlerFn := Env → SyscallArgs → Machine → I64 × Machine

/-! ## Mappings -/

namespace WinMem

/-- `MAP_FAILED`. -/
abbrev mapFailed : U64 := uint64Max

/-- The protection that `Mmap` and `Builtin_mprotect` ask for. -/
def winProt (prot : U32) : WinProt :=
  if prot &&& 4 ≠ 0 then .executeReadWrite
  else if prot &&& 2 ≠ 0 then .readWrite
  else if prot &&& 1 ≠ 0 then .readOnly
  else .noAccess

/-- `Mmap`.  The hint and the flags are not used. -/
def mmap (env : Env) (length : U64) (prot : U32) (m : Machine) : U64 × Machine :=
  if length = 0 then (mapFailed, m)
  else match env.build with
    | .windows => ((env.virtualAlloc length (winProt prot)).getD mapFailed, m)
    | .fallback =>
      match env.alignedAlloc ((length + 4095) &&& ~~~4095) with
      | some p => (p, { m with mmapAllocs := m.mmapAllocs ++ [p] })
      | none => (mapFailed, m)

/-- `Munmap`.  The length is not used. -/
def munmap (env : Env) (addr : U64) (m : Machine) : I64 × Machine :=
  match env.build with
  | .windows => (if addr ≠ 0 ∧ env.virtualFree addr = false then -1 else 0, m)
  | .fallback => (0, { m with mmapAllocs := m.mmapAllocs.erase addr })

end WinMem

/-! ## Built-in handlers -/

/-- How many bytes `%.*s` looks at: up to the first zero byte, and no more than the limit. -/
def stringBytes (bytes : U64 → Byte) (addr : U64) : ℕ → ℕ
  | 0 => 0
  | n + 1 => if bytes addr = 0 then 1 else stringBytes bytes (addr + 1) n + 1

/-- The limit of `%.*s` with a precision of type `int`: a negative one is none. -/
def precisionLimit (count : U64) : ℕ :=
  let precision := count.setWidth 32
  if precision.msb then 2 ^ 64 else precision.toNat

/-- `Builtin_write`. -/
def builtinWrite : HandlerFn := fun env a m =>
  let fd := a.arg0
  let buf := a.arg1
  let count := a.arg2
  if fd = 1 ∨ fd = 2 then
    if buf ≠ 0 ∧ 0 < count then
      (count, (m.load buf (stringBytes m.mem.bytes buf (precisionLimit count))).2)
    else (count, m)
  else match env.build with
    | .windows =>
      if buf ≠ 0 ∧ 0 < count then
        let m := (m.load buf (min env.writeFile.took (count.setWidth 32).toNat)).2
        match env.writeFile.written with
        | some written => (written.setWidth 64, m)
        | none => (-9, m)
      else (-9, m)
    | .fallback => (-9, m)

/-- `Builtin_read`. -/
def builtinRead : HandlerFn := fun env a m =>
  let buf := a.arg1
  let count := a.arg2
  match env.build with
  | .windows =>
    if buf ≠ 0 ∧ 0 < count then
      let m := m.store buf (env.readFile.gave.take (count.setWidth 32).toNat)
      match env.readFile.nRead with
      | some nRead => (nRead.setWidth 64, m)
      | none => (-9, m)
    else (-9, m)
  | .fallback => (-9, m)

/-- `Builtin_exit`. -/
def builtinExit : HandlerFn := fun _ _ m => (0, { m with stopped := true })

/-- `Builtin_getpid`. -/
def builtinGetpid : HandlerFn := fun env _ m =>
  match env.build with
  | .windows => (env.processId.setWidth 64, m)
  | .fallback => (1, m)

/-- `Builtin_gettid`. -/
def builtinGettid : HandlerFn := fun env _ m =>
  match env.build with
  | .windows => (env.threadId.setWidth 64, m)
  | .fallback => (1, m)

/-- `Builtin_yield`. -/
def builtinYield : HandlerFn := fun _ _ m => (0, m)

/-- Seconds and nanoseconds of the clock. -/
def clockNow (env : Env) : U64 × U64 :=
  match env.build with
  | .windows =>
    let totalNs := (env.counter * 1000000000).sdiv env.freq
    (totalNs / 1000000000, totalNs % 1000000000)
  | .fallback => (env.nowUs / 1000000, env.nowUs % 1000000 * 1000)

/-- `Builtin_clock_gettime`. -/
def builtinClockGettime : HandlerFn := fun env a m =>
  let tsAddr := a.arg1
  if tsAddr ≠ 0 then
    let (sec, nsec) := clockNow env
    (0, (m.store tsAddr (toBytes 8 sec)).store (tsAddr + 8) (toBytes 8 nsec))
  else (0, m)

/-- `Builtin_nanosleep`. -/
def builtinNanosleep : HandlerFn := fun _ a m =>
  let tsAddr := a.arg0
  if tsAddr ≠ 0 then
    let (sec, m) := m.load tsAddr 8
    let (nsec, m) := m.load (tsAddr + 8) 8
    let totalMs : U64 := ofBytes 64 sec * 1000 + ofBytes 64 nsec / 1000000
    (0, if 0 < totalMs then { m with sleptMs := m.sleptMs ++ [totalMs] } else m)
  else (0, m)

/-- `Builtin_brk`. -/
def builtinBrk : HandlerFn := fun env a m =>
  let out := WinMem.brk env.build a.arg0 env.brk m.brk
  (out.result, { m with brk := out.st })

/-- `Builtin_mmap`. -/
def builtinMmap : HandlerFn := fun env a m =>
  let (p, m) := WinMem.mmap env a.arg1 (a.arg2.setWidth 32) m
  (if p = WinMem.mapFailed then -12 else p, m)

/-- `Builtin_munmap`. -/
def builtinMunmap : HandlerFn := fun env a m => WinMem.munmap env a.arg0 m

/-- `Builtin_mprotect`. -/
def builtinMprotect : HandlerFn := fun env a m =>
  match env.build with
  | .windows =>
    (if env.virtualProtect a.arg0 a.arg1 (WinMem.winProt (a.arg2.setWidth 32)) then 0 else -13, m)
  | .fallback => (0, m)

/-- `Builtin_futex`.  The word is not looked at. -/
def builtinFutex : HandlerFn := fun _ a m => (if a.arg1 &&& 0xF = 1 then 1 else 0, m)

/-- `Builtin_getrusage`. -/
def builtinGetrusage : HandlerFn := fun _ a m =>
  let structAddr := a.arg1
  if structAddr ≠ 0 then (0, m.store structAddr (List.replicate 144 0)) else (0, m)

abbrev TIOCGWINSZ : U64 := 0x5413
abbrev FIONBIO : U64 := 0x5421
abbrev FIONREAD : U64 := 0x541B

/-- A `struct winsize` of 24 rows and 80 columns. -/
def winsize : List Byte := ([24, 80, 0, 0] : List U16).flatMap (toBytes 2)

/-- `Builtin_ioctl`. -/
def builtinIoctl : HandlerFn := fun env a m =>
  let fd := a.arg0
  let request := a.arg1
  let argp := a.arg2
  if request = TIOCGWINSZ ∧ (fd = 1 ∨ fd = 2) then
    (0, if argp ≠ 0 then m.store argp winsize else m)
  else if request = FIONBIO then (0, m)
  else if request = FIONREAD then
    (0, if argp ≠ 0 then m.store argp (toBytes 4 (0 : U32)) else m)
  else match env.build with
    | .windows =>
      if 3 ≤ fd then
        -- Without a buffer both sizes are 0.
        let m := if argp ≠ 0 then
            (m.load argp (min env.deviceIoControl.took 256)).2.store argp
              (env.deviceIoControl.gave.take 256)
          else m
        (if env.deviceIoControl.ok then 0 else -25, m)
      else (-25, m)
    | .fallback => (-25, m)

/-- `Unknown_handler`. -/
def unknownHandler : HandlerFn := fun _ _ m => (-38, m)

/-! ## The dispatcher -/

/-- `struct SyscallDesc`. -/
structure SyscallDesc where
  number : U64 := 0
  name : String
  handler : HandlerFn
  argCount : Byte := 0

/-- `struct SyscallStats`. -/
structure SyscallStats where
  total : U64 := 0
  known : U64 := 0
  unknown : U64 := 0
  errors : U64 := 0
  deriving DecidableEq, Repr

/-- `struct SyscallRecord`. -/
structure SyscallRecord where
  number : U64
  name : String
  args : SyscallArgs
  result : I64
  timestampUs : U64
  deriving DecidableEq, Repr

/-- `struct SyscallState`, and the events it has published, last one first. -/
structure SyscallState where
  table : AList fun _ : U64 => SyscallDesc := ∅
  stats : SyscallStats := {}
  recentLog : List SyscallRecord := []
  published : List (String × String) := []

abbrev LOG_MAX : ℕ := 4096

/-- `ExtractArgs`. -/
def extractArgs (ctx : CpuContext) : SyscallArgs where
  number := ctx.gpr 0
  arg0 := ctx.gpr 7
  arg1 := ctx.gpr 6
  arg2 := ctx.gpr 2
  arg3 := ctx.gpr 10
  arg4 := ctx.gpr 8
  arg5 := ctx.gpr 9

/-- `RegisterSyscall`. -/
def registerSyscall (desc : SyscallDesc) (st : SyscallState) : SyscallState :=
  { st with table := st.table.insert desc.number desc }

/-- The calls that `RegisterBuiltins` makes, with the numbers of `Nr`. -/
def builtins : List SyscallDesc := [
  ⟨1, "write", builtinWrite, 3⟩,
  ⟨0, "read", builtinRead, 3⟩,
  ⟨60, "exit", builtinExit, 1⟩,
  ⟨231, "exit_group", builtinExit, 1⟩,
  ⟨39, "getpid", builtinGetpid, 0⟩,
  ⟨186, "gettid", builtinGettid, 0⟩,
  ⟨24, "sched_yield", builtinYield, 0⟩,
  ⟨228, "clock_gettime", builtinClockGettime, 2⟩,
  ⟨12, "brk", builtinBrk, 1⟩,
  ⟨9, "mmap", builtinMmap, 6⟩,
  ⟨11, "munmap", builtinMunmap, 2⟩,
  ⟨10, "mprotect", builtinMprotect, 3⟩,
  ⟨202, "futex", builtinFutex, 6⟩,
  ⟨35, "nanosleep", builtinNanosleep, 2⟩,
  ⟨98, "getrusage", builtinGetrusage, 2⟩,
  ⟨16, "ioctl", builtinIoctl, 3⟩]

/-- `RegisterBuiltins`. -/
def registerBuiltins (st : SyscallState) : SyscallState :=
  builtins.foldl (fun st desc => registerSyscall desc st) st

/-- `Dispatch`. -/
def dispatch (env : Env) (ctx : CpuContext) (st : SyscallState) (m : Machine) :
    CpuContext × SyscallState × Machine :=
  let args := extractArgs ctx
  let desc := st.table.lookup args.number
  let handler := (desc.map SyscallDesc.handler).getD unknownHandler
  let sname := (desc.map SyscallDesc.name).getD ""
  let (result, m) := handler env args m
  let stats := { st.stats with
    total := st.stats.total + 1
    known := st.stats.known + if desc.isSome then 1 else 0
    unknown := st.stats.unknown + if desc.isSome then 0 else 1
    errors := st.stats.errors + if result.msb then 1 else 0 }
  let event := (if sname = "" then toString args.number.toNat else sname) ++ " -> " ++
    toString result.toInt
  let record : SyscallRecord :=
    ⟨args.number, if sname = "" then "nr:" ++ toString args.number.toNat else sname, args, result,
      env.nowUs⟩
  let log := if LOG_MAX ≤ st.recentLog.length then st.recentLog.tail else st.recentLog
  (ctx.setGpr Cpu.Reg.RAX result,
    { st with
      stats := stats
      recentLog := log ++ [record]
      published := ("syscall", event) :: st.published },
    m)

end Syscalls
