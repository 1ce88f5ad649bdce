/-
# Guest memory in system calls

The interpreter asks `Memory::IsReadable` and `Memory::IsWritable` before it touches guest
memory for an instruction; the handlers of system calls ask nobody.

* `pointerAccesses`: the ranges that a call comes to for its pointer arguments.
* `Guarded`: what is expected of a call.
-/
import ChuckStation.Syscalls

namespace Syscalls

open Cpu (GuestMemory Access AccessKind CpuContext)
open LittleEndian (toBytes)

/-! ## Ranges -/

/-- The range is one for which `Memory::IsReadable` or `Memory::IsWritable` holds. -/
def accepts (mem : GuestMemory) : AccessKind → U64 → ℕ → Bool
  | .load => mem.readable
  | .store => mem.writable

/-- Every byte of the access lies in a range that is accepted for it. -/
def Mapped (mem : GuestMemory) (acc : Access) : Prop :=
  ∀ i < acc.size, ∃ base n, accepts mem acc.kind base n = true ∧
    (acc.addr + BitVec.ofNat 64 i - base).toNat < n

/-- What a call with these arguments reads and writes for its pointers; a null pointer asks for
nothing.  Of a buffer that is handed on to the operating system, that is as much as this one
touches. -/
def pointerAccesses (env : Env) (bytes : U64 → Byte) (a : SyscallArgs) : List Access :=
  if a.number = 1 then
    if a.arg0 = 1 ∨ a.arg0 = 2 then
      if a.arg1 ≠ 0 ∧ 0 < a.arg2 then
        [⟨.load, a.arg1, stringBytes bytes a.arg1 (precisionLimit a.arg2)⟩]
      else []
    else if env.build = .windows ∧ a.arg1 ≠ 0 ∧ 0 < a.arg2 then
      [⟨.load, a.arg1, min env.writeFile.took (a.arg2.setWidth 32).toNat⟩]
    else []
  else if a.number = 0 then
    if env.build = .windows ∧ a.arg1 ≠ 0 ∧ 0 < a.arg2 then
      [⟨.store, a.arg1, (env.readFile.gave.take (a.arg2.setWidth 32).toNat).length⟩]
    else []
  else if a.number = 228 then
    if a.arg1 ≠ 0 then [⟨.store, a.arg1, 8⟩, ⟨.store, a.arg1 + 8, 8⟩] else []
  else if a.number = 35 then
    if a.arg0 ≠ 0 then [⟨.load, a.arg0, 8⟩, ⟨.load, a.arg0 + 8, 8⟩] else []
  else if a.number = 98 then if a.arg1 ≠ 0 then [⟨.store, a.arg1, 144⟩] else []
  else if a.number = 16 then
    if a.arg1 = TIOCGWINSZ ∧ (a.arg0 = 1 ∨ a.arg0 = 2) then
      if a.arg2 ≠ 0 then [⟨.store, a.arg2, 8⟩] else []
    else if a.arg1 = FIONBIO then []
    else if a.arg1 = FIONREAD then if a.arg2 ≠ 0 then [⟨.store, a.arg2, 4⟩] else []
    else if env.build = .windows ∧ 3 ≤ a.arg0 ∧ a.arg2 ≠ 0 then
      [⟨.load, a.arg2, min env.deviceIoControl.took 256⟩,
        ⟨.store, a.arg2, (env.deviceIoControl.gave.take 256).length⟩]
    else []
  else []

/-- What is expected of a call that returned `result`: it has touched nothing but mapped bytes,
and if its pointers ask for others, it has failed and left the memory as it was. -/
structure Guarded (mem : GuestMemory) (asked : List Access) (result : I64) (m : Machine) :
    Prop where
  mapped : ∀ acc ∈ m.touched, Mapped mem acc
  refused : (∃ acc ∈ asked, ¬ Mapped mem acc) → result.slt 0 = true ∧ m.mem = mem

/-- A built-in handler is registered under the number. -/
def BuiltinAt (st : SyscallState) (number : U64) : Prop :=
  ∃ desc ∈ builtins, desc.number = number ∧ st.table.lookup number = some desc

/-! ## What a call touches -/

/-- From `m` to `m'` exactly these accesses are made, and no byte changes but those stored. -/
structure Within (accs : List Access) (m m' : Machine) : Prop where
  touched : m'.touched = m.touched ++ accs
  readable : m'.mem.readable = m.mem.readable
  writable : m'.mem.writable = m.mem.writable
  frame : ∀ x, (∀ acc ∈ accs, acc.kind = .store → acc.size ≤ (x - acc.addr).toNat) →
    m'.mem.bytes x = m.mem.bytes x

section Within

variable {m m' m'' : Machine} {accs accs' : List Access}

/-- Nothing is touched. -/
theorem within_nil (htouched : m'.touched = m.touched) (hmem : m'.mem = m.mem) :
    Within [] m m' := by
  refine ⟨?_, by rw [hmem], by rw [hmem], fun x _ => by rw [hmem]⟩
  rw [htouched, List.append_nil]

theorem within_load (addr : U64) (n : ℕ) : Within [⟨.load, addr, n⟩] m (m.load addr n).2 :=
  ⟨rfl, rfl, rfl, fun _ _ => rfl⟩

theorem within_store (addr : U64) (bs : List Byte) :
    Within [⟨.store, addr, bs.length⟩] m (m.store addr bs) := by
  refine ⟨rfl, rfl, rfl, fun x hx => ?_⟩
  exact ByteStore.write_apply_of_le _ addr bs x (hx _ (List.mem_singleton_self _) rfl)

theorem Within.append (h : Within accs m m') (h' : Within accs' m' m'') :
    Within (accs ++ accs') m m'' := by
  refine ⟨?_, h'.readable.trans h.readable, h'.writable.trans h.writable, fun x hx => ?_⟩
  · rw [h'.touched, h.touched, List.append_assoc]
  · rw [h'.frame x fun acc hacc => hx acc (List.mem_append_right _ hacc)]
    exact h.frame x fun acc hacc => hx acc (List.mem_append_left _ hacc)

end Within

section Handlers

variable {env : Env} {a : SyscallArgs} {m : Machine}

theorem within_write (h : a.number = 1) :
    Within (pointerAccesses env m.mem.bytes a) m (builtinWrite env a m).2 := by
  rw [pointerAccesses, if_pos h, builtinWrite]
  dsimp only
  by_cases hfd : a.arg0 = 1 ∨ a.arg0 = 2
  · rw [if_pos hfd, if_pos hfd]
    split_ifs
    · exact within_load _ _
    · exact within_nil rfl rfl
  · rw [if_neg hfd, if_neg hfd]
    cases hbuild : env.build with
    | windows =>
        dsimp only
        by_cases hbuf : a.arg1 ≠ 0 ∧ 0 < a.arg2
        · rw [if_pos hbuf, if_pos ⟨rfl, hbuf⟩]
          cases env.writeFile.written with
          | none => exact within_load _ _
          | some written => exact within_load _ _
        · rw [if_neg hbuf, if_neg fun h => hbuf h.2]
          exact within_nil rfl rfl
    | fallback =>
        rw [if_neg (by simp)]
        exact within_nil rfl rfl

theorem within_read (h : a.number = 0) :
    Within (pointerAccesses env m.mem.bytes a) m (builtinRead env a m).2 := by
  rw [pointerAccesses, if_neg (by rw [h]; decide), if_pos h]
  unfold builtinRead
  cases hbuild : env.build with
  | windows =>
      dsimp only
      by_cases hbuf : a.arg1 ≠ 0 ∧ 0 < a.arg2
      · rw [if_pos hbuf, if_pos ⟨rfl, hbuf⟩]
        cases env.readFile.nRead with
        | none => exact within_store _ _
        | some nRead => exact within_store _ _
      · rw [if_neg hbuf, if_neg fun h => hbuf h.2]
        exact within_nil rfl rfl
  | fallback =>
      rw [if_neg (by simp)]
      exact within_nil rfl rfl

theorem within_clockGettime (h : a.number = 228) :
    Within (pointerAccesses env m.mem.bytes a) m (builtinClockGettime env a m).2 := by
  rw [pointerAccesses, if_neg (by rw [h]; decide), if_neg (by rw [h]; decide), if_pos h,
    builtinClockGettime]
  dsimp only
  split_ifs
  · have hsec := within_store (m := m) a.arg1 (toBytes 8 (clockNow env).1)
    have hnsec := within_store (m := m.store a.arg1 (toBytes 8 (clockNow env).1)) (a.arg1 + 8)
      (toBytes 8 (clockNow env).2)
    rw [LittleEndian.length_toBytes] at hsec hnsec
    exact hsec.append hnsec
  · exact within_nil rfl rfl

theorem within_nanosleep (h : a.number = 35) :
    Within (pointerAccesses env m.mem.bytes a) m (builtinNanosleep env a m).2 := by
  rw [pointerAccesses, if_neg (by rw [h]; decide), if_neg (by rw [h]; decide),
    if_neg (by rw [h]; decide), if_pos h, builtinNanosleep]
  dsimp only
  by_cases hts : a.arg0 ≠ 0
  · rw [if_pos hts, if_pos hts]
    have hloads := (within_load (m := m) a.arg0 8).append
      (within_load (m := (m.load a.arg0 8).2) (a.arg0 + 8) 8)
    dsimp only
    split_ifs
    · exact ⟨hloads.touched, hloads.readable, hloads.writable, hloads.frame⟩
    · exact hloads
  · rw [if_neg hts, if_neg hts]
    exact within_nil rfl rfl

theorem within_getrusage (h : a.number = 98) :
    Within (pointerAccesses env m.mem.bytes a) m (builtinGetrusage env a m).2 := by
  rw [pointerAccesses, if_neg (by rw [h]; decide), if_neg (by rw [h]; decide),
    if_neg (by rw [h]; decide), if_neg (by rw [h]; decide), if_pos h, builtinGetrusage]
  split_ifs
  · have hzero := within_store (m := m) a.arg1 (List.replicate 144 0)
    rwa [List.length_replicate] at hzero
  · exact within_nil rfl rfl

theorem within_ioctl (h : a.number = 16) :
    Within (pointerAccesses env m.mem.bytes a) m (builtinIoctl env a m).2 := by
  rw [pointerAccesses, if_neg (by rw [h]; decide), if_neg (by rw [h]; decide),
    if_neg (by rw [h]; decide), if_neg (by rw [h]; decide), if_neg (by rw [h]; decide), if_pos h,
    builtinIoctl]
  dsimp only
  by_cases hsize : a.arg1 = TIOCGWINSZ ∧ (a.arg0 = 1 ∨ a.arg0 = 2)
  · rw [if_pos hsize, if_pos hsize]
    dsimp only
    split_ifs
    · exact within_store a.arg2 winsize
    · exact within_nil rfl rfl
  rw [if_neg hsize, if_neg hsize]
  by_cases hblock : a.arg1 = FIONBIO
  · rw [if_pos hblock, if_pos hblock]
    exact within_nil rfl rfl
  rw [if_neg hblock, if_neg hblock]
  by_cases hread : a.arg1 = FIONREAD
  · rw [if_pos hread, if_pos hread]
    dsimp only
    split_ifs
    · exact within_store a.arg2 (toBytes 4 (0 : U32))
    · exact within_nil rfl rfl
  rw [if_neg hread, if_neg hread]
  cases hbuild : env.build with
  | windows =>
      dsimp only
      by_cases hfd : 3 ≤ a.arg0
      · rw [if_pos hfd]
        dsimp only
        by_cases hargp : a.arg2 ≠ 0
        · rw [if_pos hargp, if_pos ⟨rfl, hfd, hargp⟩]
          exact (within_load _ _).append (within_store _ _)
        · rw [if_neg hargp, if_neg fun h => hargp h.2.2]
          exact within_nil rfl rfl
      · rw [if_neg hfd, if_neg fun h => hfd h.2.1]
        exact within_nil rfl rfl
  | fallback =>
      rw [if_neg (by simp)]
      exact within_nil rfl rfl

theorem pointerAccesses_of_other (bytes : U64 → Byte)
    (h : a.number ∉ ([1, 0, 228, 35, 98, 16] : List U64)) : pointerAccesses env bytes a = [] := by
  simp only [List.mem_cons, List.not_mem_nil, or_false, not_or] at h
  rw [pointerAccesses, if_neg h.1, if_neg h.2.1, if_neg h.2.2.1, if_neg h.2.2.2.1,
    if_neg h.2.2.2.2.1, if_neg h.2.2.2.2.2]

/-- The handler uses no pointer. -/
def Quiet (handler : HandlerFn) : Prop :=
  ∀ env a m, (handler env a m).2.touched = m.touched ∧ (handler env a m).2.mem = m.mem

theorem quiet_exit : Quiet builtinExit := fun _ _ _ => ⟨rfl, rfl⟩

theorem quiet_yield : Quiet builtinYield := fun _ _ _ => ⟨rfl, rfl⟩

theorem quiet_brk : Quiet builtinBrk := fun _ _ _ => ⟨rfl, rfl⟩

theorem quiet_futex : Quiet builtinFutex := fun _ _ _ => ⟨rfl, rfl⟩

theorem quiet_getpid : Quiet builtinGetpid := by
  intro env a m
  rw [builtinGetpid]
  cases env.build <;> exact ⟨rfl, rfl⟩

theorem quiet_gettid : Quiet builtinGettid := by
  intro env a m
  rw [builtinGettid]
  cases env.build <;> exact ⟨rfl, rfl⟩

theorem quiet_munmap : Quiet builtinMunmap := by
  intro env a m
  rw [builtinMunmap]
  unfold WinMem.munmap
  cases env.build <;> exact ⟨rfl, rfl⟩

theorem quiet_mprotect : Quiet builtinMprotect := by
  intro env a m
  rw [builtinMprotect]
  cases env.build <;> exact ⟨rfl, rfl⟩

theorem quiet_mmap : Quiet builtinMmap := by
  intro env a m
  rw [builtinMmap]
  unfold WinMem.mmap
  by_cases hlength : a.arg1 = 0
  · rw [if_pos hlength]
    exact ⟨rfl, rfl⟩
  · rw [if_neg hlength]
    cases env.build with
    | windows => exact ⟨rfl, rfl⟩
    | fallback =>
        dsimp only
        cases env.alignedAlloc ((a.arg1 + 4095) &&& ~~~4095) <;> exact ⟨rfl, rfl⟩

theorem Quiet.within {handler : HandlerFn} (hquiet : Quiet handler)
    (h : a.number ∉ ([1, 0, 228, 35, 98, 16] : List U64)) :
    Within (pointerAccesses env m.mem.bytes a) m (handler env a m).2 := by
  rw [pointerAccesses_of_other _ h]
  exact within_nil (hquiet env a m).1 (hquiet env a m).2

/-- **Every built-in handler** touches what its arguments ask for, and changes no byte but those
that it stores. -/
theorem within_builtin (env : Env) (m : Machine) {desc : SyscallDesc} (hdesc : desc ∈ builtins)
    (h : a.number = desc.number) :
    Within (pointerAccesses env m.mem.bytes a) m (desc.handler env a m).2 := by
  simp only [builtins, List.mem_cons, List.not_mem_nil, or_false] at hdesc
  rcases hdesc with rfl | rfl | rfl | rfl | rfl | rfl | rfl | rfl | rfl | rfl | rfl | rfl | rfl |
    rfl | rfl | rfl
  · exact within_write h
  · exact within_read h
  · exact quiet_exit.within (by rw [h]; decide)
  · exact quiet_exit.within (by rw [h]; decide)
  · exact quiet_getpid.within (by rw [h]; decide)
  · exact quiet_gettid.within (by rw [h]; decide)
  · exact quiet_yield.within (by rw [h]; decide)
  · exact within_clockGettime h
  · exact quiet_brk.within (by rw [h]; decide)
  · exact quiet_mmap.within (by rw [h]; decide)
  · exact quiet_munmap.within (by rw [h]; decide)
  · exact quiet_mprotect.within (by rw [h]; decide)
  · exact quiet_futex.within (by rw [h]; decide)
  · exact within_nanosleep h
  · exact within_getrusage h
  · exact within_ioctl h

end Handlers

/-! ## Dispatching a call -/

section Dispatch

variable {env : Env} {ctx : CpuContext} {st : SyscallState} {m : Machine}

/-- The result of the call, in `RAX`. -/
def resultOf (out : CpuContext × SyscallState × Machine) : I64 := out.1.gpr Cpu.Reg.RAX

theorem within_dispatch (env : Env) (m : Machine) (h : BuiltinAt st (extractArgs ctx).number) :
    Within (pointerAccesses env m.mem.bytes (extractArgs ctx)) m (dispatch env ctx st m).2.2 := by
  obtain ⟨desc, hdesc, hnumber, hlookup⟩ := h
  have hwithin := within_builtin env m hdesc hnumber.symm
  rw [dispatch]
  simp only [hlookup, Option.map_some, Option.getD_some]
  exact hwithin

/-- **System calls and guest memory.**  A call of a built-in handler keeps to mapped memory, or
fails and changes nothing, exactly if its pointers ask for mapped memory only. -/
theorem guarded_iff (env : Env) (ctx : CpuContext) (st : SyscallState) (mem : GuestMemory)
    (brk : WinMem.BrkState) (blocks : List U64)
    (hbuiltin : BuiltinAt st (extractArgs ctx).number) :
    Guarded mem (pointerAccesses env mem.bytes (extractArgs ctx))
      (resultOf (dispatch env ctx st { mem := mem, brk := brk, mmapAllocs := blocks }))
      (dispatch env ctx st { mem := mem, brk := brk, mmapAllocs := blocks }).2.2 ↔
    ∀ acc ∈ pointerAccesses env mem.bytes (extractArgs ctx), Mapped mem acc := by
  have hwithin := within_dispatch env { mem := mem, brk := brk, mmapAllocs := blocks } hbuiltin
  have htouched := hwithin.touched
  rw [List.nil_append] at htouched
  constructor
  · intro h acc hacc
    refine h.mapped acc ?_
    rw [htouched]
    exact hacc
  · intro h
    refine ⟨fun acc hacc => h acc ?_, ?_⟩
    · rw [htouched] at hacc
      exact hacc
    · rintro ⟨acc, hacc, hnot⟩
      exact absurd (h acc hacc) hnot

end Dispatch

/-! ## The registered handlers -/

/-- `RegisterBuiltins` registers all of them, each under a number of its own. -/
theorem builtinAt_registerBuiltins (st : SyscallState) {desc : SyscallDesc}
    (hdesc : desc ∈ builtins) : BuiltinAt (registerBuiltins st) desc.number := by
  have hfold : ∀ (descs : List SyscallDesc) (st : SyscallState),
      (descs.foldl (fun st desc => registerSyscall desc st) st).table =
        descs.foldl (fun m desc => m.insert desc.number desc) st.table := by
    intro descs
    induction descs with
    | nil => exact fun _ => rfl
    | cons first descs ih => exact fun st => ih (registerSyscall first st)
  refine ⟨desc, hdesc, rfl, ?_⟩
  rw [registerBuiltins, hfold]
  exact AList.lookup_foldl_insert_of_mem SyscallDesc.number id st.table (by decide) hdesc

/-! ## Two calls -/

/-- A host that answers nothing. -/
def silentHost : Env where
  build := .fallback
  processId := 0
  threadId := 0
  counter := 0
  freq := 0
  nowUs := 0
  writeFile := ⟨0, none⟩
  readFile := ⟨[], none⟩
  deviceIoControl := ⟨0, [], false⟩
  brk := ⟨0, false⟩
  virtualAlloc _ _ := none
  virtualFree _ := false
  virtualProtect _ _ _ := false
  alignedAlloc _ := none

/-- `clock_gettime(0, 0x1000)`. -/
def clockContext : CpuContext :=
  { gpr := fun r => if r = 0 then 228 else if r = 6 then 0x1000 else 0 }

/-- All memory is mapped, or none is. -/
def uniformMemory (mapped : Bool) : GuestMemory :=
  ⟨fun _ => 0, fun _ _ => mapped, fun _ _ => mapped⟩

theorem builtinAt_clock : BuiltinAt (registerBuiltins {}) (extractArgs clockContext).number :=
  builtinAt_registerBuiltins {} (show ⟨228, "clock_gettime", builtinClockGettime, 2⟩ ∈ builtins by
    simp [builtins])

/-- Into memory that is mapped. -/
theorem guarded_iff_mappedClock :
    Guarded (uniformMemory true)
      (pointerAccesses silentHost (uniformMemory true).bytes (extractArgs clockContext))
      (resultOf (dispatch silentHost clockContext (registerBuiltins {})
        { mem := uniformMemory true, brk := {}, mmapAllocs := [] }))
      (dispatch silentHost clockContext (registerBuiltins {})
        { mem := uniformMemory true, brk := {}, mmapAllocs := [] }).2.2 := by
  refine (guarded_iff silentHost clockContext (registerBuiltins {}) (uniformMemory true) {} []
    builtinAt_clock).mpr ?_
  intro acc _ i _
  refine ⟨acc.addr + BitVec.ofNat 64 i, 1, ?_, ?_⟩
  · cases acc.kind <;> rfl
  · rw [BitVec.sub_self]
    exact Nat.one_pos

/-- Into memory that is not: the time is stored all the same. -/
theorem not_guarded_unmappedClock :
    ¬ Guarded (uniformMemory false)
      (pointerAccesses silentHost (uniformMemory false).bytes (extractArgs clockContext))
      (resultOf (dispatch silentHost clockContext (registerBuiltins {})
        { mem := uniformMemory false }))
      (dispatch silentHost clockContext (registerBuiltins {})
        { mem := uniformMemory false }).2.2 := by
  intro h
  have htouched :=
    (within_dispatch silentHost { mem := uniformMemory false } builtinAt_clock).touched
  have hin : (⟨.store, 0x1000, 8⟩ : Access) ∈ (dispatch silentHost clockContext
      (registerBuiltins {}) { mem := uniformMemory false }).2.2.touched := by
    rw [htouched]
    exact List.mem_cons_self
  obtain ⟨base, n, haccepts, -⟩ := h.mapped _ hin 0 (by decide)
  cases haccepts

end Syscalls
