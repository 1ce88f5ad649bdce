/-
# Isolation of guest programs

`Memory::IsReadable` is all that stands between a guest program and what else is in the address
space.  It is enough, for any number of calls of `Step()` and whatever the guest executes:

* `sameView_isolated`: memory that no readable range covers cannot be seen.  If two memories differ
  in such bytes only, every step returns the same results over them, carries out the same accesses
  and leaves the same CPU state.

The fetch is no exception: each of the up to 32 bytes it copies is in a range it asked about.
-/
import ChuckStation.CpuEffects
import ChuckStation.Observations

namespace Cpu

open Guest GuestMemory Observations

/-! ## Views of memory -/

/-- `x` is in the range of `n` bytes from `a` on. -/
def InRange (a : U64) (n : ℕ) (x : U64) : Prop := (x - a).toNat < n

/-- A range that `accepts` says yes to covers `x`. -/
def Covered (accepts : U64 → ℕ → Bool) (x : U64) : Prop :=
  ∃ a n, accepts a n = true ∧ InRange a n x

/-- Two memories that answer alike and differ only where no readable range is. -/
structure SameView (mem mem' : GuestMemory) : Prop where
  readable_eq : mem'.readable = mem.readable
  writable_eq : mem'.writable = mem.writable
  bytes_eq : ∀ x, Covered mem.readable x → mem'.bytes x = mem.bytes x

section Views

variable {mem mem' : GuestMemory} {a : U64} {n i w : ℕ}

theorem inRange_add (h : i < n) : InRange a n (a + BitVec.ofNat 64 i) := by
  have hle : (a + BitVec.ofNat 64 i - a).toNat ≤ i := by
    rw [add_sub_cancel_left, BitVec.toNat_ofNat]
    exact Nat.mod_le _ _
  exact lt_of_le_of_lt hle h

theorem covered_of_accepted {accepts : U64 → ℕ → Bool} (h : accepts a n = true) (hi : i < n) :
    Covered accepts (a + BitVec.ofNat 64 i) :=
  ⟨a, n, h, inRange_add hi⟩

theorem SameView.read_eq (h : SameView mem mem') (hr : mem.readable a n = true) :
    ByteStore.read mem'.bytes a n = ByteStore.read mem.bytes a n :=
  ByteStore.read_congr _ _ a n fun _ hi => h.bytes_eq _ (covered_of_accepted hr hi)

/-- A load sees the same. -/
theorem SameView.guestReadWord_eq (h : SameView mem mem') :
    mem'.guestReadWord w n a = mem.guestReadWord w n a := by
  rw [guestReadWord, guestReadWord, guestRead, guestRead, h.readable_eq]
  split_ifs with hr
  · rw [h.read_eq hr]
  · rfl

/-- The memory after a store of `v`. -/
def GuestMemory.stored (mem : GuestMemory) (n : ℕ) (a : U64) (v : BitVec w) : GuestMemory :=
  { mem with bytes := ByteStore.write mem.bytes a (LittleEndian.toBytes n v) }

theorem guestWriteWord_eq (v : BitVec w) :
    mem.guestWriteWord n a v = if mem.writable a n then some (mem.stored n a v) else none := by
  rw [guestWriteWord, guestWrite, LittleEndian.length_toBytes]
  rfl

theorem GuestMemory.stored_apply (v : BitVec w) {x : U64} (hx : ¬ InRange a n x) :
    (mem.stored n a v).bytes x = mem.bytes x := by
  apply ByteStore.write_apply_of_le
  rw [LittleEndian.length_toBytes]
  exact not_lt.mp hx

/-- The same store leaves the views the same. -/
theorem SameView.stored (h : SameView mem mem') (v : BitVec w) :
    SameView (mem.stored n a v) (mem'.stored n a v) := by
  refine ⟨h.readable_eq, h.writable_eq, fun x hx => ?_⟩
  by_cases hin : (x - a).toNat < (LittleEndian.toBytes n v).length
  · exact (ByteStore.write_apply_of_lt _ a _ x hin).trans
      (ByteStore.write_apply_of_lt _ a _ x hin).symm
  · have hle := not_lt.mp hin
    exact (ByteStore.write_apply_of_le _ a _ x hle).trans
      ((h.bytes_eq x hx).trans (ByteStore.write_apply_of_le _ a _ x hle).symm)

/-! ## The fetch -/

theorem SameView.fetchLength_eq (h : SameView mem mem') (rip : U64) :
    fetchLength mem' rip = fetchLength mem rip := by
  rw [fetchLength, fetchLength, h.readable_eq]

theorem readable_of_lt_takeWhile {rip : U64}
    (hi : i < ((List.range 32).takeWhile fun i =>
      mem.readable (rip + BitVec.ofNat 64 i) 1).length) :
    mem.readable (rip + BitVec.ofNat 64 i) 1 = true := by
  have hmem := List.getElem_mem hi
  have hp := List.mem_takeWhile_imp hmem
  rwa [(List.takeWhile_prefix _).getElem hi, List.getElem_range] at hp

/-- Every byte of the fetch is in a range that was found readable. -/
theorem covered_of_fetched {rip : U64} (hi : i < fetchLength mem rip) :
    Covered mem.readable (rip + BitVec.ofNat 64 i) := by
  unfold fetchLength at hi
  dsimp only at hi
  generalize min 32 (4096 - (rip &&& 4095).toNat) = first at hi
  split_ifs at hi with hread hboth
  · by_cases hlt : i < first
    · exact covered_of_accepted hread hlt
    · rw [Bool.and_eq_true] at hboth
      have hcov := covered_of_accepted hboth.2 (i := i - first) (by omega)
      rwa [add_assoc, ← BitVec.ofNat_add, Nat.add_sub_cancel' (not_lt.mp hlt)] at hcov
  · exact covered_of_accepted hread hi
  · have hcov := covered_of_accepted (readable_of_lt_takeWhile hi) Nat.zero_lt_one
    simpa using hcov

/-- The fetch sees the same. -/
theorem SameView.fetch_eq (h : SameView mem mem') (rip : U64) : fetch mem' rip = fetch mem rip := by
  have hbuf : codeBuf mem' rip (fetchLength mem rip) = codeBuf mem rip (fetchLength mem rip) := by
    funext i
    rw [codeBuf, codeBuf]
    split_ifs with hi
    · exact h.bytes_eq _ (covered_of_fetched hi)
    · rfl
  rw [fetch, fetch, h.fetchLength_eq rip, hbuf]

end Views

/-! ## Cases that touch registers only -/

/-- The guest over another memory. -/
def Guest.withMem (g : Guest) (mem : GuestMemory) : Guest := { g with mem := mem }

/-- The end of a case over another memory. -/
def CaseExit.withMem (e : CaseExit) (mem : GuestMemory) : CaseExit :=
  { e with guest := e.guest.withMem mem }

section RegisterCases

variable {ip : ℕ → Byte} {p : Prefixes} {g : Guest} {c : OpCase} {mem' : GuestMemory} {off : ℕ}

@[simp] theorem Guest.withMem_ctx : (g.withMem mem').ctx = g.ctx := rfl

/-- Two computations that begin alike and go on alike. -/
theorem bind_eq_map_bind {α : Type} {x : Except HostUndefined α}
    {f f' : α → Except HostUndefined CaseExit} {k : CaseExit → CaseExit}
    (h : ∀ a, f' a = (f a).map k) : (x >>= f') = (x >>= f).map k := by
  cases x with
  | error u => rfl
  | ok a => exact h a

theorem execRegForm_withMem
    (op : CpuContext → RegIdx → RegIdx → Except HostUndefined CpuContext) :
    execRegForm op ip off p (g.withMem mem') =
      (execRegForm op ip off p g).map (·.withMem mem') := by
  simp only [execRegForm, Guest.withMem_ctx]
  split_ifs
  · exact bind_eq_map_bind fun _ => rfl
  · rfl

/-- A case that touches registers only does the same over any memory. -/
theorem execCase_withMem (ht : ¬ TouchesMemory c ip p) :
    execCase c ip p (g.withMem mem') = (execCase c ip p g).map (·.withMem mem') := by
  cases c with
  | push | pop | callRel32 | ret | retImm16 => exact absurd trivial ht
  | nop | lahf | sahf | xchg | jmpRel8 | jmpRel32 | jccRel8 | hlt | lea | default => rfl
  | or | and | sub | xor | test | cmpRM | cmpMR =>
      simp only [execCase, execOr, execAnd, execSub, execXor, execTest, execCmpRM, execCmpMR]
      exact execRegForm_withMem _
  | movImm | int | movImmC7 | imulImm =>
      simp only [execCase, execMovImm, execInt, execMovImmC7, execImulImm, Guest.withMem_ctx]
      split_ifs
      all_goals rfl
  | group83 =>
      simp only [execCase, execGroup83, Guest.withMem_ctx]
      refine bind_eq_map_bind fun r => ?_
      cases r with
      | none => rfl
      | some ctx => rfl
  | group81 =>
      simp only [execCase, execGroup81, Guest.withMem_ctx]
      split_ifs
      · refine bind_eq_map_bind fun r => ?_
        cases r with
        | none => rfl
        | some ctx => rfl
      · rfl
  | add =>
      have hmod : modOf (ip p.off) = 3 := not_not.mp ht
      simp only [execCase, execAdd, if_pos hmod, Guest.withMem_ctx]
      exact bind_eq_map_bind fun _ => rfl
  | testRaxImm =>
      simp only [execCase, execTestRaxImm, Guest.withMem_ctx]
      exact bind_eq_map_bind fun _ => rfl
  | movStore =>
      have hmod : modOf (ip p.off) = 3 := not_not.mp ht
      simp only [execCase, execMovStore, if_pos hmod]
      rfl
  | movLoad =>
      have hmod : modOf (ip p.off) = 3 := not_not.mp ht
      simp only [execCase, execMovLoad, if_pos hmod]
      rfl
  | twoByte =>
      simp only [execCase, execTwoByte]
      split_ifs
      · rfl
      · rfl
      · exact execRegForm_withMem _
      · exact execRegForm_withMem _
      · exact execRegForm_withMem _
      · exact execRegForm_withMem _
      · rfl
  | shift =>
      simp only [execCase, execShift, Guest.withMem_ctx]
      by_cases hmod : modOf (ip p.off) = 3
      · simp only [if_pos hmod]
        refine bind_eq_map_bind fun r => ?_
        cases r with
        | none => rfl
        | some ctx => rfl
      · simp only [if_neg hmod]
        rfl
  | groupFF =>
      simp only [execCase, execGroupFF, Guest.withMem_ctx]
      split_ifs with hmod
      · split
        · rfl
        · rfl
        · exact absurd ⟨hmod, ‹_›⟩ ht
        · rfl
        · rfl
      · rfl
  | groupF7 =>
      simp only [execCase, execGroupF7, Guest.withMem_ctx]
      split_ifs with hmod hz
      · split
        · rfl
        · rfl
        · rfl
        · rfl
        · exact if_pos hz
        · exact if_pos hz
        · rfl
      · split
        · rfl
        · rfl
        · rfl
        · rfl
        · exact (if_neg hz).trans (bind_eq_map_bind fun _ => rfl)
        · exact (if_neg hz).trans (bind_eq_map_bind fun _ => rfl)
        · rfl
      · rfl

end RegisterCases

/-! ## Cases that touch memory -/

/-- Two ends of a case that differ in bytes that no readable range covers. -/
def SameExit (e e' : CaseExit) : Prop :=
  ∃ mem', SameView e.guest.mem mem' ∧ e' = e.withMem mem'

section MemoryCases

variable {ip : ℕ → Byte} {p : Prefixes} {g : Guest} {c : OpCase} {e : CaseExit}
  {mem' : GuestMemory}

theorem execPush_sameExit (h : SameView g.mem mem') :
    SameExit (execPush p g) (execPush p (g.withMem mem')) := by
  cases hw : g.mem.writable (g.ctx.gpr Reg.RSP - 8) 8 with
  | true =>
      rw [execPush_eq p g hw, execPush_eq p (g.withMem mem') (by rw [← hw, ← h.writable_eq]; rfl)]
      exact ⟨_, h.stored _, rfl⟩
  | false =>
      rw [execPush_fault p g hw,
        execPush_fault p (g.withMem mem') (by rw [← hw, ← h.writable_eq]; rfl)]
      exact ⟨_, h, rfl⟩

theorem callTo_sameExit (h : SameView g.mem mem') (ctx : CpuContext) (target frameBase : U64) :
    SameExit (callTo ctx target frameBase g) (callTo ctx target frameBase (g.withMem mem')) := by
  cases hw : g.mem.writable (ctx.gpr Reg.RSP - 8) 8 with
  | true =>
      rw [callTo_ok g ctx hw, callTo_ok (g.withMem mem') ctx (by rw [← hw, ← h.writable_eq]; rfl)]
      exact ⟨_, h.stored _, rfl⟩
  | false =>
      rw [callTo_fault g hw, callTo_fault (g.withMem mem') (by rw [← hw, ← h.writable_eq]; rfl)]
      exact ⟨_, h, rfl⟩

theorem execMovStoreMem_sameExit (h : SameView g.mem mem') {w : ℕ} (n : ℕ) (ctx : CpuContext)
    (v : BitVec w) (ea : U64) :
    SameExit (execMovStoreMem n ctx v ea g) (execMovStoreMem n ctx v ea (g.withMem mem')) := by
  have hmem : (g.withMem mem').mem = mem' := rfl
  unfold execMovStoreMem
  rw [hmem, guestWriteWord_eq, guestWriteWord_eq, h.writable_eq]
  split_ifs
  · exact ⟨_, h.stored _, rfl⟩
  · exact ⟨_, h, rfl⟩

theorem execMovStore_sameExit (h : SameView g.mem mem') (hmod : modOf (ip p.off) ≠ 3) :
    SameExit (execMovStore ip p g) (execMovStore ip p (g.withMem mem')) := by
  unfold execMovStore
  dsimp only
  rw [if_neg hmod, if_neg hmod]
  split_ifs
  · exact execMovStoreMem_sameExit h _ _ _ _
  · exact execMovStoreMem_sameExit h _ _ _ _

theorem execPop_sameExit (h : SameView g.mem mem') :
    SameExit (execPop p g) (execPop p (g.withMem mem')) := by
  have hmem : (g.withMem mem').mem = mem' := rfl
  unfold execPop
  dsimp only
  rw [hmem, h.guestReadWord_eq, Guest.withMem_ctx]
  cases g.mem.guestReadWord 64 8 (g.ctx.gpr Reg.RSP) with
  | none => exact ⟨_, h, rfl⟩
  | some v => exact ⟨_, h, rfl⟩

theorem returnWith_sameExit (h : SameView g.mem mem') (extra : U64) :
    SameExit (returnWith extra g) (returnWith extra (g.withMem mem')) := by
  have hmem : (g.withMem mem').mem = mem' := rfl
  unfold returnWith
  dsimp only
  rw [hmem, h.guestReadWord_eq, Guest.withMem_ctx]
  cases g.mem.guestReadWord 64 8 (g.ctx.gpr Reg.RSP) with
  | none => exact ⟨_, h, rfl⟩
  | some v => exact ⟨_, h, rfl⟩

theorem execMovLoadMem_sameExit (h : SameView g.mem mem') (w n : ℕ) (ctx : CpuContext)
    (reg : RegIdx) (ea : U64) :
    SameExit (execMovLoadMem w n ctx reg ea g)
      (execMovLoadMem w n ctx reg ea (g.withMem mem')) := by
  have hmem : (g.withMem mem').mem = mem' := rfl
  unfold execMovLoadMem
  rw [hmem, h.guestReadWord_eq]
  cases g.mem.guestReadWord w n ea with
  | none => exact ⟨_, h, rfl⟩
  | some v => exact ⟨_, h, rfl⟩

theorem execMovLoad_sameExit (h : SameView g.mem mem') (hmod : modOf (ip p.off) ≠ 3) :
    SameExit (execMovLoad ip p g) (execMovLoad ip p (g.withMem mem')) := by
  unfold execMovLoad
  dsimp only
  rw [if_neg hmod, if_neg hmod]
  split_ifs
  · exact execMovLoadMem_sameExit h _ _ _ _ _
  · exact execMovLoadMem_sameExit h _ _ _ _ _

theorem execAddMem_alike (h : SameView g.mem mem') (ctx : CpuContext) (reg : RegIdx) (ea : U64) :
    Alike SameExit (execAddMem ctx reg ea g) (execAddMem ctx reg ea (g.withMem mem')) := by
  have hmem : (g.withMem mem').mem = mem' := rfl
  unfold execAddMem
  rw [hmem, h.guestReadWord_eq]
  cases g.mem.guestReadWord 64 8 ea with
  | none => exact .ok ⟨_, h, rfl⟩
  | some b =>
      dsimp only
      cases storeAdd ctx reg (ctx.gpr reg) b with
      | error u => exact .error u
      | ok ctx => exact .ok ⟨_, h, rfl⟩

theorem execAdd_alike (h : SameView g.mem mem') (hmod : modOf (ip p.off) ≠ 3) :
    Alike SameExit (execAdd ip p g) (execAdd ip p (g.withMem mem')) := by
  unfold execAdd
  dsimp only
  rw [if_neg hmod, if_neg hmod]
  exact execAddMem_alike h _ _ _

/-- Outside the stack and memory forms a case leaves memory alone, faults of a division
included. -/
theorem execCase_mem_eq (ht : ¬ TouchesMemory c ip p) (he : execCase c ip p g = .ok e) :
    e.guest.mem = g.mem := by
  by_cases hz : DividesByZero c ip p g
  · rw [execCase_of_dividesByZero hz] at he
    cases he
    rfl
  · exact (execCase_registerOnly ht hz he).mem_eq

/-- **A case** ends the same over memories with the same view. -/
theorem execCase_alike (h : SameView g.mem mem') :
    Alike SameExit (execCase c ip p g) (execCase c ip p (g.withMem mem')) := by
  by_cases ht : TouchesMemory c ip p
  · cases c with
    | push => exact .ok (execPush_sameExit h)
    | pop => exact .ok (execPop_sameExit h)
    | callRel32 => exact .ok (callTo_sameExit h _ _ _)
    | ret | retImm16 => exact .ok (returnWith_sameExit h _)
    | add => exact execAdd_alike h ht
    | movStore => exact .ok (execMovStore_sameExit h ht)
    | movLoad => exact .ok (execMovLoad_sameExit h ht)
    | groupFF =>
        obtain ⟨hmod, hext⟩ := ht
        rw [execCase, execCase, execGroupFF_call ip p g hmod hext,
          execGroupFF_call ip p (g.withMem mem') hmod hext]
        exact .ok (callTo_sameExit h _ _ _)
    | nop | lahf | sahf | xchg | movImm | group83 | group81 | or | and | sub | xor | test
    | testRaxImm | jmpRel8 | jmpRel32 | jccRel8 | int | twoByte | hlt | cmpRM | cmpMR | lea
    | movImmC7 | shift | groupF7 | imulImm | default => exact ht.elim
  · rw [execCase_withMem ht]
    cases he : execCase c ip p g with
    | error u => exact .error u
    | ok e =>
        refine .ok ⟨mem', ?_, rfl⟩
        rw [execCase_mem_eq ht he]
        exact h

end MemoryCases

/-! ## Steps -/

/-- What a call of `Step()` shows. -/
structure Shown where
  result : StepResult
  accesses : List Access
  cpu : CpuState

/-- A call of `Step()`. -/
def step (m : Machine) : Except HostUndefined (Shown × Machine) :=
  (executeOne m).map fun out => (⟨out.result, out.accesses, out.machine.cpu⟩, out.machine)

/-- Two machines with the same CPU state and the same view of memory. -/
structure SameShown (m m' : Machine) : Prop where
  cpu_eq : m'.cpu = m.cpu
  view : SameView m.mem m'.mem

section Steps

variable {m m' : Machine} {ip : ℕ → Byte} {p : Prefixes} {out : StepOutcome}

theorem step_of_ok (h : executeOne m = .ok out) :
    step m = .ok (⟨out.result, out.accesses, out.machine.cpu⟩, out.machine) := by
  rw [step, h]
  rfl

theorem SameShown.fetchFaults (h : SameShown m m') (hf : FetchFaults m) : FetchFaults m' := by
  rw [FetchFaults, h.cpu_eq, h.view.fetch_eq]
  exact hf

theorem SameShown.stops (h : SameShown m m') (hs : StopsAtBreakpoint m) :
    StopsAtBreakpoint m' := by
  rw [StopsAtBreakpoint, FetchFaults, h.cpu_eq, h.view.fetch_eq]
  exact hs

theorem SameShown.decodes (h : SameShown m m') (hd : Decodes m ip p) : Decodes m' ip p := by
  obtain ⟨hrip, hfetch, hbp, hscan⟩ := hd
  refine ⟨?_, ?_, ?_, hscan⟩
  · rw [h.cpu_eq]
    exact hrip
  · rw [h.cpu_eq, h.view.fetch_eq]
    exact hfetch
  · rw [h.cpu_eq]
    exact hbp

/-- What a step returns over machines that show the same. -/
structure SameOutcome (out out' : StepOutcome) : Prop where
  result_eq : out'.result = out.result
  accesses_eq : out'.accesses = out.accesses
  shown : SameShown out.machine out'.machine

theorem SameShown.finish (h : SameShown m m') {e e' : CaseExit} (he : SameExit e e') :
    SameOutcome (m.finish e) (m'.finish e') := by
  obtain ⟨mem', hview, rfl⟩ := he
  refine ⟨rfl, rfl, ?_, hview⟩
  simp only [Machine.finish, h.cpu_eq]
  rfl

theorem executeOne_alike (h : SameShown m m') :
    Alike SameOutcome (executeOne m) (executeOne m') := by
  rcases fetchFaults_or_stops_or_decodes m with hf | hs | ⟨ip, p, hd⟩
  · rw [executeOne_of_fetchFaults hf, executeOne_of_fetchFaults (h.fetchFaults hf)]
    exact .ok ⟨rfl, rfl, h⟩
  · rw [executeOne_of_stops hs, executeOne_of_stops (h.stops hs)]
    exact .ok ⟨rfl, rfl, congrArg (CpuState.count · .breakpointsHit) h.cpu_eq, h.view⟩
  · have hguest : m'.guest = m.guest.withMem m'.mem := by
      rw [Machine.guest, h.cpu_eq]
      rfl
    have hcase : Alike SameExit (execCase (opCase p.opcode) ip p m.guest)
        (execCase (opCase p.opcode) ip p (m.guest.withMem m'.mem)) := execCase_alike h.view
    rw [executeOne_of_decodes hd, executeOne_of_decodes (h.decodes hd), hguest]
    exact hcase.map fun _ _ he => h.finish he

/-- Machines that show the same step alike. -/
theorem step_unwinding : Unwinding step SameShown := fun _ _ h =>
  (executeOne_alike h).map fun out out' ho =>
    ⟨by rw [ho.result_eq, ho.accesses_eq, ho.shown.cpu_eq], ho.shown⟩

/-- **Guest programs do not see what they may not read.**  Over memories that answer `IsReadable`
and `IsWritable` alike and differ only in bytes that no readable range covers, any number of steps
returns the same results, carries out the same accesses and leaves the same CPU states, or stops
with the same undefined operation of the host; and the memories behind them are such again. -/
theorem sameView_isolated (m : Machine) {mem' : GuestMemory} (h : SameView m.mem mem') (n : ℕ) :
    (observe step n { m with mem := mem' }).1 = (observe step n m).1 ∧
      Alike SameShown (observe step n m).2 (observe step n { m with mem := mem' }).2 := by
  have hshown : SameShown m { m with mem := mem' } := ⟨rfl, h⟩
  obtain ⟨hout, hend⟩ := observe_of_unwinding step_unwinding hshown n
  exact ⟨hout.symm, hend⟩

/-- NOPs everywhere, `secret` at 0x9000, and one readable page at 0x1000. -/
def pageMemory (secret : Byte) : GuestMemory where
  bytes x := if x = 0x9000 then secret else 0x90
  readable a n := decide (0x1000 ≤ a.toNat ∧ a.toNat + n ≤ 0x2000)
  writable _ _ := false

theorem pageMemory_sameView (b b' : Byte) : SameView (pageMemory b) (pageMemory b') := by
  refine ⟨rfl, rfl, fun x hx => ?_⟩
  obtain ⟨a, n, hacc, hin⟩ := hx
  have hne : x ≠ 0x9000 := by
    rintro rfl
    simp only [pageMemory, decide_eq_true_eq] at hacc
    have hsecret : (0x9000 : U64).toNat = 0x9000 := rfl
    rw [InRange, BitVec.toNat_sub, hsecret] at hin
    omega
  simp only [pageMemory, if_neg hne]

/-- A hundred NOPs run the same whatever the byte at 0x9000 is. -/
theorem sameView_isolated_page :
    (observe step 100 ⟨{ ctx := { rip := 0x1000 } }, pageMemory 0xAA⟩).1 =
        (observe step 100 ⟨{ ctx := { rip := 0x1000 } }, pageMemory 0x55⟩).1 ∧
      Alike SameShown (observe step 100 ⟨{ ctx := { rip := 0x1000 } }, pageMemory 0x55⟩).2
        (observe step 100 ⟨{ ctx := { rip := 0x1000 } }, pageMemory 0xAA⟩).2 :=
  sameView_isolated ⟨{ ctx := { rip := 0x1000 } }, pageMemory 0x55⟩ (pageMemory_sameView _ _) 100

end Steps

end Cpu
