/-
# Programs on the interpreter

Whole runs of a program of X86Programs: what the architecture says about them holds of `Step()`
called again and again, and of `Run()`.

* `stepped_program`: as many calls of `Step()` as the run has steps return `Ok` and lead to its end;
* `ran_program`: `Run()` comes to the instruction that gives up control and returns there.
-/
import ChuckStation.CpuCodeBytes
import ChuckStation.CpuInstructions
import ChuckStation.CpuRun
import ChuckStation.MachineTriples

namespace Cpu

open MachineTriples
open X86 (Insn)

/-! ## Programs in memory -/

/-- The guest as a program sees it that relies on no flag. -/
def Guest.programState (g : Guest) : X86.State where
  gpr := g.ctx.gpr
  rip := g.ctx.rip
  mem := g.mem.bytes
  calls := g.callStack.map CallFrame.returnAddr

theorem Guest.programState_matches (g : Guest) : Matches g.programState g :=
  ⟨rfl, rfl, Known.nothing _, rfl, rfl⟩

/-- The program is in memory, where it can be fetched and has no breakpoints, and it may read and
write what the guest may. -/
structure Installed (P : X86.Program) (m : Machine) : Prop where
  text : P.Holds m.mem.bytes
  reachable : ∀ a i, P.fetch a = some i →
    a ≠ 0 ∧ i.length ≤ fetchLength m.mem a ∧ m.cpu.isBreakpoint a = false
  readable_eq : m.mem.readable = P.readable
  writable_eq : m.mem.writable = P.writable

section Installed

variable {P : X86.Program} {s s' : X86.State} {m m' : Machine} {i : Insn} {a : U64}

/-- The buffer over an instruction of the program begins with its bytes. -/
theorem Installed.begins (h : Installed P m) (hfetch : P.fetch a = some i) :
    Begins (codeBuf m.mem a (fetchLength m.mem a)) i.bytes := by
  intro k b hb
  have hk : k < i.bytes.length := (List.getElem?_eq_some_iff.mp hb).1
  have hlen : k < fetchLength m.mem a := hk.trans_le (h.reachable a i hfetch).2.1
  have hget : P.text[(a - P.base).toNat + k]? = some b := by
    obtain ⟨rest, hrest⟩ := X86.insnAt_bytes hfetch
    rw [← List.getElem?_drop, X86.Program.text, ← hrest, List.getElem?_append_left hk, hb]
  have haddr : P.base + BitVec.ofNat 64 ((a - P.base).toNat + k) = a + BitVec.ofNat 64 k := by
    rw [BitVec.ofNat_add, ← BitVec.add_assoc, ByteStore.add_ofNat_toNat_sub]
  obtain ⟨hlt, hbyte⟩ := List.getElem?_eq_some_iff.mp hget
  rw [codeBuf, if_pos hlen, ← haddr, ← hbyte]
  have hread := List.getElem_of_eq h.text (by rwa [ByteStore.length_read])
  rw [← hread, ByteStore.getElem_read]

theorem firstChunk_pos (a : U64) : 0 < firstChunk a := by
  have hoffset : (a &&& 4095).toNat < 4096 := by
    rw [BitVec.toNat_and]
    exact Nat.lt_of_le_of_lt Nat.and_le_right (by decide)
  unfold firstChunk
  omega

/-- Where the 31 bytes behind a program can be read, too, every instruction of it can be fetched. -/
theorem fetchLength_of_readable (hfetch : P.fetch a = some i) {mem : GuestMemory}
    (hr : mem.readable = P.readable) (hroom : X86.size P.insns + 31 < 2 ^ 64)
    (hread : ∀ b n, 0 < n → (b - P.base).toNat + n ≤ X86.size P.insns + 31 →
      P.readable b n = true) :
    fetchLength mem a = 32 := by
  have hlt : (a - P.base).toNat < X86.size P.insns := X86.insnAt_lt hfetch
  have hchunk : firstChunk a ≤ 32 := min_le_left _ _
  have hpos : 0 < firstChunk a := firstChunk_pos a
  have hnext : (a + BitVec.ofNat 64 (firstChunk a) - P.base).toNat =
      (a - P.base).toNat + firstChunk a := by
    have haddr : a + BitVec.ofNat 64 (firstChunk a) =
        P.base + BitVec.ofNat 64 ((a - P.base).toNat + firstChunk a) := by
      rw [BitVec.ofNat_add, ← BitVec.add_assoc, ByteStore.add_ofNat_toNat_sub]
    rw [haddr, ByteStore.toNat_add_ofNat_sub _ _ (by omega)]
  have hfirst : mem.readable a (firstChunk a) = true := by
    rw [hr]
    exact hread _ _ hpos (by omega)
  rw [fetchLength_eq, if_pos hfirst]
  by_cases hfull : firstChunk a < 32
  · have hsecond : mem.readable (a + BitVec.ofNat 64 (firstChunk a)) (32 - firstChunk a) =
        true := by
      rw [hr]
      exact hread _ _ (by omega) (by omega)
    rw [hsecond, decide_eq_true hfull]
    rfl
  · rw [decide_eq_false hfull, Bool.false_and, if_neg Bool.false_ne_true]
    omega

/-- A program whose text is in readable memory away from null, without breakpoints. -/
theorem Installed.of_readable (htext : P.Holds m.mem.bytes) (hr : m.mem.readable = P.readable)
    (hw : m.mem.writable = P.writable) (hbp : m.cpu.bpByAddr = ∅)
    (hnull : ∀ k < X86.size P.insns, P.base + BitVec.ofNat 64 k ≠ 0)
    (hroom : X86.size P.insns + 31 < 2 ^ 64)
    (hread : ∀ b n, 0 < n → (b - P.base).toNat + n ≤ X86.size P.insns + 31 →
      P.readable b n = true) :
    Installed P m where
  text := htext
  reachable b j hfetch := by
    refine ⟨?_, ?_, ?_⟩
    · have hne := hnull _ (X86.insnAt_lt hfetch)
      rwa [ByteStore.add_ofNat_toNat_sub] at hne
    · rw [fetchLength_of_readable hfetch hr hroom hread]
      exact j.length_le.trans (by norm_num)
    · rw [CpuState.isBreakpoint, hbp]
      rfl
  readable_eq := hr
  writable_eq := hw

/-- A step over an instruction of the program. -/
theorem Installed.decodes (h : Installed P m) (hfetch : P.fetch m.cpu.ctx.rip = some i)
    {p : Prefixes}
    (hp : scanPrefixes (codeBuf m.mem m.cpu.ctx.rip (fetchLength m.mem m.cpu.ctx.rip)) = some p) :
    Decodes m (codeBuf m.mem m.cpu.ctx.rip (fetchLength m.mem m.cpu.ctx.rip)) p := by
  obtain ⟨hrip, hlen, hbp⟩ := h.reachable _ i hfetch
  have hpos : fetchLength m.mem m.cpu.ctx.rip ≠ 0 := by
    have := i.length_pos
    omega
  exact ⟨hrip, if_neg hpos, hbp, hp⟩

end Installed

/-! ## Steps -/

/-- The machine behind a step that returns `Ok`. -/
def Machine.next (m : Machine) : Option Machine :=
  match executeOne m with
  | .ok out => if out.result = .Ok then some out.machine else none
  | .error _ => none

/-- The machine has the program in memory and is in the state. -/
structure Carries (P : X86.Program) (s : X86.State) (m : Machine) : Prop where
  state : Matches s m.guest
  installed : Installed P m

section Steps

variable {P : X86.Program} {s s' : X86.State} {m m' : Machine} {i : Insn} {r : StepResult}

theorem Machine.next_of_ok {out : StepOutcome} (hout : executeOne m = .ok out)
    (hres : out.result = .Ok) : m.next = some out.machine := by
  rw [next, hout]
  exact if_pos hres

/-- How much can be fetched depends on what can be read. -/
theorem fetchLength_congr {mem mem' : GuestMemory} (h : mem'.readable = mem.readable) (a : U64) :
    fetchLength mem' a = fetchLength mem a := by
  unfold fetchLength
  rw [h]

/-- A program stays where its text stays. -/
theorem Installed.congr (h : Installed P m) (htext : P.Holds m'.mem.bytes)
    (hr : m'.mem.readable = m.mem.readable) (hw : m'.mem.writable = m.mem.writable)
    (hbp : m'.cpu.bpByAddr = m.cpu.bpByAddr) : Installed P m' where
  text := htext
  reachable a i hfetch := by
    obtain ⟨hne, hlen, hnone⟩ := h.reachable a i hfetch
    refine ⟨hne, by rwa [fetchLength_congr hr], ?_⟩
    rwa [CpuState.isBreakpoint, hbp]
  readable_eq := hr.trans h.readable_eq
  writable_eq := hw.trans h.writable_eq

/-- A step over an instruction does what its case does. -/
theorem Carries.executeOne (h : Carries P s m) (hfetch : P.fetch s.rip = some i)
    (htakes : Begins (codeBuf m.mem m.cpu.ctx.rip (fetchLength m.mem m.cpu.ctx.rip)) i.bytes →
      TakesTo (codeBuf m.mem m.cpu.ctx.rip (fetchLength m.mem m.cpu.ctx.rip)) m.guest r s')
    (htext : P.Holds s'.mem) :
    ∃ out, executeOne m = .ok out ∧ out.result = r ∧ Carries P s' out.machine := by
  have hrip : m.cpu.ctx.rip = s.rip := h.state.rip_eq
  rw [← hrip] at hfetch
  obtain ⟨p, e, hp, he, hres, hstate, hr, hw⟩ := htakes (h.installed.begins hfetch)
  have hout := executeOne_eq_finish (h.installed.decodes hfetch hp) he
  refine ⟨m.finish e, hout, hres, by rwa [Machine.finish_guest], ?_⟩
  refine h.installed.congr ?_ hr hw (executeOne_bpByAddr hout)
  rwa [Machine.finish_mem, hstate.mem_eq]

/-- **One step.**  The interpreter makes every step that the program makes. -/
theorem next_simulates (P : X86.Program) : Simulates P.step Machine.next (Carries P) := by
  intro s m s' h hstep
  obtain ⟨i, hfetch, hexec⟩ := Option.bind_eq_some_iff.mp hstep
  have htext : P.Holds s.mem := by
    rw [← h.state.mem_eq]
    exact h.installed.text
  obtain ⟨out, hout, hres, hcarries⟩ := h.executeOne hfetch
    (fun hb => exec_takesTo hb h.state h.installed.readable_eq h.installed.writable_eq hexec)
    (htext.exec hexec)
  exact ⟨out.machine, Machine.next_of_ok hout hres, hcarries⟩

/-- And gives up control where the program does. -/
theorem Carries.trap {t : X86.Trap} (h : Carries P s m) (hfetch : P.fetch s.rip = some i)
    (htrap : i.trap = some t) :
    ∃ out, Cpu.executeOne m = .ok out ∧ out.result = resultOf t ∧
      Carries P (s.advance i.length) out.machine := by
  have htext : P.Holds s.mem := by
    rw [← h.state.mem_eq]
    exact h.installed.text
  exact h.executeOne hfetch (fun hb => trap_takesTo hb h.state htrap) htext

/-- MOV RAX, 10, MOV RCX, 3, IMUL RAX, RCX, SUB RAX, 5 and HLT at 0x1000. -/
def pipeline : X86.Program where
  base := 0x1000
  insns := [.movImm 0 10, .movImm 1 3, .imul 0 1, .aluImm .sub 0 5, .hlt]
  readable := fun _ _ => true
  writable := fun _ _ => true
  fits := by decide

def pipelineMachine : Machine where
  cpu := { ctx := { rip := 0x1000 } }
  mem :=
    { bytes := ByteStore.write (fun _ => 0) 0x1000 pipeline.text
      readable := fun _ _ => true
      writable := fun _ _ => true }

theorem pipeline_carries :
    Carries pipeline pipelineMachine.guest.programState pipelineMachine := by
  refine ⟨Guest.programState_matches _, ?_⟩
  refine Installed.of_readable ?_ rfl rfl rfl ?_ (by decide) fun _ _ _ _ => rfl
  · exact ByteStore.read_write_self _ _ _ pipeline.fits.le
  · intro k hk
    have hlt : k < 23 := hk
    show (0x1000 : U64) + BitVec.ofNat 64 k ≠ 0
    bv_omega

end Steps

/-! ## Run -/

/-- The loop of `Run()` for at most `fuel` turns, while nobody calls `Pause()` or `Stop()`: what it
returns and leaves behind, or nothing while it goes on. -/
def runLoop : ℕ → Machine → Option (Except HostUndefined (StepResult × Machine))
  | 0, _ => none
  | fuel + 1, m =>
      match executeOne m with
      | .error u => some (.error u)
      | .ok out =>
          match out.result with
          | .Ok => runLoop fuel out.machine
          | .Unimplemented => runLoop fuel out.machine.skip
          | r => some (.ok (r, { out.machine with cpu := out.machine.cpu.leave .run }))

/-- `Run()`. -/
def run (fuel : ℕ) (m : Machine) : Option (Except HostUndefined (StepResult × Machine)) :=
  runLoop fuel { m with cpu := m.cpu.enter .run }

section Run

variable {P : X86.Program} {s s' : X86.State} {m m' : Machine} {i : Insn} {n : ℕ}

theorem runLoop_of_next (h : m.next = some m') (fuel : ℕ) :
    runLoop (fuel + 1) m = runLoop fuel m' := by
  rw [Machine.next] at h
  rw [runLoop]
  cases hout : executeOne m with
  | error u =>
      rw [hout] at h
      cases h
  | ok out =>
      rw [hout] at h
      obtain ⟨hres, hsome⟩ := Option.ite_none_right_eq_some.mp h
      cases hsome
      dsimp only
      rw [hres]

/-- The loop goes on as long as the steps return `Ok`. -/
theorem runLoop_of_after (h : after Machine.next n m = some m') (fuel : ℕ) :
    runLoop (fuel + n) m = runLoop fuel m' := by
  induction n generalizing m with
  | zero =>
      cases h
      rfl
  | succ n ih =>
      obtain ⟨m₁, hstep, hrest⟩ := after_succ_eq_some h
      rw [← Nat.add_assoc, runLoop_of_next hstep, ih hrest]

/-- Whether the interpreter counts as running does not matter to a program. -/
theorem Carries.congr (h : Carries P s m) (hguest : m'.guest = m.guest)
    (hbp : m'.cpu.bpByAddr = m.cpu.bpByAddr) : Carries P s m' := by
  have hmem : m'.mem = m.mem := congrArg Guest.mem hguest
  refine ⟨by rw [hguest]; exact h.state, h.installed.congr ?_ ?_ ?_ hbp⟩
  · rw [hmem]
    exact h.installed.text
  · rw [hmem]
  · rw [hmem]

/-- What holds where a program gives up control holds where `Run()` returns. -/
theorem ran_of_triple {A B : X86.State → Prop} {t : X86.Trap} {fuel : ℕ}
    (htriple : Triple P.step A n B)
    (htrap : ∀ s, B s → ∃ i, P.fetch s.rip = some i ∧ i.trap = some t)
    (h : Carries P s m) (hA : A s) (hfuel : n < fuel) :
    ∃ s' i m', B s' ∧ P.fetch s'.rip = some i ∧ run fuel m = some (.ok (resultOf t, m')) ∧
      Carries P (s'.advance i.length) m' := by
  have hstart : Carries P s { m with cpu := m.cpu.enter .run } := h.congr rfl rfl
  obtain ⟨m₁, hsteps, s', hcarries, hB⟩ :=
    (next_simulates P).triple htriple _ ⟨s, hstart, hA⟩
  obtain ⟨i, hfetch, hi⟩ := htrap s' hB
  obtain ⟨out, hout, hres, hend⟩ := hcarries.trap hfetch hi
  obtain ⟨k, rfl⟩ := Nat.exists_eq_add_of_lt hfuel
  refine ⟨s', i, { out.machine with cpu := out.machine.cpu.leave .run }, hB, hfetch, ?_,
    hend.congr rfl rfl⟩
  have hturns : n + k + 1 = k + 1 + n := by omega
  rw [run, hturns, runLoop_of_after hsteps, runLoop, hout]
  dsimp only
  rw [hres]
  cases t <;> rfl

end Run

end Cpu
