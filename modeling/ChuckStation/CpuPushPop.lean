/-
# PUSH and POP

A run over PUSH r and POP s through guest memory.  Both use the same word, and the code of the POP
does not change under the PUSH as long as the two are apart.  POP stores the popped value before it
moves `RSP`, so that POP RSP ends 8 bytes above the value it popped.
-/
import ChuckStation.CpuCodeBytes
import ChuckStation.CpuConditions

namespace Cpu

open Guest GuestMemory

/-! ## Code behind a write -/

/-- Bytes written apart from an instruction leave its decoding as it was. -/
theorem Decodes.of_write {m m' : Machine} {ip : ℕ → Byte} {p : Prefixes} {a : U64}
    {bs : List Byte} (hd : Decodes m ip p) (hrip : m'.cpu.ctx.rip = m.cpu.ctx.rip)
    (hbp : m'.cpu.bpByAddr = m.cpu.bpByAddr)
    (hmem : m'.mem = { m.mem with bytes := ByteStore.write m.mem.bytes a bs })
    (hdis : ∀ i < p.off,
      bs.length ≤ (m.cpu.ctx.rip + BitVec.ofNat 64 i - a).toNat) :
    ∃ ip', Decodes m' ip' p := by
  have hlen : fetchLength m'.mem m.cpu.ctx.rip = fetchLength m.mem m.cpu.ctx.rip := by
    rw [hmem]
    rfl
  have hpos : fetchLength m.mem m.cpu.ctx.rip ≠ 0 := by
    intro hzero
    have hfetch := hd.fetch_eq
    simp only [fetch, hzero, if_true] at hfetch
    cases hfetch
  refine ⟨codeBuf m'.mem m.cpu.ctx.rip (fetchLength m'.mem m.cpu.ctx.rip), ?_, ?_, ?_, ?_⟩
  · rw [hrip]
    exact hd.rip_ne_zero
  · rw [hrip, fetch, if_neg (by rwa [hlen])]
  · rw [CpuState.isBreakpoint, hrip, hbp]
    exact hd.no_breakpoint
  · apply scanPrefixes_congr _ hd.scan_eq
    intro i hi
    rw [fetch_eq_some hd.fetch_eq, hlen, codeBuf, codeBuf, hmem]
    split_ifs
    · exact ByteStore.write_apply_of_le _ _ _ _ (hdis i hi)
    · rfl

/-! ## The two instructions -/

/-- At `RIP` there is PUSH `r`, behind it POP `s`; the 8 bytes below `RSP` are readable, writable
and apart from the bytes of both. -/
def PushPopAt (m : Machine) (r s : RegIdx) : Prop :=
  ∃ ip p ip' p', Decodes m ip p ∧ opCase p.opcode = .push ∧ regOf p.opcode p.rexB = r ∧
    Decodes (m.at (m.cpu.ctx.rip + BitVec.ofNat 64 p.off)) ip' p' ∧
    opCase p'.opcode = .pop ∧ regOf p'.opcode p'.rexB = s ∧
    m.mem.readable (m.cpu.ctx.gpr Reg.RSP - 8) 8 = true ∧
    m.mem.writable (m.cpu.ctx.gpr Reg.RSP - 8) 8 = true ∧
    ∀ i < p.off + p'.off,
      8 ≤ (m.cpu.ctx.rip + BitVec.ofNat 64 i - (m.cpu.ctx.gpr Reg.RSP - 8)).toNat

/-- Both steps from `m` return `Ok`, and after them the old value of `r` is in `s`; no other
register and no flag has changed. -/
def MovesThroughStack (m : Machine) (r s : RegIdx) : Prop :=
  ∃ out out', executeOne m = .ok out ∧ out.result = .Ok ∧
    executeOne out.machine = .ok out' ∧ out'.result = .Ok ∧
    out'.machine.cpu.ctx.gpr = Function.update m.cpu.ctx.gpr s (m.cpu.ctx.gpr r) ∧
    out'.machine.cpu.ctx.rflags = m.cpu.ctx.rflags

/-- The registers that a PUSH of `v` and a POP to `s` leave. -/
def pushPopGpr (gpr : RegIdx → U64) (s : RegIdx) (v : U64) : RegIdx → U64 :=
  let popped := Function.update (Function.update gpr Reg.RSP (gpr Reg.RSP - 8)) s v
  Function.update popped Reg.RSP (popped Reg.RSP + 8)

/-- They are the old ones with `v` in `s`, unless `s` is `RSP`. -/
theorem pushPopGpr_eq_iff {gpr : RegIdx → U64} {s : RegIdx} {v : U64} :
    pushPopGpr gpr s v = Function.update gpr s v ↔ s ≠ Reg.RSP := by
  constructor
  · rintro h rfl
    have hrsp := congrFun h Reg.RSP
    simp only [pushPopGpr, Function.update_self] at hrsp
    exact absurd hrsp (by bv_omega)
  · intro hs
    funext k
    unfold pushPopGpr
    rcases eq_or_ne k Reg.RSP with rfl | hk
    · simp [Function.update_of_ne hs.symm]
    · rcases eq_or_ne k s with rfl | hks
      · simp [hk]
      · simp [hk, hks]

/-- A step over PUSH stores the register below `RSP`. -/
theorem executeOne_push {m : Machine} {ip : ℕ → Byte} {p : Prefixes} (hd : Decodes m ip p)
    (hpush : opCase p.opcode = .push)
    (hwrite : m.mem.writable (m.cpu.ctx.gpr Reg.RSP - 8) 8 = true) :
    ∃ out, executeOne m = .ok out ∧ out.result = .Ok ∧
      out.machine.cpu.ctx =
        (m.cpu.ctx.setGpr Reg.RSP (m.cpu.ctx.gpr Reg.RSP - 8)).advance p.off ∧
      out.machine.mem =
        { m.mem with
          bytes := ByteStore.write m.mem.bytes (m.cpu.ctx.gpr Reg.RSP - 8)
            (LittleEndian.toBytes 8 (m.cpu.ctx.gpr (regOf p.opcode p.rexB))) } := by
  have hcase : execCase (opCase p.opcode) ip p m.guest = .ok (execPush p m.guest) := by
    rw [hpush, execCase]
  rw [execPush_eq p m.guest hwrite] at hcase
  exact ⟨_, executeOne_eq_finish hd hcase, rfl, Machine.finish_ctx _ _, rfl⟩

/-- A step over POP loads the register from the word at `RSP`. -/
theorem executeOne_pop {m : Machine} {ip : ℕ → Byte} {p : Prefixes} (hd : Decodes m ip p)
    (hpop : opCase p.opcode = .pop) (hread : m.mem.readable (m.cpu.ctx.gpr Reg.RSP) 8 = true) :
    ∃ out, executeOne m = .ok out ∧ out.result = .Ok ∧
      out.machine.cpu.ctx.rflags = m.cpu.ctx.rflags ∧
      out.machine.cpu.ctx.gpr =
        let popped := Function.update m.cpu.ctx.gpr (regOf p.opcode p.rexB)
          (m.mem.word64 (m.cpu.ctx.gpr Reg.RSP))
        Function.update popped Reg.RSP (popped Reg.RSP + 8) := by
  have hcase : execCase (opCase p.opcode) ip p m.guest = .ok (execPop p m.guest) := by
    rw [hpop, execCase]
  rw [execPop_eq p m.guest hread] at hcase
  refine ⟨_, executeOne_eq_finish hd hcase, rfl, ?_, ?_⟩
  · rw [Machine.finish_ctx]
    rfl
  · rw [Machine.finish_ctx]
    rfl

/-- Both instructions execute, and the word comes back. -/
theorem pushPop_run {m : Machine} {r s : RegIdx} (h : PushPopAt m r s) :
    ∃ out out', executeOne m = .ok out ∧ out.result = .Ok ∧
      executeOne out.machine = .ok out' ∧ out'.result = .Ok ∧
      out'.machine.cpu.ctx.gpr = pushPopGpr m.cpu.ctx.gpr s (m.cpu.ctx.gpr r) ∧
      out'.machine.cpu.ctx.rflags = m.cpu.ctx.rflags := by
  obtain ⟨ip, p, ip', p', hd, hpush, rfl, hd', hpop, rfl, hread, hwrite, hdis⟩ := h
  obtain ⟨out, hout, hres, hctx, hmem⟩ := executeOne_push hd hpush hwrite
  have hrsp : out.machine.cpu.ctx.gpr Reg.RSP = m.cpu.ctx.gpr Reg.RSP - 8 := by
    rw [hctx, CpuContext.advance_gpr, CpuContext.setGpr_gpr, Function.update_self]
  have hbp := executeOne_bpByAddr hout
  -- the POP is decoded from bytes that the PUSH did not write
  obtain ⟨ip'', hd''⟩ : ∃ ip'', Decodes out.machine ip'' p' := by
    refine hd'.of_write (by rw [hctx]; rfl) hbp hmem fun i hi => ?_
    have hbyte := hdis (p.off + i) (by omega)
    rwa [BitVec.ofNat_add, ← BitVec.add_assoc] at hbyte
  have hword : out.machine.mem.word64 (out.machine.cpu.ctx.gpr Reg.RSP) =
      m.cpu.ctx.gpr (regOf p.opcode p.rexB) := by
    rw [hrsp, hmem]
    exact word64_write_self _ _ _ _ _
  have hread' : out.machine.mem.readable (out.machine.cpu.ctx.gpr Reg.RSP) 8 = true := by
    rw [hrsp, hmem]
    exact hread
  obtain ⟨out', hout', hres', hflags, hgpr⟩ := executeOne_pop hd'' hpop hread'
  refine ⟨out, out', hout, hres, hout', hres', ?_, ?_⟩
  · rw [hgpr, hword, hctx]
    rfl
  · rw [hflags, hctx]
    rfl

/-- For every PUSH and POP at `m`, the value moves through the stack. -/
def PushPopInverse (m : Machine) : Prop := ∀ r s, PushPopAt m r s → MovesThroughStack m r s

/-- **PUSH and POP, exactly.**  They are inverse if and only if the POP is none of `RSP`. -/
theorem pushPopInverse_iff (m : Machine) :
    PushPopInverse m ↔ ¬ ∃ r, PushPopAt m r Reg.RSP := by
  constructor
  · rintro h ⟨r, hat⟩
    obtain ⟨out, out', hout, -, hout', -, hgpr, -⟩ := pushPop_run hat
    obtain ⟨out₁, out₁', hout₁, -, hout₁', -, hmoved, -⟩ := h r Reg.RSP hat
    cases hout.symm.trans hout₁
    cases hout'.symm.trans hout₁'
    rw [hgpr] at hmoved
    exact pushPopGpr_eq_iff.mp hmoved rfl
  · intro h r s hat
    have hs : s ≠ Reg.RSP := by
      rintro rfl
      exact h ⟨r, hat⟩
    obtain ⟨out, out', hout, hres, hout', hres', hgpr, hflags⟩ := pushPop_run hat
    rw [pushPopGpr_eq_iff.mpr hs] at hgpr
    exact ⟨out, out', hout, hres, hout', hres', hgpr, hflags⟩

/-- PUSH RSP and POP RSP at 0x1000, with 0x8000 in `RSP`. -/
def pushPopRsp : Machine where
  cpu :=
    { ctx :=
        { gpr := Function.update (fun _ => 0) Reg.RSP 0x8000
          rip := 0x1000 } }
  mem :=
    { bytes := ByteStore.write (fun _ => 0x90) 0x1000 [0x54, 0x5C]
      readable := fun _ _ => true
      writable := fun _ _ => true }

/-- The two steps from `pushPopRsp` leave 0x8008 in `RSP`. -/
theorem not_pushPopInverse_rsp : ¬ ∀ m, PushPopInverse m := by
  intro h
  have hat : PushPopAt pushPopRsp Reg.RSP Reg.RSP :=
    ⟨codeBuf pushPopRsp.mem 0x1000 32, { off := 1, opcode := 0x54 },
      codeBuf pushPopRsp.mem 0x1001 32, { off := 1, opcode := 0x5C },
      ⟨by decide, rfl, rfl, rfl⟩, by decide, by decide, ⟨by decide, rfl, rfl, rfl⟩, by decide,
      by decide, rfl, rfl, by decide⟩
  obtain ⟨out, out', hout, -, hout', -, hgpr, -⟩ := h pushPopRsp _ _ hat
  have hrun : runSteps 2 pushPopRsp = .ok out'.machine := by
    simp only [runSteps, hout, hout', ok_bind]
  have hrsp : out'.machine.cpu.ctx.gpr Reg.RSP = 0x8008 :=
    eq_of_toOption_map (fun m => m.cpu.ctx.gpr Reg.RSP) hrun (by decide)
  rw [hgpr] at hrsp
  exact absurd hrsp (by decide)

end Cpu
