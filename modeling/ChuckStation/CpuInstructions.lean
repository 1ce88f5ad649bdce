/-
# Instructions on the interpreter

The interpreter against what the architecture says about the instructions of X86Programs, one by
one: over the encoding of an instruction the switch ends with `Ok`, in the state that `exec` gives,
and the flags that a program may rely on are right.
-/
import ChuckStation.CpuConditions
import ChuckStation.CpuEncodings
import ChuckStation.CpuMultiplication
import ChuckStation.CpuShifts

namespace Cpu

open Guest GuestMemory
open X86 (Alu Insn Unary Shift modReg modMem isHigh)

/-! ## States of a program -/

/-- The flags that a program may rely on are those of the context. -/
structure Known (f : X86.Flags) (ctx : CpuContext) : Prop where
  carry : ∀ b ∈ f.carry, ctx.flag Flags.CF = b
  parity : ∀ b ∈ f.parity, ctx.flag Flags.PF = b
  zero : ∀ b ∈ f.zero, ctx.flag Flags.ZF = b
  sign : ∀ b ∈ f.sign, ctx.flag Flags.SF = b
  overflow : ∀ b ∈ f.overflow, ctx.flag Flags.OF = b

/-- The guest is in the state. -/
structure Matches (s : X86.State) (g : Guest) : Prop where
  gpr_eq : g.ctx.gpr = s.gpr
  rip_eq : g.ctx.rip = s.rip
  flags : Known s.flags g.ctx
  mem_eq : g.mem.bytes = s.mem
  calls_eq : g.callStack.map CallFrame.returnAddr = s.calls

/-- The case ends with the result and with the guest in the state, where the ranges of memory that
may be read and written are the same. -/
structure Reaches (g : Guest) (r : StepResult) (s : X86.State) (e : CaseExit) : Prop where
  result_eq : e.result = r
  state : Matches s e.guest
  readable_eq : e.guest.mem.readable = g.mem.readable
  writable_eq : e.guest.mem.writable = g.mem.writable

/-- The instruction in the buffer takes the guest to the state, with the result. -/
def TakesTo (ip : ℕ → Byte) (g : Guest) (r : StepResult) (s : X86.State) : Prop :=
  ∃ p e, scanPrefixes ip = some p ∧ execCase (opCase p.opcode) ip p g = .ok e ∧ Reaches g r s e

section States

variable {f : X86.Flags} {ctx ctx' : CpuContext} {s s' : X86.State} {g : Guest} {ip : ℕ → Byte}
  {e : CaseExit} {r : StepResult}

theorem Known.nothing (ctx : CpuContext) : Known {} ctx := by
  constructor <;> exact fun _ h => absurd h (Option.not_mem_none _)

theorem Known.congr (h : Known f ctx) (hflags : ctx'.rflags = ctx.rflags) : Known f ctx' where
  carry b hb := (CpuContext.flag_congr hflags _).trans (h.carry b hb)
  parity b hb := (CpuContext.flag_congr hflags _).trans (h.parity b hb)
  zero b hb := (CpuContext.flag_congr hflags _).trans (h.zero b hb)
  sign b hb := (CpuContext.flag_congr hflags _).trans (h.sign b hb)
  overflow b hb := (CpuContext.flag_congr hflags _).trans (h.overflow b hb)

theorem evenParity_eq (r : U64) : X86.evenParity r = parity r := by
  rw [Bool.eq_iff_iff, parity_iff, Nat.even_iff]
  exact beq_iff_eq

/-- The flags of a result. -/
theorem Leaves.known {r : U64} {cf ovf : Bool} {c o : Option Bool} (h : Leaves ctx r cf ovf ctx')
    (hc : ∀ b ∈ c, cf = b) (ho : ∀ b ∈ o, ovf = b) : Known (.ofResult c o r) ctx' where
  carry b hb := h.cf_eq.trans (hc b hb)
  parity b hb := by
    cases hb
    rw [h.pf_eq, evenParity_eq]
  zero b hb := by
    cases hb
    exact h.zf_eq
  sign b hb := by
    cases hb
    exact h.sf_eq
  overflow b hb := h.of_eq.trans (ho b hb)

/-- A case that changes the context only. -/
theorem Matches.reaches (h : Matches s g) (hgpr : ctx.gpr = s'.gpr) (hrip : ctx.rip = s'.rip)
    (hflags : Known s'.flags ctx) (hkept : s'.mem = s.mem ∧ s'.calls = s.calls)
    (accesses : List Access) : Reaches g .Ok s' ((g.withCtx ctx).brk accesses) where
  result_eq := rfl
  state := ⟨hgpr, hrip, hflags, h.mem_eq.trans hkept.1.symm, h.calls_eq.trans hkept.2.symm⟩
  readable_eq := rfl
  writable_eq := rfl

/-- A case that writes one register. -/
theorem Matches.reaches_setGpr (h : Matches s g) (n : ℕ) (dst : Fin 16) (v : U64)
    (accesses : List Access) : Reaches g .Ok ((s.advance n).setGpr dst v)
      ((g.withCtx ((g.ctx.advance n).setGpr dst v)).brk accesses) := by
  refine h.reaches ?_ ?_ ?_ ?_ accesses
  · exact congrArg (Function.update · dst v) h.gpr_eq
  · exact congrArg (· + BitVec.ofNat 64 n) h.rip_eq
  · exact h.flags.congr rfl
  · exact ⟨rfl, rfl⟩

/-- An instruction that begins with its opcode. -/
theorem takesTo_plain {c : OpCase} (h0 : isPrefix (ip 0) = false) (hc : opCase (ip 0) = c)
    (he : execCase c ip { off := 1, opcode := ip 0 } g = .ok e) (h : Reaches g r s e) :
    TakesTo ip g r s :=
  ⟨_, e, scanPrefixes_plain h0, by rw [hc, he], h⟩

/-- An instruction with 64-bit operands. -/
theorem takesTo_wide {reg rm : Fin 16} {opcode : Byte} {c : OpCase} (h0 : ip 0 = X86.rexW reg rm)
    (h1 : ip 1 = opcode) (hplain : isPrefix opcode = false) (hc : opCase opcode = c)
    (he : execCase c ip (wide reg rm opcode) g = .ok e) (h : Reaches g r s e) : TakesTo ip g r s :=
  ⟨_, e, scanPrefixes_wide reg rm opcode h0 h1 hplain, by rw [wide_opcode, hc, he], h⟩

end States

/-! ## Moves -/

section Moves

variable {s : X86.State} {g : Guest} {ip : ℕ → Byte} {dst src base : Fin 16} {disp : U32}

theorem nop_takesTo (hb : Begins ip Insn.nop.bytes) (hs : Matches s g) :
    TakesTo ip g .Ok (s.advance 1) := by
  have h0 : ip 0 = 0x90 := hb 0 _ rfl
  refine takesTo_plain (c := .nop) (by rw [h0]; decide) (by rw [h0]; decide) rfl ?_
  refine hs.reaches ?_ ?_ ?_ ?_ []
  · exact hs.gpr_eq
  · exact congrArg (· + 1) hs.rip_eq
  · exact hs.flags.congr rfl
  · exact ⟨rfl, rfl⟩

theorem mov_takesTo (hb : Begins ip (Insn.mov dst src).bytes) (hs : Matches s g) :
    TakesTo ip g .Ok ((s.advance 3).setGpr dst (s.gpr src)) := by
  have h2 : ip 2 = modReg dst src := hb 2 _ rfl
  have hcase : execMovLoad ip (wide dst src 0x8B) g =
      (g.withCtx ((g.ctx.advance 3).setGpr dst (s.gpr src))).brk := by
    simp only [execMovLoad, wide_off, h2, modOf_modReg, if_true, regField_modReg, rmField_modReg,
      CpuContext.advance_gpr, hs.gpr_eq]
  exact takesTo_wide (c := .movLoad) (hb 0 _ rfl) (hb 1 _ rfl) (by decide) (by decide)
    (congrArg Except.ok hcase) (hs.reaches_setGpr _ _ _ [])

theorem movImm_takesTo {imm : U32} (hb : Begins ip (Insn.movImm dst imm).bytes)
    (hs : Matches s g) : TakesTo ip g .Ok ((s.advance 7).setGpr dst (imm.signExtend 64)) := by
  have h2 : ip 2 = modReg 0 dst := hb 2 _ rfl
  have himm : readS32 ip 3 = imm.signExtend 64 :=
    Begins.readS32 [X86.rexW 0 dst, 0xC7, modReg 0 dst] hb
  have hcase : execMovImmC7 ip (wide 0 dst 0xC7) g =
      (g.withCtx ((g.ctx.advance 7).setGpr dst (imm.signExtend 64))).brk := by
    simp only [execMovImmC7, wide_off, h2, extOf_modReg, modOf_modReg, wide_rexW, rmField_modReg,
      himm]
    rfl
  exact takesTo_wide (c := .movImmC7) (hb 0 _ rfl) (hb 1 _ rfl) (by decide) (by decide)
    (congrArg Except.ok hcase) (hs.reaches_setGpr _ _ _ [])

theorem movAbs_takesTo {imm : U64} (hb : Begins ip (Insn.movAbs dst imm).bytes)
    (hs : Matches s g) : TakesTo ip g .Ok ((s.advance 10).setGpr dst imm) := by
  have hopcode : ∀ r : Fin 16, isPrefix (0xB8 ||| X86.lowBits r) = false ∧
      opCase (0xB8 ||| X86.lowBits r) = .movImm ∧
      regOf (0xB8 ||| X86.lowBits r) (isHigh r) = r := by decide +kernel
  obtain ⟨hplain, hmov, hreg⟩ := hopcode dst
  have himm : readWord 64 8 ip 2 = imm :=
    Begins.readWord [X86.rexW 0 dst, 0xB8 ||| X86.lowBits dst] hb (by norm_num)
  have hcase : execMovImm ip (wide 0 dst (0xB8 ||| X86.lowBits dst)) g =
      (g.withCtx ((g.ctx.advance 10).setGpr dst imm)).brk := by
    simp only [execMovImm, wide_off, wide_rexW, wide_rexB, wide_opcode, if_true, hreg, himm]
    rfl
  exact takesTo_wide (hb 0 _ rfl) (hb 1 _ rfl) hplain hmov (congrArg Except.ok hcase)
    (hs.reaches_setGpr _ _ _ [])

theorem lea_takesTo (hb : Begins ip (Insn.lea dst base disp).bytes) (hs : Matches s g) :
    TakesTo ip g .Ok ((s.advance 7).setGpr dst (s.gpr base + disp.signExtend 64)) := by
  have h2 : ip 2 = modMem dst base := hb 2 _ rfl
  have hcase : execLea ip (wide dst base 0x8D) g = (g.withCtx ((g.ctx.advance 7).setGpr dst
      (s.gpr base + disp.signExtend 64))).brk := by
    simp only [execLea, wide_off, h2, modOf_modMem, dispField_modMem hb, regField_modMem,
      rmField_modMem, CpuContext.advance_advance, CpuContext.advance_gpr, hs.gpr_eq]
  exact takesTo_wide (c := .lea) (hb 0 _ rfl) (hb 1 _ rfl) (by decide) (by decide)
    (congrArg Except.ok hcase) (hs.reaches_setGpr _ _ _ [])

theorem load_takesTo (hb : Begins ip (Insn.load dst base disp).bytes) (hs : Matches s g)
    (hr : g.mem.readable (s.gpr base + disp.signExtend 64) 8 = true) :
    TakesTo ip g .Ok ((s.advance 7).setGpr dst (s.word (s.gpr base + disp.signExtend 64))) := by
  have h2 : ip 2 = modMem dst base := hb 2 _ rfl
  have hread : g.mem.guestReadWord 64 8 (s.gpr base + disp.signExtend 64) =
      some (s.word (s.gpr base + disp.signExtend 64)) := by
    rw [X86.State.word, ← hs.mem_eq]
    exact guestReadWord_eq_some_iff.mpr ⟨hr, rfl⟩
  have hcase : execMovLoad ip (wide dst base 0x8B) g = (g.withCtx ((g.ctx.advance 7).setGpr dst
      (s.word (s.gpr base + disp.signExtend 64)))).brk
        [⟨.load, s.gpr base + disp.signExtend 64, 8⟩] := by
    simp only [execMovLoad, execMovLoadMem, wide_off, h2, modOf_modMem, wide_rexW, if_true,
      movAddress_modMem hb, movDecoded_modMem hb, hs.gpr_eq, hread, regField_modMem,
      CpuContext.advance_advance, BitVec.setWidth_eq]
    rfl
  exact takesTo_wide (c := .movLoad) (hb 0 _ rfl) (hb 1 _ rfl) (by decide) (by decide)
    (congrArg Except.ok hcase) (hs.reaches_setGpr _ _ _ _)

theorem store_takesTo (hb : Begins ip (Insn.store base disp src).bytes) (hs : Matches s g)
    (hw : g.mem.writable (s.gpr base + disp.signExtend 64) 8 = true) :
    TakesTo ip g .Ok ((s.advance 7).setWord (s.gpr base + disp.signExtend 64) (s.gpr src)) := by
  have h2 : ip 2 = modMem src base := hb 2 _ rfl
  have hwrite := guestWriteWord_eq_some_iff (v := s.gpr src).mpr ⟨hw, rfl⟩
  have hcase : execMovStore ip (wide src base 0x89) g =
      { g with
        ctx := g.ctx.advance 7
        mem := { g.mem with
          bytes := ByteStore.write g.mem.bytes (s.gpr base + disp.signExtend 64)
            (LittleEndian.toBytes 8 (s.gpr src)) } }.brk
        [⟨.store, s.gpr base + disp.signExtend 64, 8⟩] := by
    simp only [execMovStore, execMovStoreMem, wide_off, h2, modOf_modMem, wide_rexW, if_true,
      movAddress_modMem hb, movDecoded_modMem hb, hs.gpr_eq, hwrite, regField_modMem,
      CpuContext.advance_advance, CpuContext.advance_gpr]
    rfl
  refine takesTo_wide (c := .movStore) (hb 0 _ rfl) (hb 1 _ rfl) (by decide) (by decide)
    (congrArg Except.ok hcase) ?_
  refine ⟨rfl, ⟨hs.gpr_eq, congrArg (· + 7) hs.rip_eq, hs.flags.congr rfl, ?_, hs.calls_eq⟩,
    rfl, rfl⟩
  exact congrArg (ByteStore.write · _ _) hs.mem_eq

end Moves

/-! ## Stack and jumps -/

section Jumps

variable {s : X86.State} {g : Guest} {ip : ℕ → Byte} {dst src : Fin 16} {rel : U32} {cc : Fin 16}

/-- The opcodes with a register in their low bits. -/
theorem pushPop_opcode : ∀ r : Fin 16,
    (isPrefix (0x50 ||| X86.lowBits r) = false ∧ opCase (0x50 ||| X86.lowBits r) = .push ∧
      regOf (0x50 ||| X86.lowBits r) (isHigh r) = r) ∧
    (isPrefix (0x58 ||| X86.lowBits r) = false ∧ opCase (0x58 ||| X86.lowBits r) = .pop ∧
      regOf (0x58 ||| X86.lowBits r) (isHigh r) = r) := by
  decide +kernel

theorem push_takesTo (hb : Begins ip (Insn.push src).bytes) (hs : Matches s g)
    (hw : g.mem.writable (s.gpr X86.rsp - 8) 8 = true) :
    TakesTo ip g .Ok (((s.advance 2).setGpr X86.rsp (s.gpr X86.rsp - 8)).setWord (s.gpr X86.rsp - 8)
      (s.gpr src)) := by
  obtain ⟨⟨hplain, hpush, hreg⟩, -⟩ := pushPop_opcode src
  have h1 : ip 1 = 0x50 ||| X86.lowBits src := hb 1 _ rfl
  rw [← hs.gpr_eq] at hw
  rw [← h1] at hplain hpush hreg
  refine ⟨_, _, scanPrefixes_rex (hb 0 _ rfl) hplain,
    by rw [hpush, execCase, execPush_eq _ g hw], rfl, ⟨?_, ?_, hs.flags.congr rfl, ?_, hs.calls_eq⟩,
    rfl, rfl⟩
  · show Function.update g.ctx.gpr _ _ = Function.update s.gpr _ _
    rw [hs.gpr_eq]
  · exact congrArg (· + 2) hs.rip_eq
  · show ByteStore.write g.mem.bytes _ _ = ByteStore.write s.mem _ _
    rw [hs.mem_eq, hs.gpr_eq, hreg]

theorem pop_takesTo (hb : Begins ip (Insn.pop dst).bytes) (hs : Matches s g)
    (hdst : dst ≠ X86.rsp) (hr : g.mem.readable (s.gpr X86.rsp) 8 = true) :
    TakesTo ip g .Ok (((s.advance 2).setGpr dst (s.word (s.gpr X86.rsp))).setGpr X86.rsp
      (s.gpr X86.rsp + 8)) := by
  obtain ⟨-, hplain, hpop, hreg⟩ := pushPop_opcode dst
  have h1 : ip 1 = 0x58 ||| X86.lowBits dst := hb 1 _ rfl
  rw [← hs.gpr_eq] at hr
  rw [← h1] at hplain hpop hreg
  refine ⟨_, _, scanPrefixes_rex (hb 0 _ rfl) hplain,
    by rw [hpop, execCase, execPop_eq _ g hr], ?_⟩
  refine hs.reaches ?_ ?_ ?_ ?_ _
  · have hword : g.mem.word64 (s.gpr X86.rsp) = s.word (s.gpr X86.rsp) := by
      rw [word64, hs.mem_eq]
      rfl
    simp only [CpuContext.advance_gpr, CpuContext.setGpr_gpr, hreg, hs.gpr_eq, hword,
      Function.update_of_ne hdst.symm]
    rfl
  · exact congrArg (· + 2) hs.rip_eq
  · exact hs.flags.congr rfl
  · exact ⟨rfl, rfl⟩

theorem jmp_takesTo (hb : Begins ip (Insn.jmp rel).bytes) (hs : Matches s g) :
    TakesTo ip g .Ok ((s.advance 5).jump (rel.signExtend 64)) := by
  have h0 : ip 0 = 0xE9 := hb 0 _ rfl
  have hrel : readS32 ip 1 = rel.signExtend 64 := Begins.readS32 [0xE9] hb
  refine takesTo_plain (c := .jmpRel32) (by rw [h0]; decide) (by rw [h0]; decide) rfl ?_
  refine hs.reaches ?_ ?_ ?_ ?_ []
  · exact hs.gpr_eq
  · show g.ctx.rip + 5 + readS32 ip 1 = s.rip + 5 + rel.signExtend 64
    rw [hs.rip_eq, hrel]
  · exact hs.flags.congr rfl
  · exact ⟨rfl, rfl⟩

theorem call_takesTo (hb : Begins ip (Insn.call rel).bytes) (hs : Matches s g)
    (hw : g.mem.writable (s.gpr X86.rsp - 8) 8 = true) :
    TakesTo ip g .Ok ((s.advance 5).called (rel.signExtend 64)) := by
  have h0 : ip 0 = 0xE8 := hb 0 _ rfl
  have hrel : readS32 ip 1 = rel.signExtend 64 := Begins.readS32 [0xE8] hb
  rw [← hs.gpr_eq] at hw
  refine takesTo_plain (c := .callRel32) (by rw [h0]; decide) (by rw [h0]; decide)
    (congrArg Except.ok (callTo_ok g (g.ctx.advance 5) hw)) ?_
  have hret : g.ctx.rip + 5 = s.rip + 5 := congrArg (· + 5) hs.rip_eq
  refine ⟨rfl, ⟨?_, ?_, hs.flags.congr rfl, ?_, ?_⟩, rfl, rfl⟩
  · show Function.update g.ctx.gpr X86.rsp (g.ctx.gpr X86.rsp - 8) =
      Function.update s.gpr X86.rsp (s.gpr X86.rsp - 8)
    rw [hs.gpr_eq]
  · show g.ctx.rip + 5 + readS32 ip 1 = s.rip + 5 + rel.signExtend 64
    rw [hs.rip_eq, hrel]
  · show ByteStore.write g.mem.bytes _ _ = ByteStore.write s.mem _ _
    rw [hs.mem_eq, CpuContext.advance_gpr, hs.gpr_eq, CpuContext.advance_rip, hs.rip_eq]
    rfl
  · exact congrArg₂ List.cons hret hs.calls_eq

theorem ret_takesTo (hb : Begins ip Insn.ret.bytes) (hs : Matches s g)
    (hr : g.mem.readable (s.gpr X86.rsp) 8 = true) :
    TakesTo ip g .Ok s.returned := by
  have h0 : ip 0 = 0xC3 := hb 0 _ rfl
  rw [← hs.gpr_eq] at hr
  refine takesTo_plain (c := .ret) (by rw [h0]; decide) (by rw [h0]; decide)
    (congrArg Except.ok (returnWith_ok g hr)) ?_
  refine ⟨rfl, ⟨?_, ?_, hs.flags.congr rfl, hs.mem_eq, ?_⟩, rfl, rfl⟩
  · show Function.update g.ctx.gpr _ _ = Function.update s.gpr _ _
    rw [hs.gpr_eq]
    rfl
  · show g.mem.word64 (g.ctx.gpr X86.rsp) = s.word (s.gpr X86.rsp)
    rw [word64, hs.mem_eq, hs.gpr_eq]
    rfl
  · exact List.map_tail.trans (congrArg List.tail hs.calls_eq)

/-- All flags of a context. -/
def flagsOf (ctx : CpuContext) : X86.Flags where
  carry := some (ctx.flag Flags.CF)
  parity := some (ctx.flag Flags.PF)
  zero := some (ctx.flag Flags.ZF)
  sign := some (ctx.flag Flags.SF)
  overflow := some (ctx.flag Flags.OF)

/-- The condition switch is the one of the architecture. -/
theorem condition_flagsOf (ctx : CpuContext) (cc : Fin 16) :
    (flagsOf ctx).condition cc = some (jccTaken ctx cc.val) := by
  unfold flagsOf jccTaken
  generalize ctx.flag Flags.CF = c
  generalize ctx.flag Flags.PF = p
  generalize ctx.flag Flags.ZF = z
  generalize ctx.flag Flags.SF = s
  generalize ctx.flag Flags.OF = o
  revert cc c p z s o
  decide +kernel

/-- What some flags decide all flags decide so. -/
theorem Known.holds_flagsOf {f : X86.Flags} {ctx : CpuContext} {pair : ℕ} {b : Bool}
    (h : Known f ctx) (hb : f.holds pair = some b) : (flagsOf ctx).holds pair = some b := by
  unfold X86.Flags.holds at hb ⊢
  simp only [Option.bind_eq_bind, Option.pure_def] at hb ⊢
  split at hb
  · exact congrArg some (h.overflow b hb)
  · exact congrArg some (h.carry b hb)
  · exact congrArg some (h.zero b hb)
  · obtain ⟨c, hc, z, hz, rfl⟩ : ∃ c, f.carry = some c ∧ ∃ z, f.zero = some z ∧ (c || z) = b := by
      simpa only [Option.bind_eq_some_iff, Option.some.injEq] using hb
    rw [← h.carry c hc, ← h.zero z hz]
    rfl
  · exact congrArg some (h.sign b hb)
  · exact congrArg some (h.parity b hb)
  · obtain ⟨s, hs, o, ho, rfl⟩ : ∃ s, f.sign = some s ∧ ∃ o, f.overflow = some o ∧
        (s != o) = b := by
      simpa only [Option.bind_eq_some_iff, Option.some.injEq] using hb
    rw [← h.sign s hs, ← h.overflow o ho]
    rfl
  · obtain ⟨z, hz, s, hs, o, ho, rfl⟩ : ∃ z, f.zero = some z ∧ ∃ s, f.sign = some s ∧
        ∃ o, f.overflow = some o ∧ (z || s != o) = b := by
      simpa only [Option.bind_eq_some_iff, Option.some.injEq] using hb
    rw [← h.zero z hz, ← h.sign s hs, ← h.overflow o ho]
    rfl

/-- What the flags decide for the program they decide for the interpreter. -/
theorem Known.jccTaken_eq {f : X86.Flags} {ctx : CpuContext} {taken : Bool} (h : Known f ctx)
    (hcond : f.condition cc = some taken) : jccTaken ctx cc.val = taken := by
  obtain ⟨b, hb, rfl⟩ := Option.map_eq_some_iff.mp hcond
  have hall := condition_flagsOf ctx cc
  rw [X86.Flags.condition, h.holds_flagsOf hb] at hall
  exact (Option.some.inj hall).symm

theorem jcc_takesTo {taken : Bool} (hb : Begins ip (Insn.jcc cc rel).bytes) (hs : Matches s g)
    (hcond : s.flags.condition cc = some taken) : TakesTo ip g .Ok
      (if taken then (s.advance 6).jump (rel.signExtend 64) else s.advance 6) := by
  have hopcode : ∀ n : Fin 16, ¬ 0x80 ||| BitVec.ofNat 8 n.val = 0x05 ∧
      0x80 ≤ 0x80 ||| BitVec.ofNat 8 n.val ∧ 0x80 ||| BitVec.ofNat 8 n.val ≤ (0x8F : Byte) ∧
      ((0x80 ||| BitVec.ofNat 8 n.val) &&& 0xF).toNat = n.val := by decide +kernel
  obtain ⟨hne, hlo, hhi, hnum⟩ := hopcode cc
  have h0 : ip 0 = 0x0F := hb 0 _ rfl
  have h1 : ip 1 = 0x80 ||| BitVec.ofNat 8 cc.val := hb 1 _ rfl
  have hrel : readS32 ip 2 = rel.signExtend 64 :=
    Begins.readS32 [0x0F, 0x80 ||| BitVec.ofNat 8 cc.val] hb
  have hcase : execTwoByte ip { off := 1, opcode := ip 0 } g =
      .ok (jumpIf taken 6 (rel.signExtend 64) g) := by
    unfold execTwoByte
    dsimp only
    rw [h1, if_neg hne, if_pos ⟨hlo, hhi⟩, hnum, hs.flags.jccTaken_eq hcond, hrel]
  refine takesTo_plain (c := .twoByte) (by rw [h0]; decide) (by rw [h0]; decide) hcase ?_
  refine hs.reaches ?_ ?_ ?_ ?_ []
  · cases taken <;> exact hs.gpr_eq
  · cases taken with
    | false => exact congrArg (· + 6) hs.rip_eq
    | true => exact congrArg (· + 6 + rel.signExtend 64) hs.rip_eq
  · cases taken <;> exact hs.flags.congr rfl
  · cases taken <;> exact ⟨rfl, rfl⟩

end Jumps

/-! ## Arithmetic -/

/-- What the cases of the switch do for an operation. -/
def operate (op : Alu) (ctx : CpuContext) (dst : RegIdx) (b : U64) :
    Except HostUndefined CpuContext :=
  match op with
  | .add => storeAdd ctx dst (ctx.gpr dst) b
  | .or => storeLogic ctx dst (ctx.gpr dst ||| b)
  | .and => storeLogic ctx dst (ctx.gpr dst &&& b)
  | .sub => do
      let ctx' ← updateFlagsArith ctx (ctx.gpr dst) b (ctx.gpr dst - b) true 64
      return ctx'.setGpr dst (ctx.gpr dst - b)
  | .xor => storeLogic ctx dst (ctx.gpr dst ^^^ b)
  | .cmp => updateFlagsArith ctx (ctx.gpr dst) b (ctx.gpr dst - b) true 64

/-- The case of the opcode of an operation. -/
def aluCase : Alu → OpCase
  | .add => .add
  | .or => .or
  | .and => .and
  | .sub => .sub
  | .xor => .xor
  | .cmp => .cmpMR

/-- The context is the old one with the result and the flags of an operation. -/
structure Operated (op : Alu) (dst : RegIdx) (b : U64) (ctx ctx' : CpuContext) : Prop where
  gpr_eq : ctx'.gpr = if op = .cmp then ctx.gpr
    else Function.update ctx.gpr dst (op.value (ctx.gpr dst) b)
  rip_eq : ctx'.rip = ctx.rip
  flags : Known (op.flags (ctx.gpr dst) b) ctx'

section Arithmetic

variable {s : X86.State} {g : Guest} {ip : ℕ → Byte} {dst src : Fin 16} {imm : Byte}

theorem storeLogic_operated (op : Alu) (ctx : CpuContext) (dst : RegIdx) (b : U64)
    (hop : op ≠ .cmp)
    (hflags : op.flags (ctx.gpr dst) b =
      .ofResult (some false) (some false) (op.value (ctx.gpr dst) b)) :
    ∃ ctx', storeLogic ctx dst (op.value (ctx.gpr dst) b) = .ok ctx' ∧
      Operated op dst b ctx ctx' := by
  obtain ⟨ctx', hctx, hl⟩ := updateFlagsLogic_leaves ctx (op.value (ctx.gpr dst) b)
  refine ⟨ctx'.setGpr dst (op.value (ctx.gpr dst) b), ?_, ?_, hl.only.rip_eq, ?_⟩
  · rw [storeLogic, hctx]
    rfl
  · rw [if_neg hop, CpuContext.setGpr_gpr, hl.only.gpr_eq]
  · rw [hflags]
    exact (hl.known (fun _ h => Option.some.inj h) fun _ h => Option.some.inj h).congr rfl

theorem operate_ok (op : Alu) (ctx : CpuContext) (dst : RegIdx) (b : U64) :
    ∃ ctx', operate op ctx dst b = .ok ctx' ∧ Operated op dst b ctx ctx' := by
  have hsome {b c : Bool} (h : c ∈ some b) : b = c := Option.some.inj h
  cases op with
  | add =>
      obtain ⟨ctx', hctx, hl⟩ := updateFlagsArith_add_leaves ctx (ctx.gpr dst) b
      refine ⟨ctx'.setGpr dst (ctx.gpr dst + b), ?_, ?_, hl.only.rip_eq, ?_⟩
      · rw [operate, storeAdd, hctx]
        rfl
      · rw [CpuContext.setGpr_gpr, hl.only.gpr_eq]
        rfl
      · exact (hl.known (fun _ h => absurd h (Option.not_mem_none _)) fun _ => hsome).congr rfl
  | or => exact storeLogic_operated .or ctx dst b (by decide) rfl
  | and => exact storeLogic_operated .and ctx dst b (by decide) rfl
  | xor => exact storeLogic_operated .xor ctx dst b (by decide) rfl
  | sub =>
      obtain ⟨ctx', hctx, hl⟩ := updateFlagsArith_sub_leaves ctx (ctx.gpr dst) b
      refine ⟨ctx'.setGpr dst (ctx.gpr dst - b), ?_, ?_, hl.only.rip_eq, ?_⟩
      · rw [operate, hctx]
        rfl
      · rw [CpuContext.setGpr_gpr, hl.only.gpr_eq]
        rfl
      · exact (hl.known (fun _ => hsome) fun _ => hsome).congr rfl
  | cmp =>
      obtain ⟨ctx', hctx, hl⟩ := updateFlagsArith_sub_leaves ctx (ctx.gpr dst) b
      exact ⟨ctx', hctx, hl.only.gpr_eq, hl.only.rip_eq, hl.known (fun _ => hsome) fun _ => hsome⟩

/-- A computation that only hands its value on. -/
theorem bind_return {α β : Type} (x : Except HostUndefined α) (f : α → β) :
    (do let a ← x; return f a) = x.map f := by
  cases x <;> rfl

/-- The immediate group does the same. -/
theorem group1_eq_operate (op : Alu) (ctx : CpuContext) (dst : RegIdx) (b : U64) :
    group1 ctx dst op.digit.val b = (operate op ctx dst b).map some := by
  cases op with
  | add =>
      show group1 ctx dst 0 b = _
      dsimp only [group1, operate, storeAdd]
      cases updateFlagsArith ctx (ctx.gpr dst) b (ctx.gpr dst + b) false 64 <;> rfl
  | or =>
      show group1 ctx dst 1 b = _
      exact bind_return (storeLogic ctx dst (ctx.gpr dst ||| b)) some
  | and =>
      show group1 ctx dst 4 b = _
      exact bind_return (storeLogic ctx dst (ctx.gpr dst &&& b)) some
  | sub =>
      show group1 ctx dst 5 b = _
      dsimp only [group1, operate]
      cases updateFlagsArith ctx (ctx.gpr dst) b (ctx.gpr dst - b) true 64 <;> rfl
  | xor =>
      show group1 ctx dst 6 b = _
      exact bind_return (storeLogic ctx dst (ctx.gpr dst ^^^ b)) some
  | cmp =>
      show group1 ctx dst 7 b = _
      exact bind_return (updateFlagsArith ctx (ctx.gpr dst) b (ctx.gpr dst - b) true 64) some

/-- And so do the cases of their own. -/
theorem execCase_operate (op : Alu) (h2 : ip 2 = modReg dst src) (opcode : Byte) :
    execCase (aluCase op) ip (wide dst src opcode) g =
      (operate op (g.ctx.advance 3) dst (g.ctx.gpr src)).map fun ctx => (g.withCtx ctx).brk := by
  cases op with
  | add | or | and | sub | xor | cmp =>
      dsimp only [aluCase, execCase, execAdd, execOr, execAnd, execSub, execXor, execCmpMR,
        execRegForm]
      rw [wide_off, h2, if_pos (modOf_modReg dst src), regField_modReg, rmField_modReg]
      exact bind_return _ _

/-- An operation takes the guest where the architecture says. -/
theorem Operated.reaches {op : Alu} {b : U64} {n : ℕ} {ctx : CpuContext} (hs : Matches s g)
    (h : Operated op dst b (g.ctx.advance n) ctx) :
    Reaches g .Ok ((s.advance n).operate op dst b) (g.withCtx ctx).brk := by
  have hgpr : (g.ctx.advance n).gpr = (s.advance n).gpr := hs.gpr_eq
  refine hs.reaches ?_ ?_ ?_ ?_ []
  · rw [h.gpr_eq, X86.State.operate_gpr, hgpr]
  · rw [h.rip_eq, X86.State.operate_rip]
    exact congrArg (· + BitVec.ofNat 64 n) hs.rip_eq
  · rw [X86.State.operate_flags, ← hgpr]
    exact h.flags
  · exact ⟨X86.State.operate_mem _ _ _ _, X86.State.operate_calls _ _ _ _⟩

theorem alu_takesTo {op : Alu} (hb : Begins ip (Insn.alu op dst src).bytes) (hs : Matches s g) :
    TakesTo ip g .Ok ((s.advance 3).operate op dst (s.gpr src)) := by
  have hopcode : isPrefix ((BitVec.ofNat 8 op.digit.val <<< 3) ||| 3) = false ∧
      opCase ((BitVec.ofNat 8 op.digit.val <<< 3) ||| 3) = aluCase op := by
    cases op <;> decide
  obtain ⟨ctx, hctx, hop⟩ := operate_ok op (g.ctx.advance 3) dst (s.gpr src)
  refine takesTo_wide (hb 0 _ rfl) (hb 1 _ rfl) hopcode.1 hopcode.2 ?_ (hop.reaches hs)
  rw [execCase_operate op (hb 2 _ rfl), hs.gpr_eq, hctx]
  rfl

theorem aluImm_takesTo {op : Alu} (hb : Begins ip (Insn.aluImm op dst imm).bytes)
    (hs : Matches s g) : TakesTo ip g .Ok ((s.advance 4).operate op dst (imm.signExtend 64)) := by
  have h2 : ip 2 = modReg op.digit dst := hb 2 _ rfl
  have h3 : ip 3 = imm := hb 3 _ rfl
  have hdigit : op.digit.val % 8 = op.digit.val := by
    cases op <;> rfl
  obtain ⟨ctx, hctx, hop⟩ := operate_ok op (g.ctx.advance 4) dst (imm.signExtend 64)
  have hcase : execGroup83 ip (wide 0 dst 0x83) g = .ok (g.withCtx ctx).brk := by
    dsimp only [execGroup83, readS8]
    rw [wide_off, h2, rmField_modReg, extOf_modReg, hdigit, h3, group1_eq_operate, hctx]
    rfl
  exact takesTo_wide (c := .group83) (hb 0 _ rfl) (hb 1 _ rfl) (by decide) (by decide) hcase
    (hop.reaches hs)

theorem shift_takesTo {op : Shift} (hb : Begins ip (Insn.shift op dst imm).bytes)
    (hs : Matches s g) : TakesTo ip g .Ok
      (((s.advance 4).setFlags {}).setGpr dst (op.value (s.gpr dst) imm)) := by
  have h2 : ip 2 = modReg op.digit dst := hb 2 _ rfl
  have h3 : ip 3 = imm := hb 3 _ rfl
  obtain ⟨op', hext, hvalue⟩ : ∃ op' : ShiftOp, op.digit.val % 8 = op'.ext ∧
      ∀ v, op.value v imm = op'.apply v (imm &&& 0x3F).toNat := by
    have hmask : (imm &&& 0x3F).toNat = imm.toNat % 64 := by
      rw [BitVec.toNat_and]
      exact Nat.and_two_pow_sub_one_eq_mod imm.toNat 6
    rw [hmask]
    cases op with
    | shl => exact ⟨.shl, rfl, fun _ => rfl⟩
    | shr => exact ⟨.shr, rfl, fun _ => rfl⟩
    | sar => exact ⟨.sar, rfl, fun _ => rfl⟩
  obtain ⟨ctx, hctx, hl⟩ := shiftGroup_leaves (g.ctx.advance 4) dst op' (mask3F_lt imm)
  have hcase : execShift ip (wide 0 dst 0xC1) g =
      .ok (g.withCtx (ctx.setGpr dst (op.value (s.gpr dst) imm))).brk := by
    dsimp only [execShift]
    rw [wide_opcode, if_pos rfl, wide_off, h2, h3, rmField_modReg, extOf_modReg, hext,
      if_pos (modOf_modReg op.digit dst), hctx, hvalue, ← hs.gpr_eq]
    rfl
  refine takesTo_wide (c := .shift) (hb 0 _ rfl) (hb 1 _ rfl) (by decide) (by decide) hcase ?_
  refine hs.reaches ?_ ?_ ?_ ?_ []
  · rw [CpuContext.setGpr_gpr, hl.only.gpr_eq, CpuContext.advance_gpr, hs.gpr_eq]
    rfl
  · exact hl.only.rip_eq.trans (congrArg (· + 4) hs.rip_eq)
  · exact Known.nothing _
  · exact ⟨rfl, rfl⟩

/-- The context behind INC, DEC, NOT or NEG. -/
def unaryCtx (op : Unary) (ctx : CpuContext) (v : U64) : CpuContext :=
  let r := op.value v
  match op with
  | .inc =>
      ((ctx.setFlag Flags.ZF (r == 0)).setFlag Flags.SF r.msb).setFlag Flags.OF
        (v == 0x7FFFFFFFFFFFFFFF)
  | .dec => (ctx.setFlag Flags.ZF (r == 0)).setFlag Flags.SF r.msb
  | .not => ctx
  | .neg =>
      ((ctx.setFlag Flags.CF (v != 0)).setFlag Flags.ZF (r == 0)).setFlag Flags.SF r.msb

theorem unaryCtx_only (op : Unary) (ctx : CpuContext) (v : U64) :
    FlagsOnly ctx (unaryCtx op ctx v) := by
  cases op with
  | inc | neg => exact ((FlagsOnly.setFlag _ _ _).trans (.setFlag _ _ _)).trans (.setFlag _ _ _)
  | dec => exact (FlagsOnly.setFlag _ _ _).trans (.setFlag _ _ _)
  | not => exact FlagsOnly.refl ctx

theorem unaryCtx_known (op : Unary) {f : X86.Flags} {ctx : CpuContext} (h : Known f ctx) (v : U64) :
    Known (op.flags f v) (unaryCtx op ctx v) := by
  have hsome {b c : Bool} (h : c ∈ some b) : b = c := Option.some.inj h
  have hnone {b c : Bool} (h : c ∈ (none : Option Bool)) : b = c := absurd h (Option.not_mem_none _)
  cases op with
  | inc =>
      refine ⟨fun b hb => ?_, fun _ => hnone, fun b hb => ?_, fun b hb => ?_, fun b hb => ?_⟩
      · simp (disch := decide) only [unaryCtx, CpuContext.flag_setFlag_of_disjoint]
        exact h.carry b hb
      · simp (disch := decide) only [unaryCtx, CpuContext.flag_setFlag_of_disjoint,
          CpuContext.flag_setFlag_self]
        exact hsome hb
      · simp (disch := decide) only [unaryCtx, CpuContext.flag_setFlag_of_disjoint,
          CpuContext.flag_setFlag_self]
        exact hsome hb
      · simp (disch := decide) only [unaryCtx, CpuContext.flag_setFlag_self]
        exact hsome hb
  | dec =>
      refine ⟨fun b hb => ?_, fun _ => hnone, fun b hb => ?_, fun b hb => ?_, fun _ => hnone⟩
      · simp (disch := decide) only [unaryCtx, CpuContext.flag_setFlag_of_disjoint]
        exact h.carry b hb
      · simp (disch := decide) only [unaryCtx, CpuContext.flag_setFlag_of_disjoint,
          CpuContext.flag_setFlag_self]
        exact hsome hb
      · simp (disch := decide) only [unaryCtx, CpuContext.flag_setFlag_self]
        exact hsome hb
  | not => exact h
  | neg =>
      refine ⟨fun b hb => ?_, fun _ => hnone, fun b hb => ?_, fun b hb => ?_, fun _ => hnone⟩
      · simp (disch := decide) only [unaryCtx, CpuContext.flag_setFlag_of_disjoint,
          CpuContext.flag_setFlag_self]
        exact hsome hb
      · simp (disch := decide) only [unaryCtx, CpuContext.flag_setFlag_of_disjoint,
          CpuContext.flag_setFlag_self]
        exact hsome hb
      · simp (disch := decide) only [unaryCtx, CpuContext.flag_setFlag_self]
        exact hsome hb

theorem unary_takesTo {op : Unary} (hb : Begins ip (Insn.unary op dst).bytes) (hs : Matches s g) :
    TakesTo ip g .Ok (((s.advance 3).setFlags (op.flags s.flags (s.gpr dst))).setGpr dst
      (op.value (s.gpr dst))) := by
  have h2 : ip 2 = modReg op.digit dst := hb 2 _ rfl
  have hreaches : Reaches g .Ok (((s.advance 3).setFlags (op.flags s.flags (s.gpr dst))).setGpr dst
      (op.value (s.gpr dst)))
      (g.withCtx ((unaryCtx op (g.ctx.advance 3) (s.gpr dst)).setGpr dst
        (op.value (s.gpr dst)))).brk := by
    have honly := unaryCtx_only op (g.ctx.advance 3) (s.gpr dst)
    refine hs.reaches ?_ ?_ ?_ ?_ []
    · rw [CpuContext.setGpr_gpr, honly.gpr_eq, CpuContext.advance_gpr, hs.gpr_eq]
      rfl
    · exact honly.rip_eq.trans (congrArg (· + 3) hs.rip_eq)
    · have hflags : Known s.flags (g.ctx.advance 3) := hs.flags.congr rfl
      exact (unaryCtx_known op hflags (s.gpr dst)).congr rfl
    · exact ⟨rfl, rfl⟩
  cases op with
  | inc | dec =>
      refine takesTo_wide (c := .groupFF) (hb 0 _ rfl) (hb 1 _ rfl) (by decide) (by decide)
        (congrArg Except.ok ?_) hreaches
      dsimp only [execGroupFF]
      rw [wide_off, h2, if_pos (modOf_modReg _ dst), extOf_modReg, rmField_modReg]
      simp only [shifted_sign, CpuContext.advance_gpr, hs.gpr_eq]
      rfl
  | not | neg =>
      refine takesTo_wide (c := .groupF7) (hb 0 _ rfl) (hb 1 _ rfl) (by decide) (by decide)
        ?_ hreaches
      dsimp only [execCase, execGroupF7]
      rw [wide_off, h2, if_pos (modOf_modReg _ dst), extOf_modReg, rmField_modReg]
      simp only [shifted_sign, CpuContext.advance_gpr, hs.gpr_eq]
      rfl

/-- The low word of the signed product. -/
theorem mul128S_low (a b : U64) : (mul128S a b).2 = a * b := by
  have hlow (v : U64) : (v.signExtend 128).setWidth 64 = v := by
    ext i hi
    simp [BitVec.getLsbD_signExtend, hi]
    omega
  have hwide : (64 : ℕ) ≤ 128 := by norm_num
  calc (mul128S a b).2 = (a.signExtend 128).setWidth 64 * (b.signExtend 128).setWidth 64 :=
        BitVec.setWidth_mul _ _ hwide
    _ = a * b := by rw [hlow, hlow]

theorem imul_takesTo (hb : Begins ip (Insn.imul dst src).bytes) (hs : Matches s g) {lost : Bool}
    (hlost : lost = decide (¬ WordOverflow.FitsSigned 64
      ((s.gpr dst).toInt * (s.gpr src).toInt))) :
    TakesTo ip g .Ok (((s.advance 4).setFlags
      { carry := some lost, overflow := some lost }).setGpr dst (s.gpr dst * s.gpr src)) := by
  have h1 : ip 1 = 0x0F := hb 1 _ rfl
  have h2 : ip 2 = 0xAF := hb 2 _ rfl
  have h3 : ip 3 = modReg dst src := hb 3 _ rfl
  have hcase : execTwoByte ip (wide dst src 0x0F) g =
      .ok (g.withCtx (storeImul (g.ctx.advance 4) dst (s.gpr dst) (s.gpr src))).brk := by
    dsimp only [execTwoByte, execImul, execRegForm]
    rw [wide_off, h2, if_neg (by decide), if_neg (by decide), if_neg (by decide),
      if_neg (by decide), if_neg (by decide), if_pos rfl, h3, if_pos (modOf_modReg dst src),
      regField_modReg, rmField_modReg, ← hs.gpr_eq]
    rfl
  have hexact : ExactMul (.imulReg dst src) (g.ctx.advance 4)
      (storeImul (g.ctx.advance 4) dst (s.gpr dst) (s.gpr src)) := by
    rw [← hs.gpr_eq]
    exact exactMul_of_store (mul128S_exact _ _) rfl
  have hproduct : MulForm.product (.imulReg dst src) (g.ctx.advance 4) =
      (s.gpr dst).toInt * (s.gpr src).toInt := by
    rw [MulForm.product, CpuContext.advance_gpr, hs.gpr_eq]
  have hflag {b c : Bool} (hc : c ∈ some lost) (h : b = true ↔ ¬ WordOverflow.FitsSigned 64
      ((s.gpr dst).toInt * (s.gpr src).toInt)) : b = c := by
    rw [← Option.some.inj hc, hlost, Bool.eq_iff_iff, h, decide_eq_true_iff]
  refine takesTo_wide (c := .twoByte) (hb 0 _ rfl) h1 (by decide) (by decide) hcase ?_
  refine hs.reaches ?_ ?_ ?_ ?_ []
  · show Function.update g.ctx.gpr dst (mul128S (s.gpr dst) (s.gpr src)).2 = _
    rw [mul128S_low, hs.gpr_eq]
    rfl
  · exact congrArg (· + 4) hs.rip_eq
  · have hcarry := hexact.carry
    have hoverflow := hexact.overflow
    rw [hproduct] at hcarry hoverflow
    refine ⟨fun b hb => hflag hb hcarry, ?_, ?_, ?_, fun b hb => hflag hb hoverflow⟩
    all_goals exact fun _ h => absurd h (Option.not_mem_none _)
  · exact ⟨rfl, rfl⟩

end Arithmetic

/-! ## One step of a program -/

section Step

variable {P : X86.Program} {s s' : X86.State} {g : Guest} {ip : ℕ → Byte} {i : Insn}

/-- A range that a program may write is writable. -/
theorem writable_of_mayWrite {a : U64} {n : ℕ} (h : P.mayWrite a n = true) :
    P.writable a n = true := (Bool.and_eq_true_iff.mp h).1

/-- **One instruction.**  What the architecture says the interpreter does. -/
theorem exec_takesTo (hb : Begins ip i.bytes) (hs : Matches s g)
    (hr : g.mem.readable = P.readable) (hw : g.mem.writable = P.writable)
    (hexec : P.exec i s = some s') : TakesTo ip g .Ok s' := by
  cases i with
  | nop =>
      cases hexec
      exact nop_takesTo hb hs
  | movImm dst imm =>
      cases hexec
      exact movImm_takesTo hb hs
  | movAbs dst imm =>
      cases hexec
      exact movAbs_takesTo hb hs
  | mov dst src =>
      cases hexec
      exact mov_takesTo hb hs
  | load dst base disp =>
      obtain ⟨⟨-, hread⟩, hsome⟩ := Option.ite_none_right_eq_some.mp hexec
      cases hsome
      exact load_takesTo hb hs (by rwa [hr])
  | store base disp src =>
      obtain ⟨⟨-, hwrite⟩, hsome⟩ := Option.ite_none_right_eq_some.mp hexec
      cases hsome
      exact store_takesTo hb hs (by rw [hw]; exact writable_of_mayWrite hwrite)
  | lea dst base disp =>
      obtain ⟨-, hsome⟩ := Option.ite_none_right_eq_some.mp hexec
      cases hsome
      exact lea_takesTo hb hs
  | alu op dst src =>
      cases hexec
      exact alu_takesTo hb hs
  | aluImm op dst imm =>
      cases hexec
      exact aluImm_takesTo hb hs
  | unary op dst =>
      cases hexec
      exact unary_takesTo hb hs
  | shift op dst count =>
      cases hexec
      exact shift_takesTo hb hs
  | imul dst src =>
      cases hexec
      exact imul_takesTo hb hs rfl
  | push src =>
      obtain ⟨hwrite, hsome⟩ := Option.ite_none_right_eq_some.mp hexec
      cases hsome
      exact push_takesTo hb hs (by rw [hw]; exact writable_of_mayWrite hwrite)
  | pop dst =>
      obtain ⟨⟨hdst, hread⟩, hsome⟩ := Option.ite_none_right_eq_some.mp hexec
      cases hsome
      exact pop_takesTo hb hs hdst (by rwa [hr])
  | jmp rel =>
      cases hexec
      exact jmp_takesTo hb hs
  | jcc cc rel =>
      obtain ⟨taken, hcond, rfl⟩ := Option.map_eq_some_iff.mp hexec
      exact jcc_takesTo hb hs hcond
  | call rel =>
      obtain ⟨hwrite, hsome⟩ := Option.ite_none_right_eq_some.mp hexec
      cases hsome
      exact call_takesTo hb hs (by rw [hw]; exact writable_of_mayWrite hwrite)
  | ret =>
      obtain ⟨hread, hsome⟩ := Option.ite_none_right_eq_some.mp hexec
      cases hsome
      exact ret_takesTo hb hs (by rwa [hr])
  | syscall => cases hexec
  | hlt => cases hexec

/-- What the interpreter returns for a trap. -/
def resultOf : X86.Trap → StepResult
  | .syscall => .Syscall
  | .halt => .Halt

/-- An instruction that gives up control. -/
theorem trap_takesTo {t : X86.Trap} (hb : Begins ip i.bytes) (hs : Matches s g)
    (htrap : i.trap = some t) : TakesTo ip g (resultOf t) (s.advance i.length) := by
  cases i with
  | syscall =>
      cases htrap
      have h0 : ip 0 = 0x0F := hb 0 _ rfl
      have h1 : ip 1 = 0x05 := hb 1 _ rfl
      refine takesTo_plain (c := .twoByte) (by rw [h0]; decide) (by rw [h0]; decide)
        (if_pos h1) ⟨rfl, ⟨hs.gpr_eq, ?_, hs.flags.congr rfl, hs.mem_eq, hs.calls_eq⟩, rfl, rfl⟩
      exact congrArg (· + 2) hs.rip_eq
  | hlt =>
      cases htrap
      have h0 : ip 0 = 0xF4 := hb 0 _ rfl
      refine takesTo_plain (c := .hlt) (by rw [h0]; decide) (by rw [h0]; decide) rfl
        ⟨rfl, ⟨hs.gpr_eq, ?_, hs.flags.congr rfl, hs.mem_eq, hs.calls_eq⟩, rfl, rfl⟩
      exact congrArg (· + 1) hs.rip_eq
  | nop | movImm | movAbs | mov | load | store | lea | alu | aluImm | unary | shift | imul | push
  | pop | jmp | jcc | call | ret => cases htrap

end Step

end Cpu
