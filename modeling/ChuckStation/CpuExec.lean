/-
# One interpreter step

`ExecuteOne` (`Cpu.cpp`): the switch over the opcode, one definition per case, and
the step around it (null check, fetch, breakpoint check, prefix scan, dispatch).

A case works on the guest-visible state alone (`Guest`: context, tracked call stack,
memory).  It says which result it returns and which counter it increments first;
the breakpoint table and the statistics stay with `executeOne`.
-/
import ChuckStation.CpuFetch

namespace Cpu

/-! ## The outcome of a case -/

/-- The part of the machine a guest instruction can see or change.  The call stack is
kept top first: `push_back` is `::`, `pop_back` is `List.tail`. -/
structure Guest where
  ctx : CpuContext
  callStack : List CallFrame
  mem : GuestMemory

/-- The counter of `InterpreterStats` a case increments. -/
inductive StatField where
  | none
  | instructionsExecuted
  | syscallsDispatched
  | faults
  | breakpointsHit
  | unimplemented
  deriving DecidableEq, Repr

/-- How a case of the switch ends, and the guest data accesses it carried out. -/
structure CaseExit where
  result : StepResult
  stat : StatField
  guest : Guest
  accesses : List Access := []

namespace Guest

/-- The guest with another context. -/
def withCtx (g : Guest) (ctx : CpuContext) : Guest := { g with ctx := ctx }

@[simp] theorem withCtx_ctx (g : Guest) (ctx : CpuContext) : (g.withCtx ctx).ctx = ctx := rfl
@[simp] theorem withCtx_callStack (g : Guest) (ctx : CpuContext) :
    (g.withCtx ctx).callStack = g.callStack := rfl
@[simp] theorem withCtx_mem (g : Guest) (ctx : CpuContext) : (g.withCtx ctx).mem = g.mem := rfl

/-- `break`: the tail behind the switch counts the instruction and returns `Ok`. -/
def brk (g : Guest) (accesses : List Access := []) : CaseExit :=
  ⟨.Ok, .instructionsExecuted, g, accesses⟩

/-- `++st.stats.faults; return StepResult::Fault`. -/
def fault (g : Guest) : CaseExit := ⟨.Fault, .faults, g, []⟩

/-- `++st.stats.unimplemented; return StepResult::Unimplemented`. -/
def unimplemented (g : Guest) : CaseExit := ⟨.Unimplemented, .unimplemented, g, []⟩

end Guest

open Guest GuestMemory

/-! ## Cases without a ModRM byte -/

/-- NOP (0x90). -/
def execNop (p : Prefixes) (g : Guest) : CaseExit := (g.withCtx (g.ctx.advance p.off)).brk

/-- LAHF (0x9F). -/
def execLahf (p : Prefixes) (g : Guest) : CaseExit :=
  let ah := (g.ctx.rflags &&& 0xFF) ||| 0x02
  let rax := (g.ctx.gpr Reg.RAX &&& ~~~(0xFF00 : U64)) ||| (ah <<< 8)
  (g.withCtx ((g.ctx.setGpr Reg.RAX rax).advance p.off)).brk

/-- SAHF (0x9E). -/
def execSahf (p : Prefixes) (g : Guest) : CaseExit :=
  let ah := (g.ctx.gpr Reg.RAX >>> 8) &&& 0xFF
  let mask := Flags.CF ||| Flags.PF ||| Flags.AF ||| Flags.ZF ||| Flags.SF
  let rflags := (g.ctx.rflags &&& ~~~mask) ||| (ah &&& mask)
  (g.withCtx ({ g.ctx with rflags := rflags }.advance p.off)).brk

/-- PUSH r64 (0x50–0x57). -/
def execPush (p : Prefixes) (g : Guest) : CaseExit :=
  let reg := regOf p.opcode p.rexB
  let sp := g.ctx.gpr Reg.RSP - 8
  match g.mem.guestWriteWord 8 sp (g.ctx.gpr reg) with
  | none => g.fault
  | some mem =>
      { g with ctx := (g.ctx.setGpr Reg.RSP sp).advance p.off, mem := mem }.brk [⟨.store, sp, 8⟩]

/-- POP r64 (0x58–0x5F). -/
def execPop (p : Prefixes) (g : Guest) : CaseExit :=
  let reg := regOf p.opcode p.rexB
  let sp := g.ctx.gpr Reg.RSP
  match g.mem.guestReadWord 64 8 sp with
  | none => g.fault
  | some val =>
      let ctx := g.ctx.setGpr reg val
      (g.withCtx ((ctx.setGpr Reg.RSP (ctx.gpr Reg.RSP + 8)).advance p.off)).brk [⟨.load, sp, 8⟩]

/-- XCHG r64, RAX (0x91–0x97). -/
def execXchg (p : Prefixes) (g : Guest) : CaseExit :=
  let reg := regOf p.opcode p.rexB
  let tmp := g.ctx.gpr Reg.RAX
  let ctx := (g.ctx.setGpr Reg.RAX (g.ctx.gpr reg)).setGpr reg tmp
  (g.withCtx (ctx.advance p.off)).brk

/-- MOV r64, imm64 / MOV r32, imm32 (0xB8–0xBF). -/
def execMovImm (ip : ℕ → Byte) (p : Prefixes) (g : Guest) : CaseExit :=
  let reg := regOf p.opcode p.rexB
  if p.rexW then
    (g.withCtx ((g.ctx.setGpr reg (readWord 64 8 ip p.off)).advance (p.off + 8))).brk
  else
    (g.withCtx ((g.ctx.setGpr reg ((readWord 32 4 ip p.off).setWidth 64)).advance (p.off + 4))).brk

/-- TEST rAX, imm32 (0xA9). -/
def execTestRaxImm (ip : ℕ → Byte) (p : Prefixes) (g : Guest) : Except HostUndefined CaseExit := do
  let imm := readS32 ip p.off
  let ctx := g.ctx.advance (p.off + 4)
  let ctx ← updateFlagsLogic ctx (ctx.gpr Reg.RAX &&& imm) (if p.rexW then 64 else 32)
  return (g.withCtx ctx).brk

/-- JMP rel8 (0xEB). -/
def execJmpRel8 (ip : ℕ → Byte) (p : Prefixes) (g : Guest) : CaseExit :=
  let rel := readS8 ip p.off
  let ctx := g.ctx.advance (p.off + 1)
  (g.withCtx (ctx.setRip (ctx.rip + rel))).brk

/-- JMP rel32 (0xE9). -/
def execJmpRel32 (ip : ℕ → Byte) (p : Prefixes) (g : Guest) : CaseExit :=
  let rel := readS32 ip p.off
  let ctx := g.ctx.advance (p.off + 4)
  (g.withCtx (ctx.setRip (ctx.rip + rel))).brk

/-- The condition switch of Jcc rel8 and Jcc near. -/
def jccTaken (ctx : CpuContext) (cc : ℕ) : Bool :=
  let cf := ctx.flag Flags.CF
  let zf := ctx.flag Flags.ZF
  let sf := ctx.flag Flags.SF
  let ovf := ctx.flag Flags.OF
  let pf := ctx.flag Flags.PF
  match cc with
  | 0x0 => ovf
  | 0x1 => !ovf
  | 0x2 => cf
  | 0x3 => !cf
  | 0x4 => zf
  | 0x5 => !zf
  | 0x6 => cf || zf
  | 0x7 => !cf && !zf
  | 0x8 => sf
  | 0x9 => !sf
  | 0xA => pf
  | 0xB => !pf
  | 0xC => sf != ovf
  | 0xD => sf == ovf
  | 0xE => zf || (sf != ovf)
  | 0xF => !zf && (sf == ovf)
  | _ => false

/-- A conditional jump whose instruction ends at index `off`. -/
def jumpIf (taken : Bool) (off : ℕ) (rel : U64) (g : Guest) : CaseExit :=
  let ctx := g.ctx.advance off
  (g.withCtx (if taken then ctx.setRip (ctx.rip + rel) else ctx)).brk

/-- Jcc rel8 (0x70–0x7F). -/
def execJccRel8 (ip : ℕ → Byte) (p : Prefixes) (g : Guest) : CaseExit :=
  jumpIf (jccTaken g.ctx (p.opcode &&& 0xF).toNat) (p.off + 1) (readS8 ip p.off) g

/-- The end both CALL forms share, with `ctx` behind the instruction: push the return
address, record the frame, jump. -/
def callTo (ctx : CpuContext) (target frameBase : U64) (g : Guest) : CaseExit :=
  let sp := ctx.gpr Reg.RSP - 8
  match g.mem.guestWriteWord 8 sp ctx.rip with
  | none => (g.withCtx ctx).fault
  | some mem =>
      let frame : CallFrame := { returnAddr := ctx.rip, frameBase := frameBase }
      { ctx := (ctx.setGpr Reg.RSP sp).setRip target, callStack := frame :: g.callStack,
        mem := mem : Guest }.brk [⟨.store, sp, 8⟩]

/-- CALL rel32 (0xE8). -/
def execCallRel32 (ip : ℕ → Byte) (p : Prefixes) (g : Guest) : CaseExit :=
  let rel := readS32 ip p.off
  let ctx := g.ctx.advance (p.off + 4)
  callTo ctx (ctx.rip + rel) (ctx.gpr Reg.RBP) g

/-- The return both RET forms end with, `extra` bytes popped behind the address. -/
def returnWith (extra : U64) (g : Guest) : CaseExit :=
  let sp := g.ctx.gpr Reg.RSP
  match g.mem.guestReadWord 64 8 sp with
  | none => g.fault
  | some retAddr =>
      { ctx := (g.ctx.setGpr Reg.RSP (sp + (8 + extra))).setRip retAddr
        callStack := g.callStack.tail, mem := g.mem : Guest }.brk [⟨.load, sp, 8⟩]

/-- RET (0xC3). -/
def execRet (g : Guest) : CaseExit := returnWith 0 g

/-- RET imm16 (0xC2). -/
def execRetImm16 (ip : ℕ → Byte) (p : Prefixes) (g : Guest) : CaseExit :=
  returnWith ((readWord 16 2 ip p.off).setWidth 64) g

/-- INT imm8 (0xCD). -/
def execInt (ip : ℕ → Byte) (p : Prefixes) (g : Guest) : CaseExit :=
  let vec := ip p.off
  let g := g.withCtx (g.ctx.advance (p.off + 1))
  if vec = 3 then ⟨.Breakpoint, .breakpointsHit, g, []⟩
  else if vec = 0x80 then ⟨.Syscall, .syscallsDispatched, g, []⟩
  else ⟨.Unimplemented, .none, g, []⟩

/-- HLT (0xF4). -/
def execHlt (p : Prefixes) (g : Guest) : CaseExit :=
  ⟨.Halt, .none, g.withCtx (g.ctx.advance p.off), []⟩

/-! ## Register forms

Most ModRM cases execute the register form (`mod = 3`) and do nothing at all for a
memory form, which still counts as executed. -/

/-- A case that advances behind the ModRM byte at index `off` and then applies `op` to
the register form only. -/
def execRegForm (op : CpuContext → RegIdx → RegIdx → Except HostUndefined CpuContext)
    (ip : ℕ → Byte) (off : ℕ) (p : Prefixes) (g : Guest) : Except HostUndefined CaseExit :=
  let modrm := ip off
  let ctx := g.ctx.advance (off + 1)
  if modOf modrm = 3 then do
    let ctx ← op ctx (regField modrm p) (rmField modrm p)
    return (g.withCtx ctx).brk
  else return (g.withCtx ctx).brk

/-- `gpr[reg] = r` after the logic flags of `r`. -/
def storeLogic (ctx : CpuContext) (reg : RegIdx) (r : U64) : Except HostUndefined CpuContext := do
  let ctx ← updateFlagsLogic ctx r 64
  return ctx.setGpr reg r

/-- OR r64, r/m64 (0x0B). -/
def execOr := execRegForm fun ctx reg rm => storeLogic ctx reg (ctx.gpr reg ||| ctx.gpr rm)

/-- AND r64, r/m64 (0x23). -/
def execAnd := execRegForm fun ctx reg rm => storeLogic ctx reg (ctx.gpr reg &&& ctx.gpr rm)

/-- XOR r64, r/m64 (0x33). -/
def execXor := execRegForm fun ctx reg rm => storeLogic ctx reg (ctx.gpr reg ^^^ ctx.gpr rm)

/-- SUB r64, r/m64 (0x2B). -/
def execSub := execRegForm fun ctx reg rm => do
  let a := ctx.gpr reg
  let b := ctx.gpr rm
  let ctx ← updateFlagsArith ctx a b (a - b) true 64
  return ctx.setGpr reg (a - b)

/-- TEST r/m64, r64 (0x85). -/
def execTest := execRegForm fun ctx reg rm => updateFlagsLogic ctx (ctx.gpr rm &&& ctx.gpr reg) 64

/-- CMP r/m64, r64 (0x39). -/
def execCmpRM := execRegForm fun ctx reg rm =>
  updateFlagsArith ctx (ctx.gpr rm) (ctx.gpr reg) (ctx.gpr rm - ctx.gpr reg) true 64

/-- CMP r64, r/m64 (0x3B). -/
def execCmpMR := execRegForm fun ctx reg rm =>
  updateFlagsArith ctx (ctx.gpr reg) (ctx.gpr rm) (ctx.gpr reg - ctx.gpr rm) true 64

/-- The condition switch of CMOVcc, which has no parity cases. -/
def cmovTaken (ctx : CpuContext) (cc : ℕ) : Bool :=
  let cf := ctx.flag Flags.CF
  let zf := ctx.flag Flags.ZF
  let sf := ctx.flag Flags.SF
  let ovf := ctx.flag Flags.OF
  match cc with
  | 0x0 => ovf
  | 0x1 => !ovf
  | 0x2 => cf
  | 0x3 => !cf
  | 0x4 => zf
  | 0x5 => !zf
  | 0x6 => cf || zf
  | 0x7 => !cf && !zf
  | 0x8 => sf
  | 0x9 => !sf
  | 0xC => sf != ovf
  | 0xD => sf == ovf
  | 0xE => zf || (sf != ovf)
  | 0xF => !zf && (sf == ovf)
  | _ => false

/-- CMOVcc r64, r/m64 (0F 40–0F 4F). -/
def execCmov (op2 : Byte) := execRegForm fun ctx reg rm =>
  .ok (if cmovTaken ctx (op2 &&& 0xF).toNat then ctx.setGpr reg (ctx.gpr rm) else ctx)

/-- MOVZX r64, r/m8 (0F B6) and MOVZX r64, r/m16 (0F B7). -/
def execMovzx (op2 : Byte) := execRegForm fun ctx reg rm =>
  .ok (ctx.setGpr reg (ctx.gpr rm &&& (if op2 = 0xB6 then 0xFF else 0xFFFF)))

/-- MOVSX r64, r/m8 (0F BE) and MOVSX r64, r/m16 (0F BF). -/
def execMovsx (op2 : Byte) := execRegForm fun ctx reg rm =>
  .ok (ctx.setGpr reg
    (if op2 = 0xBE then ((ctx.gpr rm).setWidth 8).signExtend 64
      else ((ctx.gpr rm).setWidth 16).signExtend 64))

/-- The low half of a signed product, with the overflow flags: `gpr[reg] = lo`. -/
def storeImul (ctx : CpuContext) (reg : RegIdx) (a b : U64) : CpuContext :=
  let prod := mul128S a b
  let hi := prod.1
  let lo := prod.2
  let overflow := hi != lo.sshiftRight 63
  ((ctx.setGpr reg lo).setFlag Flags.CF overflow).setFlag Flags.OF overflow

/-- IMUL r64, r/m64 (0F AF). -/
def execImul := execRegForm fun ctx reg rm => .ok (storeImul ctx reg (ctx.gpr reg) (ctx.gpr rm))

/-- SYSCALL (0F 05) and the other two-byte opcodes. -/
def execTwoByte (ip : ℕ → Byte) (p : Prefixes) (g : Guest) : Except HostUndefined CaseExit :=
  let op2 := ip p.off
  let off := p.off + 1
  if op2 = 0x05 then
    .ok ⟨.Syscall, .syscallsDispatched, g.withCtx (g.ctx.advance off), []⟩
  else if 0x80 ≤ op2 ∧ op2 ≤ 0x8F then
    .ok (jumpIf (jccTaken g.ctx (op2 &&& 0xF).toNat) (off + 4) (readS32 ip off) g)
  else if 0x40 ≤ op2 ∧ op2 ≤ 0x4F then execCmov op2 ip off p g
  else if op2 = 0xB6 ∨ op2 = 0xB7 then execMovzx op2 ip off p g
  else if op2 = 0xBE ∨ op2 = 0xBF then execMovsx op2 ip off p g
  else if op2 = 0xAF then execImul ip off p g
  else .ok g.unimplemented

/-! ## Immediate groups, moves and address computations -/

/-- The `/ext` switch of the immediate groups on register `rm` with operand `b`; nothing
for the extensions it has no case for. -/
def group1 (ctx : CpuContext) (rm : RegIdx) (ext : ℕ) (b : U64) :
    Except HostUndefined (Option CpuContext) :=
  let a := ctx.gpr rm
  match ext with
  | 0 => do
      let ctx ← updateFlagsArith ctx a b (a + b) false 64
      return some (ctx.setGpr rm (a + b))
  | 1 => do
      let ctx ← storeLogic ctx rm (a ||| b)
      return some ctx
  | 4 => do
      let ctx ← storeLogic ctx rm (a &&& b)
      return some ctx
  | 5 => do
      let ctx ← updateFlagsArith ctx a b (a - b) true 64
      return some (ctx.setGpr rm (a - b))
  | 6 => do
      let ctx ← storeLogic ctx rm (a ^^^ b)
      return some ctx
  | 7 => do
      let ctx ← updateFlagsArith ctx a b (a - b) true 64
      return some ctx
  | _ => return none

/-- ADD / OR / AND / SUB / XOR / CMP r/m64, imm8 (0x83).  The register operand is used
whatever `mod` says. -/
def execGroup83 (ip : ℕ → Byte) (p : Prefixes) (g : Guest) : Except HostUndefined CaseExit := do
  let modrm := ip p.off
  let imm := readS8 ip (p.off + 1)
  let ctx := g.ctx.advance (p.off + 2)
  match ← group1 ctx (rmField modrm p) (extOf modrm) imm with
  | some ctx => return (g.withCtx ctx).brk
  | none => return (g.withCtx ctx).unimplemented

/-- ADD / OR / AND / SUB / XOR / CMP r/m64, imm32 (0x81). -/
def execGroup81 (ip : ℕ → Byte) (p : Prefixes) (g : Guest) : Except HostUndefined CaseExit := do
  let modrm := ip p.off
  let imm := readS32 ip (p.off + 1)
  let ctx := g.ctx.advance (p.off + 5)
  if modOf modrm = 3 then
    match ← group1 ctx (rmField modrm p) (extOf modrm) imm with
    | some ctx => return (g.withCtx ctx).brk
    | none => return (g.withCtx ctx).unimplemented
  else return (g.withCtx ctx).brk

/-- The displacement a memory form of MOV or LEA decodes at index `off`, and its size. -/
def dispField (ip : ℕ → Byte) (off : ℕ) (mod : ℕ) : U64 × ℕ :=
  if mod = 1 then (readS8 ip off, 1) else if mod = 2 then (readS32 ip off, 4) else (0, 0)

/-- The displacement ADD r64, m64 decodes: for `mod = 1` the byte at `off - 1`, which is
the ModRM byte itself; nothing for `mod = 2`. -/
def addDispField (ip : ℕ → Byte) (off : ℕ) (mod : ℕ) : U64 × ℕ :=
  if mod = 1 then (readS8 ip (off - 1), 1) else (0, 0)

/-- `gpr[reg] = a + b` after the flags of the addition. -/
def storeAdd (ctx : CpuContext) (reg : RegIdx) (a b : U64) : Except HostUndefined CpuContext := do
  let ctx ← updateFlagsArith ctx a b (a + b) false 64
  return ctx.setGpr reg (a + b)

/-- The context behind the bytes the memory form of ADD decodes. -/
def addDecoded (ip : ℕ → Byte) (p : Prefixes) (g : Guest) : CpuContext :=
  (g.ctx.advance (p.off + 1)).advance (addDispField ip (p.off + 1) (modOf (ip p.off))).2

/-- The address `ea` of the memory form of ADD. -/
def addAddress (ip : ℕ → Byte) (p : Prefixes) (g : Guest) : U64 :=
  g.ctx.gpr (rmField (ip p.off) p) + (addDispField ip (p.off + 1) (modOf (ip p.off))).1

/-- ADD r64, m64 with the operand at `ea`. -/
def execAddMem (ctx : CpuContext) (reg : RegIdx) (ea : U64) (g : Guest) :
    Except HostUndefined CaseExit :=
  match g.mem.guestReadWord 64 8 ea with
  | none => .ok (g.withCtx ctx).fault
  | some b => do
      let ctx ← storeAdd ctx reg (ctx.gpr reg) b
      return (g.withCtx ctx).brk [⟨.load, ea, 8⟩]

/-- ADD r64, r/m64 (0x03). -/
def execAdd (ip : ℕ → Byte) (p : Prefixes) (g : Guest) : Except HostUndefined CaseExit :=
  let modrm := ip p.off
  let reg := regField modrm p
  if modOf modrm = 3 then do
    let ctx := g.ctx.advance (p.off + 1)
    let ctx ← storeAdd ctx reg (ctx.gpr reg) (ctx.gpr (rmField modrm p))
    return (g.withCtx ctx).brk
  else execAddMem (addDecoded ip p g) reg (addAddress ip p g) g

/-- The context behind the bytes the memory forms of MOV decode. -/
def movDecoded (ip : ℕ → Byte) (p : Prefixes) (g : Guest) : CpuContext :=
  (g.ctx.advance (p.off + 1)).advance (dispField ip (p.off + 1) (modOf (ip p.off))).2

/-- The address `ea` of the memory forms of MOV. -/
def movAddress (ip : ℕ → Byte) (p : Prefixes) (g : Guest) : U64 :=
  g.ctx.gpr (rmField (ip p.off) p) + (dispField ip (p.off + 1) (modOf (ip p.off))).1

/-- MOV m, r with the operand of `n` bytes at `ea`. -/
def execMovStoreMem {w : ℕ} (n : ℕ) (ctx : CpuContext) (v : BitVec w) (ea : U64) (g : Guest) :
    CaseExit :=
  match g.mem.guestWriteWord n ea v with
  | none => (g.withCtx ctx).fault
  | some mem => { g with ctx := ctx, mem := mem }.brk [⟨.store, ea, n⟩]

/-- MOV r/m64, r64 (0x89). -/
def execMovStore (ip : ℕ → Byte) (p : Prefixes) (g : Guest) : CaseExit :=
  let modrm := ip p.off
  let reg := regField modrm p
  if modOf modrm = 3 then
    let ctx := g.ctx.advance (p.off + 1)
    (g.withCtx (ctx.setGpr (rmField modrm p) (ctx.gpr reg))).brk
  else
    let ctx := movDecoded ip p g
    let ea := movAddress ip p g
    if p.rexW then execMovStoreMem 8 ctx (ctx.gpr reg) ea g
    else execMovStoreMem 4 ctx ((ctx.gpr reg).setWidth 32) ea g

/-- MOV r, m with the operand of `n` bytes at `ea`. -/
def execMovLoadMem (w n : ℕ) (ctx : CpuContext) (reg : RegIdx) (ea : U64) (g : Guest) :
    CaseExit :=
  match g.mem.guestReadWord w n ea with
  | none => (g.withCtx ctx).fault
  | some v => (g.withCtx (ctx.setGpr reg (v.setWidth 64))).brk [⟨.load, ea, n⟩]

/-- MOV r64, r/m64 (0x8B). -/
def execMovLoad (ip : ℕ → Byte) (p : Prefixes) (g : Guest) : CaseExit :=
  let modrm := ip p.off
  let reg := regField modrm p
  if modOf modrm = 3 then
    let ctx := g.ctx.advance (p.off + 1)
    (g.withCtx (ctx.setGpr reg (ctx.gpr (rmField modrm p)))).brk
  else
    let ctx := movDecoded ip p g
    let ea := movAddress ip p g
    if p.rexW then execMovLoadMem 64 8 ctx reg ea g
    else execMovLoadMem 32 4 ctx reg ea g

/-- LEA r64, m (0x8D). -/
def execLea (ip : ℕ → Byte) (p : Prefixes) (g : Guest) : CaseExit :=
  let modrm := ip p.off
  let off := p.off + 1
  let (disp, size) := dispField ip off (modOf modrm)
  let ctx := (g.ctx.advance off).advance size
  (g.withCtx (ctx.setGpr (regField modrm p) (ctx.gpr (rmField modrm p) + disp))).brk

/-- MOV r/m64, imm32 (0xC7 /0).  Every other form is skipped as executed. -/
def execMovImmC7 (ip : ℕ → Byte) (p : Prefixes) (g : Guest) : CaseExit :=
  let modrm := ip p.off
  let imm := readS32 ip (p.off + 1)
  let ctx := g.ctx.advance (p.off + 5)
  if extOf modrm = 0 ∧ modOf modrm = 3 then
    let v := if p.rexW then imm else (readWord 32 4 ip (p.off + 1)).setWidth 64
    (g.withCtx (ctx.setGpr (rmField modrm p) v)).brk
  else (g.withCtx ctx).brk

/-! ## Shifts -/

/-- The bit `cond && ((v >> n) & 1)`; the shift is evaluated only under `cond`. -/
def guardedBit (cond : Bool) (shifted : Except HostUndefined U64) : Except HostUndefined Bool :=
  if cond then do
    let s ← shifted
    return (s &&& 1) != 0
  else return false

/-- The `/ext` switch of the shift group; nothing for the extensions it has no case for. -/
def shiftGroup (ctx : CpuContext) (rm : RegIdx) (ext count : ℕ) :
    Except HostUndefined (Option CpuContext) :=
  let v := ctx.gpr rm
  match ext with
  | 4 => do -- SHL
      let r ← if count < 64 then hostShl v count else .ok 0
      let cf ← guardedBit (0 < count && count ≤ 64) (hostShr v (64 - count))
      let ctx ← updateFlagsLogic (ctx.setFlag Flags.CF cf) r 64
      return some (ctx.setGpr rm r)
  | 5 => do -- SHR
      let r ← if count < 64 then hostShr v count else .ok 0
      let cf ← guardedBit (0 < count) (hostShr v (count - 1))
      let ctx ← updateFlagsLogic (ctx.setFlag Flags.CF cf) r 64
      return some (ctx.setGpr rm r)
  | 7 => do -- SAR
      let r ← if count < 64 then hostSar v count else hostSar v 63
      let cf ← guardedBit (0 < count) (hostSar v (count - 1))
      let ctx ← updateFlagsLogic (ctx.setFlag Flags.CF cf) r 64
      return some (ctx.setGpr rm r)
  | _ => return none

/-- Shift group by imm8 (0xC1) or by CL (0xD3). -/
def execShift (ip : ℕ → Byte) (p : Prefixes) (g : Guest) : Except HostUndefined CaseExit := do
  let modrm := ip p.off
  let (count, off) :=
    if p.opcode = 0xC1 then ((ip (p.off + 1) &&& 0x3F).toNat, p.off + 2)
    else (((g.ctx.gpr Reg.RCX).setWidth 8 &&& 0x3F : Byte).toNat, p.off + 1)
  let ctx := g.ctx.advance off
  if modOf modrm = 3 then
    match ← shiftGroup ctx (rmField modrm p) (extOf modrm) count with
    | some ctx => return (g.withCtx ctx).brk
    | none => return (g.withCtx ctx).unimplemented
  else return (g.withCtx ctx).brk

/-! ## The 0xFF and 0xF7 groups -/

/-- INC / DEC / CALL / JMP (0xFF).  Memory forms and the other extensions are skipped as
executed. -/
def execGroupFF (ip : ℕ → Byte) (p : Prefixes) (g : Guest) : CaseExit :=
  let modrm := ip p.off
  let ctx := g.ctx.advance (p.off + 1)
  let rm := rmField modrm p
  if modOf modrm = 3 then
    match extOf modrm with
    | 0 =>
        let v := ctx.gpr rm
        let r := v + 1
        let ctx :=
          ((ctx.setFlag Flags.ZF (r == 0)).setFlag Flags.SF ((r >>> 63 &&& 1) != 0)).setFlag
            Flags.OF (v == 0x7FFFFFFFFFFFFFFF)
        (g.withCtx (ctx.setGpr rm r)).brk
    | 1 =>
        let r := ctx.gpr rm - 1
        let ctx := (ctx.setFlag Flags.ZF (r == 0)).setFlag Flags.SF ((r >>> 63 &&& 1) != 0)
        (g.withCtx (ctx.setGpr rm r)).brk
    | 2 => callTo ctx (ctx.gpr rm) 0 g
    | 4 => (g.withCtx (ctx.setRip (ctx.gpr rm))).brk
    | _ => (g.withCtx ctx).brk
  else (g.withCtx ctx).brk

/-- NOT / NEG / MUL / IMUL / DIV / IDIV (0xF7).  Memory forms and the other extensions
are skipped as executed. -/
def execGroupF7 (ip : ℕ → Byte) (p : Prefixes) (g : Guest) : Except HostUndefined CaseExit :=
  let modrm := ip p.off
  let ctx := g.ctx.advance (p.off + 1)
  let rm := rmField modrm p
  let v := ctx.gpr rm
  if modOf modrm = 3 then
    match extOf modrm with
    | 2 => .ok (g.withCtx (ctx.setGpr rm (~~~v))).brk
    | 3 =>
        let r := 0 - v
        let ctx := ((ctx.setFlag Flags.CF (v != 0)).setFlag Flags.ZF (r == 0)).setFlag
          Flags.SF ((r >>> 63 &&& 1) != 0)
        .ok (g.withCtx (ctx.setGpr rm r)).brk
    | 4 =>
        let prod := mul128U (ctx.gpr Reg.RAX) v
        let hi := prod.1
        let lo := prod.2
        let high := hi != 0
        .ok (g.withCtx ((((ctx.setGpr Reg.RAX lo).setGpr Reg.RDX hi).setFlag Flags.CF high).setFlag
          Flags.OF high)).brk
    | 5 =>
        let prod := mul128S (ctx.gpr Reg.RAX) v
        let hi := prod.1
        let lo := prod.2
        let overflow := hi != lo.sshiftRight 63
        .ok (g.withCtx ((((ctx.setGpr Reg.RAX lo).setGpr Reg.RDX hi).setFlag Flags.CF
          overflow).setFlag Flags.OF overflow)).brk
    | 6 =>
        if v = 0 then .ok (g.withCtx ctx).fault
        else do
          let r ← hostDivModU (ctx.gpr Reg.RAX) v
          return (g.withCtx ((ctx.setGpr Reg.RAX r.1).setGpr Reg.RDX r.2)).brk
    | 7 =>
        if v = 0 then .ok (g.withCtx ctx).fault
        else do
          let r ← hostDivModS (ctx.gpr Reg.RAX) v
          return (g.withCtx ((ctx.setGpr Reg.RAX r.1).setGpr Reg.RDX r.2)).brk
    | _ => .ok (g.withCtx ctx).brk
  else .ok (g.withCtx ctx).brk

/-- IMUL r64, r/m64, imm32 (0x69). -/
def execImulImm (ip : ℕ → Byte) (p : Prefixes) (g : Guest) : CaseExit :=
  let modrm := ip p.off
  let imm := readS32 ip (p.off + 1)
  let ctx := g.ctx.advance (p.off + 5)
  if modOf modrm = 3 then
    (g.withCtx (storeImul ctx (regField modrm p) (ctx.gpr (rmField modrm p)) imm)).brk
  else (g.withCtx ctx).brk

/-! ## Dispatch -/

/-- The cases of the opcode switch. -/
inductive OpCase where
  | nop
  | lahf
  | sahf
  | push
  | pop
  | xchg
  | movImm
  | group83
  | group81
  | add
  | or
  | and
  | sub
  | xor
  | test
  | testRaxImm
  | movStore
  | movLoad
  | jmpRel8
  | jmpRel32
  | jccRel8
  | callRel32
  | ret
  | retImm16
  | int
  | twoByte
  | hlt
  | cmpRM
  | cmpMR
  | lea
  | movImmC7
  | shift
  | groupFF
  | groupF7
  | imulImm
  | default
  deriving DecidableEq, Repr

/-- The `case` labels of the opcode switch. -/
def opCase (opcode : Byte) : OpCase :=
  if opcode = 0x90 then .nop
  else if opcode = 0x9F then .lahf
  else if opcode = 0x9E then .sahf
  else if 0x50 ≤ opcode ∧ opcode ≤ 0x57 then .push
  else if 0x58 ≤ opcode ∧ opcode ≤ 0x5F then .pop
  else if 0x91 ≤ opcode ∧ opcode ≤ 0x97 then .xchg
  else if 0xB8 ≤ opcode ∧ opcode ≤ 0xBF then .movImm
  else if opcode = 0x83 then .group83
  else if opcode = 0x81 then .group81
  else if opcode = 0x03 then .add
  else if opcode = 0x0B then .or
  else if opcode = 0x23 then .and
  else if opcode = 0x2B then .sub
  else if opcode = 0x33 then .xor
  else if opcode = 0x85 then .test
  else if opcode = 0xA9 then .testRaxImm
  else if opcode = 0x89 then .movStore
  else if opcode = 0x8B then .movLoad
  else if opcode = 0xEB then .jmpRel8
  else if opcode = 0xE9 then .jmpRel32
  else if 0x70 ≤ opcode ∧ opcode ≤ 0x7F then .jccRel8
  else if opcode = 0xE8 then .callRel32
  else if opcode = 0xC3 then .ret
  else if opcode = 0xC2 then .retImm16
  else if opcode = 0xCD then .int
  else if opcode = 0x0F then .twoByte
  else if opcode = 0xF4 then .hlt
  else if opcode = 0x39 then .cmpRM
  else if opcode = 0x3B then .cmpMR
  else if opcode = 0x8D then .lea
  else if opcode = 0xC7 then .movImmC7
  else if opcode = 0xC1 ∨ opcode = 0xD3 then .shift
  else if opcode = 0xFF then .groupFF
  else if opcode = 0xF7 then .groupF7
  else if opcode = 0x69 then .imulImm
  else .default

/-- The body of a case. -/
def execCase (c : OpCase) (ip : ℕ → Byte) (p : Prefixes) (g : Guest) :
    Except HostUndefined CaseExit :=
  match c with
  | .nop => .ok (execNop p g)
  | .lahf => .ok (execLahf p g)
  | .sahf => .ok (execSahf p g)
  | .push => .ok (execPush p g)
  | .pop => .ok (execPop p g)
  | .xchg => .ok (execXchg p g)
  | .movImm => .ok (execMovImm ip p g)
  | .group83 => execGroup83 ip p g
  | .group81 => execGroup81 ip p g
  | .add => execAdd ip p g
  | .or => execOr ip p.off p g
  | .and => execAnd ip p.off p g
  | .sub => execSub ip p.off p g
  | .xor => execXor ip p.off p g
  | .test => execTest ip p.off p g
  | .testRaxImm => execTestRaxImm ip p g
  | .movStore => .ok (execMovStore ip p g)
  | .movLoad => .ok (execMovLoad ip p g)
  | .jmpRel8 => .ok (execJmpRel8 ip p g)
  | .jmpRel32 => .ok (execJmpRel32 ip p g)
  | .jccRel8 => .ok (execJccRel8 ip p g)
  | .callRel32 => .ok (execCallRel32 ip p g)
  | .ret => .ok (execRet g)
  | .retImm16 => .ok (execRetImm16 ip p g)
  | .int => .ok (execInt ip p g)
  | .twoByte => execTwoByte ip p g
  | .hlt => .ok (execHlt p g)
  | .cmpRM => execCmpRM ip p.off p g
  | .cmpMR => execCmpMR ip p.off p g
  | .lea => .ok (execLea ip p g)
  | .movImmC7 => .ok (execMovImmC7 ip p g)
  | .shift => execShift ip p g
  | .groupFF => .ok (execGroupFF ip p g)
  | .groupF7 => execGroupF7 ip p g
  | .imulImm => .ok (execImulImm ip p g)
  | .default => .ok g.unimplemented

/-- The second half of `ExecuteOne`: prefixes, opcode and the switch. -/
def decodeAndExecute (ip : ℕ → Byte) (g : Guest) : Except HostUndefined CaseExit :=
  match scanPrefixes ip with
  | none => .error .bufferOverrun
  | some p => execCase (opCase p.opcode) ip p g

end Cpu
