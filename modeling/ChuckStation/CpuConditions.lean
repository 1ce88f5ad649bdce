/-
# Conditions

The condition switch of the jumps against the relations it stands for after a CMP, and against the
switch of CMOVcc.

After a comparison each conditional jump is taken exactly if its relation holds.  The switch of
CMOVcc has no cases for the parity conditions, so that CMOVP and CMOVNP never move; every other
CMOVcc is a jump with the opposite condition over a MOV.
-/
import ChuckStation.CpuAddSub

namespace Cpu

open Guest GuestMemory WordOverflow

/-! ## Conditions -/

/-- The relation between the operands of CMP that a condition stands for. -/
def relation (cc : ℕ) (a b : U64) : Prop :=
  match cc with
  | 0x0 => ¬ FitsSigned 64 (a.toInt - b.toInt)
  | 0x1 => FitsSigned 64 (a.toInt - b.toInt)
  | 0x2 => a.toNat < b.toNat
  | 0x3 => b.toNat ≤ a.toNat
  | 0x4 => a = b
  | 0x5 => a ≠ b
  | 0x6 => a.toNat ≤ b.toNat
  | 0x7 => b.toNat < a.toNat
  | 0x8 => (a - b).toInt < 0
  | 0x9 => 0 ≤ (a - b).toInt
  | 0xA => Even (lowBits (a - b))
  | 0xB => ¬ Even (lowBits (a - b))
  | 0xC => a.toInt < b.toInt
  | 0xD => b.toInt ≤ a.toInt
  | 0xE => a.toInt ≤ b.toInt
  | 0xF => b.toInt < a.toInt
  | _ => False

section Flags

variable {ctx ctx' : CpuContext} {a b : U64} {cc : ℕ}

theorem CpuContext.flag_congr (h : ctx'.rflags = ctx.rflags) (mask : U64) :
    ctx'.flag mask = ctx.flag mask := by
  rw [flag, flag, h]

/-- The condition switch looks at the flags only. -/
theorem jccTaken_congr (h : ctx'.rflags = ctx.rflags) : jccTaken ctx' cc = jccTaken ctx cc := by
  simp only [jccTaken, CpuContext.flag_congr h]

/-- With the flags of `a - b`, a condition holds exactly if its relation does. -/
theorem jccTaken_iff_relation (h : Leaves ctx (a - b) (a.ult b) (a.ssubOverflow b) ctx')
    (hcc : cc < 16) : jccTaken ctx' cc = true ↔ relation cc a b := by
  have hbelow : a.ult b = true ↔ a.toNat < b.toNat := BitVec.ult_iff_toNat_lt
  have hequal : (a - b == 0) = true ↔ a.toNat = b.toNat := by
    rw [beq_iff_eq, sub_eq_zero, BitVec.toNat_inj]
  have hover : a.ssubOverflow b = true ↔ ¬ FitsSigned 64 (a.toInt - b.toInt) :=
    (not_fitsSigned_sub_iff a b).symm
  have hsign : (a - b).msb = true ↔ (a - b).toInt < 0 := by
    rw [BitVec.msb_eq_toInt, decide_eq_true_eq]
  have hless : ((a - b).msb != a.ssubOverflow b) = true ↔ a.toInt < b.toInt := by
    rw [← slt_eq_msb_bne_overflow, BitVec.slt_iff_toInt_lt]
  have hnotLess : ((a - b).msb == a.ssubOverflow b) = true ↔ b.toInt ≤ a.toInt := by
    rw [beq_iff_eq, ← not_lt, ← hless, bne_iff_ne, not_not]
  have hequal' : (a - b == 0) = true ↔ a.toInt = b.toInt := by
    rw [beq_iff_eq, sub_eq_zero, BitVec.toInt_inj]
  unfold jccTaken
  rw [h.cf_eq, h.zf_eq, h.sf_eq, h.of_eq, h.pf_eq]
  interval_cases cc
  all_goals
    simp only [relation, Bool.or_eq_true, Bool.and_eq_true, Bool.not_eq_true',
      ← Bool.not_eq_true, hbelow, hover, hsign, hless, hnotLess, parity_iff]
  · exact not_not
  · exact not_lt
  · rw [hequal, BitVec.toNat_inj]
  · rw [hequal, BitVec.toNat_inj]
  · rw [hequal]
    omega
  · rw [hequal]
    omega
  · exact not_lt
  · rw [hequal']
    omega
  · rw [hequal']
    omega

/-- Conditions come in pairs of a condition and its opposite. -/
theorem jccTaken_opposite (ctx : CpuContext) (hcc : cc < 16) :
    jccTaken ctx (cc ^^^ 1) = !jccTaken ctx cc := by
  unfold jccTaken
  dsimp only
  generalize ctx.flag Flags.CF = c
  generalize ctx.flag Flags.ZF = z
  generalize ctx.flag Flags.SF = s
  generalize ctx.flag Flags.OF = o
  generalize ctx.flag Flags.PF = p
  interval_cases cc <;> revert c z s o p <;> decide

/-- The switch of CMOVcc lacks the parity conditions. -/
theorem cmovTaken_eq (ctx : CpuContext) (hcc : cc < 16) :
    cmovTaken ctx cc = (jccTaken ctx cc && (cc != 0xA && cc != 0xB)) := by
  unfold cmovTaken jccTaken
  dsimp only
  interval_cases cc <;> simp

end Flags

/-! ## Comparisons and jumps -/

/-- The register forms of CMP with REX.W: the operands `a` and `b`, immediates
sign-extended. -/
def compareOf (c : OpCase) (ip : ℕ → Byte) (p : Prefixes) (g : Guest) : Option (U64 × U64) :=
  let modrm := ip p.off
  let reg := g.ctx.gpr (regField modrm p)
  let rm := g.ctx.gpr (rmField modrm p)
  if p.rexW ∧ modOf modrm = 3 then
    match c with
    | .cmpRM => some (rm, reg)
    | .cmpMR => some (reg, rm)
    | .group83 => if extOf modrm = 7 then some (rm, readS8 ip (p.off + 1)) else none
    | .group81 => if extOf modrm = 7 then some (rm, readS32 ip (p.off + 1)) else none
    | _ => none
  else none

/-- The conditional jumps, rel8 and near: condition, length and displacement. -/
def jccOf (c : OpCase) (ip : ℕ → Byte) (p : Prefixes) (_ : Guest) : Option (ℕ × ℕ × U64) :=
  match c with
  | .jccRel8 => some ((p.opcode &&& 0xF).toNat, p.off + 1, readS8 ip p.off)
  | .twoByte =>
      if 0x80 ≤ ip p.off ∧ ip p.off ≤ 0x8F then
        some ((ip p.off &&& 0xF).toNat, p.off + 5, readS32 ip (p.off + 1))
      else none
  | _ => none

section Encodings

variable {ip : ℕ → Byte} {p : Prefixes} {g : Guest} {c : OpCase} {a b rel : U64} {cc n : ℕ}

/-- A comparison changes nothing but `RIP` and the flags, which become those of `a - b`. -/
theorem execCase_compare (h : compareOf c ip p g = some (a, b)) :
    ∃ n ctx, execCase c ip p g = .ok (g.withCtx ctx).brk ∧
      Leaves (g.ctx.advance n) (a - b) (a.ult b) (a.ssubOverflow b) ctx := by
  cases c with
  | cmpRM =>
      simp only [compareOf] at h
      split_ifs at h with hform
      cases h
      obtain ⟨ctx, hctx, hl⟩ := updateFlagsArith_sub_leaves (g.ctx.advance (p.off + 1))
        (g.ctx.gpr (rmField (ip p.off) p)) (g.ctx.gpr (regField (ip p.off) p))
      refine ⟨p.off + 1, ctx, ?_, hl⟩
      unfold execCase execCmpRM execRegForm
      dsimp only
      rw [if_pos hform.2, CpuContext.advance_gpr, hctx]
      rfl
  | cmpMR =>
      simp only [compareOf] at h
      split_ifs at h with hform
      cases h
      obtain ⟨ctx, hctx, hl⟩ := updateFlagsArith_sub_leaves (g.ctx.advance (p.off + 1))
        (g.ctx.gpr (regField (ip p.off) p)) (g.ctx.gpr (rmField (ip p.off) p))
      refine ⟨p.off + 1, ctx, ?_, hl⟩
      unfold execCase execCmpMR execRegForm
      dsimp only
      rw [if_pos hform.2, CpuContext.advance_gpr, hctx]
      rfl
  | group83 =>
      simp only [compareOf] at h
      split_ifs at h with hform hext
      cases h
      obtain ⟨ctx, hctx, hl⟩ := updateFlagsArith_sub_leaves (g.ctx.advance (p.off + 2))
        (g.ctx.gpr (rmField (ip p.off) p)) (readS8 ip (p.off + 1))
      refine ⟨p.off + 2, ctx, ?_, hl⟩
      unfold execCase execGroup83 group1
      dsimp only
      rw [hext, CpuContext.advance_gpr, hctx]
      rfl
  | group81 =>
      simp only [compareOf] at h
      split_ifs at h with hform hext
      cases h
      obtain ⟨ctx, hctx, hl⟩ := updateFlagsArith_sub_leaves (g.ctx.advance (p.off + 5))
        (g.ctx.gpr (rmField (ip p.off) p)) (readS32 ip (p.off + 1))
      refine ⟨p.off + 5, ctx, ?_, hl⟩
      unfold execCase execGroup81 group1
      dsimp only
      rw [if_pos hform.2, hext, CpuContext.advance_gpr, hctx]
      rfl
  | nop | lahf | sahf | push | pop | xchg | movImm | add | or | and | sub | xor | test | testRaxImm
  | movStore | movLoad | jmpRel8 | jmpRel32 | jccRel8 | callRel32 | ret | retImm16 | int | twoByte
  | hlt | lea | movImmC7 | shift | groupFF | groupF7 | imulImm | default => simp [compareOf] at h

theorem lowNibble_lt (v : Byte) : (v &&& 0xF).toNat < 16 := by
  rw [BitVec.toNat_and]
  exact lt_of_le_of_lt Nat.and_le_right (by decide)

/-- A conditional jump evaluates its condition over the flags it meets. -/
theorem execCase_jcc (h : jccOf c ip p g = some (cc, n, rel)) :
    execCase c ip p g = .ok (jumpIf (jccTaken g.ctx cc) n rel g) ∧ cc < 16 ∧ 0 < n ∧
      n ≤ p.off + 5 := by
  cases c with
  | jccRel8 =>
      cases h
      exact ⟨rfl, lowNibble_lt _, by omega, by omega⟩
  | twoByte =>
      simp only [jccOf] at h
      split_ifs at h with hnear
      cases h
      have hsys : ip p.off ≠ 0x05 := by
        intro heq
        rw [heq] at hnear
        exact absurd hnear (by decide)
      refine ⟨?_, lowNibble_lt _, by omega, le_rfl⟩
      unfold execCase execTwoByte
      dsimp only
      rw [if_neg hsys, if_pos hnear]
  | nop | lahf | sahf | push | pop | xchg | movImm | group83 | group81 | add | or | and | sub | xor
  | test | testRaxImm | movStore | movLoad | jmpRel8 | jmpRel32 | callRel32 | ret | retImm16 | int
  | hlt | cmpRM | cmpMR | lea | movImmC7 | shift | groupFF | groupF7 | imulImm | default => cases h

end Encodings

/-! ## Compare and branch -/

section JumpIf

variable (taken : Bool) (n : ℕ) (rel : U64) (g : Guest)

theorem jumpIf_rip : (jumpIf taken n rel g).guest.ctx.rip =
    if taken then g.ctx.rip + BitVec.ofNat 64 n + rel else g.ctx.rip + BitVec.ofNat 64 n := by
  cases taken <;> rfl

theorem jumpIf_gpr : (jumpIf taken n rel g).guest.ctx.gpr = g.ctx.gpr := by
  cases taken <;> rfl

theorem jumpIf_rflags : (jumpIf taken n rel g).guest.ctx.rflags = g.ctx.rflags := by
  cases taken <;> rfl

end JumpIf

/-- The step over a conditional jump from `m` ends at its target if `taken`, else behind it. -/
def JumpsIf (taken : Prop) (m : Machine) (n : ℕ) (rel : U64) : Prop :=
  ∃ out, executeOne m = .ok out ∧ out.result = .Ok ∧
    (taken → out.machine.cpu.ctx.rip = m.cpu.ctx.rip + BitVec.ofNat 64 n + rel) ∧
    (¬ taken → out.machine.cpu.ctx.rip = m.cpu.ctx.rip + BitVec.ofNat 64 n)

theorem jcc_jumpsIf {m : Machine} {ip : ℕ → Byte} {p : Prefixes} {cc n : ℕ} {rel : U64}
    (hd : Decodes m ip p) (h : jccOf (opCase p.opcode) ip p m.guest = some (cc, n, rel)) :
    JumpsIf (jccTaken m.cpu.ctx cc = true) m n rel := by
  obtain ⟨he, -⟩ := execCase_jcc h
  refine ⟨_, executeOne_eq_finish hd he, rfl, ?_, ?_⟩
  · intro htaken
    rw [Machine.finish_ctx, jumpIf_rip]
    exact if_pos htaken
  · intro hnot
    rw [Machine.finish_ctx, jumpIf_rip]
    exact if_neg hnot

/-- **Compare and branch.**  After CMP `a`, `b` the registers and memory are as before, and every
conditional jump over its flags is taken exactly if its relation holds between `a` and `b`. -/
theorem compare_and_branch (m : Machine) {ip : ℕ → Byte} {p : Prefixes} {a b : U64}
    (hd : Decodes m ip p) (hcmp : compareOf (opCase p.opcode) ip p m.guest = some (a, b)) :
    ∃ out, executeOne m = .ok out ∧ out.result = .Ok ∧
      out.machine.cpu.ctx.gpr = m.cpu.ctx.gpr ∧ out.machine.mem = m.mem ∧
      ∀ m' ip' p' cc n rel, m'.cpu.ctx.rflags = out.machine.cpu.ctx.rflags →
        Decodes m' ip' p' → jccOf (opCase p'.opcode) ip' p' m'.guest = some (cc, n, rel) →
        JumpsIf (relation cc a b) m' n rel := by
  obtain ⟨k, ctx, he, hl⟩ := execCase_compare hcmp
  refine ⟨_, executeOne_eq_finish hd he, rfl, ?_, rfl, ?_⟩
  · rw [Machine.finish_ctx]
    exact hl.only.gpr_eq
  · intro m' ip' p' cc n rel hflags hd' hjcc
    rw [Machine.finish_ctx] at hflags
    have hcc := (execCase_jcc hjcc).2.1
    have htaken : jccTaken m'.cpu.ctx cc = true ↔ relation cc a b := by
      rw [jccTaken_congr hflags]
      exact jccTaken_iff_relation hl hcc
    have hjump := jcc_jumpsIf hd' hjcc
    rwa [htaken] at hjump

/-- CMP RAX, RCX and JL at 0x1000, with -1 in RAX and 1 in RCX. -/
def compareLess : Machine where
  cpu :=
    { ctx :=
        { gpr := Function.update (Function.update (fun _ => 0) Reg.RAX (-1)) Reg.RCX 1
          rip := 0x1000 } }
  mem :=
    { bytes := ByteStore.write (fun _ => 0x90) 0x1000 [0x48, 0x39, 0xC8, 0x7C, 0x10]
      readable := fun _ _ => true
      writable := fun _ _ => true }

/-- The jump behind the comparison of `compareLess` is taken. -/
theorem compare_and_branch_compareLess : ∃ out out', executeOne compareLess = .ok out ∧
    executeOne out.machine = .ok out' ∧ out'.machine.cpu.ctx.rip = 0x1015 := by
  have hdec : Decodes compareLess (codeBuf compareLess.mem 0x1000 32)
      { off := 2, rexW := true, opcode := 0x39 } :=
    ⟨by decide, rfl, rfl, rfl⟩
  obtain ⟨out, hout, -, -, hmem, hjump⟩ :=
    compare_and_branch compareLess (a := -1) (b := 1) hdec (by decide)
  have hrip : out.machine.cpu.ctx.rip = 0x1003 :=
    eq_of_toOption_map (fun out => out.machine.cpu.ctx.rip) hout (by decide)
  have hbp := executeOne_bpByAddr hout
  have hdec' : Decodes out.machine (codeBuf compareLess.mem 0x1003 32)
      { off := 1, opcode := 0x7C } := by
    refine ⟨by rw [hrip]; decide, by rw [hrip, hmem]; rfl, ?_, rfl⟩
    rw [CpuState.isBreakpoint, hbp]
    rfl
  obtain ⟨out', hout', -, htaken, -⟩ := hjump out.machine _ _ 0xC 2 0x10 rfl hdec' (by rfl)
  refine ⟨out, out', hout, hout', ?_⟩
  have hless : relation 0xC (-1) 1 := by
    show (-1 : U64).toInt < (1 : U64).toInt
    decide
  rw [htaken hless, hrip]
  decide

/-! ## CMOVcc against a jump over MOV -/

/-- The register forms of CMOVcc with REX.W: condition, destination and source. -/
def cmovOf (c : OpCase) (ip : ℕ → Byte) (p : Prefixes) (_ : Guest) :
    Option (ℕ × RegIdx × RegIdx) :=
  let op2 := ip p.off
  let modrm := ip (p.off + 1)
  if c = .twoByte ∧ (0x40 ≤ op2 ∧ op2 ≤ 0x4F) ∧ p.rexW ∧ modOf modrm = 3 then
    some ((op2 &&& 0xF).toNat, regField modrm p, rmField modrm p)
  else none

/-- The register form of MOV r, rm (0x8B) with REX.W: destination, source and length. -/
def movRegOf (c : OpCase) (ip : ℕ → Byte) (p : Prefixes) (_ : Guest) :
    Option (RegIdx × RegIdx × ℕ) :=
  let modrm := ip p.off
  if c = .movLoad ∧ p.rexW ∧ modOf modrm = 3 then
    some (regField modrm p, rmField modrm p, p.off + 1)
  else none

/-- The machine with another `RIP`. -/
def Machine.at (m : Machine) (rip : U64) : Machine := { m with cpu.ctx := m.cpu.ctx.setRip rip }

/-- The instruction at `RIP` is CMOVcc `r`, `rm`. -/
def CmovAt (m : Machine) (cc : ℕ) (r rm : RegIdx) : Prop :=
  ∃ ip p, Decodes m ip p ∧ cmovOf (opCase p.opcode) ip p m.guest = some (cc, r, rm)

/-- At `RIP` there is a jump with the opposite of `cc` over MOV `r`, `rm`, which ends at `stop`. -/
def JumpOverMovAt (m : Machine) (cc : ℕ) (r rm : RegIdx) (stop : U64) : Prop :=
  ∃ ip p n rel ip' p' k, Decodes m ip p ∧
    jccOf (opCase p.opcode) ip p m.guest = some (cc ^^^ 1, n, rel) ∧
    Decodes (m.at (m.cpu.ctx.rip + BitVec.ofNat 64 n)) ip' p' ∧
    movRegOf (opCase p'.opcode) ip' p' m.guest = some (r, rm, k) ∧ rel = BitVec.ofNat 64 k ∧
    stop = m.cpu.ctx.rip + BitVec.ofNat 64 n + rel

/-- At most `n` steps, up to the address `stop`. -/
def runUpTo (stop : U64) : ℕ → Machine → Except HostUndefined Machine
  | 0, m => .ok m
  | n + 1, m =>
      if m.cpu.ctx.rip = stop then .ok m
      else do
        let out ← executeOne m
        runUpTo stop n out.machine

/-- The CMOVcc at `m` leaves the registers and flags that the jump over MOV at `m'` leaves when it
comes to its end. -/
def SameEffect (m m' : Machine) (stop : U64) : Prop :=
  ∃ out m₂, executeOne m = .ok out ∧ out.result = .Ok ∧ runUpTo stop 2 m' = .ok m₂ ∧
    m₂.cpu.ctx.rip = stop ∧ m₂.cpu.ctx.gpr = out.machine.cpu.ctx.gpr ∧
    m₂.cpu.ctx.rflags = out.machine.cpu.ctx.rflags

section Cmov

variable {ip : ℕ → Byte} {p : Prefixes} {g : Guest} {c : OpCase} {cc k : ℕ} {r rm : RegIdx}
  {m : Machine} {stop : U64}

/-- What CMOVcc does. -/
theorem execCase_cmov (h : cmovOf c ip p g = some (cc, r, rm)) :
    cc < 16 ∧ ∃ ctx, execCase c ip p g = .ok (g.withCtx ctx).brk ∧
      ctx.rflags = g.ctx.rflags ∧
      ctx.gpr = if cmovTaken g.ctx cc then Function.update g.ctx.gpr r (g.ctx.gpr rm)
        else g.ctx.gpr := by
  unfold cmovOf at h
  dsimp only at h
  split_ifs at h with hform
  cases h
  obtain ⟨rfl, hop2, -, hmod⟩ := hform
  have hsys : ip p.off ≠ 0x05 := by
    intro heq
    rw [heq] at hop2
    exact absurd hop2 (by decide)
  have hjcc : ¬ (0x80 ≤ ip p.off ∧ ip p.off ≤ 0x8F) := by
    rintro ⟨hlo, -⟩
    exact absurd (BitVec.le_trans hlo hop2.2) (by decide)
  refine ⟨lowNibble_lt _, if cmovTaken g.ctx (ip p.off &&& 0xF).toNat then
      (g.ctx.advance (p.off + 1 + 1)).setGpr (regField (ip (p.off + 1)) p)
        (g.ctx.gpr (rmField (ip (p.off + 1)) p))
    else g.ctx.advance (p.off + 1 + 1), ?_, ?_, ?_⟩
  · unfold execCase execTwoByte
    dsimp only
    rw [if_neg hsys, if_neg hjcc, if_pos hop2]
    unfold execCmov execRegForm
    dsimp only
    rw [if_pos hmod]
    rfl
  · split <;> rfl
  · split <;> rfl

theorem execCase_movReg (h : movRegOf c ip p g = some (r, rm, k)) :
    execCase c ip p g = .ok (g.withCtx ((g.ctx.advance k).setGpr r (g.ctx.gpr rm))).brk ∧
      0 < k ∧ k ≤ p.off + 1 := by
  unfold movRegOf at h
  dsimp only at h
  split_ifs at h with hform
  cases h
  obtain ⟨rfl, -, hmod⟩ := hform
  refine ⟨?_, by omega, le_rfl⟩
  unfold execCase execMovLoad
  dsimp only
  rw [if_pos hmod]
  rfl

/-- A jump over MOV moves exactly if the jump is not taken. -/
theorem runUpTo_jumpOverMov (h : JumpOverMovAt m cc r rm stop) (hcc : cc < 16) :
    ∃ m₂, runUpTo stop 2 m = .ok m₂ ∧ m₂.cpu.ctx.rip = stop ∧
      m₂.cpu.ctx.rflags = m.cpu.ctx.rflags ∧
      m₂.cpu.ctx.gpr = if jccTaken m.cpu.ctx cc
        then Function.update m.cpu.ctx.gpr r (m.cpu.ctx.gpr rm) else m.cpu.ctx.gpr := by
  obtain ⟨ip, p, n, rel, ip', p', k, hd, hjcc, hd', hmov, rfl, rfl⟩ := h
  obtain ⟨he, -, hn, hn'⟩ := execCase_jcc hjcc
  obtain ⟨he', hk, hk'⟩ := execCase_movReg hmov
  obtain ⟨-, hoff⟩ := hd.off_bounds
  obtain ⟨-, hoff'⟩ := hd'.off_bounds
  have hout := executeOne_eq_finish hd he
  obtain ⟨t, ht⟩ : ∃ t, t = (m.finish (jumpIf (jccTaken m.guest.ctx (cc ^^^ 1)) n
    (BitVec.ofNat 64 k) m.guest)).machine := ⟨_, rfl⟩
  have hgpr : t.cpu.ctx.gpr = m.cpu.ctx.gpr := by
    rw [ht, Machine.finish_ctx, jumpIf_gpr]
    rfl
  have hrflags : t.cpu.ctx.rflags = m.cpu.ctx.rflags := by
    rw [ht, Machine.finish_ctx, jumpIf_rflags]
    rfl
  have hmem : t.mem = m.mem := by rw [ht, Machine.finish_mem]; rfl
  have hbp : t.cpu.bpByAddr = m.cpu.bpByAddr := by rw [ht]; exact executeOne_bpByAddr hout
  have hrip : t.cpu.ctx.rip = if jccTaken m.guest.ctx (cc ^^^ 1)
      then m.cpu.ctx.rip + BitVec.ofNat 64 n + BitVec.ofNat 64 k
      else m.cpu.ctx.rip + BitVec.ofNat 64 n := by
    rw [ht, Machine.finish_ctx, jumpIf_rip]
    rfl
  have hstart : m.cpu.ctx.rip ≠ m.cpu.ctx.rip + BitVec.ofNat 64 n + BitVec.ofNat 64 k := by
    rw [BitVec.add_assoc, ← BitVec.ofNat_add]
    exact (rip_advance_ne _ (by omega) (by omega)).symm
  have hfirst (i : ℕ) : runUpTo (m.cpu.ctx.rip + BitVec.ofNat 64 n + BitVec.ofNat 64 k) (i + 1) m =
      runUpTo (m.cpu.ctx.rip + BitVec.ofNat 64 n + BitVec.ofNat 64 k) i t := by
    rw [runUpTo, if_neg hstart, hout, ok_bind, ht]
  rw [hfirst]
  have hctx : m.guest.ctx = m.cpu.ctx := rfl
  rw [hctx, jccTaken_opposite _ hcc] at hrip
  cases htaken : jccTaken m.cpu.ctx cc with
  | false =>
      -- the jump is taken, to the end
      rw [htaken] at hrip
      refine ⟨t, ?_, hrip, hrflags, hgpr⟩
      rw [runUpTo]
      exact if_pos hrip
  | true =>
      rw [htaken] at hrip
      have hmid : t.cpu.ctx.rip ≠ m.cpu.ctx.rip + BitVec.ofNat 64 n + BitVec.ofNat 64 k := by
        rw [hrip]
        exact (rip_advance_ne _ hk (by omega)).symm
      have hdt : Decodes t ip' p' := hd'.congr hrip hmem hbp
      have hsecond := executeOne_eq_finish hdt (execCase_movReg (g := t.guest) hmov).1
      refine ⟨(t.finish (t.guest.withCtx
        ((t.guest.ctx.advance k).setGpr r (t.guest.ctx.gpr rm))).brk).machine, ?_, ?_, ?_, ?_⟩
      · rw [runUpTo, if_neg hmid, hsecond, ok_bind, runUpTo]
      · rw [Machine.finish_ctx]
        exact congrArg (· + BitVec.ofNat 64 k) hrip
      · rw [Machine.finish_ctx]
        exact hrflags
      · rw [Machine.finish_ctx]
        show Function.update t.cpu.ctx.gpr r (t.cpu.ctx.gpr rm) = _
        rw [hgpr]
        rfl

end Cmov

/-! ## CMOVcc is a jump over MOV -/

/-- CMOVcc at `m` and the jump over MOV at `m'`, over the same registers and flags, leave the same
registers and flags. -/
def CmovEqualsJump (m m' : Machine) : Prop :=
  ∀ cc r rm stop, CmovAt m cc r rm → JumpOverMovAt m' cc r rm stop →
    m'.cpu.ctx.gpr = m.cpu.ctx.gpr → m'.cpu.ctx.rflags = m.cpu.ctx.rflags → SameEffect m m' stop

/-- The condition is one of parity, it holds, and the registers differ. -/
def ParityMoves (cc : ℕ) (r rm : RegIdx) (ctx : CpuContext) : Prop :=
  (cc = 0xA ∧ ctx.flag Flags.PF = true ∨ cc = 0xB ∧ ctx.flag Flags.PF = false) ∧
    ctx.gpr r ≠ ctx.gpr rm

theorem parityMoves_iff {cc : ℕ} {r rm : RegIdx} {ctx : CpuContext} :
    ParityMoves cc r rm ctx ↔
      (jccTaken ctx cc = true ∧ (cc = 0xA ∨ cc = 0xB)) ∧ ctx.gpr r ≠ ctx.gpr rm := by
  refine and_congr_left fun _ => ⟨?_, ?_⟩
  · rintro (⟨rfl, hpf⟩ | ⟨rfl, hpf⟩)
    · exact ⟨hpf, Or.inl rfl⟩
    · refine ⟨?_, Or.inr rfl⟩
      show (!ctx.flag Flags.PF) = true
      rw [hpf]
      rfl
  · rintro ⟨htaken, rfl | rfl⟩
    · exact Or.inl ⟨rfl, htaken⟩
    · exact Or.inr ⟨rfl, by simpa [jccTaken] using htaken⟩

/-- The two condition switches move the same exactly outside the parity conditions. -/
theorem moves_eq_iff {cc : ℕ} {r rm : RegIdx} {ctx : CpuContext} (hcc : cc < 16) :
    (if jccTaken ctx cc then Function.update ctx.gpr r (ctx.gpr rm) else ctx.gpr) =
        (if cmovTaken ctx cc then Function.update ctx.gpr r (ctx.gpr rm) else ctx.gpr) ↔
      ¬ ParityMoves cc r rm ctx := by
  have hself : Function.update ctx.gpr r (ctx.gpr rm) = ctx.gpr ↔ ctx.gpr r = ctx.gpr rm :=
    Function.update_eq_self_iff.trans eq_comm
  rw [parityMoves_iff, cmovTaken_eq ctx hcc]
  cases jccTaken ctx cc with
  | false => simp
  | true =>
      by_cases hparity : cc = 0xA ∨ cc = 0xB
      · have hno : (cc != 0xA && cc != 0xB) = false := by
          rcases hparity with rfl | rfl <;> rfl
        simp [hno, hparity, hself]
      · have hyes : (cc != 0xA && cc != 0xB) = true := by simpa [not_or] using hparity
        simp [hyes, hparity]

/-- **CMOVcc, exactly.**  A CMOVcc and a jump over MOV have the same effect if and only if the
condition is none of parity, does not hold, or the registers are equal. -/
theorem cmovEqualsJump_iff (m m' : Machine) :
    CmovEqualsJump m m' ↔ ∀ cc r rm stop, CmovAt m cc r rm → JumpOverMovAt m' cc r rm stop →
      m'.cpu.ctx.gpr = m.cpu.ctx.gpr → m'.cpu.ctx.rflags = m.cpu.ctx.rflags →
      ¬ ParityMoves cc r rm m.cpu.ctx := by
  refine forall₄_congr fun cc r rm stop => forall₄_congr fun hcmov hjump hgpr hrflags => ?_
  obtain ⟨ip, p, hd, hsel⟩ := hcmov
  obtain ⟨hcc, ctx, he, hflags, hregs⟩ := execCase_cmov hsel
  obtain ⟨m₂, hrun, hstop, hflags₂, hregs₂⟩ := runUpTo_jumpOverMov hjump hcc
  have hout := executeOne_eq_finish hd he
  have hctx : (m.finish (m.guest.withCtx ctx).brk).machine.cpu.ctx = ctx := Machine.finish_ctx _ _
  have hguest : m.guest.ctx = m.cpu.ctx := rfl
  rw [hguest] at hregs
  rw [jccTaken_congr hrflags, hgpr] at hregs₂
  rw [← moves_eq_iff hcc, ← hregs, ← hregs₂]
  constructor
  · rintro ⟨out, m₃, hout', -, hrun', -, hgpr', -⟩
    cases hout.symm.trans hout'
    cases hrun.symm.trans hrun'
    rwa [hctx] at hgpr'
  · intro hsame
    refine ⟨_, m₂, hout, rfl, hrun, hstop, ?_, ?_⟩
    · rw [hctx, hsame]
    · rw [hctx, hflags₂, hrflags, hflags]
      rfl

/-- CMOVP RAX, RCX at 0x1000, with PF set and 1 in RCX. -/
def cmovParity : Machine where
  cpu :=
    { ctx :=
        { gpr := Function.update (fun _ => 0) Reg.RCX 1
          rip := 0x1000
          rflags := Flags.PF } }
  mem :=
    { bytes := ByteStore.write (fun _ => 0x90) 0x1000 [0x48, 0x0F, 0x4A, 0xC1]
      readable := fun _ _ => true
      writable := fun _ _ => true }

/-- JNP over MOV RAX, RCX at 0x1000, with PF set and 1 in RCX. -/
def jumpOverMov : Machine where
  cpu := cmovParity.cpu
  mem :=
    { bytes := ByteStore.write (fun _ => 0x90) 0x1000 [0x7B, 0x03, 0x48, 0x8B, 0xC1]
      readable := fun _ _ => true
      writable := fun _ _ => true }

/-- The jump of `jumpOverMov` is not taken and RAX becomes 1; `cmovParity` leaves it 0. -/
theorem not_cmovEqualsJump_parity : ¬ ∀ m m', CmovEqualsJump m m' := by
  intro h
  have hcmov : CmovAt cmovParity 0xA Reg.RAX Reg.RCX :=
    ⟨codeBuf cmovParity.mem 0x1000 32, { off := 2, rexW := true, opcode := 0x0F },
      ⟨by decide, rfl, rfl, rfl⟩, by decide⟩
  have hjump : JumpOverMovAt jumpOverMov 0xA Reg.RAX Reg.RCX 0x1005 :=
    ⟨codeBuf jumpOverMov.mem 0x1000 32, { off := 1, opcode := 0x7B }, 2, 3,
      codeBuf jumpOverMov.mem 0x1002 32, { off := 2, rexW := true, opcode := 0x8B }, 3,
      ⟨by decide, rfl, rfl, rfl⟩, by decide, ⟨by decide, rfl, rfl, rfl⟩, by decide, rfl, by decide⟩
  obtain ⟨out, m₂, hout, -, hrun, -, hgpr, -⟩ := h _ _ _ _ _ _ hcmov hjump rfl rfl
  have hzero : out.machine.cpu.ctx.gpr Reg.RAX = 0 :=
    eq_of_toOption_map (fun out => out.machine.cpu.ctx.gpr Reg.RAX) hout (by decide)
  have hone : m₂.cpu.ctx.gpr Reg.RAX = 1 :=
    eq_of_toOption_map (fun m => m.cpu.ctx.gpr Reg.RAX) hrun (by decide)
  rw [hgpr, hzero] at hone
  exact absurd hone (by decide)

end Cpu
