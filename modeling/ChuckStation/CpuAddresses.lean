/-
# Operand addresses

The four instructions with a memory operand (ADD 0x03, MOV 0x89 and 0x8B, LEA 0x8D) decode it on
their own.  For a base register without SIB or RIP-relative addressing, both MOVs and LEA use base
plus displacement and consume the displacement bytes.  ADD reads the ModRM byte for an 8-bit
displacement, and neither reads nor consumes one of 32 bits.
-/
import ChuckStation.CpuStream

namespace Cpu

open Guest GuestMemory

/-- The access at `ea` decides how the case ends: carried out, or a fault. -/
def EndsByAccess (e : CaseExit) (accepted : Bool) (access : Access) : Prop :=
  if accepted then e.result = .Ok ∧ e.accesses = [access] else e.result = .Fault

theorem EndsByAccess.result_ok {e : CaseExit} {accepted : Bool} {access : Access}
    (h : EndsByAccess e accepted access) (ha : accepted = true) : e.result = .Ok := by
  rw [EndsByAccess, if_pos ha] at h
  exact h.1

/-- Over every data memory the case takes its operand at `ea` and consumes `n` displacement
bytes. -/
def UsesOperand (c : OpCase) (ip : ℕ → Byte) (p : Prefixes) (ctx : CpuContext) (ea : U64)
    (n : ℕ) : Prop :=
  ∀ callStack mem, ∃ e, execCase c ip p ⟨ctx, callStack, mem⟩ = .ok e ∧
    e.guest.ctx.rip = ctx.rip + BitVec.ofNat 64 (p.off + 1 + n) ∧
    match c with
    | .add => EndsByAccess e (mem.readable ea 8) ⟨.load, ea, 8⟩
    | .movStore => EndsByAccess e (mem.writable ea (movWidth p)) ⟨.store, ea, movWidth p⟩
    | .movLoad => EndsByAccess e (mem.readable ea (movWidth p)) ⟨.load, ea, movWidth p⟩
    | .lea => e.result = .Ok ∧
        e.guest.ctx.gpr = Function.update ctx.gpr (regField (ip p.off) p) ea
    | _ => False

/-- Base plus displacement. -/
def operandAddress (ip : ℕ → Byte) (p : Prefixes) (ctx : CpuContext) : U64 :=
  ctx.gpr (rmField (ip p.off) p) + X86.displacement ip p.off

/-- The instructions with a memory operand. -/
def takesOperand (c : OpCase) : Bool := c ∈ [.add, .movStore, .movLoad, .lea]

section Cases

variable {ip : ℕ → Byte} {p : Prefixes} {ctx : CpuContext}

/-- A plain operand has the displacement that `mod` asks for. -/
theorem dispLength_of_plain (hplain : X86.IsPlain (ip p.off)) (sib : Byte) :
    X86.sibLength (ip p.off) = 0 ∧
      X86.dispLength (ip p.off) sib = X86.modDispLength (modOf (ip p.off)) := by
  obtain ⟨hsib, hrip⟩ := hplain
  constructor
  · exact if_neg fun h => hsib h.2
  · refine if_neg fun h => ?_
    rcases h.2 with h5 | h4
    · exact hrip ⟨h.1, h5⟩
    · exact hsib h4.1

/-- The displacement MOV and LEA decode is the operand's. -/
theorem dispField_eq (hplain : X86.IsPlain (ip p.off)) :
    dispField ip (p.off + 1) (modOf (ip p.off)) =
      (X86.displacement ip p.off, X86.modDispLength (modOf (ip p.off))) := by
  obtain ⟨hsib, hdisp⟩ := dispLength_of_plain (p := p) hplain (ip (p.off + 1))
  rw [X86.displacement, hsib, hdisp]
  unfold dispField X86.modDispLength
  by_cases hone : modOf (ip p.off) = 1
  · simp only [if_pos hone, Nat.one_ne_zero, if_false, if_true]
    rfl
  by_cases htwo : modOf (ip p.off) = 2
  · simp only [if_neg hone, if_pos htwo, Nat.reduceEqDiff, if_false]
    rfl
  · simp only [if_neg hone, if_neg htwo, if_true]

/-- MOV computes the operand's address and passes over the operand. -/
theorem movOperand_of_plain (hplain : X86.IsPlain (ip p.off)) (g : Guest) :
    movAddress ip p g = operandAddress ip p g.ctx ∧
      (movDecoded ip p g).rip = g.ctx.rip +
        BitVec.ofNat 64 (p.off + 1 + X86.modDispLength (modOf (ip p.off))) := by
  have hrip := movDecoded_rip ip p g
  rw [dispField_eq hplain] at hrip
  refine ⟨?_, hrip⟩
  rw [movAddress, dispField_eq hplain, operandAddress]

theorem movLoad_usesOperand (hplain : X86.IsPlain (ip p.off)) (hmod : modOf (ip p.off) ≠ 3) :
    UsesOperand .movLoad ip p ctx (operandAddress ip p ctx)
      (X86.modDispLength (modOf (ip p.off))) := by
  intro callStack mem
  obtain ⟨hea, hrip⟩ := movOperand_of_plain hplain ⟨ctx, callStack, mem⟩
  cases hr : mem.readable (operandAddress ip p ctx) (movWidth p) with
  | true =>
      obtain ⟨ctx', he, hrip'⟩ := execMovLoad_mem_ok ip p ⟨ctx, callStack, mem⟩ hmod
        (by rw [hea]; exact hr)
      rw [hea] at he
      refine ⟨_, congrArg Except.ok he, hrip'.trans hrip, ?_⟩
      exact ⟨rfl, rfl⟩
  | false =>
      have he := execMovLoad_mem_fault ip p ⟨ctx, callStack, mem⟩ hmod (by rw [hea]; exact hr)
      refine ⟨_, congrArg Except.ok he, hrip, ?_⟩
      exact rfl

theorem movStore_usesOperand (hplain : X86.IsPlain (ip p.off)) (hmod : modOf (ip p.off) ≠ 3) :
    UsesOperand .movStore ip p ctx (operandAddress ip p ctx)
      (X86.modDispLength (modOf (ip p.off))) := by
  intro callStack mem
  obtain ⟨hea, hrip⟩ := movOperand_of_plain hplain ⟨ctx, callStack, mem⟩
  cases hw : mem.writable (operandAddress ip p ctx) (movWidth p) with
  | true =>
      obtain ⟨mem', he⟩ := execMovStore_mem_ok ip p ⟨ctx, callStack, mem⟩ hmod
        (by rw [hea]; exact hw)
      rw [hea] at he
      exact ⟨_, congrArg Except.ok he, hrip, rfl, rfl⟩
  | false =>
      have he := execMovStore_mem_fault ip p ⟨ctx, callStack, mem⟩ hmod (by rw [hea]; exact hw)
      exact ⟨_, congrArg Except.ok he, hrip, rfl⟩

theorem lea_usesOperand (hplain : X86.IsPlain (ip p.off)) :
    UsesOperand .lea ip p ctx (operandAddress ip p ctx)
      (X86.modDispLength (modOf (ip p.off))) := by
  intro callStack mem
  have hs := execLea_straight ip p ⟨ctx, callStack, mem⟩
  have hrip := hs.rip_eq
  rw [dispField_eq hplain] at hrip
  refine ⟨_, rfl, hrip, hs.result_eq, ?_⟩
  unfold execLea
  dsimp only
  rw [dispField_eq hplain]
  rfl

/-- ADD decodes no displacement of 32 bits, and the ModRM byte for one of 8 bits. -/
def AddMisses (ip : ℕ → Byte) (p : Prefixes) : Prop :=
  modOf (ip p.off) = 2 ∨ modOf (ip p.off) = 1 ∧ ip (p.off + 1) ≠ ip p.off

theorem displacement_of_mod_one (hplain : X86.IsPlain (ip p.off)) (hmod : modOf (ip p.off) = 1) :
    X86.displacement ip p.off = readS8 ip (p.off + 1) := by
  have hdisp := dispField_eq hplain
  rw [dispField, if_pos hmod] at hdisp
  exact (congrArg Prod.fst hdisp).symm

theorem addDispField_eq (hplain : X86.IsPlain (ip p.off)) (hok : ¬ AddMisses ip p) :
    addDispField ip (p.off + 1) (modOf (ip p.off)) =
      (X86.displacement ip p.off, X86.modDispLength (modOf (ip p.off))) := by
  obtain ⟨htwo, hone⟩ := not_or.mp hok
  rw [← dispField_eq hplain]
  unfold addDispField dispField
  by_cases hmod : modOf (ip p.off) = 1
  · have hbyte : ip (p.off + 1) = ip p.off := not_not.mp fun hne => hone ⟨hmod, hne⟩
    rw [if_pos hmod, if_pos hmod, readS8, readS8, hbyte, Nat.add_sub_cancel]
  · rw [if_neg hmod, if_neg hmod, if_neg htwo]

theorem add_usesOperand (hplain : X86.IsPlain (ip p.off)) (hmod : modOf (ip p.off) ≠ 3)
    (hok : ¬ AddMisses ip p) :
    UsesOperand .add ip p ctx (operandAddress ip p ctx)
      (X86.modDispLength (modOf (ip p.off))) := by
  intro callStack mem
  have hea : addAddress ip p ⟨ctx, callStack, mem⟩ = operandAddress ip p ctx := by
    rw [addAddress, addDispField_eq hplain hok, operandAddress]
  have hrip := addDecoded_rip ip p ⟨ctx, callStack, mem⟩
  rw [addDispField_eq hplain hok] at hrip
  cases hr : mem.readable (operandAddress ip p ctx) 8 with
  | true =>
      obtain ⟨ctx', he, hrip'⟩ := execAdd_mem_ok ip p ⟨ctx, callStack, mem⟩ hmod
        (by rw [hea]; exact hr)
      rw [hea] at he
      exact ⟨_, he, hrip'.trans hrip, rfl, rfl⟩
  | false =>
      have he := execAdd_mem_fault ip p ⟨ctx, callStack, mem⟩ hmod (by rw [hea]; exact hr)
      exact ⟨_, he, hrip, rfl⟩

/-- ADD ends behind the bytes it decodes, whether its access is accepted or not. -/
theorem execAdd_mem_rip (hmod : modOf (ip p.off) ≠ 3) (g : Guest) :
    ∃ e, execAdd ip p g = .ok e ∧ e.guest.ctx.rip = (addDecoded ip p g).rip := by
  cases hr : g.mem.readable (addAddress ip p g) 8 with
  | true =>
      obtain ⟨ctx', he, hrip⟩ := execAdd_mem_ok ip p g hmod hr
      exact ⟨_, he, hrip⟩
  | false => exact ⟨_, execAdd_mem_fault ip p g hmod hr, rfl⟩

theorem readS8_inj {i j : ℕ} (h : readS8 ip i = readS8 ip j) : ip i = ip j := by
  have hint := congrArg BitVec.toInt h
  rw [readS8, readS8, BitVec.toInt_signExtend_of_le (by norm_num),
    BitVec.toInt_signExtend_of_le (by norm_num)] at hint
  exact BitVec.eq_of_toInt_eq hint

/-- With a displacement that it misses, ADD stops behind ModRM, or takes another address. -/
theorem not_add_usesOperand (hplain : X86.IsPlain (ip p.off)) (hmiss : AddMisses ip p) :
    ¬ UsesOperand .add ip p ctx (operandAddress ip p ctx)
      (X86.modDispLength (modOf (ip p.off))) := by
  intro h
  have hmod : modOf (ip p.off) ≠ 3 := by
    rcases hmiss with h2 | ⟨h1, -⟩ <;> omega
  -- the only readable address is the operand's
  obtain ⟨e, he, hrip, hend⟩ := h [] ⟨fun _ => 0, fun a _ => a = operandAddress ip p ctx,
    fun _ _ => false⟩
  rcases hmiss with htwo | ⟨hone, hne⟩
  · obtain ⟨e', he', hrip'⟩ := execAdd_mem_rip hmod ⟨ctx, [], _, _, _⟩
    cases he'.symm.trans he
    rw [hrip', addDecoded_rip] at hrip
    simp only [addDispField, X86.modDispLength, htwo, Nat.reduceEqDiff, if_false, if_true] at hrip
    rw [BitVec.ofNat_add (p.off + 1) 4, ← BitVec.add_assoc] at hrip
    exact rip_advance_ne _ (by norm_num) (by norm_num) hrip.symm
  · have hea : addAddress ip p ⟨ctx, [], fun _ => 0, fun a _ => a = operandAddress ip p ctx,
        fun _ _ => false⟩ ≠ operandAddress ip p ctx := by
      rw [addAddress, operandAddress, displacement_of_mod_one hplain hone, addDispField,
        if_pos hone, Nat.add_sub_cancel]
      intro heq
      exact hne (readS8_inj (add_left_cancel heq)).symm
    have hfault := execAdd_mem_fault ip p ⟨ctx, [], fun _ => 0,
      fun a _ => a = operandAddress ip p ctx, fun _ _ => false⟩ hmod (decide_eq_false hea)
    cases hfault.symm.trans he
    have hok := EndsByAccess.result_ok hend (decide_eq_true rfl)
    cases hok

end Cases

/-! ## Steps over a memory operand -/

/-- A step from `m` over a memory operand with a base register takes the operand at base plus
displacement, and consumes the displacement bytes. -/
def AddressExact (m : Machine) : Prop :=
  ∀ ip p, Decodes m ip p → takesOperand (opCase p.opcode) = true → X86.IsPlain (ip p.off) →
    modOf (ip p.off) ≠ 3 →
    UsesOperand (opCase p.opcode) ip p m.cpu.ctx (operandAddress ip p m.cpu.ctx)
      (X86.modDispLength (modOf (ip p.off)))

/-- The step from `m` is an ADD with a displacement of 32 bits, or of 8 bits that are not those of
its ModRM byte. -/
def AddMissesDisplacement (m : Machine) : Prop :=
  ∃ ip p, Decodes m ip p ∧ opCase p.opcode = .add ∧ X86.IsPlain (ip p.off) ∧ AddMisses ip p

/-- **Effective addresses, exactly.**  ADD, both MOVs and LEA take their operand at the same address
and consume the same displacement bytes, except an ADD with a displacement that it misses. -/
theorem addressExact_iff (m : Machine) : AddressExact m ↔ ¬ AddMissesDisplacement m := by
  constructor
  · rintro h ⟨ip, p, hd, hadd, hplain, hmiss⟩
    have hmod : modOf (ip p.off) ≠ 3 := by
      rcases hmiss with h2 | ⟨h1, -⟩ <;> omega
    have huses := h ip p hd (by rw [hadd]; rfl) hplain hmod
    rw [hadd] at huses
    exact not_add_usesOperand hplain hmiss huses
  · intro h ip p hd htakes hplain hmod
    cases hc : opCase p.opcode with
    | add => exact add_usesOperand hplain hmod fun hmiss => h ⟨ip, p, hd, hc, hplain, hmiss⟩
    | movStore => exact movStore_usesOperand hplain hmod
    | movLoad => exact movLoad_usesOperand hplain hmod
    | lea => exact lea_usesOperand hplain
    | nop | lahf | sahf | push | pop | xchg | movImm | group83 | group81 | or | and | sub | xor
    | test | testRaxImm | jmpRel8 | jmpRel32 | jccRel8 | callRel32 | ret | retImm16 | int | twoByte
    | hlt | cmpRM | cmpMR | movImmC7 | shift | groupFF | groupF7 | imulImm | default =>
        rw [hc] at htakes
        cases htakes

/-- ADD RAX, [RCX + 8] at 0x1000. -/
def addDisp8 : Machine where
  cpu := { ctx := { rip := 0x1000 } }
  mem :=
    { bytes := ByteStore.write (fun _ => 0x90) 0x1000 [0x48, 0x03, 0x41, 0x08]
      readable := fun _ _ => true
      writable := fun _ _ => true }

/-- The step over `addDisp8` loads from RCX + 0x41. -/
theorem not_addressExact_addDisp8 : ¬ ∀ m, AddressExact m := by
  intro h
  have hdec : Decodes addDisp8 (codeBuf addDisp8.mem 0x1000 32)
      { off := 2, rexW := true, opcode := 0x03 } :=
    ⟨by decide, rfl, rfl, rfl⟩
  obtain ⟨e, he, -, hend⟩ := h addDisp8 _ _ hdec (by decide) (by decide) (by decide) []
    addDisp8.mem
  have hload : e.accesses = [⟨.load, 0x41, 8⟩] :=
    eq_of_toOption_map CaseExit.accesses he (by decide)
  have hspec : e.accesses = [⟨.load, 0x08, 8⟩] := hend.2
  rw [hload] at hspec
  exact absurd hspec (by decide)

end Cpu
