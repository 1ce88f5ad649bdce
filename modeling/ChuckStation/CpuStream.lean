/-
# Integrity of the instruction stream

Case by case, `KeepsStream` is exactly when a step over the case keeps the instruction
stream intact; `streamIntact_iff` collects the cases.
-/
import ChuckStation.CpuDecode

namespace Cpu

open Guest GuestMemory

section Cases

variable {ip : ℕ → Byte} {p : Prefixes} {g : Guest} {c : OpCase}

/-! ## Shapes of a case -/

/-- A case that ends with `Ok`, without a ModRM operand. -/
theorem exitIntegrity_of_ok {e : CaseExit}
    (hrip : e.guest.ctx.rip = g.ctx.rip + BitVec.ofNat 64 ((formOf c ip p).length ip))
    (hmem : ¬ (formOf c ip p).IsMemory ip) (himpl : implements c ip p = true) :
    ExitIntegrity c ip p g e :=
  ⟨fun _ _ => hrip, fun _ hm => absurd hm hmem, fun _ hm => absurd hm hmem,
    fun hno => absurd himpl (by simp [hno])⟩

/-- A straight case with a ModRM operand keeps the stream if it has code for the extension,
the operand is a register, and the immediate has the size it skips. -/
theorem forall_modRM_iff {k : ℕ}
    (h : ∃ e, execCase c ip p g = .ok e ∧ Straight g ((formOf c ip p).opcodeEnd + 1 + k) e)
    (hoff : p.off ≤ 48) (hk : k ≤ 5) (hm : (formOf c ip p).hasModRM = true)
    (huse : (formOf c ip p).reads = true ∨ (formOf c ip p).writes = true) :
    (∀ e, execCase c ip p g = .ok e → ExitIntegrity c ip p g e) ↔ implements c ip p = true ∧
      modOf (ip (formOf c ip p).opcodeEnd) = 3 ∧
      ((formOf c ip p).branch = false → k = (formOf c ip p).imm) := by
  have hend := (formOf_imm_le c ip p).2
  rw [forall_straight_iff h hoff (by omega)]
  constructor
  · rintro ⟨himpl, hlen, hmem⟩
    have hmod : modOf (ip (formOf c ip p).opcodeEnd) = 3 := by
      by_contra hmod
      exact hmem ⟨hm, hmod, huse⟩
    refine ⟨himpl, hmod, fun hb => ?_⟩
    have hlen := hlen hb
    rw [X86.Form.length_of_register _ _ hm hmod] at hlen
    omega
  · rintro ⟨himpl, hmod, hlen⟩
    refine ⟨himpl, fun hb => ?_, fun hmem => hmem.2.1 hmod⟩
    rw [X86.Form.length_of_register _ _ hm hmod, hlen hb]

/-- The one access of a case is the operand's if it is where the operand is and large enough. -/
theorem performed_singleton_iff {kind : AccessKind} {ea addr : U64} {size n : ℕ} :
    Performed [⟨kind, ea, size⟩] kind addr n ↔ ea = addr ∧ n ≤ size := by
  constructor
  · rintro ⟨acc, hin, -, haddr, hsize⟩
    rw [List.mem_singleton.mp hin] at haddr hsize
    exact ⟨haddr, hsize⟩
  · rintro ⟨haddr, hsize⟩
    exact ⟨_, List.mem_singleton_self _, rfl, haddr, hsize⟩

/-- A case that loads its operand. -/
theorem exitIntegrity_load_iff {e : CaseExit} {n size : ℕ} {ea : U64} (hok : e.result = .Ok)
    (hrip : e.guest.ctx.rip = g.ctx.rip + BitVec.ofNat 64 n)
    (hacc : e.accesses = [⟨.load, ea, size⟩]) (hoff : p.off ≤ 48) (hn : n < 2 ^ 64)
    (hsize : (formOf c ip p).operandBytes ≤ size) (himpl : implements c ip p = true)
    (hmem : (formOf c ip p).IsMemory ip) (hr : (formOf c ip p).reads = true)
    (hw : (formOf c ip p).writes = false) (hb : (formOf c ip p).branch = false) :
    ExitIntegrity c ip p g e ↔ n = (formOf c ip p).length ip ∧
      ea = (formOf c ip p).address ip g.ctx.gpr g.ctx.rip := by
  constructor
  · intro h
    refine ⟨h.length_eq hok hrip hoff hn hb, ?_⟩
    have hload := h.load hok hmem hr
    rw [hacc, performed_singleton_iff] at hload
    exact hload.1
  · rintro ⟨hlen, haddr⟩
    refine ⟨fun _ _ => by rw [hrip, hlen], fun _ _ _ => ?_, fun _ _ hyes => ?_, fun hno => ?_⟩
    · rw [hacc, performed_singleton_iff]
      exact ⟨haddr, hsize⟩
    · rw [hw] at hyes
      cases hyes
    · rw [himpl] at hno
      cases hno

/-- A case that stores its operand. -/
theorem exitIntegrity_store_iff {e : CaseExit} {n size : ℕ} {ea : U64} (hok : e.result = .Ok)
    (hrip : e.guest.ctx.rip = g.ctx.rip + BitVec.ofNat 64 n)
    (hgpr : e.guest.ctx.gpr = g.ctx.gpr)
    (hacc : e.accesses = [⟨.store, ea, size⟩]) (hoff : p.off ≤ 48) (hn : n < 2 ^ 64)
    (hsize : (formOf c ip p).operandBytes ≤ size) (himpl : implements c ip p = true)
    (hmem : (formOf c ip p).IsMemory ip) (hr : (formOf c ip p).reads = false)
    (hw : (formOf c ip p).writes = true) (hb : (formOf c ip p).branch = false) :
    ExitIntegrity c ip p g e ↔ n = (formOf c ip p).length ip ∧
      ea = (formOf c ip p).address ip g.ctx.gpr g.ctx.rip := by
  constructor
  · intro h
    refine ⟨h.length_eq hok hrip hoff hn hb, ?_⟩
    obtain ⟨hstore, -⟩ := h.store hok hmem hw
    rw [hacc, performed_singleton_iff] at hstore
    exact hstore.1
  · rintro ⟨hlen, haddr⟩
    refine ⟨fun _ _ => by rw [hrip, hlen], fun _ _ hyes => ?_, fun _ _ _ => ⟨?_, hgpr⟩,
      fun hno => ?_⟩
    · rw [hr] at hyes
      cases hyes
    · rw [hacc, performed_singleton_iff]
      exact ⟨haddr, hsize⟩
    · rw [himpl] at hno
      cases hno

theorem modField_eq (modrm : Byte) : X86.modField modrm = modOf modrm := rfl

/-- The bytes MOV and LEA decode are the whole instruction exactly in the plain forms. -/
theorem dispField_length_iff (hmod : modOf (ip p.off) ≠ 3) {f : X86.Form}
    (hend : f.opcodeEnd = p.off) (hm : f.hasModRM = true) (himm : f.imm = 0) :
    p.off + 1 + (dispField ip (p.off + 1) (modOf (ip p.off))).2 = f.length ip ↔
      X86.IsPlain (ip p.off) := by
  have hsize : (dispField ip (p.off + 1) (modOf (ip p.off))).2 =
      X86.modDispLength (X86.modField (ip p.off)) := by
    rw [modField_eq]
    unfold dispField X86.modDispLength
    split_ifs <;> rfl
  rw [← X86.addressLength_eq_modDispLength_iff hmod (ip (p.off + 1)), hsize, X86.Form.length,
    if_pos hm, himm, hend]
  omega

theorem addDispField_length_iff (hmod : modOf (ip p.off) ≠ 3) {f : X86.Form}
    (hend : f.opcodeEnd = p.off) (hm : f.hasModRM = true) (himm : f.imm = 0) :
    p.off + 1 + (addDispField ip (p.off + 1) (modOf (ip p.off))).2 = f.length ip ↔
      modOf (ip p.off) ≠ 2 ∧ X86.IsPlain (ip p.off) := by
  by_cases h2 : modOf (ip p.off) = 2
  · have hlen : f.length ip = p.off + 1 + X86.addressLength (ip p.off) (ip (p.off + 1)) := by
      rw [X86.Form.length, if_pos hm, himm, hend]
      omega
    have hdisp : X86.dispLength (ip p.off) (ip (p.off + 1)) = 4 := by
      have hf : X86.modField (ip p.off) = 2 := h2
      simp [X86.dispLength, X86.modDispLength, hf]
    have hzero : (addDispField ip (p.off + 1) (modOf (ip p.off))).2 = 0 := by
      simp [addDispField, h2]
    rw [hlen, hzero, X86.addressLength, hdisp]
    exact ⟨fun h => by omega, fun h => absurd h2 h.1⟩
  · have hsame : (addDispField ip (p.off + 1) (modOf (ip p.off))).2 =
        (dispField ip (p.off + 1) (modOf (ip p.off))).2 := by
      unfold addDispField dispField
      split_ifs <;> rfl
    rw [hsame, dispField_length_iff hmod hend hm himm]
    exact ⟨fun h => ⟨h2, h⟩, fun h => h.2⟩

/-! ## The two-byte opcodes -/

theorem not_jcc_of_hasModRM2 :
    ∀ op2 : Byte, hasModRM2 op2 = true → ¬ (0x80 ≤ op2 ∧ op2 ≤ 0x8F) := by
  decide

theorem execTwoByte_straight (h : hasModRM2 (ip p.off) = true) :
    ∃ e, execTwoByte ip p g = .ok e ∧ Straight g (p.off + 1 + 1) e := by
  unfold execTwoByte
  dsimp only
  split_ifs with h05 h8x
  · rw [h05] at h
    exact absurd h (by decide)
  · exact absurd h8x (not_jcc_of_hasModRM2 _ h)
  · exact execCmov_straight ip _ p g _
  · exact execMovzx_straight ip _ p g _
  · exact execMovsx_straight ip _ p g _
  · exact execImul_straight ip _ p g
  · simp only [hasModRM2, Bool.or_eq_true, Bool.and_eq_true, decide_eq_true_eq, beq_iff_eq] at h
    tauto

theorem execTwoByte_other (h : hasModRM2 (ip p.off) = false) :
    ∃ e, execTwoByte ip p g = .ok e ∧ ((twoByteForm ip p).branch = true ∨ e.result ≠ .Ok) := by
  unfold execTwoByte
  dsimp only
  simp only [hasModRM2, Bool.or_eq_false_iff, Bool.and_eq_false_iff, decide_eq_false_iff_not,
    beq_eq_false_iff_ne] at h
  split_ifs with h05 h8x
  · exact ⟨_, rfl, Or.inr (by simp)⟩
  · refine ⟨_, rfl, Or.inl ?_⟩
    have hno : hasModRM2 (ip p.off) = false := by
      simp only [hasModRM2, Bool.or_eq_false_iff, Bool.and_eq_false_iff, decide_eq_false_iff_not,
        beq_eq_false_iff_ne]
      exact h
    simp only [twoByteForm, hno, Bool.false_eq_true, if_false, if_pos h8x]
  all_goals first
    | exact ⟨_, rfl, Or.inr (by simp [Guest.unimplemented])⟩
    | tauto

/-! ## Every case -/

/-- `Ok` for every case of the register-only ModRM shape: exactly the register operands. -/
theorem registerOperand_iff
    (h : ∃ e, execCase c ip p g = .ok e ∧ Straight g (p.off + 1) e) (hoff : p.off ≤ 48)
    (hform : formOf c ip p =
      { prefixes := archPrefixes ip p, opcodeEnd := p.off, hasModRM := true, reads := true })
    (himpl : implements c ip p = true) :
    (∀ e, execCase c ip p g = .ok e → ExitIntegrity c ip p g e) ↔ modOf (ip p.off) = 3 := by
  have hend : (formOf c ip p).opcodeEnd = p.off := by rw [hform]
  rw [forall_modRM_iff (k := 0) (by rwa [hend]) hoff (by omega) (by rw [hform]) (by simp [hform])]
  simp [himpl, hform]

/-- A case without a ModRM byte that skips `n` bytes. -/
theorem noOperand_iff {n : ℕ} (h : ∃ e, execCase c ip p g = .ok e ∧ Straight g n e)
    (hoff : p.off ≤ 48) (hn : n ≤ p.off + 8)
    (hform : (formOf c ip p).hasModRM = false) (hend : (formOf c ip p).opcodeEnd = p.off)
    (hbranch : (formOf c ip p).branch = false) (himpl : implements c ip p = true) :
    (∀ e, execCase c ip p g = .ok e → ExitIntegrity c ip p g e) ↔
      n = p.off + (formOf c ip p).imm := by
  rw [forall_straight_iff h hoff (by omega), X86.Form.length_of_noModRM _ _ hform, hend]
  simp [himpl, hbranch, X86.Form.IsMemory, hform]

theorem push_iff :
    (∀ e, execCase .push ip p g = .ok e → ExitIntegrity .push ip p g e) ↔
      KeepsStream .push ip p g := by
  refine iff_of_true ?_ trivial
  cases hw : g.mem.writable (g.ctx.gpr Reg.RSP - 8) 8 with
  | true =>
      obtain ⟨mem, hok⟩ := execPush_ok p g hw
      refine (forall_ok_iff (c := .push) (congrArg Except.ok hok)).mpr ?_
      refine exitIntegrity_of_ok rfl ?_ rfl
      simp [X86.Form.IsMemory, formOf]
  | false =>
      refine (forall_ok_iff (c := .push) (congrArg Except.ok (execPush_fault p g hw))).mpr ?_
      exact exitIntegrity_of_not_ok (by simp [fault]) (by simp [implements])

theorem pop_iff :
    (∀ e, execCase .pop ip p g = .ok e → ExitIntegrity .pop ip p g e) ↔
      KeepsStream .pop ip p g := by
  refine iff_of_true ?_ trivial
  cases hr : g.mem.readable (g.ctx.gpr Reg.RSP) 8 with
  | true =>
      obtain ⟨ctx, hok, hrip⟩ := execPop_ok p g hr
      refine (forall_ok_iff (c := .pop) (congrArg Except.ok hok)).mpr ?_
      refine exitIntegrity_of_ok hrip ?_ rfl
      simp [X86.Form.IsMemory, formOf]
  | false =>
      refine (forall_ok_iff (c := .pop) (congrArg Except.ok (execPop_fault p g hr))).mpr ?_
      exact exitIntegrity_of_not_ok (by simp [fault]) (by simp [implements])

/-- Branches without a ModRM byte are not judged by their length. -/
theorem branch_iff (hb : (formOf c ip p).branch = true) (hform : (formOf c ip p).hasModRM = false)
    (himpl : implements c ip p = true) (hkeep : KeepsStream c ip p g) :
    (∀ e, execCase c ip p g = .ok e → ExitIntegrity c ip p g e) ↔ KeepsStream c ip p g := by
  refine iff_of_true (fun e _ => exitIntegrity_of_branch hb ?_ himpl) hkeep
  simp [X86.Form.IsMemory, hform]

theorem group83_iff (hoff : p.off ≤ 48) :
    (∀ e, execCase .group83 ip p g = .ok e → ExitIntegrity .group83 ip p g e) ↔
      KeepsStream .group83 ip p g := by
  cases himpl : group1Implements (extOf (ip p.off)) with
  | true =>
      rw [forall_modRM_iff (c := .group83) (k := 1) (execGroup83_straight ip p g himpl) hoff
        (by omega) rfl (Or.inl rfl)]
      simp [implements, formOf, KeepsStream, himpl]
  | false =>
      refine iff_of_true ?_ (Or.inr himpl)
      refine (forall_ok_iff (c := .group83) (execGroup83_default ip p g himpl)).mpr ?_
      exact exitIntegrity_of_not_ok (by simp [Guest.unimplemented]) fun _ => rfl

theorem group81_iff (hoff : p.off ≤ 48) :
    (∀ e, execCase .group81 ip p g = .ok e → ExitIntegrity .group81 ip p g e) ↔
      KeepsStream .group81 ip p g := by
  by_cases himp : modOf (ip p.off) = 3 → group1Implements (extOf (ip p.off)) = true
  · rw [forall_modRM_iff (c := .group81) (k := 4) (execGroup81_straight ip p g himp) hoff
      (by omega) rfl (Or.inl rfl)]
    have himm : (formOf .group81 ip p).imm = (archPrefixes ip p).immBytes := rfl
    rw [himm, immBytes_eq_four_iff]
    simp only [implements, formOf, KeepsStream, forall_const]
    constructor
    · rintro ⟨-, hmod, hnarrow⟩
      exact ⟨hmod, Or.inr hnarrow⟩
    · rintro ⟨hmod, hno | hnarrow⟩
      · rw [himp hmod] at hno
        cases hno
      · exact ⟨himp hmod, hmod, hnarrow⟩
  · rw [Classical.not_imp, Bool.not_eq_true] at himp
    refine iff_of_true ?_ ⟨himp.1, Or.inl himp.2⟩
    refine (forall_ok_iff (c := .group81) (execGroup81_default ip p g himp.1 himp.2)).mpr ?_
    exact exitIntegrity_of_not_ok (by simp [Guest.unimplemented]) fun _ => rfl

theorem shift_iff (hoff : p.off ≤ 48) :
    (∀ e, execCase .shift ip p g = .ok e → ExitIntegrity .shift ip p g e) ↔
      KeepsStream .shift ip p g := by
  by_cases himp : modOf (ip p.off) = 3 → shiftImplements (extOf (ip p.off)) = true
  · have hbytes : p.off + shiftOperandBytes p = (formOf .shift ip p).opcodeEnd + 1 +
        (formOf .shift ip p).imm := by
      simp only [formOf, shiftOperandBytes]
      split_ifs <;> rfl
    have himm : (formOf .shift ip p).imm ≤ 5 := by
      simp only [formOf]
      split_ifs <;> omega
    rw [forall_modRM_iff (c := .shift) (by rw [← hbytes]; exact execShift_straight ip p g himp) hoff
      himm rfl (Or.inl rfl)]
    simp only [implements, KeepsStream, implies_true, and_true]
    exact ⟨fun h => h.2, fun h => ⟨himp h, h⟩⟩
  · rw [Classical.not_imp, Bool.not_eq_true] at himp
    refine iff_of_true ?_ himp.1
    refine (forall_ok_iff (c := .shift) (execShift_default ip p g himp.1 himp.2)).mpr ?_
    exact exitIntegrity_of_not_ok (by simp [Guest.unimplemented]) fun _ => rfl

theorem movImmC7_iff (hoff : p.off ≤ 48) :
    (∀ e, execCase .movImmC7 ip p g = .ok e → ExitIntegrity .movImmC7 ip p g e) ↔
      KeepsStream .movImmC7 ip p g := by
  rw [forall_modRM_iff (c := .movImmC7) (k := 4) ⟨_, rfl, execMovImmC7_straight ip p g⟩ hoff
    (by omega) rfl (Or.inr rfl)]
  have himm : (formOf .movImmC7 ip p).imm = (archPrefixes ip p).immBytes := rfl
  rw [himm, immBytes_eq_four_iff]
  simp only [implements, formOf, KeepsStream, forall_const, decide_eq_true_eq]
  tauto

theorem imulImm_iff (hoff : p.off ≤ 48) :
    (∀ e, execCase .imulImm ip p g = .ok e → ExitIntegrity .imulImm ip p g e) ↔
      KeepsStream .imulImm ip p g := by
  rw [forall_modRM_iff (c := .imulImm) (k := 4) ⟨_, rfl, execImulImm_straight ip p g⟩ hoff
    (by omega) rfl (Or.inl rfl)]
  have himm : (formOf .imulImm ip p).imm = (archPrefixes ip p).immBytes := rfl
  rw [himm, immBytes_eq_four_iff]
  simp [implements, formOf, KeepsStream]

theorem groupFF_iff (hoff : p.off ≤ 48) :
    (∀ e, execCase .groupFF ip p g = .ok e → ExitIntegrity .groupFF ip p g e) ↔
      KeepsStream .groupFF ip p g := by
  by_cases hjump : modOf (ip p.off) = 3 ∧ (extOf (ip p.off) = 2 ∨ extOf (ip p.off) = 4)
  · obtain ⟨hmod, hext⟩ := hjump
    have hb : (formOf .groupFF ip p).branch = true := by
      rcases hext with hext | hext <;> simp [formOf, hext]
    have himpl : implements .groupFF ip p = true := by
      rcases hext with hext | hext <;> simp [implements, hext]
    refine iff_of_true (fun e _ => exitIntegrity_of_branch hb (fun hm => hm.2.1 hmod) himpl) ?_
    rcases hext with hext | hext <;> simp [KeepsStream, hmod, hext]
  · have hs := execGroupFF_straight ip p g (fun hm hx => hjump ⟨hm, Or.inl hx⟩)
      fun hm hx => hjump ⟨hm, Or.inr hx⟩
    rw [forall_modRM_iff (c := .groupFF) (k := 0) ⟨_, rfl, hs⟩ hoff (by omega) rfl (Or.inl rfl)]
    simp [implements, formOf, KeepsStream]
    tauto

theorem groupF7_iff (hoff : p.off ≤ 48) :
    (∀ e, execCase .groupF7 ip p g = .ok e → ExitIntegrity .groupF7 ip p g e) ↔
      KeepsStream .groupF7 ip p g := by
  have hlt := extOf_lt (ip p.off)
  have hstraight (h : ∃ e, execGroupF7 ip p g = .ok e ∧ Straight g (p.off + 1) e) :
      (∀ e, execCase .groupF7 ip p g = .ok e → ExitIntegrity .groupF7 ip p g e) ↔
        KeepsStream .groupF7 ip p g := by
    rw [forall_modRM_iff (c := .groupF7) (k := 0) h hoff (by omega) rfl (Or.inl rfl)]
    simp only [implements, formOf, KeepsStream, forall_const, decide_eq_true_eq, List.mem_cons,
      List.not_mem_nil, or_false]
    constructor
    · rintro ⟨himpl, hmod, -⟩
      exact ⟨hmod, by omega⟩
    · rintro ⟨hmod, hext⟩
      refine ⟨by omega, hmod, ?_⟩
      rw [if_neg (by omega)]
  by_cases hdiv : isDivision (ip p.off)
  · have hext : 2 ≤ extOf (ip p.off) := by
      rcases hdiv.2 with h | h <;> omega
    have himpl : implements .groupF7 ip p = true := by
      rcases hdiv.2 with h | h <;> simp [implements, h]
    by_cases hz : g.ctx.gpr (rmField (ip p.off) p) = 0
    · refine iff_of_true ?_ ⟨hdiv.1, hext⟩
      refine (forall_ok_iff (c := .groupF7) (execGroupF7_zero ip p g hdiv hz)).mpr ?_
      exact exitIntegrity_of_not_ok (by simp [fault]) (by simp [himpl])
    · by_cases hovf : extOf (ip p.off) = 7 ∧ g.ctx.gpr Reg.RAX = int64Min ∧
          g.ctx.gpr (rmField (ip p.off) p) = -1
      · refine iff_of_true (fun e he => ?_) ⟨hdiv.1, hext⟩
        have hundef := execGroupF7_overflow ip p g hdiv.1 hovf.1 hovf.2.1 hovf.2.2
        rw [execCase, hundef] at he
        cases he
      · exact hstraight (execGroupF7_div ip p g hdiv hz hovf)
  · exact hstraight (execGroupF7_straight ip p g hdiv)

theorem twoByte_iff (hoff : p.off ≤ 48) :
    (∀ e, execCase .twoByte ip p g = .ok e → ExitIntegrity .twoByte ip p g e) ↔
      KeepsStream .twoByte ip p g := by
  cases hop : hasModRM2 (ip p.off) with
  | true =>
      have hform : formOf .twoByte ip p = { twoByteForm ip p with
          opcodeEnd := p.off + 1, hasModRM := true, imm := 0, reads := true, branch := false } := by
        simp only [formOf, twoByteForm, hop, if_true]
      rw [forall_modRM_iff (c := .twoByte) (k := 0) (by rw [hform]; exact execTwoByte_straight hop)
        hoff (by omega) (by rw [hform]) (by simp [hform])]
      simp [implements, hform, KeepsStream, hop]
  | false =>
      have hmem : ¬ (formOf .twoByte ip p).IsMemory ip := by
        rintro ⟨hm, -⟩
        simp only [formOf, twoByteForm, hop, Bool.false_eq_true, if_false] at hm
        split_ifs at hm
      refine iff_of_true ?_ (by simp [KeepsStream, hop])
      obtain ⟨e, he, hb | hne⟩ := execTwoByte_other (g := g) hop
      · exact (forall_ok_iff (c := .twoByte) he).mpr (exitIntegrity_of_branch hb hmem rfl)
      · refine (forall_ok_iff (c := .twoByte) he).mpr ?_
        exact exitIntegrity_of_not_ok hne (by simp [implements])

theorem lea_iff (hoff : p.off ≤ 48) :
    (∀ e, execCase .lea ip p g = .ok e → ExitIntegrity .lea ip p g e) ↔
      KeepsStream .lea ip p g := by
  have hsize := dispField_size_le ip (p.off + 1) (modOf (ip p.off))
  rw [forall_straight_iff (c := .lea) ⟨_, rfl, execLea_straight ip p g⟩ hoff (by omega)]
  have hmem : ¬ (formOf .lea ip p).IsMemory ip := by simp [X86.Form.IsMemory, formOf]
  simp only [implements, hmem, true_and, not_false_eq_true, and_true]
  have hb : (formOf .lea ip p).branch = false := rfl
  simp only [hb, forall_const]
  by_cases hmod : modOf (ip p.off) = 3
  · refine iff_of_true ?_ (Or.inl hmod)
    have hlen := (formOf .lea ip p).length_of_register ip rfl hmod
    rw [hlen]
    simp [dispField, hmod, formOf]
  · rw [dispField_length_iff hmod rfl rfl rfl]
    simp [KeepsStream, hmod]

theorem add_iff (hoff : p.off ≤ 48) :
    (∀ e, execCase .add ip p g = .ok e → ExitIntegrity .add ip p g e) ↔
      KeepsStream .add ip p g := by
  by_cases hmod : modOf (ip p.off) = 3
  · rw [registerOperand_iff (c := .add) (execAdd_reg_straight ip p g hmod) hoff rfl rfl]
    exact ⟨Or.inl, fun _ => hmod⟩
  have hsize := addDispField_size_le ip (p.off + 1) (modOf (ip p.off))
  cases hr : g.mem.readable (addAddress ip p g) 8 with
  | false =>
      refine iff_of_true ?_ (Or.inr (Or.inl hr))
      refine (forall_ok_iff (c := .add) (execAdd_mem_fault ip p g hmod hr)).mpr ?_
      exact exitIntegrity_of_not_ok (by simp [fault]) (by simp [implements])
  | true =>
      obtain ⟨ctx, hok, hrip⟩ := execAdd_mem_ok ip p g hmod hr
      have hint : ExitIntegrity .add ip p g
          ((g.withCtx ctx).brk [⟨.load, addAddress ip p g, 8⟩]) ↔ _ := exitIntegrity_load_iff rfl
        (hrip.trans (addDecoded_rip ip p g)) rfl hoff (by omega)
        (operandBytes_le (archPrefixes ip p)) rfl ⟨rfl, hmod, Or.inl rfl⟩ rfl rfl rfl
      rw [forall_ok_iff (c := .add) hok, hint, addDispField_length_iff hmod rfl rfl rfl]
      simp [KeepsStream, hmod, hr, AddressOk, and_assoc]

theorem movLoad_iff (hoff : p.off ≤ 48) (hagree : PrefixesAgree p (archPrefixes ip p)) :
    (∀ e, execCase .movLoad ip p g = .ok e → ExitIntegrity .movLoad ip p g e) ↔
      KeepsStream .movLoad ip p g := by
  by_cases hmod : modOf (ip p.off) = 3
  · rw [registerOperand_iff (c := .movLoad) ⟨_, rfl, execMovLoad_reg_straight ip p g hmod⟩ hoff
      rfl rfl]
    exact ⟨Or.inl, fun _ => hmod⟩
  have hsize := dispField_size_le ip (p.off + 1) (modOf (ip p.off))
  cases hr : g.mem.readable (movAddress ip p g) (movWidth p) with
  | false =>
      refine iff_of_true ?_ (Or.inr (Or.inl hr))
      have hfault := execMovLoad_mem_fault ip p g hmod hr
      refine (forall_ok_iff (c := .movLoad) (congrArg Except.ok hfault)).mpr ?_
      exact exitIntegrity_of_not_ok (by simp [fault]) (by simp [implements])
  | true =>
      obtain ⟨ctx, hok, hrip⟩ := execMovLoad_mem_ok ip p g hmod hr
      have hint : ExitIntegrity .movLoad ip p g
          ((g.withCtx ctx).brk [⟨.load, movAddress ip p g, movWidth p⟩]) ↔ _ :=
        exitIntegrity_load_iff rfl (hrip.trans (movDecoded_rip ip p g)) rfl hoff (by omega)
        hagree.operandBytes_le_movWidth rfl ⟨rfl, hmod, Or.inl rfl⟩ rfl rfl rfl
      rw [forall_ok_iff (c := .movLoad) (congrArg Except.ok hok), hint,
        dispField_length_iff hmod rfl rfl rfl]
      simp [KeepsStream, hmod, hr, AddressOk]

theorem movStore_iff (hoff : p.off ≤ 48) (hagree : PrefixesAgree p (archPrefixes ip p)) :
    (∀ e, execCase .movStore ip p g = .ok e → ExitIntegrity .movStore ip p g e) ↔
      KeepsStream .movStore ip p g := by
  by_cases hmod : modOf (ip p.off) = 3
  · rw [forall_modRM_iff (c := .movStore) (k := 0) ⟨_, rfl, execMovStore_reg_straight ip p g hmod⟩
      hoff (by omega) rfl (Or.inr rfl)]
    simp [implements, formOf, KeepsStream, hmod]
  have hsize := dispField_size_le ip (p.off + 1) (modOf (ip p.off))
  cases hw : g.mem.writable (movAddress ip p g) (movWidth p) with
  | false =>
      refine iff_of_true ?_ (Or.inr (Or.inl hw))
      have hfault := execMovStore_mem_fault ip p g hmod hw
      refine (forall_ok_iff (c := .movStore) (congrArg Except.ok hfault)).mpr ?_
      exact exitIntegrity_of_not_ok (by simp [fault]) (by simp [implements])
  | true =>
      obtain ⟨mem, hok⟩ := execMovStore_mem_ok ip p g hmod hw
      have hint : ExitIntegrity .movStore ip p g
          ({ g with ctx := movDecoded ip p g, mem := mem }.brk
            [⟨.store, movAddress ip p g, movWidth p⟩]) ↔ _ :=
        exitIntegrity_store_iff rfl (movDecoded_rip ip p g) rfl rfl hoff (by omega)
        hagree.operandBytes_le_movWidth rfl ⟨rfl, hmod, Or.inr rfl⟩ rfl rfl rfl
      rw [forall_ok_iff (c := .movStore) (congrArg Except.ok hok), hint,
        dispField_length_iff hmod rfl rfl rfl]
      simp [KeepsStream, hmod, hw, AddressOk]

/-- **Every case.** -/
theorem keepsStream_iff (c : OpCase) (hoff : p.off ≤ 48)
    (hagree : PrefixesAgree p (archPrefixes ip p)) :
    (∀ e, execCase c ip p g = .ok e → ExitIntegrity c ip p g e) ↔ KeepsStream c ip p g := by
  cases c with
  | nop =>
      rw [noOperand_iff (c := .nop) ⟨_, rfl, execNop_straight p g⟩ hoff (by omega) rfl rfl rfl rfl]
      exact iff_of_true rfl trivial
  | lahf =>
      rw [noOperand_iff (c := .lahf) ⟨_, rfl, execLahf_straight p g⟩ hoff (by omega) rfl rfl rfl
        rfl]
      exact iff_of_true rfl trivial
  | sahf =>
      rw [noOperand_iff (c := .sahf) ⟨_, rfl, execSahf_straight p g⟩ hoff (by omega) rfl rfl rfl
        rfl]
      exact iff_of_true rfl trivial
  | xchg =>
      rw [noOperand_iff (c := .xchg) ⟨_, rfl, execXchg_straight p g⟩ hoff (by omega) rfl rfl rfl
        rfl]
      exact iff_of_true rfl trivial
  | movImm =>
      have hle : (if p.rexW then 8 else 4) ≤ 8 := by split_ifs <;> omega
      rw [noOperand_iff (c := .movImm) ⟨_, rfl, execMovImm_straight ip p g⟩ hoff (by omega) rfl rfl
        rfl rfl, Nat.add_left_cancel_iff]
      exact operandBytes_eq_iff hagree
  | testRaxImm =>
      rw [noOperand_iff (c := .testRaxImm) (execTestRaxImm_straight ip p g) hoff (by omega) rfl rfl
        rfl rfl, Nat.add_left_cancel_iff]
      exact immBytes_eq_four_iff _
  | push => exact push_iff
  | pop => exact pop_iff
  | jmpRel8 | jmpRel32 | jccRel8 | callRel32 | ret | retImm16 =>
      exact branch_iff rfl rfl rfl trivial
  | int =>
      refine iff_of_true ?_ trivial
      refine (forall_ok_iff rfl).mpr (exitIntegrity_of_not_ok ?_ (by simp [implements]))
      unfold execInt
      dsimp only
      split_ifs <;> simp
  | hlt =>
      refine iff_of_true ?_ trivial
      refine (forall_ok_iff rfl).mpr ?_
      exact exitIntegrity_of_not_ok (by simp [execHlt]) fun h => by cases h
  | default =>
      refine iff_of_true ?_ trivial
      exact (forall_ok_iff rfl).mpr
        (exitIntegrity_of_not_ok (by simp [Guest.unimplemented]) fun _ => rfl)
  | or => exact registerOperand_iff (execOr_straight ip p.off p g) hoff rfl rfl
  | and => exact registerOperand_iff (execAnd_straight ip p.off p g) hoff rfl rfl
  | sub => exact registerOperand_iff (execSub_straight ip p.off p g) hoff rfl rfl
  | xor => exact registerOperand_iff (execXor_straight ip p.off p g) hoff rfl rfl
  | test => exact registerOperand_iff (execTest_straight ip p.off p g) hoff rfl rfl
  | cmpRM => exact registerOperand_iff (execCmpRM_straight ip p.off p g) hoff rfl rfl
  | cmpMR => exact registerOperand_iff (execCmpMR_straight ip p.off p g) hoff rfl rfl
  | group83 => exact group83_iff hoff
  | group81 => exact group81_iff hoff
  | add => exact add_iff hoff
  | movStore => exact movStore_iff hoff hagree
  | movLoad => exact movLoad_iff hoff hagree
  | twoByte => exact twoByte_iff hoff
  | lea => exact lea_iff hoff
  | movImmC7 => exact movImmC7_iff hoff
  | shift => exact shift_iff hoff
  | groupFF => exact groupFF_iff hoff
  | groupF7 => exact groupF7_iff hoff
  | imulImm => exact imulImm_iff hoff

end Cases

/-! ## Steps -/

/-- A step from `m` keeps the instruction stream intact. -/
def StreamIntact (m : Machine) : Prop :=
  ∀ ip p out, Decodes m ip p → executeOne m = .ok out →
    Integrity (formOf (opCase p.opcode) ip p) (implements (opCase p.opcode) ip p) ip m.cpu.ctx
      out.result out.machine.cpu.ctx out.accesses

/-- **Instruction stream integrity, exactly.**  A step keeps the stream intact if and only
if the instruction it decodes is of a form the interpreter decodes as the architecture
does. -/
theorem streamIntact_iff (m : Machine) :
    StreamIntact m ↔ ∀ ip p, Decodes m ip p → KeepsStream (opCase p.opcode) ip p m.guest := by
  refine forall_congr' fun ip => forall_congr' fun p => ?_
  have hcase (hd : Decodes m ip p) := keepsStream_iff (g := m.guest) (opCase p.opcode)
    (scanPrefixes_off hd.scan_eq).2 (scanPrefixes_agree hd.scan_eq)
  constructor
  · intro h hd
    refine (hcase hd).mp fun e he => ?_
    have hint := h (m.finish e) hd (executeOne_eq_finish hd he)
    rwa [Machine.finish_result, Machine.finish_ctx, Machine.finish_accesses] at hint
  · intro h out hd hrun
    obtain ⟨e, he, rfl⟩ := exists_finish_of_decodes hd hrun
    rw [Machine.finish_result, Machine.finish_ctx, Machine.finish_accesses]
    exact (hcase hd).mpr (h hd) e he

/-- OR RAX, [RAX] at 0x1000. -/
def orMemory : Machine where
  cpu := { ctx := { rip := 0x1000 } }
  mem :=
    { bytes := ByteStore.write (fun _ => 0x90) 0x1000 [0x48, 0x0B, 0x00]
      readable := fun _ _ => true
      writable := fun _ _ => true }

/-- The step over `orMemory` returns `Ok` without a load. -/
theorem not_streamIntact_orMemory : ¬ ∀ m, StreamIntact m := by
  intro h
  have hdec : Decodes orMemory (codeBuf orMemory.mem 0x1000 32)
      { off := 2, rexW := true, opcode := 0x0B } :=
    ⟨by decide, rfl, rfl, rfl⟩
  have hint := h orMemory _ _ _ hdec rfl
  obtain ⟨acc, hacc, -⟩ := hint.load rfl ⟨rfl, by decide, Or.inl rfl⟩ rfl
  cases hacc

end Cpu
