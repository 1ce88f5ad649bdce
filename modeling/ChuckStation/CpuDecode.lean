/-
# The interpreter against the instruction format

`ExecuteOne` decodes ModRM, displacement and immediate in every case on its own.  This
file compares each case with the x86-64 format of its instruction: whether `Ok` leaves
`RIP` behind the whole instruction, whether a memory form performs its access, and
whether an extension without a case is reported as unimplemented.

`KeepsStream` lists, case by case, the forms for which all three hold.
-/
import ChuckStation.CpuFaults
import ChuckStation.X86Format

namespace Cpu

open Guest GuestMemory

/-! ## Prefixes -/

/-- The architecture's reading of the prefixes in front of the opcode. -/
def archPrefixes (ip : ℕ → Byte) (p : Prefixes) : X86.Prefixes :=
  X86.prefixesOf ((List.range' 0 (p.off - 1)).map ip)

/-- The locals of the prefix loop are the architecture's, except that the loop keeps a REX
that a later 0x66 voids. -/
structure PrefixesAgree (p : Prefixes) (a : X86.Prefixes) : Prop where
  opsize_eq : p.prefix66 = a.opsize
  rex : (a.w = p.rexW ∧ a.r = p.rexR ∧ a.x = p.rexX ∧ a.b = p.rexB) ∨
    (a.opsize = true ∧ a.w = false)

theorem prefixLoop_agree {ip : ℕ → Byte} {fuel : ℕ} {p q : Prefixes} {a : X86.Prefixes}
    (h : prefixLoop ip fuel p = some q) (hp : PrefixesAgree p a) :
    PrefixesAgree q
      (((List.range' p.off (q.off - 1 - p.off)).map ip).foldl X86.Prefixes.push a) := by
  induction fuel generalizing p a with
  | zero => simp [prefixLoop] at h
  | succ fuel ih =>
      unfold prefixLoop at h
      dsimp only at h
      split_ifs at h with hrex h66
      · have hlt := (prefixLoop_eq_some h).1
        dsimp only at hlt
        have hlen : q.off - 1 - p.off = q.off - 1 - (p.off + 1) + 1 := by omega
        rw [hlen, List.range'_succ, List.map_cons, List.foldl_cons]
        refine ih h ?_
        have hrex' : X86.isRex (ip p.off) = true := hrex
        simp only [X86.Prefixes.push, hrex', if_true]
        exact ⟨hp.opsize_eq, Or.inl ⟨rfl, rfl, rfl, rfl⟩⟩
      · have hlt := (prefixLoop_eq_some h).1
        dsimp only at hlt
        have hlen : q.off - 1 - p.off = q.off - 1 - (p.off + 1) + 1 := by omega
        rw [hlen, List.range'_succ, List.map_cons, List.foldl_cons]
        refine ih h ?_
        have hrex' : ¬ X86.isRex (ip p.off) = true := hrex
        simp only [X86.Prefixes.push, if_neg hrex', if_pos h66]
        exact ⟨rfl, Or.inr ⟨rfl, rfl⟩⟩
      · cases h
        have hlen : p.off + 1 - 1 - p.off = 0 := by omega
        simp only [hlen, List.range'_zero, List.map_nil, List.foldl_nil]
        exact ⟨hp.opsize_eq, hp.rex⟩

theorem scanPrefixes_agree {ip : ℕ → Byte} {p : Prefixes} (h : scanPrefixes ip = some p) :
    PrefixesAgree p (archPrefixes ip p) :=
  prefixLoop_agree h ⟨rfl, Or.inl ⟨rfl, rfl, rfl, rfl⟩⟩

namespace PrefixesAgree

variable {p : Prefixes} {a : X86.Prefixes}

theorem rexW_of_w (h : PrefixesAgree p a) (hw : a.w = true) : p.rexW = true := by
  rcases h.rex with ⟨heq, -⟩ | ⟨-, hno⟩
  · rw [← heq, hw]
  · rw [hno] at hw
    cases hw

theorem rexW_eq_of_not_opsize (h : PrefixesAgree p a) (ho : a.opsize = false) : p.rexW = a.w := by
  rcases h.rex with ⟨heq, -⟩ | ⟨hyes, -⟩
  · exact heq.symm
  · rw [hyes] at ho
    cases ho

/-- The memory forms of MOV cover their operand. -/
theorem operandBytes_le_movWidth (h : PrefixesAgree p a) : a.operandBytes ≤ movWidth p := by
  unfold X86.Prefixes.operandBytes movWidth
  cases hw : a.w with
  | true => simp [h.rexW_of_w hw]
  | false => cases a.opsize <;> cases p.rexW <;> simp

end PrefixesAgree

/-- The operand size is 16 bits, so that immediates have two bytes. -/
def IsNarrow (a : X86.Prefixes) : Prop := a.opsize = true ∧ a.w = false

theorem immBytes_eq_four_iff (a : X86.Prefixes) : 4 = a.immBytes ↔ ¬ IsNarrow a := by
  unfold X86.Prefixes.immBytes IsNarrow
  cases a.opsize <;> cases a.w <;> simp

theorem immBytes_le (a : X86.Prefixes) : a.immBytes ≤ 4 := by
  unfold X86.Prefixes.immBytes
  split_ifs <;> omega

theorem operandBytes_le (a : X86.Prefixes) : a.operandBytes ≤ 8 := by
  unfold X86.Prefixes.operandBytes
  split_ifs <;> omega

theorem operandBytes_eq_iff {p : Prefixes} {a : X86.Prefixes} (h : PrefixesAgree p a) :
    (if p.rexW then 8 else 4) = a.operandBytes ↔ ¬ IsNarrow a := by
  unfold X86.Prefixes.operandBytes IsNarrow
  cases ho : a.opsize with
  | false =>
      rw [h.rexW_eq_of_not_opsize ho]
      simp
  | true =>
      cases hw : a.w with
      | true => simp [h.rexW_of_w hw]
      | false => cases p.rexW <;> simp

/-! ## The format of each case -/

/-- The two-byte opcodes of the switch that have a ModRM byte. -/
def hasModRM2 (op2 : Byte) : Bool :=
  (0x40 ≤ op2 && op2 ≤ 0x4F) || op2 == 0xB6 || op2 == 0xB7 || op2 == 0xBE || op2 == 0xBF ||
    op2 == 0xAF

/-- The format of the two-byte opcodes. -/
def twoByteForm (ip : ℕ → Byte) (p : Prefixes) : X86.Form :=
  let a := archPrefixes ip p
  let op2 := ip p.off
  let base : X86.Form := { prefixes := a, opcodeEnd := p.off + 1 }
  if hasModRM2 op2 then
    { base with
      hasModRM := true
      reads := true
      operandBytes :=
        if op2 = 0xB6 ∨ op2 = 0xBE then 1
        else if op2 = 0xB7 ∨ op2 = 0xBF then 2
        else a.operandBytes }
  else if 0x80 ≤ op2 ∧ op2 ≤ 0x8F then { base with imm := 4, branch := true }
  else base

/-- The format of the instructions of a case. -/
def formOf (c : OpCase) (ip : ℕ → Byte) (p : Prefixes) : X86.Form :=
  let a := archPrefixes ip p
  let ext := extOf (ip p.off)
  let base : X86.Form := { prefixes := a, opcodeEnd := p.off }
  let rm : X86.Form := { base with hasModRM := true }
  match c with
  | .nop | .lahf | .sahf | .push | .pop | .xchg | .hlt | .default => base
  | .movImm => { base with imm := a.operandBytes }
  | .group83 => { rm with imm := 1, reads := true, writes := ext ≠ 7 }
  | .group81 => { rm with imm := a.immBytes, reads := true, writes := ext ≠ 7 }
  | .add | .or | .and | .sub | .xor | .test | .movLoad | .cmpRM | .cmpMR =>
      { rm with reads := true }
  | .testRaxImm => { base with imm := a.immBytes }
  | .movStore => { rm with writes := true }
  | .jmpRel8 | .jccRel8 => { base with imm := 1, branch := true }
  | .jmpRel32 | .callRel32 => { base with imm := 4, branch := true }
  | .ret => { base with branch := true }
  | .retImm16 => { base with imm := 2, branch := true }
  | .int => { base with imm := 1 }
  | .twoByte => twoByteForm ip p
  | .lea => rm
  | .movImmC7 => { rm with imm := a.immBytes, writes := true }
  | .shift => { rm with imm := if p.opcode = 0xC1 then 1 else 0, reads := true, writes := true }
  | .groupFF =>
      { rm with
        operandBytes := if ext ≤ 1 then a.operandBytes else 8
        reads := true
        writes := ext ≤ 1
        branch := 2 ≤ ext ∧ ext ≤ 5 }
  | .groupF7 =>
      { rm with
        imm := if ext ≤ 1 then a.immBytes else 0
        reads := true
        writes := ext = 2 ∨ ext = 3 }
  | .imulImm => { rm with imm := a.immBytes, reads := true }

/-- Whether the case has code for the `/ext` of the instruction. -/
def implements (c : OpCase) (ip : ℕ → Byte) (p : Prefixes) : Bool :=
  match c with
  | .group83 | .group81 => group1Implements (extOf (ip p.off))
  | .movImmC7 => extOf (ip p.off) = 0
  | .shift => shiftImplements (extOf (ip p.off))
  | .groupFF => extOf (ip p.off) ∈ [0, 1, 2, 4]
  | .groupF7 => extOf (ip p.off) ∈ [2, 3, 4, 5, 6, 7]
  | _ => true

/-! ## Integrity -/

/-- An access of the given kind that covers `n` bytes from `ea` on was carried out. -/
def Performed (accesses : List Access) (kind : AccessKind) (ea : U64) (n : ℕ) : Prop :=
  ∃ acc ∈ accesses, acc.kind = kind ∧ acc.addr = ea ∧ n ≤ acc.size

/-- The end of a step over an instruction of form `f` does not desynchronise the
instruction stream. -/
structure Integrity (f : X86.Form) (impl : Bool) (ip : ℕ → Byte) (ctx : CpuContext)
    (result : StepResult) (ctx' : CpuContext) (accesses : List Access) : Prop where
  length : result = .Ok → f.branch = false → ctx'.rip = ctx.rip + BitVec.ofNat 64 (f.length ip)
  load : result = .Ok → f.IsMemory ip → f.reads = true →
    Performed accesses .load (f.address ip ctx.gpr ctx.rip) f.operandBytes
  store : result = .Ok → f.IsMemory ip → f.writes = true →
    Performed accesses .store (f.address ip ctx.gpr ctx.rip) f.operandBytes ∧ ctx'.gpr = ctx.gpr
  extension : impl = false → result = .Unimplemented

/-- `Integrity` of the end of a case. -/
def ExitIntegrity (c : OpCase) (ip : ℕ → Byte) (p : Prefixes) (g : Guest) (e : CaseExit) : Prop :=
  Integrity (formOf c ip p) (implements c ip p) ip g.ctx e.result e.guest.ctx e.accesses

/-- The address the memory forms of MOV and ADD compute is the operand's. -/
def AddressOk (c : OpCase) (ip : ℕ → Byte) (p : Prefixes) (g : Guest) (ea : U64) : Prop :=
  X86.IsPlain (ip p.off) ∧ ea = (formOf c ip p).address ip g.ctx.gpr g.ctx.rip

/-- The forms a case decodes as the architecture does.  Everything else of the case
desynchronises the stream, misses its access, or passes over an extension. -/
def KeepsStream (c : OpCase) (ip : ℕ → Byte) (p : Prefixes) (g : Guest) : Prop :=
  let a := archPrefixes ip p
  let modrm := ip p.off
  let ext := extOf modrm
  match c with
  | .nop | .lahf | .sahf | .push | .pop | .xchg | .jmpRel8 | .jmpRel32 | .jccRel8 | .callRel32
  | .ret | .retImm16 | .int | .hlt | .default => True
  | .movImm | .testRaxImm => ¬ IsNarrow a
  | .group83 => modOf modrm = 3 ∨ group1Implements ext = false
  | .group81 => modOf modrm = 3 ∧ (group1Implements ext = false ∨ ¬ IsNarrow a)
  | .add => modOf modrm = 3 ∨ g.mem.readable (addAddress ip p g) 8 = false ∨
      (modOf modrm ≠ 2 ∧ AddressOk c ip p g (addAddress ip p g))
  | .movStore => modOf modrm = 3 ∨ g.mem.writable (movAddress ip p g) (movWidth p) = false ∨
      AddressOk c ip p g (movAddress ip p g)
  | .movLoad => modOf modrm = 3 ∨ g.mem.readable (movAddress ip p g) (movWidth p) = false ∨
      AddressOk c ip p g (movAddress ip p g)
  | .or | .and | .sub | .xor | .test | .cmpRM | .cmpMR | .shift => modOf modrm = 3
  | .twoByte => hasModRM2 modrm = true → modOf (ip (p.off + 1)) = 3
  | .lea => modOf modrm = 3 ∨ X86.IsPlain modrm
  | .movImmC7 => modOf modrm = 3 ∧ ext = 0 ∧ ¬ IsNarrow a
  | .groupFF => modOf modrm = 3 ∧ (ext = 0 ∨ ext = 1 ∨ ext = 2 ∨ ext = 4)
  | .groupF7 => modOf modrm = 3 ∧ 2 ≤ ext
  | .imulImm => modOf modrm = 3 ∧ ¬ IsNarrow a

/-! ## Ends of a case -/

section Ends

variable {ip : ℕ → Byte} {p : Prefixes} {g : Guest} {c : OpCase} {e : CaseExit} {n : ℕ}

theorem rip_advance_inj {rip : U64} {m n : ℕ} (hm : m < 2 ^ 64) (hn : n < 2 ^ 64) :
    rip + BitVec.ofNat 64 m = rip + BitVec.ofNat 64 n ↔ m = n := by
  constructor
  · intro h
    have heq : (BitVec.ofNat 64 m).toNat = (BitVec.ofNat 64 n).toNat := by bv_omega
    rwa [BitVec.toNat_ofNat, BitVec.toNat_ofNat, Nat.mod_eq_of_lt hm, Nat.mod_eq_of_lt hn] at heq
  · rintro rfl
    rfl

theorem formOf_imm_le (c : OpCase) (ip : ℕ → Byte) (p : Prefixes) :
    (formOf c ip p).imm ≤ 8 ∧ (formOf c ip p).opcodeEnd ≤ p.off + 1 := by
  have hi := immBytes_le (archPrefixes ip p)
  have ho := operandBytes_le (archPrefixes ip p)
  cases c with
  | twoByte =>
      simp only [formOf, twoByteForm]
      split_ifs <;> dsimp only <;> omega
  | shift | groupF7 =>
      simp only [formOf]
      split_ifs <;> omega
  | nop | lahf | sahf | push | pop | xchg | movImm | group83 | group81 | add | or | and | sub
  | xor | test | testRaxImm | movStore | movLoad | jmpRel8 | jmpRel32 | jccRel8 | callRel32
  | ret | retImm16 | int | hlt | cmpRM | cmpMR | lea | movImmC7 | groupFF | imulImm | default =>
      simp only [formOf]
      omega

theorem formOf_length_lt (hoff : p.off ≤ 48) : (formOf c ip p).length ip < 2 ^ 64 := by
  have hle := (formOf c ip p).length_le ip
  obtain ⟨himm, hend⟩ := formOf_imm_le c ip p
  omega

/-- How far such a case goes is the length of the instruction. -/
theorem ExitIntegrity.length_eq (h : ExitIntegrity c ip p g e) (hok : e.result = .Ok)
    (hrip : e.guest.ctx.rip = g.ctx.rip + BitVec.ofNat 64 n) (hoff : p.off ≤ 48)
    (hn : n < 2 ^ 64) (hb : (formOf c ip p).branch = false) : n = (formOf c ip p).length ip := by
  have hlen := Integrity.length h hok hb
  rw [hrip] at hlen
  exact (rip_advance_inj hn (formOf_length_lt hoff)).mp hlen

/-- A case that touches no memory is judged by its length, its form and its extension. -/
theorem exitIntegrity_straight_iff (hs : Straight g n e) (hoff : p.off ≤ 48) (hn : n < 2 ^ 64) :
    ExitIntegrity c ip p g e ↔ implements c ip p = true ∧
      ((formOf c ip p).branch = false → n = (formOf c ip p).length ip) ∧
      ¬ (formOf c ip p).IsMemory ip := by
  constructor
  · intro h
    refine ⟨?_, ?_, ?_⟩
    · by_contra himpl
      have hun := h.extension (by simpa using himpl)
      rw [hs.result_eq] at hun
      cases hun
    · intro hb
      exact h.length_eq hs.result_eq hs.rip_eq hoff hn hb
    · intro hmem
      rcases hmem.2.2 with hr | hw
      · obtain ⟨acc, hacc, -⟩ := h.load hs.result_eq hmem hr
        rw [hs.accesses_eq] at hacc
        cases hacc
      · obtain ⟨⟨acc, hacc, -⟩, -⟩ := h.store hs.result_eq hmem hw
        rw [hs.accesses_eq] at hacc
        cases hacc
  · rintro ⟨himpl, hlen, hmem⟩
    refine ⟨fun _ hb => ?_, fun _ hm => absurd hm hmem, fun _ hm => absurd hm hmem, fun hno => ?_⟩
    · rw [hs.rip_eq, hlen hb]
    · rw [himpl] at hno
      cases hno

/-- A case that does not end with `Ok` is judged by its extension alone. -/
theorem exitIntegrity_of_not_ok (h : e.result ≠ .Ok)
    (himpl : implements c ip p = false → e.result = .Unimplemented) : ExitIntegrity c ip p g e :=
  ⟨fun hok => absurd hok h, fun hok => absurd hok h, fun hok => absurd hok h, himpl⟩

/-- A branch is not judged by its length. -/
theorem exitIntegrity_of_branch (hb : (formOf c ip p).branch = true)
    (hmem : ¬ (formOf c ip p).IsMemory ip) (himpl : implements c ip p = true) :
    ExitIntegrity c ip p g e :=
  ⟨fun _ hno => absurd hb (by simp [hno]), fun _ hm => absurd hm hmem, fun _ hm => absurd hm hmem,
    fun hno => absurd himpl (by simp [hno])⟩

theorem forall_ok_iff {P : CaseExit → Prop} (h : execCase c ip p g = .ok e) :
    (∀ e', execCase c ip p g = .ok e' → P e') ↔ P e := by
  constructor
  · intro hall
    exact hall e h
  · intro hP e' he'
    cases h.symm.trans he'
    exact hP

theorem forall_straight_iff (h : ∃ e, execCase c ip p g = .ok e ∧ Straight g n e)
    (hoff : p.off ≤ 48) (hn : n < 2 ^ 64) :
    (∀ e, execCase c ip p g = .ok e → ExitIntegrity c ip p g e) ↔ implements c ip p = true ∧
      ((formOf c ip p).branch = false → n = (formOf c ip p).length ip) ∧
      ¬ (formOf c ip p).IsMemory ip := by
  obtain ⟨e, he, hs⟩ := h
  rw [forall_ok_iff he, exitIntegrity_straight_iff hs hoff hn]

end Ends

end Cpu
