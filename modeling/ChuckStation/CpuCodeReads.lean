/-
# Reads of the code buffer

Which bytes of `code_buf` a step looks at.  The prefix loop looks at everything up to the opcode,
and each case of the switch at a few bytes behind it: a ModRM byte, a displacement, an immediate.
No length is checked against the 48 bytes of the buffer; they are enough because the padding behind
the first 32 bytes is no prefix.

* `execCase_congr`: a case depends on nothing of the buffer but the bytes it is said to read;
* `reads_inBuffer`: all of them are in the buffer, however much of it is padding.
-/
import ChuckStation.CpuCodeBytes

namespace Cpu

open Guest GuestMemory

/-! ## The bytes a step reads -/

/-- The indices of a `memcpy` of `n` bytes from index `off`. -/
def span (off n : ℕ) : List ℕ := List.range' off n

/-- A displacement at index `off`. -/
def dispReads (off mod : ℕ) : List ℕ :=
  if mod = 1 then [off] else if mod = 2 then span off 4 else []

/-- The second opcode, and what is behind it. -/
def twoByteReads (ip : ℕ → Byte) (p : Prefixes) : List ℕ :=
  let op2 := ip p.off
  let off := p.off + 1
  p.off ::
    if op2 = 0x05 then []
    else if 0x80 ≤ op2 ∧ op2 ≤ 0x8F then span off 4
    else if 0x40 ≤ op2 ∧ op2 ≤ 0x4F then [off]
    else if op2 = 0xB6 ∨ op2 = 0xB7 then [off]
    else if op2 = 0xBE ∨ op2 = 0xBF then [off]
    else if op2 = 0xAF then [off]
    else []

/-- The indices a case of the switch reads, in order. -/
def caseReads (c : OpCase) (ip : ℕ → Byte) (p : Prefixes) : List ℕ :=
  let off := p.off + 1
  let mod := modOf (ip p.off)
  match c with
  | .nop | .lahf | .sahf | .push | .pop | .xchg | .ret | .hlt | .default => []
  | .movImm => span p.off (if p.rexW then 8 else 4)
  | .group83 => [p.off, off]
  | .group81 | .movImmC7 | .imulImm => p.off :: span off 4
  -- The displacement of ADD is taken from the ModRM byte.
  | .add => p.off :: if mod = 1 then [off - 1] else []
  | .or | .and | .sub | .xor | .test | .cmpRM | .cmpMR | .groupFF | .groupF7 => [p.off]
  | .testRaxImm | .jmpRel32 | .callRel32 => span p.off 4
  | .movStore | .movLoad | .lea => p.off :: dispReads off mod
  | .jmpRel8 | .jccRel8 | .int => [p.off]
  | .retImm16 => span p.off 2
  | .twoByte => twoByteReads ip p
  | .shift => p.off :: if p.opcode = 0xC1 then [off] else []

/-- The indices a step reads: those of the prefix loop, and those of a case. -/
def codeReads (c : OpCase) (ip : ℕ → Byte) (p : Prefixes) : List ℕ :=
  List.range p.off ++ caseReads c ip p

/-! ## Nothing else matters -/

section Locality

variable {ip ip' : ℕ → Byte} {p : Prefixes} {g : Guest} {c : OpCase} {off n : ℕ}

theorem mem_span {i : ℕ} : i ∈ span off n ↔ off ≤ i ∧ i < off + n := List.mem_range'_1

theorem readWord_congr (w : ℕ) (hsame : ∀ i ∈ span off n, ip' i = ip i) :
    readWord w n ip' off = readWord w n ip off := by
  rw [readWord, readWord]
  congr 1
  refine List.map_congr_left fun i hi => hsame _ (mem_span.mpr ⟨by omega, ?_⟩)
  have hlt := List.mem_range.mp hi
  omega

theorem readS32_congr (hsame : ∀ i ∈ span off 4, ip' i = ip i) :
    readS32 ip' off = readS32 ip off :=
  congrArg (BitVec.signExtend 64) (readWord_congr 32 hsame)

theorem readS8_congr (hsame : ip' off = ip off) : readS8 ip' off = readS8 ip off :=
  congrArg (BitVec.signExtend 64) hsame

theorem dispField_congr {mod : ℕ} (hsame : ∀ i ∈ dispReads off mod, ip' i = ip i) :
    dispField ip' off mod = dispField ip off mod := by
  rw [dispReads] at hsame
  rw [dispField, dispField]
  split_ifs at hsame ⊢
  · rw [readS8_congr (hsame off List.mem_cons_self)]
  · rw [readS32_congr hsame]
  · rfl

theorem addDispField_congr {mod : ℕ} (hsame : mod = 1 → ip' (off - 1) = ip (off - 1)) :
    addDispField ip' off mod = addDispField ip off mod := by
  rw [addDispField, addDispField]
  split_ifs with hmod
  · rw [readS8_congr (hsame hmod)]
  · rfl

theorem execRegForm_congr {op : CpuContext → RegIdx → RegIdx → Except HostUndefined CpuContext}
    (hsame : ip' off = ip off) : execRegForm op ip' off p g = execRegForm op ip off p g := by
  rw [execRegForm, execRegForm, hsame]

theorem execTwoByte_congr (hsame : ∀ i ∈ twoByteReads ip p, ip' i = ip i) :
    execTwoByte ip' p g = execTwoByte ip p g := by
  rw [twoByteReads, List.forall_mem_cons] at hsame
  obtain ⟨hop2, hsame⟩ := hsame
  rw [execTwoByte, execTwoByte, hop2]
  split_ifs at hsame ⊢
  · rfl
  · rw [readS32_congr hsame]
  · exact execRegForm_congr (hsame _ List.mem_cons_self)
  · exact execRegForm_congr (hsame _ List.mem_cons_self)
  · exact execRegForm_congr (hsame _ List.mem_cons_self)
  · exact execRegForm_congr (hsame _ List.mem_cons_self)
  · rfl

/-- **A case** does the same over buffers that agree where it reads. -/
theorem execCase_congr (hsame : ∀ i ∈ caseReads c ip p, ip' i = ip i) :
    execCase c ip' p g = execCase c ip p g := by
  cases c with
  | nop | lahf | sahf | push | pop | xchg | ret | hlt | default => rfl
  | movImm =>
      have himm (w n : ℕ) (hn : n = if p.rexW then 8 else 4) :
          readWord w n ip' p.off = readWord w n ip p.off := by
        subst hn
        exact readWord_congr w hsame
      simp only [execCase, execMovImm]
      split_ifs with hw
      · rw [himm 64 8 (by rw [if_pos hw])]
      · rw [himm 32 4 (by rw [if_neg hw])]
  | group83 =>
      have hmodrm : ip' p.off = ip p.off := hsame _ (by simp [caseReads])
      have himm : ip' (p.off + 1) = ip (p.off + 1) := hsame _ (by simp [caseReads])
      simp only [execCase, execGroup83, hmodrm, readS8_congr himm]
  | group81 =>
      obtain ⟨hmodrm, himm⟩ := List.forall_mem_cons.mp hsame
      simp only [execCase, execGroup81, hmodrm, readS32_congr himm]
  | movImmC7 =>
      obtain ⟨hmodrm, himm⟩ := List.forall_mem_cons.mp hsame
      simp only [execCase, execMovImmC7, hmodrm, readS32_congr himm, readWord_congr 32 himm]
  | imulImm =>
      obtain ⟨hmodrm, himm⟩ := List.forall_mem_cons.mp hsame
      simp only [execCase, execImulImm, hmodrm, readS32_congr himm]
  | add =>
      obtain ⟨hmodrm, -⟩ := List.forall_mem_cons.mp hsame
      have hdisp (mod : ℕ) : addDispField ip' (p.off + 1) mod = addDispField ip (p.off + 1) mod :=
        addDispField_congr fun _ => hmodrm
      simp only [execCase, execAdd, addDecoded, addAddress, hmodrm, hdisp]
  | or | and | sub | xor | test | cmpRM | cmpMR =>
      have hmodrm : ip' p.off = ip p.off := hsame _ List.mem_cons_self
      simp only [execCase, execOr, execAnd, execSub, execXor, execTest, execCmpRM, execCmpMR,
        execRegForm_congr hmodrm]
  | groupFF =>
      have hmodrm : ip' p.off = ip p.off := hsame _ List.mem_cons_self
      simp only [execCase, execGroupFF, hmodrm]
  | groupF7 =>
      have hmodrm : ip' p.off = ip p.off := hsame _ List.mem_cons_self
      simp only [execCase, execGroupF7, hmodrm]
  | testRaxImm => simp only [execCase, execTestRaxImm, readS32_congr hsame]
  | jmpRel32 => simp only [execCase, execJmpRel32, readS32_congr hsame]
  | callRel32 => simp only [execCase, execCallRel32, readS32_congr hsame]
  | movStore =>
      obtain ⟨hmodrm, hdisp⟩ := List.forall_mem_cons.mp hsame
      simp only [execCase, execMovStore, movDecoded, movAddress, hmodrm, dispField_congr hdisp]
  | movLoad =>
      obtain ⟨hmodrm, hdisp⟩ := List.forall_mem_cons.mp hsame
      simp only [execCase, execMovLoad, movDecoded, movAddress, hmodrm, dispField_congr hdisp]
  | lea =>
      obtain ⟨hmodrm, hdisp⟩ := List.forall_mem_cons.mp hsame
      simp only [execCase, execLea, hmodrm, dispField_congr hdisp]
  | jmpRel8 =>
      simp only [execCase, execJmpRel8, readS8_congr (hsame _ List.mem_cons_self)]
  | jccRel8 =>
      simp only [execCase, execJccRel8, readS8_congr (hsame _ List.mem_cons_self)]
  | int =>
      have hvec : ip' p.off = ip p.off := hsame _ List.mem_cons_self
      simp only [execCase, execInt, hvec]
  | retImm16 => simp only [execCase, execRetImm16, readWord_congr 16 hsame]
  | twoByte => exact execTwoByte_congr hsame
  | shift =>
      obtain ⟨hmodrm, hcount⟩ := List.forall_mem_cons.mp hsame
      by_cases hcl : p.opcode = 0xC1
      · rw [if_pos hcl] at hcount
        simp only [execCase, execShift, hmodrm, if_pos hcl, hcount _ List.mem_cons_self]
      · simp only [execCase, execShift, hmodrm, if_neg hcl]

end Locality

/-! ## In the buffer -/

section Bounds

variable {ip ip' : ℕ → Byte} {p : Prefixes} {c : OpCase} {i : ℕ}

theorem bounds_of_mem_dispReads {off mod : ℕ} (h : i ∈ dispReads off mod) :
    off ≤ i ∧ i < off + 4 := by
  rw [dispReads] at h
  split_ifs at h
  · rw [List.mem_singleton] at h
    omega
  · exact mem_span.mp h
  · cases h

theorem bounds_of_mem_twoByteReads (h : i ∈ twoByteReads ip p) : p.off ≤ i ∧ i < p.off + 8 := by
  have hmodrm (h : i ∈ [p.off + 1]) : p.off ≤ i ∧ i < p.off + 8 := by
    rw [List.mem_singleton] at h
    omega
  rw [twoByteReads, List.mem_cons] at h
  rcases h with rfl | h
  · omega
  · split_ifs at h
    · cases h
    · have hspan := mem_span.mp h
      omega
    · exact hmodrm h
    · exact hmodrm h
    · exact hmodrm h
    · exact hmodrm h
    · cases h

/-- Eight bytes from the opcode on are all that a case reads. -/
theorem bounds_of_mem_caseReads (h : i ∈ caseReads c ip p) : p.off ≤ i ∧ i < p.off + 8 := by
  cases c with
  | nop | lahf | sahf | push | pop | xchg | ret | hlt | default => cases h
  | movImm =>
      have hspan := mem_span.mp h
      split_ifs at hspan <;> omega
  | group83 =>
      simp only [caseReads, List.mem_cons, List.not_mem_nil, or_false] at h
      omega
  | group81 | movImmC7 | imulImm =>
      rcases List.mem_cons.mp h with rfl | h
      · omega
      · have hspan := mem_span.mp h
        omega
  | add =>
      simp only [caseReads, List.mem_cons] at h
      rcases h with rfl | h
      · omega
      · split_ifs at h
        · rw [List.mem_singleton] at h
          omega
        · cases h
  | or | and | sub | xor | test | cmpRM | cmpMR | groupFF | groupF7 | jmpRel8 | jccRel8 | int =>
      rw [caseReads, List.mem_singleton] at h
      omega
  | testRaxImm | jmpRel32 | callRel32 | retImm16 =>
      have hspan := mem_span.mp h
      omega
  | movStore | movLoad | lea =>
      rcases List.mem_cons.mp h with rfl | h
      · omega
      · have hdisp := bounds_of_mem_dispReads h
        omega
  | twoByte => exact bounds_of_mem_twoByteReads h
  | shift =>
      simp only [caseReads, List.mem_cons] at h
      rcases h with rfl | h
      · omega
      · split_ifs at h
        · rw [List.mem_singleton] at h
          omega
        · cases h

theorem lt_of_mem_codeReads (hoff : p.off ≤ 33) (h : i ∈ codeReads c ip p) : i < 48 := by
  rcases List.mem_append.mp h with h | h
  · have hlt := List.mem_range.mp h
    omega
  · have hbounds := bounds_of_mem_caseReads h
    omega

/-- A step over a buffer depends on the bytes that it reads only. -/
theorem decodeAndExecute_congr (hscan : scanPrefixes ip = some p)
    (hsame : ∀ i ∈ codeReads (opCase p.opcode) ip p, ip' i = ip i) (g : Guest) :
    decodeAndExecute ip' g = decodeAndExecute ip g := by
  have hprefixes : ∀ i < p.off, ip' i = ip i := fun i hi =>
    hsame i (List.mem_append_left _ (List.mem_range.mpr hi))
  have hscan' := scanPrefixes_congr hprefixes hscan
  rw [decodeAndExecute, decodeAndExecute, hscan, hscan']
  exact execCase_congr fun i hi => hsame i (List.mem_append_right _ hi)

/-- **Decoding stays in the buffer**: over any 32 bytes, fetched as far as they are, the prefix loop
ends, no case reads behind the 48 bytes, and nothing that is there makes a difference. -/
theorem reads_inBuffer (mem : GuestMemory) (rip : U64) {n : ℕ} (hn : n ≤ 32) :
    ∃ p, scanPrefixes (codeBuf mem rip n) = some p ∧
      (∀ c, ∀ i ∈ codeReads c (codeBuf mem rip n) p, i < 48) ∧
      ∀ ip', (∀ i < 48, ip' i = codeBuf mem rip n i) →
        ∀ g, decodeAndExecute ip' g = decodeAndExecute (codeBuf mem rip n) g := by
  obtain ⟨p, hscan, -, hoff⟩ := scanPrefixes_codeBuf mem rip hn
  refine ⟨p, hscan, fun c i hi => lt_of_mem_codeReads hoff hi, fun ip' hsame => ?_⟩
  exact decodeAndExecute_congr hscan fun i hi => hsame i (lt_of_mem_codeReads hoff hi)

/-- Nothing but prefixes. -/
def prefixMemory : GuestMemory :=
  { bytes := fun _ => 0x66, readable := fun _ _ => true, writable := fun _ _ => true }

/-- The opcode is the first byte of the padding. -/
theorem reads_inBuffer_prefixes :
    ∃ p, scanPrefixes (codeBuf prefixMemory 0x1000 32) = some p ∧
      (∀ c, ∀ i ∈ codeReads c (codeBuf prefixMemory 0x1000 32) p, i < 48) ∧
      ∀ ip', (∀ i < 48, ip' i = codeBuf prefixMemory 0x1000 32 i) →
        ∀ g, decodeAndExecute ip' g = decodeAndExecute (codeBuf prefixMemory 0x1000 32) g :=
  reads_inBuffer prefixMemory 0x1000 le_rfl

end Bounds

end Cpu
