/-
# Disassembly

`Decode` and `Disassemble` (`Cpu.cpp`) against the instructions that steps execute.  `Decode` knows
REX prefixes and an opcode byte and nothing else: its lines agree with an executed instruction only
if that consists of just these.
-/
import ChuckStation.CpuReports

namespace Cpu

/-! ## Decode and Disassemble -/

/-- `struct DecodedInsn`. -/
structure DecodedInsn where
  length : Byte := 0
  opcode : Byte := 0
  modrm : Byte := 0
  sib : Byte := 0
  imm : U64 := 0
  disp : U32 := 0
  hasModrm : Bool := false
  hasSib : Bool := false
  hasImm : Bool := false
  rexW : Bool := false
  rexR : Bool := false
  rexX : Bool := false
  rexB : Bool := false
  mnemonic : String := ""

/-- The table `mnemonics` of `Decode`. -/
def mnemonics : List (Byte × String) :=
  [(0x03, "add"), (0x0B, "or"), (0x23, "and"), (0x2B, "sub"), (0x33, "xor"),
    (0x39, "cmp"), (0x3B, "cmp"), (0x50, "push"), (0x58, "pop"),
    (0x69, "imul"), (0x81, "alu"), (0x83, "alu"), (0x85, "test"), (0x89, "mov"),
    (0x8B, "mov"), (0x8D, "lea"), (0x90, "nop"), (0x9E, "sahf"), (0x9F, "lahf"),
    (0xA9, "test"), (0xC1, "shl"), (0xC2, "ret"), (0xC3, "ret"), (0xC7, "mov"),
    (0xD3, "shl"), (0xE8, "call"), (0xE9, "jmp"), (0xEB, "jmp short"),
    (0xF4, "hlt"), (0xF7, "alu"), (0xFF, "call/jmp/inc"), (0xCD, "int")]

/-- The bits of a REX prefix. -/
def DecodedInsn.rex (d : DecodedInsn) (byte : Byte) : DecodedInsn :=
  { d with
    rexW := (byte &&& 0x08) != 0
    rexR := (byte &&& 0x04) != 0
    rexX := (byte &&& 0x02) != 0
    rexB := (byte &&& 0x01) != 0 }

/-- What `Decode` does behind its prefix loop. -/
def DecodedInsn.finish (d : DecodedInsn) (off : ℕ) (byte : Byte) : DecodedInsn :=
  { d with
    opcode := byte
    length := BitVec.ofNat 8 off
    mnemonic := (mnemonics.lookup byte).getD "???" ++ if d.rexW then " [64]" else "" }

/-- The prefix loop of `Decode`, with `left` bytes left of `maxBytes`. -/
def decodeLoop (bytes : ℕ → Byte) : ℕ → ℕ → Byte → DecodedInsn → DecodedInsn
  | 0, off, byte, d => d.finish off byte
  | left + 1, off, byte, d =>
      if isRex byte then decodeLoop bytes left (off + 1) (bytes off) (d.rex byte)
      else d.finish off byte

/-- `Decode(bytes, maxBytes)`, with the pointer `ptr` into `mem`. -/
def decode (mem : U64 → Byte) (ptr : U64) (maxBytes : ℕ) : Option DecodedInsn :=
  if ptr = 0 ∨ maxBytes = 0 then none
  else
    let bytes := fun i => mem (ptr + BitVec.ofNat 64 i)
    some (decodeLoop bytes (maxBytes - 1) 1 (bytes 0) {})

/-- `Disassemble(rip, count)`. -/
def disassemble (mem : U64 → Byte) : U64 → ℕ → List DecodedInsn
  | _, 0 => []
  | addr, count + 1 =>
      match decode mem addr 15 with
      | none => []
      | some d =>
          let len := if d.length < 1 then 1 else d.length
          d :: disassemble mem (addr + len.setWidth 64) count

/-- The instruction boundaries of a listing from `rip` on. -/
def boundaries : U64 → List DecodedInsn → List U64
  | rip, [] => [rip]
  | rip, d :: ds => rip :: boundaries (rip + d.length.setWidth 64) ds

/-! ## What Decode reads -/

section Decoding

variable {bytes : ℕ → Byte} {mem : U64 → Byte} {d : DecodedInsn}

/-- The W bit of the last of the first `k` bytes, or `w` if there is none. -/
def lastW (bytes : ℕ → Byte) (w : Bool) : ℕ → Bool
  | 0 => w
  | k + 1 => (bytes k &&& 0x08) != 0

/-- `d` is the line of `k` REX prefixes and an opcode. -/
structure Reads (bytes : ℕ → Byte) (k : ℕ) (d : DecodedInsn) : Prop where
  rex : ∀ j < k, isRex (bytes j) = true
  length_eq : d.length = BitVec.ofNat 8 (k + 1)
  opcode_eq : d.opcode = bytes k
  rexW_eq : d.rexW = lastW bytes false k

/-- From index `off` on, the loop passes over REX prefixes until it meets another byte or `left`
of them. -/
theorem decodeLoop_reads (left off : ℕ) (hrex : ∀ j < off, isRex (bytes j) = true)
    (hw : d.rexW = lastW bytes false off) :
    ∃ k, off ≤ k ∧ k ≤ off + left ∧ (k = off + left ∨ isRex (bytes k) = false) ∧
      Reads bytes k (decodeLoop bytes left (off + 1) (bytes off) d) := by
  induction left generalizing off d with
  | zero => exact ⟨off, le_rfl, le_rfl, Or.inl rfl, hrex, rfl, rfl, hw⟩
  | succ left ih =>
      unfold decodeLoop
      cases hbyte : isRex (bytes off) with
      | false =>
          rw [if_neg Bool.false_ne_true]
          exact ⟨off, le_rfl, by omega, Or.inr hbyte, hrex, rfl, rfl, hw⟩
      | true =>
          rw [if_pos rfl]
          have hnext : ∀ j < off + 1, isRex (bytes j) = true := by
            intro j hj
            rcases Nat.lt_succ_iff_lt_or_eq.mp hj with hlt | rfl
            · exact hrex j hlt
            · exact hbyte
          obtain ⟨k, hlo, hhi, hstop, hreads⟩ := ih (d := d.rex (bytes off)) (off + 1) hnext rfl
          exact ⟨k, by omega, by omega, hstop.imp_left fun h => by omega, hreads⟩

/-- What `Disassemble` decodes at an address. -/
theorem decode_reads {rip : U64} (hrip : rip ≠ 0) :
    ∃ d k, decode mem rip 15 = some d ∧ k ≤ 14 ∧
      (k = 14 ∨ isRex (mem (rip + BitVec.ofNat 64 k)) = false) ∧
      Reads (fun i => mem (rip + BitVec.ofNat 64 i)) k d := by
  have hnone : ∀ j < 0, isRex (mem (rip + BitVec.ofNat 64 j)) = true :=
    fun j hj => absurd hj (Nat.not_lt_zero j)
  obtain ⟨k, -, hhi, hstop, hreads⟩ := decodeLoop_reads (d := {}) 14 0 hnone rfl
  refine ⟨_, k, ?_, by omega, hstop.imp_left fun h => by omega, hreads⟩
  unfold decode
  rw [if_neg (not_or.mpr ⟨hrip, by decide⟩)]

end Decoding

/-! ## Straight-line stretches -/

/-- The step from `m` to `m'` executes what it has scanned with `Ok` and without taking a branch. -/
structure StraightStep (m : Machine) (ip : ℕ → Byte) (p : Prefixes) (m' : Machine) : Prop where
  decodes : Decodes m ip p
  executes : ∃ accesses, executeOne m = .ok ⟨.Ok, m', accesses⟩
  straight : ¬ TakesBranch (opCase p.opcode) ip p m.cpu.ctx

/-- An executed instruction. -/
structure Executed where
  rip : U64
  length : ℕ
  opcode : Byte
  rexW : Bool

/-- The instruction that a step from `m` executes. -/
def executedAt (m : Machine) (ip : ℕ → Byte) (p : Prefixes) : Executed :=
  ⟨m.cpu.ctx.rip, consumed (opCase p.opcode) ip p, p.opcode, p.rexW⟩

/-- Steps from `m` to `m'` execute the instructions `xs` in a straight line. -/
inductive Stretch : Machine → List Executed → Machine → Prop
  | nil (m : Machine) : Stretch m [] m
  | cons {m m₁ m' : Machine} {ip : ℕ → Byte} {p : Prefixes} {xs : List Executed}
      (step : StraightStep m ip p m₁) (rest : Stretch m₁ xs m') :
      Stretch m (executedAt m ip p :: xs) m'

/-- The listing of `mem` from `rip` on has the boundaries, opcodes and REX.W of `xs`, which end at
`last`. -/
structure Follows (mem : U64 → Byte) (rip : U64) (xs : List Executed) (last : U64) : Prop where
  boundaries_eq : boundaries rip (disassemble mem rip xs.length) =
    xs.map Executed.rip ++ [last]
  opcode_eq : (disassemble mem rip xs.length).map DecodedInsn.opcode = xs.map Executed.opcode
  rexW_eq : (disassemble mem rip xs.length).map DecodedInsn.rexW = xs.map Executed.rexW

/-- The listing of a stretch, from the memory in front of it, follows its execution. -/
def DisassemblyFollows (m m' : Machine) (xs : List Executed) : Prop :=
  Stretch m xs m' → Follows m.mem.bytes m.cpu.ctx.rip xs m'.cpu.ctx.rip

/-- In `mem` the instruction consists of at most 14 REX prefixes, the last one with its REX.W, and
its opcode. -/
def Spelled (mem : U64 → Byte) (x : Executed) : Prop :=
  ∃ k ≤ 14, x.length = k + 1 ∧
    (∀ j < k, isRex (mem (x.rip + BitVec.ofNat 64 j)) = true) ∧
    mem (x.rip + BitVec.ofNat 64 k) = x.opcode ∧
    lastW (fun i => mem (x.rip + BitVec.ofNat 64 i)) false k = x.rexW

section Listing

variable {m m' : Machine} {ip : ℕ → Byte} {p : Prefixes} {mem : U64 → Byte} {xs : List Executed}
  {d : DecodedInsn}

/-- A straight step moves `RIP` behind the bytes it consumes. -/
theorem StraightStep.rip_eq (h : StraightStep m ip p m') :
    m'.cpu.ctx.rip = m.cpu.ctx.rip + BitVec.ofNat 64 (executedAt m ip p).length := by
  obtain ⟨hd, ⟨accesses, hout⟩, hstraight⟩ := h
  obtain ⟨e, he, hfin⟩ := exists_finish_of_decodes hd hout
  have hres : e.result = .Ok := (congrArg StepOutcome.result hfin).symm
  have hlate : ¬ LateUnimplemented (opCase p.opcode) ip p := by
    intro hlate
    obtain ⟨stat, hun⟩ := execCase_of_late (g := m.guest) hlate
    rw [hun] at he
    cases he
    cases hres
  rcases (execCase_ending hlate he).of_result_ok hres with hrip | htaken
  · have hctx : m'.cpu.ctx = e.guest.ctx := by
      rw [← Machine.finish_ctx m e, ← hfin]
    rw [hctx, hrip]
    rfl
  · exact absurd htaken hstraight

/-- A line of the listing and the executed instruction. -/
structure LineAgrees (d : DecodedInsn) (x : Executed) : Prop where
  length_eq : d.length.setWidth 64 = BitVec.ofNat 64 x.length
  opcode_eq : d.opcode = x.opcode
  rexW_eq : d.rexW = x.rexW

theorem Reads.length_pos {bytes : ℕ → Byte} {k : ℕ} (h : Reads bytes k d) (hk : k ≤ 14) :
    d.length.toNat = k + 1 := by
  rw [h.length_eq, BitVec.toNat_ofNat]
  exact Nat.mod_eq_of_lt (by omega)

/-- **One line.**  `Decode` agrees with the executed instruction if and only if that is spelled out
in the memory it reads. -/
theorem lineAgrees_iff (hd : Decodes m ip p) {k : ℕ} (hk : k ≤ 14)
    (hstop : k = 14 ∨ isRex (mem (m.cpu.ctx.rip + BitVec.ofNat 64 k)) = false)
    (hreads : Reads (fun i => mem (m.cpu.ctx.rip + BitVec.ofNat 64 i)) k d) :
    LineAgrees d (executedAt m ip p) ↔ Spelled mem (executedAt m ip p) := by
  have hlen := hreads.length_pos hk
  have hwidth : d.length.setWidth 64 = BitVec.ofNat 64 (k + 1) := by
    rw [← hlen, BitVec.ofNat_toNat]
  obtain ⟨-, hhi⟩ := consumed_bounds (opCase p.opcode) ip p
  obtain ⟨-, hoff⟩ := hd.off_bounds
  have hsmall : (executedAt m ip p).length < 2 ^ 64 := by
    have : (executedAt m ip p).length ≤ p.off + 8 := hhi
    omega
  constructor
  · rintro ⟨hl, hop, hw⟩
    refine ⟨k, hk, ?_, hreads.rex, hreads.opcode_eq.symm.trans hop, hreads.rexW_eq.symm.trans hw⟩
    have hnext : m.cpu.ctx.rip + BitVec.ofNat 64 (k + 1) =
        m.cpu.ctx.rip + BitVec.ofNat 64 (executedAt m ip p).length := by
      rw [← hwidth, hl]
    exact ((rip_advance_inj (by omega) hsmall).mp hnext).symm
  · rintro ⟨j, hj, hlen', hrex, hop, hw⟩
    -- both `k` and `j` count the prefixes in front of the first byte that is none
    have hnot : isRex (mem (m.cpu.ctx.rip + BitVec.ofNat 64 j)) = false := by
      have hopcode : isPrefix p.opcode = false := (prefixLoop_eq_some hd.scan_eq).2.2.2.1
      have hbyte : mem (m.cpu.ctx.rip + BitVec.ofNat 64 j) = p.opcode := hop
      rw [hbyte]
      exact (Bool.or_eq_false_iff.mp hopcode).1
    have hjk : j = k := by
      rcases Nat.lt_trichotomy j k with hlt | heq | hgt
      · have hyes := hreads.rex j hlt
        rw [hnot] at hyes
        cases hyes
      · exact heq
      · rcases hstop with h14 | hstop
        · omega
        · have hyes := hrex k hgt
          have hno : isRex (mem ((executedAt m ip p).rip + BitVec.ofNat 64 k)) = false := hstop
          rw [hno] at hyes
          cases hyes
    subst hjk
    exact ⟨by rw [hwidth, hlen'], hreads.opcode_eq.trans hop, hreads.rexW_eq.trans hw⟩

theorem boundaries_head (rip : U64) (ds : List DecodedInsn) :
    ∃ rest, boundaries rip ds = rip :: rest := by
  cases ds with
  | nil => exact ⟨[], rfl⟩
  | cons d ds => exact ⟨_, rfl⟩

theorem Stretch.head_rip (h : Stretch m xs m') :
    ∃ rest, xs.map Executed.rip ++ [m'.cpu.ctx.rip] = m.cpu.ctx.rip :: rest := by
  cases h with
  | nil => exact ⟨[], rfl⟩
  | cons step rest => exact ⟨_, rfl⟩

/-- A listing follows a stretch if its first line agrees and the rest follows from there on. -/
theorem follows_cons_iff {m₁ : Machine} (hstep : StraightStep m ip p m₁) (hrest : Stretch m₁ xs m')
    (hdec : decode mem m.cpu.ctx.rip 15 = some d) (hpos : 1 ≤ d.length) :
    Follows mem m.cpu.ctx.rip (executedAt m ip p :: xs) m'.cpu.ctx.rip ↔
      LineAgrees d (executedAt m ip p) ∧ Follows mem m₁.cpu.ctx.rip xs m'.cpu.ctx.rip := by
  have hlist : disassemble mem m.cpu.ctx.rip (executedAt m ip p :: xs).length =
      d :: disassemble mem (m.cpu.ctx.rip + d.length.setWidth 64) xs.length := by
    rw [List.length_cons, disassemble, hdec]
    dsimp only
    rw [if_neg (BitVec.not_lt.mpr hpos)]
  obtain ⟨tail, htail⟩ := hrest.head_rip
  constructor
  · rintro ⟨hb, hop, hw⟩
    rw [hlist] at hb hop hw
    rw [List.map_cons, List.map_cons] at hop hw
    obtain ⟨hop, hops⟩ := List.cons_eq_cons.mp hop
    obtain ⟨hw, hws⟩ := List.cons_eq_cons.mp hw
    rw [boundaries, List.map_cons, List.cons_append] at hb
    obtain ⟨-, hb⟩ := List.cons_eq_cons.mp hb
    have hnext : m.cpu.ctx.rip + d.length.setWidth 64 = m₁.cpu.ctx.rip := by
      obtain ⟨rest, hhead⟩ := boundaries_head (m.cpu.ctx.rip + d.length.setWidth 64)
        (disassemble mem (m.cpu.ctx.rip + d.length.setWidth 64) xs.length)
      rw [hhead, htail] at hb
      exact (List.cons_eq_cons.mp hb).1
    rw [hnext] at hb hops hws
    refine ⟨⟨?_, hop, hw⟩, hb, hops, hws⟩
    rw [hstep.rip_eq] at hnext
    exact add_left_cancel hnext
  · rintro ⟨⟨hl, hop, hw⟩, hb, hops, hws⟩
    have hnext : m.cpu.ctx.rip + d.length.setWidth 64 = m₁.cpu.ctx.rip := by
      rw [hl, hstep.rip_eq]
    constructor
    · rw [hlist, boundaries, hnext, hb]
      rfl
    · rw [hlist, hnext, List.map_cons, List.map_cons, hop, hops]
    · rw [hlist, hnext, List.map_cons, List.map_cons, hw, hws]

/-- A listing of any memory against a stretch. -/
theorem follows_iff (h : Stretch m xs m') :
    Follows mem m.cpu.ctx.rip xs m'.cpu.ctx.rip ↔ ∀ x ∈ xs, Spelled mem x := by
  induction h with
  | nil m => exact iff_of_true ⟨rfl, rfl, rfl⟩ (List.forall_mem_nil _)
  | cons step rest ih =>
      obtain ⟨d, k, hdec, hk, hstop, hreads⟩ := decode_reads step.decodes.rip_ne_zero
      have hpos : 1 ≤ d.length := by
        rw [BitVec.le_def, hreads.length_pos hk]
        exact Nat.succ_le_succ (Nat.zero_le k)
      rw [follows_cons_iff step rest hdec hpos, lineAgrees_iff step.decodes hk hstop hreads, ih,
        List.forall_mem_cons]

end Listing

/-- **Disassembly against execution, exactly.**  The listing of a stretch follows its execution if
and only if the memory listed spells out every instruction of it. -/
theorem disassemblyFollows_iff (m m' : Machine) (xs : List Executed) :
    DisassemblyFollows m m' xs ↔ (Stretch m xs m' → ∀ x ∈ xs, Spelled m.mem.bytes x) :=
  forall_congr' fun h => follows_iff h

/-- OR RAX, RCX at 0x1000. -/
def orRegisters : Machine where
  cpu := { ctx := { rip := 0x1000 } }
  mem :=
    { bytes := ByteStore.write (fun _ => 0x90) 0x1000 [0x48, 0x0B, 0xC1]
      readable := fun _ _ => true
      writable := fun _ _ => true }

/-- The step over `orRegisters` ends at 0x1003, the listing at 0x1002. -/
theorem not_disassemblyFollows_orRegisters : ¬ ∀ m m' xs, DisassemblyFollows m m' xs := by
  intro h
  have hdec : Decodes orRegisters (codeBuf orRegisters.mem 0x1000 32)
      { off := 2, rexW := true, opcode := 0x0B } :=
    ⟨by decide, rfl, rfl, rfl⟩
  have hstretch := Stretch.cons ⟨hdec, ⟨_, rfl⟩, id⟩ (.nil _)
  have hlast := congrArg List.getLast? (h _ _ _ hstretch).boundaries_eq
  exact absurd hlast (by decide)

/-! ## Unchanged code -/

/-- An instruction of at most 14 REX prefixes and an opcode, without operand bytes. -/
def RexAndOpcode (c : OpCase) (ip : ℕ → Byte) (p : Prefixes) : Prop :=
  p.prefix66 = false ∧ p.off ≤ 15 ∧ consumed c ip p = p.off

section Unchanged

variable {m : Machine} {ip : ℕ → Byte} {p q : Prefixes} {mem : U64 → Byte} {fuel : ℕ}

theorem prefixLoop_of_prefix66 (h : prefixLoop ip fuel p = some q) (h66 : p.prefix66 = true) :
    q.prefix66 = true := by
  induction fuel generalizing p with
  | zero => cases h
  | succ fuel ih =>
      unfold prefixLoop at h
      dsimp only at h
      split_ifs at h
      · exact ih h h66
      · exact ih h rfl
      · cases h
        exact h66

/-- The prefix loop of `ExecuteOne` meets no 0x66 exactly if it passes over REX prefixes only, and
then the last one gives REX.W. -/
theorem prefixLoop_rexOnly (h : prefixLoop ip fuel p = some q) (h66 : p.prefix66 = false)
    (hrex : ∀ j < p.off, isRex (ip j) = true) (hw : p.rexW = lastW ip false p.off) :
    (q.prefix66 = false ↔ ∀ j < q.off - 1, isRex (ip j) = true) ∧
      (q.prefix66 = false → q.rexW = lastW ip false (q.off - 1)) := by
  induction fuel generalizing p with
  | zero => cases h
  | succ fuel ih =>
      unfold prefixLoop at h
      dsimp only at h
      split_ifs at h with hbyte h66'
      · refine ih h h66 (fun j hj => ?_) rfl
        rcases Nat.lt_succ_iff_lt_or_eq.mp hj with hlt | rfl
        · exact hrex j hlt
        · exact hbyte
      · have hyes := prefixLoop_of_prefix66 h rfl
        have hlt : p.off + 1 < q.off := (prefixLoop_eq_some h).1
        refine ⟨iff_of_false (by rw [hyes]; decide) fun hall => hbyte (hall _ (by omega)), ?_⟩
        intro hno
        rw [hyes] at hno
        cases hno
      · cases h
        exact ⟨iff_of_true h66 hrex, fun _ => hw⟩

/-- Where the memory still holds the executed bytes, an instruction is spelled out in it if and only
if it has nothing but REX prefixes and its opcode. -/
theorem spelled_iff_rexAndOpcode (hd : Decodes m ip p)
    (hsame : ∀ i < consumed (opCase p.opcode) ip p,
      mem (m.cpu.ctx.rip + BitVec.ofNat 64 i) = ip i) :
    Spelled mem (executedAt m ip p) ↔ RexAndOpcode (opCase p.opcode) ip p := by
  obtain ⟨h66, hw⟩ := prefixLoop_rexOnly hd.scan_eq rfl (fun j hj => absurd hj (Nat.not_lt_zero j))
    rfl
  obtain ⟨-, -, hop, hnot, hpre⟩ := prefixLoop_eq_some hd.scan_eq
  obtain ⟨hpos, -⟩ := hd.off_bounds
  obtain ⟨hlo, -⟩ := consumed_bounds (opCase p.opcode) ip p
  have hrexW (k : ℕ) (hk : k ≤ consumed (opCase p.opcode) ip p) :
      lastW (fun i => mem (m.cpu.ctx.rip + BitVec.ofNat 64 i)) false k = lastW ip false k := by
    cases k with
    | zero => rfl
    | succ k => exact congrArg (fun b : Byte => (b &&& 0x08) != 0) (hsame k (by omega))
  constructor
  · rintro ⟨k, hk, hlen, hrex, hbyte, -⟩
    have hlen : consumed (opCase p.opcode) ip p = k + 1 := hlen
    have hrex : ∀ j < k, isRex (ip j) = true := by
      intro j hj
      rw [← hsame j (by omega)]
      exact hrex j hj
    have hbyte : ip k = p.opcode := (hsame k (by omega)).symm.trans hbyte
    -- the byte behind the prefixes is the first one that is no prefix
    have hend : p.off - 1 = k := by
      rcases Nat.lt_trichotomy (p.off - 1) k with hlt | heq | hgt
      · have hyes := hrex _ hlt
        rw [← hop] at hyes
        rw [isPrefix, hyes] at hnot
        cases hnot
      · exact heq
      · have hyes := hpre k (Nat.zero_le k) hgt
        rw [hbyte, hnot] at hyes
        cases hyes
    exact ⟨h66.mpr (by rw [hend]; exact hrex), by omega, by omega⟩
  · rintro ⟨hno, hoff, hlen⟩
    refine ⟨p.off - 1, by omega, by simp only [executedAt]; omega, fun j hj => ?_, ?_, ?_⟩
    · exact (congrArg isRex (hsame j (by omega))).trans (h66.mp hno j hj)
    · exact (hsame _ (by omega)).trans hop.symm
    · exact (hrexW _ (by omega)).trans (hw hno).symm

end Unchanged

end Cpu
