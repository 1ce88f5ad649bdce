/-
# Programs in x86-64 machine code

A part of the instructions of 64-bit mode, on 64-bit operands: how they are encoded and what the
architecture says that they do.  A program is a sequence of them somewhere in memory, which does
not write over itself.

A flag is `none` where a program must not rely on it.  Beside those that the architecture leaves
undefined these are CF behind ADD, PF behind INC, DEC and NEG, OF behind DEC and NEG, and all flags
behind shifts.
-/
import ChuckStation.Bytes
import ChuckStation.WordOverflow

namespace X86

open LittleEndian

/-! ## State -/

/-- The arithmetic flags, as far as a program may rely on them. -/
structure Flags where
  carry : Option Bool := none
  parity : Option Bool := none
  zero : Option Bool := none
  sign : Option Bool := none
  overflow : Option Bool := none

/-- The low byte has an even number of set bits. -/
def evenParity (r : U64) : Bool := ((List.range 8).countP fun i => r.getLsbD i) % 2 == 0

/-- ZF, SF and PF are those of `r`. -/
def Flags.ofResult (carry overflow : Option Bool) (r : U64) : Flags where
  carry := carry
  parity := some (evenParity r)
  zero := some (r == 0)
  sign := some r.msb
  overflow := overflow

/-- The conditions of the conditional jumps, each of which comes with its opposite. -/
def Flags.holds (f : Flags) (pair : ℕ) : Option Bool :=
  match pair with
  | 0 => f.overflow
  | 1 => f.carry
  | 2 => f.zero
  | 3 => do return (← f.carry) || (← f.zero)
  | 4 => f.sign
  | 5 => f.parity
  | 6 => do return (← f.sign) != (← f.overflow)
  | _ => do return (← f.zero) || (← f.sign) != (← f.overflow)

/-- The condition number `cc`: the low bit negates. -/
def Flags.condition (f : Flags) (cc : Fin 16) : Option Bool :=
  (f.holds (cc.val / 2)).map fun b => b != (cc.val % 2 == 1)

/-- The state of a program, with the return addresses of its open calls, the last one first. -/
structure State where
  gpr : Fin 16 → U64
  rip : U64
  flags : Flags := {}
  mem : U64 → Byte
  calls : List U64 := []

abbrev rax : Fin 16 := 0
abbrev rcx : Fin 16 := 1
abbrev rsp : Fin 16 := 4
abbrev rdi : Fin 16 := 7

namespace State

def advance (s : State) (n : ℕ) : State := { s with rip := s.rip + BitVec.ofNat 64 n }

def setGpr (s : State) (r : Fin 16) (v : U64) : State :=
  { s with gpr := Function.update s.gpr r v }

def goto (s : State) (a : U64) : State := { s with rip := a }

def jump (s : State) (rel : U64) : State := s.goto (s.rip + rel)

/-- The word at `a`. -/
def word (s : State) (a : U64) : U64 := ofBytes 64 (ByteStore.read s.mem a 8)

def setWord (s : State) (a v : U64) : State :=
  { s with mem := ByteStore.write s.mem a (toBytes 8 v) }

def setFlags (s : State) (f : Flags) : State := { s with flags := f }

def enter (s : State) (ret : U64) : State := { s with calls := ret :: s.calls }

def leave (s : State) : State := { s with calls := s.calls.tail }

/-- The state behind a CALL, from the one with `rip` behind its bytes. -/
def called (s : State) (rel : U64) : State :=
  let a := s.gpr rsp - 8
  (((s.setGpr rsp a).setWord a s.rip).enter s.rip).jump rel

/-- The state behind a RET. -/
def returned (s : State) : State :=
  let a := s.gpr rsp
  ((s.setGpr rsp (a + 8)).goto (s.word a)).leave

end State

/-! ## Instructions -/

/-- The operations of the immediate group 1, which are those of the opcodes `/r` as well. -/
inductive Alu where
  | add
  | or
  | and
  | sub
  | xor
  | cmp
  deriving DecidableEq

namespace Alu

/-- The number of the operation in its group. -/
def digit : Alu → Fin 16
  | add => 0
  | or => 1
  | and => 4
  | sub => 5
  | xor => 6
  | cmp => 7

def value : Alu → U64 → U64 → U64
  | add, a, b => a + b
  | or, a, b => a ||| b
  | and, a, b => a &&& b
  | sub, a, b | cmp, a, b => a - b
  | xor, a, b => a ^^^ b

def flags (op : Alu) (a b : U64) : Flags :=
  match op with
  | add => .ofResult none (some (a.saddOverflow b)) (op.value a b)
  | or | and | xor => .ofResult (some false) (some false) (op.value a b)
  | sub | cmp => .ofResult (some (a.ult b)) (some (a.ssubOverflow b)) (op.value a b)

end Alu

/-- The state behind an operation.  CMP stores nothing. -/
def State.operate (s : State) (op : Alu) (dst : Fin 16) (b : U64) : State :=
  let s' := s.setFlags (op.flags (s.gpr dst) b)
  if op = .cmp then s' else s'.setGpr dst (op.value (s.gpr dst) b)

section Operate

variable (s : State) (op : Alu) (dst : Fin 16) (b : U64)

theorem State.operate_gpr : (s.operate op dst b).gpr =
    if op = .cmp then s.gpr else Function.update s.gpr dst (op.value (s.gpr dst) b) := by
  unfold operate
  split_ifs <;> rfl

theorem State.operate_rip : (s.operate op dst b).rip = s.rip := by
  unfold operate
  split_ifs <;> rfl

theorem State.operate_flags : (s.operate op dst b).flags = op.flags (s.gpr dst) b := by
  unfold operate
  split_ifs <;> rfl

theorem State.operate_mem : (s.operate op dst b).mem = s.mem := by
  unfold operate
  split_ifs <;> rfl

theorem State.operate_calls : (s.operate op dst b).calls = s.calls := by
  unfold operate
  split_ifs <;> rfl

end Operate

inductive Unary where
  | inc
  | dec
  | not
  | neg
  deriving DecidableEq

namespace Unary

def opcode : Unary → Byte
  | inc | dec => 0xFF
  | not | neg => 0xF7

def digit : Unary → Fin 16
  | inc => 0
  | dec => 1
  | not => 2
  | neg => 3

def value : Unary → U64 → U64
  | inc, v => v + 1
  | dec, v => v - 1
  | not, v => ~~~v
  | neg, v => 0 - v

/-- INC and DEC keep CF, and NOT keeps all flags. -/
def flags (op : Unary) (old : Flags) (v : U64) : Flags :=
  let r := op.value v
  match op with
  | inc =>
      { carry := old.carry, zero := some (r == 0), sign := some r.msb
        overflow := some (v == 0x7FFFFFFFFFFFFFFF) }
  | dec => { carry := old.carry, zero := some (r == 0), sign := some r.msb }
  | not => old
  | neg => { carry := some (v != 0), zero := some (r == 0), sign := some r.msb }

end Unary

inductive Shift where
  | shl
  | shr
  | sar
  deriving DecidableEq

namespace Shift

def digit : Shift → Fin 16
  | shl => 4
  | shr => 5
  | sar => 7

/-- The count is taken modulo 64. -/
def value (op : Shift) (v : U64) (count : Byte) : U64 :=
  let n := count.toNat % 64
  match op with
  | shl => v <<< n
  | shr => v >>> n
  | sar => v.sshiftRight n

end Shift

/-- Instructions with 64-bit operands.  Memory operands are a base register and a displacement of
32 bits, as are the jumps relative. -/
inductive Insn where
  | nop
  | movImm (dst : Fin 16) (imm : U32)
  | movAbs (dst : Fin 16) (imm : U64)
  | mov (dst src : Fin 16)
  | load (dst base : Fin 16) (disp : U32)
  | store (base : Fin 16) (disp : U32) (src : Fin 16)
  | lea (dst base : Fin 16) (disp : U32)
  | alu (op : Alu) (dst src : Fin 16)
  | aluImm (op : Alu) (dst : Fin 16) (imm : Byte)
  | unary (op : Unary) (dst : Fin 16)
  | shift (op : Shift) (dst : Fin 16) (count : Byte)
  | imul (dst src : Fin 16)
  | push (src : Fin 16)
  | pop (dst : Fin 16)
  | jmp (rel : U32)
  | jcc (cc : Fin 16) (rel : U32)
  | call (rel : U32)
  | ret
  | syscall
  | hlt

/-- How a program gives up control. -/
inductive Trap where
  | syscall
  | halt
  deriving DecidableEq

def Insn.trap : Insn → Option Trap
  | syscall => some .syscall
  | hlt => some .halt
  | _ => none

/-! ## Encodings -/

/-- A REX prefix without an index register. -/
def rexByte (w r b : Bool) : Byte :=
  0x40 ||| (if w then 8 else 0) ||| (if r then 4 else 0) ||| (if b then 1 else 0)

/-- The bit of a register's number that goes into REX. -/
def isHigh (r : Fin 16) : Bool := decide (8 ≤ r.val)

/-- The three bits of a register's number that do not. -/
def lowBits (r : Fin 16) : Byte := BitVec.ofNat 8 (r.val % 8)

def rexW (reg rm : Fin 16) : Byte := rexByte true (isHigh reg) (isHigh rm)

/-- ModRM with a register. -/
def modReg (reg rm : Fin 16) : Byte := 0xC0 ||| (lowBits reg <<< 3) ||| lowBits rm

/-- ModRM with a base register and a displacement of 32 bits. -/
def modMem (reg base : Fin 16) : Byte := 0x80 ||| (lowBits reg <<< 3) ||| lowBits base

namespace Insn

def bytes : Insn → List Byte
  | nop => [0x90]
  | movImm dst imm => [rexW 0 dst, 0xC7, modReg 0 dst] ++ toBytes 4 imm
  | movAbs dst imm => [rexW 0 dst, 0xB8 ||| lowBits dst] ++ toBytes 8 imm
  | mov dst src => [rexW dst src, 0x8B, modReg dst src]
  | load dst base disp => [rexW dst base, 0x8B, modMem dst base] ++ toBytes 4 disp
  | store base disp src => [rexW src base, 0x89, modMem src base] ++ toBytes 4 disp
  | lea dst base disp => [rexW dst base, 0x8D, modMem dst base] ++ toBytes 4 disp
  | alu op dst src => [rexW dst src, (BitVec.ofNat 8 op.digit.val <<< 3) ||| 3, modReg dst src]
  | aluImm op dst imm => [rexW 0 dst, 0x83, modReg op.digit dst, imm]
  | unary op dst => [rexW 0 dst, op.opcode, modReg op.digit dst]
  | shift op dst count => [rexW 0 dst, 0xC1, modReg op.digit dst, count]
  | imul dst src => [rexW dst src, 0x0F, 0xAF, modReg dst src]
  | push src => [rexByte false false (isHigh src), 0x50 ||| lowBits src]
  | pop dst => [rexByte false false (isHigh dst), 0x58 ||| lowBits dst]
  | jmp rel => [0xE9] ++ toBytes 4 rel
  | jcc cc rel => [0x0F, 0x80 ||| BitVec.ofNat 8 cc.val] ++ toBytes 4 rel
  | call rel => [0xE8] ++ toBytes 4 rel
  | ret => [0xC3]
  | syscall => [0x0F, 0x05]
  | hlt => [0xF4]

def length (i : Insn) : ℕ := i.bytes.length

theorem length_pos (i : Insn) : 0 < i.length := by
  cases i <;> simp [length, bytes]

theorem length_le (i : Insn) : i.length ≤ 10 := by
  cases i <;> simp [length, bytes]

end Insn

/-! ## Programs -/

/-- The number of bytes of a sequence of instructions. -/
def size (is : List Insn) : ℕ := (is.flatMap Insn.bytes).length

/-- The instructions of a program, where they are, and which ranges of memory may be read and
written. -/
structure Program where
  base : U64
  insns : List Insn
  readable : U64 → ℕ → Bool
  writable : U64 → ℕ → Bool
  fits : size insns < 2 ^ 64

/-- The instruction that begins `k` bytes behind the first one. -/
def insnAt : List Insn → ℕ → Option Insn
  | [], _ => none
  | i :: _, 0 => some i
  | i :: is, k + 1 => if k + 1 < i.length then none else insnAt is (k + 1 - i.length)

namespace Program

def text (P : Program) : List Byte := P.insns.flatMap Insn.bytes

def fetch (P : Program) (a : U64) : Option Insn := insnAt P.insns (a - P.base).toNat

/-- The range may be written and is not in the text. -/
def mayWrite (P : Program) (a : U64) (n : ℕ) : Bool :=
  P.writable a n &&
    (List.range n).all fun i => P.text.length ≤ (a + BitVec.ofNat 64 i - P.base).toNat

/-- A base register that needs no SIB byte. -/
def IsPlainBase (r : Fin 16) : Prop := r.val % 8 ≠ 4

instance (r : Fin 16) : Decidable (IsPlainBase r) := by
  unfold IsPlainBase
  infer_instance

/-- What the instruction does; nothing where it ends the run, where the memory is not there, where
it would write over the text and where it would rely on a flag that is left open.  POP RSP is left
out. -/
def exec (P : Program) (i : Insn) (s : State) : Option State :=
  let next := s.advance i.length
  match i with
  | .nop => some next
  | .movImm dst imm => some (next.setGpr dst (imm.signExtend 64))
  | .movAbs dst imm => some (next.setGpr dst imm)
  | .mov dst src => some (next.setGpr dst (s.gpr src))
  | .load dst base disp =>
      let a := s.gpr base + disp.signExtend 64
      if IsPlainBase base ∧ P.readable a 8 = true then some (next.setGpr dst (s.word a)) else none
  | .store base disp src =>
      let a := s.gpr base + disp.signExtend 64
      if IsPlainBase base ∧ P.mayWrite a 8 = true then some (next.setWord a (s.gpr src)) else none
  | .lea dst base disp =>
      if IsPlainBase base then some (next.setGpr dst (s.gpr base + disp.signExtend 64)) else none
  | .alu op dst src => some (next.operate op dst (s.gpr src))
  | .aluImm op dst imm => some (next.operate op dst (imm.signExtend 64))
  | .unary op dst =>
      some ((next.setFlags (op.flags s.flags (s.gpr dst))).setGpr dst (op.value (s.gpr dst)))
  | .shift op dst count =>
      some ((next.setFlags {}).setGpr dst (op.value (s.gpr dst) count))
  | .imul dst src =>
      let lost := decide (¬ WordOverflow.FitsSigned 64 ((s.gpr dst).toInt * (s.gpr src).toInt))
      let flags : Flags := { carry := some lost, overflow := some lost }
      some ((next.setFlags flags).setGpr dst (s.gpr dst * s.gpr src))
  | .push src =>
      let a := s.gpr rsp - 8
      if P.mayWrite a 8 then some ((next.setGpr rsp a).setWord a (s.gpr src)) else none
  | .pop dst =>
      let a := s.gpr rsp
      if dst ≠ rsp ∧ P.readable a 8 = true then
        some ((next.setGpr dst (s.word a)).setGpr rsp (a + 8))
      else none
  | .jmp rel => some (next.jump (rel.signExtend 64))
  | .jcc cc rel =>
      (s.flags.condition cc).map fun taken =>
        if taken then next.jump (rel.signExtend 64) else next
  | .call rel =>
      if P.mayWrite (s.gpr rsp - 8) 8 then some (next.called (rel.signExtend 64)) else none
  | .ret => if P.readable (s.gpr rsp) 8 then some s.returned else none
  | .syscall | .hlt => none

/-- One step of the program. -/
def step (P : Program) (s : State) : Option State := (P.fetch s.rip).bind fun i => P.exec i s

end Program

/-! ## The text -/

/-- An instruction that is found in the sequence is found in its bytes. -/
theorem insnAt_bytes {is : List Insn} {k : ℕ} {i : Insn} (h : insnAt is k = some i) :
    i.bytes <+: (is.flatMap Insn.bytes).drop k := by
  induction is generalizing k with
  | nil => cases h
  | cons j is ih =>
      rw [List.flatMap_cons]
      cases k with
      | zero =>
          cases h
          exact List.prefix_append _ _
      | succ k =>
          rw [insnAt] at h
          split_ifs at h with hlt
          have hle : j.bytes.length ≤ k + 1 := not_lt.mp hlt
          rw [List.drop_append, List.drop_eq_nil_of_le hle, List.nil_append]
          exact ih h

/-- So it begins in front of their end. -/
theorem insnAt_lt {is : List Insn} {k : ℕ} {i : Insn} (h : insnAt is k = some i) :
    k < size is := by
  have hlen := (insnAt_bytes h).length_le
  have hpos : 0 < i.bytes.length := i.length_pos
  rw [List.length_drop] at hlen
  unfold size
  omega

namespace Program

variable {P : Program} {s s' : State} {i : Insn}

/-- The text is in memory. -/
def Holds (P : Program) (mem : U64 → Byte) : Prop :=
  ByteStore.read mem P.base P.text.length = P.text

/-- What a program writes it does not write over its text. -/
theorem Holds.setWord {a v : U64} (h : P.Holds s.mem) (hwrite : P.mayWrite a 8 = true) :
    P.Holds (s.setWord a v).mem := by
  have hall := List.all_eq_true.mp (Bool.and_eq_true_iff.mp hwrite).2
  unfold Holds State.setWord at *
  rw [ByteStore.read_write_of_disjoint, h]
  intro k hk
  by_contra hlt
  rw [length_toBytes, not_le] at hlt
  have hle := of_decide_eq_true (hall _ (List.mem_range.mpr hlt))
  rw [ByteStore.add_ofNat_toNat_sub, BitVec.add_comm, BitVec.add_sub_cancel,
    BitVec.toNat_ofNat] at hle
  exact absurd (hle.trans (Nat.mod_le _ _)) (not_le.mpr hk)

/-- **The text stays.**  No instruction of a program changes it. -/
theorem Holds.exec (h : P.Holds s.mem) (hexec : P.exec i s = some s') : P.Holds s'.mem := by
  cases i with
  | nop | movImm | movAbs | mov | unary | shift | imul | jmp =>
      cases hexec
      exact h
  | alu op dst src =>
      cases hexec
      rwa [State.operate_mem]
  | aluImm op dst imm =>
      cases hexec
      rwa [State.operate_mem]
  | load | lea | pop | ret =>
      obtain ⟨-, hsome⟩ := Option.ite_none_right_eq_some.mp hexec
      cases hsome
      exact h
  | store base disp src =>
      obtain ⟨⟨-, hwrite⟩, hsome⟩ := Option.ite_none_right_eq_some.mp hexec
      cases hsome
      exact Holds.setWord h hwrite
  | push src =>
      obtain ⟨hwrite, hsome⟩ := Option.ite_none_right_eq_some.mp hexec
      cases hsome
      exact Holds.setWord h hwrite
  | call rel =>
      obtain ⟨hwrite, hsome⟩ := Option.ite_none_right_eq_some.mp hexec
      cases hsome
      exact Holds.setWord h hwrite
  | jcc cc rel =>
      obtain ⟨taken, -, rfl⟩ := Option.map_eq_some_iff.mp hexec
      cases taken <;> exact h
  | syscall => cases hexec
  | hlt => cases hexec

end Program

/-! ## Hosts -/

/-- What answers the system calls of a program: from its registers and its memory, the result in
`RAX` and the memory behind the call, and how the host goes on. -/
abbrev Host (κ : Type*) := (Fin 16 → U64) → (U64 → Byte) → κ → U64 × (U64 → Byte) × κ

/-- The state behind a system call. -/
def State.answered (s : State) (result : U64) (mem : U64 → Byte) : State :=
  { s.setGpr rax result with mem := mem }

namespace Program

variable {κ : Type*} {P : Program} {host : Host κ} {s s' : State} {k k' : κ}

instance (P : Program) (mem : U64 → Byte) : Decidable (P.Holds mem) := by
  unfold Holds
  infer_instance

/-- One step of the program where its system calls are answered, as long as no answer is written
over the text. -/
def stepWith (P : Program) (host : Host κ) (x : State × κ) : Option (State × κ) :=
  (P.fetch x.1.rip).bind fun i =>
    if i.trap = some .syscall then
      let (result, mem, k) := host x.1.gpr x.1.mem x.2
      if P.Holds mem then some ((x.1.advance i.length).answered result mem, k) else none
    else (P.exec i x.1).map fun s => (s, x.2)

/-- A step is a system call or one that the program makes by itself. -/
theorem stepWith_cases (h : P.stepWith host (s, k) = some (s', k')) :
    ∃ i, P.fetch s.rip = some i ∧
      ((i.trap = some .syscall ∧ P.Holds (host s.gpr s.mem k).2.1 ∧
          s' = (s.advance i.length).answered (host s.gpr s.mem k).1 (host s.gpr s.mem k).2.1 ∧
          k' = (host s.gpr s.mem k).2.2) ∨
        (P.exec i s = some s' ∧ k' = k)) := by
  obtain ⟨i, hfetch, h⟩ := Option.bind_eq_some_iff.mp h
  refine ⟨i, hfetch, ?_⟩
  dsimp only at h
  split_ifs at h with htrap htext
  · cases h
    exact Or.inl ⟨htrap, htext, rfl, rfl⟩
  · obtain ⟨t, hexec, hpair⟩ := Option.map_eq_some_iff.mp h
    cases hpair
    exact Or.inr ⟨hexec, rfl⟩

/-- What the program does by itself it does under any host. -/
theorem stepWith_of_step (h : P.step s = some s') : P.stepWith host (s, k) = some (s', k) := by
  obtain ⟨i, hfetch, hexec⟩ := Option.bind_eq_some_iff.mp h
  have htrap : i.trap ≠ some .syscall := by
    intro htrap
    cases i <;> cases htrap
    cases hexec
  rw [stepWith, hfetch, Option.bind_some, if_neg htrap, hexec]
  rfl

theorem stepWith_of_syscall {result : U64} {mem : U64 → Byte}
    (hfetch : P.fetch s.rip = some .syscall) (hhost : host s.gpr s.mem k = (result, mem, k'))
    (htext : P.Holds mem) :
    P.stepWith host (s, k) = some ((s.advance 2).answered result mem, k') := by
  rw [stepWith, hfetch, Option.bind_some, hhost]
  exact if_pos htext

end Program

end X86
