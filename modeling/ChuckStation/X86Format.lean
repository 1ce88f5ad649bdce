/-
# The x86-64 instruction format

How long an instruction is and which memory operand it has, for instructions in 64-bit
mode whose prefixes are REX and 0x66: prefixes, opcode, ModRM, SIB, displacement and
immediate.  An instruction is a function from the index to the byte there.
-/
import ChuckStation.Bytes

namespace X86

/-! ## Prefixes -/

/-- What the prefixes of an instruction say. -/
structure Prefixes where
  w : Bool := false
  r : Bool := false
  x : Bool := false
  b : Bool := false
  opsize : Bool := false

def isRex (byte : Byte) : Bool := 0x40 ≤ byte && byte ≤ 0x4F

/-- One more prefix.  A REX counts only directly in front of the opcode: a later REX
replaces it, and a later 0x66 voids it. -/
def Prefixes.push (a : Prefixes) (byte : Byte) : Prefixes :=
  if isRex byte then
    { a with
      w := (byte &&& 0x08) != 0
      r := (byte &&& 0x04) != 0
      x := (byte &&& 0x02) != 0
      b := (byte &&& 0x01) != 0 }
  else if byte = 0x66 then { opsize := true }
  else a

/-- The meaning of a sequence of prefixes. -/
def prefixesOf (bytes : List Byte) : Prefixes := bytes.foldl Prefixes.push {}

/-- The operand size in bytes. -/
def Prefixes.operandBytes (a : Prefixes) : ℕ := if a.w then 8 else if a.opsize then 2 else 4

/-- The size of an immediate of 16 or 32 bits. -/
def Prefixes.immBytes (a : Prefixes) : ℕ := if a.opsize && !a.w then 2 else 4

/-! ## ModRM and SIB -/

def modField (modrm : Byte) : ℕ := (modrm >>> 6).toNat

def rmField (modrm : Byte) : ℕ := (modrm &&& 7).toNat

def sibScale (sib : Byte) : ℕ := (sib >>> 6).toNat

def sibIndex (sib : Byte) : ℕ := ((sib >>> 3) &&& 7).toNat

def sibBase (sib : Byte) : ℕ := (sib &&& 7).toNat

/-- A register number of three bits and an extension bit. -/
def register (low : ℕ) (ext : Bool) : Fin 16 := Fin.ofNat 16 (low + if ext then 8 else 0)

/-- The bytes of SIB. -/
def sibLength (modrm : Byte) : ℕ := if modField modrm ≠ 3 ∧ rmField modrm = 4 then 1 else 0

/-- The displacement bytes that `mod` alone asks for. -/
def modDispLength (mod : ℕ) : ℕ := if mod = 1 then 1 else if mod = 2 then 4 else 0

/-- The bytes of the displacement. -/
def dispLength (modrm sib : Byte) : ℕ :=
  if modField modrm = 0 ∧ (rmField modrm = 5 ∨ rmField modrm = 4 ∧ sibBase sib = 5) then 4
  else modDispLength (modField modrm)

/-- The bytes of SIB and displacement. -/
def addressLength (modrm sib : Byte) : ℕ := sibLength modrm + dispLength modrm sib

/-- A memory form with a base register and a displacement: neither SIB nor RIP-relative. -/
def IsPlain (modrm : Byte) : Prop :=
  rmField modrm ≠ 4 ∧ ¬ (modField modrm = 0 ∧ rmField modrm = 5)

instance (modrm : Byte) : Decidable (IsPlain modrm) := by
  unfold IsPlain
  infer_instance

theorem modDispLength_le (mod : ℕ) : modDispLength mod ≤ 4 := by
  unfold modDispLength
  split_ifs <;> omega

theorem addressLength_le (modrm sib : Byte) : addressLength modrm sib ≤ 5 := by
  have h := modDispLength_le (modField modrm)
  unfold addressLength sibLength dispLength
  split_ifs <;> omega

theorem addressLength_of_register {modrm : Byte} (h : modField modrm = 3) (sib : Byte) :
    addressLength modrm sib = 0 := by
  simp [addressLength, sibLength, dispLength, modDispLength, h]

/-- The displacement is all there is to the address exactly in the plain forms. -/
theorem addressLength_eq_modDispLength_iff {modrm : Byte} (h : modField modrm ≠ 3) (sib : Byte) :
    addressLength modrm sib = modDispLength (modField modrm) ↔ IsPlain modrm := by
  have hle := modDispLength_le (modField modrm)
  unfold addressLength sibLength dispLength IsPlain
  by_cases hsib : rmField modrm = 4
  · have hge : modDispLength (modField modrm) ≤ if modField modrm = 0 ∧
        (rmField modrm = 5 ∨ rmField modrm = 4 ∧ sibBase sib = 5) then 4
        else modDispLength (modField modrm) := by
      split_ifs <;> omega
    simp only [h, hsib, ne_eq, not_false_eq_true, true_and, if_true, not_true_eq_false, false_and,
      iff_false] at hge ⊢
    omega
  · by_cases hrip : modField modrm = 0 ∧ rmField modrm = 5
    · simp [hrip.1, hrip.2, modDispLength]
    · simp [hsib, hrip]

/-! ## Effective address -/

/-- The displacement of the instruction `ip` with its ModRM byte at index `i`. -/
def displacement (ip : ℕ → Byte) (i : ℕ) : U64 :=
  let k := i + 1 + sibLength (ip i)
  let n := dispLength (ip i) (ip (i + 1))
  if n = 0 then 0
  else if n = 1 then (ip k).signExtend 64
  else (LittleEndian.ofBytes 32 ((List.range 4).map fun j => ip (k + j))).signExtend 64

/-- The address of the memory operand, with the next instruction at `next`. -/
def effectiveAddress (a : Prefixes) (gpr : Fin 16 → U64) (next : U64) (ip : ℕ → Byte) (i : ℕ) :
    U64 :=
  let modrm := ip i
  let sib := ip (i + 1)
  if rmField modrm = 4 then
    let base := if modField modrm = 0 ∧ sibBase sib = 5 then 0 else gpr (register (sibBase sib) a.b)
    let index := register (sibIndex sib) a.x
    let scaled := if index = 4 then 0 else gpr index <<< sibScale sib
    base + scaled + displacement ip i
  else if modField modrm = 0 ∧ rmField modrm = 5 then next + displacement ip i
  else gpr (register (rmField modrm) a.b) + displacement ip i

/-! ## Instructions -/

/-- The format of an instruction: where its opcode ends, what follows, and what it does
with its ModRM operand when that is in memory. -/
structure Form where
  prefixes : Prefixes
  opcodeEnd : ℕ
  hasModRM : Bool := false
  imm : ℕ := 0
  operandBytes : ℕ := prefixes.operandBytes
  reads : Bool := false
  writes : Bool := false
  branch : Bool := false

namespace Form

variable (f : Form) (ip : ℕ → Byte)

/-- The length of the instruction. -/
def length : ℕ :=
  f.opcodeEnd +
    (if f.hasModRM then 1 + addressLength (ip f.opcodeEnd) (ip (f.opcodeEnd + 1)) else 0) + f.imm

/-- The instruction accesses memory through its ModRM operand. -/
def IsMemory : Prop :=
  f.hasModRM = true ∧ modField (ip f.opcodeEnd) ≠ 3 ∧ (f.reads = true ∨ f.writes = true)

/-- The address of the memory operand of the instruction at `rip`. -/
def address (gpr : Fin 16 → U64) (rip : U64) : U64 :=
  effectiveAddress f.prefixes gpr (rip + BitVec.ofNat 64 (f.length ip)) ip f.opcodeEnd

theorem length_le : f.length ip ≤ f.opcodeEnd + 6 + f.imm := by
  have h := addressLength_le (ip f.opcodeEnd) (ip (f.opcodeEnd + 1))
  unfold length
  split_ifs <;> omega

theorem length_of_register (hm : f.hasModRM = true) (h : modField (ip f.opcodeEnd) = 3) :
    f.length ip = f.opcodeEnd + 1 + f.imm := by
  rw [length, if_pos hm, addressLength_of_register h]

theorem length_of_noModRM (hm : f.hasModRM = false) : f.length ip = f.opcodeEnd + f.imm := by
  simp [length, hm]

end Form

end X86
