/-
# Encodings and the decoder

What the prefix loop and the ModRM fields of the interpreter make of the encodings of a program's
instructions.

* `scanPrefixes_rex`, `scanPrefixes_plain`: where the opcode is found, and with which prefixes;
* `Begins.readWord`: immediates and displacements come back.
-/
import ChuckStation.CpuExec
import ChuckStation.X86Programs

namespace Cpu

open Guest GuestMemory
open X86 (rexByte rexW modReg modMem isHigh)

/-! ## Bytes of an instruction -/

/-- The buffer begins with the bytes. -/
def Begins (ip : ℕ → Byte) (bs : List Byte) : Prop := ∀ i b, bs[i]? = some b → ip i = b

section Bytes

variable {ip : ℕ → Byte}

/-- A word behind other bytes. -/
theorem Begins.readWord (bs : List Byte) {w n : ℕ} {v : BitVec w}
    (h : Begins ip (bs ++ LittleEndian.toBytes n v)) (hw : w ≤ 8 * n) :
    readWord w n ip bs.length = v := by
  have hbytes : ((List.range n).map fun j => ip (bs.length + j)) = LittleEndian.toBytes n v := by
    apply List.ext_getElem (by simp)
    intro j hj hj'
    have hget : (bs ++ LittleEndian.toBytes n v)[bs.length + j]? =
        some (LittleEndian.toBytes n v)[j] := by
      rw [List.getElem?_append_right (Nat.le_add_right _ _), Nat.add_sub_cancel_left,
        List.getElem?_eq_getElem hj']
    simpa using h _ _ hget
  rw [Cpu.readWord, hbytes, LittleEndian.ofBytes_toBytes n v hw]

theorem Begins.readS32 (bs : List Byte) {v : U32}
    (h : Begins ip (bs ++ LittleEndian.toBytes 4 v)) :
    readS32 ip bs.length = v.signExtend 64 := by
  rw [Cpu.readS32, h.readWord bs (by norm_num)]

/-! ## Prefixes -/

/-- An instruction that begins with its opcode. -/
theorem scanPrefixes_plain (h : isPrefix (ip 0) = false) :
    scanPrefixes ip = some { off := 1, opcode := ip 0 } := by
  obtain ⟨hrex, h66⟩ := Bool.or_eq_false_iff.mp h
  have hne : ip 0 ≠ 0x66 := ne_of_beq_false h66
  rw [scanPrefixes, prefixLoop]
  dsimp only
  rw [if_neg (by simp [hrex]), if_neg hne]

/-- The bits of REX come back. -/
theorem rexByte_bits : ∀ w r b, isRex (rexByte w r b) = true ∧
    ((rexByte w r b &&& 0x08) != 0) = w ∧ ((rexByte w r b &&& 0x04) != 0) = r ∧
    ((rexByte w r b &&& 0x02) != 0) = false ∧ ((rexByte w r b &&& 0x01) != 0) = b := by
  decide

/-- An instruction with a REX prefix. -/
theorem scanPrefixes_rex {w r b : Bool} (h0 : ip 0 = rexByte w r b)
    (h1 : isPrefix (ip 1) = false) :
    scanPrefixes ip = some { off := 2, rexW := w, rexR := r, rexB := b, opcode := ip 1 } := by
  obtain ⟨hrex, hw, hr, hx, hb⟩ := rexByte_bits w r b
  obtain ⟨hrex1, h66⟩ := Bool.or_eq_false_iff.mp h1
  have hne : ip 1 ≠ 0x66 := ne_of_beq_false h66
  rw [scanPrefixes, prefixLoop]
  dsimp only
  rw [h0, if_pos hrex, prefixLoop]
  dsimp only
  rw [if_neg (by simp [hrex1]), if_neg hne, hw, hr, hx, hb]

end Bytes

/-! ## Instructions with 64-bit operands -/

/-- The prefixes of such an instruction on the registers `reg` and `rm`. -/
def wide (reg rm : Fin 16) (opcode : Byte) : Prefixes where
  off := 2
  rexW := true
  rexR := isHigh reg
  rexB := isHigh rm
  opcode := opcode

section Wide

variable (reg rm : Fin 16) (opcode : Byte)

@[simp] theorem wide_off : (wide reg rm opcode).off = 2 := rfl
@[simp] theorem wide_rexW : (wide reg rm opcode).rexW = true := rfl
@[simp] theorem wide_rexB : (wide reg rm opcode).rexB = isHigh rm := rfl
@[simp] theorem wide_opcode : (wide reg rm opcode).opcode = opcode := rfl

theorem scanPrefixes_wide {ip : ℕ → Byte} (h0 : ip 0 = rexW reg rm) (h1 : ip 1 = opcode)
    (hplain : isPrefix opcode = false) : scanPrefixes ip = some (wide reg rm opcode) := by
  subst h1
  exact scanPrefixes_rex h0 hplain

@[simp] theorem modOf_modReg : modOf (modReg reg rm) = 3 := by
  decide +kernel +revert

@[simp] theorem modOf_modMem : modOf (modMem reg rm) = 2 := by
  decide +kernel +revert

@[simp] theorem extOf_modReg : extOf (modReg reg rm) = reg.val % 8 := by
  decide +kernel +revert

theorem regOf_modReg : regOf (modReg reg rm >>> 3) (isHigh reg) = reg ∧
    regOf (modReg reg rm) (isHigh rm) = rm := by
  decide +kernel +revert

theorem regOf_modMem : regOf (modMem reg rm >>> 3) (isHigh reg) = reg ∧
    regOf (modMem reg rm) (isHigh rm) = rm := by
  decide +kernel +revert

@[simp] theorem regField_modReg : regField (modReg reg rm) (wide reg rm opcode) = reg :=
  (regOf_modReg reg rm).1

/-- The second register does not depend on what the first field holds. -/
@[simp] theorem rmField_modReg (digit : Fin 16) :
    rmField (modReg digit rm) (wide reg rm opcode) = rm :=
  (regOf_modReg digit rm).2

@[simp] theorem regField_modMem : regField (modMem reg rm) (wide reg rm opcode) = reg :=
  (regOf_modMem reg rm).1

@[simp] theorem rmField_modMem : rmField (modMem reg rm) (wide reg rm opcode) = rm :=
  (regOf_modMem reg rm).2

end Wide

/-! ## Memory operands -/

section Memory

variable {ip : ℕ → Byte} {reg base : Fin 16} {disp : U32} {b0 b1 opcode : Byte} {g : Guest}

theorem dispField_modMem
    (hb : Begins ip ([b0, b1, modMem reg base] ++ LittleEndian.toBytes 4 disp)) :
    dispField ip 3 2 = (disp.signExtend 64, 4) := by
  have hdisp : readS32 ip 3 = disp.signExtend 64 := hb.readS32 _
  rw [dispField, if_neg (by decide), if_pos rfl, hdisp]

theorem movAddress_modMem
    (hb : Begins ip ([b0, b1, modMem reg base] ++ LittleEndian.toBytes 4 disp)) :
    movAddress ip (wide reg base opcode) g = g.ctx.gpr base + disp.signExtend 64 := by
  have h2 : ip 2 = modMem reg base := hb 2 _ rfl
  rw [movAddress, wide_off, h2, modOf_modMem, dispField_modMem hb, rmField_modMem]

theorem movDecoded_modMem
    (hb : Begins ip ([b0, b1, modMem reg base] ++ LittleEndian.toBytes 4 disp)) :
    movDecoded ip (wide reg base opcode) g = (g.ctx.advance 3).advance 4 := by
  have h2 : ip 2 = modMem reg base := hb 2 _ rfl
  rw [movDecoded, wide_off, h2, modOf_modMem, dispField_modMem hb]

end Memory

end Cpu
