/-
# Reflected cyclic redundancy checks

The shift register of a reflected CRC of any width and polynomial, a bit at a time, and what the
implementations by tables rest on: a shift is linear in exclusive or, so `n` of them are those of
the low `n` bits and the rest moved down.

A polynomial with its top bit set leaves a trace of itself there, so a shift loses nothing, and
neither does any later one.
-/
import Mathlib

namespace ReflectedCrc

variable {w : ℕ} (poly : BitVec w)

/-- One bit of the message into the register, the low end first. -/
def bitStep (c : BitVec w) (bit : Bool) : BitVec w :=
  if c.getLsbD 0 ^^ bit then poly ^^^ (c >>> 1) else c >>> 1

/-- The register over a message of bits. -/
def register (c : BitVec w) (bits : List Bool) : BitVec w := bits.foldl (bitStep poly) c

/-- One shift of the register without input. -/
def shift (c : BitVec w) : BitVec w := if c.getLsbD 0 then poly ^^^ (c >>> 1) else c >>> 1

/-- The low `n` bits of a word, in the order they are sent. -/
def lowBits (n : ℕ) (x : BitVec w) : List Bool := (List.range n).map x.getLsbD

/-! ## Linearity -/

section Linear

variable {poly} {c x y : BitVec w}

theorem shift_xor : shift poly (x ^^^ y) = shift poly x ^^^ shift poly y := by
  have hcancel : poly ^^^ (x >>> 1) ^^^ (poly ^^^ (y >>> 1)) = x >>> 1 ^^^ y >>> 1 := by
    rw [BitVec.xor_comm poly (x >>> 1), BitVec.xor_assoc, ← BitVec.xor_assoc poly poly,
      BitVec.xor_self, BitVec.zero_xor]
  unfold shift
  rw [BitVec.getLsbD_xor, BitVec.ushiftRight_xor_distrib]
  cases x.getLsbD 0 <;> cases y.getLsbD 0
  · simp only [Bool.false_xor, Bool.false_eq_true, if_false]
  · simp only [Bool.false_xor, Bool.false_eq_true, if_false, if_true]
    rw [← BitVec.xor_assoc, ← BitVec.xor_assoc, BitVec.xor_comm poly]
  · simp only [Bool.xor_false, Bool.false_eq_true, if_false, if_true]
    rw [BitVec.xor_assoc]
  · simp only [Bool.xor_self, Bool.false_eq_true, if_false, if_true]
    exact hcancel.symm

theorem iterate_shift_xor (n : ℕ) :
    (shift poly)^[n] (x ^^^ y) = (shift poly)^[n] x ^^^ (shift poly)^[n] y := by
  induction n generalizing x y with
  | zero => rfl
  | succ n ih => rw [Function.iterate_succ_apply, Function.iterate_succ_apply,
      Function.iterate_succ_apply, shift_xor, ih]

/-- A word whose low `n` bits are clear only moves down. -/
theorem iterate_shift_of_clear {n : ℕ} (h : ∀ i < n, x.getLsbD i = false) :
    (shift poly)^[n] x = x >>> n := by
  induction n with
  | zero => rw [Function.iterate_zero_apply, BitVec.ushiftRight_zero]
  | succ n ih =>
      have hlow : (x >>> n).getLsbD 0 = false := by
        rw [BitVec.getLsbD_ushiftRight]
        exact h n (Nat.lt_succ_self n)
      rw [Function.iterate_succ_apply', ih fun i hi => h i (by omega), shift, hlow,
        if_neg (by decide), BitVec.shiftRight_add]

end Linear

/-! ## Several bits at a time -/

section Bytes

variable {c x : BitVec w} {n : ℕ}

theorem bitStep_eq (bit : Bool) (hbit : bit = x.getLsbD 0) :
    bitStep poly c bit ^^^ (x >>> 1) = shift poly (c ^^^ x) := by
  unfold bitStep shift
  rw [BitVec.getLsbD_xor, BitVec.ushiftRight_xor_distrib, hbit]
  split_ifs
  · exact BitVec.xor_assoc _ _ _
  · rfl

theorem lowBits_succ : lowBits (n + 1) x = x.getLsbD 0 :: lowBits n (x >>> 1) := by
  unfold lowBits
  rw [List.range_succ_eq_map, List.map_cons, List.map_map]
  congr 1
  apply List.map_congr_left
  intro i _
  rw [Function.comp_apply, BitVec.getLsbD_ushiftRight, Nat.add_comm]

/-- `n` bits one after the other, or all put into the register and shifted out. -/
theorem register_lowBits (h : x >>> n = 0#w) :
    register poly c (lowBits n x) = (shift poly)^[n] (c ^^^ x) := by
  induction n generalizing c x with
  | zero =>
      rw [BitVec.ushiftRight_zero] at h
      rw [h, BitVec.xor_zero]
      rfl
  | succ n ih =>
      have hrest : (x >>> 1) >>> n = 0#w := by
        rw [← BitVec.shiftRight_add, Nat.add_comm]
        exact h
      calc register poly c (lowBits (n + 1) x)
          = register poly (bitStep poly c (x.getLsbD 0)) (lowBits n (x >>> 1)) := by
            rw [lowBits_succ]
            rfl
        _ = (shift poly)^[n] (shift poly (c ^^^ x)) := by
            rw [ih hrest, bitStep_eq poly _ rfl]
        _ = (shift poly)^[n + 1] (c ^^^ x) := (Function.iterate_succ_apply _ _ _).symm

/-- **The step by a table**: `n` shifts are those of the low bits, kept in the table, and the rest
moved down. -/
theorem iterate_shift_eq {mask : BitVec w}
    (hmask : ∀ i, mask.getLsbD i = (decide (i < w) && decide (i < n))) :
    (shift poly)^[n] x = (shift poly)^[n] (x &&& mask) ^^^ (x >>> n) := by
  have hsplit : x = (x &&& mask) ^^^ (x &&& ~~~mask) := by
    apply BitVec.eq_of_getLsbD_eq
    intro i hi
    rw [BitVec.getLsbD_xor, BitVec.getLsbD_and, BitVec.getLsbD_and, BitVec.getLsbD_not]
    cases x.getLsbD i <;> cases mask.getLsbD i <;> simp [hi]
  have hclear : ∀ i < n, (x &&& ~~~mask).getLsbD i = false := by
    intro i hi
    rw [BitVec.getLsbD_and, BitVec.getLsbD_not, hmask]
    by_cases hw : i < w
    · simp [hw, hi]
    · simp [hw]
  have hdown : (x &&& ~~~mask) >>> n = x >>> n := by
    apply BitVec.eq_of_getLsbD_eq
    intro i _
    rw [BitVec.getLsbD_ushiftRight, BitVec.getLsbD_ushiftRight, BitVec.getLsbD_and,
      BitVec.getLsbD_not, hmask]
    by_cases hw : n + i < w
    · simp [hw]
    · simp [hw, BitVec.getLsbD_of_ge x (n + i) (by omega)]
  calc (shift poly)^[n] x = (shift poly)^[n] ((x &&& mask) ^^^ (x &&& ~~~mask)) := by rw [← hsplit]
    _ = (shift poly)^[n] (x &&& mask) ^^^ (shift poly)^[n] (x &&& ~~~mask) := iterate_shift_xor n
    _ = (shift poly)^[n] (x &&& mask) ^^^ (x >>> n) := by
      rw [iterate_shift_of_clear hclear, hdown]

end Bytes

/-! ## Nothing is lost -/

section Injective

variable {poly}

/-- The top bit of the register tells whether the polynomial went in. -/
theorem shift_msb (h : poly.msb = true) (c : BitVec w) :
    (shift poly c).msb = c.getLsbD 0 := by
  have hshift : (c >>> 1).msb = false := by
    rw [BitVec.msb_ushiftRight]
    simp
  unfold shift
  cases c.getLsbD 0
  · rw [if_neg (by decide), hshift]
  · rw [if_pos rfl, BitVec.msb_xor, h, hshift]
    rfl

theorem shift_injective (h : poly.msb = true) : Function.Injective (shift poly) := by
  intro x y heq
  have hlow : x.getLsbD 0 = y.getLsbD 0 := by rw [← shift_msb h x, ← shift_msb h y, heq]
  have hrest : x >>> 1 = y >>> 1 := by
    unfold shift at heq
    rw [hlow] at heq
    split_ifs at heq
    · exact (BitVec.xor_right_inj poly).mp heq
    · exact heq
  apply BitVec.eq_of_getLsbD_eq
  intro i hi
  cases i with
  | zero => exact hlow
  | succ i =>
      have hbit := congrArg (fun v => v.getLsbD i) hrest
      simp only [BitVec.getLsbD_ushiftRight] at hbit
      rwa [Nat.add_comm i 1]

end Injective

end ReflectedCrc
