/-
# Host arithmetic and the flag helpers

The arithmetic the interpreter runs on the host, and the flag helpers over it
(`Parity`, `UpdateFlagsLogic`, `UpdateFlagsArith`, `Mul128U`, `Mul128S` of
`Cpu.cpp`).

C++ leaves some integer operations undefined: a shift by at least the operand width,
a division by zero, a signed quotient that is not representable.  Each operation
the interpreter applies to a value it did not fix itself is therefore a partial
function into `Except HostUndefined`; every other operation is total modulo `2 ^ w`.
-/
import ChuckStation.CpuContext

namespace Cpu

/-! ## Host integer operations -/

/-- Why the host program has no defined behaviour. -/
inductive HostUndefined where
  | shiftCount
  | divByZero
  | quotientOverflow
  | bufferOverrun
  deriving DecidableEq, Repr

/-- A defined operation hands its value on. -/
@[simp] theorem ok_bind {α β : Type} (x : α) (f : α → Except HostUndefined β) :
    (Except.ok x >>= f) = f x := rfl

/-- What a defined operation evaluates to is what it returns. -/
theorem eq_of_toOption_map {α β : Type} (f : α → β) {x : Except HostUndefined α} {a : α} {b : β}
    (hx : x = .ok a) (h : x.toOption.map f = some b) : f a = b := by
  rw [hx] at h
  exact Option.some.inj h

/-- `INT64_MIN`. -/
def int64Min : U64 := 0x8000000000000000

/-- `v << n` on `uint64_t`. -/
def hostShl (v : U64) (n : ℕ) : Except HostUndefined U64 :=
  if n < 64 then .ok (v <<< n) else .error .shiftCount

/-- `v >> n` on `uint64_t`. -/
def hostShr (v : U64) (n : ℕ) : Except HostUndefined U64 :=
  if n < 64 then .ok (v >>> n) else .error .shiftCount

/-- `v >> n` on `int64_t`. -/
def hostSar (v : U64) (n : ℕ) : Except HostUndefined U64 :=
  if n < 64 then .ok (v.sshiftRight n) else .error .shiftCount

/-- `a / b` and `a % b` on `uint64_t`. -/
def hostDivModU (a b : U64) : Except HostUndefined (U64 × U64) :=
  if b = 0 then .error .divByZero else .ok (a / b, a % b)

/-- `a / b` and `a % b` on `int64_t`, both truncating toward zero. -/
def hostDivModS (a b : U64) : Except HostUndefined (U64 × U64) :=
  if b = 0 then .error .divByZero
  else if a = int64Min ∧ b = -1 then .error .quotientOverflow
  else .ok (a.sdiv b, a.srem b)

theorem hostShl_of_lt {v : U64} {n : ℕ} (h : n < 64) : hostShl v n = .ok (v <<< n) := if_pos h

theorem hostShr_of_lt {v : U64} {n : ℕ} (h : n < 64) : hostShr v n = .ok (v >>> n) := if_pos h

theorem hostSar_of_lt {v : U64} {n : ℕ} (h : n < 64) :
    hostSar v n = .ok (v.sshiftRight n) := if_pos h

/-! ## 128-bit products -/

/-- `Mul128U(a, b, hi, lo)` as the pair `(hi, lo)`. -/
def mul128U (a b : U64) : U64 × U64 :=
  let r : BitVec 128 := a.setWidth 128 * b.setWidth 128
  ((r >>> 64).setWidth 64, r.setWidth 64)

/-- `Mul128S(a, b, hi, lo)` as the pair `(hi, lo)`. -/
def mul128S (a b : U64) : U64 × U64 :=
  let r : BitVec 128 := a.signExtend 128 * b.signExtend 128
  ((r >>> 64).setWidth 64, r.setWidth 64)

/-! ## Flag updates -/

/-- `Parity(result)`: whether the low byte has an even number of set bits. -/
def parity (result : U64) : Bool :=
  let v : Byte := (result &&& 0xFF).setWidth 8
  let v := v ^^^ (v >>> 4)
  let v := v ^^^ (v >>> 2)
  let v := v ^^^ (v >>> 1)
  (v &&& 1) == 0

/-- The `mask` of the two flag helpers. -/
def operandMask (bits : ℕ) : U64 :=
  if bits = 64 then 0xFFFFFFFFFFFFFFFF
  else if bits = 32 then 0xFFFFFFFF
  else if bits = 16 then 0xFFFF
  else 0xFF

/-- `UpdateFlagsLogic(ctx, result, bits)`. -/
def updateFlagsLogic (ctx : CpuContext) (result : U64) (bits : ℕ) :
    Except HostUndefined CpuContext := do
  let result := result &&& operandMask bits
  let sign ← hostShr result (bits - 1)
  return ((((ctx.setFlag Flags.CF false).setFlag Flags.OF false).setFlag Flags.ZF
    (result == 0)).setFlag Flags.SF ((sign &&& 1) != 0)).setFlag Flags.PF (parity result)

/-- `UpdateFlagsArith(ctx, a, b, result, isSub, bits)`. -/
def updateFlagsArith (ctx : CpuContext) (a b result : U64) (isSub : Bool) (bits : ℕ) :
    Except HostUndefined CpuContext := do
  let mask := operandMask bits
  let r := result &&& mask
  let signBit ← hostShl 1 (bits - 1)
  let sign ← hostShr r (bits - 1)
  let ctx := ((ctx.setFlag Flags.ZF (r == 0)).setFlag Flags.SF ((sign &&& 1) != 0)).setFlag
    Flags.PF (parity r)
  if isSub then
    let ctx := ctx.setFlag Flags.CF ((a &&& mask).ult (b &&& mask))
    let ofl ← hostShr ((a ^^^ b) &&& (a ^^^ r)) (bits - 1)
    return ctx.setFlag Flags.OF ((ofl &&& 1) != 0)
  else
    let ctx := ctx.setFlag Flags.CF (mask.ult result)
    return ctx.setFlag Flags.OF ((~~~(a ^^^ b) &&& (a ^^^ r) &&& signBit) != 0)

/-! ## What the flag helpers touch -/

/-- `ctx'` is `ctx` up to `rflags`. -/
def FlagsOnly (ctx ctx' : CpuContext) : Prop :=
  ∃ fl, ctx' = { ctx with rflags := fl }

namespace FlagsOnly

variable {ctx ctx' ctx'' : CpuContext}

theorem refl (ctx : CpuContext) : FlagsOnly ctx ctx := ⟨ctx.rflags, rfl⟩

theorem trans (h : FlagsOnly ctx ctx') (h' : FlagsOnly ctx' ctx'') : FlagsOnly ctx ctx'' := by
  obtain ⟨fl, rfl⟩ := h
  obtain ⟨fl', rfl⟩ := h'
  exact ⟨fl', rfl⟩

theorem setFlag (ctx : CpuContext) (mask : U64) (b : Bool) : FlagsOnly ctx (ctx.setFlag mask b) :=
  ⟨_, rfl⟩

theorem gpr_eq (h : FlagsOnly ctx ctx') : ctx'.gpr = ctx.gpr := by
  obtain ⟨fl, rfl⟩ := h
  rfl

theorem rip_eq (h : FlagsOnly ctx ctx') : ctx'.rip = ctx.rip := by
  obtain ⟨fl, rfl⟩ := h
  rfl

end FlagsOnly

/-- On an operand width the helper is defined, and touches the flags only. -/
theorem updateFlagsLogic_ok (ctx : CpuContext) (result : U64) {bits : ℕ} (hbits : bits ≤ 64) :
    ∃ ctx', updateFlagsLogic ctx result bits = .ok ctx' ∧ FlagsOnly ctx ctx' := by
  have hlt : bits - 1 < 64 := by omega
  rw [updateFlagsLogic, hostShr_of_lt hlt]
  refine ⟨_, rfl, ?_⟩
  exact ((((FlagsOnly.setFlag _ _ _).trans (.setFlag _ _ _)).trans (.setFlag _ _ _)).trans
    (.setFlag _ _ _)).trans (.setFlag _ _ _)

/-- On an operand width the helper is defined, and touches the flags only. -/
theorem updateFlagsArith_ok (ctx : CpuContext) (a b result : U64) (isSub : Bool) {bits : ℕ}
    (hbits : bits ≤ 64) :
    ∃ ctx', updateFlagsArith ctx a b result isSub bits = .ok ctx' ∧ FlagsOnly ctx ctx' := by
  have hlt : bits - 1 < 64 := by omega
  rw [updateFlagsArith, hostShl_of_lt hlt, hostShr_of_lt hlt, hostShr_of_lt hlt]
  have hbase : ∀ z s p c o : Bool, FlagsOnly ctx
      (((((ctx.setFlag Flags.ZF z).setFlag Flags.SF s).setFlag Flags.PF p).setFlag
        Flags.CF c).setFlag Flags.OF o) := fun z s p c o =>
    ((((FlagsOnly.setFlag _ _ _).trans (.setFlag _ _ _)).trans (.setFlag _ _ _)).trans
      (.setFlag _ _ _)).trans (.setFlag _ _ _)
  cases isSub with
  | true => exact ⟨_, rfl, hbase _ _ _ _ _⟩
  | false => exact ⟨_, rfl, hbase _ _ _ _ _⟩

end Cpu
