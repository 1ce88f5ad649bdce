/-
# Instruction fetch and prefix scan

The first half of `ExecuteOne` (`Cpu.cpp`): the pre-fetch of up to 32 bytes into
`code_buf[48]`, padded with `0xF4`, and the loop that consumes the `REX` and `0x66`
prefixes.  After them `off` indexes the byte behind the opcode.

A code buffer is a function of the index.  `codeBuf mem rip n` is the buffer
that holds the first `n` guest bytes at `rip`; `prefixLoop` stops with nothing once
it would have read past the 48 bytes of the buffer, and
`scanPrefixes_fetch` shows that the padding never lets it come to that.
-/
import ChuckStation.CpuFlags

namespace Cpu

/-! ## The code buffer -/

/-- `code_buf` when `n` guest bytes were fetched from `rip`. -/
def codeBuf (mem : GuestMemory) (rip : U64) (n : ℕ) : ℕ → Byte :=
  fun i => if i < n then mem.bytes (rip + BitVec.ofNat 64 i) else 0xF4

theorem codeBuf_padding (mem : GuestMemory) (rip : U64) {n i : ℕ} (hi : n ≤ i) :
    codeBuf mem rip n i = 0xF4 := if_neg (by omega)

/-- The number of guest bytes the pre-fetch copies; 0 when not even the first byte
at `rip` is readable. -/
def fetchLength (mem : GuestMemory) (rip : U64) : ℕ :=
  let pageOffset := (rip &&& 4095).toNat
  let firstChunk := min 32 (4096 - pageOffset)
  if mem.readable rip firstChunk then
    let secondChunk := 32 - firstChunk
    if firstChunk < 32 && mem.readable (rip + BitVec.ofNat 64 firstChunk) secondChunk then 32
    else firstChunk
  else
    ((List.range 32).takeWhile fun i => mem.readable (rip + BitVec.ofNat 64 i) 1).length

/-- The pre-fetch of `ExecuteOne`: the filled `code_buf`, or nothing on a fault. -/
def fetch (mem : GuestMemory) (rip : U64) : Option (ℕ → Byte) :=
  let n := fetchLength mem rip
  if n = 0 then none else some (codeBuf mem rip n)

theorem fetchLength_le (mem : GuestMemory) (rip : U64) : fetchLength mem rip ≤ 32 := by
  unfold fetchLength
  dsimp only
  split_ifs with h1 h2
  · exact le_rfl
  · exact min_le_left _ _
  · calc _ ≤ (List.range 32).length := (List.takeWhile_sublist _).length_le
      _ = 32 := List.length_range

theorem fetch_eq_some {mem : GuestMemory} {rip : U64} {ip : ℕ → Byte}
    (h : fetch mem rip = some ip) : ip = codeBuf mem rip (fetchLength mem rip) := by
  unfold fetch at h
  dsimp only at h
  split_ifs at h
  exact (Option.some.inj h).symm

/-! ## Prefixes -/

/-- Whether a byte is a `REX` prefix. -/
def isRex (b : Byte) : Bool := 0x40 ≤ b && b ≤ 0x4F

/-- Whether the prefix loop consumes a byte. -/
def isPrefix (b : Byte) : Bool := isRex b || b == 0x66

/-- The locals of `ExecuteOne` after the prefix loop; `off` is the index of the byte
behind the opcode. -/
structure Prefixes where
  off : ℕ := 0
  rexW : Bool := false
  rexR : Bool := false
  rexX : Bool := false
  rexB : Bool := false
  prefix66 : Bool := false
  opcode : Byte := 0

/-- The prefix loop, with at most `fuel` further bytes left in the buffer. -/
def prefixLoop (ip : ℕ → Byte) : ℕ → Prefixes → Option Prefixes
  | 0, _ => none
  | fuel + 1, p =>
      let byte := ip p.off
      let p := { p with off := p.off + 1 }
      if isRex byte then
        prefixLoop ip fuel
          { p with
            rexW := (byte &&& 0x08) != 0
            rexR := (byte &&& 0x04) != 0
            rexX := (byte &&& 0x02) != 0
            rexB := (byte &&& 0x01) != 0 }
      else if byte = 0x66 then prefixLoop ip fuel { p with prefix66 := true }
      else some { p with opcode := byte }

/-- The prefix loop over the whole `code_buf[48]`. -/
def scanPrefixes (ip : ℕ → Byte) : Option Prefixes := prefixLoop ip 48 {}

/-- The prefix loop stops behind the first byte that is no prefix. -/
theorem prefixLoop_eq_some {ip : ℕ → Byte} {fuel : ℕ} {p q : Prefixes}
    (h : prefixLoop ip fuel p = some q) :
    p.off < q.off ∧ q.off ≤ p.off + fuel ∧ q.opcode = ip (q.off - 1) ∧
      isPrefix q.opcode = false ∧ ∀ i, p.off ≤ i → i < q.off - 1 → isPrefix (ip i) = true := by
  induction fuel generalizing p with
  | zero => simp [prefixLoop] at h
  | succ fuel ih =>
      unfold prefixLoop at h
      dsimp only at h
      split_ifs at h with hrex h66
      · obtain ⟨hlt, hle, hop, hnot, hpre⟩ := ih h
        dsimp only at hlt hle hpre
        refine ⟨by omega, by omega, hop, hnot, fun i hi hi' => ?_⟩
        rcases Nat.eq_or_lt_of_le hi with heq | hgt
        · simp [← heq, isPrefix, hrex]
        · exact hpre i hgt hi'
      · obtain ⟨hlt, hle, hop, hnot, hpre⟩ := ih h
        dsimp only at hlt hle hpre
        refine ⟨by omega, by omega, hop, hnot, fun i hi hi' => ?_⟩
        rcases Nat.eq_or_lt_of_le hi with heq | hgt
        · simp [← heq, isPrefix, h66]
        · exact hpre i hgt hi'
      · cases h
        refine ⟨by simp, by simp, rfl, by simpa [isPrefix, hrex] using h66, fun i hi hi' => ?_⟩
        simp only [Nat.add_sub_cancel] at hi'
        omega

/-- A byte within reach that is no prefix stops the loop. -/
theorem prefixLoop_isSome {ip : ℕ → Byte} (fuel : ℕ) {p : Prefixes} {k : ℕ}
    (hk : p.off ≤ k) (hfuel : k < p.off + fuel) (hstop : isPrefix (ip k) = false) :
    (prefixLoop ip fuel p).isSome := by
  induction fuel generalizing p with
  | zero => omega
  | succ fuel ih =>
      unfold prefixLoop
      dsimp only
      split_ifs with hrex h66
      · have hne : p.off ≠ k := by
          rintro rfl
          simp [isPrefix, hrex] at hstop
        exact ih (by dsimp only; omega) (by dsimp only; omega)
      · have hne : p.off ≠ k := by
          rintro rfl
          simp [isPrefix, h66] at hstop
        exact ih (by dsimp only; omega) (by dsimp only; omega)
      · rfl

/-- A byte of the buffer that is no prefix ends the scan there, if not in front of it. -/
theorem scanPrefixes_of_stop {ip : ℕ → Byte} {k : ℕ} (hk : k < 48)
    (hstop : isPrefix (ip k) = false) :
    ∃ p, scanPrefixes ip = some p ∧ 1 ≤ p.off ∧ p.off ≤ k + 1 := by
  obtain ⟨p, hp⟩ := Option.isSome_iff_exists.mp
    (prefixLoop_isSome 48 (p := {}) (Nat.zero_le k) (by simpa using hk) hstop)
  obtain ⟨hlt, -, -, -, hpre⟩ := prefixLoop_eq_some hp
  refine ⟨p, hp, hlt, ?_⟩
  by_contra hgt
  have hprefix := hpre k (Nat.zero_le _) (by omega)
  rw [hstop] at hprefix
  cases hprefix

/-- **The prefix loop ends inside the buffer**: the padding is no prefix. -/
theorem scanPrefixes_codeBuf (mem : GuestMemory) (rip : U64) {n : ℕ} (hn : n ≤ 32) :
    ∃ p, scanPrefixes (codeBuf mem rip n) = some p ∧ 1 ≤ p.off ∧ p.off ≤ 33 := by
  apply scanPrefixes_of_stop (by norm_num)
  rw [codeBuf_padding mem rip hn]
  decide

theorem scanPrefixes_fetch {mem : GuestMemory} {rip : U64} {ip : ℕ → Byte}
    (h : fetch mem rip = some ip) : ∃ p, scanPrefixes ip = some p ∧ 1 ≤ p.off ∧ p.off ≤ 33 := by
  rw [fetch_eq_some h]
  exact scanPrefixes_codeBuf mem rip (fetchLength_le mem rip)

theorem scanPrefixes_off {ip : ℕ → Byte} {p : Prefixes} (h : scanPrefixes ip = some p) :
    1 ≤ p.off ∧ p.off ≤ 48 := by
  obtain ⟨hlt, hle, -⟩ := prefixLoop_eq_some h
  exact ⟨hlt, by simpa using hle⟩

/-! ## Operand bytes -/

/-- `memcpy(&v, ip + off, n)` into a little-endian word of `n` bytes. -/
def readWord (w n : ℕ) (ip : ℕ → Byte) (off : ℕ) : BitVec w :=
  LittleEndian.ofBytes w ((List.range n).map fun i => ip (off + i))

/-- A sign-extended `int8_t` of the instruction stream. -/
def readS8 (ip : ℕ → Byte) (off : ℕ) : U64 := (ip off).signExtend 64

/-- A sign-extended `int32_t` of the instruction stream. -/
def readS32 (ip : ℕ → Byte) (off : ℕ) : U64 := (readWord 32 4 ip off).signExtend 64

/-! ## ModRM -/

/-- The `mod` field, `modrm >> 6`. -/
def modOf (modrm : Byte) : ℕ := (modrm >>> 6).toNat

/-- The `/ext` field, `(modrm >> 3) & 7`. -/
def extOf (modrm : Byte) : ℕ := ((modrm >>> 3) &&& 7).toNat

/-- A register number: three bits of the instruction and one bit of `REX`. -/
def regOf (low : Byte) (rex : Bool) : RegIdx :=
  Fin.ofNat 16 ((low &&& 7) ||| (if rex then 8 else 0)).toNat

/-- `reg = ((modrm >> 3) & 7) | (rex_r ? 8 : 0)`. -/
def regField (modrm : Byte) (p : Prefixes) : RegIdx := regOf (modrm >>> 3) p.rexR

/-- `rm = (modrm & 7) | (rex_b ? 8 : 0)`. -/
def rmField (modrm : Byte) (p : Prefixes) : RegIdx := regOf modrm p.rexB

theorem extOf_lt (modrm : Byte) : extOf modrm < 8 := by
  unfold extOf
  have h : (modrm >>> 3 &&& 7).toNat ≤ 7 := by
    rw [BitVec.toNat_and]
    exact Nat.and_le_right
  omega

end Cpu
