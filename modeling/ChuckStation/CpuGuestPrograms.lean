/-
# Guest programs

The programs that the emulator's own tests run, at any size and over any code.

* `ran_adds`: ADD RAX, RCX repeated, in front of HLT;
* `ran_subroutine`: a CALL to any piece of straight-line code that keeps `RSP` and its return
  address, with HLT behind the CALL.
-/
import ChuckStation.CpuPrograms
import ChuckStation.X86Blocks

namespace Cpu

open MachineTriples
open X86 (Insn Program State rax rcx rsp)

/-! ## Repeated additions -/

/-- ADD RAX, RCX `k` times, and HLT. -/
def adds (base : U64) (readable writable : U64 → ℕ → Bool) (k : ℕ) (hk : 3 * k + 1 < 2 ^ 64) :
    Program where
  base := base
  insns := List.replicate k (.alu .add rax rcx) ++ [.hlt]
  readable := readable
  writable := writable
  fits := by
    rw [X86.size_append, X86.size_replicate]
    show k * 3 + 1 < 2 ^ 64
    omega

section Adds

variable {base : U64} {readable writable : U64 → ℕ → Bool} {k : ℕ} {hk : 3 * k + 1 < 2 ^ 64}

/-- Behind `j` of the additions. -/
def Added (base : U64) (gpr : Fin 16 → U64) (j : ℕ) (s : State) : Prop :=
  s.rip = base + BitVec.ofNat 64 (X86.size (List.replicate j (.alu .add rax rcx))) ∧
    s.gpr = Function.update gpr rax (gpr rax + BitVec.ofNat 64 j * gpr rcx)

/-- One addition. -/
theorem added_step (gpr : Fin 16 → U64) {j : ℕ} (hj : j < k) :
    Triple (adds base readable writable k hk).step (Added base gpr j) 1
      (Added base gpr (j + 1)) := by
  apply Triple.of_step
  rintro s ⟨hrip, hgpr⟩
  have hfetch : (adds base readable writable k hk).fetch s.rip = some (.alu .add rax rcx) := by
    obtain ⟨d, rfl⟩ := Nat.exists_eq_add_of_lt hj
    rw [hrip]
    refine Program.fetch_address (List.replicate j (.alu .add rax rcx))
      (List.replicate d (.alu .add rax rcx) ++ [.hlt]) ?_
    show List.replicate (j + d + 1) _ ++ _ = _
    rw [Nat.add_assoc, List.replicate_add, List.replicate_succ, List.append_assoc]
    rfl
  refine ⟨(s.advance 3).operate .add rax (s.gpr rcx), ?_, ?_, ?_⟩
  · rw [Program.step, hfetch]
    rfl
  · show s.rip + 3 = _
    rw [hrip, List.replicate_succ', X86.size_append, BitVec.ofNat_add, ← BitVec.add_assoc]
    rfl
  · have hone : BitVec.ofNat 64 (j + 1) = BitVec.ofNat 64 j + 1 := BitVec.ofNat_add j 1
    show Function.update s.gpr rax (s.gpr rax + s.gpr rcx) = _
    rw [hgpr, Function.update_idem, Function.update_self, Function.update_of_ne (by decide), hone,
      add_mul, one_mul, add_assoc]

/-- **Additions.**  `Run()` over `k` times ADD RAX, RCX in front of HLT returns `Halt` and has added
`k` times `RCX`. -/
theorem ran_adds {m : Machine} (h : Installed (adds base readable writable k hk) m)
    (hrip : m.cpu.ctx.rip = base) (fuel : ℕ) (hfuel : k < fuel) :
    ∃ m', run fuel m = some (.ok (.Halt, m')) ∧ m'.cpu.ctx.gpr =
      Function.update m.cpu.ctx.gpr Reg.RAX
        (m.cpu.ctx.gpr Reg.RAX + BitVec.ofNat 64 k * m.cpu.ctx.gpr Reg.RCX) := by
  have hloop : Triple (adds base readable writable k hk).step (Added base m.cpu.ctx.gpr 0) (k * 1)
      (Added base m.cpu.ctx.gpr k) := Triple.iterate fun j hj => added_step m.cpu.ctx.gpr hj
  have hstart : Added base m.cpu.ctx.gpr 0 m.guest.programState := by
    refine ⟨?_, ?_⟩
    · show m.cpu.ctx.rip = base + 0
      rw [hrip, add_zero]
    · show m.cpu.ctx.gpr = Function.update _ rax (m.cpu.ctx.gpr rax + 0 * _)
      rw [zero_mul, add_zero, Function.update_eq_self]
  have hhlt : ∀ s, Added base m.cpu.ctx.gpr k s → ∃ i,
      (adds base readable writable k hk).fetch s.rip = some i ∧ i.trap = some .halt := by
    rintro s ⟨hend, -⟩
    rw [hend]
    exact ⟨.hlt, Program.fetch_address _ [] rfl, rfl⟩
  obtain ⟨s, i, m', ⟨-, hgpr⟩, -, hrun, hcarries⟩ := ran_of_triple hloop hhlt
    ⟨m.guest.programState_matches, h⟩ hstart (by rwa [Nat.mul_one])
  refine ⟨m', hrun, ?_⟩
  rw [← hgpr]
  exact hcarries.state.gpr_eq

/-- 500 additions at 0x1000, with 1 in `RCX`. -/
def throughput : Machine where
  cpu := { ctx := { gpr := Function.update (fun _ => 0) Reg.RCX 1, rip := 0x1000 } }
  mem :=
    { bytes := ByteStore.write (fun _ => 0) 0x1000
        (adds 0x1000 (fun _ _ => true) (fun _ _ => true) 500 (by norm_num)).text
      readable := fun _ _ => true
      writable := fun _ _ => true }

theorem throughput_installed :
    Installed (adds 0x1000 (fun _ _ => true) (fun _ _ => true) 500 (by norm_num)) throughput := by
  have hsize : X86.size (adds 0x1000 (fun _ _ => true) (fun _ _ => true) 500 (by norm_num)).insns =
      1501 := by
    show X86.size (List.replicate 500 _ ++ [.hlt]) = 1501
    rw [X86.size_append, X86.size_replicate]
    rfl
  refine Installed.of_readable ?_ rfl rfl rfl ?_ ?_ fun _ _ _ _ => rfl
  · exact ByteStore.read_write_self _ _ _ (Program.fits _).le
  · intro k hk
    rw [hsize] at hk
    show (0x1000 : U64) + BitVec.ofNat 64 k ≠ 0
    bv_omega
  · rw [hsize]
    norm_num

theorem ran_adds_throughput : ∃ m', run 501 throughput = some (.ok (.Halt, m')) ∧
    m'.cpu.ctx.gpr Reg.RAX = 500 := by
  obtain ⟨m', hrun, hgpr⟩ := ran_adds throughput_installed rfl 501 (by norm_num)
  refine ⟨m', hrun, ?_⟩
  rw [hgpr]
  decide

end Adds

/-! ## Calls -/

/-- A CALL to `body` with HLT behind it. -/
def subroutine (base : U64) (readable writable : U64 → ℕ → Bool) (body : List Insn)
    (hbody : X86.size body + 7 < 2 ^ 64) : Program where
  base := base
  insns := [.call 1, .hlt] ++ body ++ [.ret]
  readable := readable
  writable := writable
  fits := by
    rw [X86.size_append, X86.size_append]
    show 6 + X86.size body + 1 < 2 ^ 64
    omega

section Subroutine

variable {base : U64} {readable writable : U64 → ℕ → Bool} {body : List Insn}
  {hsize : X86.size body + 7 < 2 ^ 64} {s t : State}

/-- From the CALL to HLT. -/
theorem after_subroutine (hrip : s.rip = base) (hstraight : ∀ i ∈ body, i.isStraight = true)
    (hpush : (subroutine base readable writable body hsize).mayWrite (s.gpr rsp - 8) 8 = true)
    (hpop : readable (s.gpr rsp - 8) 8 = true)
    (hbody : (subroutine base readable writable body hsize).execAll body
      ((s.advance 5).called 1) = some t)
    (hrsp : t.gpr rsp = s.gpr rsp - 8) (hword : t.word (s.gpr rsp - 8) = base + 5) :
    after (subroutine base readable writable body hsize).step (body.length + 2) s =
        some t.returned ∧
      t.returned.rip = base + 5 ∧ t.returned.gpr = Function.update t.gpr rsp (s.gpr rsp) ∧
      t.returned.calls = s.calls := by
  set P := subroutine base readable writable body hsize with hP
  have hcall : P.fetch s.rip = some (.call 1) := by
    have haddr : s.rip = P.address [] := by
      rw [hrip]
      exact (add_zero base).symm
    rw [haddr]
    exact Program.fetch_address [] _ rfl
  have hentry : ((s.advance 5).called 1).rip = P.address [.call 1, .hlt] := by
    show s.rip + 5 + 1 = base + 6
    rw [hrip, add_assoc]
    rfl
  obtain ⟨hrun, hend, hcalls⟩ := Program.after_block [.call 1, .hlt] [.ret] (P := P) rfl hstraight
    hentry hbody
  have hret : P.fetch t.rip = some .ret := by
    rw [hend]
    exact Program.fetch_address _ [] rfl
  obtain ⟨hall, hback, hgpr⟩ := Program.after_call hcall hpush hpop hrun hret hrsp
    (by rw [hword, hrip])
  refine ⟨hall, by rw [hback, hrip], hgpr, ?_⟩
  show t.calls.tail = s.calls
  rw [hcalls]
  rfl

/-- INC RAX as a subroutine. -/
def increment : Program :=
  subroutine 0x1000 (fun _ _ => true) (fun _ _ => true) [.unary .inc rax] (by decide)

/-- The program at 0x1000, with 0x8000 in `RSP`. -/
def incrementMachine : Machine where
  cpu := { ctx := { gpr := Function.update (fun _ => 0) Reg.RSP 0x8000, rip := 0x1000 } }
  mem :=
    { bytes := ByteStore.write (fun _ => 0) 0x1000 increment.text
      readable := fun _ _ => true
      writable := fun _ _ => true }

theorem increment_installed : Installed increment incrementMachine := by
  refine Installed.of_readable ?_ rfl rfl rfl ?_ (by decide) fun _ _ _ _ => rfl
  · exact ByteStore.read_write_self _ _ _ (Program.fits _).le
  · intro k hk
    have hlt : k < 10 := hk
    show (0x1000 : U64) + BitVec.ofNat 64 k ≠ 0
    bv_omega

end Subroutine

end Cpu
