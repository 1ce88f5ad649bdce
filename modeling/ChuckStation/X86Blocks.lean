/-
# Straight-line code and calls

Rules for the programs of X86Programs.

* `after_block`: instructions that do not jump are executed one after the other;
* `after_call`: a called piece of code that keeps `RSP` and its return address comes back behind the
  CALL.
-/
import ChuckStation.MachineTriples
import ChuckStation.X86Programs

namespace X86

open MachineTriples LittleEndian

/-! ## Where the instructions are -/

theorem size_append (is js : List Insn) : size (is ++ js) = size is + size js := by
  rw [size, List.flatMap_append, List.length_append]
  rfl

theorem size_cons (i : Insn) (is : List Insn) : size (i :: is) = i.length + size is := by
  rw [size, List.flatMap_cons, List.length_append]
  rfl

theorem size_replicate (k : ℕ) (i : Insn) : size (List.replicate k i) = k * i.length := by
  induction k with
  | zero => rw [Nat.zero_mul]; rfl
  | succ k ih => rw [List.replicate_succ, size_cons, ih, Nat.succ_mul, Nat.add_comm]

theorem insnAt_append (pre post : List Insn) (i : Insn) :
    insnAt (pre ++ i :: post) (size pre) = some i := by
  induction pre with
  | nil => rfl
  | cons j pre ih =>
      obtain ⟨k, hk⟩ := Nat.exists_eq_add_of_lt j.length_pos
      have hsize : size (j :: pre) = k + size pre + 1 := by
        rw [size_cons]
        omega
      rw [hsize, List.cons_append, insnAt, if_neg (by omega)]
      rw [← ih]
      congr 1
      omega

namespace Program

variable {P : Program} {i : Insn}

/-- The address of the instruction behind the given ones. -/
def address (P : Program) (pre : List Insn) : U64 := P.base + BitVec.ofNat 64 (size pre)

theorem address_append (P : Program) (pre : List Insn) (i : Insn) :
    P.address (pre ++ [i]) = P.address pre + BitVec.ofNat 64 i.length := by
  rw [address, address, size_append, size_cons, BitVec.ofNat_add, ← BitVec.add_assoc]
  rfl

theorem fetch_address (pre post : List Insn) (h : P.insns = pre ++ i :: post) :
    P.fetch (P.address pre) = some i := by
  have hfits := P.fits
  have hlt : size pre < 2 ^ 64 := by
    rw [h, size_append] at hfits
    omega
  rw [fetch, address, ByteStore.toNat_add_ofNat_sub _ _ hlt, h, insnAt_append]

end Program

/-! ## Straight-line code -/

/-- The instruction goes on to the one behind it. -/
def Insn.isStraight : Insn → Bool
  | .jmp _ | .jcc _ _ | .call _ | .ret | .syscall | .hlt => false
  | _ => true

namespace Program

variable {P : Program} {code : List Insn} {i : Insn} {s s' : State}

/-- Instructions one after the other. -/
def execAll (P : Program) : List Insn → State → Option State
  | [], s => some s
  | i :: is, s => (P.exec i s).bind (P.execAll is)

theorem exec_straight (hstraight : i.isStraight = true) (h : P.exec i s = some s') :
    s'.rip = s.rip + BitVec.ofNat 64 i.length ∧ s'.calls = s.calls := by
  cases i with
  | nop | movImm | movAbs | mov | unary | shift | imul =>
      cases h
      exact ⟨rfl, rfl⟩
  | alu | aluImm =>
      cases h
      exact ⟨State.operate_rip _ _ _ _, State.operate_calls _ _ _ _⟩
  | load | store | lea | push | pop =>
      obtain ⟨-, hsome⟩ := Option.ite_none_right_eq_some.mp h
      cases hsome
      exact ⟨rfl, rfl⟩
  | jmp | jcc | call | ret | syscall | hlt => cases hstraight

/-- **Blocks.**  Straight-line code is executed from its first instruction to the one behind it. -/
theorem after_block (pre post : List Insn) (hcode : P.insns = pre ++ code ++ post)
    (hstraight : ∀ i ∈ code, i.isStraight = true) (hrip : s.rip = P.address pre)
    (h : P.execAll code s = some s') : after P.step code.length s = some s' ∧
      s'.rip = P.address (pre ++ code) ∧ s'.calls = s.calls := by
  induction code generalizing pre s with
  | nil =>
      cases h
      rw [List.append_nil]
      exact ⟨rfl, hrip, rfl⟩
  | cons i code ih =>
      obtain ⟨t, hexec, hrest⟩ := Option.bind_eq_some_iff.mp h
      have hsplit : P.insns = pre ++ [i] ++ code ++ post := by simpa using hcode
      have hfetch : P.fetch s.rip = some i := by
        rw [hrip]
        exact fetch_address pre (code ++ post) (by simpa using hcode)
      have hstep : P.step s = some t := by
        rw [step, hfetch, Option.bind_some, hexec]
      obtain ⟨hnext, hcalls⟩ := exec_straight (hstraight i List.mem_cons_self) hexec
      rw [hrip, ← address_append] at hnext
      obtain ⟨hrun, hend, hkept⟩ := ih (pre ++ [i]) hsplit
        (fun j hj => hstraight j (List.mem_cons_of_mem i hj)) hnext hrest
      rw [List.append_cons]
      exact ⟨(after_succ hstep).trans hrun, hend, hkept.trans hcalls⟩

/-- A run of the program by itself is one under any host. -/
theorem after_stepWith {κ : Type*} {n : ℕ} (host : Host κ) (k : κ)
    (h : after P.step n s = some s') : after (P.stepWith host) n (s, k) = some (s', k) := by
  have hsim : Simulates P.step (P.stepWith host) fun s x => x = (s, k) := by
    rintro s _ s' rfl hstep
    exact ⟨_, stepWith_of_step hstep, rfl⟩
  obtain ⟨_, hrun, rfl⟩ := hsim.run rfl h
  exact hrun

/-! ## Calls -/

/-- **Calls.**  From the CALL to the instruction behind it. -/
theorem after_call {rel : U32} {n : ℕ} {t : State} (hfetch : P.fetch s.rip = some (.call rel))
    (hpush : P.mayWrite (s.gpr rsp - 8) 8 = true) (hpop : P.readable (s.gpr rsp - 8) 8 = true)
    (hbody : after P.step n ((s.advance 5).called (rel.signExtend 64)) = some t)
    (hret : P.fetch t.rip = some .ret) (hrsp : t.gpr rsp = s.gpr rsp - 8)
    (hword : t.word (s.gpr rsp - 8) = s.rip + 5) :
    after P.step (n + 2) s = some t.returned ∧ t.returned.rip = s.rip + 5 ∧
      t.returned.gpr = Function.update t.gpr rsp (s.gpr rsp) := by
  have hcall : P.step s = some ((s.advance 5).called (rel.signExtend 64)) := by
    rw [step, hfetch]
    exact if_pos hpush
  have hlast : P.step t = some t.returned := by
    rw [step, hret]
    exact if_pos (by rwa [hrsp])
  refine ⟨?_, ?_, ?_⟩
  · rw [after_succ hcall]
    exact after_add hbody (after_one hlast)
  · show t.word (t.gpr rsp) = s.rip + 5
    rw [hrsp, hword]
  · show Function.update t.gpr rsp (t.gpr rsp + 8) = _
    rw [hrsp, BitVec.sub_add_cancel]

end Program

end X86
