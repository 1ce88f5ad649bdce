/-
# Real code bytes

Whether a step executes nothing but guest code.  The pre-fetch pads its buffer with 0xF4 behind the
last byte it could copy, and the decoder does not know where the padding begins: an instruction cut
off at the end of readable memory is completed from it.
-/
import ChuckStation.CpuReports

namespace Cpu

open Guest GuestMemory

/-! ## Code streams that agree -/

section Agreement

variable {ip ip' : ℕ → Byte} {p q : Prefixes} {fuel n : ℕ}

/-- The prefix loop looks at the bytes up to the opcode only. -/
theorem prefixLoop_congr (hsame : ∀ i < q.off, ip' i = ip i)
    (h : prefixLoop ip fuel p = some q) : prefixLoop ip' fuel p = some q := by
  induction fuel generalizing p with
  | zero => cases h
  | succ fuel ih =>
      have hlt : p.off < q.off := (prefixLoop_eq_some h).1
      unfold prefixLoop at h ⊢
      dsimp only at h ⊢
      rw [hsame p.off hlt]
      split_ifs at h ⊢
      · exact ih h
      · exact ih h
      · exact h

theorem scanPrefixes_congr (hsame : ∀ i < p.off, ip' i = ip i) (h : scanPrefixes ip = some p) :
    scanPrefixes ip' = some p :=
  prefixLoop_congr hsame h

/-- How many bytes a case consumes does not depend on what is behind them. -/
theorem consumed_congr (c : OpCase) (hsame : ∀ i < consumed c ip p, ip' i = ip i) :
    consumed c ip' p = consumed c ip p := by
  have hmod (h : p.off < consumed c ip p) : ip' p.off = ip p.off := hsame p.off h
  cases c with
  | add | movStore | movLoad | lea =>
      have hbyte := hmod (by simp only [consumed]; omega)
      simp only [consumed, hbyte, addDispField, dispField]
      split_ifs <;> rfl
  | twoByte =>
      have hbyte := hmod (by simp only [consumed]; split_ifs <;> omega)
      simp only [consumed, hbyte]
  | nop | lahf | sahf | push | pop | xchg | movImm | group83 | group81 | or | and | sub | xor | test
  | testRaxImm | jmpRel8 | jmpRel32 | jccRel8 | callRel32 | ret | retImm16 | int | hlt | cmpRM
  | cmpMR | movImmC7 | shift | groupFF | groupF7 | imulImm | default => rfl

/-- A stream whose scan consumes no more than `n` bytes can be exchanged for one with the same first
`n` bytes. -/
theorem scan_congr (hsame : ∀ i < n, ip' i = ip i) (h : scanPrefixes ip = some p)
    (hn : consumed (opCase p.opcode) ip p ≤ n) :
    scanPrefixes ip' = some p ∧
      consumed (opCase p.opcode) ip' p = consumed (opCase p.opcode) ip p := by
  have hoff := (consumed_bounds (opCase p.opcode) ip p).1
  exact ⟨scanPrefixes_congr (fun i hi => hsame i (by omega)) h,
    consumed_congr _ fun i hi => hsame i (by omega)⟩

end Agreement

/-! ## Fetched bytes -/

/-- The bytes of the pre-fetch window in front of the page boundary. -/
def firstChunk (rip : U64) : ℕ := min 32 (4096 - (rip &&& 4095).toNat)

/-- The pre-fetch copies the byte at index `i`. -/
def Fetched (mem : GuestMemory) (rip : U64) (i : ℕ) : Prop :=
  i < 32 ∧
    if mem.readable rip (firstChunk rip) then
      i < firstChunk rip ∨
        mem.readable (rip + BitVec.ofNat 64 (firstChunk rip)) (32 - firstChunk rip) = true
    else ∀ j ≤ i, mem.readable (rip + BitVec.ofNat 64 j) 1 = true

theorem lt_takeWhile_range_iff (pred : ℕ → Bool) (n i : ℕ) :
    i < ((List.range n).takeWhile pred).length ↔ i < n ∧ ∀ j ≤ i, pred j = true := by
  rw [List.takeWhile_eq_take_findIdx_not, List.length_take, List.length_range,
    lt_min_iff, List.lt_findIdx_iff]
  simp only [List.length_range, List.getElem_range, Bool.not_eq_false', exists_prop]
  tauto

theorem fetchLength_eq (mem : GuestMemory) (rip : U64) :
    fetchLength mem rip =
      if mem.readable rip (firstChunk rip) then
        if firstChunk rip < 32 &&
          mem.readable (rip + BitVec.ofNat 64 (firstChunk rip)) (32 - firstChunk rip) then 32
        else firstChunk rip
      else
        ((List.range 32).takeWhile fun i => mem.readable (rip + BitVec.ofNat 64 i) 1).length :=
  rfl

theorem lt_fetchLength_iff {mem : GuestMemory} {rip : U64} {i : ℕ} :
    i < fetchLength mem rip ↔ Fetched mem rip i := by
  have hle : firstChunk rip ≤ 32 := min_le_left _ _
  rw [fetchLength_eq, Fetched]
  split_ifs with hfirst hsecond
  · rw [Bool.and_eq_true] at hsecond
    exact ⟨fun hi => ⟨hi, Or.inr hsecond.2⟩, fun hi => hi.1⟩
  · constructor
    · intro hi
      exact ⟨by omega, Or.inl hi⟩
    · rintro ⟨hi, hlt | hr⟩
      · exact hlt
      · have hfull : ¬ firstChunk rip < 32 := fun hlt =>
          hsecond (Bool.and_eq_true_iff.mpr ⟨decide_eq_true hlt, hr⟩)
        omega
  · exact lt_takeWhile_range_iff _ 32 i

/-! ## Steps over code bytes -/

/-- The guest's bytes from `RIP` on. -/
def Machine.code (m : Machine) (i : ℕ) : Byte := m.mem.bytes (m.cpu.ctx.rip + BitVec.ofNat 64 i)

/-- The byte at index `i` is readable guest memory. -/
def Machine.readsByte (m : Machine) (i : ℕ) : Bool :=
  m.mem.readable (m.cpu.ctx.rip + BitVec.ofNat 64 i) 1

/-- The byte at index `i` belongs to the instruction at `RIP`: no instruction of the guest's bytes
ends in front of it. -/
def Belongs (m : Machine) (i : ℕ) : Prop :=
  ∀ fuel p, prefixLoop m.code fuel {} = some p →
    i < (formOf (opCase p.opcode) m.code p).length m.code

/-- Whatever the step from `m` returns, it is neither a fault nor a report. -/
def Executes (m : Machine) : Prop :=
  ∀ out, executeOne m = .ok out → out.result ≠ .Fault ∧ out.result ≠ .Unimplemented

/-- The step from `m` executes only real code bytes. -/
structure OnlyCodeBytes (m : Machine) : Prop where
  unreadable : (∃ i, Belongs m i ∧ m.readsByte i = false) →
    executeOne m = .ok { result := .Fault, machine := m }
  padding : ∀ ip p, Decodes m ip p → Executes m →
    consumed (opCase p.opcode) ip p ≤ fetchLength m.mem m.cpu.ctx.rip

/-- Every byte of the instruction is readable. -/
def CodeReadable (m : Machine) : Prop := ∀ i, Belongs m i → m.readsByte i = true

/-- Every byte that the case of the instruction consumes is fetched. -/
def CodeFetched (m : Machine) : Prop :=
  ∃ p, scanPrefixes m.code = some p ∧
    ∀ i < consumed (opCase p.opcode) m.code p, Fetched m.mem m.cpu.ctx.rip i

/-- The step declines what it has decoded. -/
def StepDeclines (m : Machine) : Prop :=
  ∃ ip p, Decodes m ip p ∧ Declines (opCase p.opcode) ip p m.guest

section Steps

variable {m : Machine} {ip : ℕ → Byte} {p : Prefixes}

theorem codeBuf_eq_code {i : ℕ} (hi : i < fetchLength m.mem m.cpu.ctx.rip) :
    codeBuf m.mem m.cpu.ctx.rip (fetchLength m.mem m.cpu.ctx.rip) i = m.code i := if_pos hi

/-- A decoded instruction consumes fetched bytes only if and only if the guest's own does. -/
theorem codeFetched_iff (hd : Decodes m ip p) :
    CodeFetched m ↔ consumed (opCase p.opcode) ip p ≤ fetchLength m.mem m.cpu.ctx.rip := by
  have hbuf := fetch_eq_some hd.fetch_eq
  constructor
  · rintro ⟨q, hq, hall⟩
    have hle : consumed (opCase q.opcode) m.code q ≤ fetchLength m.mem m.cpu.ctx.rip := by
      by_contra hlt
      exact lt_irrefl _ (lt_fetchLength_iff.mpr (hall _ (not_le.mp hlt)))
    obtain ⟨hscan, hsame⟩ := scan_congr (fun i hi => codeBuf_eq_code hi) hq hle
    rw [← hbuf, hd.scan_eq] at hscan
    cases hscan
    rw [hbuf, hsame]
    exact hle
  · intro hle
    rw [hbuf] at hle
    obtain ⟨hscan, hsame⟩ := scan_congr (fun i hi => (codeBuf_eq_code hi).symm)
      (hbuf ▸ hd.scan_eq) hle
    refine ⟨p, hscan, fun i hi => ?_⟩
    rw [hsame] at hi
    exact lt_fetchLength_iff.mp (hi.trans_le hle)

/-- A step executes what it has decoded if and only if it does not decline it. -/
theorem executes_iff (hd : Decodes m ip p) :
    Executes m ↔ ¬ Declines (opCase p.opcode) ip p m.guest := by
  rw [execCase_declines_iff]
  constructor
  · rintro h ⟨e, he, hres⟩
    obtain ⟨hfault, hun⟩ := h _ (executeOne_eq_finish hd he)
    exact hres.elim hfault hun
  · intro h out hout
    obtain ⟨e, he, rfl⟩ := exists_finish_of_decodes hd hout
    exact not_or.mp fun hres => h ⟨e, he, hres⟩

/-- Only a fault in front of the switch leaves everything as it was: the switch counts a fault. -/
theorem executeOne_eq_self_iff :
    executeOne m = .ok { result := .Fault, machine := m } ↔ FetchFaults m := by
  refine ⟨fun h => ?_, executeOne_of_fetchFaults⟩
  rcases executeOne_cases h with ⟨hf, -⟩ | ⟨-, heq⟩ | ⟨ip, p, e, hd, he, heq⟩
  · exact hf
  · cases congrArg StepOutcome.result heq
  · have hres : e.result = .Fault := (congrArg StepOutcome.result heq).symm
    have hknown : ¬ UnknownVector (opCase p.opcode) ip p := by
      rintro ⟨hcase, h3, h80⟩
      rw [hcase, execCase, execInt_unknown ip p m.guest h3 h80] at he
      cases he
      cases hres
    have hstat := execCase_counted hknown e he
    rw [hres] at hstat
    have hsame : m.cpu.stats.faults = m.cpu.stats.faults + 1 := by
      have hstats := congrArg (fun out => out.machine.cpu.stats.faults) heq
      simp only [Machine.finish, hstat] at hstats
      exact hstats
    exact absurd hsame (by bv_omega)

end Steps

/-- **Only real code bytes, exactly.** -/
theorem onlyCodeBytes_iff (m : Machine) :
    OnlyCodeBytes m ↔ FetchFaults m ∨
      CodeReadable m ∧ (StopsAtBreakpoint m ∨ CodeFetched m ∨ StepDeclines m) := by
  constructor
  · intro h
    refine or_iff_not_imp_left.mpr fun hf => ⟨fun i hi => ?_, ?_⟩
    · by_contra hno
      exact hf (executeOne_eq_self_iff.mp (h.unreadable ⟨i, hi, by simpa using hno⟩))
    · rcases fetchFaults_or_stops_or_decodes m with hf' | hstop | ⟨ip, p, hd⟩
      · exact absurd hf' hf
      · exact Or.inl hstop
      · by_cases hdec : Declines (opCase p.opcode) ip p m.guest
        · exact Or.inr (Or.inr ⟨ip, p, hd, hdec⟩)
        · exact Or.inr (Or.inl ((codeFetched_iff hd).mpr
            (h.padding ip p hd ((executes_iff hd).mpr hdec))))
  · rintro (hf | ⟨hread, hrest⟩)
    · exact ⟨fun _ => executeOne_of_fetchFaults hf,
        fun ip p hd => absurd hd (not_decodes_of_fetchFaults hf)⟩
    · refine ⟨fun ⟨i, hi, hno⟩ => ?_, fun ip p hd hexec => ?_⟩
      · rw [hread i hi] at hno
        cases hno
      · rcases hrest with hstop | hfetched | ⟨ip', p', hd', hdec⟩
        · have hbp := hd.no_breakpoint
          rw [hstop.2] at hbp
          cases hbp
        · exact (codeFetched_iff hd).mp hfetched
        · exact absurd hdec ((executes_iff hd').mp hexec)

/-- MOV RAX, imm64 at 0x1FFE, with nothing readable but the page in front of 0x2000. -/
def movImmAtEdge : Machine where
  cpu := { ctx := { rip := 0x1FFE } }
  mem :=
    { bytes := ByteStore.write (fun _ => 0x90) 0x1FFE [0x48, 0xB8]
      readable := fun addr n => 0x1000 ≤ addr.toNat ∧ addr.toNat + n ≤ 0x2000
      writable := fun _ _ => false }

/-- The step over `movImmAtEdge` moves padding to RAX and returns `Ok`. -/
theorem not_onlyCodeBytes_movImmAtEdge : ¬ ∀ m, OnlyCodeBytes m := by
  intro h
  have hbelongs : Belongs movImmAtEdge 2 := by
    intro fuel p hp
    rcases fuel with _ | _ | fuel
    · cases hp
    · cases hp
    · cases hp
      decide
  have hfault := (h movImmAtEdge).unreadable ⟨2, hbelongs, by decide⟩
  have hok : (executeOne movImmAtEdge).toOption.map StepOutcome.result = some .Ok := by decide
  rw [hfault] at hok
  exact absurd hok (by decide)

end Cpu
