/-
# Arithmetic safety

The interpreter evaluates guest arithmetic with host operators.  Every shift it evaluates
has a count below the operand width, and a zero divisor is reported as a fault, but
IDIV of `INT64_MIN` by -1 is handed to the host, where its quotient does not exist.
-/
import ChuckStation.CpuEffects

namespace Cpu

section

variable {m : Machine}

/-- The step from `m` is a division without a quotient: by zero, or of `INT64_MIN` by -1. -/
def DividesUndefined (m : Machine) : Prop :=
  ∃ ip p, Decodes m ip p ∧ (DividesByZero (opCase p.opcode) ip p m.guest ∨
    IdivOverflows (opCase p.opcode) ip p m.guest)

/-- The step from `m` is an IDIV of `INT64_MIN` by -1. -/
def OverflowsAt (m : Machine) : Prop :=
  ∃ ip p, Decodes m ip p ∧ IdivOverflows (opCase p.opcode) ip p m.guest

/-- The step from `m` evaluates defined host operations only, and reports a division
without a quotient as a fault. -/
structure HostSafe (m : Machine) : Prop where
  defined : ∃ out, executeOne m = .ok out
  reported : DividesUndefined m → ∀ out, executeOne m = .ok out → out.result = .Fault

/-- Outside an overflowing IDIV a step has a defined result. -/
theorem executeOne_ok (h : ¬ OverflowsAt m) : ∃ out, executeOne m = .ok out := by
  rcases fetchFaults_or_stops_or_decodes m with hf | hs | ⟨ip, p, hd⟩
  · exact ⟨_, executeOne_of_fetchFaults hf⟩
  · exact ⟨_, executeOne_of_stops hs⟩
  · have hovf : ¬ IdivOverflows (opCase p.opcode) ip p m.guest := fun ho => h ⟨ip, p, hd, ho⟩
    obtain ⟨e, he⟩ := execCase_ok hovf
    exact ⟨m.finish e, executeOne_eq_finish hd he⟩

theorem executeOne_of_overflowsAt (h : OverflowsAt m) :
    executeOne m = .error .quotientOverflow := by
  obtain ⟨ip, p, hd, ho⟩ := h
  rw [executeOne_of_decodes hd, execCase_of_idivOverflows ho]
  rfl

/-- A zero divisor is reported. -/
theorem fault_of_dividesByZero {ip : ℕ → Byte} {p : Prefixes} (hd : Decodes m ip p)
    (hz : DividesByZero (opCase p.opcode) ip p m.guest) {out : StepOutcome}
    (hout : executeOne m = .ok out) : out.result = .Fault := by
  rw [executeOne_of_decodes hd, execCase_of_dividesByZero hz] at hout
  cases hout
  rfl

theorem hostSafe_iff_not_overflowsAt : HostSafe m ↔ ¬ OverflowsAt m := by
  constructor
  · intro hsafe ho
    obtain ⟨out, hout⟩ := hsafe.defined
    rw [executeOne_of_overflowsAt ho] at hout
    cases hout
  · intro ho
    refine ⟨executeOne_ok ho, ?_⟩
    rintro ⟨ip, p, hd, hdiv | hdiv⟩ out hout
    · exact fault_of_dividesByZero hd hdiv hout
    · exact absurd ⟨ip, p, hd, hdiv⟩ ho

/-- **Arithmetic safety, exactly.**  A machine runs safely for any number of steps if and
only if no state it reaches is about to divide `INT64_MIN` by -1. -/
theorem hostSafe_run_iff (m : Machine) :
    (∀ n, ∃ m', runSteps n m = .ok m' ∧ HostSafe m') ↔
      ∀ n m', runSteps n m = .ok m' → ¬ OverflowsAt m' := by
  constructor
  · intro hsafe n m' hrun
    obtain ⟨m'', hrun', hm''⟩ := hsafe n
    cases hrun.symm.trans hrun'
    exact hostSafe_iff_not_overflowsAt.mp hm''
  · intro hno n
    induction n with
    | zero => exact ⟨m, rfl, hostSafe_iff_not_overflowsAt.mpr (hno 0 m rfl)⟩
    | succ n ih =>
        obtain ⟨m', hrun, hm'⟩ := ih
        obtain ⟨out, hout⟩ := hm'.defined
        have hrun' := runSteps_snoc hrun hout
        exact ⟨out.machine, hrun', hostSafe_iff_not_overflowsAt.mpr (hno _ _ hrun')⟩

end

/-- IDIV RCX with `INT64_MIN` in RAX and -1 in RCX. -/
def idivOverflow : Machine where
  cpu :=
    { ctx :=
        { gpr := Function.update (Function.update (fun _ => 0) Reg.RAX int64Min) Reg.RCX (-1)
          rip := 0x1000 } }
  mem :=
    { bytes := ByteStore.write (fun _ => 0x90) 0x1000 [0x48, 0xF7, 0xF9]
      readable := fun _ _ => true
      writable := fun _ _ => true }

/-- The first step from `idivOverflow` is undefined on the host. -/
theorem not_hostSafe_idivOverflow :
    ¬ ∀ m n, ∃ m', runSteps n m = .ok m' ∧ HostSafe m' := by
  intro h
  obtain ⟨m', hrun, -⟩ := h idivOverflow 1
  have hundef : executeOne idivOverflow = .error .quotientOverflow := by rfl
  rw [runSteps, hundef] at hrun
  cases hrun

end Cpu
