/-
# Triples for machines

A machine goes from state to state by a partial step; where the step gives nothing, it has come
to its end.  `Triple next P n Q` says that from every state with `P` the machine makes `n` steps
and is then in a state with `Q`.

* `Triple.seq`, `Triple.iterate`: one part of a run after another, and the same part again;
* `Simulates.triple`: a triple of one machine is a triple of every machine that simulates it.
-/
import Mathlib.Algebra.Group.Nat.Defs
import Mathlib.Order.Basic

namespace MachineTriples

variable {σ τ : Type*}

/-- The state after `n` steps. -/
def after (next : σ → Option σ) : ℕ → σ → Option σ
  | 0, s => some s
  | n + 1, s => (next s).bind (after next n)

/-- From `P` the machine comes to `Q` in `n` steps. -/
def Triple (next : σ → Option σ) (P : σ → Prop) (n : ℕ) (Q : σ → Prop) : Prop :=
  ∀ s, P s → ∃ t, after next n s = some t ∧ Q t

section Runs

variable {next : σ → Option σ} {s t u : σ} {m n : ℕ}

theorem after_succ (h : next s = some t) : after next (n + 1) s = after next n t := by
  rw [after, h, Option.bind_some]

theorem after_one (h : next s = some t) : after next 1 s = some t := after_succ h

/-- A run of several steps begins with one. -/
theorem after_succ_eq_some (h : after next (n + 1) s = some u) :
    ∃ t, next s = some t ∧ after next n t = some u := by
  rw [after] at h
  exact Option.bind_eq_some_iff.mp h

/-- One run goes on where the other one ends. -/
theorem after_add (hfirst : after next m s = some t) (hlast : after next n t = some u) :
    after next (m + n) s = some u := by
  induction m generalizing s with
  | zero =>
      cases hfirst
      rwa [Nat.zero_add]
  | succ m ih =>
      obtain ⟨s', hstep, hrest⟩ := after_succ_eq_some hfirst
      rw [Nat.succ_add, after_succ hstep]
      exact ih hrest

end Runs

/-! ## Rules -/

namespace Triple

variable {next : σ → Option σ} {P Q R : σ → Prop} {m n : ℕ}

/-- Nothing is done. -/
theorem skip (P : σ → Prop) : Triple next P 0 P := fun s hs => ⟨s, rfl, hs⟩

/-- One run. -/
theorem of_after {s t : σ} (h : after next n s = some t) : Triple next (· = s) n (· = t) := by
  rintro _ rfl
  exact ⟨t, h, rfl⟩

/-- One step. -/
theorem of_step (h : ∀ s, P s → ∃ t, next s = some t ∧ Q t) : Triple next P 1 Q := by
  intro s hs
  obtain ⟨t, hstep, ht⟩ := h s hs
  exact ⟨t, after_one hstep, ht⟩

/-- One part after the other. -/
theorem seq (hfirst : Triple next P m Q) (hlast : Triple next Q n R) :
    Triple next P (m + n) R := by
  intro s hs
  obtain ⟨t, hrun, ht⟩ := hfirst s hs
  obtain ⟨u, hrun', hu⟩ := hlast t ht
  exact ⟨u, after_add hrun hrun', hu⟩

/-- A part that is run `k` times. -/
theorem iterate {I : ℕ → σ → Prop} {k : ℕ} (h : ∀ j < k, Triple next (I j) n (I (j + 1))) :
    Triple next (I 0) (k * n) (I k) := by
  induction k with
  | zero =>
      rw [Nat.zero_mul]
      exact skip (I 0)
  | succ k ih =>
      rw [Nat.succ_mul]
      exact (ih fun j hj => h j (Nat.lt_succ_of_lt hj)).seq (h k (Nat.lt_succ_self k))

end Triple

/-! ## Simulation -/

/-- Whatever step the first machine makes, the second one makes from a related state, too. -/
def Simulates (next : σ → Option σ) (next' : τ → Option τ) (R : σ → τ → Prop) : Prop :=
  ∀ s t s', R s t → next s = some s' → ∃ t', next' t = some t' ∧ R s' t'

namespace Simulates

variable {next : σ → Option σ} {next' : τ → Option τ} {R : σ → τ → Prop}

/-- So it makes every run. -/
theorem run (h : Simulates next next' R) {n : ℕ} {s s' : σ} {t : τ} (hR : R s t)
    (hrun : after next n s = some s') : ∃ t', after next' n t = some t' ∧ R s' t' := by
  induction n generalizing s t with
  | zero =>
      cases hrun
      exact ⟨t, rfl, hR⟩
  | succ n ih =>
      obtain ⟨u, hstep, hrest⟩ := after_succ_eq_some hrun
      obtain ⟨v, hstep', hR'⟩ := h s t u hR hstep
      obtain ⟨t', hrun', hend⟩ := ih hR' hrest
      exact ⟨t', (after_succ hstep').trans hrun', hend⟩

/-- **Triples carry over.** -/
theorem triple (h : Simulates next next' R) {P Q : σ → Prop} {n : ℕ} (ht : Triple next P n Q) :
    Triple next' (fun t => ∃ s, R s t ∧ P s) n fun t => ∃ s, R s t ∧ Q s := by
  rintro t ⟨s, hR, hs⟩
  obtain ⟨s', hrun, hs'⟩ := ht s hs
  obtain ⟨t', hrun', hR'⟩ := h.run hR hrun
  exact ⟨t', hrun', s', hR', hs'⟩

end Simulates

end MachineTriples
