/-
# Operations with results

A deterministic system whose operations answer.  Two systems that simulate each other, as long
as the operations meet a guard, give the same answers to a sequence of operations.
-/
import ChuckStation.OperationRuns

namespace OperationRuns

variable {σ τ α β : Type*}

/-- What the operations of the run from `s` answer. -/
def results (step : σ → α → σ × β) : σ → List α → List β
  | _, [] => []
  | s, a :: as => (step s a).2 :: results step (step s a).1 as

variable {step : σ → α → σ × β} {step' : τ → α → τ × β} {s : σ} {t : τ} {as : List α}

theorem length_results : (results step s as).length = as.length := by
  induction as generalizing s with
  | nil => rfl
  | cons a as ih => exact congrArg (· + 1) ih

theorem results_append (as bs : List α) :
    results step s (as ++ bs) =
      results step s as ++ results step (as.foldl (fun s a => (step s a).1) s) bs := by
  induction as generalizing s with
  | nil => rfl
  | cons a as ih =>
      show _ :: results step (step s a).1 (as ++ bs) = _
      rw [ih]
      rfl

/-- **Simulation.**  The guard is asked of the second system. -/
theorem results_eq {R : σ → τ → Prop} {G : τ → α → Prop}
    (hstep : ∀ s t a, R s t → G t a →
      (step s a).2 = (step' t a).2 ∧ R (step s a).1 (step' t a).1)
    (hR : R s t) (h : AllSteps (fun t a => (step' t a).1) G t as) :
    results step s as = results step' t as := by
  induction as generalizing s t with
  | nil => rfl
  | cons a as ih =>
      obtain ⟨hguard, hrest⟩ := h
      obtain ⟨hanswer, hnext⟩ := hstep s t a hR hguard
      show _ :: _ = _ :: _
      rw [hanswer, ih hnext hrest]

/-- A quantity that never falls is below a bound throughout a run that ends below it. -/
theorem allSteps_lt {step : σ → α → σ} {f : σ → ℕ} {n : ℕ} (hmono : ∀ s a, f s ≤ f (step s a))
    (h : f (as.foldl step s) < n) : AllSteps step (fun s a => f (step s a) < n) s as := by
  have hle : ∀ (as : List α) (s : σ), f s ≤ f (as.foldl step s) := by
    intro as
    induction as with
    | nil => exact fun s => le_refl _
    | cons a as ih => exact fun s => (hmono s a).trans (ih _)
  induction as generalizing s with
  | nil => trivial
  | cons a as ih => exact ⟨(hle as _).trans_lt h, ih h⟩

end OperationRuns
