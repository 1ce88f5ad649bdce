/-
# What a run of steps shows

A deterministic machine whose step shows something and moves on, or stops with an error.  `observe`
collects what a number of steps show and says how they end.

Two rules are enough for most statements about such a machine:

* `observe_of_unwinding`: where related states show the same and stay related, the runs from them
  show the same and end alike;
* `observe_ok`: what holds of no step and carries over from the rest of a run to the run with one
  more step in front holds of every run.
-/
import Mathlib.Data.List.Basic

namespace Observations

universe u v w

variable {σ : Type u} {ω : Type v} {ε : Type w}

/-- What `n` steps show, and the state behind them or the error that stopped them. -/
def observe (next : σ → Except ε (ω × σ)) : ℕ → σ → List ω × Except ε σ
  | 0, s => ([], .ok s)
  | n + 1, s =>
      match next s with
      | .error e => ([], .error e)
      | .ok (o, t) =>
          let rest := observe next n t
          (o :: rest.1, rest.2)

/-- Two ends of a run: the same error, or related values. -/
inductive Alike {α : Type u} {β : Type v} (R : α → β → Prop) : Except ε α → Except ε β → Prop where
  | error (e : ε) : Alike R (.error e) (.error e)
  | ok {a : α} {b : β} (h : R a b) : Alike R (.ok a) (.ok b)

theorem Alike.map {α γ : Type u} {β δ : Type v} {R : α → β → Prop} {S : γ → δ → Prop} {f : α → γ}
    {g : β → δ} {x : Except ε α} {y : Except ε β} (h : Alike R x y)
    (hfg : ∀ a b, R a b → S (f a) (g b)) : Alike S (x.map f) (y.map g) := by
  cases h with
  | error e => exact .error e
  | ok hab => exact .ok (hfg _ _ hab)

variable {next : σ → Except ε (ω × σ)} {n : ℕ} {s t : σ}

theorem observe_succ_of_error {e : ε} (h : next s = .error e) :
    observe next (n + 1) s = ([], .error e) := by
  rw [observe, h]

theorem observe_succ_of_ok {o : ω} (h : next s = .ok (o, t)) :
    observe next (n + 1) s = (o :: (observe next n t).1, (observe next n t).2) := by
  rw [observe, h]

/-! ## Two runs -/

/-- Related states step alike: both stop with the same error, or both show the same and stay
related. -/
def Unwinding (next : σ → Except ε (ω × σ)) (R : σ → σ → Prop) : Prop :=
  ∀ s t, R s t → Alike (fun a b => a.1 = b.1 ∧ R a.2 b.2) (next s) (next t)

/-- **Unwinding**: the runs from related states show the same and end alike. -/
theorem observe_of_unwinding {R : σ → σ → Prop} (hR : Unwinding next R) (h : R s t) (n : ℕ) :
    (observe next n s).1 = (observe next n t).1 ∧
      Alike R (observe next n s).2 (observe next n t).2 := by
  induction n generalizing s t with
  | zero => exact ⟨rfl, .ok h⟩
  | succ n ih =>
      have hstep := hR s t h
      cases hs : next s with
      | error e =>
          rw [hs] at hstep
          cases ht : next t with
          | error e' =>
              rw [ht] at hstep
              cases hstep
              rw [observe_succ_of_error hs, observe_succ_of_error ht]
              exact ⟨rfl, .error e⟩
          | ok b =>
              rw [ht] at hstep
              cases hstep
      | ok a =>
          rw [hs] at hstep
          cases ht : next t with
          | error e' =>
              rw [ht] at hstep
              cases hstep
          | ok b =>
              rw [ht] at hstep
              obtain ⟨o, s'⟩ := a
              obtain ⟨o', t'⟩ := b
              cases hstep with
              | ok hab =>
                  obtain ⟨ho, hst⟩ := hab
                  obtain ⟨hshow, hend⟩ := ih hst
                  rw [observe_succ_of_ok hs, observe_succ_of_ok ht]
                  exact ⟨congrArg₂ List.cons ho hshow, hend⟩

/-! ## One run -/

/-- **A run from its steps**: what holds of no step, and of a step in front of a run that it holds
of, holds of every run that does not stop with an error. -/
theorem observe_ok {T : σ → List ω → σ → Prop} (hnil : ∀ s, T s [] s)
    (hcons : ∀ s o t os r, next s = .ok (o, t) → T t os r → T s (o :: os) r)
    (h : (observe next n s).2 = .ok t) : T s (observe next n s).1 t := by
  induction n generalizing s with
  | zero =>
      cases h
      exact hnil _
  | succ n ih =>
      cases hs : next s with
      | error e =>
          rw [observe_succ_of_error hs] at h
          cases h
      | ok a =>
          rw [observe_succ_of_ok hs] at h ⊢
          exact hcons s a.1 a.2 _ t hs (ih h)

end Observations
