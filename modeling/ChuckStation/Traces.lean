/-
# Observed runs

A deterministic machine that may emit one observation at each step and may stop.
`trace next n s` is what it emits in its first `n` steps from `s`, so that the observed
sequence, finite or not, is the union of the traces.

`sameSequence_iff_of_lockstep` compares two machines that run in lockstep until the second
one gets stuck: they emit the same sequence if and only if the first one has nothing to
emit from then on.
-/
import Mathlib

namespace Traces

variable {σ τ ω : Type*}

/-- What the first `n` steps from `s` emit. -/
def trace (next : σ → Option ω × Option σ) : ℕ → σ → List ω
  | 0, _ => []
  | n + 1, s =>
      (next s).1.toList ++ match (next s).2 with
        | none => []
        | some t => trace next n t

/-- The state after `n` steps, if the machine has not stopped. -/
def stateAt (next : σ → Option ω × Option σ) : ℕ → σ → Option σ
  | 0, s => some s
  | n + 1, s => (next s).2.bind (stateAt next n)

/-- Two families of traces show the same sequence of observations. -/
def SameSequence (a b : ℕ → List ω) : Prop :=
  ∀ (k : ℕ) (x : ω), (∃ n, (a n)[k]? = some x) ↔ ∃ n, (b n)[k]? = some x

section Trace

variable {next : σ → Option ω × Option σ} {s t : σ}

theorem trace_succ_of_none (h : (next s).2 = none) (n : ℕ) :
    trace next (n + 1) s = (next s).1.toList := by
  simp only [trace, h, List.append_nil]

theorem trace_succ_of_some (h : (next s).2 = some t) (n : ℕ) :
    trace next (n + 1) s = (next s).1.toList ++ trace next n t := by
  simp only [trace, h]

/-- Longer runs emit more. -/
theorem trace_prefix_of_le {n m : ℕ} (h : n ≤ m) (s : σ) : trace next n s <+: trace next m s := by
  induction n generalizing m s with
  | zero => exact List.nil_prefix
  | succ n ih =>
      cases m with
      | zero => omega
      | succ m =>
          cases hs : (next s).2 with
          | none => rw [trace_succ_of_none hs, trace_succ_of_none hs]
          | some t =>
              rw [trace_succ_of_some hs, trace_succ_of_some hs, List.prefix_append_right_inj]
              exact ih (by omega) t

/-- A step that emits makes the trace longer. -/
theorem length_trace_lt {j : ℕ} {v : σ} (hstate : stateAt next j s = some v)
    (hemit : (next v).1 ≠ none) : (trace next j s).length < (trace next (j + 1) s).length := by
  induction j generalizing s with
  | zero =>
      cases hstate
      obtain ⟨x, hx⟩ := Option.ne_none_iff_exists'.mp hemit
      simp only [trace, hx, Option.toList_some, List.length_append, List.length_nil,
        List.length_singleton]
      omega
  | succ j ih =>
      cases hs : (next s).2 with
      | none => simp [stateAt, hs] at hstate
      | some t =>
          rw [stateAt, hs, Option.bind_some] at hstate
          rw [trace_succ_of_some hs, trace_succ_of_some hs, List.length_append, List.length_append]
          exact Nat.add_lt_add_left (ih hstate) _

/-- Nothing is emitted while every state is silent. -/
theorem trace_eq_nil (h : ∀ j v, stateAt next j s = some v → (next v).1 = none) (n : ℕ) :
    trace next n s = [] := by
  induction n generalizing s with
  | zero => rfl
  | succ n ih =>
      have hhead : (next s).1 = none := h 0 s rfl
      cases hs : (next s).2 with
      | none => rw [trace_succ_of_none hs, hhead, Option.toList_none]
      | some t =>
          rw [trace_succ_of_some hs, hhead, Option.toList_none, List.nil_append]
          refine ih fun j v hv => h (j + 1) v ?_
          rw [stateAt, hs, Option.bind_some, hv]

end Trace

/-! ## Lockstep -/

section Lockstep

/-- Two machines in lockstep through `R` while `B` does not hold; where it does, the second
one is stuck for good. -/
structure Lockstep (next : τ → Option ω × Option τ) (next' : σ → Option ω × Option σ)
    (R : τ → σ → Prop) (B : τ → Prop) : Prop where
  step : ∀ p s, R p s → ¬ B p →
    (next' s).1 = (next p).1 ∧ Option.Rel R (next p).2 (next' s).2
  stuck : ∀ p s, R p s → B p → ∀ n, trace next' n s = []

variable {next : τ → Option ω × Option τ} {next' : σ → Option ω × Option σ}
  {R : τ → σ → Prop} {B : τ → Prop} {p : τ} {s : σ}

/-- The first machine emits nothing in or after a state with `B`. -/
def SilentAfter (next : τ → Option ω × Option τ) (B : τ → Prop) (p : τ) : Prop :=
  ∀ i j u v, i ≤ j → stateAt next i p = some u → stateAt next j p = some v → B u →
    (next v).1 = none

theorem SilentAfter.step {q : τ} (h : SilentAfter next B p) (hp : (next p).2 = some q) :
    SilentAfter next B q := by
  intro i j u v hij hu hv hB
  refine h (i + 1) (j + 1) u v (by omega) ?_ ?_ hB
  · rw [stateAt, hp, Option.bind_some, hu]
  · rw [stateAt, hp, Option.bind_some, hv]

/-- Silence behind `B` makes the two traces equal, step by step. -/
theorem trace_eq_of_silentAfter (hL : Lockstep next next' R B) (hR : R p s)
    (hsilent : SilentAfter next B p) (n : ℕ) : trace next' n s = trace next n p := by
  induction n generalizing p s with
  | zero => rfl
  | succ n ih =>
      by_cases hB : B p
      · rw [hL.stuck p s hR hB (n + 1)]
        exact (trace_eq_nil (fun j v hv => hsilent 0 j p v (Nat.zero_le j) rfl hv hB) _).symm
      obtain ⟨hemit, hrel⟩ := hL.step p s hR hB
      cases hp : (next p).2 with
      | none =>
          rw [hp] at hrel
          cases hs : (next' s).2 with
          | none => rw [trace_succ_of_none hp, trace_succ_of_none hs, hemit]
          | some t =>
              rw [hs] at hrel
              cases hrel
      | some q =>
          rw [hp] at hrel
          cases hs : (next' s).2 with
          | none =>
              rw [hs] at hrel
              cases hrel
          | some t =>
              rw [hs] at hrel
              cases hrel with
              | some hqt =>
                  rw [trace_succ_of_some hp, trace_succ_of_some hs, hemit,
                    ih hqt (hsilent.step hp)]

/-- The second machine never gets past the first state with `B`. -/
theorem trace_prefix_of_stuck (hL : Lockstep next next' R B) {i : ℕ} {u : τ} (hR : R p s)
    (hu : stateAt next i p = some u) (hB : B u) (n : ℕ) :
    trace next' n s <+: trace next i p := by
  induction i generalizing p s n with
  | zero =>
      cases hu
      rw [hL.stuck _ s hR hB n]
      exact List.nil_prefix
  | succ i ih =>
      by_cases hBp : B p
      · rw [hL.stuck p s hR hBp n]
        exact List.nil_prefix
      obtain ⟨hemit, hrel⟩ := hL.step p s hR hBp
      cases n with
      | zero => exact List.nil_prefix
      | succ n =>
          cases hp : (next p).2 with
          | none => simp [stateAt, hp] at hu
          | some q =>
              rw [stateAt, hp, Option.bind_some] at hu
              rw [hp] at hrel
              cases hs : (next' s).2 with
              | none =>
                  rw [hs] at hrel
                  cases hrel
              | some t =>
                  rw [hs] at hrel
                  cases hrel with
                  | some hqt =>
                      rw [trace_succ_of_some hp, trace_succ_of_some hs, hemit,
                        List.prefix_append_right_inj]
                      exact ih hqt hu n

/-- **Lockstep until stuck.**  Both machines show the same sequence if and only if the
first one emits nothing in or after a state where the second one is stuck. -/
theorem sameSequence_iff_of_lockstep (hL : Lockstep next next' R B) (hR : R p s) :
    SameSequence (fun n => trace next' n s) (fun n => trace next n p) ↔ SilentAfter next B p := by
  constructor
  · intro hsame i j u v hij hu hv hB
    by_contra hemit
    have hlen : (trace next i p).length < (trace next (j + 1) p).length :=
      lt_of_le_of_lt (trace_prefix_of_le hij p).length_le (length_trace_lt hv hemit)
    obtain ⟨n, hn⟩ := (hsame _ _).mpr ⟨j + 1, List.getElem?_eq_getElem hlen⟩
    have hshort := (trace_prefix_of_stuck hL hR hu hB n).length_le
    have hin : _ < (trace next' n s).length := (List.getElem?_eq_some_iff.mp hn).1
    omega
  · intro hsilent k x
    simp only [trace_eq_of_silentAfter hL hR hsilent]

end Lockstep

end Traces
