/-
# Stack systems

A machine that keeps a list of frames and whose steps push one frame, pop one frame or
leave the frames alone.  Its runs are nested: a balanced run gives the frames back as it
found them, and every frame on the stack was pushed by a step of the run with only a
balanced run behind it.
-/
import Mathlib

/-- A state space with a stack of frames and the three kinds of step on it. -/
structure StackSystem (σ φ : Type*) where
  frames : σ → List φ
  Push : σ → σ → Prop
  Pop : σ → σ → Prop
  Keep : σ → σ → Prop
  push_frames : ∀ {s s' : σ}, Push s s' → ∃ f, frames s' = f :: frames s
  pop_frames : ∀ {s s' : σ}, Pop s s' → frames s' = (frames s).tail
  keep_frames : ∀ {s s' : σ}, Keep s s' → frames s' = frames s

namespace StackSystem

variable {σ φ : Type*} (S : StackSystem σ φ)

/-- One step of any kind. -/
def Step (s s' : σ) : Prop := S.Push s s' ∨ S.Pop s s' ∨ S.Keep s s'

/-- Any number of steps. -/
abbrev Run : σ → σ → Prop := Relation.ReflTransGen S.Step

/-- A run in which every push has its pop. -/
inductive Balanced : σ → σ → Prop where
  | refl (s : σ) : Balanced s s
  | keep {s t s' : σ} : S.Keep s t → Balanced t s' → Balanced s s'
  | nest {s a b t s' : σ} : S.Push s a → Balanced a b → S.Pop b t → Balanced t s' → Balanced s s'

/-- Every frame of `s` was pushed by a step of a run from `s₀`, and is still open. -/
inductive Matched (s₀ : σ) : σ → Prop where
  | empty {s : σ} : S.frames s = [] → Matched s₀ s
  | frame {a b s : σ} : S.Run s₀ a → Matched s₀ a → S.Push a b → S.Balanced b s → Matched s₀ s

variable {S} {s s' s'' s₀ : σ}

/-- A property of every step of a run, from a property of one step. -/
theorem Run.invariant {I : σ → Prop} (hstep : ∀ {s s' : σ}, S.Step s s' → I s → I s')
    (hrun : S.Run s s') (hs : I s) : I s' := by
  induction hrun with
  | refl => exact hs
  | tail _ hlast ih => exact hstep hlast ih

/-! ## Balanced runs -/

theorem Balanced.trans (h : S.Balanced s s') (h' : S.Balanced s' s'') : S.Balanced s s'' := by
  induction h with
  | refl => exact h'
  | keep hk _ ih => exact .keep hk (ih h')
  | nest hpush hin hpop _ _ ih => exact .nest hpush hin hpop (ih h')

/-- What a push and the matching pop leave alone, a balanced run leaves alone. -/
theorem Balanced.preserves {β : Type*} (g : σ → β)
    (hkeep : ∀ {s s' : σ}, S.Keep s s' → g s' = g s)
    (hnest : ∀ {s a b t : σ}, S.Push s a → S.Pop b t → g b = g a → g t = g s)
    (h : S.Balanced s s') : g s' = g s := by
  induction h with
  | refl => rfl
  | keep hk _ ih => exact ih.trans (hkeep hk)
  | nest hpush _ hpop _ ihin ih => exact ih.trans (hnest hpush hpop ihin)

theorem Balanced.frames_eq (h : S.Balanced s s') : S.frames s' = S.frames s := by
  refine h.preserves S.frames S.keep_frames fun hpush hpop hin => ?_
  obtain ⟨f, hf⟩ := S.push_frames hpush
  rw [S.pop_frames hpop, hin, hf, List.tail_cons]

/-! ## Matching pushes -/

theorem Matched.balanced (h : S.Matched s₀ s) (hb : S.Balanced s s') : S.Matched s₀ s' := by
  cases h with
  | empty hs => exact .empty (hb.frames_eq.trans hs)
  | frame hrun ha hpush hopen => exact .frame hrun ha hpush (hopen.trans hb)

theorem matched_of_run (h₀ : S.frames s₀ = []) (hrun : S.Run s₀ s) : S.Matched s₀ s := by
  induction hrun with
  | refl => exact .empty h₀
  | @tail t t' hrun hlast ih =>
      rcases hlast with hpush | hpop | hkeep
      · exact .frame hrun ih hpush (.refl t')
      · cases ih with
        | empty ht =>
            refine .empty ?_
            rw [S.pop_frames hpop, ht, List.tail_nil]
        | frame _ ha hpush hopen => exact ha.balanced (.nest hpush hopen hpop (.refl t'))
      · exact ih.balanced (.keep hkeep (.refl t'))

/-- **The matching push.**  After a run from an empty stack, the top frame was pushed by a
step of the run behind which only a balanced run lies. -/
theorem exists_matching_push (h₀ : S.frames s₀ = []) (hrun : S.Run s₀ s)
    (hne : S.frames s ≠ []) :
    ∃ a b, S.Run s₀ a ∧ S.Push a b ∧ S.Balanced b s ∧ S.frames s = S.frames b := by
  cases matched_of_run h₀ hrun with
  | empty hs => exact absurd hs hne
  | frame hrun _ hpush hopen => exact ⟨_, _, hrun, hpush, hopen, hopen.frames_eq⟩

end StackSystem
