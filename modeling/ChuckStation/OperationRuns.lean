/-
# Sequences of operations

A deterministic system under a list of operations.  If in every good state an operation
keeps the state good exactly under a guard, then all states of a run from a good state are
good exactly if every operation of the run meets its guard.

Where operations may fail, a run is `List.foldlM`, and a guard is asked of every operation
the run comes to.
-/
import Mathlib

namespace OperationRuns

universe u

variable {σ α : Type*} (step : σ → α → σ)

/-- Every operation of the run from `s` meets the guard in the state it is applied to. -/
def AllSteps (G : σ → α → Prop) : σ → List α → Prop
  | _, [] => True
  | s, a :: as => G s a ∧ AllSteps G (step s a) as

/-- Every state of the run from `s`, the first and the last included, is good. -/
def AllStates (I : σ → Prop) (s : σ) (as : List α) : Prop :=
  ∀ as', as' <+: as → I (as'.foldl step s)

variable {step} {I : σ → Prop} {s : σ} {a : α} {as : List α}

theorem allSteps_of_forall {G : σ → α → Prop} (h : ∀ s a, G s a) : AllSteps step G s as := by
  induction as generalizing s with
  | nil => trivial
  | cons a as ih => exact ⟨h s a, ih⟩

/-- Operations that keep to a rule `F` of the callers keep an invariant, and meet the guards that
follow from it. -/
theorem allSteps_of_allSteps {F G : σ → α → Prop} (hkeep : ∀ s a, I s → F s a → I (step s a))
    (hmeets : ∀ s a, I s → F s a → G s a) (hs : I s) (h : AllSteps step F s as) :
    AllSteps step G s as := by
  induction as generalizing s with
  | nil => trivial
  | cons a as ih => exact ⟨hmeets s a hs h.1, ih (hkeep s a hs h.1) h.2⟩

theorem allSteps_append {G : σ → α → Prop} {bs : List α} :
    AllSteps step G s (as ++ bs) ↔
      AllSteps step G s as ∧ AllSteps step G (as.foldl step s) bs := by
  induction as generalizing s with
  | nil => exact (and_iff_right trivial).symm
  | cons a as ih => rw [List.cons_append, AllSteps, AllSteps, ih, and_assoc, List.foldl_cons]

theorem allStates_nil : AllStates step I s [] ↔ I s := by
  constructor
  · intro h
    exact h [] List.nil_prefix
  · intro h as' hpre
    rw [List.prefix_nil.mp hpre]
    exact h

theorem allStates_cons :
    AllStates step I s (a :: as) ↔ I s ∧ AllStates step I (step s a) as := by
  constructor
  · intro h
    refine ⟨h [] List.nil_prefix, fun as' hpre => ?_⟩
    exact h (a :: as') (List.cons_prefix_cons.mpr ⟨rfl, hpre⟩)
  · rintro ⟨hs, hrest⟩ as' hpre
    cases as' with
    | nil => exact hs
    | cons b bs =>
        obtain ⟨rfl, hbs⟩ := List.cons_prefix_cons.mp hpre
        exact hrest bs hbs

/-- Guarded operations keep an invariant through a run. -/
theorem allStates_of_allSteps {P : σ → Prop} {G : σ → α → Prop} (hIP : ∀ s, I s → P s)
    (hkeep : ∀ s a, I s → G s a → I (step s a)) (hs : I s) (h : AllSteps step G s as) :
    AllStates step P s as := by
  induction as generalizing s with
  | nil => exact allStates_nil.mpr (hIP s hs)
  | cons a as ih => exact allStates_cons.mpr ⟨hIP s hs, ih (hkeep s a hs h.1) h.2⟩

/-- **From one operation to a run**, by an invariant stronger than the property: an
operation that meets its guard keeps the invariant, one that does not breaks the property. -/
theorem allStates_iff_allSteps_of {P : σ → Prop} {G : σ → α → Prop} (hIP : ∀ s, I s → P s)
    (hkeep : ∀ s, ∀ a ∈ as, I s → G s a → I (step s a))
    (hbreak : ∀ s, ∀ a ∈ as, I s → P (step s a) → G s a) (hs : I s) :
    AllStates step P s as ↔ AllSteps step G s as := by
  induction as generalizing s with
  | nil => exact allStates_nil.trans (iff_true_intro (hIP s hs))
  | cons a as ih =>
      have hkeep' : ∀ s, ∀ b ∈ as, I s → G s b → I (step s b) :=
        fun s b hb => hkeep s b (List.mem_cons_of_mem a hb)
      have hbreak' : ∀ s, ∀ b ∈ as, I s → P (step s b) → G s b :=
        fun s b hb => hbreak s b (List.mem_cons_of_mem a hb)
      rw [allStates_cons, AllSteps]
      constructor
      · rintro ⟨-, hrest⟩
        have hguard : G s a := hbreak s a List.mem_cons_self hs (hrest [] List.nil_prefix)
        have hnext := hkeep s a List.mem_cons_self hs hguard
        exact ⟨hguard, (ih hkeep' hbreak' hnext).mp hrest⟩
      · rintro ⟨hguard, hrest⟩
        have hnext := hkeep s a List.mem_cons_self hs hguard
        exact ⟨hIP s hs, (ih hkeep' hbreak' hnext).mpr hrest⟩

/-- The same when all operations of the run keep to a rule `F` of the callers. -/
theorem allStates_iff_allSteps_under {P : σ → Prop} {F G : σ → α → Prop} (hIP : ∀ s, I s → P s)
    (hkeep : ∀ s a, I s → F s a → G s a → I (step s a))
    (hbreak : ∀ s a, I s → F s a → P (step s a) → G s a) (hs : I s)
    (hrule : AllSteps step F s as) : AllStates step P s as ↔ AllSteps step G s as := by
  induction as generalizing s with
  | nil => exact allStates_nil.trans (iff_true_intro (hIP s hs))
  | cons a as ih =>
      rw [allStates_cons, AllSteps]
      constructor
      · rintro ⟨-, hrest⟩
        have hguard : G s a := hbreak s a hs hrule.1 (hrest [] List.nil_prefix)
        exact ⟨hguard, (ih (hkeep s a hs hrule.1 hguard) hrule.2).mp hrest⟩
      · rintro ⟨hguard, hrest⟩
        exact ⟨hIP s hs, (ih (hkeep s a hs hrule.1 hguard) hrule.2).mpr hrest⟩

theorem allStates_iff_allSteps {G : σ → α → Prop} (h : ∀ s a, I s → (I (step s a) ↔ G s a))
    (hs : I s) : AllStates step I s as ↔ AllSteps step G s as :=
  allStates_iff_allSteps_of (fun _ => id) (fun s a _ hs => (h s a hs).mpr)
    (fun s a _ hs => (h s a hs).mp) hs

/-! ## Operations that may fail -/

section Fallible

variable {ε : Type*} {σ α : Type*} {step : σ → α → Except ε σ} {G : σ → α → Prop}
  {I : σ → Prop} {s s' : σ} {a : α} {as : List α}

/-- Two steps that come through came through one after the other. -/
theorem bind_eq_ok {ε : Type*} {β γ : Type u} {x : Except ε β} {f : β → Except ε γ} {c : γ}
    (h : (x >>= f) = .ok c) : ∃ b, x = .ok b ∧ f b = .ok c := by
  cases x with
  | error e => cases h
  | ok b => exact ⟨b, rfl, h⟩

/-- They come through exactly if the first one does and the second one does behind it. -/
theorem isOk_bind_iff {ε : Type*} {β γ : Type u} {x : Except ε β} {f : β → Except ε γ} :
    (∃ c, (x >>= f) = .ok c) ↔ ∃ b, x = .ok b ∧ ∃ c, f b = .ok c := by
  constructor
  · rintro ⟨c, hc⟩
    obtain ⟨b, hb, hfb⟩ := bind_eq_ok hc
    exact ⟨b, hb, c, hfb⟩
  · rintro ⟨b, rfl, c, hc⟩
    exact ⟨c, hc⟩

/-- A step that comes through is followed by the next one. -/
theorem ok_bind {ε : Type*} {β γ : Type u} (b : β) (f : β → Except ε γ) :
    ((.ok b : Except ε β) >>= f) = f b := rfl

/-- Maps that do the same on the elements of a list do the same along it. -/
theorem mapM_congr {α β : Type u} {l : List α} {f g : α → Option β} (h : ∀ a ∈ l, f a = g a) :
    l.mapM f = l.mapM g := by
  induction l with
  | nil => rfl
  | cons a l ih =>
      rw [List.mapM_cons, List.mapM_cons, h a List.mem_cons_self,
        ih fun b hb => h b (List.mem_cons_of_mem a hb)]

theorem foldlM_cons_eq_ok (h : (a :: as).foldlM step s = .ok s') :
    ∃ t, step s a = .ok t ∧ as.foldlM step t = .ok s' := by
  rw [List.foldlM_cons] at h
  exact bind_eq_ok h

/-- Every operation the run from `s` comes to meets the guard there. -/
def AllReached (step : σ → α → Except ε σ) (G : σ → α → Prop) : σ → List α → Prop
  | _, [] => True
  | s, a :: as => G s a ∧ ∀ t, step s a = .ok t → AllReached step G t as

/-- Every state the run from `s` reaches, the first included, is good. -/
def AllStatesReached (step : σ → α → Except ε σ) (I : σ → Prop) (s : σ) (as : List α) : Prop :=
  ∀ as', as' <+: as → ∀ t, as'.foldlM step s = .ok t → I t

theorem allReached_of_forall (h : ∀ s a, G s a) : AllReached step G s as := by
  induction as generalizing s with
  | nil => trivial
  | cons a as ih => exact ⟨h s a, fun _ _ => ih⟩

theorem allStatesReached_nil : AllStatesReached step I s [] ↔ I s := by
  constructor
  · intro h
    exact h [] List.nil_prefix s rfl
  · intro h as' hpre t ht
    rw [List.prefix_nil.mp hpre] at ht
    cases ht
    exact h

theorem allStatesReached_cons :
    AllStatesReached step I s (a :: as) ↔
      I s ∧ ∀ t, step s a = .ok t → AllStatesReached step I t as := by
  constructor
  · intro h
    refine ⟨h [] List.nil_prefix s rfl, fun t ht as' hpre u hu => ?_⟩
    apply h (a :: as') (List.cons_prefix_cons.mpr ⟨rfl, hpre⟩)
    rw [List.foldlM_cons, ht]
    exact hu
  · rintro ⟨hs, hrest⟩ as' hpre t ht
    cases as' with
    | nil =>
        cases ht
        exact hs
    | cons b bs =>
        obtain ⟨rfl, hbs⟩ := List.cons_prefix_cons.mp hpre
        obtain ⟨u, hu, ht⟩ := foldlM_cons_eq_ok ht
        exact hrest u hu bs hbs t ht

/-- Guarded operations keep an invariant through a run that may fail. -/
theorem allStatesReached_of_allReached {P : σ → Prop} (hIP : ∀ s, I s → P s)
    (hkeep : ∀ s a t, I s → G s a → step s a = .ok t → I t) (hs : I s)
    (h : AllReached step G s as) : AllStatesReached step P s as := by
  induction as generalizing s with
  | nil => exact allStatesReached_nil.mpr (hIP s hs)
  | cons a as ih =>
      refine allStatesReached_cons.mpr ⟨hIP s hs, fun t ht => ?_⟩
      exact ih (hkeep s a t hs h.1 ht) (h.2 t ht)

/-- **From one operation to a run** where operations may fail: an operation that does not
fail keeps the states good exactly under its guard. -/
theorem allStatesReached_iff (h : ∀ s a t, I s → step s a = .ok t → (I t ↔ G s a)) (hs : I s) :
    AllStatesReached step I s as ↔
      AllReached step (fun s a => ∀ t, step s a = .ok t → G s a) s as := by
  constructor
  · intro hall
    induction as generalizing s with
    | nil => trivial
    | cons a as ih =>
        obtain ⟨-, hrest⟩ := allStatesReached_cons.mp hall
        have hstart : ∀ t, step s a = .ok t → I t := fun t ht =>
          hrest t ht [] List.nil_prefix t rfl
        exact ⟨fun t ht => (h s a t hs ht).mp (hstart t ht),
          fun t ht => ih (hstart t ht) (hrest t ht)⟩
  · intro hguards
    exact allStatesReached_of_allReached (fun _ => id)
      (fun s a t hI hG hstep => (h s a t hI hstep).mpr (hG t hstep)) hs hguards

/-- The same by an invariant stronger than the property. -/
theorem allStatesReached_iff_allReached_of {P : σ → Prop} (hIP : ∀ s, I s → P s)
    (hkeep : ∀ s a t, I s → G s a → step s a = .ok t → I t)
    (hbreak : ∀ s a, I s → (∀ t, step s a = .ok t → P t) → G s a) (hs : I s) :
    AllStatesReached step P s as ↔ AllReached step G s as := by
  refine ⟨fun hall => ?_, fun h => allStatesReached_of_allReached hIP hkeep hs h⟩
  induction as generalizing s with
  | nil => trivial
  | cons a as ih =>
      obtain ⟨-, hrest⟩ := allStatesReached_cons.mp hall
      have hguard : G s a := hbreak s a hs fun t ht => hrest t ht [] List.nil_prefix t rfl
      exact ⟨hguard, fun t ht => ih (hkeep s a t hs hguard ht) (hrest t ht)⟩

/-- Two guards that say the same in good states, if the operations that meet them keep the states
good. -/
theorem allReached_congr {H : σ → α → Prop} (h : ∀ s a, I s → (G s a ↔ H s a))
    (hkeep : ∀ s a t, I s → G s a → step s a = .ok t → I t) (hs : I s) :
    AllReached step G s as ↔ AllReached step H s as := by
  induction as generalizing s with
  | nil => exact Iff.rfl
  | cons a as ih =>
      rw [AllReached, AllReached, ← h s a hs]
      exact and_congr_right fun hguard => forall_congr' fun t => imp_congr_right fun ht =>
        ih (hkeep s a t hs hguard ht)

/-- A run comes through exactly if every operation it comes to meets the guard under which that
operation comes through. -/
theorem foldlM_isOk_iff (hok : ∀ s a, I s → ((∃ t, step s a = .ok t) ↔ G s a))
    (hkeep : ∀ s a t, I s → step s a = .ok t → I t) (hs : I s) :
    (∃ t, as.foldlM step s = .ok t) ↔ AllReached step G s as := by
  induction as generalizing s with
  | nil => exact iff_of_true ⟨s, rfl⟩ trivial
  | cons a as ih =>
      constructor
      · rintro ⟨u, hu⟩
        obtain ⟨t, ht, hrest⟩ := foldlM_cons_eq_ok hu
        refine ⟨(hok s a hs).mp ⟨t, ht⟩, fun t' ht' => ?_⟩
        rw [ht] at ht'
        cases ht'
        exact (ih (hkeep s a t hs ht)).mp ⟨u, hrest⟩
      · rintro ⟨hguard, hrest⟩
        obtain ⟨t, ht⟩ := (hok s a hs).mpr hguard
        obtain ⟨u, hu⟩ := (ih (hkeep s a t hs ht)).mpr (hrest t ht)
        refine ⟨u, ?_⟩
        rw [List.foldlM_cons, ht]
        exact hu

/-- The same where the guard is one on the operation alone. -/
theorem foldlM_isOk_iff_forall {P : α → Prop} (hok : ∀ s a, (∃ t, step s a = .ok t) ↔ P a) :
    (∃ t, as.foldlM step s = .ok t) ↔ ∀ a ∈ as, P a := by
  induction as generalizing s with
  | nil => exact iff_of_true ⟨s, rfl⟩ (List.forall_mem_nil P)
  | cons a as ih =>
      rw [List.forall_mem_cons]
      constructor
      · rintro ⟨u, hu⟩
        obtain ⟨t, ht, hrest⟩ := foldlM_cons_eq_ok hu
        exact ⟨(hok s a).mp ⟨t, ht⟩, ih.mp ⟨u, hrest⟩⟩
      · rintro ⟨ha, hrest⟩
        obtain ⟨t, ht⟩ := (hok s a).mpr ha
        obtain ⟨u, hu⟩ := ih.mpr hrest
        refine ⟨u, ?_⟩
        rw [List.foldlM_cons, ht]
        exact hu

end Fallible

end OperationRuns
