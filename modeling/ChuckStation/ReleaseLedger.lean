/-
# Ledgers of releases

Resources come in lots.  Whoever acquires a lot leaves copies of the record that describes it
at several places, and each place gives its copy back on its own account, which releases
resources.  The ledger notes for which lot each resource was released, so that one can say
what the copies together must come to: every resource of a lot is released, once.
-/
import Mathlib

/-- What was acquired so far, which lot a place has a copy of, the lots that lost a copy which
nobody gave back, and the releases with the lot of the copy they were made for, last one
first. -/
structure Ledger (π ρ : Type*) where
  lots : List (List ρ) := []
  holds : π → Option ℕ := fun _ => none
  lost : Set ℕ := ∅
  released : List (Option ℕ × ρ) := []

namespace Ledger

variable {π ρ : Type*} {l : Ledger π ρ} {p : π} {k : ℕ} {lot rs : List ρ} {r : ρ}

/-! ## Entries -/

/-- The copies at these places are gone. -/
def forget (q : π → Bool) (l : Ledger π ρ) : Ledger π ρ :=
  { l with
    holds := fun p => if q p then none else l.holds p
    lost := {k | k ∈ l.lost ∨ ∃ p, q p = true ∧ l.holds p = some k} }

/-- A new lot; copies of it take the place of what was there. -/
def acquire [DecidableEq π] (places : List π) (lot : List ρ) (l : Ledger π ρ) : Ledger π ρ :=
  { l.forget (fun p => places.contains p) with
    lots := l.lots ++ [lot]
    holds := fun p => if places.contains p then some l.lots.length else l.holds p }

/-- A place gives its copy back, and these resources are released. -/
def giveBack [DecidableEq π] (p : π) (rs : List ρ) (l : Ledger π ρ) : Ledger π ρ :=
  { l with
    holds := fun p' => if p' = p then none else l.holds p'
    released := rs.map (fun r => (l.holds p, r)) ++ l.released }

/-! ## What the releases come to -/

/-- Only resources of the lot are released for it, none of them twice, and all of them once
every copy was given back. -/
structure ReleasedOnce (l : Ledger π ρ) : Prop where
  whole : ∀ o r, (o, r) ∈ l.released → ∃ k lot, o = some k ∧ l.lots[k]? = some lot ∧ r ∈ lot
  once : l.released.Nodup
  complete : ∀ k lot, l.lots[k]? = some lot → (∀ p, l.holds p ≠ some k) → k ∉ l.lost →
    ∀ r ∈ lot, (some k, r) ∈ l.released

/-- A resource that was acquired and not released. -/
def Outstanding (l : Ledger π ρ) (k : ℕ) (r : ρ) : Prop :=
  (∃ lot, l.lots[k]? = some lot ∧ r ∈ lot) ∧ (some k, r) ∉ l.released

/-- Giving a copy back releases its lot, for the first time; without a copy there is nothing
to release. -/
def Returns (l : Ledger π ρ) (p : π) (rs : List ρ) : Prop :=
  (l.holds p = none ∧ rs = []) ∨
    ∃ k lot, l.holds p = some k ∧ l.lots[k]? = some lot ∧ rs.Perm lot ∧
      ∀ r, (some k, r) ∉ l.released

/-- The invariant: copies are of lots there are, and a lot without a copy lost one or is
released. -/
structure Sound (l : Ledger π ρ) : Prop where
  nodup : ∀ lot ∈ l.lots, lot.Nodup
  known : ∀ p k, l.holds p = some k → k < l.lots.length
  whole : ∀ o r, (o, r) ∈ l.released → ∃ k lot, o = some k ∧ l.lots[k]? = some lot ∧ r ∈ lot
  once : l.released.Nodup
  accounted : ∀ k lot, l.lots[k]? = some lot →
    (∃ p, l.holds p = some k) ∨ k ∈ l.lost ∨ ∀ r ∈ lot, (some k, r) ∈ l.released

theorem Sound.releasedOnce (h : l.Sound) : l.ReleasedOnce where
  whole := h.whole
  once := h.once
  complete := by
    intro k lot hlot hheld hlost
    rcases h.accounted k lot hlot with ⟨p, hp⟩ | hk | hall
    · exact absurd hp (hheld p)
    · exact absurd hk hlost
    · exact hall

theorem sound_empty : ({} : Ledger π ρ).Sound where
  nodup := fun _ hlot => absurd hlot List.not_mem_nil
  known := fun _ _ hk => nomatch hk
  whole := fun _ _ hr => absurd hr List.not_mem_nil
  once := List.nodup_nil
  accounted := fun _ _ hlot => nomatch hlot

/-- What is lost stays acquired. -/
theorem Sound.forget (h : l.Sound) (q : π → Bool) : (l.forget q).Sound where
  nodup := h.nodup
  known := by
    intro p k hk
    rw [Ledger.forget] at hk
    dsimp only at hk
    split_ifs at hk
    exact h.known p k hk
  whole := h.whole
  once := h.once
  accounted := by
    intro k lot hlot
    rcases h.accounted k lot hlot with ⟨p, hp⟩ | hk | hall
    · -- The copy is still there, or it is the one that is lost.
      by_cases hq : q p = true
      · exact .inr (.inl (.inr ⟨p, hq, hp⟩))
      · exact .inl ⟨p, (if_neg hq).trans hp⟩
    · exact .inr (.inl (.inl hk))
    · exact .inr (.inr hall)

section Places

variable [DecidableEq π]

theorem getElem?_acquire (places : List π) (lot : List ρ) (l : Ledger π ρ) {k : ℕ}
    {lot' : List ρ} : (l.acquire places lot).lots[k]? = some lot' ↔
      l.lots[k]? = some lot' ∨ k = l.lots.length ∧ lot' = lot := by
  show (l.lots ++ [lot])[k]? = some lot' ↔ _
  rcases lt_trichotomy k l.lots.length with hlt | rfl | hgt
  · rw [List.getElem?_append_left hlt]
    constructor
    · exact .inl
    · rintro (h | ⟨rfl, -⟩)
      · exact h
      · exact absurd hlt (lt_irrefl _)
  · rw [List.getElem?_append_right le_rfl, Nat.sub_self, List.getElem?_eq_none le_rfl]
    simp [eq_comm]
  · rw [List.getElem?_eq_none (by rw [List.length_append, List.length_singleton]; omega),
      List.getElem?_eq_none (by omega)]
    simp only [reduceCtorEq, false_or, false_iff, not_and]
    omega

/-- A lot is acquired with a copy at least. -/
theorem Sound.acquire (h : l.Sound) {places : List π} (hplaces : places ≠ [])
    (hlot : lot.Nodup) : (l.acquire places lot).Sound where
  nodup := by
    intro lot' hmem
    rcases List.mem_append.mp hmem with hmem | hmem
    · exact h.nodup lot' hmem
    · rw [List.mem_singleton.mp hmem]
      exact hlot
  known := by
    intro p k hk
    rw [Ledger.acquire] at hk ⊢
    dsimp only at hk ⊢
    rw [List.length_append, List.length_singleton]
    split_ifs at hk
    · rw [← Option.some.inj hk]
      exact Nat.lt_succ_self _
    · exact Nat.lt_succ_of_lt (h.known p k hk)
  whole := by
    intro o r hr
    obtain ⟨k, lot', rfl, hlot', hin⟩ := h.whole o r hr
    exact ⟨k, lot', rfl, (getElem?_acquire places lot l).mpr (.inl hlot'), hin⟩
  once := h.once
  accounted := by
    intro k lot' hlot'
    rcases (getElem?_acquire places lot l).mp hlot' with hold | ⟨rfl, -⟩
    · rcases (h.forget fun p => places.contains p).accounted k lot' hold with ⟨p, hp⟩ | hk | hall
      · rw [Ledger.forget] at hp
        dsimp only at hp
        split_ifs at hp with hin
        exact .inl ⟨p, (if_neg hin).trans hp⟩
      · exact .inr (.inl hk)
      · exact .inr (.inr hall)
    · -- The new lot is held by the places it was acquired for.
      obtain ⟨p, hp⟩ := List.exists_mem_of_ne_nil places hplaces
      exact .inl ⟨p, if_pos (List.contains_iff_mem.mpr hp)⟩

/-- **A copy is given back**: nothing is released twice, and the lot is released. -/
theorem Sound.giveBack (h : l.Sound) (hgive : l.Returns p rs) : (l.giveBack p rs).Sound where
  nodup := h.nodup
  known := by
    intro p' k hk
    rw [Ledger.giveBack] at hk
    dsimp only at hk
    split_ifs at hk
    exact h.known p' k hk
  whole := by
    intro o r hr
    rcases List.mem_append.mp hr with hnew | hold
    · obtain ⟨r', hr', heq⟩ := List.mem_map.mp hnew
      obtain ⟨rfl, rfl⟩ := Prod.mk.inj heq
      rcases hgive with ⟨-, rfl⟩ | ⟨k, lot, hk, hlot, hperm, -⟩
      · exact absurd hr' List.not_mem_nil
      · exact ⟨k, lot, hk, hlot, hperm.mem_iff.mp hr'⟩
    · exact h.whole o r hold
  once := by
    rcases hgive with ⟨-, rfl⟩ | ⟨k, lot, hk, hlot, hperm, hfirst⟩
    · exact h.once
    · -- The ranges of one lot differ, and none has been given back before.
      have hnodup := hperm.nodup_iff.mpr (h.nodup lot (List.mem_of_getElem? hlot))
      refine List.Nodup.append (hnodup.map fun a b hab => (Prod.mk.inj hab).2) h.once ?_
      intro e hnew hold
      obtain ⟨r, -, rfl⟩ := List.mem_map.mp hnew
      rw [hk] at hold
      exact hfirst r hold
  accounted := by
    intro k lot hlot
    rcases h.accounted k lot hlot with ⟨p', hp'⟩ | hk | hall
    · by_cases hpp : p' = p
      · -- It is the copy that is given back.
        subst hpp
        right
        right
        rcases hgive with ⟨hnone, -⟩ | ⟨k', lot', hk', hlot', hperm, -⟩
        · rw [hnone] at hp'
          cases hp'
        · rw [hk', Option.some.injEq] at hp'
          subst hp'
          obtain rfl : lot' = lot := Option.some.inj (hlot'.symm.trans hlot)
          intro r hr
          refine List.mem_append_left _ (List.mem_map.mpr ⟨r, hperm.mem_iff.mpr hr, ?_⟩)
          rw [hk']
      · exact .inl ⟨p', (if_neg hpp).trans hp'⟩
    · exact .inr (.inl hk)
    · exact .inr (.inr fun r hr => List.mem_append_right _ (hall r hr))

/-! ## Outstanding resources -/

theorem outstanding_acquire {places : List π} (h : (l.acquire places lot).Outstanding k r) :
    l.Outstanding k r ∨ k = l.lots.length ∧ r ∈ lot := by
  obtain ⟨⟨lot', hlot', hr⟩, hnot⟩ := h
  rcases (getElem?_acquire places lot l).mp hlot' with hold | ⟨rfl, rfl⟩
  · exact .inl ⟨⟨lot', hold, hr⟩, hnot⟩
  · exact .inr ⟨rfl, hr⟩

theorem outstanding_giveBack (h : (l.giveBack p rs).Outstanding k r) :
    l.Outstanding k r ∧ ¬ (l.holds p = some k ∧ r ∈ rs) := by
  obtain ⟨hin, hnot⟩ := h
  refine ⟨⟨hin, fun hold => hnot (List.mem_append_right _ hold)⟩, ?_⟩
  rintro ⟨hk, hr⟩
  refine hnot (List.mem_append_left _ (List.mem_map.mpr ⟨r, hr, ?_⟩))
  rw [hk]

end Places

end Ledger
