/-
# Tokens of a monitor

Calls that wait for tokens on the condition variables of a monitor, where every call that brings
a token notifies one of those who wait.  Several threads may be on their way at once, and others
may take the token before they arrive; all the same no token lies there with nobody coming.

* `Rations`: what the calls do with the tokens.
* `tokens_balanced_run`: while somebody is blocked, there are as many threads on their way as tokens.
-/
import ChuckStation.MonitorWakeups

namespace Monitor

open OperationRuns

variable {ι σ κ ρ γ : Type*}

/-! ## Threads on their way -/

variable [DecidableEq γ] [Fintype ι] {C : Signals γ κ} {M : Monitor σ κ ρ}
  {s : Scheduled ι σ κ ρ} {tokens : γ → σ → ℕ} {g : γ} {t u : ι} {place place' : ι → Place κ}

/-- The threads on their way to a condition variable. -/
def wayTo (C : Signals γ κ) (g : γ) (place : ι → Place κ) : Finset ι :=
  Finset.univ.filter fun t => (place t).onTheWay C g = true

/-- While somebody is blocked, there are as many threads on their way as there are tokens. -/
def Balanced (C : Signals γ κ) (tokens : γ → σ → ℕ) (s : Scheduled ι σ κ ρ) : Prop :=
  ∀ g, (∃ t, (s.place t).blockedOn C g = true) → tokens g s.shared ≤ (wayTo C g s.place).card

/-- What waits on a condition variable waits for a token, takes one when it goes on, and brings
at most one for a condition variable that it notifies. -/
structure Rations (C : Signals γ κ) (M : Monitor σ κ ρ) (tokens : γ → σ → ℕ) : Prop where
  empty : ∀ c v, M.ready c v = false → tokens (C.waitsOn c) v = 0
  brings : ∀ c v g, M.ready c v = true →
    tokens g (M.run c v).1 ≤ tokens g v + if C.notifies c = some g then 1 else 0
  takes : ∀ c v, M.ready c v = true → (∃ v', M.ready c v' = false) →
    tokens (C.waitsOn c) (M.run c v).1 + 1 ≤
      tokens (C.waitsOn c) v + if C.notifies c = some (C.waitsOn c) then 1 else 0

/-- Calls that wait are such as may have to. -/
def MayWait (M : Monitor σ κ ρ) (s : Scheduled ι σ κ ρ) : Prop :=
  ∀ t c, (s.place t).pending = some c → ∃ v, M.ready c v = false

theorem mem_wayTo : t ∈ wayTo C g place ↔ (place t).onTheWay C g = true := by
  rw [wayTo, Finset.mem_filter, and_iff_right (Finset.mem_univ t)]

variable [DecidableEq ι]

/-- All but one are still on their way. -/
theorem card_wayTo_le (C : Signals γ κ) (g : γ) (t : ι) (place place' : ι → Place κ)
    (h : ∀ v, v ≠ t → (place v).onTheWay C g = true → (place' v).onTheWay C g = true) :
    (wayTo C g place).card ≤
      (wayTo C g place').card + if (place t).onTheWay C g = true then 1 else 0 := by
  have hsub : (wayTo C g place).erase t ⊆ wayTo C g place' := by
    intro v hv
    obtain ⟨hne, hmem⟩ := Finset.mem_erase.mp hv
    exact mem_wayTo.mpr (h v hne (mem_wayTo.mp hmem))
  have hcard := Finset.card_le_card hsub
  split_ifs with ht
  · rw [Finset.card_erase_of_mem (mem_wayTo.mpr ht)] at hcard
    omega
  · rw [Finset.erase_eq_of_notMem fun hmem => ht (mem_wayTo.mp hmem)] at hcard
    omega

/-- All but one are still on their way, and another one is too. -/
theorem card_wayTo_lt (h : ∀ v, v ≠ t → (place v).onTheWay C g = true →
    (place' v).onTheWay C g = true) (hu : (place' u).onTheWay C g = true)
    (hnew : u = t ∨ (place u).onTheWay C g = false) :
    (wayTo C g place).card + 1 ≤
      (wayTo C g place').card + if (place t).onTheWay C g = true then 1 else 0 := by
  have hnotMem : u ∉ (wayTo C g place).erase t := by
    intro hmem
    obtain ⟨hne, hway⟩ := Finset.mem_erase.mp hmem
    rcases hnew with heq | hfalse
    · exact hne heq
    · rw [mem_wayTo, hfalse] at hway
      cases hway
  have hsub : insert u ((wayTo C g place).erase t) ⊆ wayTo C g place' := by
    intro v hv
    rcases Finset.mem_insert.mp hv with rfl | hv
    · exact mem_wayTo.mpr hu
    · obtain ⟨hne, hmem⟩ := Finset.mem_erase.mp hv
      exact mem_wayTo.mpr (h v hne (mem_wayTo.mp hmem))
  have hcard := Finset.card_le_card hsub
  rw [Finset.card_insert_of_notMem hnotMem] at hcard
  split_ifs with ht
  · rw [Finset.card_erase_of_mem (mem_wayTo.mpr ht)] at hcard
    have hpos := Finset.card_pos.mpr ⟨t, mem_wayTo.mpr ht⟩
    omega
  · rw [Finset.erase_eq_of_notMem fun hmem => ht (mem_wayTo.mp hmem)] at hcard
    omega

/-- A notification of one of the others, if one is blocked afterwards. -/
theorem card_notified (hcan : CanWake C g u (Function.update place t .outside))
    (hblocked : ∃ v, (notified C g u (Function.update place t .outside) v).blockedOn C g = true) :
    (wayTo C g place).card + 1 ≤
      (wayTo C g (notified C g u (Function.update place t .outside))).card +
        if (place t).onTheWay C g = true then 1 else 0 := by
  obtain ⟨v, hv⟩ := hblocked
  obtain ⟨hv, hne⟩ := blockedOn_of_notified hv
  have hall : C.all ≠ true := fun hall => hne (Or.inl hall) rfl
  have hu : (Function.update place t .outside u).blockedOn C g = true := by
    rcases hcan with hall' | hu | hnobody
    · exact absurd hall' hall
    · exact hu
    · rw [hnobody v] at hv
      cases hv
  have hut : u ≠ t := by
    rintro rfl
    rw [Function.update_self] at hu
    cases hu
  apply card_wayTo_lt
  · intro v' hv' hway
    apply onTheWay_notified
    rw [Function.update_of_ne hv']
    exact hway
  · exact onTheWay_notified_self hu
  · right
    rw [Function.update_of_ne hut] at hu
    cases hplace : place u with
    | waiting c => rfl
    | outside | woken c | notifying c =>
        rw [hplace] at hu
        cases hu

omit [Fintype ι] in
theorem onTheWay_update_notified {g' : γ} {p : Place κ} {v : ι} (hv : v ≠ t)
    (hway : (place v).onTheWay C g = true) :
    (notified C g' u (Function.update place t p) v).onTheWay C g = true := by
  apply onTheWay_notified
  rw [Function.update_of_ne hv]
  exact hway

omit [Fintype ι] in
theorem blockedOn_of_update {p : Place κ} {v : ι}
    (h : (Function.update place t p v).blockedOn C g = true) (hp : p.blockedOn C g = false) :
    (place v).blockedOn C g = true := by
  by_cases hv : v = t
  · rw [hv, Function.update_self, hp] at h
    cases h
  · rwa [Function.update_of_ne hv] at h

/-! ## One move -/

/-- A thread moves on without touching the tokens. -/
theorem Balanced.setPlace (h : Balanced C tokens s) {s' : Scheduled ι σ κ ρ} {p : Place κ}
    (hshared : s'.shared = s.shared) (hplace : s'.place = Function.update s.place t p)
    (hway : ∀ g, tokens g s.shared = 0 ∨ p.blockedOn C g = false ∧
      ((s.place t).onTheWay C g = true → p.onTheWay C g = true)) : Balanced C tokens s' := by
  rintro g ⟨v, hv⟩
  rw [hshared]
  rcases hway g with hzero | ⟨hp, hkept⟩
  · omega
  · rw [hplace] at hv ⊢
    refine (h g ⟨v, blockedOn_of_update hv hp⟩).trans (Finset.card_le_card fun v' hv' => ?_)
    rw [mem_wayTo] at hv' ⊢
    by_cases hne : v' = t
    · rw [hne, Function.update_self]
      exact hkept (hne ▸ hv')
    · rw [Function.update_of_ne hne]
      exact hv'

/-- A critical section takes and brings tokens. -/
theorem Balanced.completes (hC : Rations C M tokens) (h : Balanced C tokens s)
    (hmay : MayWait M s) {c : κ} {s' : Scheduled ι σ κ ρ}
    (hbefore : s.place t = .outside ∨ s.place t = .woken c)
    (hready : M.ready c s.shared = true) (hshared : s'.shared = (M.run c s.shared).1)
    (hcompletes : Completes C M t c u s s') : Balanced C tokens s' := by
  rintro g ⟨v, hv⟩
  -- Whoever was on the way and is done has taken a token.
  have htokens : tokens g s'.shared + (if (s.place t).onTheWay C g = true then 1 else 0) ≤
      tokens g s.shared + if C.notifies c = some g then 1 else 0 := by
    rw [hshared]
    rcases hbefore with hp | hp
    · rw [hp]
      exact hC.brings c s.shared g hready
    · rw [hp]
      by_cases hg : C.waitsOn c = g
      · have hblocks : ∃ v', M.ready c v' = false := hmay t c (by rw [hp]; rfl)
        have htakes := hC.takes c s.shared hready hblocks
        rw [hg] at htakes
        rw [if_pos (show (Place.woken c).onTheWay C g = true from decide_eq_true hg)]
        exact htakes
      · rw [if_neg (show ¬ (Place.woken c).onTheWay C g = true from
          fun hway => hg (of_decide_eq_true hway))]
        exact hC.brings c s.shared g hready
  cases hcompletes with
  | silent hnotifies hplace =>
      rw [hplace] at hv ⊢
      have hold := h g ⟨v, blockedOn_of_update hv rfl⟩
      have hway := card_wayTo_le C g t s.place (Function.update s.place t .outside)
        fun v' hv' hway => by rwa [Function.update_of_ne hv']
      rw [if_neg (by simp [hnotifies] : ¬ C.notifies c = some g)] at htokens
      omega
  | inside g' hnotifies hcan hplace =>
      rw [hplace] at hv ⊢
      have hold := h g ⟨v, blockedOn_of_update (blockedOn_of_notified hv).1 rfl⟩
      by_cases hg : g' = g
      · subst hg
        have hway := card_notified hcan ⟨v, hv⟩
        rw [if_pos hnotifies] at htokens
        omega
      · have hway := card_wayTo_le C g t s.place
          (notified C g' u (Function.update s.place t .outside))
          fun v' hv' hway => onTheWay_update_notified hv' hway
        have hne : C.notifies c ≠ some g := by
          rw [hnotifies]
          exact fun heq => hg (Option.some.inj heq)
        rw [if_neg hne] at htokens
        omega
  | behind g' hnotifies hplace =>
      rw [hplace] at hv ⊢
      have hold := h g ⟨v, blockedOn_of_update hv rfl⟩
      have hrest : ∀ v', v' ≠ t → (s.place v').onTheWay C g = true →
          (Function.update s.place t (.notifying c) v').onTheWay C g = true := by
        intro v' hv' hway
        rwa [Function.update_of_ne hv']
      by_cases hg : g' = g
      · subst hg
        have hway := card_wayTo_lt (u := t) hrest (by
          rw [Function.update_self]
          exact decide_eq_true hnotifies) (Or.inl rfl)
        rw [if_pos hnotifies] at htokens
        omega
      · have hway := card_wayTo_le _ _ _ _ _ hrest
        have hne : C.notifies c ≠ some g := by
          rw [hnotifies]
          exact fun heq => hg (Option.some.inj heq)
        rw [if_neg hne] at htokens
        omega

theorem Balanced.advance (hC : Rations C M tokens) (h : Balanced C tokens s)
    (hmay : MayWait M s) (m : Move ι κ) : Balanced C tokens (advance C M s m) := by
  cases advance_cases C M s m with
  | nothing hsame =>
      rw [hsame]
      exact h
  | completed t c u hbefore hready hshared hcompletes =>
      exact h.completes hC hmay hbefore hready hshared hcompletes
  | blocked t c hbefore hready hshared hplace =>
      refine h.setPlace hshared hplace fun g => ?_
      by_cases hg : C.waitsOn c = g
      · exact Or.inl (hg ▸ hC.empty c s.shared hready)
      · refine Or.inr ⟨decide_eq_false hg, fun hway => ?_⟩
        rcases hbefore with hp | hp <;> rw [hp] at hway
        · cases hway
        · exact absurd (of_decide_eq_true hway) hg
  | roused t c hbefore hshared hplace =>
      refine h.setPlace hshared hplace fun g => Or.inr ⟨rfl, fun hway => ?_⟩
      rw [hbefore] at hway
      cases hway
  | gaveUp t c hbefore hready hshared hplace =>
      refine h.setPlace hshared hplace fun g => ?_
      by_cases hg : C.waitsOn c = g
      · exact Or.inl (hg ▸ hC.empty c s.shared hready)
      · refine Or.inr ⟨rfl, fun hway => ?_⟩
        rw [hbefore] at hway
        exact absurd (of_decide_eq_true hway) hg
  | notified t c u g' hbefore hnotifies hcan hshared hplace =>
      rintro g ⟨v, hv⟩
      rw [hplace] at hv ⊢
      rw [hshared]
      have hold := h g ⟨v, blockedOn_of_update (blockedOn_of_notified hv).1 rfl⟩
      by_cases hg : g' = g
      · subst hg
        have hcan' : CanWake C g' u (Function.update s.place t .outside) := by
          rcases hcan with hall | hu | hnobody
          · exact Or.inl hall
          · refine Or.inr (Or.inl ?_)
            rw [Function.update_of_ne]
            · exact hu
            · rintro rfl
              rw [hbefore] at hu
              cases hu
          · refine Or.inr (Or.inr fun v' => ?_)
            apply Bool.eq_false_iff.mpr
            intro hv'
            have hblocked := blockedOn_of_update hv' rfl
            rw [hnobody v'] at hblocked
            cases hblocked
        have hway := card_notified hcan' ⟨v, hv⟩
        rw [hbefore, if_pos (show (Place.notifying c).onTheWay C g' = true from
          decide_eq_true hnotifies)] at hway
        omega
      · have hway := card_wayTo_le C g t s.place
          (notified C g' u (Function.update s.place t .outside))
          fun v' hv' hway => onTheWay_update_notified hv' hway
        rw [hbefore, if_neg (show ¬ (Place.notifying c).onTheWay C g = true from fun hway => by
          have heq : C.notifies c = some g := of_decide_eq_true hway
          rw [hnotifies] at heq
          exact hg (Option.some.inj heq))] at hway
        omega

theorem MayWait.advance (h : MayWait M s) (m : Move ι κ) : MayWait M (advance C M s m) := by
  have hupdate : ∀ {t : ι} {p : Place κ}, (∀ c, p.pending = some c → ∃ v, M.ready c v = false) →
      ∀ t' c, (Function.update s.place t p t').pending = some c → ∃ v, M.ready c v = false := by
    intro t p hp t' c hpending
    rw [pending_update] at hpending
    split_ifs at hpending
    · exact hp c hpending
    · exact h t' c hpending
  cases advance_cases C M s m with
  | nothing hsame =>
      rw [hsame]
      exact h
  | completed t c u hbefore hready hshared hcompletes =>
      intro t' c' hpending
      cases hcompletes with
      | silent hnotifies hplace =>
          rw [hplace] at hpending
          exact hupdate (by rintro c ⟨⟩) t' c' hpending
      | inside g hnotifies hcan hplace =>
          rw [hplace, pending_notified] at hpending
          exact hupdate (by rintro c ⟨⟩) t' c' hpending
      | behind g hnotifies hplace =>
          rw [hplace] at hpending
          exact hupdate (by rintro c ⟨⟩) t' c' hpending
  | blocked t c hbefore hready hshared hplace =>
      intro t' c' hpending
      rw [hplace] at hpending
      refine hupdate (fun c'' hc => ?_) t' c' hpending
      cases hc
      exact ⟨s.shared, hready⟩
  | roused t c hbefore hshared hplace =>
      intro t' c' hpending
      rw [hplace] at hpending
      refine hupdate (fun c'' hc => ?_) t' c' hpending
      cases hc
      exact h t c (by rw [hbefore]; rfl)
  | gaveUp t c hbefore hready hshared hplace =>
      intro t' c' hpending
      rw [hplace] at hpending
      exact hupdate (by rintro c ⟨⟩) t' c' hpending
  | notified t c u g hbefore hnotifies hcan hshared hplace =>
      intro t' c' hpending
      rw [hplace, pending_notified] at hpending
      exact hupdate (by rintro c ⟨⟩) t' c' hpending

/-! ## Runs -/

/-- **No token is slept on.**  As long as somebody is blocked, every token has a thread on its
way to it, or to notify. -/
theorem tokens_balanced_run (hC : Rations C M tokens) (shared : σ) (moves : List (Move ι κ)) :
    AllStates (Monitor.advance C M) (Balanced C tokens) { shared := shared } moves := by
  refine allStates_of_allSteps (I := fun s => Balanced C tokens s ∧ MayWait M s)
    (G := fun _ _ => True) (fun _ => And.left)
    (fun _ m h _ => ⟨h.1.advance hC h.2 m, h.2.advance m⟩) ⟨?_, by rintro t c ⟨⟩⟩
    (allSteps_of_forall fun _ _ => trivial)
  rintro g ⟨t, hblocked⟩
  cases hblocked

end Monitor
