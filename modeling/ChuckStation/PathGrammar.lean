/-
# Path grammars

Paths as strings over any alphabet, cut into components at the characters that separate, and
walked component by component: a dot stays, two dots ascend, a name descends.

* `pieces` / `components`: the cut, and the cut without empty pieces;
* `joined`: components with a separator before each;
* `walk`: where the components lead, as a number of steps up and the names down from there.
-/
import Mathlib

namespace PathGrammar

variable {α : Type*}

/-! ## Cutting -/

/-- The pieces of `s` between separators, after the characters `cur` of the first one.  A
separator at the very end opens no piece. -/
def pieces (sep : α → Bool) : List α → List α → List (List α)
  | [], [] => []
  | c :: cur, [] => [c :: cur]
  | cur, c :: s => if sep c then cur :: pieces sep [] s else pieces sep (cur ++ [c]) s

/-- The pieces that are not empty. -/
def components (sep : α → Bool) (s : List α) : List (List α) :=
  (pieces sep [] s).filter fun c => !c.isEmpty

/-- The components with a separator before each of them. -/
def joined (slash : α) (cs : List (List α)) : List α := cs.flatMap fun c => slash :: c

section Pieces

variable {sep : α → Bool} {cur s c : List α} {slash : α}

theorem sep_of_mem_pieces (hcur : ∀ x ∈ cur, sep x = false) (hc : c ∈ pieces sep cur s) :
    ∀ x ∈ c, sep x = false := by
  induction s generalizing cur with
  | nil =>
      cases cur with
      | nil => cases hc
      | cons y cur =>
          rw [pieces, List.mem_singleton] at hc
          rw [hc]
          exact hcur
  | cons y s ih =>
      rw [pieces] at hc
      split_ifs at hc with hy
      · rcases List.mem_cons.mp hc with rfl | hc
        · exact hcur
        · exact ih (fun x hx => absurd hx List.not_mem_nil) hc
      · refine ih (fun x hx => ?_) hc
        rcases List.mem_append.mp hx with hx | hx
        · exact hcur x hx
        · rw [List.mem_singleton.mp hx]
          exact Bool.eq_false_of_not_eq_true hy

/-- Cutting at a separator. -/
theorem filter_pieces_append (hslash : sep slash = true) (cur s t : List α) :
    (pieces sep cur (s ++ slash :: t)).filter (fun c => !c.isEmpty) =
      (pieces sep cur s).filter (fun c => !c.isEmpty) ++ components sep t := by
  induction s generalizing cur with
  | nil =>
      rw [List.nil_append]
      cases cur with
      | nil => simp [pieces, hslash, components]
      | cons y cur => simp [pieces, hslash, components]
  | cons y s ih =>
      rw [List.cons_append, pieces, pieces]
      cases hy : sep y with
      | true =>
          rw [if_pos rfl, if_pos rfl, List.filter_cons, List.filter_cons, ih]
          split_ifs <;> rfl
      | false =>
          rw [if_neg Bool.false_ne_true, if_neg Bool.false_ne_true, ih]

theorem components_append (hslash : sep slash = true) (s t : List α) :
    components sep (s ++ slash :: t) = components sep s ++ components sep t :=
  filter_pieces_append hslash [] s t

/-- A string without a separator is one piece. -/
theorem components_of_no_sep (hc : c ≠ []) (hsep : ∀ x ∈ c, sep x = false) :
    components sep c = [c] := by
  have hpieces : ∀ cur s : List α, cur ++ s ≠ [] → (∀ x ∈ s, sep x = false) →
      pieces sep cur s = [cur ++ s] := by
    intro cur s
    induction s generalizing cur with
    | nil =>
        intro hne _
        cases cur with
        | nil => exact absurd rfl hne
        | cons y cur => simp [pieces]
    | cons y s ih =>
        intro hne hs
        obtain ⟨hy, hs⟩ := List.forall_mem_cons.mp hs
        rw [pieces, hy, if_neg Bool.false_ne_true, ih _ (by simp) hs]
        simp
  rw [components, hpieces [] c hc hsep]
  cases c with
  | nil => exact absurd rfl hc
  | cons y c => rfl

/-- Components that were joined are cut apart again. -/
theorem components_joined {cs : List (List α)} (hslash : sep slash = true)
    (hcs : ∀ c ∈ cs, c ≠ [] ∧ ∀ x ∈ c, sep x = false) :
    components sep (joined slash cs) = cs := by
  induction cs with
  | nil => rfl
  | cons c cs ih =>
      obtain ⟨⟨hne, hsep⟩, hrest⟩ := List.forall_mem_cons.mp hcs
      have hstep : ∀ s : List α, components sep (slash :: s) = components sep s :=
        components_append hslash []
      rw [joined, List.flatMap_cons, List.cons_append, hstep, ← joined]
      cases cs with
      | nil =>
          rw [joined, List.flatMap_nil, List.append_nil]
          exact components_of_no_sep hne hsep
      | cons d ds =>
          have htail : components sep (d ++ joined slash ds) = d :: ds := by
            rw [← hstep]
            exact ih hrest
          have hcut : joined slash (d :: ds) = slash :: (d ++ joined slash ds) := rfl
          rw [hcut, components_append hslash, htail, components_of_no_sep hne hsep]
          rfl

/-- What follows a separator inside joined components is a name and the joined rest. -/
theorem joined_eq_append {cs : List (List α)} (hcs : ∀ c ∈ cs, slash ∉ c)
    (h : joined slash cs = s ++ slash :: c) :
    ∃ d ds, d :: ds <:+ cs ∧ c = d ++ joined slash ds := by
  induction cs generalizing s with
  | nil => simp [joined] at h
  | cons d ds ih =>
      obtain ⟨hd, hds⟩ := List.forall_mem_cons.mp hcs
      rw [joined, List.flatMap_cons, ← joined] at h
      cases s with
      | nil =>
          refine ⟨d, ds, List.suffix_refl _, ?_⟩
          simpa using h.symm
      | cons y s =>
          simp only [List.cons_append, List.cons.injEq] at h
          -- The separator found lies behind the name `d`.
          rcases List.append_eq_append_iff.mp h.2 with ⟨s', hs', hrest⟩ | ⟨s', hd', hrest⟩
          · obtain ⟨e, es, hsuffix, hc⟩ := ih hds hrest
            exact ⟨e, es, hsuffix.trans (List.suffix_cons d ds), hc⟩
          · cases s' with
            | nil =>
                obtain ⟨e, es, hsuffix, hc⟩ := ih hds (s := []) (by simpa using hrest.symm)
                exact ⟨e, es, hsuffix.trans (List.suffix_cons d ds), hc⟩
            | cons z s' =>
                simp only [List.cons_append, List.cons.injEq] at hrest
                refine absurd ?_ hd
                rw [hd', ← hrest.1]
                simp

end Pieces

/-! ## Walking -/

section Walk

variable [DecidableEq α] (here up : List α)

/-- One component: how far up from the start, and the names down from there. -/
def walkStep (l : ℕ × List (List α)) (c : List α) : ℕ × List (List α) :=
  if c = here then l
  else if c = up then if l.2 = [] then (l.1 + 1, []) else (l.1, l.2.dropLast)
  else (l.1, l.2 ++ [c])

/-- Where the components lead. -/
def walk (cs : List (List α)) : ℕ × List (List α) := cs.foldl (walkStep here up) (0, [])

/-- A name, not one of the two kinds of dots. -/
def Name (c : List α) : Prop := c ≠ here ∧ c ≠ up

/-- Going on from where `l` leads by what `m` leads to. -/
def follow (l m : ℕ × List (List α)) : ℕ × List (List α) :=
  if m.1 ≤ l.2.length then (l.1, l.2.take (l.2.length - m.1) ++ m.2)
  else (l.1 + (m.1 - l.2.length), m.2)

variable {here up}

theorem follow_walkStep (l m : ℕ × List (List α)) (c : List α) :
    walkStep here up (follow l m) c = follow l (walkStep here up m c) := by
  obtain ⟨u, ns⟩ := m
  by_cases hhere : c = here
  · rw [walkStep, walkStep, if_pos hhere, if_pos hhere]
  rw [walkStep, walkStep, if_neg hhere, if_neg hhere]
  by_cases hup : c = up
  · rw [if_pos hup, if_pos hup]
    -- A step up drops a name, of `m` or of what `m` follows.
    by_cases hns : ns = []
    · -- Nothing is left to drop behind `m`, so the step goes up from there.
      subst hns
      rw [if_pos rfl]
      rcases Nat.lt_trichotomy u l.2.length with hlt | heq | hgt
      · have htake : l.2.take (l.2.length - u) ≠ [] := by
          rw [Ne, List.take_eq_nil_iff]
          rintro (hzero | hnil)
          · omega
          · rw [hnil] at hlt
            exact absurd hlt (Nat.not_lt_zero u)
        have hdrop : (l.2.take (l.2.length - u)).dropLast = l.2.take (l.2.length - (u + 1)) := by
          rw [List.dropLast_eq_take, List.take_take, List.length_take]
          congr 1
          omega
        simp only [follow, if_pos hlt.le, if_pos (show u + 1 ≤ l.2.length from hlt),
          List.append_nil, if_neg htake, hdrop]
      · subst heq
        simp [follow]
      · have hnot : ¬ u ≤ l.2.length := by omega
        have hnot' : ¬ u + 1 ≤ l.2.length := by omega
        simp only [follow, if_neg hnot, if_neg hnot', if_pos]
        congr 1
        omega
    · rw [if_neg hns]
      by_cases hle : u ≤ l.2.length
      · have hne : l.2.take (l.2.length - u) ++ ns ≠ [] := by simp [hns]
        simp only [follow, if_pos hle, if_neg hne, List.dropLast_append_of_ne_nil hns]
      · simp only [follow, if_neg hle, if_neg hns]
  · rw [if_neg hup, if_neg hup]
    by_cases hle : u ≤ l.2.length
    · simp only [follow, if_pos hle, List.append_assoc]
    · simp only [follow, if_neg hle]

theorem walk_append (xs ys : List (List α)) :
    walk here up (xs ++ ys) = follow (walk here up xs) (walk here up ys) := by
  induction ys using List.reverseRecOn with
  | nil => simp [walk, follow]
  | append_singleton ys c ih =>
      have hlast : ∀ zs : List (List α),
          walk here up (zs ++ [c]) = walkStep here up (walk here up zs) c := by
        intro zs
        simp only [walk, List.foldl_append, List.foldl_cons, List.foldl_nil]
      rw [← List.append_assoc, hlast, hlast, ih, follow_walkStep]

/-- Names lead down by themselves. -/
theorem walk_of_names {cs : List (List α)} (h : ∀ c ∈ cs, Name here up c) :
    walk here up cs = (0, cs) := by
  induction cs using List.reverseRecOn with
  | nil => rfl
  | append_singleton cs c ih =>
      have hc : Name here up c := h c (by simp)
      have hcs : walk here up cs = (0, cs) := ih fun d hd => h d (List.mem_append_left _ hd)
      rw [walk, List.foldl_append, ← walk, hcs]
      simp only [List.foldl_cons, List.foldl_nil, walkStep, if_neg hc.1, if_neg hc.2]

end Walk

end PathGrammar
