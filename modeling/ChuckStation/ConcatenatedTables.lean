/-
# Tables read one after another

Entries of several tables, read in order and put into one list.  An entry that cannot be read is
left out, and once one cannot, none that follows can.  An entry of a table is then found in the
list at its own place in the table exactly if the list repeats what was read before the table.
-/
import Mathlib

namespace ConcatenatedTables

variable {α : Type*} {x : α} {entries entries' before after : List (Option α)} {xs : List α}
  {f f' f'' : Bool} {b c : ℕ}

/-- Entries as a source gives them that has failed before (`f`) or not and has failed afterwards
(`f'`) or not: those that were read, and after them those that were not. -/
def Settles (f : Bool) (entries : List (Option α)) (f' : Bool) : Prop :=
  ∃ (xs : List α) (c : ℕ), entries = xs.map some ++ List.replicate c none ∧
    (f = true → xs = []) ∧ (0 < c → f' = true) ∧ (f = true → f' = true)

theorem settles_nil (h : f = true → f' = true) : Settles f ([] : List (Option α)) f' :=
  ⟨[], 0, rfl, fun _ => rfl, fun hc => absurd hc (lt_irrefl 0), h⟩

theorem settles_none : Settles f [(none : Option α)] true :=
  ⟨[], 1, rfl, fun _ => rfl, fun _ => rfl, fun _ => rfl⟩

theorem settles_some (h : f = false) : Settles f [some x] f' := by
  subst h
  refine ⟨[x], 0, rfl, fun h => ?_, fun h => ?_, fun h => ?_⟩
  · cases h
  · exact absurd h (lt_irrefl 0)
  · cases h

/-- One read after another. -/
theorem Settles.append (h : Settles f entries f') (h' : Settles f' entries' f'') :
    Settles f (entries ++ entries') f'' := by
  obtain ⟨xs, c, rfl, hxs, hc, hf⟩ := h
  obtain ⟨ys, d, rfl, hys, hd, hf'⟩ := h'
  rcases Nat.eq_zero_or_pos c with rfl | hpos
  · refine ⟨xs ++ ys, d, by simp, fun h => ?_, hd, fun h => hf' (hf h)⟩
    rw [hxs h, hys (hf h)]
    rfl
  · -- After an entry that could not be read there are no others.
    have hfailed := hc hpos
    rw [hys hfailed]
    refine ⟨xs, c + d, ?_, hxs, fun _ => hf' hfailed, fun h => hf' (hf h)⟩
    rw [List.map_nil, List.nil_append, List.append_assoc, List.replicate_append_replicate]

/-- What was read of all the tables. -/
theorem reduceOption_of_settled (h : entries = xs.map some ++ List.replicate c none) :
    entries.reduceOption = xs := by
  rw [h, List.reduceOption_append, List.reduceOption_replicate_none, List.append_nil,
    List.reduceOption, List.filterMap_map]
  exact List.filterMap_some

/-- Each entry is in the list or was not read. -/
theorem getElem?_of_settled (h : entries = xs.map some ++ List.replicate c none) {i : ℕ}
    (hi : i < entries.length) : entries[i]? = some xs[i]? := by
  subst h
  by_cases hread : i < xs.length
  · rw [List.getElem?_append_left (by simpa using hread), List.getElem?_map,
      List.getElem?_eq_getElem hread, Option.map_some]
  · have hle : xs.length ≤ i := not_lt.mp hread
    rw [List.getElem?_append_right (by simpa using hle), List.length_map,
      List.getElem?_replicate, if_pos, List.getElem?_eq_none hle]
    simp only [List.length_append, List.length_map, List.length_replicate] at hi
    omega

/-! ## Places -/

/-- A sequence repeats itself at a distance exactly if it repeats its beginning. -/
theorem repeats_iff {β : Type*} {g : ℕ → β} {n m : ℕ} (hn : 0 < n) :
    (∀ i < m, g (n + i) = g i) ↔ ∀ i < m, g (n + i) = g (i % n) := by
  -- What holds for the places before it, holds for a place.
  have hback : ∀ i < m, (∀ j < i, g (n + j) = g (j % n)) → g i = g (i % n) := by
    intro i _ hbefore
    by_cases hlt : i < n
    · rw [Nat.mod_eq_of_lt hlt]
    · have hsub : n + (i - n) = i := by omega
      calc g i = g (n + (i - n)) := by rw [hsub]
        _ = g ((i - n) % n) := hbefore _ (by omega)
        _ = g (i % n) := by rw [← Nat.mod_eq_sub_mod (not_lt.mp hlt)]
  constructor
  · intro h i
    induction i using Nat.strong_induction_on with
    | _ i ih =>
        intro hi
        rw [h i hi]
        exact hback i hi fun j hj => ih j hj (by omega)
  · intro h i hi
    rw [h i hi, hback i hi fun j hj => h j (by omega)]

/-- **The entries of a table are found at their places** in the list of all that were read exactly
if nothing was read before the table, or all its entries were read and repeat what was. -/
theorem found_iff (h : before ++ entries ++ after = xs.map some ++ List.replicate c none) (b : ℕ) :
    (∀ i < b, i < entries.length → entries[i]? = some xs[i]?) ↔
      before.reduceOption = [] ∨
        ∀ i < b, i < entries.length →
          entries[i]? = some before.reduceOption[i % before.reduceOption.length]? := by
  have hentry : ∀ i < entries.length, entries[i]? = some xs[before.length + i]? := by
    intro i hi
    rw [← getElem?_of_settled h (by simp; omega), List.append_assoc,
      List.getElem?_append_right (Nat.le_add_right _ _), Nat.add_sub_cancel_left,
      List.getElem?_append_left hi]
  have hmin : ∀ P : ℕ → Prop, (∀ i < b, i < entries.length → P i) ↔
      ∀ i < min b entries.length, P i := by
    intro P
    simp only [lt_min_iff, and_imp]
  have hsplit := h
  rw [List.append_assoc] at hsplit
  by_cases hall : before.length ≤ xs.length
  · -- All before the table was read.
    have hbefore : before = (xs.take before.length).map some := by
      have htake := congrArg (List.take before.length) hsplit
      rw [List.take_left, List.take_append_of_le_length (by simpa using hall),
        ← List.map_take] at htake
      exact htake
    have hread : before.reduceOption = xs.take before.length :=
      reduceOption_of_settled (c := 0) (by simpa using hbefore)
    have hlen : (xs.take before.length).length = before.length := by
      rw [List.length_take, min_eq_left hall]
    have hplace : ∀ i < min b entries.length, entries[i]? = some xs[before.length + i]? :=
      fun i hi => hentry i (lt_min_iff.mp hi).2
    rw [hread, hlen, hmin, hmin]
    rcases Nat.eq_zero_or_pos before.length with hzero | hpos
    · refine iff_of_true (fun i hi => ?_) (.inl ?_)
      · rw [hplace i hi, hzero, zero_add]
      · rw [hzero, List.take_zero]
    · have hne : xs.take before.length ≠ [] := by
        intro hnil
        rw [hnil] at hlen
        exact absurd hlen hpos.ne
      rw [or_iff_right hne]
      calc (∀ i < min b entries.length, entries[i]? = some xs[i]?)
          ↔ ∀ i < min b entries.length, xs[before.length + i]? = xs[i]? := by
            refine forall_congr' fun i => forall_congr' fun hi => ?_
            rw [hplace i hi, Option.some.injEq]
        _ ↔ ∀ i < min b entries.length, xs[before.length + i]? = xs[i % before.length]? :=
            repeats_iff (g := fun i => xs[i]?) hpos
        _ ↔ ∀ i < min b entries.length,
              entries[i]? = some (xs.take before.length)[i % before.length]? := by
            refine forall_congr' fun i => forall_congr' fun hi => ?_
            rw [hplace i hi, List.getElem?_take_of_lt (Nat.mod_lt i hpos), Option.some.injEq]
  · -- Not all before the table was read, so nothing of the table was.
    have hfew : xs.length < before.length := not_le.mp hall
    have hnone : ∀ i < entries.length, entries[i]? = some none := by
      intro i hi
      rw [hentry i hi, List.getElem?_eq_none (by omega)]
    have hread : before.reduceOption = xs := by
      have htake := congrArg (List.take before.length) hsplit
      rw [List.take_left, List.take_append, List.take_of_length_le (by simpa using hfew.le),
        List.take_replicate] at htake
      exact reduceOption_of_settled htake
    rw [hread, hmin, hmin]
    by_cases hxs : xs = []
    · refine iff_of_true (fun i hi => ?_) (.inl hxs)
      rw [hnone i (lt_min_iff.mp hi).2, hxs, List.getElem?_nil]
    · have hpos : 0 < xs.length := List.length_pos_of_ne_nil hxs
      rw [or_iff_right hxs]
      -- The first place of the list is taken, and not by the table.
      have hfirst : ¬ (some none : Option (Option α)) = some xs[0]? := by
        rw [List.getElem?_eq_getElem hpos, Option.some.injEq]
        exact (Option.some_ne_none _).symm
      rcases Nat.eq_zero_or_pos (min b entries.length) with hzero | hsome
      · rw [hzero]
        exact iff_of_true (fun i hi => absurd hi (Nat.not_lt_zero i))
          fun i hi => absurd hi (Nat.not_lt_zero i)
      · refine iff_of_false (fun hall => ?_) fun hall => ?_
        · have hzero := hall 0 hsome
          rw [hnone 0 (lt_min_iff.mp hsome).2] at hzero
          exact hfirst hzero
        · have hzero := hall 0 hsome
          rw [hnone 0 (lt_min_iff.mp hsome).2, Nat.zero_mod] at hzero
          exact hfirst hzero

end ConcatenatedTables
