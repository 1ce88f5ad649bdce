/-
# Values in buckets

A list of bounds parts the values of a linear order: a value belongs to the first bound it does not
exceed, or behind the last one.  Each bucket has a counter, in whatever numbers, and the counters
are added up until a target is reached.

* `bucketOf_le_iff`: the first buckets hold the values up to a bound;
* `sum_take_counts`: so their counters add up to the number of these values;
* `firstReaching_eq_some_iff`: the place where the totals reach a target.
-/
import Mathlib

namespace Buckets

/-! ## Places of values -/

section Places

variable {α : Type*} [LinearOrder α] {bounds : List α} {v : α} {i : ℕ}

/-- The bucket of a value: the first bound it does not exceed, or the one behind them all. -/
def bucketOf (bounds : List α) (v : α) : ℕ := bounds.findIdx fun b => v ≤ b

theorem bucketOf_le_length : bucketOf bounds v ≤ bounds.length := List.findIdx_le_length

theorem bucketOf_le_iff (hsorted : bounds.Pairwise (· < ·)) (hi : i < bounds.length) :
    bucketOf bounds v ≤ i ↔ v ≤ bounds[i] := by
  constructor
  · intro h
    have hlt : bucketOf bounds v < bounds.length := lt_of_le_of_lt h hi
    have hbound : v ≤ bounds[bucketOf bounds v] :=
      of_decide_eq_true (List.findIdx_getElem (w := hlt))
    refine hbound.trans ?_
    rcases h.eq_or_lt with heq | hlt'
    · exact le_of_eq (getElem_congr_idx heq)
    · exact (List.pairwise_iff_getElem.mp hsorted _ _ hlt hi hlt').le
  · intro h
    by_contra hnot
    exact absurd h (of_decide_eq_false (List.not_of_lt_findIdx (Nat.lt_of_not_le hnot)))

/-- The bucket behind all bounds. -/
theorem bucketOf_eq_length_iff : bucketOf bounds v = bounds.length ↔ ∀ b ∈ bounds, b < v := by
  rw [bucketOf, List.findIdx_eq_length]
  simp

end Places

/-! ## Counters -/

section Counters

variable {α : Type*} [LinearOrder α] {M : Type*} [AddMonoidWithOne M]
  {bounds values : List α} {v : α} {k : ℕ}

/-- The counter of each bucket. -/
def counts (M : Type*) [AddMonoidWithOne M] (bounds values : List α) : List M :=
  (List.range (bounds.length + 1)).map fun i =>
    ((values.countP fun v => bucketOf bounds v = i : ℕ) : M)

@[simp] theorem length_counts : (counts M bounds values).length = bounds.length + 1 := by
  rw [counts, List.length_map, List.length_range]

theorem counts_nil : counts M bounds [] = List.replicate (bounds.length + 1) 0 := by
  rw [List.eq_replicate_iff]
  refine ⟨length_counts, fun c hc => ?_⟩
  obtain ⟨i, -, rfl⟩ := List.mem_map.mp hc
  exact Nat.cast_zero

/-- One more value is one more in its bucket. -/
theorem counts_concat :
    counts M bounds (values ++ [v]) =
      (counts M bounds values).modify (bucketOf bounds v) (· + 1) := by
  apply List.ext_getElem
  · rw [List.length_modify, length_counts, length_counts]
  · intro i hi hi'
    rw [List.getElem_modify]
    simp only [counts, List.getElem_map, List.getElem_range, List.countP_append,
      List.countP_singleton, decide_eq_true_eq]
    by_cases h : bucketOf bounds v = i
    · rw [if_pos h, if_pos h, Nat.cast_add, Nat.cast_one]
    · rw [if_neg h, if_neg h, add_zero]

theorem countP_le_succ {β : Type*} (f : β → ℕ) (l : List β) (k : ℕ) :
    (l.countP fun x => f x ≤ k + 1) =
      (l.countP fun x => f x ≤ k) + l.countP fun x => f x = k + 1 := by
  induction l with
  | nil => rfl
  | cons x l ih =>
      simp only [List.countP_cons, ih, decide_eq_true_eq]
      split_ifs <;> omega

/-- **The first counters** add up to the number of values in their buckets. -/
theorem sum_take_counts (hk : k ≤ bounds.length) :
    ((counts M bounds values).take (k + 1)).sum =
      ((values.countP fun v => bucketOf bounds v ≤ k : ℕ) : M) := by
  rw [counts, ← List.map_take, List.take_range, Nat.min_eq_left (by omega)]
  clear hk
  induction k with
  | zero => simp
  | succ k ih =>
      rw [List.range_succ, List.map_append, List.sum_append, ih, countP_le_succ,
        Nat.cast_add]
      simp

end Counters

/-! ## Running totals -/

section Totals

variable {M : Type*} [AddMonoid M] [LE M] [DecidableLE M] {target : M}

/-- The place of the counter with which the total reaches the target. -/
def firstReaching (target cumulative : M) : List M → Option ℕ
  | [] => none
  | c :: counts =>
    if target ≤ cumulative + c then some 0
    else (firstReaching target (cumulative + c) counts).map (· + 1)

theorem isLeast_iff_of_succ {S T : Set ℕ} {k : ℕ} (hzero : 0 ∉ S)
    (hsucc : ∀ j, j + 1 ∈ S ↔ j ∈ T) : IsLeast S k ↔ ∃ j, IsLeast T j ∧ j + 1 = k := by
  constructor
  · intro h
    cases k with
    | zero => exact absurd h.1 hzero
    | succ k =>
        refine ⟨k, ⟨(hsucc k).mp h.1, fun j hj => ?_⟩, rfl⟩
        exact Nat.le_of_succ_le_succ (h.2 ((hsucc j).mpr hj))
  · rintro ⟨j, hj, rfl⟩
    refine ⟨(hsucc j).mpr hj.1, fun i hi => ?_⟩
    cases i with
    | zero => exact absurd hi hzero
    | succ i => exact Nat.succ_le_succ (hj.2 ((hsucc i).mp hi))

/-- It is the first place at which the total is not below the target. -/
theorem firstReaching_eq_some_iff {cumulative : M} {counts : List M} {k : ℕ} :
    firstReaching target cumulative counts = some k ↔
      IsLeast {k | k < counts.length ∧ target ≤ cumulative + (counts.take (k + 1)).sum} k := by
  induction counts generalizing cumulative k with
  | nil => exact iff_of_false nofun fun h => absurd h.1.1 (Nat.not_lt_zero k)
  | cons c counts ih =>
      have hzero : (0 ∈ {k | k < (c :: counts).length ∧
          target ≤ cumulative + ((c :: counts).take (k + 1)).sum}) ↔ target ≤ cumulative + c := by
        simp
      rw [firstReaching]
      by_cases hreach : target ≤ cumulative + c
      · rw [if_pos hreach, Option.some.injEq]
        constructor
        · rintro rfl
          exact ⟨hzero.mpr hreach, fun _ _ => Nat.zero_le _⟩
        · intro h
          exact (Nat.le_zero.mp (h.2 (hzero.mpr hreach))).symm
      · rw [if_neg hreach, Option.map_eq_some_iff,
          isLeast_iff_of_succ fun h => hreach (hzero.mp h)]
        · exact exists_congr fun j => and_congr_left' ih
        · intro j
          simp [add_assoc]

end Totals

end Buckets
