/-
# Binary search

`std::lower_bound`: the first position behind all elements that come before a value.  On a
list that has them in front this is how many of them there are, and an insertion there keeps
the list in order.
-/
import Mathlib

namespace BinarySearch

variable {α : Type*}

/-- The loop: `len` elements from `first` on are still in question. -/
def lowerBoundLoop (before : α → Bool) (xs : List α) (first len : ℕ) : ℕ :=
  if len = 0 then first
  else
    let half := len / 2
    if (xs[first + half]?).any before then
      lowerBoundLoop before xs (first + half + 1) (len - half - 1)
    else lowerBoundLoop before xs first half
termination_by len

/-- `std::lower_bound`. -/
def lowerBound (before : α → Bool) (xs : List α) : ℕ := lowerBoundLoop before xs 0 xs.length

/-- Insertion at the lower bound. -/
def insertAt (before : α → Bool) (x : α) (xs : List α) : List α :=
  xs.insertIdx (lowerBound before xs) x

/-- The elements that come before are in front. -/
def Partitioned (before : α → Bool) (xs : List α) : Prop :=
  xs.Pairwise fun a b => before b = true → before a = true

variable {before : α → Bool} {xs : List α}

/-- The elements in front are those that come before. -/
theorem Partitioned.any_getElem? (h : Partitioned before xs) (i : ℕ) :
    (xs[i]?).any before = true ↔ i < (xs.takeWhile before).length := by
  induction xs generalizing i with
  | nil => simp
  | cons a xs ih =>
      obtain ⟨ha, hxs⟩ := List.pairwise_cons.mp h
      by_cases hbefore : before a = true
      · rw [List.takeWhile_cons_of_pos hbefore, List.length_cons]
        cases i with
        | zero => simp [hbefore]
        | succ i =>
            rw [List.getElem?_cons_succ, ih hxs]
            omega
      · -- Nothing behind it comes before either.
        rw [List.takeWhile_cons_of_neg hbefore, List.length_nil]
        refine iff_of_false (fun hany => ?_) (Nat.not_lt_zero i)
        obtain ⟨b, hb, hany⟩ := (Option.any_eq_true _ _).mp hany
        cases List.mem_cons.mp (List.mem_of_getElem? hb) with
        | inl hhead =>
            rw [hhead] at hany
            exact hbefore hany
        | inr hmem => exact hbefore (ha b hmem hany)

theorem lowerBoundLoop_eq (h : Partitioned before xs) {first len : ℕ}
    (hfirst : first ≤ (xs.takeWhile before).length)
    (hlen : (xs.takeWhile before).length ≤ first + len) :
    lowerBoundLoop before xs first len = (xs.takeWhile before).length := by
  induction len using Nat.strong_induction_on generalizing first with
  | _ len ih =>
      rw [lowerBoundLoop]
      by_cases hzero : len = 0
      · rw [if_pos hzero]
        omega
      rw [if_neg hzero]
      dsimp only
      by_cases hmiddle : first + len / 2 < (xs.takeWhile before).length
      · rw [if_pos ((h.any_getElem? _).mpr hmiddle)]
        apply ih
        · omega
        · omega
        · omega
      · rw [if_neg fun hany => hmiddle ((h.any_getElem? _).mp hany)]
        apply ih
        · omega
        · omega
        · omega

theorem lowerBound_eq (h : Partitioned before xs) :
    lowerBound before xs = (xs.takeWhile before).length := by
  apply lowerBoundLoop_eq h
  · omega
  · rw [Nat.zero_add]
    exact (List.takeWhile_prefix before).length_le

theorem insertIdx_length_append (front back : List α) (x : α) :
    (front ++ back).insertIdx front.length x = front ++ x :: back := by
  induction front with
  | nil => exact List.insertIdx_zero
  | cons a front ih =>
      rw [List.cons_append, List.length_cons, List.insertIdx_succ_cons, ih, List.cons_append]

/-- The new element stands between those that come before and the others. -/
theorem insertAt_eq (h : Partitioned before xs) (x : α) :
    insertAt before x xs = xs.takeWhile before ++ x :: xs.dropWhile before := by
  have hsplit : xs.takeWhile before ++ xs.dropWhile before = xs := List.takeWhile_append_dropWhile
  rw [insertAt, lowerBound_eq h]
  generalize xs.takeWhile before = front at hsplit ⊢
  generalize xs.dropWhile before = back at hsplit ⊢
  rw [← hsplit, insertIdx_length_append]

/-- Nothing behind the lower bound comes before. -/
theorem Partitioned.not_before (h : Partitioned before xs) {a : α}
    (ha : a ∈ xs.dropWhile before) : before a = false := by
  induction xs with
  | nil => simp at ha
  | cons b xs ih =>
      obtain ⟨hb, hxs⟩ := List.pairwise_cons.mp h
      by_cases hbefore : before b = true
      · rw [List.dropWhile_cons_of_pos hbefore] at ha
        exact ih hxs ha
      · rw [List.dropWhile_cons_of_neg hbefore] at ha
        rw [Bool.eq_false_iff]
        rcases List.mem_cons.mp ha with hhead | hmem
        · rwa [hhead]
        · exact fun hany => hbefore (hb a hmem hany)

/-- An insertion at the lower bound keeps the order. -/
theorem pairwise_insertAt {r : α → α → Prop} {x : α} (h : Partitioned before xs)
    (hxs : xs.Pairwise r) (hbefore : ∀ a, before a = true → r a x)
    (hafter : ∀ a, before a = false → r x a) : (insertAt before x xs).Pairwise r := by
  have hsplit : (xs.takeWhile before ++ xs.dropWhile before).Pairwise r := by
    rwa [List.takeWhile_append_dropWhile]
  obtain ⟨hfront, hback, hcross⟩ := List.pairwise_append.mp hsplit
  have hfrontx : ∀ a ∈ xs.takeWhile before, r a x := fun a ha =>
    hbefore a (List.mem_takeWhile_imp ha)
  have hxback : ∀ b ∈ xs.dropWhile before, r x b := fun b hb => hafter b (h.not_before hb)
  rw [insertAt_eq h, List.pairwise_append, List.pairwise_cons]
  refine ⟨hfront, ⟨hxback, hback⟩, fun a ha b hb => ?_⟩
  rcases List.mem_cons.mp hb with rfl | hb
  · exact hfrontx a ha
  · exact hcross a ha b hb

/-! ## Insertion, whatever the order -/

theorem lowerBoundLoop_le (first len : ℕ) : lowerBoundLoop before xs first len ≤ first + len := by
  induction len using Nat.strong_induction_on generalizing first with
  | _ len ih =>
      rw [lowerBoundLoop]
      dsimp only
      split_ifs
      · omega
      · apply (ih _ _ _).trans
        · omega
        · omega
      · apply (ih _ _ _).trans
        · omega
        · omega

/-- The list gets exactly the new element. -/
theorem insertAt_perm (before : α → Bool) (x : α) (xs : List α) :
    (insertAt before x xs).Perm (x :: xs) := by
  apply List.perm_insertIdx
  have hle : lowerBoundLoop before xs 0 xs.length ≤ 0 + xs.length := lowerBoundLoop_le 0 xs.length
  rwa [Nat.zero_add] at hle

section Map

variable {β : Type*} {f : β → α}

theorem lowerBoundLoop_map (before : α → Bool) (ys : List β) (first len : ℕ) :
    lowerBoundLoop before (ys.map f) first len =
      lowerBoundLoop (fun b => before (f b)) ys first len := by
  induction len using Nat.strong_induction_on generalizing first with
  | _ len ih =>
      have hany : ((ys.map f)[first + len / 2]?).any before =
          (ys[first + len / 2]?).any fun b => before (f b) := by
        rw [List.getElem?_map, Option.any_map]
      rw [lowerBoundLoop, lowerBoundLoop]
      dsimp only
      rw [hany]
      split_ifs
      · rfl
      · apply ih
        omega
      · apply ih
        omega

/-- The elements may carry more than what they are compared by. -/
theorem map_insertAt (before : α → Bool) (y : β) (ys : List β) :
    (insertAt (fun b => before (f b)) y ys).map f = insertAt before (f y) (ys.map f) := by
  rw [insertAt, insertAt, lowerBound, lowerBound, lowerBoundLoop_map, List.length_map,
    List.map_insertIdx]

end Map

end BinarySearch
