/-
# Circular buffers

A queue in a list of fixed length, from a head on and around the end.  Copies that reach the end
of the list go on at its beginning.

* `contents`: the queue;
* `putAround` / `getAround`: the copies in two parts;
* `contents_putAround`, `contents_advance`: what is put is queued behind, what is passed over is
  gone from the front.
-/
import Mathlib

namespace CircularBuffers

variable {α : Type*}

/-- The `used` items from `head` on, around the end. -/
def contents (data : List α) (head used : ℕ) : List α := (data.rotate head).take used

/-- A copy into the list. -/
def put (data : List α) (pos : ℕ) (src : List α) : List α :=
  data.take pos ++ src ++ data.drop (pos + src.length)

/-- A copy into the list, around the end. -/
def putAround (data : List α) (pos : ℕ) (src : List α) : List α :=
  let first := min src.length (data.length - pos)
  put (put data pos (src.take first)) 0 (src.drop first)

/-- A copy out of the list, around the end. -/
def getAround (data : List α) (pos n : ℕ) : List α :=
  let first := min n (data.length - pos)
  (data.drop pos).take first ++ data.take (n - first)

variable {data src : List α} {pos head used n : ℕ}

/-! ## Putting -/

theorem length_put (h : pos + src.length ≤ data.length) :
    (put data pos src).length = data.length := by
  rw [put, List.length_append, List.length_append, List.length_take, List.length_drop]
  omega

theorem put_nil (data : List α) (pos : ℕ) : put data pos [] = data := by
  rw [put, List.append_nil, List.length_nil, Nat.add_zero, List.take_append_drop]

theorem length_contents (h : used ≤ data.length) : (contents data head used).length = used := by
  rw [contents, List.length_take, List.length_rotate]
  omega

/-- A copy that ends before the end. -/
theorem putAround_of_le (h : pos + src.length ≤ data.length) :
    putAround data pos src = put data pos src := by
  have hfirst : min src.length (data.length - pos) = src.length := by omega
  rw [putAround, hfirst, List.take_length, List.drop_length, put_nil]

/-- A copy that goes on at the beginning. -/
theorem putAround_of_lt (hpos : pos ≤ data.length) (h : data.length < pos + src.length) :
    putAround data pos src =
      src.drop (data.length - pos) ++
        (data.take pos ++ src.take (data.length - pos)).drop (src.length - (data.length - pos)) := by
  have hfirst : min src.length (data.length - pos) = data.length - pos := by omega
  have hlen : (src.take (data.length - pos)).length = data.length - pos := by
    rw [List.length_take]
    omega
  have hend : put data pos (src.take (data.length - pos)) =
      data.take pos ++ src.take (data.length - pos) := by
    rw [put, hlen, Nat.add_sub_cancel' hpos, List.drop_length, List.append_nil]
  rw [putAround, hfirst, hend, put, List.take_zero, List.nil_append, Nat.zero_add,
    List.length_drop]

theorem length_putAround (hpos : pos ≤ data.length) (hsrc : src.length ≤ data.length) :
    (putAround data pos src).length = data.length := by
  by_cases h : pos + src.length ≤ data.length
  · rw [putAround_of_le h, length_put h]
  · rw [putAround_of_lt hpos (by omega)]
    simp only [List.length_append, List.length_drop, List.length_take]
    omega

/-- From where it was put on, the list begins with what was put there. -/
theorem rotate_putAround (hpos : pos ≤ data.length) (hsrc : src.length ≤ data.length) :
    (putAround data pos src).rotate pos = src ++ (data.rotate pos).drop src.length := by
  rw [List.rotate_eq_drop_append_take hpos,
    List.rotate_eq_drop_append_take (by rw [length_putAround hpos hsrc]; exact hpos)]
  have htake : (data.take pos).length = pos := List.length_take_of_le hpos
  by_cases h : pos + src.length ≤ data.length
  · have hdrop : src.length ≤ (data.drop pos).length := by
      rw [List.length_drop]
      omega
    rw [putAround_of_le h, put, List.append_assoc, List.drop_left' htake, List.take_left' htake,
      List.drop_append_of_le_length hdrop, List.drop_drop, List.append_assoc]
  · -- The second part stands in front of what is left of the list before `pos`.
    have hfirst : (src.take (data.length - pos)).length = data.length - pos := by
      rw [List.length_take]
      omega
    have hsecond : src.length - (data.length - pos) ≤ (data.take pos).length := by omega
    have hfront : (src.drop (data.length - pos) ++
        (data.take pos).drop (src.length - (data.length - pos))).length = pos := by
      rw [List.length_append, List.length_drop, List.length_drop]
      omega
    have hrest : (data.drop pos ++ data.take pos).drop src.length =
        (data.take pos).drop (src.length - (data.length - pos)) := by
      rw [List.drop_append, List.length_drop,
        List.drop_of_length_le (by rw [List.length_drop]; omega), List.nil_append]
    rw [putAround_of_lt hpos (by omega), List.drop_append_of_le_length hsecond,
      ← List.append_assoc, List.drop_left' hfront, List.take_left' hfront, ← List.append_assoc,
      List.take_append_drop, hrest]

/-- **What is put behind the queue is queued.** -/
theorem contents_putAround (hused : used + src.length ≤ data.length) :
    contents (putAround data ((head + used) % data.length) src) head (used + src.length) =
      contents data head used ++ src := by
  rcases Nat.eq_zero_or_pos data.length with hzero | hpos
  · have hsrc : src = [] := List.eq_nil_of_length_eq_zero (by omega)
    have hnone : used = 0 := by omega
    rw [hsrc, hnone]
    rfl
  · have hlt : (head + used) % data.length ≤ data.length := (Nat.mod_lt _ hpos).le
    have hlen : (putAround data ((head + used) % data.length) src).length = data.length :=
      length_putAround hlt (by omega)
    -- Rotating to the end of the queue is rotating to its head, and on by its length.
    have hturn : ∀ l : List α, l.length = data.length →
        l.rotate ((head + used) % data.length) = (l.rotate head).rotate used := by
      intro l hl
      rw [← hl, List.rotate_mod, List.rotate_rotate]
    have hput : (putAround data ((head + used) % data.length) src).rotate
        ((head + used) % data.length) = _ := rotate_putAround hlt (by omega)
    rw [hturn _ hlen, hturn data rfl] at hput
    generalize hdata' : (putAround data ((head + used) % data.length) src).rotate head = after
      at hput
    have hafter : after.length = data.length := by rw [← hdata', List.length_rotate, hlen]
    have hbefore : (data.rotate head).length = data.length := List.length_rotate _ _
    rw [List.rotate_eq_drop_append_take (by omega), List.rotate_eq_drop_append_take (by omega),
      List.drop_append_of_le_length (by rw [List.length_drop]; omega), ← List.append_assoc] at hput
    obtain ⟨hback, hfront⟩ := List.append_inj' hput (by
      rw [List.length_take, List.length_take, hafter, hbefore])
    rw [contents, hdata', List.take_add, hfront, hback, List.take_left' rfl, contents]

/-! ## Getting -/

theorem getAround_eq (hpos : pos ≤ data.length) (hn : n ≤ data.length) :
    getAround data pos n = contents data pos n := by
  rw [getAround, contents, List.rotate_eq_drop_append_take hpos, List.take_append,
    List.length_drop, List.take_take]
  congr 1
  · by_cases h : n ≤ data.length - pos
    · rw [min_eq_left h]
    · rw [min_eq_right (by omega), List.take_of_length_le (by rw [List.length_drop]),
        List.take_of_length_le (by rw [List.length_drop]; omega)]
  · congr 1
    omega

/-- **What is passed over is gone from the front.** -/
theorem contents_advance (hn : n ≤ used) (hused : used ≤ data.length) :
    contents data ((head + n) % data.length) (used - n) = (contents data head used).drop n := by
  have hlen : n ≤ (data.rotate head).length := by
    rw [List.length_rotate]
    omega
  rw [contents, List.rotate_mod, ← List.rotate_rotate, List.rotate_eq_drop_append_take hlen,
    List.take_append_of_le_length (by rw [List.length_drop, List.length_rotate]; omega), contents,
    List.drop_take]

theorem take_contents (h : n ≤ used) : (contents data head used).take n = contents data head n := by
  rw [contents, contents, List.take_take, min_eq_left h]

end CircularBuffers
