/-
# Logs that keep their last items

A log with room for `c` items gives up its first item for a new one when it is full.  Whatever was
put into it, it holds the last `c` items of the history, and its own last items are those of the
history.
-/
import Mathlib.Data.List.DropRight
import Mathlib.Tactic.SplitIfs

namespace BoundedLogs

variable {α : Type*} (c : ℕ) (log history : List α) (x : α)

/-- A new item, for which the first one goes if there is no room. -/
def push : List α := (if c ≤ log.length then log.tail else log) ++ [x]

variable {c} {log history}

theorem length_rtake (l : List α) (n : ℕ) : (l.rtake n).length = min n l.length := by
  rw [List.rtake, List.length_drop]
  omega

theorem rtake_of_length_le {l : List α} {n : ℕ} (h : l.length ≤ n) : l.rtake n = l := by
  rw [List.rtake, Nat.sub_eq_zero_of_le h, List.drop_zero]

theorem tail_rtake {l : List α} {n : ℕ} (h : n + 1 ≤ l.length) :
    (l.rtake (n + 1)).tail = l.rtake n := by
  rw [List.rtake, List.rtake, List.tail_drop]
  congr 1
  omega

/-- More items than there are is all of them. -/
theorem rtake_min_length (l : List α) (n : ℕ) : l.rtake (min n l.length) = l.rtake n := by
  rw [List.rtake, List.rtake]
  congr 1
  omega

/-- The last items of the last items. -/
theorem rtake_rtake (l : List α) (m n : ℕ) : (l.rtake n).rtake m = l.rtake (min m n) := by
  rw [List.rtake, length_rtake, List.rtake, List.rtake, List.drop_drop]
  congr 1
  omega

/-- **One more item** in a log that holds the end of its history. -/
theorem push_rtake (hc : 1 ≤ c) (history : List α) (x : α) :
    push c (history.rtake c) x = (history ++ [x]).rtake c := by
  obtain ⟨n, rfl⟩ : ∃ n, c = n + 1 := ⟨c - 1, by omega⟩
  rw [push, List.rtake_concat_succ, length_rtake]
  congr 1
  split_ifs with hfull
  · exact tail_rtake (by omega)
  · rw [rtake_of_length_le (by omega), rtake_of_length_le (by omega)]

end BoundedLogs
