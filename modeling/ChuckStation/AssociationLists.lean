/-
# Association lists

What a map with values of one type has under a key, after an insertion and after a removal;
maps whose keys are unique (`AList`), and plain lists that are read from the front.
-/
import Mathlib.Data.List.AList
import Mathlib.Tactic.SplitIfs
import Mathlib.Tactic.Tauto

namespace AList

variable {α β : Type*} [DecidableEq α] {m : AList fun _ : α => β} {a : α} {v : β}

theorem mem_of_lookup (h : m.lookup a = some v) : a ∈ m := by
  rw [← lookup_isSome, h]
  rfl

theorem exists_lookup (h : a ∈ m) : ∃ v, m.lookup a = some v :=
  Option.isSome_iff_exists.mp (lookup_isSome.mpr h)

theorem lookup_insert_ite (m : AList fun _ : α => β) (a b : α) (v : β) :
    (m.insert a v).lookup b = if b = a then some v else m.lookup b := by
  split_ifs with h
  · rw [h, lookup_insert]
  · exact lookup_insert_ne h

/-- A key that is there is overwritten: the map has the same keys. -/
theorem isSome_lookup_insert (h : m.lookup a = some v) (w : β) (b : α) :
    ((m.insert a w).lookup b).isSome = (m.lookup b).isSome := by
  rw [lookup_insert_ite]
  split_ifs with hb
  · rw [hb, h]
    rfl
  · rfl

theorem lookup_erase_ite (m : AList fun _ : α => β) (a b : α) :
    (m.erase a).lookup b = if b = a then none else m.lookup b := by
  split_ifs with h
  · rw [h, lookup_erase]
  · exact lookup_erase_ne h

/-- Many removals. -/
theorem lookup_foldl_erase (as : List α) (m : AList fun _ : α => β) (b : α) :
    (as.foldl (fun m a => m.erase a) m).lookup b = if b ∈ as then none else m.lookup b := by
  induction as generalizing m with
  | nil => exact (if_neg List.not_mem_nil).symm
  | cons a as ih =>
      rw [List.foldl_cons, ih, lookup_erase_ite]
      simp only [List.mem_cons]
      by_cases hin : b ∈ as
      · rw [if_pos hin, if_pos (Or.inr hin)]
      · rw [if_neg hin]
        simp only [hin, or_false]

/-- How many keys have a value of a kind. -/
theorem length_filter_keys (p : α → Bool) (q : β → Bool)
    (h : ∀ a v, m.lookup a = some v → p a = q v) :
    (m.keys.filter p).length = m.entries.countP fun e => q e.2 := by
  rw [keys, List.keys, List.filter_map, List.length_map, ← List.countP_eq_length_filter]
  refine List.countP_congr fun e he => ?_
  have hlookup : m.lookup e.1 = some e.2 := mem_lookup_iff.mpr he
  rw [Function.comp_apply, h _ _ hlookup]

/-! ## Many insertions -/

section Fold

variable {γ : Type*} (key : γ → α) (val : γ → β)

theorem lookup_foldl_insert_of_notMem (l : List γ) (m : AList fun _ : α => β)
    (h : a ∉ l.map key) :
    (l.foldl (fun m x => m.insert (key x) (val x)) m).lookup a = m.lookup a := by
  induction l generalizing m with
  | nil => rfl
  | cons x l ih =>
      rw [List.map_cons, List.mem_cons, not_or] at h
      rw [List.foldl_cons, ih _ h.2, lookup_insert_ne h.1]

theorem lookup_foldl_insert_of_mem {l : List γ} {x : γ} (m : AList fun _ : α => β)
    (hnodup : (l.map key).Nodup) (hx : x ∈ l) :
    (l.foldl (fun m x => m.insert (key x) (val x)) m).lookup (key x) = some (val x) := by
  induction l generalizing m with
  | nil => exact absurd hx List.not_mem_nil
  | cons y l ih =>
      rw [List.map_cons, List.nodup_cons] at hnodup
      rw [List.foldl_cons]
      rcases List.mem_cons.mp hx with rfl | hx
      · rw [lookup_foldl_insert_of_notMem key val l _ hnodup.1, lookup_insert]
      · exact ih _ hnodup.2 hx

theorem mem_foldl_insert {l : List γ} {m : AList fun _ : α => β} :
    a ∈ l.foldl (fun m x => m.insert (key x) (val x)) m ↔ a ∈ l.map key ∨ a ∈ m := by
  induction l generalizing m with
  | nil => exact (or_iff_right List.not_mem_nil).symm
  | cons x l ih =>
      rw [List.foldl_cons, ih, mem_insert, List.map_cons, List.mem_cons]
      tauto

end Fold

end AList

namespace List

variable {α β : Type*} [BEq α] [LawfulBEq α] [DecidableEq α] {a b : α}

theorem lookup_filter_of_ne (l : List (α × β)) (h : b ≠ a) :
    (l.filter fun e => e.1 ≠ a).lookup b = l.lookup b := by
  induction l with
  | nil => rfl
  | cons e l ih =>
      rw [filter_cons]
      split_ifs with he
      · rw [lookup_cons, lookup_cons, ih]
      · have hea : b ≠ e.1 := by
          intro hb
          exact h (hb.trans (by simpa using he))
        rw [ih, lookup_cons, beq_false_of_ne hea]

theorem lookup_filter_self (l : List (α × β)) (a : α) :
    (l.filter fun e => e.1 ≠ a).lookup a = none := by
  rw [lookup_eq_none_iff]
  intro e he
  have hne : e.1 ≠ a := by simpa using (mem_filter.mp he).2
  rw [bne_iff_ne]
  exact hne.symm

/-- A value put in front of a list without its key. -/
theorem lookup_cons_filter (l : List (α × β)) (a b : α) (v : β) :
    ((a, v) :: l.filter fun e => e.1 ≠ a).lookup b = if b = a then some v else l.lookup b := by
  rw [lookup_cons]
  split_ifs with h
  · rw [beq_iff_eq.mpr h]
  · rw [beq_false_of_ne h]
    exact lookup_filter_of_ne l h

end List
