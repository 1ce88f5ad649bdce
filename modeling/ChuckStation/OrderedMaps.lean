/-
# Ordered maps

Maps with an order on their keys, filled from a list: pair after pair, where a later value under
a key takes the place of an earlier one, or with a list of values for each key, to which every
value is appended.
-/
import Mathlib

namespace OrderedMaps

open Std

variable {κ ν : Type*} {cmp : κ → κ → Ordering} [TransCmp cmp] [LawfulEqCmp cmp]

omit [TransCmp cmp] in
theorem cmp_eq_iff {a b : κ} : cmp a b = .eq ↔ a = b := by
  constructor
  · intro h
    exact LawfulEqCmp.eq_of_compare h
  · rintro rfl
    exact ReflCmp.compare_self

/-! ## Pair after pair -/

/-- The pairs of a list put into a map. -/
def insertAll (m : ExtTreeMap κ ν cmp) (l : List (κ × ν)) : ExtTreeMap κ ν cmp :=
  l.foldl (fun m p => m.insert p.1 p.2) m

variable {m : ExtTreeMap κ ν cmp} {l : List (κ × ν)} {k : κ} {v : ν}

omit [LawfulEqCmp cmp] in
theorem insertAll_cons (m : ExtTreeMap κ ν cmp) (p : κ × ν) (l : List (κ × ν)) :
    insertAll m (p :: l) = insertAll (m.insert p.1 p.2) l := rfl

theorem getElem?_insert_self (m : ExtTreeMap κ ν cmp) (k : κ) (v : ν) :
    (m.insert k v)[k]? = some v := by
  rw [ExtTreeMap.getElem?_insert, if_pos ReflCmp.compare_self]

theorem getElem?_insert_of_ne (m : ExtTreeMap κ ν cmp) (v : ν) {k' : κ} (h : k ≠ k') :
    (m.insert k v)[k']? = m[k']? := by
  rw [ExtTreeMap.getElem?_insert, if_neg fun heq => h (cmp_eq_iff.mp heq)]

/-- What is under a key was there before or was put in. -/
theorem getElem?_insertAll_cases (h : (insertAll m l)[k]? = some v) :
    (k, v) ∈ l ∨ (m[k]? = some v ∧ k ∉ l.map Prod.fst) := by
  induction l generalizing m with
  | nil => exact Or.inr ⟨h, List.not_mem_nil⟩
  | cons p l ih =>
      rw [insertAll_cons] at h
      rcases ih h with hin | ⟨hm, hnot⟩
      · exact Or.inl (List.mem_cons_of_mem p hin)
      · by_cases hk : p.1 = k
        · rw [hk, getElem?_insert_self] at hm
          exact Or.inl (List.mem_cons.mpr (Or.inl (by rw [← Option.some.inj hm, ← hk])))
        · rw [getElem?_insert_of_ne m p.2 hk] at hm
          refine Or.inr ⟨hm, ?_⟩
          rw [List.map_cons, List.mem_cons, not_or]
          exact ⟨Ne.symm hk, hnot⟩

theorem mem_insertAll : k ∈ insertAll m l ↔ k ∈ l.map Prod.fst ∨ k ∈ m := by
  induction l generalizing m with
  | nil => exact (or_iff_right List.not_mem_nil).symm
  | cons p l ih =>
      rw [insertAll_cons, ih, ExtTreeMap.mem_insert, List.map_cons, List.mem_cons, cmp_eq_iff,
        eq_comm (a := k)]
      tauto

/-- **A map filled from a list** that has one value for a key at most has exactly its pairs. -/
theorem getElem?_insertAll_iff (hfun : ∀ k v v', (k, v) ∈ l → (k, v') ∈ l → v = v') :
    (insertAll (∅ : ExtTreeMap κ ν cmp) l)[k]? = some v ↔ (k, v) ∈ l := by
  constructor
  · intro h
    rcases getElem?_insertAll_cases h with hin | ⟨hm, -⟩
    · exact hin
    · rw [ExtTreeMap.getElem?_empty] at hm
      cases hm
  · intro hin
    have hmem : k ∈ insertAll (∅ : ExtTreeMap κ ν cmp) l :=
      mem_insertAll.mpr (Or.inl (List.mem_map_of_mem hin))
    obtain ⟨v', hv'⟩ : ∃ v', (insertAll (∅ : ExtTreeMap κ ν cmp) l)[k]? = some v' :=
      ⟨_, ExtTreeMap.getElem?_eq_some_getElem hmem⟩
    rcases getElem?_insertAll_cases hv' with hin' | ⟨hm, -⟩
    · rw [hv', hfun k v v' hin hin']
    · rw [ExtTreeMap.getElem?_empty] at hm
      cases hm

/-! ## A list for each key -/

section Groups

variable {γ μ : Type*}

/-- `m[k].push_back(v)`. -/
def pushBack (m : ExtTreeMap κ (List μ) cmp) (k : κ) (v : μ) : ExtTreeMap κ (List μ) cmp :=
  m.insert k (m.getD k [] ++ [v])

/-- The elements of a list, each appended to the list under its key. -/
def groupBy (key : γ → κ) (val : γ → μ) (l : List γ) : ExtTreeMap κ (List μ) cmp :=
  l.foldl (fun m x => pushBack m (key x) (val x)) ∅

variable {key : γ → κ} {val : γ → μ} {w : μ}

theorem getD_pushBack [DecidableEq κ] (m : ExtTreeMap κ (List μ) cmp) (k k' : κ) (v : μ) :
    (pushBack m k v).getD k' [] = if k = k' then m.getD k' [] ++ [v] else m.getD k' [] := by
  rw [pushBack, ExtTreeMap.getD_insert]
  by_cases hk : k = k'
  · rw [if_pos (cmp_eq_iff.mpr hk), if_pos hk, hk]
  · rw [if_neg fun heq => hk (cmp_eq_iff.mp heq), if_neg hk]

theorem mem_pushBack {m : ExtTreeMap κ (List μ) cmp} {k' : κ} (v : μ) :
    k ∈ pushBack m k' v ↔ k' = k ∨ k ∈ m := by
  rw [pushBack, ExtTreeMap.mem_insert, cmp_eq_iff]

/-- There is a list under the keys of the elements only. -/
theorem mem_groupBy (key : γ → κ) (val : γ → μ) (l : List γ) :
    k ∈ (groupBy key val l : ExtTreeMap κ (List μ) cmp) ↔ ∃ x ∈ l, key x = k := by
  induction l using List.reverseRecOn with
  | nil =>
      refine iff_of_false ExtTreeMap.not_mem_empty ?_
      rintro ⟨x, hx, -⟩
      exact List.not_mem_nil hx
  | append_singleton l x ih =>
      rw [groupBy, List.foldl_append, List.foldl_cons, List.foldl_nil, ← groupBy, mem_pushBack, ih]
      simp only [List.mem_append, List.mem_singleton]
      constructor
      · rintro (rfl | ⟨y, hy, rfl⟩)
        · exact ⟨x, Or.inr rfl, rfl⟩
        · exact ⟨y, Or.inl hy, rfl⟩
      · rintro ⟨y, hy | rfl, rfl⟩
        · exact Or.inr ⟨y, hy, rfl⟩
        · exact Or.inl rfl

/-- Under a key stand the values of the elements with that key, in their order. -/
theorem getD_groupBy [DecidableEq κ] (key : γ → κ) (val : γ → μ) (l : List γ) (k : κ) :
    (groupBy key val l : ExtTreeMap κ (List μ) cmp).getD k [] =
      (l.filter fun x => key x = k).map val := by
  induction l using List.reverseRecOn with
  | nil => exact ExtTreeMap.getD_empty
  | append_singleton l x ih =>
      rw [groupBy, List.foldl_append, List.foldl_cons, List.foldl_nil, ← groupBy, getD_pushBack, ih,
        List.filter_append, List.map_append, List.filter_cons, List.filter_nil]
      by_cases hk : key x = k
      · rw [if_pos hk, if_pos (decide_eq_true hk)]
        rfl
      · rw [if_neg hk, if_neg (by simpa using hk)]
        exact (List.append_nil _).symm

/-- **Groups** have, all together, the elements of the list. -/
theorem mem_groupBy_iff [DecidableEq κ] {l : List γ} :
    (∃ ws, (k, ws) ∈ (groupBy key val l : ExtTreeMap κ (List μ) cmp).toList ∧ w ∈ ws) ↔
      ∃ x ∈ l, key x = k ∧ val x = w := by
  have hmem : (∃ ws, (k, ws) ∈ (groupBy key val l : ExtTreeMap κ (List μ) cmp).toList ∧ w ∈ ws) ↔
      w ∈ (groupBy key val l : ExtTreeMap κ (List μ) cmp).getD k [] := by
    rw [ExtTreeMap.getD_eq_getD_getElem?]
    simp only [ExtTreeMap.mem_toList_iff_getElem?_eq_some]
    cases (groupBy key val l : ExtTreeMap κ (List μ) cmp)[k]? with
    | none => simp
    | some ws => simp
  rw [hmem, getD_groupBy, List.mem_map]
  simp only [List.mem_filter, decide_eq_true_eq, and_assoc]

end Groups

end OrderedMaps
