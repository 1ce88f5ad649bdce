/-
# Lists of numbered entries

Entries that are found by a number they carry: the first entry with the number is the one meant.
`Identifies` says that the numbers given out for the entries of a list are as good as the entries:
each is the number of its entry and of no other.
-/
import Mathlib

namespace NumberedList

variable {α κ : Type*} (number : α → κ)

/-- The number given out for an entry is carried by that entry alone. -/
structure Identifies (l : List α) (given : List κ) : Prop where
  length_eq : given.length = l.length
  alone : ∀ (i j : ℕ) (n : κ) (x : α), given[i]? = some n → l[j]? = some x →
    (number x = n ↔ j = i)

variable {number} {l : List α} {given : List κ} {x y : α} {n : κ}

/-- The numbers given out are the ones carried, and all are different. -/
theorem identifies_iff : Identifies number l given ↔ l.map number = given ∧ given.Nodup := by
  constructor
  · rintro ⟨hlen, halone⟩
    have hmap : l.map number = given := by
      apply List.ext_getElem (by rw [List.length_map, hlen])
      intro i hi hi'
      rw [List.length_map] at hi
      rw [List.getElem_map]
      exact (halone i i _ _ (List.getElem?_eq_getElem hi') (List.getElem?_eq_getElem hi)).mpr rfl
    refine ⟨hmap, List.nodup_iff_getElem?_ne_getElem?.mpr fun i j hij hj heq => ?_⟩
    rw [List.getElem?_eq_getElem hj] at heq
    have hj' : j < l.length := hlen ▸ hj
    have hnumber : number l[j] = given[j] :=
      (halone j j _ _ (List.getElem?_eq_getElem hj) (List.getElem?_eq_getElem hj')).mpr rfl
    have hsame : j = i := (halone i j _ _ heq (List.getElem?_eq_getElem hj')).mp hnumber
    omega
  · rintro ⟨rfl, hnodup⟩
    refine ⟨List.length_map _, fun i j n x hn hx => ?_⟩
    have hx' : (l.map number)[j]? = some (number x) := by
      rw [List.getElem?_map, hx, Option.map_some]
    obtain ⟨hj, -⟩ := List.getElem?_eq_some_iff.mp hx'
    constructor
    · intro heq
      exact (List.getElem?_inj hj hnodup).mp (by rw [hx', hn, heq])
    · rintro rfl
      rw [hx', Option.some.injEq] at hn
      exact hn

theorem identifies_nil : Identifies number [] [] := identifies_iff.mpr ⟨rfl, List.nodup_nil⟩

/-- A new entry, under the number given out for it. -/
theorem identifies_append_iff (h : Identifies number l given) :
    Identifies number (l ++ [x]) (given ++ [n]) ↔ number x = n ∧ n ∉ given := by
  obtain ⟨hmap, hnodup⟩ := identifies_iff.mp h
  rw [identifies_iff, List.map_append, hmap, List.map_singleton, List.append_cancel_left_eq,
    List.cons_eq_cons, and_iff_left rfl, List.nodup_append_comm, List.singleton_append,
    List.nodup_cons]
  exact and_congr_right fun _ => and_iff_left hnodup

/-! ## Removing by number -/

section Remove

variable [DecidableEq κ]

theorem map_eraseP (l : List α) (n : κ) :
    (l.eraseP fun x => number x == n).map number = (l.map number).erase n := by
  rw [List.erase_eq_eraseP', List.eraseP_map]
  rfl

theorem Identifies.eraseP (h : Identifies number l given) (n : κ) :
    Identifies number (l.eraseP fun x => number x == n) (given.erase n) := by
  obtain ⟨hmap, hnodup⟩ := identifies_iff.mp h
  exact identifies_iff.mpr ⟨by rw [map_eraseP, hmap], hnodup.erase n⟩

/-- A number given out leads to the entry it was given out for. -/
theorem Identifies.findIdx?_eq {i : ℕ} (h : Identifies number l given) (hn : given[i]? = some n) :
    (l.findIdx? fun x => number x == n) = some i := by
  obtain ⟨hi, -⟩ := List.getElem?_eq_some_iff.mp hn
  have hi' : i < l.length := h.length_eq ▸ hi
  rw [List.findIdx?_eq_some_iff_getElem]
  refine ⟨hi', ?_, fun j hj => ?_⟩
  · simpa using (h.alone i i n _ hn (List.getElem?_eq_getElem hi')).mpr rfl
  · have hother := h.alone i j n _ hn (List.getElem?_eq_getElem (hj.trans hi'))
    rw [beq_iff_eq, hother]
    omega

theorem Identifies.find?_eq {i : ℕ} (h : Identifies number l given) (hn : given[i]? = some n) :
    (l.find? fun x => number x == n) = l[i]? := by
  rw [List.find?_eq_bind_findIdx?_getElem?, h.findIdx?_eq hn]
  rfl

theorem Identifies.exists_find? {i : ℕ} (h : Identifies number l given)
    (hn : given[i]? = some n) : ∃ x, (l.find? fun x => number x == n) = some x := by
  obtain ⟨hi, -⟩ := List.getElem?_eq_some_iff.mp hn
  rw [h.length_eq] at hi
  exact ⟨l[i], (h.find?_eq hn).trans (List.getElem?_eq_getElem hi)⟩

/-- Removing by a number given out removes that entry. -/
theorem Identifies.eraseP_eq {i : ℕ} (h : Identifies number l given) (hn : given[i]? = some n) :
    (l.eraseP fun x => number x == n) = l.eraseIdx i := by
  rw [List.eraseP_eq_eraseIdx, h.findIdx?_eq hn]

/-- Where all numbers differ, removing the first entry of a number removes all. -/
theorem eraseP_eq_filter (h : (l.map number).Nodup) (n : κ) :
    (l.eraseP fun x => number x == n) = l.filter fun x => number x != n := by
  induction l with
  | nil => rfl
  | cons x l ih =>
      rw [List.map_cons, List.nodup_cons] at h
      by_cases hx : number x = n
      · subst hx
        have hall : ∀ y ∈ l, (number y != number x) = true := by
          intro y hy
          rw [bne_iff_ne]
          intro heq
          exact h.1 (heq ▸ List.mem_map_of_mem hy)
        rw [List.eraseP_cons_of_pos (by simp), List.filter_cons_of_neg (by simp),
          List.filter_eq_self.mpr hall]
      · rw [List.eraseP_cons_of_neg (by simpa using hx),
          List.filter_cons_of_pos (by simpa using hx), ih h.2]

end Remove

/-- The entry `find_if` finds, and the others. -/
theorem perm_of_find? {q : α → Bool} (h : l.find? q = some x) : l.Perm (x :: l.eraseP q) := by
  induction l with
  | nil => cases h
  | cons y l ih =>
      cases hq : q y with
      | true =>
          rw [List.find?_cons_of_pos hq] at h
          rw [List.eraseP_cons_of_pos hq, Option.some.inj h]
      | false =>
          rw [List.find?_cons_of_neg (by simp [hq])] at h
          rw [List.eraseP_cons_of_neg (by simp [hq])]
          exact ((ih h).cons y).trans (List.Perm.swap x y _)

end NumberedList
