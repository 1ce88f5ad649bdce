/-
# Patches of a byte store

A list of patches, copied into a store one after another.  A byte that none of them covers is
the old one, and a run of bytes that one patch fills and no other covers is that patch.  Also
the search of a list for its first good element, when the order of the list is open.
-/
import ChuckStation.Bytes
import Mathlib.Data.List.Perm.Basic

namespace ByteStore

variable {w : ℕ}

/-- Bytes and where they go. -/
structure Patch (w : ℕ) where
  site : BitVec w
  bytes : List Byte

/-- The patch covers the address. -/
def Patch.Covers (p : Patch w) (x : BitVec w) : Prop := (x - p.site).toNat < p.bytes.length

instance (p : Patch w) (x : BitVec w) : Decidable (p.Covers x) :=
  inferInstanceAs (Decidable (_ < _))

/-- The store after all the patches, first to last. -/
def patch (m : BitVec w → Byte) (ps : List (Patch w)) : BitVec w → Byte :=
  ps.foldl (fun m p => write m p.site p.bytes) m

@[simp] theorem patch_nil (m : BitVec w → Byte) : patch m [] = m := rfl

@[simp] theorem patch_cons (m : BitVec w → Byte) (p : Patch w) (ps : List (Patch w)) :
    patch m (p :: ps) = patch (write m p.site p.bytes) ps := rfl

theorem patch_append (m : BitVec w → Byte) (ps qs : List (Patch w)) :
    patch m (ps ++ qs) = patch (patch m ps) qs := List.foldl_append

/-- Some things have a patch and some have none. -/
theorem patch_filterMap_cons {α : Type*} (f : α → Option (Patch w)) (a : α) (l : List α)
    (m : BitVec w → Byte) :
    patch m ((a :: l).filterMap f) = patch (patch m (f a).toList) (l.filterMap f) := by
  cases hp : f a with
  | none => rw [List.filterMap_cons_none hp, Option.toList_none, patch_nil]
  | some p =>
      rw [List.filterMap_cons_some hp, Option.toList_some, patch_cons, patch_cons, patch_nil]

/-- **Frame.**  A byte that no patch covers stays. -/
theorem patch_apply_of_not_covers {ps : List (Patch w)} {x : BitVec w}
    (h : ∀ p ∈ ps, ¬ p.Covers x) (m : BitVec w → Byte) : patch m ps x = m x := by
  induction ps generalizing m with
  | nil => rfl
  | cons p ps ih =>
      rw [patch_cons, ih (fun q hq => h q (List.mem_cons_of_mem p hq))]
      apply write_apply_of_le
      exact Nat.le_of_not_lt (h p List.mem_cons_self)

/-- Stores that agree on a byte agree on it afterwards. -/
theorem patch_apply_congr {m m' : BitVec w → Byte} {x : BitVec w} (h : m x = m' x)
    (ps : List (Patch w)) : patch m ps x = patch m' ps x := by
  induction ps generalizing m m' with
  | nil => exact h
  | cons p ps ih =>
      rw [patch_cons, patch_cons]
      apply ih
      rw [write, write, h]

/-- A byte that some patch covers does not depend on what was there. -/
theorem patch_apply_of_covers {ps : List (Patch w)} {x : BitVec w}
    (h : ∃ p ∈ ps, p.Covers x) (m m' : BitVec w → Byte) : patch m ps x = patch m' ps x := by
  induction ps generalizing m m' with
  | nil =>
      obtain ⟨p, hp, -⟩ := h
      exact absurd hp List.not_mem_nil
  | cons q ps ih =>
      rw [patch_cons, patch_cons]
      by_cases hq : q.Covers x
      · -- The first patch settles the byte.
        apply patch_apply_congr
        rw [write_apply_of_lt m _ _ x hq, write_apply_of_lt m' _ _ x hq]
      · obtain ⟨p, hp, hcovers⟩ := h
        rcases List.mem_cons.mp hp with rfl | hp
        · exact absurd hcovers hq
        · exact ih ⟨p, hp, hcovers⟩ _ _

/-- Patches that were all made are made again without a change, however they overlap. -/
theorem patch_patch_self (m : BitVec w → Byte) (ps : List (Patch w)) :
    patch (patch m ps) ps = patch m ps := by
  funext x
  by_cases hx : ∃ p ∈ ps, p.Covers x
  · exact patch_apply_of_covers hx _ _
  · apply patch_apply_of_not_covers
    intro p hp hcovers
    exact hx ⟨p, hp, hcovers⟩

/-- The same for a run of bytes. -/
theorem read_patch_of_not_covers {ps : List (Patch w)} {a : BitVec w} {n : ℕ}
    (h : ∀ p ∈ ps, ∀ k < n, ¬ p.Covers (a + BitVec.ofNat w k)) (m : BitVec w → Byte) :
    read (patch m ps) a n = read m a n := by
  apply read_congr
  intro k hk
  exact patch_apply_of_not_covers (fun p hp => h p hp k hk) m

/-- Where one patch is the last to come, it is read. -/
theorem read_patch_of_last {before after : List (Patch w)} {p : Patch w}
    (hlen : p.bytes.length ≤ 2 ^ w)
    (h : ∀ q ∈ after, ∀ k < p.bytes.length, ¬ q.Covers (p.site + BitVec.ofNat w k))
    (m : BitVec w → Byte) :
    read (patch m (before ++ p :: after)) p.site p.bytes.length = p.bytes := by
  rw [patch_append, patch_cons, read_patch_of_not_covers h]
  exact read_write_self _ _ _ hlen

end ByteStore

/-! ## Searches whose order is open -/

namespace List

variable {α β : Type*} {q : α → Bool} {f : α → β} {p : β → Bool} {l : List α}

/-- Whatever order the list is searched in, the result is the same exactly if no two good
values differ. -/
theorem find?_map_filter_perm_iff (result : Option β) :
    (∀ l' : List α, l'.Perm l → ((l'.filter q).map f).find? p = result) ↔
      ∀ y, (∃ x ∈ l, q x = true ∧ f x = y ∧ p y = true) ↔ result = some y := by
  constructor
  · intro h y
    constructor
    · rintro ⟨x, hx, hq, rfl, hp⟩
      obtain ⟨before, after, rfl⟩ := append_of_mem hx
      -- Some order begins with `x`.
      rw [← h (x :: (before ++ after)) perm_middle.symm, filter_cons_of_pos hq, map_cons,
        find?_cons_of_pos hp]
    · intro hresult
      have hfind := h l (Perm.refl l)
      rw [hresult] at hfind
      obtain ⟨x, hx, hfx⟩ := mem_map.mp (mem_of_find?_eq_some hfind)
      obtain ⟨hin, hq⟩ := mem_filter.mp hx
      exact ⟨x, hin, hq, hfx, find?_some hfind⟩
  · intro h l' hperm
    cases hfind : ((l'.filter q).map f).find? p with
    | none =>
        cases result with
        | none => rfl
        | some y =>
            obtain ⟨x, hx, hq, hfx, hp⟩ := (h y).mpr rfl
            have hin : y ∈ (l'.filter q).map f :=
              mem_map.mpr ⟨x, mem_filter.mpr ⟨hperm.mem_iff.mpr hx, hq⟩, hfx⟩
            exact absurd hp (find?_eq_none.mp hfind y hin)
    | some y =>
        obtain ⟨x, hx, hfx⟩ := mem_map.mp (mem_of_find?_eq_some hfind)
        obtain ⟨hin, hq⟩ := mem_filter.mp hx
        exact ((h y).mp ⟨x, hperm.mem_iff.mp hin, hq, hfx, find?_some hfind⟩).symm

end List
