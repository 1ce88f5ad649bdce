/-
# Counters of handles

A counter of `w` bits gives out one number after the other, and some of those that it has given
out are in use.  As long as it has not come round, the next one is not among them.
-/
import ChuckStation.Bytes

namespace HandleCounter

/-- The numbers in use are among the `n` that the counter has given out from `start` on. -/
structure GivenOut {w : ℕ} (start n : ℕ) (next : BitVec w) (used : BitVec w → Prop) : Prop where
  next_eq : next = BitVec.ofNat w (start + n)
  used_lt : ∀ h, used h → ∃ i < n, h = BitVec.ofNat w (start + i)

variable {w start n : ℕ} {next : BitVec w} {used used' : BitVec w → Prop}

theorem GivenOut.zero : GivenOut start 0 (BitVec.ofNat w start) fun _ => False where
  next_eq := rfl
  used_lt := fun _ hused => hused.elim

theorem ofNat_ne_of_lt {i : ℕ} (hi : i < n) (hn : n < 2 ^ w) :
    BitVec.ofNat w (start + n) ≠ BitVec.ofNat w (start + i) := by
  intro heq
  have hmod : start + n ≡ start + i [MOD 2 ^ w] := by
    unfold Nat.ModEq
    rw [← BitVec.toNat_ofNat, ← BitVec.toNat_ofNat, heq]
  have hsame : n = i := Nat.ModEq.eq_of_lt_of_lt (Nat.ModEq.add_left_cancel' start hmod) hn
    (hi.trans hn)
  omega

/-- **The next number is new.** -/
theorem GivenOut.next_unused (h : GivenOut start n next used) (hn : n < 2 ^ w) : ¬ used next := by
  intro hused
  obtain ⟨i, hi, heq⟩ := h.used_lt next hused
  rw [h.next_eq] at heq
  exact ofNat_ne_of_lt hi hn heq

/-- It may be in use from now on. -/
theorem GivenOut.succ (h : GivenOut start n next used) (hused : ∀ x, used' x → x = next ∨ used x) :
    GivenOut start (n + 1) (next + 1) used' where
  next_eq := by
    rw [h.next_eq, ← Nat.add_assoc, BitVec.ofNat_add (start + n) 1]
    rfl
  used_lt := by
    intro x hx
    rcases hused x hx with rfl | hx
    · exact ⟨n, Nat.lt_succ_self n, h.next_eq⟩
    · obtain ⟨i, hi, hx⟩ := h.used_lt x hx
      exact ⟨i, by omega, hx⟩

/-- Numbers go out of use. -/
theorem GivenOut.mono (h : GivenOut start n next used) (hused : ∀ x, used' x → used x) :
    GivenOut start n next used' where
  next_eq := h.next_eq
  used_lt := fun x hx => h.used_lt x (hused x hx)

end HandleCounter
