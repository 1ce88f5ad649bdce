/-
# Numbers as texts

Decimal digits and `std::stoul`, which takes a number off the front of a text: spaces, a sign, and
as many digits as there are.  It throws if there is no digit, or if the number does not fit.
-/
import Mathlib

namespace NumberTexts

/-- What the conversions of the standard library throw. -/
inductive StdException where
  | invalidArgument
  | outOfRange
  deriving DecidableEq, Repr

/-- `std::isspace` in the C locale. -/
def isSpaceC (c : Char) : Bool :=
  c = ' ' || c = '\t' || c = '\n' || c = '\x0b' || c = '\x0c' || c = '\r'

/-- The sign in front of a number, and what is behind it. -/
def takeSign : List Char → Bool × List Char
  | '-' :: s => (true, s)
  | '+' :: s => (false, s)
  | s => (false, s)

/-- `std::stoul`, for an `unsigned long` of `w` bits; a number behind a minus sign is negated. -/
def stoul (w : ℕ) (s : List Char) : Except StdException ℕ :=
  let (negative, s) := takeSign (s.dropWhile isSpaceC)
  let digits := s.takeWhile Char.isDigit
  if digits = [] then .error .invalidArgument
  else
    let n := Nat.ofDigitChars 10 digits 0
    if 2 ^ w ≤ n then .error .outOfRange
    else .ok (if negative then (2 ^ w - n) % 2 ^ w else n)

/-- Behind spaces and a sign there is a digit, and the digits make a number below `2 ^ w`. -/
def HasNumber (w : ℕ) (s : List Char) : Prop :=
  let digits := (takeSign (s.dropWhile isSpaceC)).2.takeWhile Char.isDigit
  digits ≠ [] ∧ Nat.ofDigitChars 10 digits 0 < 2 ^ w

theorem exists_stoul_iff {w : ℕ} {s : List Char} : (∃ n, stoul w s = .ok n) ↔ HasNumber w s := by
  rw [HasNumber, stoul]
  rcases takeSign (s.dropWhile isSpaceC) with ⟨negative, s⟩
  dsimp only
  by_cases hdigits : s.takeWhile Char.isDigit = []
  · rw [if_pos hdigits]
    exact iff_of_false (fun ⟨_, h⟩ => nomatch h) fun h => h.1 hdigits
  · rw [if_neg hdigits]
    by_cases hrange : 2 ^ w ≤ Nat.ofDigitChars 10 (s.takeWhile Char.isDigit) 0
    · rw [if_pos hrange]
      exact iff_of_false (fun ⟨_, h⟩ => nomatch h) fun h => absurd h.2 (by omega)
    · rw [if_neg hrange]
      exact iff_of_true ⟨_, rfl⟩ ⟨hdigits, by omega⟩

/-- `operator<<` of an unsigned number. -/
def decimal (n : ℕ) : List Char := Nat.toDigits 10 n

theorem isDigit_of_mem_decimal {n : ℕ} {c : Char} (h : c ∈ decimal n) : c.isDigit = true :=
  Nat.isDigit_of_mem_toDigits (by norm_num) le_rfl h

theorem takeSign_of_isDigit {c : Char} (h : c.isDigit = true) (s : List Char) :
    takeSign (c :: s) = (false, c :: s) := by
  unfold takeSign
  split
  · rename_i heq
    obtain ⟨rfl, -⟩ := List.cons_eq_cons.mp heq
    exact absurd h (by decide)
  · rename_i heq
    obtain ⟨rfl, -⟩ := List.cons_eq_cons.mp heq
    exact absurd h (by decide)
  · rfl

theorem not_isSpaceC_of_isDigit {c : Char} (h : c.isDigit = true) : isSpaceC c = false := by
  rw [← Bool.not_eq_true]
  intro hspace
  simp only [isSpaceC, Bool.or_eq_true, decide_eq_true_eq] at hspace
  rcases hspace with ((((rfl | rfl) | rfl) | rfl) | rfl) | rfl <;> exact absurd h (by decide)

/-- **What is printed is read.** -/
theorem stoul_decimal {w n : ℕ} (h : n < 2 ^ w) : stoul w (decimal n) = .ok n := by
  have hall : ∀ c ∈ decimal n, c.isDigit = true := fun c hc => isDigit_of_mem_decimal hc
  have hne : decimal n ≠ [] := Nat.toDigits_ne_nil
  have hvalue : Nat.ofDigitChars 10 (decimal n) 0 = n := Nat.ofDigitChars_ten_toDigits
  cases hd : decimal n with
  | nil => exact absurd hd hne
  | cons c s =>
      rw [hd] at hall hvalue
      have hc := hall c List.mem_cons_self
      have hspaces : (c :: s).dropWhile isSpaceC = c :: s := by
        rw [List.dropWhile_cons, not_isSpaceC_of_isDigit hc]
        rfl
      have hdigits : (c :: s).takeWhile Char.isDigit = c :: s :=
        List.takeWhile_eq_self_iff.mpr hall
      rw [stoul, hspaces, takeSign_of_isDigit hc]
      dsimp only
      rw [hdigits, if_neg (List.cons_ne_nil c s), hvalue, if_neg (by omega), if_neg (by decide)]

end NumberTexts
