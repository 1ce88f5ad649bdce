/-
# Input streams that fail

A read that finds too few elements takes those that are there and fails the stream.  Nothing
stops at that point: the reads behind it come too, find nothing, and leave their buffers as they
are.  What a sequence of reads has taken is good if the stream is, at its end.

* `Takes`: what was written is taken back;
* `Stable`: what was taken from a stream that stays good depends on the taken part only;
* `Mirrors`: such a sequence of reads against a reader that stops.
-/
import ChuckStation.BinaryFormats

namespace InputStreams

/-! ## Reading -/

/-- The elements that are ahead, and whether no read has failed so far. -/
structure InputStream (α : Type) where
  rest : List α
  good : Bool := true
  deriving DecidableEq, Repr

/-- A sequence of reads. -/
abbrev Extraction (α β : Type) := StateM (InputStream α) β

section Reading

variable {α β γ : Type}

/-- Read over a buffer; of a buffer that is too long only the front is read over. -/
def read (buf : List α) : Extraction α (List α) := fun s =>
  if s.good then
    (s.rest.take buf.length ++ buf.drop s.rest.length,
      { rest := s.rest.drop buf.length, good := buf.length ≤ s.rest.length })
  else (buf, s)

/-- On a good stream with `as` ahead, `q` takes `as` and nothing else, and gives `b`. -/
def Takes (q : Extraction α β) (as : List α) (b : β) : Prop :=
  ∀ more, q ⟨as ++ more, true⟩ = (b, ⟨more, true⟩)

/-- A stream that is good behind `q` was good in front of it, and what `q` took from it, it takes
from every longer one. -/
def Stable (q : Extraction α β) : Prop :=
  ∀ s, (q s).2.good = true → s.good = true ∧
    ∀ more, q ⟨s.rest ++ more, true⟩ = ((q s).1, ⟨(q s).2.rest ++ more, true⟩)

variable {q : Extraction α β} {r : β → Extraction α γ} {as as' : List α} {b : β} {c : γ}

theorem takes_pure (b : β) : Takes (pure b : Extraction α β) [] b := fun _ => rfl

theorem Takes.bind (hq : Takes q as b) (hr : Takes (r b) as' c) :
    Takes (q >>= r) (as ++ as') c := by
  intro more
  change r (q ⟨as ++ as' ++ more, true⟩).1 (q ⟨as ++ as' ++ more, true⟩).2 = _
  rw [List.append_assoc, hq (as' ++ more)]
  exact hr more

theorem takes_read (buf : List α) (h : as.length = buf.length) : Takes (read buf) as as := by
  intro more
  have hle : buf.length ≤ (as ++ more).length := by
    rw [List.length_append]
    omega
  unfold read
  dsimp only
  rw [if_pos rfl, List.drop_eq_nil_of_le hle, List.append_nil, List.take_left' h,
    List.drop_left' h, decide_eq_true hle]

theorem stable_pure (b : β) : Stable (pure b : Extraction α β) :=
  fun _ h => ⟨h, fun _ => rfl⟩

theorem Stable.bind (hq : Stable q) (hr : ∀ b, Stable (r b)) : Stable (q >>= r) := by
  intro s hgood
  obtain ⟨hmid, hrest⟩ := hr (q s).1 (q s).2 hgood
  obtain ⟨hstart, hfirst⟩ := hq s hmid
  refine ⟨hstart, fun more => ?_⟩
  change r (q ⟨s.rest ++ more, true⟩).1 (q ⟨s.rest ++ more, true⟩).2 = _
  rw [hfirst more]
  exact hrest more

theorem stable_read (buf : List α) : Stable (read buf) := by
  intro s hgood
  unfold read at hgood ⊢
  cases hs : s.good with
  | false =>
      rw [hs, if_neg Bool.false_ne_true] at hgood
      exact absurd (hs.symm.trans hgood) Bool.false_ne_true
  | true =>
      rw [hs, if_pos rfl] at hgood
      have hle : buf.length ≤ s.rest.length := of_decide_eq_true hgood
      refine ⟨rfl, fun more => ?_⟩
      have hle' : buf.length ≤ (s.rest ++ more).length := by
        rw [List.length_append]
        omega
      dsimp only
      rw [if_pos rfl, if_pos rfl, List.drop_eq_nil_of_le hle, List.drop_eq_nil_of_le hle',
        List.take_append_of_le_length hle, List.drop_append_of_le_length hle, decide_eq_true hle']

/-- A part of what `q` takes is not enough for it. -/
theorem Stable.fails_of_shorter (hs : Stable q) (ht : Takes q as b) {front : List α}
    (hpre : front <+: as) (hne : front ≠ as) : (q ⟨front, true⟩).2.good = false := by
  by_contra hgood
  obtain ⟨back, rfl⟩ := hpre
  obtain ⟨-, hmore⟩ := hs ⟨front, true⟩ (Bool.eq_true_of_not_eq_false hgood)
  have hall := ht []
  rw [List.append_nil, hmore back] at hall
  have hnil : (q ⟨front, true⟩).2.rest ++ back = [] :=
    congrArg (fun x => x.2.rest) hall
  exact hne (by rw [(List.append_eq_nil_iff.mp hnil).2, List.append_nil])

end Reading

/-! ## Reading again and again -/

section Many

variable {α β : Type}

/-- Up to `n` times, as long as the stream is good behind each time. -/
def readMany (q : Extraction α β) : ℕ → InputStream α → List β
  | 0, _ => []
  | n + 1, s => if (q s).2.good then (q s).1 :: readMany q n (q s).2 else []

variable {q : Extraction α β} {γ : Type} {enc : γ → List α} {dec : γ → β}

/-- **A sequence that is cut off**: what lies completely in front of the cut is read. -/
theorem readMany_of_prefix (hs : Stable q) (ht : ∀ x, Takes q (enc x) (dec x)) (xs : List γ)
    {front : List α} (hpre : front <+: xs.flatMap enc) :
    ∃ k ≤ xs.length, readMany q xs.length ⟨front, true⟩ = (xs.take k).map dec ∧
      ∀ i < xs.length, i < k ↔ ((xs.take (i + 1)).flatMap enc).length ≤ front.length := by
  induction xs generalizing front with
  | nil => exact ⟨0, le_rfl, rfl, fun i hi => absurd hi (Nat.not_lt_zero i)⟩
  | cons x xs ih =>
      rw [List.flatMap_cons] at hpre
      by_cases hfit : (enc x).length ≤ front.length
      · obtain ⟨back, rfl⟩ : enc x <+: front :=
          List.prefix_of_prefix_length_le (List.prefix_append _ _) hpre hfit
        obtain ⟨k, hk, hread, hall⟩ := ih ((List.prefix_append_right_inj _).mp hpre)
        refine ⟨k + 1, Nat.succ_le_succ hk, ?_, fun i hi => ?_⟩
        · rw [List.length_cons, readMany, ht x back, if_pos rfl, hread, List.take_succ_cons,
            List.map_cons]
        · cases i with
          | zero =>
              rw [List.take_succ_cons, List.take_zero, List.flatMap_cons, List.flatMap_nil,
                List.append_nil]
              exact iff_of_true (Nat.succ_pos k) hfit
          | succ i =>
              rw [List.take_succ_cons, List.flatMap_cons, List.length_append, List.length_append,
                Nat.succ_lt_succ_iff, hall i (Nat.lt_of_succ_lt_succ hi)]
              omega
      · have hcut : front <+: enc x :=
          List.prefix_of_prefix_length_le hpre (List.prefix_append _ _) (by omega)
        have hfail := hs.fails_of_shorter (ht x) hcut (by
          rintro rfl
          exact hfit le_rfl)
        refine ⟨0, Nat.zero_le _, ?_, fun i hi => ?_⟩
        · rw [List.length_cons, readMany, hfail, if_neg Bool.false_ne_true]
          rfl
        · rw [List.take_succ_cons, List.flatMap_cons, List.length_append]
          exact iff_of_false (Nat.not_lt_zero i) (by omega)

end Many

/-! ## Against a reader that stops -/

open BinaryFormats

section Stopping

variable {ε β γ : Type}

/-- As long as the reader goes on the reads take the same, and if it stops they fail. -/
def Mirrors (q : Extraction Byte β) (p : Reader ε β) : Prop :=
  (∀ s, s.good = false → (q s).2.good = false) ∧
    ∀ data o, o ≤ data.length →
      match p ⟨data, o⟩ with
      | .ok (b, c) => c.data = data ∧ c.offset ≤ data.length ∧
          q ⟨data.drop o, true⟩ = (b, ⟨data.drop c.offset, true⟩)
      | .error _ => (q ⟨data.drop o, true⟩).2.good = false

variable {q : Extraction Byte β} {p : Reader ε β} {q' : β → Extraction Byte γ}
  {p' : β → Reader ε γ}

theorem mirrors_pure (b : β) : Mirrors (pure b : Extraction Byte β) (pure b : Reader ε β) :=
  ⟨fun _ h => h, fun _ _ ho => ⟨rfl, ho, rfl⟩⟩

theorem Mirrors.bind (h : Mirrors q p) (h' : ∀ b, Mirrors (q' b) (p' b)) :
    Mirrors (q >>= q') (p >>= p') := by
  refine ⟨fun s hs => (h' _).1 _ (h.1 s hs), fun data o ho => ?_⟩
  have hfirst := h.2 data o ho
  change match (p ⟨data, o⟩ >>= fun x => p' x.1 x.2) with
    | .ok (b, c) => c.data = data ∧ c.offset ≤ data.length ∧
        q' (q ⟨data.drop o, true⟩).1 (q ⟨data.drop o, true⟩).2 = (b, ⟨data.drop c.offset, true⟩)
    | .error _ => (q' (q ⟨data.drop o, true⟩).1 (q ⟨data.drop o, true⟩).2).2.good = false
  cases hp : p ⟨data, o⟩ with
  | error e =>
      rw [hp] at hfirst
      exact (h' _).1 _ hfirst
  | ok x =>
      obtain ⟨b, ⟨data', o'⟩⟩ := x
      rw [hp] at hfirst
      obtain ⟨rfl, ho', heq⟩ := hfirst
      rw [heq]
      exact (h' b).2 data' o' ho'

/-- A loop over the reader that ends where it stops reads the same as the reads do. -/
theorem Mirrors.readMany_eq (h : Mirrors q p) {loop : ℕ → Cursor → List β}
    (hzero : ∀ c, loop 0 c = [])
    (hnext : ∀ n c b c', p c = .ok (b, c') → loop (n + 1) c = b :: loop n c')
    (hstop : ∀ n c e, p c = .error e → loop (n + 1) c = [])
    (n : ℕ) {data : List Byte} {o : ℕ} (ho : o ≤ data.length) :
    readMany q n ⟨data.drop o, true⟩ = loop n ⟨data, o⟩ := by
  induction n generalizing o with
  | zero => exact (hzero _).symm
  | succ n ih =>
      have hstep := h.2 data o ho
      rw [readMany]
      cases hp : p ⟨data, o⟩ with
      | error e =>
          rw [hp] at hstep
          rw [hstop n _ e hp, hstep, if_neg Bool.false_ne_true]
      | ok x =>
          obtain ⟨b, ⟨data', o'⟩⟩ := x
          rw [hp] at hstep
          obtain ⟨rfl, ho', heq⟩ := hstep
          rw [hnext n _ b _ hp, heq, if_pos rfl, ih ho']

end Stopping

end InputStreams
