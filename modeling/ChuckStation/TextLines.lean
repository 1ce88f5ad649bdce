/-
# Lines of text and the fields of a line

A text is read line by line, and a line is cut at the first place of a character and stripped of
the blanks around it.  Positions are found as in the standard string class, whose searches may
come back empty.

* `lines_flatMap`: the lines that were written are read;
* `trim_padded`: what stands between blanks is what is left without them.
-/
import Mathlib.Data.List.Basic
import Mathlib.Tactic.SplitIfs

namespace TextLines

variable {α : Type*}

/-! ## Lines -/

section Lines

variable [DecidableEq α]

/-- The lines of a text, each without its separator; behind the last separator there is a line
only if something stands there. -/
def lines (sep : α) : List α → List (List α)
  | [] => []
  | c :: s =>
    if c = sep then [] :: lines sep s
    else
      match lines sep s with
      | [] => [[c]]
      | l :: ls => (c :: l) :: ls

theorem lines_append {sep : α} {l : List α} (h : sep ∉ l) (s : List α) :
    lines sep (l ++ sep :: s) = l :: lines sep s := by
  induction l with
  | nil => exact if_pos rfl
  | cons c l ih =>
      rw [List.mem_cons, not_or] at h
      rw [List.cons_append, lines, if_neg (Ne.symm h.1), ih h.2]

/-- **Lines** that are written one after the other are read one after the other. -/
theorem lines_flatMap {sep : α} {ls : List (List α)} (h : ∀ l ∈ ls, sep ∉ l) :
    lines sep (ls.flatMap fun l => l ++ [sep]) = ls := by
  induction ls with
  | nil => rfl
  | cons l ls ih =>
      rw [List.forall_mem_cons] at h
      rw [List.flatMap_cons, List.append_assoc]
      exact (lines_append h.1 _).trans (congrArg (List.cons l) (ih h.2))

end Lines

/-! ## Searching -/

section Searching

/-- `find`: the first place of a character. -/
def find [DecidableEq α] (c : α) (s : List α) : Option ℕ := s.findIdx? fun d => d = c

/-- `find_first_not_of`: the first place of a character that is none of a kind. -/
def findFirstNotOf (p : α → Bool) (s : List α) : Option ℕ := s.findIdx? fun c => !p c

/-- `find_last_not_of`: the last such place. -/
def findLastNotOf (p : α → Bool) (s : List α) : Option ℕ :=
  (s.reverse.findIdx? fun c => !p c).map fun i => s.length - 1 - i

/-- `substr(b, e - b + 1)`.  Without a last place the count is `0 - b`, which is nothing for a `b`
of 0 and wraps around to more than there is for any other. -/
def between (s : List α) (b : ℕ) : Option ℕ → List α
  | some e => (s.drop b).take (e + 1 - b)
  | none => if b = 0 then [] else s.drop b

variable {p q : α → Bool} {s pad pad' : List α}

theorem find_append [DecidableEq α] {c : α} (h : c ∉ s) (t : List α) :
    find c (s ++ c :: t) = some s.length := by
  have hnone : s.findIdx? (fun d => d = c) = none := by
    rw [List.findIdx?_eq_none_iff]
    intro d hd
    exact decide_eq_false fun heq => h (heq ▸ hd)
  rw [find, List.findIdx?_append, hnone, List.findIdx?_cons, decide_eq_true rfl]
  simp

/-- The place of a closing bracket. -/
theorem find_bracketed [DecidableEq α] {a b : α} (hne : b ≠ a) (h : b ∉ s) :
    find b (a :: (s ++ [b])) = some (s.length + 1) := by
  have hnot : b ∉ a :: s := by
    rw [List.mem_cons, not_or]
    exact ⟨hne, h⟩
  exact find_append hnot []

/-- What is between the brackets. -/
theorem take_bracketed (a b : α) (s : List α) :
    ((a :: (s ++ [b])).drop 1).take (s.length + 1 - 1) = s := by
  rw [List.drop_one, List.tail_cons, Nat.add_sub_cancel, List.take_left]

theorem find_eq_none [DecidableEq α] {c : α} (h : c ∉ s) : find c s = none := by
  rw [find, List.findIdx?_eq_none_iff]
  intro d hd
  exact decide_eq_false fun heq => h (heq ▸ hd)

theorem findFirstNotOf_eq_none (h : ∀ c ∈ s, p c = true) : findFirstNotOf p s = none := by
  rw [findFirstNotOf, List.findIdx?_eq_none_iff]
  intro c hc
  rw [h c hc, Bool.not_true]

theorem findFirstNotOf_append (hpad : ∀ c ∈ pad, p c = true) {c : α} (hc : p c = false)
    (s : List α) : findFirstNotOf p (pad ++ c :: s) = some pad.length := by
  have hnone := findFirstNotOf_eq_none hpad
  rw [findFirstNotOf] at hnone
  rw [findFirstNotOf, List.findIdx?_append, hnone, List.findIdx?_cons, hc]
  simp

theorem findLastNotOf_append (hpad : ∀ c ∈ pad, p c = true) {c : α} (hc : p c = false)
    (s : List α) : findLastNotOf p (s ++ c :: pad) = some s.length := by
  have hfirst : findFirstNotOf p (pad.reverse ++ c :: s.reverse) = some pad.length := by
    rw [findFirstNotOf_append (fun d hd => hpad d (List.mem_reverse.mp hd)) hc,
      List.length_reverse]
  have hreverse : (s ++ c :: pad).reverse = pad.reverse ++ c :: s.reverse := by simp
  rw [findFirstNotOf] at hfirst
  rw [findLastNotOf, hreverse, hfirst, Option.map_some, List.length_append, List.length_cons]
  congr 1
  omega

end Searching

/-! ## Stripping -/

section Stripping

variable {p q : α → Bool} {s pad pad' : List α}

/-- Neither at its front nor at its end there is a character of the kind. -/
structure Bare (p q : α → Bool) (s : List α) : Prop where
  front : ∀ c ∈ s.head?, p c = false
  back : ∀ c ∈ s.getLast?, q c = false

/-- The characters of one kind taken away at the front, and of another one at the end. -/
def trim (p q : α → Bool) (s : List α) : List α :=
  match findFirstNotOf p s with
  | none => []
  | some b => between s b (findLastNotOf q s)

theorem bare_of_forall (h : ∀ c ∈ s, p c = false ∧ q c = false) : Bare p q s :=
  ⟨fun c hc => (h c (List.mem_of_mem_head? hc)).1, fun c hc => (h c (List.mem_of_getLast? hc)).2⟩

theorem findFirstNotOf_of_bare (hs : Bare p q s) (hne : s ≠ []) (hpad : ∀ c ∈ pad, p c = true)
    (t : List α) : findFirstNotOf p (pad ++ (s ++ t)) = some pad.length := by
  cases s with
  | nil => exact absurd rfl hne
  | cons c s => exact findFirstNotOf_append hpad (hs.front c rfl) _

theorem findLastNotOf_of_bare (hs : Bare p q s) (hne : s ≠ []) (hpad : ∀ c ∈ pad, q c = true)
    (t : List α) : findLastNotOf q (t ++ (s ++ pad)) = some (t.length + s.length - 1) := by
  obtain ⟨s, c, rfl⟩ := (List.eq_nil_or_concat' s).resolve_left hne
  have hc : q c = false := hs.back c (by simp)
  have hassoc : t ++ (s ++ [c] ++ pad) = (t ++ s) ++ c :: pad := by simp
  rw [hassoc, findLastNotOf_append hpad hc, List.length_append, List.length_append,
    List.length_singleton]
  congr 1

theorem between_append (t : List α) (hne : s ≠ []) (t' : List α) :
    between (t ++ (s ++ t')) t.length (some (t.length + s.length - 1)) = s := by
  have hpos := List.length_pos_iff.mpr hne
  have hlen : t.length + s.length - 1 + 1 - t.length = s.length := by omega
  rw [between, List.drop_left, hlen, List.take_left]

/-- **Stripping** takes the blanks around a field away and nothing of the field. -/
theorem trim_padded (hs : Bare p q s) (hpq : ∀ c, p c = true → q c = true)
    (hpad : ∀ c ∈ pad, p c = true) (hpad' : ∀ c ∈ pad', p c = true) :
    trim p q (pad ++ (s ++ pad')) = s := by
  rw [trim]
  by_cases hne : s = []
  · have hall : ∀ c ∈ pad ++ (s ++ pad'), p c = true := by
      intro c hc
      rw [hne, List.nil_append, List.mem_append] at hc
      exact hc.elim (hpad c) (hpad' c)
    rw [findFirstNotOf_eq_none hall, hne]
  · rw [findFirstNotOf_of_bare hs hne hpad,
      findLastNotOf_of_bare hs hne fun c hc => hpq c (hpad' c hc)]
    exact between_append pad hne pad'

theorem between_of_bare (hs : Bare p q s) (hne : s ≠ []) :
    findFirstNotOf p s = some 0 ∧ between s 0 (findLastNotOf q s) = s := by
  have hfirst := findFirstNotOf_of_bare hs hne (List.forall_mem_nil _) []
  have hlast := findLastNotOf_of_bare hs hne (List.forall_mem_nil _) []
  have hall := between_append [] hne []
  rw [List.nil_append, List.append_nil] at hfirst hlast hall
  rw [hfirst, hlast]
  exact ⟨rfl, hall⟩

end Stripping

/-! ## Blanks and line breaks -/

section Blanks

/-- `" \t"`. -/
def isBlank (c : Char) : Bool := c = ' ' || c = '\t'

/-- `" \t\r\n"`. -/
def isSpace (c : Char) : Bool := c = ' ' || c = '\t' || c = '\r' || c = '\n'

/-- No line breaks in it, and no blanks around it. -/
structure IsField (s : List Char) : Prop where
  oneLine : '\n' ∉ s ∧ '\r' ∉ s
  bare : Bare isBlank isBlank s

variable {s : List Char}

theorem isSpace_of_isBlank (c : Char) (h : isBlank c = true) : isSpace c = true := by
  simp only [isBlank, isSpace, Bool.or_eq_true] at h ⊢
  exact Or.inl (Or.inl h)

theorem isSpace_eq_false_iff {c : Char} :
    isSpace c = false ↔ isBlank c = false ∧ c ≠ '\r' ∧ c ≠ '\n' := by
  simp only [isBlank, isSpace, Bool.or_eq_false_iff, decide_eq_false_iff_not, and_assoc]

theorem isSpace_eq_false_of_any (h : s.any isSpace = false) : ∀ c ∈ s, isSpace c = false :=
  fun c hc => eq_false_of_ne_true (List.any_eq_false.mp h c hc)

/-- A kind of characters that has no spaces. -/
theorem isSpace_eq_false_of_kind {kind : Char → Bool} {c : Char}
    (hkind : ([' ', '\t', '\r', '\n'].any kind) = false) (h : kind c = true) :
    isSpace c = false := by
  rw [← Bool.not_eq_true]
  intro hspace
  have hmem : c ∈ [' ', '\t', '\r', '\n'] := by
    simpa [isSpace, or_assoc] using hspace
  exact List.any_eq_false.mp hkind c hmem h

/-- There are no spaces of any kind around a field. -/
theorem IsField.bare_space (h : IsField s) : Bare isSpace isSpace s := by
  have hbreak {c : Char} (hc : c ∈ s) : c ≠ '\r' ∧ c ≠ '\n' := by
    constructor
    · rintro rfl
      exact h.oneLine.2 hc
    · rintro rfl
      exact h.oneLine.1 hc
  constructor
  · intro c hc
    exact isSpace_eq_false_iff.mpr ⟨h.bare.front c hc, hbreak (List.mem_of_mem_head? hc)⟩
  · intro c hc
    exact isSpace_eq_false_iff.mpr ⟨h.bare.back c hc, hbreak (List.mem_of_getLast? hc)⟩

/-- A word without any spaces is a field. -/
theorem isField_of_forall (h : ∀ c ∈ s, isSpace c = false) : IsField s := by
  refine ⟨⟨fun hc => ?_, fun hc => ?_⟩, bare_of_forall fun c hc => ?_⟩
  · exact (isSpace_eq_false_iff.mp (h _ hc)).2.2 rfl
  · exact (isSpace_eq_false_iff.mp (h _ hc)).2.1 rfl
  · exact ⟨(isSpace_eq_false_iff.mp (h c hc)).1, (isSpace_eq_false_iff.mp (h c hc)).1⟩

end Blanks

end TextLines
