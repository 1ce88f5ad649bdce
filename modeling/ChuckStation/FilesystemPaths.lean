/-
# The virtual filesystem: laws of path normalisation

The stack that `NormaliseImpl` fills holds the names that the components of the path walk down,
so that the laws of walking (`PathGrammar`) become laws of normal paths:

* `normaliseImpl_laws`: the shape of a normal path, idempotence, and the composition of a
  path with what is appended to it, step by step or at once.
-/
import ChuckStation.Filesystem

namespace Filesystem

open PathGrammar HostPath

/-! ## The stack as a walk -/

/-- One segment on the stack, as a step that forgets how far above the root it leads. -/
theorem pushSegment_walkStep (l : ℕ × List Path) {seg : Path} (hseg : seg ≠ []) :
    pushSegment l.2 seg = (walkStep dot dotDot l seg).2 := by
  rw [pushSegment, walkStep]
  by_cases hdot : seg = dot
  · simp [hdot]
  · rw [if_neg (by simp [hseg, hdot]), if_neg hdot]
    by_cases hup : seg = dotDot
    · rw [if_pos (by simpa using hup), if_pos hup]
      by_cases hnil : l.2 = []
      · rw [if_pos (by simpa using hnil), if_pos hnil, hnil]
      · rw [if_neg (by simpa using hnil), if_neg hnil]
    · rw [if_neg (by simpa using hup), if_neg hup]

/-- Segments that are empty do nothing, the others take the walk a step on. -/
theorem foldl_pushSegment (segs : List Path) (l : ℕ × List Path) :
    segs.foldl pushSegment l.2 =
      ((segs.filter fun seg => !seg.isEmpty).foldl (walkStep dot dotDot) l).2 := by
  induction segs generalizing l with
  | nil => rfl
  | cons seg segs ih =>
      cases seg with
      | nil => exact ih l
      | cons c seg =>
          rw [List.foldl_cons, pushSegment_walkStep l (List.cons_ne_nil c seg), ih]
          rfl

/-- The names left on the stack are the names that the path walks down. -/
theorem normalParts_eq_walk (path : Path) :
    normalParts path = (walk dot dotDot (components isSlash path)).2 :=
  foldl_pushSegment (pieces isSlash [] path) (0, [])

theorem walk_of_guestNames {cs : List Path} (h : ∀ c ∈ cs, GuestName c) :
    walk dot dotDot cs = (0, cs) := by
  apply walk_of_names
  intro c hc
  exact ⟨(h c hc).2.1, (h c hc).2.2.1⟩

/-- A normal path is cut into the names it was joined of. -/
theorem components_normaliseImpl (path : Path) :
    components isSlash (normaliseImpl path) = normalParts path := by
  rcases normaliseImpl_eq path with ⟨hroot, hnil⟩ | ⟨hjoined, -⟩
  · rw [hroot, hnil]
    rfl
  · rw [hjoined]
    apply components_joined (by rfl)
    intro c hc
    obtain ⟨hne, -, -, hslash⟩ := guestName_of_mem_normalParts path c hc
    refine ⟨hne, fun x hx => ?_⟩
    rw [isSlash, beq_eq_false_iff_ne]
    rintro rfl
    exact hslash hx

/-- The second of two walks sees only the names the first one leads down. -/
theorem follow_names (l m : ℕ × List Path) : (follow l m).2 = (follow (0, l.2) m).2 := by
  rw [follow, follow]
  split_ifs <;> rfl

theorem normalParts_append (p q : Path) :
    normalParts (p ++ '/' :: q) =
      (follow (0, normalParts p) (walk dot dotDot (components isSlash q))).2 := by
  rw [normalParts_eq_walk, components_append (by rfl), walk_append, follow_names,
    ← normalParts_eq_walk]

/-! ## Laws -/

theorem normalParts_normaliseImpl (path : Path) :
    normalParts (normaliseImpl path) = normalParts path := by
  rw [normalParts_eq_walk, components_normaliseImpl,
    walk_of_guestNames (guestName_of_mem_normalParts path)]

theorem normaliseImpl_idem (path : Path) :
    normaliseImpl (normaliseImpl path) = normaliseImpl path := by
  rw [normaliseImpl, normalParts_normaliseImpl, ← normaliseImpl]

/-- `..` of what is appended pops names of what it is appended to, normal or not. -/
theorem normaliseImpl_append (p q : Path) :
    normaliseImpl (p ++ '/' :: q) = normaliseImpl (normaliseImpl p ++ '/' :: q) := by
  have hparts : normalParts (p ++ '/' :: q) = normalParts (normaliseImpl p ++ '/' :: q) := by
    rw [normalParts_append, normalParts_append, normalParts_normaliseImpl]
  rw [normaliseImpl, hparts, ← normaliseImpl]

/-- Going on from a normal path, one relative path after the other. -/
def resolveSteps (cur : Path) (steps : List Path) : Path :=
  steps.foldl (fun cur q => normaliseImpl (cur ++ '/' :: q)) cur

/-- Any number of relative paths, one at a time or joined to one path. -/
theorem resolveSteps_eq (p : Path) (steps : List Path) :
    resolveSteps (normaliseImpl p) steps = normaliseImpl (p ++ joined '/' steps) := by
  induction steps generalizing p with
  | nil => simp [resolveSteps, joined]
  | cons q steps ih =>
      have hstep : resolveSteps (normaliseImpl p) (q :: steps) =
          resolveSteps (normaliseImpl (normaliseImpl p ++ '/' :: q)) steps := rfl
      rw [hstep, ← normaliseImpl_append, ih]
      simp [joined]

/-! ## The shape of a normal path -/

/-- The components behind the leading slash, empty ones included. -/
def segmentsOf (path : Path) : List Path := (path.drop 1).splitOn '/'

/-- A path in normal form: the root, or a slash before each of its names. -/
structure Normal (path : Path) : Prop where
  rooted : path.head? = some '/'
  segments : path = ['/'] ∨ ∀ seg ∈ segmentsOf path, seg ≠ [] ∧ seg ≠ dot ∧ seg ≠ dotDot
  trailing : path.getLast? = some '/' → path = ['/']

/-- Behind the leading slash stand the names of the stack. -/
theorem segmentsOf_normaliseImpl {path : Path} (h : normalParts path ≠ []) :
    segmentsOf (normaliseImpl path) = normalParts path := by
  rw [segmentsOf, normaliseImpl, List.drop_one, List.tail_cons]
  apply List.splitOn_intercalate '/' ?_ h
  intro c hc
  exact (guestName_of_mem_normalParts path c hc).2.2.2

/-- Joined names end as the last of them does. -/
theorem getLast?_joined {cs : List Path} (h : ∀ c ∈ cs, c ≠ [] ∧ '/' ∉ c) :
    (joined '/' cs).getLast? ≠ some '/' := by
  induction cs using List.reverseRecOn with
  | nil => simp [joined]
  | append_singleton cs c _ =>
      obtain ⟨hne, hslash⟩ := h c (by simp)
      have hsplit : joined '/' (cs ++ [c]) = (joined '/' cs ++ ['/']) ++ c := by simp [joined]
      rw [hsplit, List.getLast?_append_of_ne_nil _ hne, List.getLast?_eq_some_getLast hne]
      intro hlast
      apply hslash
      rw [← Option.some_inj.mp hlast]
      exact List.getLast_mem hne

theorem normal_normaliseImpl (path : Path) : Normal (normaliseImpl path) := by
  have hnames := guestName_of_mem_normalParts path
  refine ⟨rfl, ?_, ?_⟩
  · rcases normaliseImpl_eq path with ⟨hroot, -⟩ | ⟨-, hne⟩
    · exact Or.inl hroot
    · right
      rw [segmentsOf_normaliseImpl hne]
      intro c hc
      exact ⟨(hnames c hc).1, (hnames c hc).2.1, (hnames c hc).2.2.1⟩
  · rcases normaliseImpl_eq path with ⟨hroot, -⟩ | ⟨hjoined, -⟩
    · intro _
      exact hroot
    · intro hlast
      rw [hjoined] at hlast
      exact absurd hlast (getLast?_joined fun c hc => ⟨(hnames c hc).1, (hnames c hc).2.2.2⟩)

/-- Normalisation: normal form, idempotence, and paths resolved step by step or at once. -/
theorem normaliseImpl_laws (p q : Path) :
    Normal (normaliseImpl p) ∧ normaliseImpl (normaliseImpl p) = normaliseImpl p ∧
      normaliseImpl (p ++ '/' :: q) = normaliseImpl (normaliseImpl p ++ '/' :: q) ∧
      (∀ steps : List Path,
        resolveSteps (normaliseImpl p) steps = normaliseImpl (p ++ joined '/' steps)) ∧
      ∀ (f : Format) (mounts : List MountEntry),
        resolveImpl f mounts (p ++ '/' :: q) =
          resolveImpl f mounts (normaliseImpl p ++ '/' :: q) := by
  refine ⟨normal_normaliseImpl p, normaliseImpl_idem p, normaliseImpl_append p q,
    resolveSteps_eq p, fun f mounts => ?_⟩
  rw [resolveImpl, resolveImpl, normaliseImpl_append]

end Filesystem
