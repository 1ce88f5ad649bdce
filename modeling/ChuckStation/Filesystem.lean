/-
# The virtual filesystem: guest paths

The mount table of `Filesystem.cpp`, the normalisation of guest paths and their resolution to
host paths, for either format of the host.
-/
import ChuckStation.HostPath

namespace Filesystem

open PathGrammar HostPath

/-! ## Mount table -/

structure MountEntry where
  guestPrefix : List Char
  hostPath : Path
  valid : Bool := false
  readOnly : Bool := false
  deriving DecidableEq

inductive MountPoint where
  | app0
  | saveData
  | system
  | temp
  | user
  | hostApp
  deriving DecidableEq, Repr

/-- The slot of a mount point in the table. -/
def MountPoint.index : MountPoint → ℕ
  | app0 => 0
  | saveData => 1
  | system => 2
  | temp => 3
  | user => 4
  | hostApp => 5

def kMountPrefix : List (List Char) :=
  [['/', 'a', 'p', 'p', '0'],
   ['/', 's', 'a', 'v', 'e', 'd', 'a', 't', 'a'],
   ['/', 's', 'y', 's', 't', 'e', 'm'],
   ['/', 't', 'e', 'm', 'p'],
   ['/', 'u', 's', 'e', 'r'],
   ['/', 'h', 'o', 's', 't', 'a', 'p', 'p']]

/-! ## Guest paths -/

def isSlash (c : Char) : Bool := c == '/'

/-- The body of the loop over the segments. -/
def pushSegment (parts : List Path) (seg : Path) : List Path :=
  if seg.isEmpty || seg == dot then parts
  else if seg == dotDot then if parts.isEmpty then parts else parts.dropLast
  else parts ++ [seg]

/-- The segments that `std::getline` reads, on a stack. -/
def normalParts (path : Path) : List Path := (pieces isSlash [] path).foldl pushSegment []

def normaliseImpl (path : Path) : Path := '/' :: ['/'].intercalate (normalParts path)

/-- The mount claims the guest path: its prefix, or something below it. -/
def MountEntry.covers (m : MountEntry) (guest : Path) : Bool :=
  guest == m.guestPrefix || (m.guestPrefix ++ ['/']).isPrefixOf guest

/-- What follows the prefix, without its first slash. -/
def MountEntry.rel (m : MountEntry) (guest : Path) : Path :=
  match guest.drop m.guestPrefix.length with
  | [] => []
  | c :: rest => if c == '/' then rest else c :: rest

def MountEntry.host (f : Format) (m : MountEntry) (guest : Path) : Path :=
  if (m.rel guest).isEmpty then m.hostPath else f.append m.hostPath (m.rel guest)

/-- The first mount that claims the path. -/
def mountOf (mounts : List MountEntry) (guest : Path) : Option MountEntry :=
  mounts.find? fun m => m.valid && m.covers guest

def resolveImpl (f : Format) (mounts : List MountEntry) (guestRaw : Path) : Option Path :=
  let guest := normaliseImpl guestRaw
  (mountOf mounts guest).map fun m => m.host f guest

/-! ## Normal form -/

/-- A guest name: not empty, no kind of dots, no slash inside. -/
def GuestName (c : Path) : Prop := c ≠ [] ∧ c ≠ dot ∧ c ≠ dotDot ∧ '/' ∉ c

theorem guestName_of_mem_pushSegment {parts : List Path} {seg c : Path}
    (hparts : ∀ c ∈ parts, GuestName c) (hseg : ∀ x ∈ seg, isSlash x = false)
    (hc : c ∈ pushSegment parts seg) : GuestName c := by
  rw [pushSegment] at hc
  split_ifs at hc with hskip hup hnil
  · exact hparts c hc
  · exact hparts c hc
  · exact hparts c (List.mem_of_mem_dropLast hc)
  · rcases List.mem_append.mp hc with hc | hc
    · exact hparts c hc
    · rw [List.mem_singleton.mp hc]
      simp only [Bool.or_eq_true, List.isEmpty_iff, beq_iff_eq, not_or] at hskip
      refine ⟨hskip.1, hskip.2, by simpa using hup, fun hslash => ?_⟩
      exact absurd (hseg '/' hslash) (by decide)

/-- Whatever the guest writes, only names are left on the stack. -/
theorem guestName_of_mem_normalParts (path : Path) : ∀ c ∈ normalParts path, GuestName c := by
  have hseg : ∀ seg ∈ pieces isSlash [] path, ∀ x ∈ seg, isSlash x = false := fun seg h =>
    sep_of_mem_pieces (fun x hx => absurd hx List.not_mem_nil) h
  rw [normalParts]
  generalize pieces isSlash [] path = segs at hseg
  have hrun : ∀ parts : List Path, (∀ c ∈ parts, GuestName c) →
      ∀ c ∈ segs.foldl pushSegment parts, GuestName c := by
    induction segs with
    | nil => exact fun parts hparts => hparts
    | cons seg segs ih =>
        obtain ⟨hseg, hsegs⟩ := List.forall_mem_cons.mp hseg
        exact fun parts hparts => ih hsegs _ fun c => guestName_of_mem_pushSegment hparts hseg
  exact hrun [] fun c hc => absurd hc List.not_mem_nil

theorem intercalate_cons (c : Path) (cs : List Path) :
    ['/'].intercalate (c :: cs) = c ++ joined '/' cs := by
  induction cs generalizing c with
  | nil => simp [joined]
  | cons d cs ih => rw [List.intercalate_cons_cons, ih]; simp [joined]

theorem normaliseImpl_eq (path : Path) : normaliseImpl path = ['/'] ∧ normalParts path = [] ∨
    normaliseImpl path = joined '/' (normalParts path) ∧ normalParts path ≠ [] := by
  rw [normaliseImpl]
  cases hparts : normalParts path with
  | nil => exact Or.inl ⟨rfl, rfl⟩
  | cons c cs =>
      rw [intercalate_cons]
      exact Or.inr ⟨rfl, by simp⟩

theorem rel_of_append (m : MountEntry) (rest : Path) :
    m.rel (m.guestPrefix ++ '/' :: rest) = rest := by
  rw [MountEntry.rel, List.drop_left]
  rfl

/-- Behind the prefix of a mount there is nothing, or names with slashes between them. -/
theorem rel_cases {m : MountEntry} {path : Path} (h : m.covers (normaliseImpl path) = true) :
    m.rel (normaliseImpl path) = [] ∨
      ∃ c cs, m.rel (normaliseImpl path) = c ++ joined '/' cs ∧ ∀ d ∈ c :: cs, GuestName d := by
  rw [MountEntry.covers, Bool.or_eq_true, beq_iff_eq, List.isPrefixOf_iff_prefix] at h
  rcases h with heq | ⟨rest, hrest⟩
  · left
    rw [heq, MountEntry.rel, List.drop_length]
  · rw [List.append_assoc, List.singleton_append] at hrest
    have hnames := guestName_of_mem_normalParts path
    rw [← hrest, rel_of_append]
    rcases normaliseImpl_eq path with ⟨hroot, -⟩ | ⟨hjoined, -⟩
    · left
      have hboth : m.guestPrefix = [] ∧ rest = [] := by
        simpa [hroot, List.append_eq_singleton_iff] using hrest
      exact hboth.2
    · right
      rw [hjoined] at hrest
      obtain ⟨c, cs, hsuffix, hc⟩ := joined_eq_append (fun d hd => (hnames d hd).2.2.2) hrest.symm
      exact ⟨c, cs, hc, fun d hd => hnames d (hsuffix.subset hd)⟩

end Filesystem
