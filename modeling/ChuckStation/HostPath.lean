/-
# Host paths

`std::filesystem::path` as the text it keeps, in the two formats of the hosts: which part of
the text names a root, when a path is absolute, what `operator/=` makes of two paths, and
which place of the host a path names by its text alone.

* `Format.append`: `operator/=`;
* `Format.location`: root, names below it and, for a relative path, the steps up before them;
* `Location.Within`: a place inside a directory.
-/
import ChuckStation.PathGrammar

namespace HostPath

open PathGrammar

abbrev Path := List Char

/-- The path formats of the hosts. -/
inductive Format where
  | posix
  | windows
  deriving DecidableEq, Repr

namespace Format

variable (f : Format)

/-! ## Parts of a path -/

def isSep : Format → Char → Bool
  | posix, c => c == '/'
  | windows, c => c == '/' || c == '\\'

/-- `path::preferred_separator`. -/
def preferred : Format → Char
  | posix => '/'
  | windows => '\\'

/-- The text starts with a drive such as `C:`. -/
def hasDrive : Path → Bool
  | c :: d :: _ => c.isAlpha && d == ':'
  | _ => false

/-- The text starts with a server such as `\\server`. -/
def hasServer : Path → Bool
  | c :: d :: e :: _ => windows.isSep c && windows.isSep d && !windows.isSep e
  | _ => false

/-- `path::root_name`. -/
def rootName : Format → Path → Path
  | posix, _ => []
  | windows, p =>
      if hasDrive p then p.take 2
      else if hasServer p then p.take 2 ++ (p.drop 2).takeWhile fun c => !windows.isSep c
      else []

/-- The path without its root name. -/
def afterRoot (p : Path) : Path := p.drop (f.rootName p).length

/-- `path::has_root_directory`. -/
def hasRootDirectory (p : Path) : Bool := (f.afterRoot p).head?.any f.isSep

/-- `path::is_absolute`: a drive alone does not make a path absolute, a server does. -/
def isAbsolute : Format → Path → Bool
  | posix, p => posix.hasRootDirectory p
  | windows, p => if hasDrive p then windows.hasRootDirectory p else windows.rootName p != []

/-- `path::has_filename`. -/
def hasFilename (p : Path) : Bool := (f.afterRoot p).getLast?.any fun c => !f.isSep c

/-! ## Appending -/

/-- What `operator/=` puts between the two paths. -/
def separator (p : Path) : Path :=
  if f.hasFilename p || (!f.hasRootDirectory p && f.isAbsolute p) then [f.preferred] else []

/-- The path on the right replaces the one on the left. -/
def replaces (p q : Path) : Bool :=
  f.isAbsolute q || (f.rootName q != [] && f.rootName q != f.rootName p)

/-- `path::operator/=`. -/
def append (p q : Path) : Path :=
  if f.replaces p q then q
  else if f.hasRootDirectory q then f.rootName p ++ f.afterRoot q
  else p ++ f.separator p ++ f.afterRoot q

/-! ## Parents -/

/-- The relative part of a path: no root name, and no separators in front. -/
def relativePart (p : Path) : Path := (f.afterRoot p).dropWhile f.isSep

/-- `path::parent_path`: the last name goes, and the separators before it, down to the root. -/
def parentPath (p : Path) : Path :=
  let rel := f.relativePart p
  p.take (p.length - rel.length) ++ (rel.rdropWhile fun c => !f.isSep c).rdropWhile f.isSep

/-- The paths up to the end of each name of `p`, behind `done`. -/
def stagesFrom (f : Format) : Path → Bool → Path → List Path
  | done, inName, [] => if inName then [done] else []
  | done, inName, c :: rest =>
      if f.isSep c then
        (if inName then [done] else []) ++ stagesFrom f (done ++ [c]) false rest
      else stagesFrom f (done ++ [c]) true rest

/-- The directories `create_directories` makes sure of, one after another. -/
def stages (p : Path) : List Path := f.stagesFrom (f.rootName p) false (f.afterRoot p)

end Format

/-! ## Places -/

def dot : Path := ['.']

def dotDot : Path := ['.', '.']

/-- The place a path names by its text: the root, whether the names are below its root
directory, and if they are not, how many steps up they start. -/
structure Location where
  root : Path
  rooted : Bool
  ups : ℕ
  names : List Path
  ups_of_rooted : rooted = true → ups = 0
  deriving DecidableEq

namespace Location

/-- A root directory is its own parent. -/
def of (root : Path) (rooted : Bool) (w : ℕ × List Path) : Location :=
  { root := root, rooted := rooted, ups := if rooted then 0 else w.1, names := w.2,
    ups_of_rooted := fun h => if_pos h }

/-- A place inside the directory `d`, or the directory itself. -/
def Within (d l : Location) : Prop :=
  l.root = d.root ∧ l.rooted = d.rooted ∧ l.ups = d.ups ∧ d.names <+: l.names

instance (d l : Location) : Decidable (d.Within l) := by
  unfold Within; infer_instance

/-- Where the steps `w` lead from `l`. -/
def descend (l : Location) (w : ℕ × List Path) : Location :=
  of l.root l.rooted (follow (l.ups, l.names) w)

/-- Steps that lead back into the directory they start from, should they leave it. -/
def Returns (d : Location) (w : ℕ × List Path) : Prop :=
  (w.1 ≤ d.names.length ∨ d.rooted = true) ∧
    d.names.drop (d.names.length - w.1) <+: w.2

instance (d : Location) (w : ℕ × List Path) : Decidable (d.Returns w) := by
  unfold Returns; infer_instance

theorem within_refl (d : Location) : d.Within d := ⟨rfl, rfl, rfl, List.prefix_refl _⟩

theorem of_descend (r : Path) (b : Bool) (w m : ℕ × List Path) :
    (of r b w).descend m = of r b (follow w m) := by
  cases b with
  | false => rfl
  | true =>
      simp only [descend, of, follow, if_true]
      split_ifs <;> rfl

/-- Steps that do not go up stay inside. -/
theorem returns_of_down (d : Location) {w : ℕ × List Path} (h : w.1 = 0) : d.Returns w := by
  refine ⟨Or.inl (by omega), ?_⟩
  rw [h, Nat.sub_zero, List.drop_length]
  exact List.nil_prefix

theorem within_descend_iff (d : Location) (w : ℕ × List Path) :
    d.Within (d.descend w) ↔ d.Returns w := by
  by_cases hle : w.1 ≤ d.names.length
  · have hups : (d.descend w).ups = d.ups := by
      simp only [descend, of, follow, if_pos hle]
      split_ifs with hrooted
      · exact (d.ups_of_rooted hrooted).symm
      · rfl
    have hnames : (d.descend w).names = d.names.take (d.names.length - w.1) ++ w.2 := by
      simp only [descend, of, follow, if_pos hle]
    -- The names that are kept are a prefix anyway.
    have hprefix : d.names <+: d.names.take (d.names.length - w.1) ++ w.2 ↔
        d.names.drop (d.names.length - w.1) <+: w.2 := by
      conv_lhs => lhs; rw [← List.take_append_drop (d.names.length - w.1) d.names]
      exact List.prefix_append_right_inj _
    constructor
    · rintro ⟨-, -, -, h⟩
      rw [hnames, hprefix] at h
      exact ⟨Or.inl hle, h⟩
    · rintro ⟨-, h⟩
      refine ⟨rfl, rfl, hups, ?_⟩
      rw [hnames, hprefix]
      exact h
  · -- It goes up further than there are names.
    have hdrop : d.names.length - w.1 = 0 := by omega
    have hnames : (d.descend w).names = w.2 := by
      simp only [descend, of, follow, if_neg hle]
    constructor
    · rintro ⟨-, -, hups, h⟩
      rw [hnames] at h
      refine ⟨Or.inr ?_, ?_⟩
      · by_contra hrooted
        simp only [descend, of, follow, if_neg hle, if_neg hrooted] at hups
        omega
      · rw [hdrop, List.drop_zero]
        exact h
    · rintro ⟨hrooted, h⟩
      replace hrooted := hrooted.resolve_left hle
      refine ⟨rfl, rfl, ?_, ?_⟩
      · rw [d.ups_of_rooted hrooted]
        exact (d.descend w).ups_of_rooted hrooted
      · rw [hdrop, List.drop_zero] at h
        rw [hnames]
        exact h

end Location

namespace Format

variable (f : Format)

/-- The components of a path behind its root name. -/
def steps (p : Path) : List Path := components f.isSep (f.afterRoot p)

/-- The root name with the preferred separators. -/
def rootOf (p : Path) : Path :=
  (f.rootName p).map fun c => if f.isSep c then f.preferred else c

/-- The names start at a root: a root directory, or the share of a server. -/
def rooted (p : Path) : Bool := f.hasRootDirectory p || f.isAbsolute p

def location (p : Path) : Location :=
  Location.of (f.rootOf p) (f.rooted p) (walk dot dotDot (f.steps p))

/-- Two separators and nothing else: whatever comes next names a server. -/
def opensServer : Format → Path → Bool
  | windows, [c, d] => windows.isSep c && windows.isSep d
  | _, _ => false

/-! ## Roots of longer texts -/

section Roots

variable {f : Format} {p q t : Path}

theorem isSep_preferred : f.isSep f.preferred = true := by
  cases f <;> rfl

theorem rootName_of_hasDrive (h : hasDrive p = true) : windows.rootName p = p.take 2 :=
  if_pos h

theorem rootName_of_hasServer (h : hasServer p = true) :
    windows.rootName p = p.take 2 ++ (p.drop 2).takeWhile fun c => !windows.isSep c := by
  have hdrive : hasDrive p = false := by
    match p with
    | c :: d :: e :: _ =>
        simp only [hasServer, isSep, Bool.and_eq_true, Bool.or_eq_true, beq_iff_eq] at h
        obtain ⟨⟨rfl | rfl, -⟩, -⟩ := h <;> rfl
  rw [rootName, hdrive, if_neg Bool.false_ne_true, if_pos h]

theorem rootName_of_no_root (hdrive : hasDrive p = false) (hserver : hasServer p = false) :
    windows.rootName p = [] := by
  rw [rootName, hdrive, hserver, if_neg Bool.false_ne_true, if_neg Bool.false_ne_true]

theorem rootName_isPrefixOf (f : Format) (p : Path) : f.rootName p <+: p := by
  cases f with
  | posix => exact List.nil_prefix
  | windows =>
      rw [rootName]
      split_ifs
      · exact List.take_prefix _ _
      · conv_rhs => rw [← List.take_append_drop 2 p]
        exact (List.prefix_append_right_inj _).mpr (List.takeWhile_prefix _)
      · exact List.nil_prefix

/-- A longer text has the same root name, unless the text in front only began one. -/
theorem windows_rootName_append (hopen : windows.opensServer p = false ∨ t = [])
    (hshort : p.length < 2 → windows.rootName (p ++ t) = [])
    (hserver : hasServer p = true → windows.afterRoot p = [] → t.head?.all windows.isSep) :
    windows.rootName (p ++ t) = windows.rootName p := by
  match p with
  | [] => exact hshort Nat.zero_lt_two
  | [c] =>
      rw [hshort Nat.one_lt_two]
      rfl
  | [c, d] =>
      cases hdrive : hasDrive [c, d] with
      | true =>
          have hdrive' : hasDrive ([c, d] ++ t) = true := by rw [← hdrive]; rfl
          rw [rootName_of_hasDrive hdrive, rootName_of_hasDrive hdrive']
          rfl
      | false =>
          have hdrive' : hasDrive ([c, d] ++ t) = false := by rw [← hdrive]; rfl
          have hnot : hasServer ([c, d] ++ t) = false := by
            rcases hopen with hopen | rfl
            · cases t with
              | nil => rfl
              | cons e t =>
                  change (windows.isSep c && windows.isSep d) = false at hopen
                  change (windows.isSep c && windows.isSep d && !windows.isSep e) = false
                  rw [hopen]
                  rfl
            · rfl
          rw [rootName_of_no_root hdrive rfl, rootName_of_no_root hdrive' hnot]
  | c :: d :: e :: p =>
      cases hdrive : hasDrive (c :: d :: e :: p) with
      | true =>
          have hdrive' : hasDrive (c :: d :: e :: p ++ t) = true := by rw [← hdrive]; rfl
          rw [rootName_of_hasDrive hdrive, rootName_of_hasDrive hdrive']
          rfl
      | false =>
          have hdrive' : hasDrive (c :: d :: e :: p ++ t) = false := by rw [← hdrive]; rfl
          cases hhas : hasServer (c :: d :: e :: p) with
          | false =>
              have hnot : hasServer (c :: d :: e :: p ++ t) = false := by rw [← hhas]; rfl
              rw [rootName_of_no_root hdrive hhas, rootName_of_no_root hdrive' hnot]
          | true =>
              have hhas' : hasServer (c :: d :: e :: p ++ t) = true := by rw [← hhas]; rfl
              have hname := rootName_of_hasServer hhas
              -- The name of the server ends inside the text in front, or right behind it.
              have hend : ((e :: p ++ t).takeWhile fun c => !windows.isSep c) =
                  (e :: p).takeWhile fun c => !windows.isSep c := by
                rw [List.takeWhile_append]
                split_ifs with hlen
                · have htail : windows.afterRoot (c :: d :: e :: p) = [] := by
                    rw [afterRoot, hname, List.drop_eq_nil_iff]
                    simp only [List.take_succ_cons, List.take_zero, List.drop_succ_cons,
                      List.drop_zero, List.length_append, hlen, List.length_cons, List.length_nil]
                    omega
                  have hsep := hserver hhas htail
                  have hnil : (t.takeWhile fun c => !windows.isSep c) = [] := by
                    cases t with
                    | nil => rfl
                    | cons x t =>
                        simp only [List.head?_cons, Option.all_some] at hsep
                        simp [hsep]
                  rw [hnil, List.append_nil]
                  exact ((List.takeWhile_prefix _).eq_of_length hlen).symm
                · rfl
              rw [hname, rootName_of_hasServer hhas']
              change _ ++ ((e :: p ++ t).takeWhile fun c => !windows.isSep c) = _
              rw [hend]
              rfl

theorem afterRoot_append (h : f.rootName (p ++ t) = f.rootName p) :
    f.afterRoot (p ++ t) = f.afterRoot p ++ t := by
  rw [afterRoot, afterRoot, h, List.drop_append_of_le_length (rootName_isPrefixOf f p).length_le]

theorem rootName_rootName (f : Format) (p : Path) :
    f.rootName (f.rootName p) = f.rootName p := by
  cases f with
  | posix => rfl
  | windows =>
      conv_rhs => rw [rootName]
      split_ifs with hdrive hserver
      · rw [rootName_of_hasDrive hdrive]
        match p with
        | c :: d :: p => exact rootName_of_hasDrive (p := [c, d]) hdrive
      · rw [rootName_of_hasServer hserver]
        match p with
        | c :: d :: e :: p =>
            have he : (fun c => !windows.isSep c) e = true := ((Bool.and_eq_true _ _).mp hserver).2
            have hcut : c :: d :: ((e :: p).takeWhile fun c => !windows.isSep c) =
                c :: d :: e :: p.takeWhile fun c => !windows.isSep c := by
              rw [List.takeWhile_cons, if_pos he]
            have hserver' : hasServer
                (c :: d :: e :: p.takeWhile fun c => !windows.isSep c) = true := hserver
            change windows.rootName (c :: d :: (e :: p).takeWhile fun c => !windows.isSep c) =
              c :: d :: (e :: p).takeWhile fun c => !windows.isSep c
            rw [hcut, rootName_of_hasServer hserver']
            change c :: d :: (e :: p.takeWhile fun c => !windows.isSep c).takeWhile _ = _
            rw [List.takeWhile_cons, if_pos he, List.takeWhile_takeWhile]
            simp
      · rw [rootName_of_no_root (Bool.eq_false_of_not_eq_true hdrive)
          (Bool.eq_false_of_not_eq_true hserver)]
        rfl

/-- A root directory or a server: the names of the path start at its root. -/
theorem rooted_eq (f : Format) (p : Path) :
    f.rooted p = (f.hasRootDirectory p || (f.rootName p).head?.any f.isSep) := by
  cases f with
  | posix => simp [rooted, isAbsolute, rootName]
  | windows =>
      rw [rooted, isAbsolute]
      cases hdrive : hasDrive p with
      | true =>
          rw [if_pos rfl, rootName_of_hasDrive hdrive]
          match p with
          | c :: d :: p =>
              have hletter : windows.isSep c = false := by
                simp only [hasDrive, Bool.and_eq_true] at hdrive
                by_contra hsep
                simp only [isSep, Bool.not_eq_false, Bool.or_eq_true, beq_iff_eq] at hsep
                rcases hsep with rfl | rfl <;> exact absurd hdrive.1 (by decide)
              simp [hletter]
      | false =>
          rw [if_neg Bool.false_ne_true]
          cases hserver : hasServer p with
          | true =>
              rw [rootName_of_hasServer hserver]
              match p with
              | c :: d :: e :: p =>
                  simp only [hasServer, Bool.and_eq_true] at hserver
                  simp [hserver.1.1]
          | false =>
              rw [rootName_of_no_root hdrive hserver]
              simp

end Roots

/-! ## Places of appended paths -/

section Append

variable {f : Format} {p q : Path}

/-- What is appended starts behind a separator, or at the end of an empty path. -/
theorem separator_cases (f : Format) (p : Path) :
    f.separator p = [f.preferred] ∨
      f.separator p = [] ∧ (f.afterRoot p = [] ∨
        ∃ b c, f.afterRoot p = b ++ [c] ∧ f.isSep c = true) := by
  rw [separator]
  split_ifs with h
  · exact Or.inl rfl
  · refine Or.inr ⟨rfl, ?_⟩
    rcases List.eq_nil_or_concat (f.afterRoot p) with hnil | ⟨b, c, hlast⟩
    · exact Or.inl hnil
    · rw [List.concat_eq_append] at hlast
      refine Or.inr ⟨b, c, hlast, ?_⟩
      have hfile : f.hasFilename p = false := by
        cases hfile : f.hasFilename p with
        | false => rfl
        | true => exact absurd (by rw [hfile, Bool.true_or]) h
      rw [hasFilename, hlast, List.getLast?_concat] at hfile
      simpa using hfile

theorem components_separated (f : Format) (p t : Path) :
    components f.isSep (f.afterRoot p ++ (f.separator p ++ t)) =
      f.steps p ++ components f.isSep t := by
  rcases separator_cases f p with hsep | ⟨hsep, hnil | ⟨b, c, hlast, hc⟩⟩
  · rw [hsep]
    exact components_append isSep_preferred _ _
  · rw [hsep, steps, hnil]
    rfl
  · have hclosed : f.steps p = components f.isSep b := by
      rw [steps, hlast, components_append hc]
      exact List.append_nil _
    rw [hsep, hlast, hclosed, List.nil_append, List.append_assoc]
    exact components_append hc _ _

theorem rootName_eq_of_not_replaces (h : f.replaces p q = false) (hp : f.rootName p = []) :
    f.rootName q = [] := by
  rw [replaces, Bool.or_eq_false_iff, hp] at h
  simpa using h.2

/-- What is appended, without a root directory of its own, does not touch the root name. -/
theorem rootName_append (hreplaces : f.replaces p q = false) (hroot : f.hasRootDirectory q = false)
    (hopen : f.opensServer p = false) :
    f.rootName (p ++ (f.separator p ++ f.afterRoot q)) = f.rootName p := by
  cases f with
  | posix => rfl
  | windows =>
      have hbare : windows.rootName p = [] → windows.afterRoot q = q := by
        intro hp
        rw [afterRoot, rootName_eq_of_not_replaces hreplaces hp]
        rfl
      refine windows_rootName_append (Or.inl hopen) ?_ ?_
      · intro hshort
        match p with
        | [] =>
            rw [hbare rfl]
            exact rootName_eq_of_not_replaces hreplaces rfl
        | [c] =>
            -- One character in front could begin a drive or a server name; the next one decides.
            have hq : q.head?.any windows.isSep = false := by
              rw [hasRootDirectory, hbare rfl] at hroot
              exact hroot
            rw [hbare rfl]
            cases hc : windows.isSep c with
            | true =>
                have hsep : windows.separator [c] = [] := by
                  simp [separator, hasFilename, hasRootDirectory, afterRoot, rootName, hasDrive,
                    hasServer, hc]
                have hletter : c.isAlpha = false := by
                  simp only [isSep, Bool.or_eq_true, beq_iff_eq] at hc
                  rcases hc with rfl | rfl <;> rfl
                rw [hsep]
                cases q with
                | nil => rfl
                | cons d q =>
                    simp only [List.head?_cons, Option.any_some] at hq
                    refine rootName_of_no_root ?_ ?_
                    · simp [hasDrive, hletter]
                    · cases q <;> simp [hasServer, hq]
            | false =>
                have hsep : windows.separator [c] = [windows.preferred] := by
                  simp [separator, hasFilename, afterRoot, rootName, hasDrive, hasServer, hc]
                rw [hsep]
                refine rootName_of_no_root ?_ ?_
                · simp [hasDrive, preferred]
                · cases q <;> simp [hasServer, hc]
        | _ :: _ :: _ => simp at hshort
      · intro hserver htail
        -- Behind a bare server name comes a separator.
        have hdrive : hasDrive p = false := by
          cases hdrive : hasDrive p with
          | false => rfl
          | true =>
              match p with
              | c :: d :: e :: p =>
                  rw [afterRoot, rootName_of_hasDrive hdrive] at htail
                  simp at htail
        have hname : windows.rootName p ≠ [] := by
          rw [rootName_of_hasServer hserver]
          match p with
          | c :: d :: e :: p => simp
        have hsep : windows.separator p = [windows.preferred] := by
          simp [separator, hasFilename, hasRootDirectory, htail, isAbsolute, hdrive, hname]
        rw [hsep]
        rfl

/-- A path without root appended to a directory leads on from there, component by
component. -/
theorem location_append (hreplaces : f.replaces p q = false)
    (hroot : f.hasRootDirectory q = false) (hopen : f.opensServer p = false) :
    f.location (f.append p q) = (f.location p).descend (walk dot dotDot (f.steps q)) := by
  have happend : f.append p q = p ++ (f.separator p ++ f.afterRoot q) := by
    rw [append, hreplaces, hroot, if_neg Bool.false_ne_true, if_neg Bool.false_ne_true,
      List.append_assoc]
  have hname := rootName_append hreplaces hroot hopen
  have hafter := afterRoot_append hname
  have hsteps : f.steps (f.append p q) = f.steps p ++ f.steps q := by
    rw [happend, steps, hafter]
    exact components_separated f p _
  have hrooted : f.rooted (f.append p q) = f.rooted p := by
    rw [happend, rooted_eq, rooted_eq, hname, hasRootDirectory, hasRootDirectory, hafter]
    cases htail : f.afterRoot p with
    | cons c a => rfl
    | nil =>
        cases hserver : (f.rootName p).head?.any f.isSep with
        | true => rw [Bool.or_true, Bool.or_true]
        | false =>
            have habs : f.isAbsolute p = false := by
              have h := rooted_eq f p
              rw [hserver, rooted, hasRootDirectory, htail] at h
              exact h
            have hsep : f.separator p = [] := by
              simp [separator, hasFilename, htail, habs]
            rw [hsep, List.nil_append, List.nil_append, ← hasRootDirectory, hroot]
            rfl
  rw [location, location, Location.of_descend, hsteps, hrooted, walk_append, rootOf, rootOf]
  rw [happend, hname]

/-- A root directory without a root name: the path is not absolute, and yet starts anew. -/
theorem rootName_of_rootDirectory (hreplaces : f.replaces p q = false)
    (hroot : f.hasRootDirectory q = true) : f = windows ∧ f.rootName q = [] := by
  have habs : f.isAbsolute q = false := by
    rw [replaces, Bool.or_eq_false_iff] at hreplaces
    exact hreplaces.1
  cases f with
  | posix => exact absurd hroot (by rw [← isAbsolute, habs]; exact Bool.false_ne_true)
  | windows =>
      rw [isAbsolute] at habs
      split_ifs at habs with hdrive
      · exact absurd hroot (by rw [habs]; exact Bool.false_ne_true)
      · exact ⟨rfl, by simpa using habs⟩

theorem rootName_length (p : Path) : windows.rootName p = [] ∨ hasDrive p = true ∨
    hasServer p = true ∧ 2 < (windows.rootName p).length := by
  cases hdrive : hasDrive p with
  | true => exact Or.inr (Or.inl rfl)
  | false =>
      cases hserver : hasServer p with
      | false => exact Or.inl (rootName_of_no_root hdrive hserver)
      | true =>
          refine Or.inr (Or.inr ⟨rfl, ?_⟩)
          rw [rootName_of_hasServer hserver]
          match p with
          | c :: d :: e :: p =>
              have he : (!windows.isSep e) = true := ((Bool.and_eq_true _ _).mp hserver).2
              simp [he]

/-- A path with a root directory but no root name keeps nothing but the root. -/
theorem location_append_rootDirectory (hreplaces : f.replaces p q = false)
    (hroot : f.hasRootDirectory q = true) :
    f.location (f.append p q) =
      Location.of (f.rootOf p) true (walk dot dotDot (f.steps q)) := by
  obtain ⟨rfl, hnone⟩ := rootName_of_rootDirectory hreplaces hroot
  have hq : windows.afterRoot q = q := by rw [afterRoot, hnone]; rfl
  have hhead : q.head?.any windows.isSep = true := by
    rw [hasRootDirectory, hq] at hroot
    exact hroot
  have happend : windows.append p q = windows.rootName p ++ q := by
    rw [append, hreplaces, hroot, if_neg Bool.false_ne_true, if_pos rfl, hq]
  have hkept := rootName_rootName windows p
  -- The root name of the one in front stays what it is: it ends before a separator.
  have hname : windows.rootName (windows.rootName p ++ q) = windows.rootName p := by
    rw [windows_rootName_append (Or.inl ?_) ?_ ?_, hkept]
    · rcases rootName_length p with hnil | hdrive | ⟨-, hlen⟩
      · rw [hnil]
        rfl
      · rw [rootName_of_hasDrive hdrive]
        match p with
        | c :: d :: p =>
            simp only [hasDrive, Bool.and_eq_true, beq_iff_eq] at hdrive
            change (windows.isSep c && windows.isSep d) = false
            rw [hdrive.2, Bool.and_eq_false_iff]
            exact Or.inr rfl
      · match hp : windows.rootName p with
        | [] | [_] | [_, _] => simp [hp] at hlen
        | _ :: _ :: _ :: _ => rfl
    · intro hshort
      rcases rootName_length p with hnil | hdrive | ⟨-, hlen⟩
      · rw [hnil]
        exact hnone
      · rw [rootName_of_hasDrive hdrive] at hshort
        match p with
        | c :: d :: p => simp at hshort
      · omega
    · intro _ _
      cases q with
      | nil => cases hhead
      | cons c q => exact hhead
  have hafter : windows.afterRoot (windows.rootName p ++ q) = q := by
    rw [afterRoot, hname, List.drop_left]
  have hsteps : windows.steps (windows.append p q) = windows.steps q := by
    rw [happend, steps, steps, hafter, hq]
  have hrooted : windows.rooted (windows.append p q) = true := by
    rw [happend, rooted, hasRootDirectory, hafter, hhead]
    rfl
  rw [location, hsteps, hrooted, rootOf, rootOf, happend, hname]

end Append

end Format

end HostPath
