/-
# The path sandbox

Where the host paths that guest paths resolve to can lie.  On a host with one separator they
are the directory of a mount and names behind it.  On a host with two separators, drives and
servers the guest can write names that the host reads otherwise.
-/
import ChuckStation.Filesystem

namespace Filesystem

open PathGrammar HostPath HostPath.Format

/-! ## One separator -/

section Posix

variable {c : Path} {cs : List Path} {host : Path}

/-- The host path `p` is the directory `host`, or `host` followed by names. -/
def NamedBelow (host p : Path) : Prop :=
  p = host ∨ ∃ c cs, (∀ d ∈ c :: cs, GuestName d) ∧
    p = host ++ posix.separator host ++ c ++ joined '/' cs

/-- What `Resolve` returns is named below the directory of a valid mount, and lies in it. -/
def Sandboxed (mounts : List MountEntry) (guestRaw : Path) : Prop :=
  ∀ p, resolveImpl posix mounts guestRaw = some p →
    ∃ m ∈ mounts, m.valid = true ∧ NamedBelow m.hostPath p ∧
      (posix.location m.hostPath).Within (posix.location p)

/-- Names with slashes between them are read back, and none of them goes up. -/
theorem components_names {f : Format} (hsep : f.isSep '/' = true)
    (hnames : ∀ d ∈ c :: cs, d ≠ [] ∧ ∀ x ∈ d, f.isSep x = false) :
    components f.isSep (c ++ joined '/' cs) = c :: cs := by
  have hjoined := components_joined hsep hnames
  rwa [show joined '/' (c :: cs) = '/' :: (c ++ joined '/' cs) from rfl,
    show '/' :: (c ++ joined '/' cs) = [] ++ '/' :: (c ++ joined '/' cs) from rfl,
    components_append hsep] at hjoined

theorem GuestName.head_ne {d : Path} (h : GuestName d) (s : Path) :
    (d ++ s).head?.any posix.isSep = false := by
  obtain ⟨hne, -, -, hslash⟩ := h
  cases d with
  | nil => exact absurd rfl hne
  | cons x d =>
      have hx : x ≠ '/' := fun h => hslash (by rw [h]; exact List.mem_cons_self)
      simpa [isSep] using hx

/-- Names are appended as they are, and lead down. -/
theorem append_names (host : Path) (hnames : ∀ d ∈ c :: cs, GuestName d) :
    posix.append host (c ++ joined '/' cs) =
        host ++ posix.separator host ++ c ++ joined '/' cs ∧
      (posix.location host).Within (posix.location (posix.append host (c ++ joined '/' cs))) := by
  have hhead := (hnames c List.mem_cons_self).head_ne (joined '/' cs)
  have hroot : posix.hasRootDirectory (c ++ joined '/' cs) = false := hhead
  have hreplaces : posix.replaces host (c ++ joined '/' cs) = false := by
    rw [replaces, isAbsolute, hroot]
    rfl
  have hsteps : posix.steps (c ++ joined '/' cs) = c :: cs := by
    refine components_names (f := posix) rfl fun d hd => ?_
    obtain ⟨hne, -, -, hslash⟩ := hnames d hd
    exact ⟨hne, fun x hx => by simpa [isSep] using fun h : x = '/' => hslash (h ▸ hx)⟩
  constructor
  · rw [append, hreplaces, hroot, if_neg Bool.false_ne_true, if_neg Bool.false_ne_true]
    exact (List.append_assoc _ _ _).symm
  · rw [location_append hreplaces hroot rfl, Location.within_descend_iff, hsteps, walk_of_names]
    · exact Location.returns_of_down _ rfl
    · exact fun d hd => ⟨(hnames d hd).2.1, (hnames d hd).2.2.1⟩

theorem mountOf_eq_some {mounts : List MountEntry} {guest : Path} {m : MountEntry}
    (h : mountOf mounts guest = some m) :
    m ∈ mounts ∧ m.valid = true ∧ m.covers guest = true := by
  have hpass := List.find?_some h
  rw [Bool.and_eq_true] at hpass
  exact ⟨List.mem_of_find?_eq_some h, hpass⟩

/-- Every guest path, whatever its dots and slashes, resolves to nothing or to a path in the
directory of a mount. -/
theorem resolve_sandboxed (mounts : List MountEntry) (guestRaw : Path) :
    Sandboxed mounts guestRaw := by
  intro p hp
  rw [resolveImpl, Option.map_eq_some_iff] at hp
  obtain ⟨m, hm, rfl⟩ := hp
  obtain ⟨hmem, hvalid, hcovers⟩ := mountOf_eq_some hm
  refine ⟨m, hmem, hvalid, ?_⟩
  rw [MountEntry.host]
  rcases rel_cases hcovers with hnil | ⟨c, cs, hrel, hnames⟩
  · rw [hnil, List.isEmpty_nil, if_pos rfl]
    exact ⟨Or.inl rfl, Location.within_refl _⟩
  · have hne : (c ++ joined '/' cs).isEmpty = false := by
      have hc := (hnames c List.mem_cons_self).1
      cases c with
      | nil => exact absurd rfl hc
      | cons x c => rfl
    obtain ⟨htext, hinside⟩ := append_names m.hostPath hnames
    rw [hrel, hne, if_neg Bool.false_ne_true]
    exact ⟨Or.inr ⟨c, cs, hnames, htext⟩, hinside⟩

end Posix

/-! ## Two separators, drives and servers -/

section Windows

variable {c : Path} {cs : List Path} {host rel : Path}

/-- What `Resolve` returns lies in the directory of the mount it matched. -/
def Confined (mounts : List MountEntry) (guestRaw : Path) : Prop :=
  ∀ m p, mountOf mounts (normaliseImpl guestRaw) = some m →
    resolveImpl windows mounts guestRaw = some p →
    (windows.location m.hostPath).Within (windows.location p)

/-- What the guest wrote behind the prefix of the mount stays in its directory: a path that
replaces the directory names a place in it, one that starts at the root directory spells out
the way to it, and any other comes back to it as often as it leaves it. -/
def StaysInside (host rel : Path) : Prop :=
  if windows.replaces host rel then (windows.location host).Within (windows.location rel)
  else if windows.hasRootDirectory rel then
    (windows.location host).rooted = true ∧
      (windows.location host).names <+: (walk dot dotDot (windows.steps rel)).2
  else windows.opensServer host = false ∧
    (windows.location host).Returns (walk dot dotDot (windows.steps rel))

instance (host rel : Path) : Decidable (StaysInside host rel) := by
  unfold StaysInside; infer_instance

/-- Behind two separators any name is the name of a server. -/
theorem rootOf_append_opensServer (hopen : windows.opensServer host = true)
    (hreplaces : windows.replaces host rel = false)
    (hroot : windows.hasRootDirectory rel = false) (hrel : rel ≠ []) :
    windows.rootOf (windows.append host rel) ≠ windows.rootOf host := by
  match host with
  | [c, d] =>
      replace hopen : (windows.isSep c && windows.isSep d) = true := hopen
      obtain ⟨hc, hd⟩ := (Bool.and_eq_true _ _).mp hopen
      have hletter : c.isAlpha = false := by
        simp only [isSep, Bool.or_eq_true, beq_iff_eq] at hc
        rcases hc with rfl | rfl <;> rfl
      have hdrive : ∀ s : Path, hasDrive (c :: d :: s) = false := fun s => by
        simp [hasDrive, hletter]
      have hname : windows.rootName [c, d] = [] := rootName_of_no_root (hdrive []) rfl
      have hq : windows.rootName rel = [] := rootName_eq_of_not_replaces hreplaces hname
      have hafter : windows.afterRoot rel = rel := by rw [afterRoot, hq]; rfl
      have hsep : windows.separator [c, d] = [] := by
        simp [separator, hasFilename, hasRootDirectory, afterRoot, hname, hc, hd]
      cases rel with
      | nil => exact absurd rfl hrel
      | cons x rel =>
          have hx : windows.isSep x = false := by
            rw [hasRootDirectory, hafter] at hroot
            exact hroot
          have happend : windows.append [c, d] (x :: rel) = c :: d :: x :: rel := by
            rw [append, hreplaces, hroot, if_neg Bool.false_ne_true, if_neg Bool.false_ne_true,
              hsep, hafter]
            rfl
          have hserver : hasServer (c :: d :: x :: rel) = true := by
            simp [hasServer, hc, hd, hx]
          rw [happend, rootOf, rootOf, rootName_of_hasServer hserver, hname]
          simp

theorem within_append_iff (hrel : rel ≠ []) :
    (windows.location host).Within (windows.location (windows.append host rel)) ↔
      StaysInside host rel := by
  rw [StaysInside]
  cases hreplaces : windows.replaces host rel with
  | true => rw [append, hreplaces, if_pos rfl, if_pos rfl]
  | false =>
      rw [if_neg Bool.false_ne_true]
      cases hroot : windows.hasRootDirectory rel with
      | true =>
          rw [if_pos rfl, location_append_rootDirectory hreplaces hroot]
          constructor
          · rintro ⟨-, hrooted, -, hnames⟩
            exact ⟨hrooted.symm, hnames⟩
          · rintro ⟨hrooted, hnames⟩
            exact ⟨rfl, hrooted.symm, ((windows.location host).ups_of_rooted hrooted).symm, hnames⟩
      | false =>
          rw [if_neg Bool.false_ne_true]
          cases hopen : windows.opensServer host with
          | true =>
              have hne := rootOf_append_opensServer hopen hreplaces hroot hrel
              exact ⟨fun h => absurd h.1 hne, fun h => absurd h.1 (by decide)⟩
          | false =>
              rw [location_append hreplaces hroot hopen, Location.within_descend_iff]
              exact ⟨fun h => ⟨rfl, h⟩, fun h => h.2⟩

/-- The sandbox holds for a guest path exactly when what follows the prefix of the mount that
claims it is empty or stays inside. -/
theorem confined_iff (mounts : List MountEntry) (guestRaw : Path) :
    Confined mounts guestRaw ↔
      ∀ m, mountOf mounts (normaliseImpl guestRaw) = some m →
        m.rel (normaliseImpl guestRaw) = [] ∨
          StaysInside m.hostPath (m.rel (normaliseImpl guestRaw)) := by
  have hresolve : ∀ m, mountOf mounts (normaliseImpl guestRaw) = some m →
      resolveImpl windows mounts guestRaw = some (m.host windows (normaliseImpl guestRaw)) := by
    intro m hm
    rw [resolveImpl, hm]
    rfl
  constructor
  · intro h m hm
    have hin := h m _ hm (hresolve m hm)
    by_cases hrel : m.rel (normaliseImpl guestRaw) = []
    · exact Or.inl hrel
    · rw [MountEntry.host, if_neg (by simpa using hrel), within_append_iff hrel] at hin
      exact Or.inr hin
  · intro h m p hm hp
    rw [hresolve m hm, Option.some.injEq] at hp
    rw [← hp, MountEntry.host]
    rcases h m hm with hrel | hin
    · rw [hrel, List.isEmpty_nil, if_pos rfl]
      exact Location.within_refl _
    · split_ifs with hrel
      · exact Location.within_refl _
      · rw [within_append_iff (by simpa using hrel)]
        exact hin

/-- `/app0` with the directory `D:\g` behind it. -/
def gameMount : MountEntry :=
  { guestPrefix := ['/', 'a', 'p', 'p', '0'], hostPath := ['D', ':', '\\', 'g'], valid := true,
    readOnly := true }

/-- `/app0/C:/x` leads out of the directory, and so does `/app0/..\..\x`. -/
theorem not_confined_drive :
    ¬ Confined [gameMount] ['/', 'a', 'p', 'p', '0', '/', 'C', ':', '/', 'x'] ∧
      ¬ Confined [gameMount]
        ['/', 'a', 'p', 'p', '0', '/', '.', '.', '\\', '.', '.', '\\', 'x'] := by
  constructor
  · intro h
    exact absurd (h gameMount _ rfl rfl) (by decide)
  · intro h
    exact absurd (h gameMount _ rfl rfl) (by decide)

/-- Without a backslash or a colon there is no root in front. -/
theorem rootName_of_plain (cs : List Path) (hguest : GuestName c) (hback : '\\' ∉ c)
    (hcolon : ':' ∉ c) :
    windows.rootName (c ++ joined '/' cs) = [] ∧ hasDrive (c ++ joined '/' cs) = false ∧
      (c ++ joined '/' cs).head?.any windows.isSep = false := by
  obtain ⟨hne, -, -, hslash⟩ := hguest
  cases c with
  | nil => exact absurd rfl hne
  | cons x c =>
      have hx : windows.isSep x = false := by
        simp only [isSep, Bool.or_eq_false_iff, beq_eq_false_iff_ne]
        exact ⟨fun h => hslash (h ▸ List.mem_cons_self), fun h => hback (h ▸ List.mem_cons_self)⟩
      have hdrive : hasDrive (x :: c ++ joined '/' cs) = false := by
        cases c with
        | nil => cases cs <;> simp [hasDrive, joined]
        | cons y c =>
            have hy : y ≠ ':' := fun h => hcolon (by simp [h])
            simp [hasDrive, hy]
      have hserver : hasServer (x :: c ++ joined '/' cs) = false := by
        rw [List.cons_append]
        rcases c ++ joined '/' cs with _ | ⟨y, _ | ⟨z, rest⟩⟩
        · rfl
        · rfl
        · simp [hasServer, hx]
      exact ⟨rootName_of_no_root hdrive hserver, hdrive, hx⟩

/-- Names without a backslash or a colon stay inside, whatever the directory. -/
theorem staysInside_of_plain (hopen : windows.opensServer host = false)
    (hnames : ∀ d ∈ c :: cs, GuestName d) (hplain : ∀ d ∈ c :: cs, '\\' ∉ d ∧ ':' ∉ d) :
    StaysInside host (c ++ joined '/' cs) := by
  obtain ⟨hback, hcolon⟩ := hplain c List.mem_cons_self
  obtain ⟨hname, hdrive, hhead⟩ :=
    rootName_of_plain cs (hnames c List.mem_cons_self) hback hcolon
  have hafter : windows.afterRoot (c ++ joined '/' cs) = c ++ joined '/' cs := by
    rw [afterRoot, hname]
    rfl
  have hroot : windows.hasRootDirectory (c ++ joined '/' cs) = false := by
    rw [hasRootDirectory, hafter, hhead]
  have hreplaces : windows.replaces host (c ++ joined '/' cs) = false := by
    rw [replaces, isAbsolute, hdrive, hname]
    rfl
  have hsteps : windows.steps (c ++ joined '/' cs) = c :: cs := by
    rw [steps, hafter]
    refine components_names rfl fun d hd => ?_
    obtain ⟨hne, -, -, hslash⟩ := hnames d hd
    refine ⟨hne, fun x hx => ?_⟩
    simp only [isSep, Bool.or_eq_false_iff, beq_eq_false_iff_ne]
    exact ⟨fun h => hslash (h ▸ hx), fun h => (hplain d hd).1 (h ▸ hx)⟩
  rw [StaysInside, hreplaces, if_neg Bool.false_ne_true, hroot, if_neg Bool.false_ne_true, hsteps,
    walk_of_names]
  · exact ⟨hopen, Location.returns_of_down _ rfl⟩
  · exact fun d hd => ⟨(hnames d hd).2.1, (hnames d hd).2.2.1⟩

end Windows

end Filesystem
