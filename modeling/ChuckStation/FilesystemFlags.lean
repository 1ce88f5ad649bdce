/-
# Open flags

What each of the flags of `Open` promises on a mount that may be written, and when the mode
string they are folded into keeps the promise.  A handle without `Write` is followed through
every later call, reads and seeks included.
-/
import ChuckStation.FilesystemReadOnly

namespace Filesystem

open HostPath HostTree OperationRuns

/-! ## The mount table -/

/-- The entry `Mount` puts in the table. -/
def MountPoint.entry (mp : MountPoint) (hostPath : Path) (readOnly : Bool) : MountEntry :=
  { guestPrefix := kMountPrefix.getD mp.index [], hostPath := hostPath, valid := true,
    readOnly := readOnly }

/-- Every valid entry stands in the slot of its prefix. -/
def TableFilled (mounts : List MountEntry) : Prop :=
  ∀ (i : ℕ) (m : MountEntry), mounts[i]? = some m → m.valid = true →
    kMountPrefix[i]? = some m.guestPrefix

theorem tableFilled_set {mounts : List MountEntry} (h : TableFilled mounts) (mp : MountPoint)
    (hostPath : Path) (readOnly : Bool) :
    TableFilled (mounts.set mp.index (mp.entry hostPath readOnly)) := by
  intro i m hm hvalid
  rw [List.getElem?_set] at hm
  split_ifs at hm with hi hlt
  · rw [← Option.some.inj hm, ← hi]
    cases mp <;> rfl
  · exact h i m hm hvalid

/-- No prefix of the table continues another one. -/
theorem kMountPrefix_prefix_free :
    ∀ i < 6, ∀ j < 6, ∀ p ∈ kMountPrefix[i]?, ∀ q ∈ kMountPrefix[j]?, p <+: q → i = j := by
  decide

theorem prefix_of_covers {m : MountEntry} {guest : Path} (h : m.covers guest = true) :
    m.guestPrefix <+: guest := by
  rw [MountEntry.covers, Bool.or_eq_true, beq_iff_eq, List.isPrefixOf_iff_prefix] at h
  rcases h with rfl | h
  · exact List.prefix_refl _
  · exact (List.prefix_append _ _).trans h

/-- The path lies on a mount of a filled table that may be written, at a place of the host. -/
def OnWritableMount (f : Format) (mounts : List MountEntry) (guestPath hostPath : Path) : Prop :=
  TableFilled mounts ∧ ∃ m, mountOf mounts (normaliseImpl guestPath) = some m ∧
    m.readOnly = false ∧ hostPath = m.host f (normaliseImpl guestPath)

/-- The flag `Open` goes by is that of the mount that resolves the path. -/
theorem rdOnlyOf_eq {mounts : List MountEntry} {guest : Path} {m : MountEntry}
    (hfilled : TableFilled mounts) (h : mountOf mounts guest = some m) :
    rdOnlyOf mounts guest = m.readOnly := by
  obtain ⟨hm, -⟩ := List.find?_eq_some_iff_append.mp h
  rw [Bool.and_eq_true] at hm
  obtain ⟨hvalid, hcovers⟩ := hm
  have hprefix := prefix_of_covers hcovers
  have hmem : m ∈ mounts := List.mem_of_find?_eq_some h
  rw [rdOnlyOf]
  cases hfind : mounts.find? fun m => m.valid && m.guestPrefix.isPrefixOf guest with
  | none =>
      have hnone := List.find?_eq_none.mp hfind m hmem
      rw [hvalid, Bool.true_and, List.isPrefixOf_iff_prefix] at hnone
      exact absurd hprefix hnone
  | some m' =>
      have hmem' : m' ∈ mounts := List.mem_of_find?_eq_some hfind
      obtain ⟨hm', -⟩ := List.find?_eq_some_iff_append.mp hfind
      rw [Bool.and_eq_true, List.isPrefixOf_iff_prefix] at hm'
      -- Two prefixes of one path are comparable, so both entries stand in one slot.
      obtain ⟨i, hi⟩ := List.mem_iff_getElem?.mp hmem
      obtain ⟨j, hj⟩ := List.mem_iff_getElem?.mp hmem'
      have hpi := hfilled i m hi hvalid
      have hpj := hfilled j m' hj hm'.1
      have hi6 : i < 6 := (List.getElem?_eq_some_iff.mp hpi).1
      have hj6 : j < 6 := (List.getElem?_eq_some_iff.mp hpj).1
      have hij : i = j := by
        rcases List.prefix_or_prefix_of_prefix hprefix hm'.2 with hpre | hpre
        · exact kMountPrefix_prefix_free i hi6 j hj6 _ hpi _ hpj hpre
        · exact (kMountPrefix_prefix_free j hj6 i hi6 _ hpj _ hpi hpre).symm
      rw [hij, hj] at hi
      rw [Option.some.inj hi]

section Flags

variable {ν : Type*} [DecidableEq ν] (host : Host ν) (longBits : ℕ)

/-! ## Reading and seeking -/

/-- `Read`: the number of bytes read, and the bytes. -/
def read (fd : FileHandle) (size : U64) (w : World ν) : (ℤ × List Byte) × World ν :=
  match w.st.files.lookup fd with
  | none => ((-1, []), w)
  | some file =>
      if file.mode.reads then
        let bytes := ((w.tree.data file.fp).drop file.pos).take size.toNat
        let file := { file with pos := file.pos + bytes.length }
        ((bytes.length, bytes), { w with
          st := { w.st with files := (fd, file) :: w.st.files.filter fun e => e.1 ≠ fd } })
      else ((0, []), w)

inductive SeekOrigin where
  | Set
  | Cur
  | End
  deriving DecidableEq, Repr

/-- `fseek` with an offset that was cast to a `long`; a position before the file is refused. -/
def fseek (offset : ℤ) (origin : SeekOrigin) (pos length : ℕ) : ℕ :=
  let base : ℕ := match origin with
    | .Set => 0
    | .Cur => pos
    | .End => length
  let target := base + (BitVec.ofInt longBits offset).toInt
  if 0 ≤ target then target.toNat else pos

/-- `Seek`: the position after it. -/
def seek (fd : FileHandle) (offset : ℤ) (origin : SeekOrigin) (w : World ν) : ℤ × World ν :=
  match w.st.files.lookup fd with
  | none => (-1, w)
  | some file =>
      let pos := fseek longBits offset origin file.pos (w.tree.data file.fp).length
      let file := { file with pos := pos }
      (pos, { w with
        st := { w.st with files := (fd, file) :: w.st.files.filter fun e => e.1 ≠ fd } })

/-- The calls of a guest, with those that move the position of a handle. -/
inductive HandleOp where
  | op (o : Op)
  | read (fd : FileHandle) (size : U64)
  | seek (fd : FileHandle) (offset : ℤ) (origin : SeekOrigin)

def handleStep (w : World ν) : HandleOp → World ν
  | .op o => step host w o
  | .read fd size => (read fd size w).2
  | .seek fd offset origin => (seek longBits fd offset origin w).2

/-! ## The promises -/

/-- The tree `Open` looks for the file in, with the directories `Create` asks for. -/
def parentsMade (hostPath : Path) (flags : OpenFlags) (tree : Tree ν Byte) : Tree ν Byte :=
  if flags.has .Create then
    (Tree.makeDirs host.policy (host.stagesOf (host.format.parentPath hostPath)) tree).2
  else tree

/-- Nothing is at the place, and a file can be made there. -/
def Absent (hostPath : Path) (tree : Tree ν Byte) : Prop :=
  tree.free (host.locate hostPath) = true ∧
    host.policy.allows tree (.newFile (host.locate hostPath)) = true

/-- `Open` gave out the next handle. -/
def Opened (w : World ν) (r : FileHandle × World ν) : Prop :=
  r.1 = w.st.nextFd ∧ r.2.st.nextFd = w.st.nextFd + 1

/-- `Write` through the handle takes nothing and changes nothing. -/
def Rejects (fd : FileHandle) (w : World ν) : Prop :=
  ∀ buf, (write host fd buf w).1 ≤ 0 ∧ (write host fd buf w).2 = w

/-- What the flags mean for the files of the host and for the handle. -/
structure FlagsKept (guestPath hostPath : Path) (flags : OpenFlags) (w : World ν) : Prop where
  keeps : flags.has .Truncate = false → ∀ q id, w.tree.node q = some (.file id) →
    Tree.Keeps w.tree (openFile host guestPath flags w).2.tree q
  creates : flags.has .Write = true → flags.has .Create = true →
    Absent host hostPath (parentsMade host hostPath flags w.tree) →
      Opened w (openFile host guestPath flags w)
  adds : flags.has .Create = false → ∀ q, w.tree.node q = none →
    (openFile host guestPath flags w).2.tree.node q = none
  rejects : flags.has .Write = false → Opened w (openFile host guestPath flags w) →
    ∀ ops, AllStates (handleStep host longBits) (Rejects host (openFile host guestPath flags w).1)
      (openFile host guestPath flags w).2 ops

/-! ## The flags that do not keep them -/

/-- `Write` without a flag that says how, so that `wb` is what is left. -/
def writeOnly (flags : OpenFlags) : Bool :=
  flags.has .Write && !flags.has .Truncate && !flags.has .Append && !flags.has .Read

/-- `Read` and `Write`, opened with `r+b`. -/
def readWrite (flags : OpenFlags) : Bool :=
  flags.has .Write && !flags.has .Truncate && !flags.has .Append && flags.has .Read

/-- A file with bytes is at the place, and the host lets it be written. -/
def Filled (hostPath : Path) (tree : Tree ν Byte) : Prop :=
  ∃ id, tree.node (host.locate hostPath) = some (.file id) ∧ tree.data id ≠ [] ∧
    host.policy.allows tree (.openFile (host.locate hostPath) true) = true

/-- The mode string agrees with the flags on what is at the place. -/
structure FlagsFit (hostPath : Path) (flags : OpenFlags) (w : World ν) : Prop where
  noFile : writeOnly flags = true → ¬ Filled host hostPath (parentsMade host hostPath flags w.tree)
  notAbsent : readWrite flags = true → flags.has .Create = true →
    ¬ Absent host hostPath (parentsMade host hostPath flags w.tree)
  present : flags.has .Write = true → flags.has .Create = false → readWrite flags = false →
    ¬ Absent host hostPath w.tree

section Modes

variable (flags : OpenFlags)

theorem flagMode_eq_wb :
    flagMode flags false = .wb ↔
      flags.has .Write = true ∧ flags.has .Truncate = true ∨ writeOnly flags = true := by
  rw [flagMode, writeOnly]
  generalize flags.has .Write = w, flags.has .Truncate = t, flags.has .Append = a,
    flags.has .Read = r
  revert w t a r
  decide

theorem creates_flagMode :
    (flagMode flags false).creates = (flags.has .Write && !readWrite flags) := by
  rw [flagMode, readWrite]
  generalize flags.has .Write = w, flags.has .Truncate = t, flags.has .Append = a,
    flags.has .Read = r
  revert w t a r
  decide

theorem writes_flagMode_eq : (flagMode flags false).writes = flags.has .Write := by
  rw [flagMode]
  generalize flags.has .Write = w, flags.has .Truncate = t, flags.has .Append = a,
    flags.has .Read = r
  revert w t a r
  decide

end Modes

/-! ## What `Open` does -/

section OpenFile

variable {host} {longBits} {guestPath hostPath : Path} {flags : OpenFlags} {w : World ν}

omit [DecidableEq ν] in
theorem resolveImpl_of_writable
    (h : OnWritableMount host.format w.st.mounts guestPath hostPath) :
    resolveImpl host.format w.st.mounts guestPath = some hostPath ∧
      rdOnlyOf w.st.mounts (normaliseImpl guestPath) = false := by
  obtain ⟨hfilled, m, hm, hro, rfl⟩ := h
  refine ⟨?_, (rdOnlyOf_eq hfilled hm).trans hro⟩
  rw [resolveImpl, hm]
  rfl

/-- On a mount that may be written, `Open` makes directories and opens the file in the mode of
the flags; the state of the filesystem changes only when that worked. -/
theorem openFile_of_writable (flags : OpenFlags)
    (h : OnWritableMount host.format w.st.mounts guestPath hostPath) :
    (parentsMade host hostPath flags w.tree).openFile host.policy (host.locate hostPath)
        (flagMode flags false) = none ∧
      openFile host guestPath flags w =
        (INVALID_FD, { w with tree := parentsMade host hostPath flags w.tree }) ∨
    ∃ fp tree, (parentsMade host hostPath flags w.tree).openFile host.policy
        (host.locate hostPath) (flagMode flags false) = some (fp, tree) ∧
      (openFile host guestPath flags w).1 = w.st.nextFd ∧
      (openFile host guestPath flags w).2.tree = tree ∧
      (openFile host guestPath flags w).2.st.nextFd = w.st.nextFd + 1 ∧
      ∃ file, (openFile host guestPath flags w).2.st.files.lookup w.st.nextFd = some file ∧
        file.mode = flagMode flags false := by
  obtain ⟨hresolve, hro⟩ := resolveImpl_of_writable h
  rw [openFile, hresolve, hro]
  simp only [Bool.false_and, Bool.false_eq_true, if_false]
  rw [← parentsMade]
  cases hopen : (parentsMade host hostPath flags w.tree).openFile host.policy
      (host.locate hostPath) (flagMode flags false) with
  | none => exact Or.inl ⟨rfl, rfl⟩
  | some r =>
      obtain ⟨fp, tree⟩ := r
      exact Or.inr ⟨fp, tree, rfl, rfl, rfl, rfl, _, List.lookup_cons_self, rfl⟩

theorem opened_iff (h : OnWritableMount host.format w.st.mounts guestPath hostPath) :
    Opened w (openFile host guestPath flags w) ↔
      ∃ r, (parentsMade host hostPath flags w.tree).openFile host.policy (host.locate hostPath)
        (flagMode flags false) = some r := by
  rcases openFile_of_writable flags h with
    ⟨hnone, hopen⟩ | ⟨fp, tree, hsome, hfd, -, hnext, -⟩
  · rw [hnone, hopen]
    constructor
    · rintro ⟨-, hnext⟩
      exact absurd hnext (by simp)
    · rintro ⟨r, hr⟩
      cases hr
  · exact iff_of_true ⟨hfd, hnext⟩ ⟨(fp, tree), hsome⟩

/-! ## Files -/

/-- Directories are made beside what is there. -/
theorem keeps_parentsMade {q : List ν} (h : w.tree.node q ≠ none) :
    Tree.Keeps w.tree (parentsMade host hostPath flags w.tree) q := by
  rw [parentsMade]
  split_ifs
  · exact Tree.keeps_makeDirs fun _ => h
  · exact Tree.keeps_refl _ _

theorem node_of_parentsMade {q : List ν} {id : ℕ}
    (h : (parentsMade host hostPath flags w.tree).node q = some (.file id)) :
    w.tree.node q = some (.file id) := by
  rw [parentsMade] at h
  split_ifs at h
  · exact Tree.node_of_makeDirs h
  · exact h

theorem node_of_free {t : Tree ν Byte} {p : List ν} (h : t.free p = true) : t.node p = none := by
  rw [Tree.free, Bool.and_eq_true, Bool.and_eq_true, beq_iff_eq] at h
  exact h.1.1

/-- `wb` empties a file that may be written. -/
theorem data_openFile_of_wb (h : OnWritableMount host.format w.st.mounts guestPath hostPath)
    (hmode : flagMode flags false = .wb) {id : ℕ}
    (hnode : (parentsMade host hostPath flags w.tree).node (host.locate hostPath) =
      some (.file id))
    (hallows : host.policy.allows (parentsMade host hostPath flags w.tree)
      (.openFile (host.locate hostPath) true) = true) :
    (openFile host guestPath flags w).2.tree.data id = [] := by
  have hopens : (parentsMade host hostPath flags w.tree).openFile host.policy
      (host.locate hostPath) .wb =
        some (id, (parentsMade host hostPath flags w.tree).setData id []) := by
    rw [Tree.openFile_of_file hnode, if_pos (by simpa [Mode.writes] using hallows), if_pos rfl]
  rcases openFile_of_writable flags h with ⟨hnone, -⟩ | ⟨fp, tree, hsome, -, htree, -⟩
  · rw [hmode, hopens] at hnone
    cases hnone
  · rw [hmode, hopens] at hsome
    cases hsome
    rw [htree, Tree.data_setData_self]

/-- Opening keeps every file, if `wb` is not the mode for one that has bytes. -/
theorem keeps_openFile {t t' : Tree ν Byte} {p q : List ν} {mode : Mode} {fp : ℕ}
    (hsome : t.openFile host.policy p mode = some (fp, t'))
    (hempty : mode = .wb → t.node p = some (.file fp) → t.data fp = [])
    (hq : t.node q ≠ none) : Tree.Keeps t t' q := by
  rcases Tree.openFile_cases hsome with ⟨hnode, rfl⟩ | ⟨hnode, -, -, rfl⟩
  · split_ifs with hmode
    · rw [← hempty hmode hnode, Tree.setData_data]
      exact Tree.keeps_refl _ _
    · exact Tree.keeps_refl _ _
  · apply Tree.keeps_insertFile
    rintro rfl
    exact hq hnode

/-- A file at the place keeps its bytes exactly if `wb` was not the mode left for it. -/
theorem keeps_iff (h : OnWritableMount host.format w.st.mounts guestPath hostPath) :
    (flags.has .Truncate = false → ∀ q id, w.tree.node q = some (.file id) →
        Tree.Keeps w.tree (openFile host guestPath flags w).2.tree q) ↔
      (writeOnly flags = true →
        ¬ Filled host hostPath (parentsMade host hostPath flags w.tree)) := by
  constructor
  · rintro hkeeps hwrite ⟨id, hnode, hdata, hallows⟩
    have htrunc : flags.has .Truncate = false := by
      rw [writeOnly] at hwrite
      simp only [Bool.and_eq_true, Bool.not_eq_true'] at hwrite
      exact hwrite.1.1.2
    have hmode : flagMode flags false = .wb := (flagMode_eq_wb flags).mpr (Or.inr hwrite)
    have hnode' : w.tree.node (host.locate hostPath) = some (.file id) :=
      node_of_parentsMade hnode
    have hsame : (parentsMade host hostPath flags w.tree).data id = w.tree.data id :=
      (keeps_parentsMade (by simp [hnode'])).2 id hnode'
    apply hdata
    calc (parentsMade host hostPath flags w.tree).data id = w.tree.data id := hsame
      _ = (openFile host guestPath flags w).2.tree.data id :=
          ((hkeeps htrunc _ id hnode').2 id hnode').symm
      _ = [] := data_openFile_of_wb h hmode hnode hallows
  · intro hfit htrunc q id hq
    have hparents : Tree.Keeps w.tree (parentsMade host hostPath flags w.tree) q :=
      keeps_parentsMade (by simp [hq])
    rcases openFile_of_writable flags h with ⟨-, hopen⟩ | ⟨fp, tree, hsome, -, htree, -⟩
    · rw [hopen]
      exact hparents
    · rw [htree]
      refine hparents.trans (keeps_openFile hsome (fun hmode hnode => ?_) ?_)
      · -- Without `Truncate`, `wb` is the mode of `Write` alone.
        have hwrite : writeOnly flags = true := by
          refine ((flagMode_eq_wb flags).mp hmode).resolve_left fun ht => ?_
          rw [htrunc] at ht
          cases ht.2
        by_contra hdata
        rw [Tree.openFile_of_file hnode, hmode, Option.ite_none_right_eq_some] at hsome
        exact hfit hwrite ⟨fp, hnode, hdata, hsome.1⟩
      · rw [hparents.1, hq]
        exact Option.some_ne_none _

/-- `Write` and `Create` make the file exactly if the mode is not `r+b`. -/
theorem creates_iff (h : OnWritableMount host.format w.st.mounts guestPath hostPath) :
    (flags.has .Write = true → flags.has .Create = true →
        Absent host hostPath (parentsMade host hostPath flags w.tree) →
          Opened w (openFile host guestPath flags w)) ↔
      (readWrite flags = true → flags.has .Create = true →
        ¬ Absent host hostPath (parentsMade host hostPath flags w.tree)) := by
  have hopened : Absent host hostPath (parentsMade host hostPath flags w.tree) →
      (Opened w (openFile host guestPath flags w) ↔
        flags.has .Write = true ∧ readWrite flags = false) := by
    rintro ⟨hfree, hallows⟩
    rw [opened_iff h, Tree.openFile_of_none (node_of_free hfree), hfree, hallows,
      creates_flagMode]
    simp
  constructor
  · intro hcreates hrw hcreate habsent
    have hwrite : flags.has .Write = true := by
      rw [readWrite] at hrw
      simp only [Bool.and_eq_true] at hrw
      exact hrw.1.1.1
    have hnot := ((hopened habsent).mp (hcreates hwrite hcreate habsent)).2
    rw [hrw] at hnot
    cases hnot
  · intro hfit hwrite hcreate habsent
    refine (hopened habsent).mpr ⟨hwrite, ?_⟩
    by_contra hrw
    exact hfit (Bool.eq_true_of_not_eq_false hrw) hcreate habsent

/-- Without `Create` a file is made exactly if it can be, and the mode is one that makes it. -/
theorem adds_iff (h : OnWritableMount host.format w.st.mounts guestPath hostPath) :
    (flags.has .Create = false → ∀ q, w.tree.node q = none →
        (openFile host guestPath flags w).2.tree.node q = none) ↔
      (flags.has .Write = true → flags.has .Create = false → readWrite flags = false →
        ¬ Absent host hostPath w.tree) := by
  have hparents : flags.has .Create = false → parentsMade host hostPath flags w.tree = w.tree := by
    intro hcreate
    rw [parentsMade, hcreate]
    rfl
  constructor
  · rintro hadds hwrite hcreate hrw ⟨hfree, hallows⟩
    have hnone := node_of_free hfree
    have hkept := hadds hcreate _ hnone
    rcases openFile_of_writable flags h with
      ⟨hfail, -⟩ | ⟨fp, tree, hsome, -, htree, -⟩
    · rw [hparents hcreate, Tree.openFile_of_none hnone, creates_flagMode, hwrite, hrw, hfree,
        hallows] at hfail
      cases hfail
    · rw [hparents hcreate, Tree.openFile_of_none hnone] at hsome
      split_ifs at hsome
      rw [Option.some.injEq, Prod.mk.injEq] at hsome
      rw [htree, ← hsome.2, Tree.node_insertFile_self] at hkept
      cases hkept
  · intro hfit hcreate q hq
    rcases openFile_of_writable flags h with
      ⟨-, hopen⟩ | ⟨fp, tree, hsome, -, htree, -⟩
    · rw [hopen]
      exact (congrArg (fun t => t.node q) (hparents hcreate)).trans hq
    · rw [htree]
      rw [hparents hcreate] at hsome
      by_cases hnode : w.tree.node (host.locate hostPath) = none
      · rw [Tree.openFile_of_none hnode, creates_flagMode] at hsome
        split_ifs at hsome with hmade
        simp only [Bool.and_eq_true, Bool.not_eq_true'] at hmade
        obtain ⟨⟨hwrite, hrw⟩, hfree, hallows⟩ := hmade
        exact absurd ⟨hfree, hallows⟩ (hfit hwrite hcreate hrw)
      · rcases Tree.openFile_cases hsome with ⟨-, rfl⟩ | ⟨hnone, -⟩
        · split_ifs
          · exact hq
          · exact hq
        · exact absurd hnone hnode

end OpenFile

/-! ## A handle that does not write -/

section Rejecting

variable {host} {longBits} {fd : FileHandle} {w : World ν}

/-- The handle was given out, and if it is still open its stream cannot be written. -/
structure Unwritable (fd : FileHandle) (w : World ν) : Prop where
  given : fd < w.st.nextFd
  mode : ∀ file, w.st.files.lookup fd = some file → file.mode.writes = false

omit [DecidableEq ν] in
theorem Unwritable.rejects (h : Unwritable fd w) : Rejects host fd w := by
  intro buf
  rw [write]
  cases hfile : w.st.files.lookup fd with
  | none => exact ⟨Int.neg_nonpos_of_nonneg Int.one_nonneg, rfl⟩
  | some file =>
      dsimp only
      rw [h.mode file hfile]
      cases file.rdOnly with
      | true => exact ⟨Int.neg_nonpos_of_nonneg Int.one_nonneg, rfl⟩
      | false => exact ⟨le_refl 0, rfl⟩

omit [DecidableEq ν] in
/-- The handles are what they were. -/
theorem Unwritable.of_files (h : Unwritable fd w) {w' : World ν}
    (hfiles : w'.st.files = w.st.files) (hnext : w'.st.nextFd = w.st.nextFd) :
    Unwritable fd w' :=
  ⟨hnext ▸ h.given, hfiles ▸ h.mode⟩

omit [DecidableEq ν] in
theorem Unwritable.of_st (h : Unwritable fd w) {w' : World ν} (hst : w'.st = w.st) :
    Unwritable fd w' :=
  h.of_files (congrArg VfsState.files hst) (congrArg VfsState.nextFd hst)

omit [DecidableEq ν] in
/-- A handle got another position. -/
theorem Unwritable.put (h : Unwritable fd w) {w' : World ν} {fd' : FileHandle}
    {file file' : OpenFile} (hfile : w.st.files.lookup fd' = some file)
    (hfiles : w'.st.files = (fd', file') :: w.st.files.filter fun e => e.1 ≠ fd')
    (hnext : w'.st.nextFd = w.st.nextFd) (hmode : file'.mode = file.mode) :
    Unwritable fd w' := by
  refine ⟨hnext ▸ h.given, fun f hf => ?_⟩
  rw [hfiles, List.lookup_cons_filter] at hf
  split_ifs at hf with heq
  · rw [← Option.some.inj hf, hmode]
    exact h.mode file (heq ▸ hfile)
  · exact h.mode f hf

/-! The operations on names do not touch the handles. -/

theorem st_makeDir (guestPath : Path) (recursive : Bool) :
    (makeDir host guestPath recursive w).2.st = w.st := by
  rw [makeDir]
  split
  · rfl
  · split_ifs
    · rfl
    · split <;> rfl

theorem st_remove (guestPath : Path) : (remove host guestPath w).2.st = w.st := by
  rw [remove]
  split
  · rfl
  · split <;> rfl

theorem st_rename (src dst : Path) : (rename host src dst w).2.st = w.st := by
  rw [rename]
  split
  · split <;> rfl
  · rfl

theorem handles_ensureTempMount (host : Host ν) (w : World ν) :
    (ensureTempMount host w).2.st.files = w.st.files ∧
      (ensureTempMount host w).2.st.nextFd = w.st.nextFd := by
  rw [ensureTempMount]
  split_ifs
  · exact ⟨rfl, rfl⟩
  · split <;> exact ⟨rfl, rfl⟩

/-- A temporary file is closed again, so that only the mounts may change. -/
theorem handles_createTempFile (host : Host ν) (w : World ν) (name : List Char) :
    (createTempFile host name w).2.st.files = w.st.files ∧
      (createTempFile host name w).2.st.nextFd = w.st.nextFd := by
  rw [createTempFile]
  have hmount := handles_ensureTempMount host
    { w with counter := if name.isEmpty then w.counter + 1 else w.counter }
  generalize ensureTempMount host
    { w with counter := if name.isEmpty then w.counter + 1 else w.counter } = r at hmount ⊢
  obtain ⟨r, v⟩ := r
  cases r with
  | none => exact hmount
  | some u =>
      dsimp only
      split
      · exact hmount
      · split <;> exact hmount

/-- A handle that is opened later is another one. -/
theorem Unwritable.openFile (h : Unwritable fd w) (guestPath : Path) (flags : OpenFlags) :
    Unwritable fd (openFile host guestPath flags w).2 := by
  rw [Filesystem.openFile]
  cases resolveImpl host.format w.st.mounts guestPath with
  | none => exact h
  | some p =>
      dsimp only
      split_ifs
      · exact h
      · split
        · exact h.of_files rfl rfl
        · refine ⟨Int.lt_add_one_of_le (le_of_lt h.given), fun f hf => ?_⟩
          rw [List.lookup_cons_filter, if_neg (ne_of_lt h.given)] at hf
          exact h.mode f hf
      · split
        · exact h.of_files rfl rfl
        · refine ⟨Int.lt_add_one_of_le (le_of_lt h.given), fun f hf => ?_⟩
          rw [List.lookup_cons_filter, if_neg (ne_of_lt h.given)] at hf
          exact h.mode f hf

theorem Unwritable.step (h : Unwritable fd w) (o : Op) : Unwritable fd (step host w o) := by
  cases o with
  | openFile guestPath flags => exact h.openFile guestPath flags
  | write fd' buf =>
      rw [Filesystem.step, write]
      cases hfile : w.st.files.lookup fd' with
      | none => exact h
      | some file =>
          dsimp only
          cases file.rdOnly with
          | true => exact h
          | false =>
              cases hwrites : file.mode.writes with
              | false => exact h
              | true => exact h.put hfile rfl rfl rfl
  | close fd' =>
      rw [Filesystem.step, close]
      cases w.st.files.lookup fd' with
      | none => exact h
      | some file =>
          refine ⟨h.given, fun f hf => ?_⟩
          by_cases heq : fd = fd'
          · rw [heq, List.lookup_filter_self] at hf
            cases hf
          · rw [List.lookup_filter_of_ne _ heq] at hf
            exact h.mode f hf
  | makeDir guestPath recursive => exact h.of_st (st_makeDir guestPath recursive)
  | remove guestPath => exact h.of_st (st_remove guestPath)
  | rename src dst => exact h.of_st (st_rename src dst)
  | ensureSaveDir titleId => exact h.of_st (st_makeDir (saveDirPath titleId) true)
  | createTempFile name =>
      obtain ⟨hfiles, hnext⟩ := handles_createTempFile host w name
      exact h.of_files hfiles hnext

theorem Unwritable.handleStep (h : Unwritable fd w) (o : HandleOp) :
    Unwritable fd (handleStep host longBits w o) := by
  cases o with
  | op o => exact h.step o
  | read fd' size =>
      rw [Filesystem.handleStep, read]
      cases hfile : w.st.files.lookup fd' with
      | none => exact h
      | some file =>
          dsimp only
          cases file.mode.reads with
          | true => exact h.put hfile rfl rfl rfl
          | false => exact h
  | seek fd' offset origin =>
      rw [Filesystem.handleStep, seek]
      cases hfile : w.st.files.lookup fd' with
      | none => exact h
      | some file => exact h.put hfile rfl rfl rfl

/-- Whatever is done after it, a handle opened without `Write` takes no bytes. -/
theorem rejects_of_not_write {guestPath hostPath : Path} {flags : OpenFlags}
    (h : OnWritableMount host.format w.st.mounts guestPath hostPath)
    (hwrite : flags.has .Write = false) (hopened : Opened w (openFile host guestPath flags w))
    (ops : List HandleOp) :
    AllStates (handleStep host longBits) (Rejects host (openFile host guestPath flags w).1)
      (openFile host guestPath flags w).2 ops := by
  have hstart : Unwritable (openFile host guestPath flags w).1
      (openFile host guestPath flags w).2 := by
    rcases openFile_of_writable flags h with
      ⟨-, hfail⟩ | ⟨fp, tree, -, hfd, -, hnext, file, hfile, hmode⟩
    · rw [hfail] at hopened
      exact absurd hopened.2 (by simp)
    · rw [hfd]
      refine ⟨hnext ▸ Int.lt_succ _, fun f hf => ?_⟩
      rw [hfile] at hf
      rw [← Option.some.inj hf, hmode, writes_flagMode_eq, hwrite]
  exact allStates_of_allSteps (G := fun _ _ => True) (fun _ hv => hv.rejects)
    (fun _ o hv _ => hv.handleStep o) hstart (allSteps_of_forall fun _ _ => trivial)

end Rejecting

/-! ## The promises are kept when the mode fits -/

end Flags

/-! ## Flags that are not kept -/

/-- The file `x` with one byte below the writable `/savedata`. -/
def savedFile : World Path :=
  { twoMounts with
    tree :=
      { entries := [([['s'], ['x']], .file 0), ([['s']], .dir), ([], .dir)]
        data := fun _ => [7#8]
        next := 1
        lt_next := by simp } }

/-- The guest path of a file of one letter below `/savedata`. -/
def savedPath (c : Char) : Path := ['/', 's', 'a', 'v', 'e', 'd', 'a', 't', 'a', '/', c]

theorem onWritableMount_savedFile {c : Char} (h : c = 'x' ∨ c = 'y') :
    OnWritableMount .posix savedFile.st.mounts (savedPath c) ['/', 's', '/', c] := by
  refine ⟨?_, ?_⟩
  · rintro (_ | _ | i) m hm -
    · rw [← Option.some.inj hm]
      rfl
    · rw [← Option.some.inj hm]
      rfl
    · cases hm
  · rcases h with rfl | rfl
    · exact ⟨_, rfl, rfl, by decide⟩
    · exact ⟨_, rfl, rfl, by decide⟩

end Filesystem
