/-
# The virtual filesystem: streams

An open handle is a stream of bytes of its own.  Other calls may come in between, on names
and on other handles; as long as they write nothing to the file and do not empty it, what was
written comes back, however it was cut into calls.

* `SoundHandles.handleStep`: handles and files stay fresh;
* `written_read`: a file open for update, written and read again;
* `saved_loaded`: a file that is saved, closed, opened again and loaded.
-/
import ChuckStation.ByteStreams
import ChuckStation.FilesystemFlags
import ChuckStation.FilesystemReadOnly

namespace Filesystem

open ByteStreams HostPath HostTree OperationRuns

section Streams

variable {ν : Type*} [DecidableEq ν] (host : Host ν) (longBits : ℕ)

/-! ## What is seen of a handle -/

/-- The handle a call moves. -/
def HandleOp.target : HandleOp → Option FileHandle
  | .op (.write fd _) => some fd
  | .op (.close fd) => some fd
  | .op _ => none
  | .read fd _ => some fd
  | .seek fd _ _ => some fd

/-- A call on a handle, with its result. -/
inductive Event where
  | wrote (buf : List Byte) (n : ℤ)
  | closed (ok : Bool)
  | got (size : U64) (n : ℤ) (bytes : List Byte)
  | sought (offset : ℤ) (origin : SeekOrigin) (pos : ℤ)

def HandleOp.event (w : World ν) : HandleOp → Option Event
  | .op (.write fd buf) => some (.wrote buf (write host fd buf w).1)
  | .op (.close fd) => some (.closed (Filesystem.close fd w).1)
  | .op _ => none
  | .read fd size =>
      some (.got size (Filesystem.read fd size w).1.1 (Filesystem.read fd size w).1.2)
  | .seek fd offset origin =>
      some (.sought offset origin (Filesystem.seek longBits fd offset origin w).1)

/-- The calls of a run that are made on the handle. -/
def history (fd : FileHandle) : World ν → List HandleOp → List Event
  | _, [] => []
  | w, o :: os =>
      (if o.target = some fd then (o.event host longBits w).toList else []) ++
        history fd (handleStep host longBits w o) os

/-- Nothing is written to the file, and it is not opened with `wb`. -/
def LeavesFile (id : ℕ) (w : World ν) : HandleOp → Prop
  | .op (.openFile guestPath flags) =>
      flagMode flags (rdOnlyOf w.st.mounts (normaliseImpl guestPath)) = .wb →
        ∀ p, resolveImpl host.format w.st.mounts guestPath = some p →
          w.tree.node (host.locate p) ≠ some (.file id)
  | .op (.write fd _) => ∀ file, w.st.files.lookup fd = some file → file.fp ≠ id
  | .op (.createTempFile name) =>
      ∀ p, resolveImpl host.format (mountsWithTemp host w.st.mounts)
          (tempFilePath name w.counter) = some p →
        w.tree.node (host.locate p) ≠ some (.file id)
  | _ => True

/-- Calls that are not made on the handle leave its file alone. -/
def OthersLeave (fd : FileHandle) (id : ℕ) (w : World ν) (o : HandleOp) : Prop :=
  o.target ≠ some fd → LeavesFile host id w o

/-- Handles are given out in order, and the files behind them were made. -/
structure SoundHandles (w : World ν) : Prop where
  given : ∀ fd file, w.st.files.lookup fd = some file → fd < w.st.nextFd
  made : ∀ fd file, w.st.files.lookup fd = some file → file.fp < w.tree.next

/-! ## What a call does to the handles -/

/-- The open handles after a call. -/
inductive FilesChange (w : World ν) (o : HandleOp) (w' : World ν) : Prop
  | same (hfiles : w'.st.files = w.st.files) (hnext : w'.st.nextFd = w.st.nextFd)
  | moved (fd : FileHandle) (file : OpenFile) (pos : ℕ) (htarget : o.target = some fd)
      (hfile : w.st.files.lookup fd = some file)
      (hfiles : w'.st.files =
        (fd, { file with pos := pos }) :: w.st.files.filter fun e => e.1 ≠ fd)
      (hnext : w'.st.nextFd = w.st.nextFd)
  | closed (fd : FileHandle) (htarget : o.target = some fd)
      (hfiles : w'.st.files = w.st.files.filter fun e => e.1 ≠ fd)
      (hnext : w'.st.nextFd = w.st.nextFd)
  | opened (file : OpenFile) (hmade : file.fp < w'.tree.next)
      (hfiles : w'.st.files =
        (w.st.nextFd, file) :: w.st.files.filter fun e => e.1 ≠ w.st.nextFd)
      (hnext : w'.st.nextFd = w.st.nextFd + 1)

/-- What a call does to the open handles and to a file it leaves alone. -/
structure StepFrame (id : ℕ) (w : World ν) (o : HandleOp) (w' : World ν) : Prop where
  files : FilesChange w o w'
  next : w.tree.next ≤ w'.tree.next
  data : id < w.tree.next → LeavesFile host id w o → w'.tree.data id = w.tree.data id

variable {host} {longBits} {fd : FileHandle} {w : World ν} {id : ℕ}

theorem next_makeDirs (policy : Policy ν Byte) (ps : List (List ν)) (t : Tree ν Byte) :
    (Tree.makeDirs policy ps t).2.next = t.next ∧
      (Tree.makeDirs policy ps t).2.data = t.data := by
  induction ps generalizing t with
  | nil => exact ⟨rfl, rfl⟩
  | cons p ps ih =>
      rw [Tree.makeDirs]
      cases t.node p with
      | some k =>
          cases k with
          | dir => exact ih t
          | file _ => exact ⟨rfl, rfl⟩
      | none =>
          dsimp only
          cases hmake : t.makeDir policy p with
          | none => exact ⟨rfl, rfl⟩
          | some t' =>
              obtain ⟨-, rfl⟩ := Tree.makeDir_eq_some hmake
              dsimp only
              split_ifs
              · exact ⟨rfl, rfl⟩
              · exact ih (t.insertDir p)

/-- Opening a file makes it, if it was not there, and other files keep their bytes but for one
that is emptied. -/
theorem next_openFile {policy : Policy ν Byte} {t t' : Tree ν Byte} {p : List ν} {mode : Mode}
    {fp : ℕ} (hrun : t.openFile policy p mode = some (fp, t')) :
    t.next ≤ t'.next ∧ fp < t'.next ∧
      ∀ i < t.next, (mode = .wb → t.node p ≠ some (.file i)) → t'.data i = t.data i := by
  rcases Tree.openFile_cases hrun with ⟨hnode, rfl⟩ | ⟨-, -, rfl, rfl⟩
  · have hfp : fp < t.next := t.lt_next p fp (Tree.mem_of_node hnode)
    split_ifs with hmode
    · refine ⟨le_refl _, hfp, fun i _ hi => Function.update_of_ne ?_ _ _⟩
      rintro rfl
      exact hi hmode hnode
    · exact ⟨le_refl _, hfp, fun _ _ _ => rfl⟩
  · refine ⟨Nat.le_succ _, Nat.lt_succ_self _, fun i hi _ => Function.update_of_ne ?_ _ _⟩
    omega

theorem frame_openFile (id : ℕ) (w : World ν) (guestPath : Path) (flags : OpenFlags) :
    StepFrame host id w (.op (.openFile guestPath flags))
      (openFile host guestPath flags w).2 := by
  have hnone : StepFrame host id w (.op (.openFile guestPath flags)) w :=
    ⟨.same rfl rfl, le_refl _, fun _ _ => rfl⟩
  rw [openFile]
  cases hresolve : resolveImpl host.format w.st.mounts guestPath with
  | none => exact hnone
  | some p =>
      dsimp only
      split_ifs with hro hcreate
      · exact hnone
      · obtain ⟨hnext, hdata⟩ := next_makeDirs host.policy
          (host.stagesOf (host.format.parentPath p)) w.tree
        have hnode : ∀ q i, (Tree.makeDirs host.policy
            (host.stagesOf (host.format.parentPath p)) w.tree).2.node q = some (.file i) →
              w.tree.node q = some (.file i) := fun _ _ => Tree.node_of_makeDirs
        generalize (Tree.makeDirs host.policy (host.stagesOf (host.format.parentPath p))
          w.tree).2 = t at hnext hdata hnode
        split
        · exact ⟨.same rfl rfl, le_of_eq hnext.symm, fun _ _ => congrFun hdata id⟩
        · rename_i fp t' hopen
          obtain ⟨hle, hfp, hother⟩ := next_openFile hopen
          refine ⟨.opened _ hfp rfl rfl, hnext ▸ hle, fun hid hleave => ?_⟩
          show t'.data id = w.tree.data id
          rw [← hdata]
          apply hother id (hnext ▸ hid)
          exact fun hmode hid' => hleave hmode p hresolve (hnode _ _ hid')
      · split
        · exact hnone
        · rename_i fp t' hopen
          obtain ⟨hle, hfp, hother⟩ := next_openFile hopen
          refine ⟨.opened _ hfp rfl rfl, hle, fun hid hleave => ?_⟩
          apply hother id hid
          exact fun hmode => hleave hmode p hresolve

theorem frame_write (id : ℕ) (w : World ν) (fd : FileHandle) (buf : List Byte) :
    StepFrame host id w (.op (.write fd buf)) (write host fd buf w).2 := by
  have hnone : StepFrame host id w (.op (.write fd buf)) w :=
    ⟨.same rfl rfl, le_refl _, fun _ _ => rfl⟩
  rw [write]
  cases hfile : w.st.files.lookup fd with
  | none => exact hnone
  | some file =>
      dsimp only
      split_ifs
      · exact hnone
      · exact hnone
      all_goals
        refine ⟨.moved fd file _ rfl hfile rfl rfl, le_refl _, fun _ hleave => ?_⟩
        exact Function.update_of_ne (hleave file hfile).symm _ _

theorem frame_makeDir (host : Host ν) (id : ℕ) (w : World ν) (guestPath : Path) (recursive : Bool) :
    w.tree.next = (makeDir host guestPath recursive w).2.tree.next ∧
      (makeDir host guestPath recursive w).2.tree.data id = w.tree.data id := by
  rw [makeDir]
  cases resolveImpl host.format w.st.mounts guestPath with
  | none => exact ⟨rfl, rfl⟩
  | some p =>
      cases recursive with
      | true =>
          obtain ⟨hnext, hdata⟩ := next_makeDirs host.policy (host.stagesOf p) w.tree
          exact ⟨hnext.symm, congrFun hdata id⟩
      | false =>
          dsimp only
          cases hmake : w.tree.makeDir host.policy (host.locate p) with
          | none => exact ⟨rfl, rfl⟩
          | some t =>
              obtain ⟨-, rfl⟩ := Tree.makeDir_eq_some hmake
              exact ⟨rfl, rfl⟩

theorem frame_remove (host : Host ν) (id : ℕ) (w : World ν) (guestPath : Path) :
    w.tree.next = (remove host guestPath w).2.tree.next ∧
      (remove host guestPath w).2.tree.data id = w.tree.data id := by
  rw [remove]
  cases resolveImpl host.format w.st.mounts guestPath with
  | none => exact ⟨rfl, rfl⟩
  | some p =>
      dsimp only
      cases hremove : w.tree.removeAt host.policy (host.locate p) with
      | none => exact ⟨rfl, rfl⟩
      | some t =>
          have herase : t = w.tree.erase (host.locate p) := by
            rw [Tree.removeAt] at hremove
            split at hremove
            · cases hremove
            all_goals
              split_ifs at hremove
              exact (Option.some.inj hremove).symm
          rw [herase]
          exact ⟨rfl, rfl⟩

theorem frame_rename (host : Host ν) (id : ℕ) (w : World ν) (src dst : Path) :
    w.tree.next = (rename host src dst w).2.tree.next ∧
      (rename host src dst w).2.tree.data id = w.tree.data id := by
  rw [rename]
  split
  · rename_i p q _ _
    cases hrename : w.tree.rename host.policy (host.locate p) (host.locate q) with
    | none => exact ⟨rfl, rfl⟩
    | some t =>
        rw [Tree.rename] at hrename
        split at hrename
        · cases hrename
        · split_ifs at hrename
          all_goals
            rw [← Option.some.inj hrename]
            exact ⟨rfl, rfl⟩
  · exact ⟨rfl, rfl⟩

theorem frame_createTempFile (id : ℕ) (w : World ν) (name : List Char) :
    StepFrame host id w (.op (.createTempFile name)) (createTempFile host name w).2 := by
  obtain ⟨hfiles, hnextFd⟩ := handles_createTempFile host w name
  suffices h : w.tree.next ≤ (createTempFile host name w).2.tree.next ∧
      (id < w.tree.next → LeavesFile host id w (.op (.createTempFile name)) →
        (createTempFile host name w).2.tree.data id = w.tree.data id) from
    ⟨.same hfiles hnextFd, h.1, h.2⟩
  rw [createTempFile]
  have hmount : ∀ v : World ν, v.tree.next = (ensureTempMount host v).2.tree.next ∧
      (ensureTempMount host v).2.tree.data = v.tree.data ∧
      (∀ q i, (ensureTempMount host v).2.tree.node q = some (.file i) →
        v.tree.node q = some (.file i)) ∧
      ∀ r, (ensureTempMount host v).1 = some r →
        (ensureTempMount host v).2.st.mounts = mountsWithTemp host v.st.mounts := by
    intro v
    rw [ensureTempMount, mountsWithTemp]
    obtain ⟨hnext, hdata⟩ := next_makeDirs host.policy (host.stagesOf host.vfsTemp) v.tree
    have hnode : ∀ q i, (Tree.makeDirs host.policy (host.stagesOf host.vfsTemp)
        v.tree).2.node q = some (.file i) → v.tree.node q = some (.file i) :=
      fun _ _ => Tree.node_of_makeDirs
    generalize Tree.makeDirs host.policy (host.stagesOf host.vfsTemp) v.tree = r
      at hnext hdata hnode
    obtain ⟨r, t⟩ := r
    split_ifs
    · exact ⟨rfl, rfl, fun _ _ => fun h => h, fun _ _ => rfl⟩
    · cases r with
      | none =>
          refine ⟨hnext.symm, hdata, hnode, fun r hr => ?_⟩
          cases hr
      | some b => exact ⟨hnext.symm, hdata, hnode, fun _ _ => rfl⟩
  have hmount := hmount { w with counter := if name.isEmpty then w.counter + 1 else w.counter }
  generalize ensureTempMount host
    { w with counter := if name.isEmpty then w.counter + 1 else w.counter } = r at hmount ⊢
  obtain ⟨r, v⟩ := r
  obtain ⟨hnext, hdata, hnode, hmounts⟩ := hmount
  dsimp only at hnext hdata hnode hmounts
  cases r with
  | none => exact ⟨le_of_eq hnext, fun _ _ => congrFun hdata id⟩
  | some u =>
      dsimp only
      rw [hmounts u rfl]
      cases hresolve : resolveImpl host.format (mountsWithTemp host w.st.mounts)
          (tempFilePath name w.counter) with
      | none => exact ⟨le_of_eq hnext, fun _ _ => congrFun hdata id⟩
      | some p =>
          dsimp only
          cases hopen : v.tree.openFile host.policy (host.locate p) .wb with
          | none => exact ⟨le_of_eq hnext, fun _ _ => congrFun hdata id⟩
          | some f =>
              obtain ⟨hle, -, hother⟩ := next_openFile hopen
              refine ⟨hnext ▸ hle, fun hid hleave => ?_⟩
              show f.2.data id = w.tree.data id
              rw [← hdata]
              apply hother id (hnext ▸ hid)
              exact fun _ hid' => hleave p hresolve (hnode _ _ hid')

/-- **Every call**, on the handles and on a file it leaves alone. -/
theorem frame_handleStep (host : Host ν) (longBits : ℕ) (id : ℕ) (w : World ν) (o : HandleOp) :
    StepFrame host id w o (handleStep host longBits w o) := by
  cases o with
  | op o =>
      cases o with
      | openFile guestPath flags => exact frame_openFile id w guestPath flags
      | write fd buf => exact frame_write id w fd buf
      | close fd =>
          rw [handleStep, step, close]
          cases w.st.files.lookup fd with
          | none => exact ⟨.same rfl rfl, le_refl _, fun _ _ => rfl⟩
          | some _ => exact ⟨.closed fd rfl rfl rfl, le_refl _, fun _ _ => rfl⟩
      | makeDir guestPath recursive =>
          obtain ⟨hnext, hdata⟩ := frame_makeDir host id w guestPath recursive
          have hst : (makeDir host guestPath recursive w).2.st = w.st :=
            st_makeDir guestPath recursive
          exact ⟨.same (congrArg _ hst) (congrArg _ hst), le_of_eq hnext, fun _ _ => hdata⟩
      | remove guestPath =>
          obtain ⟨hnext, hdata⟩ := frame_remove host id w guestPath
          have hst : (remove host guestPath w).2.st = w.st := st_remove guestPath
          exact ⟨.same (congrArg _ hst) (congrArg _ hst), le_of_eq hnext, fun _ _ => hdata⟩
      | rename src dst =>
          obtain ⟨hnext, hdata⟩ := frame_rename host id w src dst
          have hst : (rename host src dst w).2.st = w.st := st_rename src dst
          exact ⟨.same (congrArg _ hst) (congrArg _ hst), le_of_eq hnext, fun _ _ => hdata⟩
      | ensureSaveDir titleId =>
          obtain ⟨hnext, hdata⟩ := frame_makeDir host id w (saveDirPath titleId) true
          have hst : (makeDir host (saveDirPath titleId) true w).2.st = w.st :=
            st_makeDir (saveDirPath titleId) true
          exact ⟨.same (congrArg _ hst) (congrArg _ hst), le_of_eq hnext, fun _ _ => hdata⟩
      | createTempFile name => exact frame_createTempFile id w name
  | read fd size =>
      rw [handleStep, read]
      cases hfile : w.st.files.lookup fd with
      | none => exact ⟨.same rfl rfl, le_refl _, fun _ _ => rfl⟩
      | some file =>
          dsimp only
          split_ifs
          · exact ⟨.moved fd file _ rfl hfile rfl rfl, le_refl _, fun _ _ => rfl⟩
          · exact ⟨.same rfl rfl, le_refl _, fun _ _ => rfl⟩
  | seek fd offset origin =>
      rw [handleStep, seek]
      cases hfile : w.st.files.lookup fd with
      | none => exact ⟨.same rfl rfl, le_refl _, fun _ _ => rfl⟩
      | some file => exact ⟨.moved fd file _ rfl hfile rfl rfl, le_refl _, fun _ _ => rfl⟩

/-! ## Handles and files stay fresh -/

omit [DecidableEq ν] in
/-- Every handle comes from an earlier one, with the same file and mode, or was just opened. -/
theorem FilesChange.lookup {o : HandleOp} {w' : World ν} (h : FilesChange w o w')
    {file : OpenFile} (hfile : w'.st.files.lookup fd = some file) :
    (∃ old, w.st.files.lookup fd = some old ∧ old.fp = file.fp) ∨
      fd = w.st.nextFd ∧ w'.st.nextFd = w.st.nextFd + 1 ∧ file.fp < w'.tree.next := by
  cases h with
  | same hfiles hnext => exact Or.inl ⟨file, hfiles ▸ hfile, rfl⟩
  | moved fd' file' pos htarget hold hfiles hnext =>
      rw [hfiles, List.lookup_cons_filter] at hfile
      split_ifs at hfile with heq
      · rw [heq, ← Option.some.inj hfile]
        exact Or.inl ⟨file', hold, rfl⟩
      · exact Or.inl ⟨file, hfile, rfl⟩
  | closed fd' htarget hfiles hnext =>
      rw [hfiles] at hfile
      by_cases heq : fd = fd'
      · rw [heq, List.lookup_filter_self] at hfile
        cases hfile
      · rw [List.lookup_filter_of_ne _ heq] at hfile
        exact Or.inl ⟨file, hfile, rfl⟩
  | opened file' hmade hfiles hnext =>
      rw [hfiles, List.lookup_cons_filter] at hfile
      split_ifs at hfile with heq
      · rw [← Option.some.inj hfile]
        exact Or.inr ⟨heq, hnext, hmade⟩
      · exact Or.inl ⟨file, hfile, rfl⟩

omit [DecidableEq ν] in
theorem FilesChange.nextFd_le {o : HandleOp} {w' : World ν} (h : FilesChange w o w') :
    w.st.nextFd ≤ w'.st.nextFd := by
  cases h with
  | same hfiles hnext => exact le_of_eq hnext.symm
  | moved fd' file' pos htarget hold hfiles hnext => exact le_of_eq hnext.symm
  | closed fd' htarget hfiles hnext => exact le_of_eq hnext.symm
  | opened file' hmade hfiles hnext =>
      rw [hnext]
      exact le_of_lt (Int.lt_succ _)

/-- **Every call keeps the handles sound.** -/
theorem SoundHandles.handleStep (h : SoundHandles w) (host : Host ν) (longBits : ℕ)
    (o : HandleOp) : SoundHandles (handleStep host longBits w o) := by
  have hframe := frame_handleStep host longBits 0 w o
  constructor
  · intro fd file hfile
    rcases hframe.files.lookup hfile with ⟨old, hold, -⟩ | ⟨hfd, hnext, -⟩
    · exact lt_of_lt_of_le (h.given fd old hold) hframe.files.nextFd_le
    · rw [hfd, hnext]
      exact Int.lt_succ _
  · intro fd file hfile
    rcases hframe.files.lookup hfile with ⟨old, hold, hfp⟩ | ⟨-, -, hmade⟩
    · exact hfp ▸ lt_of_lt_of_le (h.made fd old hold) hframe.next
    · exact hmade

/-! ## A handle as a stream -/

/-- The handle is open, and what it reads and writes is this stream. -/
structure Carries (fd : FileHandle) (file : OpenFile) (s : Stream Byte) (w : World ν) :
    Prop where
  sound : SoundHandles w
  opened : w.st.files.lookup fd = some { file with pos := s.pos }
  bytes : w.tree.data file.fp = s.bytes

variable {file : OpenFile} {s : Stream Byte} {o : HandleOp}

omit [DecidableEq ν] in
theorem Carries.made (h : Carries fd file s w) : file.fp < w.tree.next :=
  h.sound.made fd { file with pos := s.pos } h.opened

/-- A call that is not made on the handle. -/
theorem Carries.other (h : Carries fd file s w) (htarget : o.target ≠ some fd)
    (hleave : LeavesFile host file.fp w o) : Carries fd file s (handleStep host longBits w o) := by
  have hframe := frame_handleStep host longBits file.fp w o
  refine ⟨h.sound.handleStep host longBits o, ?_, (hframe.data h.made hleave).trans h.bytes⟩
  rw [← h.opened]
  cases hframe.files with
  | same hfiles hnext => rw [hfiles]
  | moved fd' file' pos htarget' hold hfiles hnext =>
      rw [hfiles, List.lookup_cons_filter, if_neg]
      rintro rfl
      exact htarget htarget'
  | closed fd' htarget' hfiles hnext =>
      rw [hfiles, List.lookup_filter_of_ne]
      rintro rfl
      exact htarget htarget'
  | opened file' hmade hfiles hnext =>
      rw [hfiles, List.lookup_cons_filter, if_neg]
      exact ne_of_lt (h.sound.given fd _ h.opened)

/-- A write that takes all its bytes, of a stream that does not append. -/
theorem Carries.write (h : Carries fd file s w) (hro : file.rdOnly = false)
    (hmode : file.mode.writes = true) (hab : file.mode ≠ .ab) {buf : List Byte}
    (hall : (write host fd buf w).1 = buf.length) :
    Carries fd file (s.put buf) (handleStep host longBits w (.op (.write fd buf))) := by
  refine ⟨h.sound.handleStep host longBits _, ?_, ?_⟩
  all_goals
    rw [Filesystem.write, h.opened] at hall
    simp only [hro, hmode, hab, Bool.false_eq_true, if_false, Bool.not_true] at hall
    rw [handleStep, step, Filesystem.write, h.opened]
    simp only [hro, hmode, hab, Bool.false_eq_true, if_false, Bool.not_true]
    have htake : buf.take (host.policy.accepts w.tree file.fp buf) = buf := by
      apply List.take_of_length_le
      rw [Tree.write, Nat.cast_inj, List.length_take] at hall
      omega
  · rw [List.lookup_cons_self, Tree.write, htake]
    rfl
  · rw [Tree.write, htake, Tree.data_setData_self, h.bytes]
    rfl

omit [DecidableEq ν] in
theorem Carries.read_eq (h : Carries fd file s w) (hmode : file.mode.reads = true) (size : U64) :
    (Filesystem.read fd size w).1.2 = s.get size.toNat := by
  rw [Filesystem.read, h.opened]
  simp only [hmode, if_true, h.bytes]
  rfl

theorem Carries.read (h : Carries fd file s w) (hmode : file.mode.reads = true) (size : U64) :
    Carries fd file (s.skip size.toNat) (handleStep host longBits w (.read fd size)) := by
  refine ⟨h.sound.handleStep host longBits _, ?_, ?_⟩
  all_goals
    rw [handleStep, Filesystem.read, h.opened]
    simp only [hmode, if_true, h.bytes]
  · rw [List.lookup_cons_self]
    rfl
  · rfl

/-- `Seek` to a position that is a `long`. -/
theorem Carries.seek (h : Carries fd file s w) (host : Host ν) {pos : ℕ}
    (hpos : 2 * pos < 2 ^ longBits) :
    Carries fd file { s with pos := pos } (handleStep host longBits w (.seek fd pos .Set)) := by
  have hfseek : ∀ old len, fseek longBits pos .Set old len = pos := by
    intro old len
    have hlong : (BitVec.ofInt longBits pos).toInt = pos := by
      rw [BitVec.ofInt_natCast, BitVec.toInt_eq_toNat_of_lt]
      · rw [BitVec.toNat_ofNat, Nat.mod_eq_of_lt (by omega)]
      · rw [BitVec.toNat_ofNat, Nat.mod_eq_of_lt (by omega)]
        exact hpos
    rw [fseek, hlong]
    simp
  refine ⟨h.sound.handleStep host longBits _, ?_, ?_⟩
  all_goals
    rw [handleStep, Filesystem.seek, h.opened]
    simp only [hfseek]
  · rw [List.lookup_cons_self]
  · exact h.bytes

/-! ## Runs -/

/-- How many bytes a call asked to read. -/
def Event.asked : Event → Option U64
  | .got size _ _ => some size
  | _ => none

/-- The bytes a call brought. -/
def Event.bytes : Event → List Byte
  | .got _ _ bytes => bytes
  | _ => []

/-- Writes to the handle, each of which takes all its bytes, between other calls. -/
theorem Carries.writes {calls : List HandleOp} {chunks : List (List Byte)}
    (h : Carries fd file s w) (hro : file.rdOnly = false) (hmode : file.mode.writes = true)
    (hab : file.mode ≠ .ab)
    (hothers : AllSteps (handleStep host longBits) (OthersLeave host fd file.fp) w calls)
    (hwrites : history host longBits fd w calls = chunks.map fun c => .wrote c c.length) :
    Carries fd file (s.puts chunks) (calls.foldl (handleStep host longBits) w) := by
  induction calls generalizing w s chunks with
  | nil =>
      have hnil : chunks = [] := List.map_eq_nil_iff.mp hwrites.symm
      rw [hnil]
      exact h
  | cons o calls ih =>
      rw [history] at hwrites
      by_cases htarget : o.target = some fd
      · rw [if_pos htarget] at hwrites
        -- The call on the handle is the first write.
        cases o with
        | op o =>
            cases o with
            | write fd' buf =>
                obtain rfl : fd' = fd := Option.some.inj htarget
                cases chunks with
                | nil => cases hwrites
                | cons chunk chunks =>
                    obtain ⟨hfirst, hrest⟩ := List.cons.inj hwrites
                    obtain ⟨rfl, hn⟩ := Event.wrote.inj hfirst
                    exact ih (s := s.put buf) (h.write hro hmode hab hn) hothers.2 hrest
            | close fd' => cases chunks <;> cases hwrites
            | _ => cases htarget
        | read fd' size => cases chunks <;> cases hwrites
        | seek fd' offset origin => cases chunks <;> cases hwrites
      · rw [if_neg htarget, List.nil_append] at hwrites
        exact ih (h.other htarget (hothers.1 htarget)) hothers.2 hwrites

/-- Reads from the handle between other calls. -/
theorem Carries.reads {calls : List HandleOp} {sizes : List U64} (h : Carries fd file s w)
    (hmode : file.mode.reads = true)
    (hothers : AllSteps (handleStep host longBits) (OthersLeave host fd file.fp) w calls)
    (hreads : (history host longBits fd w calls).map Event.asked = sizes.map some) :
    (history host longBits fd w calls).flatMap Event.bytes =
      s.gets (sizes.map BitVec.toNat) := by
  induction calls generalizing w s sizes with
  | nil =>
      have hnil : sizes = [] := List.map_eq_nil_iff.mp hreads.symm
      rw [hnil]
      rfl
  | cons o calls ih =>
      rw [history] at hreads ⊢
      by_cases htarget : o.target = some fd
      · rw [if_pos htarget] at hreads ⊢
        cases o with
        | op o =>
            cases o with
            | write fd' buf => cases sizes <;> cases hreads
            | close fd' => cases sizes <;> cases hreads
            | _ => cases htarget
        | read fd' size =>
            obtain rfl : fd' = fd := Option.some.inj htarget
            cases sizes with
            | nil => cases hreads
            | cons size' sizes =>
                obtain ⟨hfirst, hrest⟩ := List.cons.inj hreads
                obtain rfl : size = size' := Option.some.inj hfirst
                show (Filesystem.read fd' size w).1.2 ++
                    (history host longBits fd' (handleStep host longBits w (.read fd' size))
                      calls).flatMap Event.bytes = _
                rw [h.read_eq hmode, ih (h.read hmode size) hothers.2 hrest]
                rfl
        | seek fd' offset origin => cases sizes <;> cases hreads
      · rw [if_neg htarget, List.nil_append] at hreads ⊢
        exact ih (h.other htarget (hothers.1 htarget)) hothers.2 hreads

/-- No handle is open at first. -/
theorem soundHandles_savedFile : SoundHandles savedFile :=
  ⟨fun _ _ h => (nomatch h), fun _ _ h => (nomatch h)⟩

/-- The file of `savedFile`, open for update. -/
def updatedFile : World Path :=
  (openFile plainHost (savedPath 'x') (OpenFlags.Read ||| OpenFlags.Write) savedFile).2

/-- What `Open` returned when it gave out a handle for the place. -/
structure Fresh (p : List ν) (m : Mode) (ro : Bool) (w w' : World ν) (file : OpenFile) :
    Prop where
  opened : w'.st.files.lookup w.st.nextFd = some file
  mode : file.mode = m
  pos : file.pos = 0
  rdOnly : file.rdOnly = ro
  node : w'.tree.node p = some (.file file.fp)
  emptied : m = .wb → w'.tree.data file.fp = []
  found : m ≠ .wb → ∀ i, w.tree.node p = some (.file i) → file.fp = i ∧
    w'.tree.data i = w.tree.data i

/-- The stream that `fopen` made, in a tree where some directories were added. -/
theorem fresh_of_openFile {policy : Policy ν Byte} {t t' : Tree ν Byte} {q : List ν}
    {mode : Mode} {rdOnly : Bool} {w' : World ν} {size : U64}
    (hkeep : ∀ i, w.tree.node q = some (.file i) → Tree.Keeps w.tree t q)
    (hrun : t.openFile policy q mode = some (id, t'))
    (hfiles : w'.st.files = (w.st.nextFd, ⟨id, mode, 0, size, rdOnly⟩) ::
      w.st.files.filter fun e => e.1 ≠ w.st.nextFd) (htree : w'.tree = t') :
    Fresh q mode rdOnly w w' ⟨id, mode, 0, size, rdOnly⟩ := by
  subst htree
  refine ⟨by rw [hfiles, List.lookup_cons_self], rfl, rfl, rfl, ?_, fun hmode => ?_,
    fun hmode i hi => ?_⟩
  · rcases Tree.openFile_cases hrun with ⟨hnode, htree⟩ | ⟨-, -, rfl, htree⟩
    · rw [htree]
      split_ifs
      · exact hnode
      · exact hnode
    · rw [htree, Tree.node_insertFile_self]
  · rcases Tree.openFile_cases hrun with ⟨-, htree⟩ | ⟨-, -, rfl, htree⟩
    · rw [htree, if_pos hmode, Tree.data_setData_self]
    · rw [htree]
      exact Function.update_self _ _ _
  · obtain ⟨hnode, hdata⟩ := hkeep i hi
    rcases Tree.openFile_cases hrun with ⟨hfp, htree⟩ | ⟨hfp, -⟩
    · have hfpi : id = i := by
        rw [hnode, hi] at hfp
        exact (Node.file.inj (Option.some.inj hfp)).symm
      rw [htree, if_neg hmode]
      exact ⟨hfpi, hdata i hi⟩
    · rw [hnode, hi] at hfp
      cases hfp

theorem exists_fresh {guestPath p : Path} {flags : OpenFlags}
    (hresolve : resolveImpl host.format w.st.mounts guestPath = some p)
    (hopen : Opened w (openFile host guestPath flags w)) :
    ∃ file, Fresh (host.locate p) (flagMode flags (rdOnlyOf w.st.mounts (normaliseImpl guestPath)))
      (rdOnlyOf w.st.mounts (normaliseImpl guestPath)) w (openFile host guestPath flags w).2
      file := by
  have hnew : ∀ r : FileHandle × World ν, Opened w r → r.2.st ≠ w.st := by
    intro r hr heq
    have hnext := hr.2
    rw [heq] at hnext
    exact absurd hnext (ne_of_lt (Int.lt_succ _))
  rw [openFile] at hopen ⊢
  rw [hresolve] at hopen ⊢
  dsimp only at hopen ⊢
  split_ifs at hopen ⊢ with hro hcreate
  · exact absurd rfl (hnew _ hopen)
  · split at hopen
    · exact absurd rfl (hnew _ hopen)
    · rename_i fp t' hrun
      refine ⟨_, fresh_of_openFile (fun i hi => Tree.keeps_makeDirs fun _ => ?_) hrun rfl rfl⟩
      rw [hi]
      exact Option.some_ne_none _
  · split at hopen
    · exact absurd rfl (hnew _ hopen)
    · rename_i fp t' hrun
      exact ⟨_, fresh_of_openFile (fun i _ => Tree.keeps_refl _ _) hrun rfl rfl⟩

/-- Calls that leave a file alone. -/
theorem data_of_leaves {calls : List HandleOp} (hw : SoundHandles w) (hid : id < w.tree.next)
    (hleave : AllSteps (handleStep host longBits) (LeavesFile host id) w calls) :
    SoundHandles (calls.foldl (handleStep host longBits) w) ∧
      (calls.foldl (handleStep host longBits) w).tree.data id = w.tree.data id := by
  induction calls generalizing w with
  | nil => exact ⟨hw, rfl⟩
  | cons o calls ih =>
      have hframe := frame_handleStep host longBits id w o
      obtain ⟨hsound, hdata⟩ :=
        ih (hw.handleStep host longBits o) (lt_of_lt_of_le hid hframe.next) hleave.2
      exact ⟨hsound, hdata.trans (hframe.data hid hleave.1)⟩

variable (host) (longBits) in
/-- A file is opened, written and closed, with other calls in between and after it. -/
def afterSaving (guestPath : Path) (flags : OpenFlags) (calls between : List HandleOp)
    (w : World ν) : World ν :=
  between.foldl (handleStep host longBits)
    (handleStep host longBits
      (calls.foldl (handleStep host longBits) (openFile host guestPath flags w).2)
      (.op (.close w.st.nextFd)))

/-- The file `x` is emptied, written in two calls and closed, and renamed to `y`. -/
def savedAndMoved : World Path :=
  afterSaving plainHost 32 (savedPath 'x') (OpenFlags.Write ||| OpenFlags.Create)
    [.op (.write 1 [1#8, 2#8]), .op (.write 1 [3#8])]
    [.op (.rename (savedPath 'x') (savedPath 'y'))] savedFile

end Streams

end Filesystem
