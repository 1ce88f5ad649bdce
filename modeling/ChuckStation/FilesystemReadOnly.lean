/-
# Read-only mounts

What the operations of a guest may do to the files below the directory of a read-only mount.
`Open` refuses to write there; the operations on names do not look at the flag.  A run leaves
these files alone if its operations stay away from them by themselves.
-/
import ChuckStation.FilesystemOps
import ChuckStation.OperationRuns

namespace Filesystem

open HostPath HostTree OperationRuns

section ReadOnly

variable {ν : Type*} [DecidableEq ν] (host : Host ν)

/-! ## Read-only places -/

/-- A place below the host directory of a read-only mount. -/
def ReadOnlyPlace (mounts : List MountEntry) (p : List ν) : Prop :=
  ∃ m ∈ mounts, m.valid = true ∧ m.readOnly = true ∧ Below (host.locate m.hostPath) p

instance (mounts : List MountEntry) (p : List ν) : Decidable (ReadOnlyPlace host mounts p) := by
  unfold ReadOnlyPlace; infer_instance

/-- Nothing below the directory of a read-only mount was created, changed or removed. -/
def Untouched (w w' : World ν) : Prop :=
  ∀ p, ReadOnlyPlace host w.st.mounts p → Tree.Keeps w.tree w'.tree p

/-- No file that can be written through an open handle has a name at a read-only place. -/
def HandlesOutside (w : World ν) : Prop :=
  ∀ e ∈ w.st.files, e.2.rdOnly = false → e.2.mode.writes = true →
    ∀ p, ReadOnlyPlace host w.st.mounts p → w.tree.node p ≠ some (.file e.2.fp)

/-! ## Operations that stay away -/

/-- A directory at this place may be asked for: the place is not read-only, or something is
there already. -/
def MayMake (w : World ν) (p : List ν) : Prop :=
  ReadOnlyPlace host w.st.mounts p → w.tree.node p ≠ none

instance (w : World ν) (p : List ν) : Decidable (MayMake host w p) := by
  unfold MayMake; infer_instance

/-- A file at this place may be written: neither the place nor any other name of the file is
read-only. -/
def MayWrite (w : World ν) (p : List ν) : Prop :=
  ∀ q, ReadOnlyPlace host w.st.mounts q →
    q ≠ p ∧ ∀ id, w.tree.node p = some (.file id) → w.tree.node q ≠ some (.file id)

/-- What is at this place may be moved, and something may be moved here: the place is neither
inside the directory of a read-only mount nor around it. -/
def MayMove (w : World ν) (p : List ν) : Prop :=
  ∀ m ∈ w.st.mounts, m.valid = true → m.readOnly = true →
    ¬ host.locate m.hostPath <+: p ∧ ¬ p <+: host.locate m.hostPath

/-- The mounts `CreateTempFile` resolves its path with. -/
def mountsWithTemp (mounts : List MountEntry) : List MountEntry :=
  if tempMounted mounts then mounts else mounts.set MountPoint.temp.index host.tempEntry

/-- `MakeDir` asks for directories only where they may be made. -/
def MakesOutside (w : World ν) (guestPath : Path) (recursive : Bool) : Prop :=
  ∀ p, resolveImpl host.format w.st.mounts guestPath = some p →
    if recursive then ∀ q ∈ host.stagesOf p, MayMake host w q
    else MayMake host w (host.locate p)

/-- The operation stays away from read-only places, or `Open` refuses it. -/
def StaysAway (w : World ν) : Op → Prop
  | .openFile guestPath flags =>
      ∀ p, resolveImpl host.format w.st.mounts guestPath = some p →
        (rdOnlyOf w.st.mounts (normaliseImpl guestPath) && flags.has .Write) = true ∨
          (flags.has .Create = true →
            ∀ q ∈ host.stagesOf (host.format.parentPath p), MayMake host w q) ∧
          (flags.has .Write = true → MayWrite host w (host.locate p))
  | .write _ _ => True
  | .close _ => True
  | .makeDir guestPath recursive => MakesOutside host w guestPath recursive
  | .remove guestPath =>
      ∀ p, resolveImpl host.format w.st.mounts guestPath = some p →
        ReadOnlyPlace host w.st.mounts (host.locate p) → w.tree.node (host.locate p) = none
  | .rename src dst =>
      ∀ p q, resolveImpl host.format w.st.mounts src = some p →
        resolveImpl host.format w.st.mounts dst = some q →
          w.tree.node (host.locate p) = none ∨
            MayMove host w (host.locate p) ∧ MayMove host w (host.locate q)
  | .ensureSaveDir titleId => MakesOutside host w (saveDirPath titleId) true
  | .createTempFile name =>
      (tempMounted w.st.mounts = false → ∀ q ∈ host.stagesOf host.vfsTemp, MayMake host w q) ∧
        ∀ p, resolveImpl host.format (mountsWithTemp host w.st.mounts)
            (tempFilePath name w.counter) = some p → MayWrite host w (host.locate p)

/-! ## One operation -/

/-- `w'` comes after `w`: the same places are read-only, nothing happened there, and the open
handles stay outside. -/
structure Spares (w w' : World ν) : Prop where
  places : ∀ p, ReadOnlyPlace host w'.st.mounts p ↔ ReadOnlyPlace host w.st.mounts p
  untouched : Untouched host w w'
  handles : HandlesOutside host w'

variable {host} {w : World ν}

theorem spares_refl (hw : HandlesOutside host w) : Spares host w w :=
  ⟨fun _ => Iff.rfl, fun _ _ => Tree.keeps_refl _ _, hw⟩

/-- Only the tree changed. -/
theorem spares_of_tree (hw : HandlesOutside host w) {t : Tree ν Byte}
    (h : ∀ p, ReadOnlyPlace host w.st.mounts p → Tree.Keeps w.tree t p) :
    Spares host w { w with tree := t } := by
  refine ⟨fun _ => Iff.rfl, h, fun e he hro hwrites p hp => ?_⟩
  rw [(h p hp).1]
  exact hw e he hro hwrites p hp

theorem keeps_of_mayMake {ps : List (List ν)} {q : List ν} (h : ∀ p ∈ ps, MayMake host w p)
    (hq : ReadOnlyPlace host w.st.mounts q) :
    Tree.Keeps w.tree (Tree.makeDirs host.policy ps w.tree).2 q :=
  Tree.keeps_makeDirs fun hmem => h q hmem hq

theorem writes_flagMode {flags : OpenFlags} {rdOnly : Bool}
    (h : (flagMode flags rdOnly).writes = true) : rdOnly = false ∧ flags.has .Write = true := by
  cases rdOnly with
  | true => cases h
  | false =>
      refine ⟨rfl, ?_⟩
      by_contra hw
      rw [Bool.not_eq_true] at hw
      simp [flagMode, hw, Mode.writes] at h

/-- Permission to write outlives the making of directories. -/
theorem MayWrite.makeDirs {p : List ν} (h : MayWrite host w p) (ps : List (List ν))
    {q : List ν} (hq : ReadOnlyPlace host w.st.mounts q) :
    q ≠ p ∧ ∀ id, (Tree.makeDirs host.policy ps w.tree).2.node p = some (.file id) →
      (Tree.makeDirs host.policy ps w.tree).2.node q ≠ some (.file id) := by
  refine ⟨(h q hq).1, fun id hp hq' => ?_⟩
  exact (h q hq).2 id (Tree.node_of_makeDirs hp) (Tree.node_of_makeDirs hq')

theorem spares_openFile (hw : HandlesOutside host w) {guestPath : Path} {flags : OpenFlags}
    (h : StaysAway host w (.openFile guestPath flags)) :
    Spares host w (openFile host guestPath flags w).2 := by
  rw [openFile]
  cases hresolve : resolveImpl host.format w.st.mounts guestPath with
  | none => exact spares_refl hw
  | some p =>
      dsimp only
      by_cases hrefused :
          (rdOnlyOf w.st.mounts (normaliseImpl guestPath) && flags.has .Write) = true
      · rw [if_pos hrefused]
        exact spares_refl hw
      rw [if_neg hrefused]
      obtain ⟨hmake, hwrite⟩ := (h p hresolve).resolve_left hrefused
      generalize htree : (if flags.has .Create then
        (Tree.makeDirs host.policy (host.stagesOf (host.format.parentPath p)) w.tree).2
        else w.tree) = tree
      -- The directories made on the way leave the read-only places alone.
      have hkeep : ∀ q, ReadOnlyPlace host w.st.mounts q → Tree.Keeps w.tree tree q := by
        intro q hq
        rw [← htree]
        split_ifs with hcreate
        · exact keeps_of_mayMake (hmake hcreate) hq
        · exact Tree.keeps_refl _ _
      have hmay : flags.has .Write = true → ∀ q, ReadOnlyPlace host w.st.mounts q →
          q ≠ host.locate p ∧ ∀ id, tree.node (host.locate p) = some (.file id) →
            tree.node q ≠ some (.file id) := by
        intro hflag q hq
        rw [← htree]
        split_ifs
        · exact (hwrite hflag).makeDirs _ hq
        · exact hwrite hflag q hq
      cases hopen : tree.openFile host.policy (host.locate p)
          (flagMode flags (rdOnlyOf w.st.mounts (normaliseImpl guestPath))) with
      | none => exact spares_of_tree hw hkeep
      | some r =>
          obtain ⟨fp, tree'⟩ := r
          have hkeep' : ∀ q, ReadOnlyPlace host w.st.mounts q → Tree.Keeps w.tree tree' q := by
            intro q hq
            refine (hkeep q hq).trans (Tree.keeps_openFile hopen ?_ ?_)
            · exact fun hmode => (hmay (writes_flagMode hmode).2 q hq).1
            · exact fun hmode => (hmay (writes_flagMode hmode).2 q hq).2
          refine ⟨fun _ => Iff.rfl, hkeep', fun e he hro hwrites q hq => ?_⟩
          rcases List.mem_cons.mp he with rfl | he
          · obtain ⟨hne, hlink⟩ := hmay (writes_flagMode hwrites).2 q hq
            exact Tree.node_ne_of_openFile hopen hne hlink
          · rw [(hkeep' q hq).1]
            exact hw e (List.mem_filter.mp he).1 hro hwrites q hq

theorem spares_write (hw : HandlesOutside host w) (fd : FileHandle) (buf : List Byte) :
    Spares host w (write host fd buf w).2 := by
  rw [write]
  cases hfile : w.st.files.lookup fd with
  | none => exact spares_refl hw
  | some file =>
      obtain ⟨l, l', heq, -⟩ := List.lookup_eq_some_iff.mp hfile
      have hmem : (fd, file) ∈ w.st.files := by rw [heq]; simp
      dsimp only
      cases hro : file.rdOnly with
      | true => exact spares_refl hw
      | false =>
          cases hwrites : file.mode.writes with
          | false => exact spares_refl hw
          | true =>
              have hkeep : ∀ q, ReadOnlyPlace host w.st.mounts q → ∀ bytes,
                  Tree.Keeps w.tree (w.tree.setData file.fp bytes) q :=
                fun q hq bytes => Tree.keeps_setData bytes (hw _ hmem hro hwrites q hq)
              refine ⟨fun _ => Iff.rfl, fun q hq => hkeep q hq _,
                fun e he hro' hwrites' q hq => ?_⟩
              rcases List.mem_cons.mp he with rfl | he
              · exact hw _ hmem hro hwrites q hq
              · exact hw e (List.mem_filter.mp he).1 hro' hwrites' q hq

theorem spares_close (hw : HandlesOutside host w) (fd : FileHandle) :
    Spares host w (close fd w).2 := by
  rw [close]
  cases w.st.files.lookup fd with
  | none => exact spares_refl hw
  | some file =>
      refine ⟨fun _ => Iff.rfl, fun _ _ => Tree.keeps_refl _ _, fun e he => ?_⟩
      exact hw e (List.mem_filter.mp he).1

theorem spares_makeDir (hw : HandlesOutside host w) {guestPath : Path} {recursive : Bool}
    (h : MakesOutside host w guestPath recursive) :
    Spares host w (makeDir host guestPath recursive w).2 := by
  rw [makeDir]
  cases hresolve : resolveImpl host.format w.st.mounts guestPath with
  | none => exact spares_refl hw
  | some p =>
      have hp := h p hresolve
      cases recursive with
      | true => exact spares_of_tree hw fun q hq => keeps_of_mayMake hp hq
      | false =>
          dsimp only
          rw [if_neg Bool.false_ne_true]
          cases hmake : w.tree.makeDir host.policy (host.locate p) with
          | none => exact spares_refl hw
          | some t =>
              obtain ⟨hnone, rfl⟩ := Tree.makeDir_eq_some hmake
              refine spares_of_tree hw fun q hq => Tree.keeps_insertDir fun heq => ?_
              rw [heq] at hq
              exact hp hq hnone

theorem spares_remove (hw : HandlesOutside host w) {guestPath : Path}
    (h : StaysAway host w (.remove guestPath)) :
    Spares host w (remove host guestPath w).2 := by
  rw [remove]
  cases hresolve : resolveImpl host.format w.st.mounts guestPath with
  | none => exact spares_refl hw
  | some p =>
      dsimp only
      cases hremove : w.tree.removeAt host.policy (host.locate p) with
      | none => exact spares_refl hw
      | some t =>
          refine spares_of_tree hw fun q hq => Tree.keeps_removeAt hremove fun heq => ?_
          rw [heq] at hq
          rw [Tree.removeAt, h p hresolve hq] at hremove
          cases hremove

omit [DecidableEq ν] in
/-- A place that may be moved is not above a read-only one. -/
theorem MayMove.not_prefix {p q : List ν} (h : MayMove host w p)
    (hq : ReadOnlyPlace host w.st.mounts q) : ¬ p <+: q := by
  obtain ⟨m, hm, hvalid, hro, hbelow⟩ := hq
  obtain ⟨hin, haround⟩ := h m hm hvalid hro
  intro hp
  rcases List.prefix_or_prefix_of_prefix hp hbelow.1 with hpm | hmp
  · exact haround hpm
  · exact hin hmp

theorem spares_rename (hw : HandlesOutside host w) {src dst : Path}
    (h : StaysAway host w (.rename src dst)) :
    Spares host w (rename host src dst w).2 := by
  rw [rename]
  cases hsrc : resolveImpl host.format w.st.mounts src with
  | none => exact spares_refl hw
  | some p =>
      cases hdst : resolveImpl host.format w.st.mounts dst with
      | none => exact spares_refl hw
      | some q =>
          dsimp only
          cases hrename : w.tree.rename host.policy (host.locate p) (host.locate q) with
          | none => exact spares_refl hw
          | some t =>
              rcases h p q hsrc hdst with hnone | ⟨hp, hq⟩
              · rw [Tree.rename, hnone] at hrename
                cases hrename
              · exact spares_of_tree hw fun r hr =>
                  Tree.keeps_rename hrename (hp.not_prefix hr) (hq.not_prefix hr)

theorem mem_set_temp {mounts : List MountEntry} {m : MountEntry}
    (htemp : tempMounted mounts = false) (hvalid : m.valid = true) (hm : m ∈ mounts)
    (e : MountEntry) : m ∈ mounts.set MountPoint.temp.index e := by
  obtain ⟨i, hi, rfl⟩ := List.getElem_of_mem hm
  have hne : MountPoint.temp.index ≠ i := by
    intro heq
    rw [tempMounted, heq, List.getElem?_eq_getElem hi, Option.any_some, hvalid] at htemp
    cases htemp
  rw [List.mem_iff_getElem]
  exact ⟨i, by rwa [List.length_set], List.getElem_set_of_ne hne _ _⟩

omit [DecidableEq ν] in
/-- A directory for temporary files in the table changes no read-only place. -/
theorem readOnlyPlace_set_temp {mounts : List MountEntry} (htemp : tempMounted mounts = false)
    (p : List ν) : ReadOnlyPlace host (mounts.set MountPoint.temp.index host.tempEntry) p ↔
      ReadOnlyPlace host mounts p := by
  constructor
  · rintro ⟨m, hm, hvalid, hro, hbelow⟩
    rcases List.mem_or_eq_of_mem_set hm with hm | rfl
    · exact ⟨m, hm, hvalid, hro, hbelow⟩
    · cases hro
  · rintro ⟨m, hm, hvalid, hro, hbelow⟩
    exact ⟨m, mem_set_temp htemp hvalid hm _, hvalid, hro, hbelow⟩

/-- A temporary directory, mounted or not, and permission to write through it. -/
theorem spares_ensureTempMount (hw : HandlesOutside host w)
    (h : tempMounted w.st.mounts = false → ∀ q ∈ host.stagesOf host.vfsTemp, MayMake host w q) :
    Spares host w (ensureTempMount host w).2 ∧
      (∀ r, (ensureTempMount host w).1 = some r →
        (ensureTempMount host w).2.st.mounts = mountsWithTemp host w.st.mounts) ∧
      ∀ p, MayWrite host w p → MayWrite host (ensureTempMount host w).2 p := by
  rw [ensureTempMount, mountsWithTemp]
  cases htemp : tempMounted w.st.mounts with
  | true => exact ⟨spares_refl hw, fun _ _ => rfl, fun _ => id⟩
  | false =>
      rw [if_neg Bool.false_ne_true, if_neg Bool.false_ne_true]
      have hkeep := fun q hq => keeps_of_mayMake (h htemp) (q := q) hq
      have hmay := fun p (hp : MayWrite host w p) q (hq : ReadOnlyPlace host w.st.mounts q) =>
        hp.makeDirs (host.stagesOf host.vfsTemp) hq
      generalize Tree.makeDirs host.policy (host.stagesOf host.vfsTemp) w.tree = r at hkeep hmay
      obtain ⟨r, tree⟩ := r
      cases r with
      | none =>
          refine ⟨spares_of_tree hw hkeep, fun r hr => ?_, fun p hp => hmay p hp⟩
          cases hr
      | some b =>
          refine ⟨⟨readOnlyPlace_set_temp htemp, hkeep, fun e he hro hwrites p hp => ?_⟩,
            fun _ _ => rfl, fun p hp q hq => ?_⟩
          · rw [readOnlyPlace_set_temp htemp] at hp
            rw [(hkeep p hp).1]
            exact hw e he hro hwrites p hp
          · exact hmay p hp q ((readOnlyPlace_set_temp htemp q).mp hq)

theorem Spares.trans {w' w'' : World ν} (h : Spares host w w') (h' : Spares host w' w'') :
    Spares host w w'' :=
  ⟨fun p => (h'.places p).trans (h.places p),
    fun p hp => (h.untouched p hp).trans (h'.untouched p ((h.places p).mpr hp)), h'.handles⟩

theorem spares_createTempFile (hw : HandlesOutside host w) {name : List Char}
    (h : StaysAway host w (.createTempFile name)) :
    Spares host w (createTempFile host name w).2 := by
  obtain ⟨hmake, hwrite⟩ := h
  rw [createTempFile]
  have hmount := spares_ensureTempMount
    (w := { w with counter := if name.isEmpty then w.counter + 1 else w.counter }) hw hmake
  generalize ensureTempMount host
    { w with counter := if name.isEmpty then w.counter + 1 else w.counter } = r at hmount ⊢
  obtain ⟨r, v⟩ := r
  obtain ⟨hspares, hmounts, hmay⟩ := hmount
  replace hspares : Spares host w v := ⟨hspares.places, hspares.untouched, hspares.handles⟩
  cases r with
  | none => exact hspares
  | some u =>
      dsimp only at hmounts hmay ⊢
      rw [hmounts u rfl]
      cases hresolve : resolveImpl host.format (mountsWithTemp host w.st.mounts)
          (tempFilePath name w.counter) with
      | none => exact hspares
      | some p =>
          have hp : MayWrite host v (host.locate p) := hmay _ (hwrite p hresolve)
          dsimp only
          cases hopen : v.tree.openFile host.policy (host.locate p) .wb with
          | none => exact hspares
          | some f =>
              refine hspares.trans (spares_of_tree hspares.handles fun q hq => ?_)
              exact Tree.keeps_openFile hopen (fun _ => (hp q hq).1) fun _ => (hp q hq).2

/-- One operation that stays away. -/
theorem spares_step (hw : HandlesOutside host w) {op : Op} (h : StaysAway host w op) :
    Spares host w (step host w op) := by
  cases op with
  | openFile guestPath flags => exact spares_openFile hw h
  | write fd buf => exact spares_write hw fd buf
  | close fd => exact spares_close hw fd
  | makeDir guestPath recursive => exact spares_makeDir hw h
  | remove guestPath => exact spares_remove hw h
  | rename src dst => exact spares_rename hw h
  | ensureSaveDir titleId => exact spares_makeDir hw h
  | createTempFile name => exact spares_createTempFile hw h

/-! ## Runs -/

/-- **Read-only mounts stay as they are** in every run whose operations stay away from them. -/
theorem readOnly_kept (host : Host ν) (w : World ν) (ops : List Op)
    (hw : HandlesOutside host w) (h : AllSteps (step host) (StaysAway host) w ops) :
    AllStates (step host) (Untouched host w) w ops := by
  refine allStates_of_allSteps (I := Spares host w) (fun v hv => hv.untouched) ?_
    (spares_refl hw) h
  intro v op hv hop
  exact hv.trans (spares_step hv.handles hop)

end ReadOnly

/-! ## A read-only mount and one to write to -/

/-- A host with one separator that refuses nothing. -/
def plainHost : Host Path :=
  { format := .posix
    locate := fun p => (Format.posix.location p).names
    tempDirectory := ['/', 't']
    policy := { allows := fun _ _ => true, accepts := fun _ _ bytes => bytes.length } }

/-- The file `/g/x` below the read-only `/app0`, and an empty directory for `/savedata`. -/
def twoMounts : World Path :=
  { st :=
      { mounts :=
          [{ guestPrefix := ['/', 'a', 'p', 'p', '0'], hostPath := ['/', 'g'], valid := true,
             readOnly := true },
           { guestPrefix := ['/', 's', 'a', 'v', 'e', 'd', 'a', 't', 'a'], hostPath := ['/', 's'],
             valid := true }]
        files := []
        nextFd := 1 }
    counter := 1
    tree :=
      { entries := [([['g']], .dir), ([['g'], ['x']], .file 0), ([['s']], .dir), ([], .dir)]
        data := fun _ => []
        next := 1
        lt_next := by simp } }

theorem readOnly_kept_twoMounts :
    AllStates (step plainHost) (Untouched plainHost twoMounts) twoMounts
      [.openFile ['/', 'a', 'p', 'p', '0', '/', 'x'] .Write, .ensureSaveDir ['d']] := by
  refine readOnly_kept plainHost twoMounts _ (fun e he => absurd he List.not_mem_nil)
    ⟨fun p _ => Or.inl (by decide), fun p hp => ?_, trivial⟩
  obtain rfl : ['/', 's', '/', 'd'] = p := Option.some.inj hp
  rw [if_pos rfl]
  decide

/-- `Remove` takes a file out of a read-only mount, `MakeDir` puts a directory in. -/
theorem not_readOnly_remove :
    ¬ AllStates (step plainHost) (Untouched plainHost twoMounts) twoMounts
        [.remove ['/', 'a', 'p', 'p', '0', '/', 'x']] ∧
      ¬ AllStates (step plainHost) (Untouched plainHost twoMounts) twoMounts
        [.makeDir ['/', 'a', 'p', 'p', '0', '/', 'd'] true] := by
  constructor
  · intro h
    have hkeep := h _ (List.prefix_refl _) [['g'], ['x']] (by decide)
    exact absurd hkeep.1 (by decide)
  · intro h
    have hkeep := h _ (List.prefix_refl _) [['g'], ['d']] (by decide)
    exact absurd hkeep.1 (by decide)

end Filesystem
