/-
# The virtual filesystem: operations

`Open`, `Write` and the operations on names, over the mount table and the file tree of the
host.  A step of the model is one of the calls a guest makes.
-/
import ChuckStation.Bytes
import ChuckStation.Filesystem
import ChuckStation.HostTree

namespace Filesystem

open HostPath HostTree

/-! ## State -/

abbrev FileHandle := ℤ

def INVALID_FD : FileHandle := -1

abbrev OpenFlags := BitVec 32

namespace OpenFlags

def Read : OpenFlags := 1#32 <<< 0
def Write : OpenFlags := 1#32 <<< 1
def Create : OpenFlags := 1#32 <<< 2
def Truncate : OpenFlags := 1#32 <<< 3
def Append : OpenFlags := 1#32 <<< 4
def NonBlock : OpenFlags := 1#32 <<< 5

/-- `operator&` of the flags. -/
def has (a b : OpenFlags) : Bool := (a &&& b) != 0#32

end OpenFlags

/-- An open file: the file of the host behind `fp`, with the mode and the position of the
stream. -/
structure OpenFile where
  fp : ℕ
  mode : Mode
  pos : ℕ
  size : U64
  rdOnly : Bool

structure VfsState where
  mounts : List MountEntry
  files : List (FileHandle × OpenFile)
  nextFd : FileHandle

/-- The host: the format of its paths, the place each path names, the directory for temporary
files, and what it refuses. -/
structure Host (ν : Type*) where
  format : Format
  locate : Path → List ν
  tempDirectory : Path
  policy : Policy ν Byte

/-- The filesystem state, the counter of `CreateTempFile` and the file tree of the host. -/
structure World (ν : Type*) where
  st : VfsState
  counter : U64
  tree : Tree ν Byte

section Operations

variable {ν : Type*} [DecidableEq ν] (host : Host ν)

/-! ## Files -/

def flagMode (flags : OpenFlags) (rdOnly : Bool) : Mode :=
  if rdOnly then .rb
  else
    let r := flags.has .Read
    let w := flags.has .Write
    let t := flags.has .Truncate
    let a := flags.has .Append
    if w && t then .wb
    else if w && a then .ab
    else if w && r then .rPlusB
    else if w then .wb
    else .rb

/-- The read-only flag `Open` goes by: that of the first mount whose prefix starts the path. -/
def rdOnlyOf (mounts : List MountEntry) (norm : Path) : Bool :=
  match mounts.find? fun m => m.valid && m.guestPrefix.isPrefixOf norm with
  | some m => m.readOnly
  | none => false

/-- The places of the directories on the way to `p`, and of `p` itself. -/
def Host.stagesOf (p : Path) : List (List ν) := (host.format.stages p).map host.locate

def openFile (guestPath : Path) (flags : OpenFlags) (w : World ν) : FileHandle × World ν :=
  let rdOnly := rdOnlyOf w.st.mounts (normaliseImpl guestPath)
  match resolveImpl host.format w.st.mounts guestPath with
  | none => (INVALID_FD, w)
  | some hostPath =>
      if rdOnly && flags.has .Write then (INVALID_FD, w)
      else
        let mode := flagMode flags rdOnly
        -- The parent directories are made for every mount, read-only or not.
        let tree :=
          if flags.has .Create then
            (Tree.makeDirs host.policy (host.stagesOf (host.format.parentPath hostPath)) w.tree).2
          else w.tree
        match tree.openFile host.policy (host.locate hostPath) mode with
        | none => (INVALID_FD, { w with tree := tree })
        | some (fp, tree) =>
            let fd := w.st.nextFd
            let file : OpenFile :=
              { fp := fp, mode := mode, pos := 0, size := BitVec.ofNat 64 (tree.data fp).length,
                rdOnly := rdOnly }
            (fd, { w with
              st := { w.st with
                files := (fd, file) :: w.st.files.filter fun e => e.1 ≠ fd
                nextFd := fd + 1 }
              tree := tree })

/-- `Write`; a stream that was opened to be read takes no bytes. -/
def write (fd : FileHandle) (buf : List Byte) (w : World ν) : ℤ × World ν :=
  match w.st.files.lookup fd with
  | none => (-1, w)
  | some file =>
      if file.rdOnly then (-1, w)
      else if !file.mode.writes then (0, w)
      else
        let pos := if file.mode = .ab then (w.tree.data file.fp).length else file.pos
        let (n, tree) := w.tree.write host.policy file.fp pos buf
        let file := { file with pos := pos + n }
        (n, { w with
          st := { w.st with files := (fd, file) :: w.st.files.filter fun e => e.1 ≠ fd }
          tree := tree })

def close (fd : FileHandle) (w : World ν) : Bool × World ν :=
  match w.st.files.lookup fd with
  | none => (false, w)
  | some _ =>
      (true, { w with st := { w.st with files := w.st.files.filter fun e => e.1 ≠ fd } })

/-! ## Names -/

def makeDir (guestPath : Path) (recursive : Bool) (w : World ν) : Bool × World ν :=
  match resolveImpl host.format w.st.mounts guestPath with
  | none => (false, w)
  | some h =>
      if recursive then
        let (created, tree) := Tree.makeDirs host.policy (host.stagesOf h) w.tree
        (created == some true, { w with tree := tree })
      else
        match w.tree.makeDir host.policy (host.locate h) with
        | none => (false, w)
        | some tree => (true, { w with tree := tree })

def remove (guestPath : Path) (w : World ν) : Bool × World ν :=
  match resolveImpl host.format w.st.mounts guestPath with
  | none => (false, w)
  | some h =>
      match w.tree.removeAt host.policy (host.locate h) with
      | none => (false, w)
      | some tree => (true, { w with tree := tree })

def rename (src dst : Path) (w : World ν) : Bool × World ν :=
  match resolveImpl host.format w.st.mounts src, resolveImpl host.format w.st.mounts dst with
  | some hf, some ht =>
      match w.tree.rename host.policy (host.locate hf) (host.locate ht) with
      | none => (false, w)
      | some tree => (true, { w with tree := tree })
  | _, _ => (false, w)

/-- The guest path of a title's save data. -/
def saveDirPath (titleId : List Char) : Path :=
  ['/', 's', 'a', 'v', 'e', 'd', 'a', 't', 'a', '/'] ++ titleId

def ensureSaveDir (titleId : List Char) (w : World ν) : Path × World ν :=
  (saveDirPath titleId, (makeDir host (saveDirPath titleId) true w).2)

/-! ## Temporary files -/

/-- The directory mounted when none is mounted for temporary files. -/
def Host.vfsTemp : Path :=
  host.format.append host.tempDirectory
    ['c', 'h', 'u', 'c', 'k', 's', 't', 'a', 't', 'i', 'o', 'n', '5', '_', 'v', 'f', 's', '_',
      't', 'e', 'm', 'p']

def Host.tempEntry : MountEntry :=
  { guestPrefix := ['/', 't', 'e', 'm', 'p'], hostPath := host.vfsTemp, valid := true,
    readOnly := false }

/-- A directory is mounted in the slot for temporary files. -/
def tempMounted (mounts : List MountEntry) : Bool :=
  (mounts[MountPoint.temp.index]?).any fun m => m.valid

def tempFilePath (name : List Char) (counter : U64) : Path :=
  ['/', 't', 'e', 'm', 'p', '/'] ++
    if name.isEmpty then ['t', 'm', 'p', '_'] ++ Nat.toDigits 10 counter.toNat else name

/-- `Ensure temp mount exists`; nothing is returned when `create_directories` throws. -/
def ensureTempMount (w : World ν) : Option Unit × World ν :=
  if tempMounted w.st.mounts then (some (), w)
  else
    match Tree.makeDirs host.policy (host.stagesOf host.vfsTemp) w.tree with
    | (none, tree) => (none, { w with tree := tree })
    | (some _, tree) =>
        (some (), { w with
          st := { w.st with mounts := w.st.mounts.set MountPoint.temp.index host.tempEntry }
          tree := tree })

/-- The new file is opened and closed; whether that worked is not looked at. -/
def createTempFile (name : List Char) (w : World ν) : Option Path × World ν :=
  let guestPath := tempFilePath name w.counter
  let w := { w with counter := if name.isEmpty then w.counter + 1 else w.counter }
  match ensureTempMount host w with
  | (none, w) => (none, w)
  | (some (), w) =>
      match resolveImpl host.format w.st.mounts guestPath with
      | none => (some guestPath, w)
      | some resolved =>
          match w.tree.openFile host.policy (host.locate resolved) .wb with
          | none => (some guestPath, w)
          | some (_, tree) => (some guestPath, { w with tree := tree })

/-! ## Steps -/

/-- The calls of a guest. -/
inductive Op where
  | openFile (guestPath : Path) (flags : OpenFlags)
  | write (fd : FileHandle) (buf : List Byte)
  | close (fd : FileHandle)
  | makeDir (guestPath : Path) (recursive : Bool)
  | remove (guestPath : Path)
  | rename (src dst : Path)
  | ensureSaveDir (titleId : List Char)
  | createTempFile (name : List Char)

def step (w : World ν) : Op → World ν
  | .openFile guestPath flags => (openFile host guestPath flags w).2
  | .write fd buf => (write host fd buf w).2
  | .close fd => (close fd w).2
  | .makeDir guestPath recursive => (makeDir host guestPath recursive w).2
  | .remove guestPath => (remove host guestPath w).2
  | .rename src dst => (rename host src dst w).2
  | .ensureSaveDir titleId => (ensureSaveDir host titleId w).2
  | .createTempFile name => (createTempFile host name w).2

end Operations

end Filesystem
