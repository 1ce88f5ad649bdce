/-
# Mapping and unloading executables

The part of `Loader.cpp` that acts on memory: the segment loop, written twice in the source
(`MapSegments` reads a file, `LoadFromMemory` a buffer) and here one definition with the
two ways of fetching bytes as its parameter, and the two ways of unloading.
-/
import ChuckStation.ElfImage

namespace Loader

open Memory

/-! ## One segment -/

/-- `FlagsToProt`. -/
def flagsToProt (fl : U32) : Prot :=
  let p := Prot.None
  let p := if fl &&& PF_R ≠ 0 then p ||| Prot.Read else p
  let p := if fl &&& PF_W ≠ 0 then p ||| Prot.Write else p
  if fl &&& PF_X ≠ 0 then p ||| Prot.Exec else p

namespace Segment

/-- `align`: the loop asks once more whether it is 0. -/
def alignment (seg : Segment) : U64 := if seg.align ≠ 0 then seg.align else PAGE_SIZE

def aVa (seg : Segment) : U64 := seg.vaddr &&& ~~~(seg.alignment - 1)

def aEnd (seg : Segment) : U64 :=
  (seg.vaddr + seg.memsz + seg.alignment - 1) &&& ~~~(seg.alignment - 1)

def mapSz (seg : Segment) : U64 := seg.aEnd - seg.aVa

/-- Where the file bytes go. -/
def dest (seg : Segment) : U64 := seg.hostBase + (seg.vaddr - seg.aVa)

/-- Where the zero fill starts. -/
def bss (seg : Segment) : U64 := seg.hostBase + (seg.vaddr - seg.aVa + seg.filesz)

/-- The zero fill. -/
def zeros (seg : Segment) : List Byte :=
  if seg.memsz > seg.filesz then List.replicate (seg.memsz - seg.filesz).toNat 0 else []

def allocType (seg : Segment) : AllocType :=
  if seg.flags &&& PF_X ≠ 0 then AllocType.Code else AllocType.Data

end Segment

/-- The variables of the segment loop: the bias, how many segments were read from the file,
and the memory manager. -/
structure MapState where
  loadBias : U64 := 0
  reads : ℕ := 0
  mem : Process

/-- `memcpy` or `memset` to host memory; a page that may not be written ends the process. -/
def store (addr : U64) (bs : List Byte) (p : Process) : Except HostAbort Process :=
  if p.host.allows canWrite addr bs.length then
    .ok { p with host := { p.host with bytes := ByteStore.write p.host.bytes addr bs } }
  else .error .segfault

/-- How the `filesz` bytes at `paddr` of the image are had, given how many segments were
read before. -/
abbrev Fetch := U64 → U64 → ℕ → Except Exit (List Byte)

/-- From the buffer. -/
def fetchMemory (data : List Byte) : Fetch := fun paddr filesz _ =>
  match slice data paddr.toNat filesz.toNat with
  | some bs => .ok bs
  | none => .error (.abort .outOfBounds)

/-- From the file, through a vector. -/
def fetchFile (heap : Heap) (file : File) : Fetch := fun paddr filesz reads =>
  match newVector heap filesz.toNat with
  | .error e => .error (.abort e)
  | .ok () =>
    match readBytes file paddr filesz.toNat ⟨reads, false⟩ with
    | (bs, true, _) => .ok bs
    | (_, false, _) => .error (.returned .IoError)

/-- The copy of the file bytes. -/
def copySegment (fetch : Fetch) (seg : Segment) (st : MapState) : Except Exit MapState :=
  if seg.filesz = 0 then .ok st
  else match fetch seg.paddr seg.filesz st.reads with
    | .error e => .error e
    | .ok bs =>
      match store seg.dest bs st.mem with
      | .error e => .error (.abort e)
      | .ok mem => .ok { st with reads := st.reads + 1, mem := mem }

/-- The zero fill. -/
def zeroSegment (seg : Segment) (st : MapState) : Except Exit MapState :=
  if seg.memsz > seg.filesz then
    match store seg.bss seg.zeros st.mem with
    | .error e => .error (.abort e)
    | .ok mem => .ok { st with mem := mem }
  else .ok st

/-- The rest of the loop body, once the segment is mapped.  Whether `Protect` worked is not
asked. -/
def fillSegment (os : Os) (fetch : Fetch) (seg : Segment) (st : MapState) :
    Except Exit MapState := do
  let st ← copySegment fetch seg st
  let st ← zeroSegment seg st
  pure { st with mem := (protect os seg.hostBase seg.mapSz (flagsToProt seg.flags) st.mem).2 }

/-- The load bias after a mapping: the first one decides it, and 0 counts as undecided. -/
def biasAfter (isPic : Bool) (loadBias aVa base : U64) : U64 :=
  if isPic && loadBias == 0 then base - aVa else loadBias

/-- The loop body: how it left the function, if it did, the segment and the variables. -/
def mapSegment (os : Os) (isPic : Bool) (tag : List Byte) (fetch : Fetch) (seg : Segment)
    (st : MapState) : Option Exit × Segment × MapState :=
  if seg.memsz = 0 then (none, seg, st)
  else
    match map os (st.loadBias + seg.aVa) seg.mapSz Prot.RW seg.allocType tag st.mem with
    | (base, mem) =>
      if base = 0 then (some (.returned .MemoryError), seg, { st with mem := mem })
      else
        let loadBias := biasAfter isPic st.loadBias seg.aVa base
        let seg := { seg with hostBase := base }
        let st := { st with loadBias := loadBias, mem := mem }
        match fillSegment os fetch seg st with
        | .error e => (some e, seg, st)
        | .ok st => (none, seg, st)

/-- The segment loop. -/
def mapLoop (os : Os) (isPic : Bool) (tag : List Byte) (fetch : Fetch) :
    List Segment → MapState → Option Exit × List Segment × MapState
  | [], st => (none, [], st)
  | seg :: segments, st =>
    match mapSegment os isPic tag fetch seg st with
    | (some e, seg, st) => (some e, seg :: segments, st)
    | (none, seg, st) =>
      match mapLoop os isPic tag fetch segments st with
      | (exit, segments, st) => (exit, seg :: segments, st)

/-! ## Loading -/

/-- `State`, and the memory manager the loader works on. -/
structure State where
  current : ExecutableInfo := {}
  mem : Process

/-- What both load paths note after the segment loop. -/
def ExecutableInfo.mapped (info : ExecutableInfo) (segments : List Segment) (loadBias : U64) :
    ExecutableInfo :=
  { info with
    segments := segments
    entryPoint := if info.isPic then info.entryPoint + loadBias else info.entryPoint
    imageBase := loadBias
    loaded := true }

/-- The adjustment of relocation offsets at the end of `MapSegments`. -/
def ExecutableInfo.withOffsets (info : ExecutableInfo) (heap : Heap) : ExecutableInfo :=
  { info with
    relaSections := info.relaSections.mapIdx fun i rs =>
      if rs.data = [] then rs else { rs with offset := heap.dataAt i - info.imageBase } }

/-- `path.filename()`. -/
def filename (path : List Byte) : List Byte :=
  (path.reverse.takeWhile fun b => b ≠ 0x2F).reverse

/-- The tag `"MemoryElf"`. -/
def memoryElf : List Byte := [0x4D, 0x65, 0x6D, 0x6F, 0x72, 0x79, 0x45, 0x6C, 0x66]

/-- `MapSegments`. -/
def mapSegments (os : Os) (heap : Heap) (path : List Byte) (file : Option File)
    (info : ExecutableInfo) (mem : Process) : Exit × ExecutableInfo × Process :=
  match file with
  | none => (.returned .FileNotFound, info, mem)
  | some file =>
    match mapLoop os info.isPic (filename path) (fetchFile heap file) info.segments
        { mem := mem } with
    | (some e, segments, st) => (e, { info with segments := segments }, st.mem)
    | (none, segments, st) =>
      (.returned .Ok, (info.mapped segments st.loadBias).withOffsets heap, st.mem)

/-- `LoadExecutable`; the file is opened twice, once to inspect it and once to map it. -/
def loadExecutable (os : Os) (heap : Heap) (path : List Byte) (inspected mapped : Option File)
    (out : ExecutableInfo) (s : State) : Exit × ExecutableInfo × State :=
  match inspectElf heap path inspected out with
  | (e, out) =>
    if e ≠ .returned .Ok then (e, out, s)
    else if validateExecutable out ≠ .Ok then (.returned (validateExecutable out), out, s)
    else
      match mapSegments os heap path mapped out s.mem with
      | (e, out, mem) =>
        if e ≠ .returned .Ok then (e, out, { s with mem := mem })
        else (.returned .Ok, out, { current := out, mem := mem })

/-- `LoadFromMemory`. -/
def loadFromMemory (os : Os) (data : List Byte) (s : State) : Exit × State :=
  match parseMemory data with
  | .error e => (e, s)
  | .ok info =>
    match mapLoop os info.isPic memoryElf (fetchMemory data) info.segments { mem := s.mem } with
    | (some e, _, st) => (e, { s with mem := st.mem })
    | (none, segments, st) =>
      (.returned .Ok, { current := info.mapped segments st.loadBias, mem := st.mem })

/-! ## Unloading -/

/-- Every segment that was mapped is unmapped, whatever `Unmap` answers. -/
def unmapSegments (os : Os) (segments : List Segment) (mem : Process) : Process :=
  segments.foldl (fun mem seg =>
    if seg.hostBase ≠ 0 ∧ seg.memsz ≠ 0 then (unmap os seg.hostBase seg.memsz mem).2
    else mem) mem

/-- `UnloadExecutable`. -/
def unloadExecutable (os : Os) (info : ExecutableInfo) (mem : Process) :
    LoadResult × ExecutableInfo × Process :=
  if info.loaded then
    (.Ok, { info with loaded := false }, unmapSegments os info.segments mem)
  else (.NotLoaded, info, mem)

/-- `Reset`. -/
def reset (os : Os) (s : State) : State :=
  { current := {}, mem := unmapSegments os s.current.segments s.mem }

end Loader
