/-
# ELF images

The part of `Loader.cpp` that reads an ELF file: the file header, the program headers, and
(on the path that has a file) the section headers with their symbols and relocations.

A buffer is read by position, and a read that would leave it ends the process.  A file is
read through a stream, whose reads may fail for any reason; once one has failed, so do all
that follow.
-/
import ChuckStation.MemoryManager

namespace Loader

open Memory LittleEndian

/-! ## Results and records -/

/-- `enum class LoadResult`. -/
inductive LoadResult where
  | Ok
  | FileNotFound
  | InvalidElf
  | UnsupportedArch
  | MissingSymbol
  | MemoryError
  | FirmwareRequired
  | InvalidProgramHeader
  | RelocationFailed
  | AlreadyLoaded
  | NotLoaded
  | IoError
  deriving DecidableEq, Repr

/-- How a call of the loader ends: with a result, or not at all. -/
inductive Exit where
  | returned (r : LoadResult)
  | abort (e : HostAbort)
  deriving DecidableEq, Repr

/-- `struct Segment`. -/
structure Segment where
  vaddr : U64 := 0
  paddr : U64 := 0
  filesz : U64 := 0
  memsz : U64 := 0
  flags : U32 := 0
  type : U32 := 0
  align : U64 := 0
  hostBase : U64 := 0
  deriving DecidableEq, Repr

/-- `struct Symbol`. -/
structure Symbol where
  name : List Byte := []
  value : U64 := 0
  size : U64 := 0
  binding : Byte := 0
  type : Byte := 0
  visibility : Byte := 0
  shndx : U16 := 0
  deriving DecidableEq, Repr

/-- `struct RelaSection`. -/
structure RelaSection where
  name : List Byte := []
  offset : U64 := 0
  size : U64 := 0
  data : List Byte := []
  deriving DecidableEq, Repr

/-- `struct ExecutableInfo`. -/
structure ExecutableInfo where
  path : List Byte := []
  imageBase : U64 := 0
  entryPoint : U64 := 0
  imageSize : U64 := 0
  segments : List Segment := []
  symbols : List Symbol := []
  relaSections : List RelaSection := []
  isPic : Bool := false
  loaded : Bool := false
  deriving DecidableEq, Repr

/-! ## ELF64 structures -/

abbrev MAGIC_LE : U32 := 0x464C457F
abbrev EM_X86_64 : U16 := 62
abbrev ELFCLASS64 : Byte := 2
abbrev ELFLSB : Byte := 1
abbrev ET_EXEC : U16 := 2
abbrev ET_DYN : U16 := 3
abbrev ET_SCE_EXEC : U16 := 0xFE00
abbrev ET_SCE_DYNEXEC : U16 := 0xFE10
abbrev ET_SCE_DYNAMIC : U16 := 0xFF01
abbrev PT_LOAD : U32 := 1
abbrev PF_X : U32 := 1
abbrev PF_W : U32 := 2
abbrev PF_R : U32 := 4
abbrev SHT_SYMTAB : U32 := 2
abbrev SHT_RELA : U32 := 4
abbrev SHT_DYNSYM : U32 := 11

/-- `sizeof(Ehdr)`, `sizeof(Phdr)`, `sizeof(Shdr)` and `sizeof(Sym)`. -/
abbrev ehdrSize : ℕ := 64
abbrev phdrSize : ℕ := 56
abbrev shdrSize : ℕ := 64
abbrev symSize : ℕ := 24

/-- The field of `w` bits at offset `off` of a packed structure. -/
def fieldAt (w off : ℕ) (bs : List Byte) : BitVec w := ofBytes w ((bs.drop off).take (w / 8))

/-- `struct Ehdr`, the fields that are used. -/
structure Ehdr where
  e_ident : List Byte
  e_type : U16
  e_machine : U16
  e_entry : U64
  e_phoff : U64
  e_shoff : U64
  e_phnum : U16
  e_shnum : U16
  e_shstrndx : U16
  deriving DecidableEq, Repr

def Ehdr.ofBytes (bs : List Byte) : Ehdr where
  e_ident := bs.take 16
  e_type := fieldAt 16 16 bs
  e_machine := fieldAt 16 18 bs
  e_entry := fieldAt 64 24 bs
  e_phoff := fieldAt 64 32 bs
  e_shoff := fieldAt 64 40 bs
  e_phnum := fieldAt 16 56 bs
  e_shnum := fieldAt 16 60 bs
  e_shstrndx := fieldAt 16 62 bs

/-- `struct Phdr`, the fields that are used. -/
structure Phdr where
  p_type : U32
  p_flags : U32
  p_offset : U64
  p_vaddr : U64
  p_filesz : U64
  p_memsz : U64
  p_align : U64
  deriving DecidableEq, Repr

def Phdr.ofBytes (bs : List Byte) : Phdr where
  p_type := fieldAt 32 0 bs
  p_flags := fieldAt 32 4 bs
  p_offset := fieldAt 64 8 bs
  p_vaddr := fieldAt 64 16 bs
  p_filesz := fieldAt 64 32 bs
  p_memsz := fieldAt 64 40 bs
  p_align := fieldAt 64 48 bs

/-- `struct Shdr`, the fields that are used. -/
structure Shdr where
  sh_name : U32
  sh_type : U32
  sh_offset : U64
  sh_size : U64
  sh_link : U32
  deriving DecidableEq, Repr

def Shdr.ofBytes (bs : List Byte) : Shdr where
  sh_name := fieldAt 32 0 bs
  sh_type := fieldAt 32 4 bs
  sh_offset := fieldAt 64 24 bs
  sh_size := fieldAt 64 32 bs
  sh_link := fieldAt 32 40 bs

/-- `struct Sym`. -/
structure Sym where
  st_name : U32
  st_info : Byte
  st_other : Byte
  st_shndx : U16
  st_value : U64
  st_size : U64
  deriving DecidableEq, Repr

def Sym.ofBytes (bs : List Byte) : Sym where
  st_name := fieldAt 32 0 bs
  st_info := fieldAt 8 4 bs
  st_other := fieldAt 8 5 bs
  st_shndx := fieldAt 16 6 bs
  st_value := fieldAt 64 8 bs
  st_size := fieldAt 64 16 bs

/-! ## What both load paths do with a header -/

/-- The checks of the file header, the same in `InspectElf` and `LoadFromMemory`. -/
def Ehdr.check (eh : Ehdr) : LoadResult :=
  let isSce := eh.e_type == ET_SCE_EXEC || eh.e_type == ET_SCE_DYNEXEC ||
    eh.e_type == ET_SCE_DYNAMIC
  let isStd := eh.e_type == ET_EXEC || eh.e_type == ET_DYN
  if fieldAt 32 0 eh.e_ident ≠ MAGIC_LE then .InvalidElf
  else if fieldAt 8 4 eh.e_ident ≠ ELFCLASS64 then .InvalidElf
  else if fieldAt 8 5 eh.e_ident ≠ ELFLSB then .InvalidElf
  else if eh.e_machine ≠ EM_X86_64 then .UnsupportedArch
  else if !isSce && !isStd then .InvalidElf
  else .Ok

def Ehdr.isPic (eh : Ehdr) : Bool :=
  eh.e_type == ET_DYN || eh.e_type == ET_SCE_DYNEXEC || eh.e_type == ET_SCE_DYNAMIC

/-- The segment of a program header. -/
def Phdr.segment (ph : Phdr) : Segment where
  vaddr := ph.p_vaddr
  paddr := ph.p_offset
  filesz := ph.p_filesz
  memsz := ph.p_memsz
  flags := ph.p_flags
  type := ph.p_type
  align := if ph.p_align ≠ 0 then ph.p_align else PAGE_SIZE

/-- `vaMin` and `vaMax` after the segments. -/
def imageRange (segments : List Segment) : U64 × U64 :=
  segments.foldl (fun (vaMin, vaMax) seg =>
    (if seg.vaddr < vaMin then seg.vaddr else vaMin,
      if seg.vaddr + seg.memsz > vaMax then seg.vaddr + seg.memsz else vaMax)) (-1, 0)

/-- The image base and size that follow from the segments. -/
def ExecutableInfo.withRange (info : ExecutableInfo) : ExecutableInfo :=
  let range := imageRange info.segments
  { info with
    imageBase := if range.1 ≠ -1 then range.1 else info.imageBase
    imageSize := if range.2 > range.1 then range.2 - range.1 else 0 }

/-! ## Reading a buffer -/

/-- `n` bytes of the buffer from position `pos` on. -/
def slice (data : List Byte) (pos n : ℕ) : Option (List Byte) :=
  if pos + n ≤ data.length then some ((data.drop pos).take n) else none

theorem slice_of_le {data : List Byte} {pos n : ℕ} (h : pos + n ≤ data.length) :
    slice data pos n = some ((data.drop pos).take n) := if_pos h

theorem slice_of_lt {data : List Byte} {pos n : ℕ} (h : data.length < pos + n) :
    slice data pos n = none :=
  if_neg (Nat.not_le.mpr h)

/-- The loop of `LoadFromMemory` over the program headers, `n` of them from `pos` on.  The
end of a segment in the file is a 64-bit sum. -/
def readPhdrs (data : List Byte) : ℕ → ℕ → Except Exit (List Segment)
  | 0, _ => .ok []
  | n + 1, pos =>
    match slice data pos phdrSize with
    | none => .error (.abort .outOfBounds)
    | some bs =>
      let ph := Phdr.ofBytes bs
      if ph.p_type ≠ PT_LOAD then readPhdrs data n (pos + phdrSize)
      else if data.length < (ph.p_offset + ph.p_filesz).toNat then
        .error (.returned .InvalidProgramHeader)
      else match readPhdrs data n (pos + phdrSize) with
        | .error e => .error e
        | .ok segments => .ok (ph.segment :: segments)

/-- `LoadFromMemory` up to the first mapping.  A null pointer is the empty buffer. -/
def parseMemory (data : List Byte) : Except Exit ExecutableInfo :=
  match slice data 0 ehdrSize with
  | none => .error (.returned .InvalidElf)
  | some bs =>
    let eh := Ehdr.ofBytes bs
    if eh.check ≠ .Ok then .error (.returned eh.check)
    else if eh.e_phoff = 0 ∨ eh.e_phnum = 0 ∨
        data.length < (eh.e_phoff + eh.e_phnum.setWidth 64 * 56).toNat then
      .error (.returned .InvalidProgramHeader)
    else match readPhdrs data eh.e_phnum.toNat eh.e_phoff.toNat with
      | .error e => .error e
      | .ok [] => .error (.returned .InvalidProgramHeader)
      | .ok segments =>
        let info : ExecutableInfo :=
          { entryPoint := eh.e_entry, isPic := eh.isPic, segments := segments }
        .ok info.withRange

/-! ## Reading a file -/

/-- A file: its bytes, and which of the reads made through one stream fail. -/
structure File where
  bytes : List Byte
  fault : ℕ → Bool := fun _ => false

/-- `std::ifstream`: how many reads were made, and the fail bit. -/
structure Stream where
  reads : ℕ := 0
  failed : Bool := false
  deriving DecidableEq, Repr

/-- `seekg` and `read` of `n` bytes at `off`: the bytes that were read and whether they are
all there.  An offset that is negative as a `streamoff` cannot be sought; a stream that has
failed does neither. -/
def Stream.read (file : File) (off : U64) (n : ℕ) (s : Stream) : List Byte × Bool × Stream :=
  if s.failed then ([], false, s)
  else if 2 ^ 63 ≤ off.toNat ∨ file.fault s.reads = true then
    ([], false, ⟨s.reads + 1, true⟩)
  else
    let bs := (file.bytes.drop off.toNat).take n
    let ok := bs.length == n
    (bs, ok, ⟨s.reads + 1, !ok⟩)

/-- A read that found all its bytes. -/
theorem Stream.read_eq_true {file : File} {off : U64} {n : ℕ} {s s' : Stream} {bs : List Byte}
    (h : s.read file off n = (bs, true, s')) :
    bs = (file.bytes.drop off.toNat).take n ∧ bs.length = n ∧ s' = ⟨s.reads + 1, false⟩ := by
  rw [Stream.read] at h
  split_ifs at h with hfailed hseek
  · cases h
  · cases h
  · simp only [Prod.mk.injEq] at h
    obtain ⟨rfl, hok, rfl⟩ := h
    rw [hok]
    exact ⟨rfl, beq_iff_eq.mp hok, rfl⟩

/-- A read of bytes that are there. -/
theorem Stream.read_of_fits {file : File} {off : U64} {n : ℕ} {s : Stream}
    (hs : s.failed = false) (hoff : off.toNat < 2 ^ 63) (hfault : file.fault s.reads = false)
    (hfits : off.toNat + n ≤ file.bytes.length) :
    s.read file off n = ((file.bytes.drop off.toNat).take n, true, ⟨s.reads + 1, false⟩) := by
  have hlen : ((file.bytes.drop off.toNat).take n).length = n := by
    rw [List.length_take, List.length_drop]
    omega
  have hseek : ¬ (2 ^ 63 ≤ off.toNat ∨ file.fault s.reads = true) := by
    rw [hfault]
    rintro (hbig | hbad)
    · omega
    · cases hbad
  rw [Stream.read, hs, if_neg Bool.false_ne_true, if_neg hseek]
  simp only [hlen, beq_self_eq_true, Bool.not_true]

/-- `ReadAt` of a structure of `n` bytes. -/
def readAt (file : File) (off : U64) (n : ℕ) (s : Stream) : Option (List Byte) × Stream :=
  match s.read file off n with
  | (bs, true, s) => (some bs, s)
  | (_, false, s) => (none, s)

/-- `ReadBytes` into a vector of `n` zeros, of which a short read overwrites a part. -/
def readBytes (file : File) (off : U64) (n : ℕ) (s : Stream) : List Byte × Bool × Stream :=
  match s.read file off n with
  | (bs, ok, s) => (bs ++ List.replicate (n - bs.length) 0, ok, s)

/-- The host's heap: whether a vector of so many bytes is granted, and where the data of the
relocation sections of an executable come to lie. -/
structure Heap where
  grants : ℕ → Bool
  dataAt : ℕ → U64

/-- `std::vector<uint8_t>(n)` or `resize(n)`. -/
def newVector (heap : Heap) (n : ℕ) : Except HostAbort Unit :=
  if 2 ^ 63 - 1 < n then .error .lengthError
  else if heap.grants n then .ok ()
  else .error .badAlloc

/-- The program header loop of `InspectElf`: what cannot be read is skipped. -/
def inspectPhdrs (file : File) (phoff : U64) : ℕ → ℕ → Stream → List Segment × Stream
  | 0, _, s => ([], s)
  | n + 1, i, s =>
    match readAt file (phoff + BitVec.ofNat 64 (i * phdrSize)) phdrSize s with
    | (none, s) => inspectPhdrs file phoff n (i + 1) s
    | (some bs, s) =>
      let ph := Phdr.ofBytes bs
      let rest := inspectPhdrs file phoff n (i + 1) s
      if ph.p_type ≠ PT_LOAD then rest else (ph.segment :: rest.1, rest.2)

/-- The section header loop of `InspectElf`: one that cannot be read drops them all. -/
def inspectShdrs (file : File) (shoff : U64) : ℕ → ℕ → Stream → Option (List Shdr) × Stream
  | 0, _, s => (some [], s)
  | n + 1, i, s =>
    match readAt file (shoff + BitVec.ofNat 64 (i * shdrSize)) shdrSize s with
    | (none, s) => (none, s)
    | (some bs, s) =>
      match inspectShdrs file shoff n (i + 1) s with
      | (none, s) => (none, s)
      | (some rest, s) => (some (Shdr.ofBytes bs :: rest), s)

/-- A string table of `sh_size` bytes. -/
def readTable (heap : Heap) (file : File) (sh : Shdr) (s : Stream) :
    Except HostAbort (List Byte × Stream) := do
  newVector heap sh.sh_size.toNat
  let (bs, _, s) := readBytes file sh.sh_offset sh.sh_size.toNat s
  pure (bs, s)

/-- The C string at `&table[pos]`: without a terminator the read runs off the table. -/
def cString (table : List Byte) (pos : ℕ) : Except HostAbort (List Byte) :=
  if 0 ∈ table.drop pos then .ok ((table.drop pos).takeWhile fun b => b ≠ 0)
  else .error .outOfBounds

/-- A name in a table, or another one when its offset lies outside. -/
def nameAt (table : List Byte) (off : U32) (other : List Byte) : Except HostAbort (List Byte) :=
  if off.toNat < table.length then cString table off.toNat else .ok other

/-- The symbol loop of `InspectElf`. -/
def inspectSymbols (file : File) (strtab : List Byte) (off : U64) :
    ℕ → ℕ → Stream → Except HostAbort (List Symbol × Stream)
  | 0, _, s => .ok ([], s)
  | n + 1, i, s =>
    match readAt file (off + BitVec.ofNat 64 (i * symSize)) symSize s with
    | (none, s) => inspectSymbols file strtab off n (i + 1) s
    | (some bs, s) => do
      let elfsym := Sym.ofBytes bs
      let name ← nameAt strtab elfsym.st_name []
      let (rest, s) ← inspectSymbols file strtab off n (i + 1) s
      let sym : Symbol :=
        { name := name, value := elfsym.st_value, size := elfsym.st_size
          binding := elfsym.st_info >>> 4, type := elfsym.st_info &&& 0xF
          visibility := elfsym.st_other &&& 0x3, shndx := elfsym.st_shndx }
      pure (sym :: rest, s)

/-- The string table a symbol section is linked to. -/
def linkedTable (heap : Heap) (file : File) (shdrs : List Shdr) (sh : Shdr) (s : Stream) :
    Except HostAbort (List Byte × Stream) :=
  match shdrs[sh.sh_link.toNat]? with
  | some strsh => readTable heap file strsh s
  | none => .ok ([], s)

/-- One section of `InspectElf`: its symbols, its relocations, and the stream. -/
def inspectSection (heap : Heap) (file : File) (shdrs : List Shdr) (shstrtab : List Byte)
    (sh : Shdr) (s : Stream) : Except HostAbort (List Symbol × List RelaSection × Stream) :=
  if sh.sh_type = SHT_SYMTAB ∨ sh.sh_type = SHT_DYNSYM then do
    let (strtab, s) ← linkedTable heap file shdrs sh s
    let (symbols, s) ← inspectSymbols file strtab sh.sh_offset (sh.sh_size.toNat / symSize) 0 s
    pure (symbols, [], s)
  else if sh.sh_type = SHT_RELA then do
    let name ← nameAt shstrtab sh.sh_name [0x72, 0x65, 0x6C, 0x61]
    let (data, s) ← readTable heap file sh s
    let rs : RelaSection := { name := name, size := sh.sh_size, data := data }
    pure ([], [rs], s)
  else .ok ([], [], s)

/-- The section loop of `InspectElf`. -/
def inspectSections (heap : Heap) (file : File) (shdrs : List Shdr) (shstrtab : List Byte) :
    List Shdr → Stream → Except HostAbort (List Symbol × List RelaSection)
  | [], _ => .ok ([], [])
  | sh :: rest, s => do
    let (symbols, relas, s) ← inspectSection heap file shdrs shstrtab sh s
    let (symbols', relas') ← inspectSections heap file shdrs shstrtab rest s
    pure (symbols ++ symbols', relas ++ relas')

/-- The section header string table. -/
def sectionNames (heap : Heap) (file : File) (eh : Ehdr) (shdrs : List Shdr) (s : Stream) :
    Except HostAbort (List Byte × Stream) :=
  match shdrs[eh.e_shstrndx.toNat]? with
  | some sh => readTable heap file sh s
  | none => .ok ([], s)

/-- The section headers, none when there is no table. -/
def sectionHeaders (file : File) (eh : Ehdr) (s : Stream) : List Shdr × Stream :=
  if eh.e_shnum ≠ 0 ∧ eh.e_shoff ≠ 0 then
    match inspectShdrs file eh.e_shoff eh.e_shnum.toNat 0 s with
    | (shdrs, s) => (shdrs.getD [], s)
  else ([], s)

/-- The part of `InspectElf` after the program headers. -/
def inspectTables (heap : Heap) (file : File) (eh : Ehdr) (s : Stream) :
    Except HostAbort (List Symbol × List RelaSection) := do
  let (shdrs, s) := sectionHeaders file eh s
  let (shstrtab, s) ← sectionNames heap file eh shdrs s
  inspectSections heap file shdrs shstrtab shdrs s

/-- `InspectElf`.  An abort leaves nothing to go on with, so `out` is not followed there. -/
def inspectElf (heap : Heap) (path : List Byte) (file : Option File) (out : ExecutableInfo) :
    Exit × ExecutableInfo :=
  match file with
  | none => (.returned .FileNotFound, out)
  | some file =>
    match readAt file 0 ehdrSize {} with
    | (none, _) => (.returned .IoError, out)
    | (some bs, s) =>
      let eh := Ehdr.ofBytes bs
      if eh.check ≠ .Ok then (.returned eh.check, out)
      else
        match inspectPhdrs file eh.e_phoff eh.e_phnum.toNat 0 s with
        | (segments, s) =>
          let info := ExecutableInfo.withRange { out with
            path := path, entryPoint := eh.e_entry, isPic := eh.isPic, segments := segments }
          match inspectTables heap file eh s with
          | .error e => (.abort e, info)
          | .ok (symbols, relas) =>
            (.returned .Ok, { info with symbols := symbols, relaSections := relas })

/-- `ValidateExecutable`. -/
def validateExecutable (info : ExecutableInfo) : LoadResult :=
  if info.segments = [] then .InvalidProgramHeader else .Ok

/-! ## Small images -/

/-- The bytes of a program header. -/
def Phdr.bytes (ph : Phdr) : List Byte :=
  toBytes 4 ph.p_type ++ toBytes 4 ph.p_flags ++ toBytes 8 ph.p_offset ++
    toBytes 8 ph.p_vaddr ++ toBytes 8 (0 : U64) ++ toBytes 8 ph.p_filesz ++
    toBytes 8 ph.p_memsz ++ toBytes 8 ph.p_align

/-- A file of a header, program headers and some content, without sections. -/
def image (type : U16) (phdrs : List Phdr) (content : List Byte) : List Byte :=
  [0x7F, 0x45, 0x4C, 0x46, 2, 1, 1, 0, 0, 0, 0, 0, 0, 0, 0, 0] ++ toBytes 2 type ++
    toBytes 2 EM_X86_64 ++ toBytes 4 (1 : U32) ++ toBytes 8 (0 : U64) ++ toBytes 8 (64 : U64) ++
    toBytes 8 (0 : U64) ++ toBytes 4 (0 : U32) ++ toBytes 2 (64 : U16) ++ toBytes 2 (56 : U16) ++
    toBytes 2 (BitVec.ofNat 16 phdrs.length) ++ toBytes 2 (64 : U16) ++ toBytes 2 (0 : U16) ++
    toBytes 2 (0 : U16) ++ phdrs.flatMap Phdr.bytes ++ content

end Loader
