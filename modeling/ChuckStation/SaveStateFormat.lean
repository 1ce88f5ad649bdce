/-
# The save state format

The file a save state is kept in (`SaveState.cpp`): a header of 424 bytes, then three
blobs, one each for the CPU context, the committed memory regions and the GPU statistics,
under one CRC32.

The serialisers append bytes; the deserialisers go over a blob with a `BlobReader`, whose
every read says whether the bytes were there.  Serialisers and deserialisers are separate
definitions, each translated from its own function.
-/
import ChuckStation.BinaryFormats
import ChuckStation.CpuContext
import ChuckStation.MemoryManager

namespace SaveState

open BinaryFormats Memory LittleEndian
open Cpu (CpuContext)

/-! ## CRC32 -/

/-- Entry `i` of the lookup table: eight steps of the reflected polynomial. -/
def crcTable (i : U32) : U32 :=
  (List.range 8).foldl (fun c _ => if c &&& 1 ≠ 0 then 0xEDB88320 ^^^ (c >>> 1) else c >>> 1) i

/-- `Crc32`. -/
def crc32 (data : List Byte) : U32 :=
  data.foldl (fun crc b => crcTable ((crc ^^^ b.setWidth 32) &&& 0xFF) ^^^ (crc >>> 8))
    0xFFFFFFFF ^^^ 0xFFFFFFFF

/-! ## Blobs -/

/-- Why a read did not hand on a value: it returned `false`, or never returned. -/
inductive ReadStop where
  | refused
  | abort (e : HostAbort)
  deriving DecidableEq, Repr

/-- `Blob::WriteT` of a word. -/
def writeT {w : ℕ} (v : BitVec w) : List Byte := toBytes (w / 8) v

/-- `Blob::WriteStr`; the length is a 32-bit word. -/
def writeStr (s : List Byte) : List Byte :=
  let len : U32 := BitVec.ofNat 32 s.length
  writeT len ++ s.take len.toNat

/-- `struct BlobReader`. -/
abbrev BlobReader := Cursor

/-- `BlobReader::Read`.  The end of the run is a `size_t`: it wraps before it is compared. -/
def read (len : ℕ) : Reader ReadStop (List Byte) := fun r =>
  if r.data.length < (r.offset + len) % 2 ^ 64 then .error .refused
  else if r.data.length < r.offset + len then .error (.abort .outOfBounds)
  else .ok ((r.data.drop r.offset).take len, { r with offset := r.offset + len })

/-- `BlobReader::ReadT` of a word. -/
def readT (w : ℕ) : Reader ReadStop (BitVec w) := do
  let bs ← read (w / 8)
  pure (ofBytes w bs)

/-- `BlobReader::ReadStr`. -/
def readStr : Reader ReadStop (List Byte) := do
  let len ← readT 32
  read len.toNat

/-- `std::vector<uint8_t>(n)`: more than a vector may hold is refused by the library, more
than there is by the allocator. -/
def newVector (alloc : ℕ → Bool) (n : ℕ) : Reader ReadStop Unit := fun r =>
  if 2 ^ 63 - 1 < n then .error (.abort .lengthError)
  else if alloc n then .ok ((), r)
  else .error (.abort .badAlloc)

/-- A chain of reads into the fields of a state, up to the first that is refused. -/
def readFields {σ : Type} :
    List (DataField σ) → BlobReader → σ → Except HostAbort (Bool × σ × BlobReader)
  | [], r, s => .ok (true, s, r)
  | f :: fs, r, s =>
    match read f.size r with
    | .error .refused => .ok (false, s, r)
    | .error (.abort e) => .error e
    | .ok (bs, r) => readFields fs r (f.store bs s)

/-! ## Kinds of fields -/

/-- A field that holds a word. -/
def wordField {σ : Type} (n : ℕ) {w : ℕ} (hw : w = 8 * n) (get : σ → BitVec w)
    (set : BitVec w → σ → σ) (hget : ∀ v s, get (set v s) = v) (hset : ∀ s, set (get s) s = s) :
    DataField σ where
  size := n
  load s := toBytes n (get s)
  store bs := set (ofBytes w bs)
  length_load s := length_toBytes n (get s)
  load_store bs s hbs := by rw [hget, toBytes_ofBytes hbs hw]
  store_load s := by rw [ofBytes_toBytes n _ hw.le, hset]

/-- A field that holds an array of bytes. -/
def arrayField {σ : Type} (n : ℕ) (get : σ → Fin n → Byte) (set : (Fin n → Byte) → σ → σ)
    (hget : ∀ v s, get (set v s) = v) (hset : ∀ s, set (get s) s = s) : DataField σ where
  size := n
  load s := List.ofFn (get s)
  store bs := set fun i => bs.getD i 0
  length_load s := List.length_ofFn
  load_store bs s hbs := by
    rw [hget]
    apply List.ext_getElem (by simp [hbs])
    intro i hi hi'
    rw [List.getElem_ofFn, List.getD_eq_getElem _ _ hi']
  store_load s := by
    have hback : (fun i : Fin n => (List.ofFn (get s)).getD i 0) = get s := by
      funext i
      rw [List.getD_eq_getElem _ _ (by simp), List.getElem_ofFn]
    rw [hback, hset]

section Kinds

variable {σ : Type} {n w : ℕ} {s t : σ}

theorem wordField_load_inj {hw : w = 8 * n} {get : σ → BitVec w} {set : BitVec w → σ → σ}
    {hget hset} (h : (wordField n hw get set hget hset).load s =
      (wordField n hw get set hget hset).load t) : get s = get t := by
  calc get s = ofBytes w (toBytes n (get s)) := (ofBytes_toBytes n _ hw.le).symm
    _ = ofBytes w (toBytes n (get t)) := congrArg (ofBytes w) h
    _ = get t := ofBytes_toBytes n _ hw.le

theorem arrayField_load_inj {get : σ → Fin n → Byte} {set : (Fin n → Byte) → σ → σ} {hget hset}
    (h : (arrayField n get set hget hset).load s = (arrayField n get set hget hset).load t) :
    get s = get t :=
  List.ofFn_injective h

end Kinds

/-! ## CPU context -/

/-- `ctx.gpr[i]`. -/
def gprField (i : Cpu.RegIdx) : DataField CpuContext :=
  wordField 8 rfl (fun ctx => ctx.gpr i) (fun v ctx => ctx.setGpr i v)
    (fun v ctx => by simp) (fun ctx => by simp [CpuContext.setGpr])

def ripField : DataField CpuContext :=
  wordField 8 rfl CpuContext.rip (fun v ctx => { ctx with rip := v }) (fun _ _ => rfl) fun _ => rfl

def rflagsField : DataField CpuContext :=
  wordField 8 rfl CpuContext.rflags (fun v ctx => { ctx with rflags := v }) (fun _ _ => rfl)
    fun _ => rfl

def csField : DataField CpuContext :=
  wordField 8 rfl CpuContext.cs (fun v ctx => { ctx with cs := v }) (fun _ _ => rfl) fun _ => rfl

def ssField : DataField CpuContext :=
  wordField 8 rfl CpuContext.ss (fun v ctx => { ctx with ss := v }) (fun _ _ => rfl) fun _ => rfl

/-- `ctx.xmm[i]`. -/
def xmmField (i : Fin 16) : DataField CpuContext :=
  arrayField 16 (fun ctx => ctx.xmm i)
    (fun v ctx => { ctx with xmm := Function.update ctx.xmm i v })
    (fun v ctx => by simp) (fun ctx => by simp)

/-- `SerializeCpuContext`. -/
def serializeCpuContext (ctx : CpuContext) : List Byte :=
  ((List.finRange 16).flatMap fun i => writeT (ctx.gpr i)) ++
    writeT ctx.rip ++ writeT ctx.rflags ++ writeT ctx.cs ++ writeT ctx.ss ++
    (List.finRange 16).flatMap fun i => List.ofFn (ctx.xmm i)

/-- The reads of `DeserializeCpuContext`, in order. -/
def cpuFields : List (DataField CpuContext) :=
  (List.finRange 16).map gprField ++ [ripField, rflagsField, csField, ssField] ++
    (List.finRange 16).map xmmField

/-- `DeserializeCpuContext`, straight into the live context. -/
def deserializeCpuContext (r : BlobReader) (ctx : CpuContext) :
    Except HostAbort (Bool × CpuContext × BlobReader) :=
  readFields cpuFields r ctx

/-! ## GPU statistics -/

/-- `struct GpuStats`. -/
@[ext] structure GpuStats where
  submits : U64 := 0
  flips : U64 := 0
  barriers : U64 := 0
  fencesSignaled : U64 := 0
  activeQueues : U32 := 0
  deriving DecidableEq, Repr

/-- `SerializeGpuState`. -/
def serializeGpuState (stats : GpuStats) : List Byte :=
  writeT stats.submits ++ writeT stats.flips ++ writeT stats.barriers ++
    writeT stats.fencesSignaled ++ writeT stats.activeQueues

/-- The reads of `DeserializeGpuState`, in order. -/
def gpuFields : List (DataField GpuStats) :=
  [wordField 8 rfl GpuStats.submits (fun v s => { s with submits := v }) (fun _ _ => rfl)
      fun _ => rfl,
    wordField 8 rfl GpuStats.flips (fun v s => { s with flips := v }) (fun _ _ => rfl) fun _ => rfl,
    wordField 8 rfl GpuStats.barriers (fun v s => { s with barriers := v }) (fun _ _ => rfl)
      fun _ => rfl,
    wordField 8 rfl GpuStats.fencesSignaled (fun v s => { s with fencesSignaled := v })
      (fun _ _ => rfl) fun _ => rfl,
    wordField 4 rfl GpuStats.activeQueues (fun v s => { s with activeQueues := v }) (fun _ _ => rfl)
      fun _ => rfl]

/-- `DeserializeGpuState`: the statistics are read into a local. -/
def deserializeGpuState (r : BlobReader) : Except HostAbort (Bool × GpuStats × BlobReader) :=
  readFields gpuFields r {}

/-! ## Memory map -/

/-- `struct SerializedRegion`. -/
structure SerializedRegion where
  base : U64
  size : U64
  prot : U32
  type : Byte
  tag : List Byte
  pageData : List Byte
  deriving DecidableEq, Repr

/-- One pass of the writing loop of `SerializeMemoryMap`; `page` is what the region holds. -/
def serializeRegion (r : Region) (page : List Byte) : List Byte :=
  writeT r.base ++ writeT r.size ++ writeT r.prot ++ writeT r.type ++ writeStr r.tag ++ page

/-- The pages of a region with an address; `pageOf` reads them. -/
def writePageData (pageOf : Region → Except HostAbort (List Byte)) (r : Region) :
    Except HostAbort (List Byte) :=
  if 0 < r.size ∧ r.base ≠ 0 then pageOf r else .ok []

/-- The writing loop of `SerializeMemoryMap`. -/
def serializeRegions (pageOf : Region → Except HostAbort (List Byte)) :
    List Region → Except HostAbort (List Byte)
  | [] => .ok []
  | r :: rs =>
    if r.committed then do
      let page ← writePageData pageOf r
      let rest ← serializeRegions pageOf rs
      pure (serializeRegion r page ++ rest)
    else serializeRegions pageOf rs

/-- `SerializeMemoryMap`. -/
def serializeMemoryMap (pageOf : Region → Except HostAbort (List Byte)) (regions : List Region) :
    Except HostAbort (List Byte) := do
  let committedCount : U32 := BitVec.ofNat 32 (regions.countP fun r => r.committed)
  let records ← serializeRegions pageOf regions
  pure (writeT committedCount ++ records)

/-- The pages of a record. -/
def readPageData (sz : U64) : Reader ReadStop (List Byte) :=
  if 0 < sz then read sz.toNat else pure []

/-- One record, as the loop of `DeserializeMemoryMap` reads it. -/
def readRegion (alloc : ℕ → Bool) : Reader ReadStop SerializedRegion := do
  let base ← readT 64
  let sz ← readT 64
  let prot ← readT 32
  let type ← readT 8
  let tag ← readStr
  newVector alloc sz.toNat
  let pageData ← readPageData sz
  pure ⟨base, sz, prot, type, tag, pageData⟩

section Deserialize

variable {σ : Type} (alloc : ℕ → Bool) (restore : σ → SerializedRegion → Except HostAbort σ)

/-- The loop of `DeserializeMemoryMap`; `restore` is what it does with a record. -/
def deserializeRegions : ℕ → BlobReader → σ → Except HostAbort (Bool × σ × BlobReader)
  | 0, r, s => .ok (true, s, r)
  | n + 1, r, s =>
    match readRegion alloc r with
    | .error .refused => .ok (false, s, r)
    | .error (.abort e) => .error e
    | .ok (record, r) =>
      match restore s record with
      | .error e => .error e
      | .ok s => deserializeRegions n r s

/-- `DeserializeMemoryMap`. -/
def deserializeMemoryMap (r : BlobReader) (s : σ) : Except HostAbort (Bool × σ × BlobReader) :=
  match readT 32 r with
  | .error .refused => .ok (false, s, r)
  | .error (.abort e) => .error e
  | .ok (count, r) => deserializeRegions alloc restore count.toNat r s

end Deserialize

/-! ## The file -/

/-- `enum class LoadResult`. -/
inductive LoadResult where
  | Ok
  | FileNotFound
  | CorruptFile
  | VersionMismatch
  | ChecksumMismatch
  | MemoryConflict
  deriving DecidableEq, Repr

/-- `struct SaveStateHeader`, with the four bytes the compiler puts before `timestamp`. -/
@[ext] structure SaveStateHeader where
  magic : Fin 8 → Byte := fun _ => 0
  version : U32 := 1
  padding : Fin 4 → Byte := fun _ => 0
  timestamp : U64 := 0
  gameName : Fin 128 → Byte := fun _ => 0
  description : Fin 256 → Byte := fun _ => 0
  cpuStateSize : U32 := 0
  memoryMapSize : U32 := 0
  gpuStateSize : U32 := 0
  checksum : U32 := 0

/-- How a `SaveStateHeader` lies in memory; the file holds it as it lies. -/
def headerFields : List (DataField SaveStateHeader) :=
  [arrayField 8 SaveStateHeader.magic (fun v h => { h with magic := v }) (fun _ _ => rfl)
      fun _ => rfl,
    wordField 4 rfl SaveStateHeader.version (fun v h => { h with version := v }) (fun _ _ => rfl)
      fun _ => rfl,
    arrayField 4 SaveStateHeader.padding (fun v h => { h with padding := v }) (fun _ _ => rfl)
      fun _ => rfl,
    wordField 8 rfl SaveStateHeader.timestamp (fun v h => { h with timestamp := v })
      (fun _ _ => rfl) fun _ => rfl,
    arrayField 128 SaveStateHeader.gameName (fun v h => { h with gameName := v }) (fun _ _ => rfl)
      fun _ => rfl,
    arrayField 256 SaveStateHeader.description (fun v h => { h with description := v })
      (fun _ _ => rfl) fun _ => rfl,
    wordField 4 rfl SaveStateHeader.cpuStateSize (fun v h => { h with cpuStateSize := v })
      (fun _ _ => rfl) fun _ => rfl,
    wordField 4 rfl SaveStateHeader.memoryMapSize (fun v h => { h with memoryMapSize := v })
      (fun _ _ => rfl) fun _ => rfl,
    wordField 4 rfl SaveStateHeader.gpuStateSize (fun v h => { h with gpuStateSize := v })
      (fun _ _ => rfl) fun _ => rfl,
    wordField 4 rfl SaveStateHeader.checksum (fun v h => { h with checksum := v }) (fun _ _ => rfl)
      fun _ => rfl]

/-- `sizeof(SaveStateHeader)`. -/
abbrev headerSize : ℕ := 424

/-- The first eight bytes of `"ChuckStation5SS\0\0"`. -/
def MAGIC : Fin 8 → Byte := ![0x43, 0x68, 0x75, 0x63, 0x6B, 0x53, 0x74, 0x61]

/-- What `Save` puts into a file besides the machine: the clock, the description asked for
and the bytes the compiler leaves in the padding. -/
structure SaveNotes where
  timestamp : U64 := 0
  description : List Byte := []
  padding : Fin 4 → Byte := fun _ => 0

/-- The header `Save` builds.  The sizes are cast to 32 bits. -/
def buildHeader (notes : SaveNotes) (cpu mem gpu : List Byte) : SaveStateHeader where
  magic := MAGIC
  version := 1
  padding := notes.padding
  timestamp := notes.timestamp
  description i := (notes.description.take 255).getD i 0
  cpuStateSize := BitVec.ofNat 32 cpu.length
  memoryMapSize := BitVec.ofNat 32 mem.length
  gpuStateSize := BitVec.ofNat 32 gpu.length
  checksum := crc32 (cpu ++ mem ++ gpu)

/-- The bytes `Save` writes. -/
def buildFile (notes : SaveNotes) (cpu mem gpu : List Byte) : List Byte :=
  encodeFields headerFields (buildHeader notes cpu mem gpu) ++ (cpu ++ mem ++ gpu)

/-- The blobs `Load` hands to the deserialisers. -/
structure Blobs where
  cpu : List Byte
  mem : List Byte
  gpu : List Byte
  deriving DecidableEq, Repr

/-- The header `Load` copies off the file. -/
def headerOf (fileData : List Byte) : SaveStateHeader :=
  (decodeInto headerFields fileData {}).2.1

/-- The checks of `Load` on the file, and the blobs of a file that passes. -/
def validate (fileData : List Byte) : Except LoadResult Blobs :=
  if fileData.length < headerSize then .error .CorruptFile
  else
    let header := headerOf fileData
    let cpuSize := header.cpuStateSize.toNat
    let memSize := header.memoryMapSize.toNat
    let gpuSize := header.gpuStateSize.toNat
    let payloadSize := cpuSize + memSize + gpuSize
    if header.magic ≠ MAGIC then .error .CorruptFile
    else if header.version ≠ 1 then .error .VersionMismatch
    else if fileData.length < headerSize + payloadSize then .error .CorruptFile
    else if crc32 ((fileData.drop headerSize).take payloadSize) ≠ header.checksum then
      .error .ChecksumMismatch
    else .ok
      { cpu := (fileData.drop headerSize).take cpuSize
        mem := (fileData.drop (headerSize + cpuSize)).take memSize
        gpu := (fileData.drop (headerSize + cpuSize + memSize)).take gpuSize }

end SaveState
