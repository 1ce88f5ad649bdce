/-
# The parameter file of a title

`LoadParamSfo` of `Loader.cpp`: a table of entries, each with a key and, for the strings, a value
that is read into a buffer of its own.  Lengths and offsets are words of the file.

* `StaysInBounds`: what is expected of the buffers, of the strings and of the loop.
* `SfoLengths`: the exact condition under which it holds.
-/
import ChuckStation.ElfImage
import ChuckStation.OperationRuns

namespace Loader

open Memory LittleEndian OperationRuns

/-! ## Entries -/

/-- `struct E`, the fields that are used. -/
structure SfoEntry where
  keyOff : U16
  fmt : U16
  dlen : U32
  doff : U32
  deriving DecidableEq, Repr

/-- `sizeof(E)`. -/
abbrev sfoEntrySize : ℕ := 16

def SfoEntry.ofBytes (bs : List Byte) : SfoEntry where
  keyOff := fieldAt 16 0 bs
  fmt := fieldAt 16 2 bs
  dlen := fieldAt 32 4 bs
  doff := fieldAt 32 12 bs

/-- The format of a string. -/
abbrev sfoString : U16 := 0x0204

/-- What the file tells of a title: these fields of `struct ExecutableInfo`. -/
structure SfoInfo where
  titleId : List Byte := []
  appVersion : List Byte := []
  contentId : List Byte := []
  deriving DecidableEq, Repr

/-- The value of a key; the keys are `TITLE_ID`, `APP_VER` and `CONTENT_ID`. -/
def SfoInfo.set (info : SfoInfo) (key val : List Byte) : SfoInfo :=
  if key = [0x54, 0x49, 0x54, 0x4C, 0x45, 0x5F, 0x49, 0x44] then { info with titleId := val }
  else if key = [0x41, 0x50, 0x50, 0x5F, 0x56, 0x45, 0x52] then { info with appVersion := val }
  else if key = [0x43, 0x4F, 0x4E, 0x54, 0x45, 0x4E, 0x54, 0x5F, 0x49, 0x44] then
    { info with contentId := val }
  else info

/-! ## Reading -/

/-- `seekg`, and `std::getline` up to a zero: it fails if there is nothing to extract. -/
def Stream.getline (file : File) (off : U64) (s : Stream) : List Byte × Stream :=
  if s.failed then ([], s)
  else if 2 ^ 63 ≤ off.toNat ∨ file.fault s.reads = true then ([], ⟨s.reads + 1, true⟩)
  else
    let rest := file.bytes.drop off.toNat
    (rest.takeWhile fun b => b ≠ 0, ⟨s.reads + 1, rest.isEmpty⟩)

/-- Bytes that are stored in a buffer of `size` zeros. -/
def fillBuffer (size : ℕ) (bs : List Byte) : Except HostAbort (List Byte) :=
  if bs.length ≤ size then .ok (bs ++ List.replicate (size - bs.length) 0)
  else .error .outOfBounds

/-- The size of the buffer for a value, as a `uint32_t`. -/
def SfoEntry.bufferSize (e : SfoEntry) : ℕ := (e.dlen + 1).toNat

/-- The value of a string: the buffer, what is read into it, and the C string in it. -/
def readValue (heap : Heap) (file : File) (dataOff : U32) (e : SfoEntry) (s : Stream) :
    Except HostAbort (List Byte × Stream) := do
  let _ ← (if e.bufferSize = 0 then .ok () else newVector heap e.bufferSize)
  let read := s.read file ((dataOff + e.doff).setWidth 64) e.dlen.toNat
  let buf ← fillBuffer e.bufferSize read.1
  let val ← cString buf 0
  .ok (val, read.2.2)

/-! ## The loop over the entries -/

/-- The stream, what is known of the title, and how many entries the loop has come to. -/
structure SfoState where
  stream : Stream
  info : SfoInfo
  iterations : ℕ := 0
  deriving DecidableEq, Repr

/-- The loop is left: by `break`, or because the process ends. -/
structure SfoStop where
  state : SfoState
  abort : Option HostAbort
  deriving DecidableEq, Repr

/-- One entry. -/
def sfoStep (heap : Heap) (file : File) (keyOff dataOff : U32) (st : SfoState) (i : ℕ) :
    Except SfoStop SfoState :=
  match readAt file (BitVec.ofNat 64 (20 + i * sfoEntrySize)) sfoEntrySize st.stream with
  | (none, s) => .error ⟨{ st with stream := s }, none⟩
  | (some bs, s) =>
    let e := SfoEntry.ofBytes bs
    let key := s.getline file ((keyOff + e.keyOff.setWidth 32).setWidth 64)
    let st := { st with stream := key.2, iterations := st.iterations + 1 }
    if e.fmt = sfoString then
      match readValue heap file dataOff e key.2 with
      | .error a => .error ⟨st, some a⟩
      | .ok (val, s) => .ok { st with stream := s, info := st.info.set key.1 val }
    else .ok st

/-- The header: `keyOff`, `dataOff`, `nEnt` and the stream behind them. -/
structure SfoHeader where
  keyOff : U32
  dataOff : U32
  nEnt : U32
  stream : Stream
  deriving DecidableEq, Repr

/-- A field that cannot be read as a whole keeps zeros in the bytes that are missing. -/
def readHeader (file : File) : Option SfoHeader :=
  match readAt file 0 4 {} with
  | (none, _) => none
  | (some magic, s) =>
    if fieldAt 32 0 magic ≠ 0x46535000 then none
    else
      let keyOff := s.read file 8 4
      let dataOff := keyOff.2.2.read file 12 4
      let nEnt := dataOff.2.2.read file 16 4
      some { keyOff := fieldAt 32 0 keyOff.1, dataOff := fieldAt 32 0 dataOff.1
             nEnt := fieldAt 32 0 nEnt.1, stream := nEnt.2.2 }

/-- Where the loop has ended, left early or not. -/
def SfoStop.of : Except SfoStop SfoState → SfoStop
  | .ok st => ⟨st, none⟩
  | .error stop => stop

/-- The loop. -/
def sfoLoop (heap : Heap) (file : File) (h : SfoHeader) (info : SfoInfo) : SfoStop :=
  SfoStop.of ((List.range h.nEnt.toNat).foldlM (sfoStep heap file h.keyOff h.dataOff)
    { stream := h.stream, info := info })

/-- `LoadParamSfo`: how it ends, and the state it ends in. -/
def loadParamSfo (heap : Heap) (file : Option File) (info : SfoInfo) : Exit × SfoState :=
  match file with
  | none => (.returned .FileNotFound, { stream := {}, info := info })
  | some file =>
    match readHeader file with
    | none => (.returned .InvalidElf, { stream := {}, info := info })
    | some h =>
      let stop := sfoLoop heap file h info
      match stop.abort with
      | none => (.returned .Ok, stop.state)
      | some a => (.abort a, stop.state)

/-! ## What is expected -/

/-- The number of entries that the file tells of. -/
def sfoCount (file : File) : ℕ := (fieldAt 32 16 file.bytes).toNat

/-- The number of entries that there are bytes for. -/
def sfoPresent (file : File) : ℕ := (file.bytes.length - 20) / sfoEntrySize

/-- Nothing is stored or read beside a buffer, and the loop comes to no more entries than there
are. -/
structure StaysInBounds (heap : Heap) (file : File) (info : SfoInfo) : Prop where
  bounds : (loadParamSfo heap (some file) info).1 ≠ .abort .outOfBounds
  iterations : (loadParamSfo heap (some file) info).2.iterations ≤
    min (sfoCount file) (sfoPresent file)

/-- The length of a string is not the largest word. -/
def NotLargest (file : File) (st : SfoState) (i : ℕ) : Prop :=
  ∀ bs, (readAt file (BitVec.ofNat 64 (20 + i * sfoEntrySize)) sfoEntrySize st.stream).1 =
      some bs →
    (SfoEntry.ofBytes bs).fmt = sfoString → (SfoEntry.ofBytes bs).dlen ≠ BitVec.allOnes 32

/-- No entry that the loop comes to is a string of the largest length. -/
def SfoLengths (heap : Heap) (file : File) (info : SfoInfo) : Prop :=
  ∀ h, readHeader file = some h →
    AllReached (sfoStep heap file h.keyOff h.dataOff) (NotLargest file)
      { stream := h.stream, info := info } (List.range h.nEnt.toNat)

/-! ## One value -/

section Values

variable {heap : Heap} {file : File} {e : SfoEntry} {s : Stream}

theorem length_read_le (file : File) (off : U64) (n : ℕ) (s : Stream) :
    (s.read file off n).1.length ≤ n := by
  rw [Stream.read]
  split_ifs
  · exact Nat.zero_le n
  · exact Nat.zero_le n
  · exact List.length_take_le _ _

/-- The size wraps to nothing for the largest length only. -/
theorem bufferSize_eq (h : e.dlen ≠ BitVec.allOnes 32) : e.bufferSize = e.dlen.toNat + 1 := by
  have hlt : e.dlen.toNat + 1 < 2 ^ 32 := by
    by_contra hlarge
    apply h
    apply BitVec.eq_of_toNat_eq
    have hword := e.dlen.isLt
    rw [BitVec.toNat_allOnes]
    omega
  rw [SfoEntry.bufferSize, BitVec.toNat_add_of_lt hlt]
  rfl

theorem bufferSize_allOnes (h : e.dlen = BitVec.allOnes 32) : e.bufferSize = 0 := by
  rw [SfoEntry.bufferSize, h]
  rfl

/-- What is stored in a buffer with a byte to spare ends in it. -/
theorem fillBuffer_cString (size : ℕ) (bs : List Byte) (h : bs.length < size) :
    ∃ buf val, fillBuffer size bs = .ok buf ∧ buf.length = size ∧ cString buf 0 = .ok val := by
  refine ⟨_, _, if_pos h.le, ?_, if_pos ?_⟩
  · rw [List.length_append, List.length_replicate]
    omega
  · rw [List.drop_zero, List.mem_append, List.mem_replicate]
    exact Or.inr ⟨by omega, rfl⟩

/-- Nothing fits into no buffer, not even the end of a string. -/
theorem readValue_of_largest (dataOff : U32) (s : Stream) (h : e.dlen = BitVec.allOnes 32) :
    readValue heap file dataOff e s = .error .outOfBounds := by
  rw [readValue, bufferSize_allOnes h, if_pos rfl, ok_bind]
  dsimp only
  cases (s.read file ((dataOff + e.doff).setWidth 64) e.dlen.toNat).1 with
  | nil => rfl
  | cons b bs => rfl

theorem readValue_of_smaller (dataOff : U32) (s : Stream) (h : e.dlen ≠ BitVec.allOnes 32) :
    readValue heap file dataOff e s ≠ .error .outOfBounds := by
  have hsize := bufferSize_eq h
  obtain ⟨buf, val, hfill, -, hstring⟩ := fillBuffer_cString e.bufferSize
    (s.read file ((dataOff + e.doff).setWidth 64) e.dlen.toNat).1
    (lt_of_le_of_lt (length_read_le _ _ _ _) (by omega))
  rw [readValue, if_neg (by omega), newVector]
  split_ifs
  · intro hbad
    cases hbad
  · rw [ok_bind]
    dsimp only
    rw [hfill, ok_bind, hstring]
    intro hbad
    cases hbad
  · intro hbad
    cases hbad

end Values

/-! ## One entry -/

section Entries

variable {heap : Heap} {file : File} {keyOff dataOff : U32} {st st' : SfoState} {i n : ℕ}
  {stop : SfoStop}

/-- An entry that is not there ends the loop; one that is there is counted, and only the value of
a string may end it. -/
theorem sfoStep_cases (heap : Heap) (file : File) (keyOff dataOff : U32) (st : SfoState) (i : ℕ) :
    ((readAt file (BitVec.ofNat 64 (20 + i * sfoEntrySize)) sfoEntrySize st.stream).1 = none ∧
      ∃ s, sfoStep heap file keyOff dataOff st i = .error ⟨{ st with stream := s }, none⟩) ∨
    ∃ bs s, (readAt file (BitVec.ofNat 64 (20 + i * sfoEntrySize)) sfoEntrySize st.stream).1 =
        some bs ∧
      (((SfoEntry.ofBytes bs).fmt ≠ sfoString ∧ ∃ st', st'.iterations = st.iterations + 1 ∧
          sfoStep heap file keyOff dataOff st i = .ok st') ∨
        ((SfoEntry.ofBytes bs).fmt = sfoString ∧ ∃ st', st'.iterations = st.iterations + 1 ∧
          ((∃ a, readValue heap file dataOff (SfoEntry.ofBytes bs) s = .error a ∧
              sfoStep heap file keyOff dataOff st i = .error ⟨st', some a⟩) ∨
            (∃ r, readValue heap file dataOff (SfoEntry.ofBytes bs) s = .ok r) ∧
              sfoStep heap file keyOff dataOff st i = .ok st'))) := by
  rw [sfoStep]
  rcases readAt file (BitVec.ofNat 64 (20 + i * sfoEntrySize)) sfoEntrySize st.stream with
    ⟨_ | bs, s⟩
  · exact Or.inl ⟨rfl, s, rfl⟩
  · right
    dsimp only
    generalize s.getline file
      ((keyOff + (SfoEntry.ofBytes bs).keyOff.setWidth 32).setWidth 64) = key
    refine ⟨bs, key.2, rfl, ?_⟩
    split_ifs with hfmt
    · refine Or.inr ⟨hfmt, ?_⟩
      cases hvalue : readValue heap file dataOff (SfoEntry.ofBytes bs) key.2 with
      | error a => exact ⟨_, rfl, Or.inl ⟨a, rfl, rfl⟩⟩
      | ok r => exact ⟨_, rfl, Or.inr ⟨⟨r, rfl⟩, rfl⟩⟩
    · exact Or.inl ⟨hfmt, _, rfl, rfl⟩

/-- An entry leaves the bounds exactly if it is a string of the largest length. -/
theorem notLargest_iff (heap : Heap) (keyOff dataOff : U32) :
    NotLargest file st i ↔ ∀ stop, sfoStep heap file keyOff dataOff st i = .error stop →
      stop.abort ≠ some .outOfBounds := by
  rw [NotLargest]
  rcases sfoStep_cases heap file keyOff dataOff st i with
    ⟨hnone, s, hstep⟩ | ⟨bs, s, hbs, ⟨hfmt, st', -, hstep⟩ | ⟨hfmt, st', -, hvalue⟩⟩
  · rw [hnone, hstep]
    refine iff_of_true (fun bs hbs => by cases hbs) fun stop hstop => ?_
    cases hstop
    exact Option.some_ne_none _ ∘ Eq.symm
  · rw [hbs, hstep]
    refine iff_of_true (fun bs' hbs' hfmt' => ?_) fun stop hstop => by cases hstop
    rw [← Option.some.inj hbs'] at hfmt'
    exact absurd hfmt' hfmt
  · rw [hbs]
    by_cases hlen : (SfoEntry.ofBytes bs).dlen = BitVec.allOnes 32
    · refine iff_of_false (fun h => h bs rfl hfmt hlen) fun h => ?_
      rcases hvalue with ⟨a, ha, hstep⟩ | ⟨⟨r, hr⟩, -⟩
      · rw [readValue_of_largest _ _ hlen] at ha
        cases ha
        exact h _ hstep rfl
      · rw [readValue_of_largest _ _ hlen] at hr
        cases hr
    · refine iff_of_true (fun bs' hbs' _ => Option.some.inj hbs' ▸ hlen) fun stop hstop => ?_
      rcases hvalue with ⟨a, ha, hstep⟩ | ⟨-, hstep⟩
      · rw [hstep] at hstop
        cases hstop
        intro habort
        apply readValue_of_smaller dataOff s hlen
        rw [ha, Option.some.inj habort]
      · rw [hstep] at hstop
        cases hstop

/-- The bytes of an entry that was read are there. -/
theorem le_length_of_readAt {off : U64} {n : ℕ} {s : Stream} {bs : List Byte}
    (h : (readAt file off n s).1 = some bs) : bs = (file.bytes.drop off.toNat).take n ∧
      (0 < n → off.toNat + n ≤ file.bytes.length) := by
  rw [readAt] at h
  rcases hread : s.read file off n with ⟨bs', ok, s'⟩
  rw [hread] at h
  cases ok with
  | false => cases h
  | true =>
      obtain ⟨hbytes, hlen, -⟩ := Stream.read_eq_true hread
      obtain rfl : bs' = bs := Option.some.inj h
      refine ⟨hbytes, fun hn => ?_⟩
      rw [hbytes, List.length_take, List.length_drop] at hlen
      omega

/-- An entry that is counted is one of those in the file. -/
theorem lt_sfoPresent (hi : i < 2 ^ 32) {bs : List Byte}
    (h : (readAt file (BitVec.ofNat 64 (20 + i * sfoEntrySize)) sfoEntrySize st.stream).1 =
      some bs) : i < sfoPresent file := by
  have hfits : (BitVec.ofNat 64 (20 + i * 16)).toNat + 16 ≤ file.bytes.length :=
    (le_length_of_readAt h).2 (by decide)
  have hoff : (BitVec.ofNat 64 (20 + i * 16)).toNat = 20 + i * 16 := by
    rw [BitVec.toNat_ofNat, Nat.mod_eq_of_lt (by omega)]
  rw [hoff] at hfits
  show i < (file.bytes.length - 20) / 16
  omega

/-! ## The whole loop -/

/-- The loop leaves the bounds exactly if an entry does that it comes to. -/
theorem sfoLoop_outOfBounds_iff (heap : Heap) (file : File) (keyOff dataOff : U32) (is : List ℕ)
    (st : SfoState) :
    (SfoStop.of (is.foldlM (sfoStep heap file keyOff dataOff) st)).abort ≠ some .outOfBounds ↔
      AllReached (sfoStep heap file keyOff dataOff) (NotLargest file) st is := by
  induction is generalizing st with
  | nil =>
      refine iff_of_true (fun h => ?_) trivial
      cases h
  | cons i is ih =>
      rw [List.foldlM_cons, AllReached, notLargest_iff heap keyOff dataOff]
      cases hstep : sfoStep heap file keyOff dataOff st i with
      | error stop =>
          constructor
          · intro h
            refine ⟨fun stop' hstop' => ?_, fun t ht => by cases ht⟩
            cases hstop'
            exact h
          · intro h
            exact h.1 stop rfl
      | ok st' =>
          rw [ok_bind, ih]
          constructor
          · intro h
            refine ⟨fun stop hstop => (by cases hstop), fun t ht => ?_⟩
            cases ht
            exact h
          · intro h
            exact h.2 st' rfl

/-- The loop counts no more entries than there are. -/
theorem sfoLoop_iterations_le (heap : Heap) (keyOff dataOff : U32) (hn : i + n ≤ 2 ^ 32)
    (hst : st.iterations = i) (hi : i ≤ sfoPresent file) :
    (SfoStop.of ((List.range' i n).foldlM (sfoStep heap file keyOff dataOff)
      st)).state.iterations ≤ min (i + n) (sfoPresent file) := by
  induction n generalizing i st with
  | zero =>
      show st.iterations ≤ _
      omega
  | succ n ih =>
      rw [List.range'_succ, List.foldlM_cons]
      rcases sfoStep_cases heap file keyOff dataOff st i with
        ⟨-, s, hstep⟩ | ⟨bs, s, hbs, ⟨-, st', hcount, hstep⟩ | ⟨-, st', hcount, hvalue⟩⟩
      · rw [hstep]
        show st.iterations ≤ _
        omega
      · have hlt := lt_sfoPresent (by omega) hbs
        rw [hstep, ok_bind]
        have hrest := ih (by omega) (hcount.trans (congrArg (· + 1) hst)) hlt
        omega
      · have hlt := lt_sfoPresent (by omega) hbs
        rcases hvalue with ⟨a, -, hstep⟩ | ⟨-, hstep⟩
        · rw [hstep]
          show st'.iterations ≤ _
          omega
        · rw [hstep, ok_bind]
          have hrest := ih (by omega) (hcount.trans (congrArg (· + 1) hst)) hlt
          omega

end Entries

/-! ## The header -/

/-- What was read by a stream that has not failed. -/
theorem read_of_not_failed {file : File} {off : U64} {n : ℕ} {s : Stream}
    (h : (s.read file off n).2.2.failed = false) :
    (s.read file off n).1 = (file.bytes.drop off.toNat).take n := by
  rw [Stream.read] at h ⊢
  split_ifs at h ⊢ with hfailed
  · rw [hfailed] at h
    cases h
  · rfl

/-- The number of entries is the one in the file, or the stream has failed. -/
theorem nEnt_readHeader {file : File} {h : SfoHeader} (hh : readHeader file = some h)
    (hstream : h.stream.failed = false) : h.nEnt.toNat = sfoCount file := by
  rw [readHeader] at hh
  generalize readAt file 0 4 {} = r at hh
  rcases r with ⟨_ | magic, s⟩
  · cases hh
  · dsimp only at hh
    split_ifs at hh
    obtain rfl := Option.some.inj hh
    have hread := read_of_not_failed hstream
    show (fieldAt 32 0 _).toNat = _
    rw [hread, sfoCount, fieldAt, fieldAt, List.drop_zero, List.take_take]
    rfl

/-- A stream that has failed comes to no entry. -/
theorem iterations_of_failed (heap : Heap) (file : File) (keyOff dataOff : U32) {st : SfoState}
    (hst : st.stream.failed = true) (is : List ℕ) :
    (SfoStop.of (is.foldlM (sfoStep heap file keyOff dataOff) st)).state.iterations =
      st.iterations := by
  cases is with
  | nil => rfl
  | cons i is =>
      rw [List.foldlM_cons, sfoStep, readAt, Stream.read, hst]
      rfl

theorem iterations_sfoLoop_le (heap : Heap) {file : File} {h : SfoHeader}
    (hh : readHeader file = some h) (info : SfoInfo) :
    (sfoLoop heap file h info).state.iterations ≤ min (sfoCount file) (sfoPresent file) := by
  rw [sfoLoop]
  cases hfailed : h.stream.failed with
  | true =>
      rw [iterations_of_failed heap file h.keyOff h.dataOff hfailed]
      exact Nat.zero_le _
  | false =>
      have hword := h.nEnt.isLt
      have hfresh : ({ stream := h.stream, info := info } : SfoState).iterations = 0 := rfl
      have hrun := sfoLoop_iterations_le heap h.keyOff h.dataOff
        (show 0 + h.nEnt.toNat ≤ 2 ^ 32 by omega) hfresh (Nat.zero_le (sfoPresent file))
      rw [Nat.zero_add, nEnt_readHeader hh hfailed] at hrun
      rw [List.range_eq_range', nEnt_readHeader hh hfailed]
      exact hrun

/-- **`LoadParamSfo` stays in bounds** exactly if it comes to no string of the largest length. -/
theorem staysInBounds_iff (heap : Heap) (file : File) (info : SfoInfo) :
    StaysInBounds heap file info ↔ SfoLengths heap file info := by
  have hsplit : StaysInBounds heap file info ↔
      (loadParamSfo heap (some file) info).1 ≠ .abort .outOfBounds ∧
        (loadParamSfo heap (some file) info).2.iterations ≤
          min (sfoCount file) (sfoPresent file) :=
    ⟨fun h => ⟨h.bounds, h.iterations⟩, fun h => ⟨h.1, h.2⟩⟩
  rw [hsplit, loadParamSfo, SfoLengths]
  dsimp only
  cases hheader : readHeader file with
  | none =>
      refine iff_of_true ⟨fun habort => (by cases habort), Nat.zero_le _⟩ fun h hh => ?_
      cases hh
  | some h =>
      have hcount := iterations_sfoLoop_le heap hheader info
      have hbounds := sfoLoop_outOfBounds_iff heap file h.keyOff h.dataOff
        (List.range h.nEnt.toNat) { stream := h.stream, info := info }
      rw [← sfoLoop] at hbounds
      simp only [Option.some.injEq, forall_eq']
      rw [← hbounds]
      generalize sfoLoop heap file h info = stop at hcount ⊢
      obtain ⟨st, abort⟩ := stop
      cases abort with
      | none =>
          exact iff_of_true ⟨fun habort => (by cases habort), hcount⟩ fun habort => by cases habort
      | some a =>
          constructor
          · rintro ⟨hne, -⟩ habort
            exact hne (congrArg Exit.abort (Option.some.inj habort))
          · intro hne
            refine ⟨fun habort => hne ?_, hcount⟩
            injection habort with ha
            rw [ha]

/-- One string of the largest length. -/
def largestFile : File :=
  { bytes := [0x00, 0x50, 0x53, 0x46, 0x01, 0x01, 0x00, 0x00, 0x24, 0x00, 0x00, 0x00,
      0x28, 0x00, 0x00, 0x00, 0x01, 0x00, 0x00, 0x00, 0x00, 0x00, 0x04, 0x02,
      0xFF, 0xFF, 0xFF, 0xFF, 0x00, 0x00, 0x00, 0x00, 0x00, 0x00, 0x00, 0x00,
      0x41, 0x00, 0x00, 0x00, 0x42, 0x43, 0x44, 0x00] }

/-- Its buffer has no byte at all. -/
theorem not_staysInBounds_largest :
    ¬ StaysInBounds ⟨fun _ => true, fun _ => 0⟩ largestFile {} := by
  intro h
  exact h.bounds (by decide)

end Loader
