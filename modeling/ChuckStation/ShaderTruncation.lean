/-
# Shader cache files that are cut off

`LoadFromDisk` reads six fields for each entry, and only behind the last one does it look whether
the stream has failed; until then the fields that were not read are what they were set to, and of
one that was read in part the front is.

* `loadStream_eq`: the reads load what a reader loads that stops at the first short field;
* `loadsComplete`: of a file that is cut off, the entries that are all there are loaded.
-/
import ChuckStation.InputStreams
import ChuckStation.ShaderDisk

namespace ShaderCache

open BinaryFormats InputStreams LittleEndian

/-! ## `LoadFromDisk` on its stream -/

/-- A word of `n` bytes that is 0 before it is read. -/
def extractWord (n w : ℕ) : Extraction Byte (BitVec w) := do
  let bs ← InputStreams.read (List.replicate n 0)
  pure (ofBytes w bs)

/-- `ShaderKey k{}`, and the read over it. -/
def extractKey : Extraction Byte ShaderKey := do
  let bs ← InputStreams.read (List.replicate 24 0)
  pure (keyOf bs)

/-- A length of 32 bits, and the read over as many zeros. -/
def extractBytes : Extraction Byte (List Byte) := do
  let n ← extractWord 4 32
  InputStreams.read (List.replicate n.toNat 0)

/-- The reads of one pass of the loop of `LoadFromDisk`, and the entry that is made of them. -/
def extractRecord : Extraction Byte CacheEntry := do
  let k ← extractKey
  let name ← extractBytes
  let bin ← extractBytes
  let ms ← extractWord 8 64
  let ts ← extractWord 8 64
  pure { key := k, binary := bin, debugName := name, compilationMs := ms, compiledAtUs := ts,
         lastUsedUs := ts, valid := true }

/-- The loop of `LoadFromDisk`, with the entries and how many were loaded. -/
def CacheState.loadLoop :
    ℕ → (AList fun _ : ShaderKey => CacheEntry) × ℕ → InputStream Byte →
      (AList fun _ : ShaderKey => CacheEntry) × ℕ
  | 0, loaded, _ => loaded
  | count + 1, loaded, f =>
    let (e, f) := extractRecord f
    if f.good then loadLoop count (loaded.1.insert e.key e, loaded.2 + 1) f else loaded

/-- `LoadFromDisk` of a file, read by read. -/
def CacheState.loadStream (cs : CacheState) (bytes : List Byte) : CacheState × Bool :=
  let (count, f) := extractWord 4 32 ⟨bytes, true⟩
  let (entries, loaded) := CacheState.loadLoop count.toNat (cs.entries, 0) f
  ({ cs with entries := entries }, 0 < loaded)

theorem loadLoop_eq (count : ℕ) (loaded : (AList fun _ : ShaderKey => CacheEntry) × ℕ)
    (f : InputStream Byte) :
    CacheState.loadLoop count loaded f =
      ((readMany extractRecord count f).foldl (fun m e => m.insert e.key e) loaded.1,
        loaded.2 + (readMany extractRecord count f).length) := by
  induction count generalizing loaded f with
  | zero => rfl
  | succ count ih =>
      rw [CacheState.loadLoop, readMany]
      rcases extractRecord f with ⟨e, f⟩
      dsimp only
      split_ifs
      · rw [ih, List.foldl_cons, List.length_cons]
        congr 1
        omega
      · rfl

/-- The entries that are read from a file. -/
def recordsRead (bytes : List Byte) : List CacheEntry :=
  readMany extractRecord (extractWord 4 32 ⟨bytes, true⟩).1.toNat (extractWord 4 32 ⟨bytes, true⟩).2

theorem loadStream_eq_foldl (cs : CacheState) (bytes : List Byte) :
    cs.loadStream bytes =
      ({ cs with entries := (recordsRead bytes).foldl (fun m e => m.insert e.key e) cs.entries },
        decide (0 < (recordsRead bytes).length)) := by
  rw [CacheState.loadStream, recordsRead]
  rcases extractWord 4 32 ⟨bytes, true⟩ with ⟨count, f⟩
  dsimp only
  rw [loadLoop_eq, zero_add]

/-! ## The reads against the reader that stops -/

section Mirror

theorem mirrors_read (n : ℕ) :
    Mirrors (InputStreams.read (List.replicate n 0)) (readBytes n) := by
  constructor
  · intro s hs
    unfold InputStreams.read
    rw [hs, if_neg Bool.false_ne_true]
    exact hs
  · intro data o ho
    unfold readBytes InputStreams.read
    dsimp only
    rw [if_pos rfl, List.length_replicate, List.length_drop]
    by_cases hfit : o + n ≤ data.length
    · rw [if_pos hfit]
      refine ⟨rfl, hfit, ?_⟩
      have hnil : (List.replicate n (0 : Byte)).drop (data.length - o) = [] := by
        apply List.drop_eq_nil_of_le
        rw [List.length_replicate]
        omega
      rw [hnil, List.append_nil, List.drop_drop, decide_eq_true (by omega)]
    · rw [if_neg hfit]
      exact decide_eq_false (by omega)

theorem mirrors_extractWord (n w : ℕ) : Mirrors (extractWord n w) (readWord n w) :=
  (mirrors_read n).bind fun _ => mirrors_pure _

theorem mirrors_extractBytes : Mirrors extractBytes readLengthAndBytes :=
  (mirrors_extractWord 4 32).bind fun _ => mirrors_read _

theorem mirrors_extractRecord : Mirrors extractRecord readRecord :=
  ((mirrors_read 24).bind fun _ => mirrors_pure _).bind fun _ =>
    mirrors_extractBytes.bind fun _ => mirrors_extractBytes.bind fun _ =>
      (mirrors_extractWord 8 64).bind fun _ => (mirrors_extractWord 8 64).bind fun _ =>
        mirrors_pure _

/-- **The reads** of `LoadFromDisk` that go on behind a failure give the entries that a reader
gives which stops there. -/
theorem recordsRead_eq (bytes : List Byte) : recordsRead bytes = recordsIn bytes := by
  have hcount := (mirrors_extractWord 4 32).2 bytes 0 (Nat.zero_le _)
  rw [List.drop_zero] at hcount
  rw [recordsRead, recordsIn]
  cases hread : readWord 4 32 ⟨bytes, 0⟩ with
  | error e =>
      rw [hread] at hcount
      cases (extractWord 4 32 ⟨bytes, true⟩).1.toNat with
      | zero => rfl
      | succ n => rw [readMany, mirrors_extractRecord.1 _ hcount, if_neg Bool.false_ne_true]
  | ok x =>
      obtain ⟨count, ⟨data, o⟩⟩ := x
      rw [hread] at hcount
      obtain ⟨rfl, ho, heq⟩ := hcount
      rw [heq]
      refine mirrors_extractRecord.readMany_eq (fun _ => rfl) (fun n c e c' h => ?_)
        (fun n c e h => ?_) count.toNat ho
      · rw [readRecords, h]
      · rw [readRecords, h]

theorem loadStream_eq (cs : CacheState) (bytes : List Byte) :
    cs.loadStream bytes = cs.loadFromDisk (some bytes) := by
  rw [loadStream_eq_foldl, recordsRead_eq]
  rfl

end Mirror

/-! ## What is read back -/

section Saved

/-- Of a name or a binary, the bytes that are written. -/
def savedBytes (bs : List Byte) : List Byte := bs.take (BitVec.ofNat 32 bs.length).toNat

theorem savedBytes_of_lt {bs : List Byte} (h : bs.length < 2 ^ 32) : savedBytes bs = bs := by
  rw [savedBytes, BitVec.toNat_ofNat, Nat.mod_eq_of_lt h, List.take_length]

/-- What the record of an entry comes back as. -/
def savedEntry (key : ShaderKey) (e : CacheEntry) : CacheEntry :=
  reloaded key { e with binary := savedBytes e.binary, debugName := savedBytes e.debugName }

theorem takes_extractWord {n w : ℕ} (hw : w ≤ 8 * n) (v : BitVec w) :
    Takes (extractWord n w) (toBytes n v) v := by
  have hread : Takes (read (List.replicate n 0)) (toBytes n v) (toBytes n v) :=
    takes_read _ (by rw [length_toBytes, List.length_replicate])
  have h := hread.bind (r := fun bs => pure (ofBytes w bs)) (takes_pure _)
  rwa [List.append_nil, ofBytes_toBytes n v hw] at h

theorem takes_extractKey (padding : BitVec 56) (key : ShaderKey) :
    Takes extractKey (keyBytes padding key) key := by
  have hread : Takes (read (List.replicate 24 0)) (keyBytes padding key) (keyBytes padding key) :=
    takes_read _ (by rw [length_keyBytes, List.length_replicate])
  have h := hread.bind (r := fun bs => pure (keyOf bs)) (takes_pure _)
  rwa [List.append_nil, keyOf_keyBytes] at h

theorem takes_extractBytes (bs : List Byte) :
    Takes extractBytes (lengthAndBytes bs) (savedBytes bs) := by
  have hle : (BitVec.ofNat 32 bs.length).toNat ≤ bs.length := by
    rw [BitVec.toNat_ofNat]
    exact Nat.mod_le _ _
  refine (takes_extractWord (by norm_num) (BitVec.ofNat 32 bs.length)).bind (takes_read _ ?_)
  rw [List.length_take, List.length_replicate, Nat.min_eq_left hle]

theorem takes_extractRecord (padding : BitVec 56) (key : ShaderKey) (e : CacheEntry) :
    Takes extractRecord (recordBytes padding key e) (savedEntry key e) := by
  have hms := takes_extractWord (n := 8) le_rfl e.compilationMs
  have hts := takes_extractWord (n := 8) le_rfl e.compiledAtUs
  have hall : Takes extractRecord (keyBytes padding key ++ (lengthAndBytes e.debugName ++
      (lengthAndBytes e.binary ++ (toBytes 8 e.compilationMs ++ (toBytes 8 e.compiledAtUs ++ [])))))
      (savedEntry key e) := by
    unfold extractRecord
    exact (takes_extractKey padding key).bind ((takes_extractBytes e.debugName).bind
      ((takes_extractBytes e.binary).bind (hms.bind (hts.bind (takes_pure _)))))
  rw [recordBytes]
  simpa only [List.append_assoc, List.append_nil] using hall

theorem stable_extractWord (n w : ℕ) : Stable (extractWord n w) :=
  (stable_read _).bind fun _ => stable_pure _

theorem stable_extractBytes : Stable extractBytes :=
  (stable_extractWord 4 32).bind fun _ => stable_read _

theorem stable_extractRecord : Stable extractRecord :=
  ((stable_read _).bind fun _ => stable_pure _).bind fun _ =>
    stable_extractBytes.bind fun _ => stable_extractBytes.bind fun _ =>
      (stable_extractWord 8 64).bind fun _ => (stable_extractWord 8 64).bind fun _ => stable_pure _

end Saved

/-! ## A file that is cut off -/

section CutOff

variable (cs target : CacheState) (order : MapOrder) (padding : ShaderKey → BitVec 56)

/-- Where the record at a position ends in the file. -/
def recordEnd (i : ℕ) : ℕ :=
  4 + (((cs.visited order).take (i + 1)).flatMap fun p =>
    recordBytes (padding p.1) p.1 p.2).length

/-- The record of the key lies completely in the first `n` bytes of the file. -/
def Complete (n : ℕ) (key : ShaderKey) : Prop :=
  ∃ i e, (cs.visited order)[i]? = some (key, e) ∧ recordEnd cs order padding i ≤ n

/-- Of a file that was cut off behind `front`, an empty cache gets the entries whose records are
complete, as they were saved, and nothing else; loading succeeds if there is one. -/
structure LoadsComplete (front : List Byte) : Prop where
  entries : ∀ key loaded,
    (CacheState.loadStream { target with entries := ∅ } front).1.entries.lookup key = some loaded ↔
      ∃ e, cs.entries.lookup key = some e ∧
        Complete cs order padding front.length key ∧ loaded = savedEntry key e
  result : (CacheState.loadStream { target with entries := ∅ } front).2 = true ↔
    ∃ key, Complete cs order padding front.length key

variable {cs target order padding}

/-- The records that are read are the first ones, as many as end in front of the cut. -/
theorem recordsRead_of_prefix (hcount : cs.size < 2 ^ 32) {front : List Byte}
    (hpre : front <+: cs.saveToDisk order padding) :
    ∃ k ≤ (cs.visited order).length,
      recordsRead front = ((cs.visited order).take k).map (fun p => savedEntry p.1 p.2) ∧
        ∀ i < (cs.visited order).length, i < k ↔ recordEnd cs order padding i ≤ front.length := by
  rw [CacheState.saveToDisk] at hpre
  have htakes := takes_extractWord (n := 4) (by norm_num) (BitVec.ofNat 32 cs.size)
  have hnum : (BitVec.ofNat 32 cs.size).toNat = (cs.visited order).length := by
    rw [BitVec.toNat_ofNat, Nat.mod_eq_of_lt hcount, length_visited]
  have hfour : (toBytes 4 (BitVec.ofNat 32 cs.size)).length = 4 := length_toBytes _ _
  by_cases hfit : (toBytes 4 (BitVec.ofNat 32 cs.size)).length ≤ front.length
  · obtain ⟨back, rfl⟩ : toBytes 4 (BitVec.ofNat 32 cs.size) <+: front :=
      List.prefix_of_prefix_length_le (List.prefix_append _ _) hpre hfit
    obtain ⟨k, hk, hread, hall⟩ := readMany_of_prefix stable_extractRecord
      (fun p : ShaderKey × CacheEntry => takes_extractRecord (padding p.1) p.1 p.2)
      (cs.visited order) ((List.prefix_append_right_inj _).mp hpre)
    refine ⟨k, hk, ?_, fun i hi => ?_⟩
    · rw [recordsRead, htakes back, hnum, hread]
    · rw [hall i hi, recordEnd, List.length_append, hfour]
      omega
  · have hcut : front <+: toBytes 4 (BitVec.ofNat 32 cs.size) :=
      List.prefix_of_prefix_length_le hpre (List.prefix_append _ _) (by omega)
    have hfail := (stable_extractWord 4 32).fails_of_shorter htakes hcut (by
      rintro rfl
      exact hfit le_rfl)
    refine ⟨0, Nat.zero_le _, ?_, fun i _ => ?_⟩
    · rw [recordsRead]
      cases (extractWord 4 32 ⟨front, true⟩).1.toNat with
      | zero => rfl
      | succ n =>
          rw [readMany, mirrors_extractRecord.1 _ hfail, if_neg Bool.false_ne_true]
          rfl
    · rw [recordEnd]
      exact iff_of_false (Nat.not_lt_zero i) (by omega)

/-- A record is complete exactly if it is among those. -/
theorem complete_iff {n k : ℕ} (hk : ∀ i < (cs.visited order).length,
      i < k ↔ recordEnd cs order padding i ≤ n) {key : ShaderKey} :
    Complete cs order padding n key ↔ ∃ e, (key, e) ∈ (cs.visited order).take k := by
  constructor
  · rintro ⟨i, e, hi, hend⟩
    have hlt : i < (cs.visited order).length := (List.getElem?_eq_some_iff.mp hi).1
    refine ⟨e, List.mem_iff_getElem?.mpr ⟨i, ?_⟩⟩
    rw [List.getElem?_take_of_lt ((hk i hlt).mpr hend), hi]
  · rintro ⟨e, hmem⟩
    obtain ⟨i, hi⟩ := List.mem_iff_getElem?.mp hmem
    rw [List.getElem?_take, Option.ite_none_right_eq_some] at hi
    obtain ⟨hik, hi⟩ := hi
    have hlt : i < (cs.visited order).length := (List.getElem?_eq_some_iff.mp hi).1
    exact ⟨i, e, hi, (hk i hlt).mp hik⟩

/-- **A file that is cut off** loads the entries that are all there. -/
theorem loadsComplete (hcount : cs.size < 2 ^ 32) {front : List Byte}
    (hpre : front <+: cs.saveToDisk order padding) :
    LoadsComplete cs target order padding front := by
  obtain ⟨k, -, hread, hk⟩ := recordsRead_of_prefix hcount hpre
  have hnodup : (((cs.visited order).take k).map Prod.fst).Nodup := by
    rw [List.map_take]
    exact (nodup_visited cs order).sublist (List.take_sublist _ _)
  constructor
  · intro key loaded
    rw [loadStream_eq_foldl, hread, complete_iff hk]
    dsimp only
    rw [List.foldl_map]
    constructor
    · intro hloaded
      by_cases hin : key ∈ ((cs.visited order).take k).map Prod.fst
      · obtain ⟨⟨_, e⟩, hmem, rfl⟩ := List.mem_map.mp hin
        have hlookup := AList.lookup_foldl_insert_of_mem Prod.fst (fun p => savedEntry p.1 p.2) ∅
          hnodup hmem
        exact ⟨e, mem_visited.mp (List.mem_of_mem_take hmem), ⟨e, hmem⟩,
          Option.some.inj (hloaded.symm.trans hlookup)⟩
      · have hlookup := AList.lookup_foldl_insert_of_notMem Prod.fst
          (fun p : ShaderKey × CacheEntry => savedEntry p.1 p.2) _ ∅ hin
        cases hloaded.symm.trans hlookup
    · rintro ⟨e, he, ⟨e', hmem⟩, rfl⟩
      obtain rfl : e' = e :=
        Option.some.inj ((mem_visited.mp (List.mem_of_mem_take hmem)).symm.trans he)
      exact AList.lookup_foldl_insert_of_mem Prod.fst (fun p => savedEntry p.1 p.2) ∅ hnodup hmem
  · rw [loadStream_eq_foldl, hread, decide_eq_true_iff, List.length_map,
      List.length_pos_iff_exists_mem]
    constructor
    · rintro ⟨⟨key, e⟩, hmem⟩
      exact ⟨key, (complete_iff hk).mpr ⟨e, hmem⟩⟩
    · rintro ⟨key, hkey⟩
      obtain ⟨e, hmem⟩ := (complete_iff hk).mp hkey
      exact ⟨(key, e), hmem⟩

/-- The number of entries is written in 32 bits: of a multiple of `2 ^ 32` entries none is loaded,
although they are all there. -/
theorem not_loadsComplete_of_size (hsize : cs.size % 2 ^ 32 = 0) (hpos : 0 < cs.size) :
    ¬ LoadsComplete cs target order padding (cs.saveToDisk order padding) := by
  intro h
  have hread : recordsRead (cs.saveToDisk order padding) = [] := by
    have htakes := takes_extractWord (n := 4) (by norm_num) (BitVec.ofNat 32 cs.size)
    rw [CacheState.saveToDisk, recordsRead, htakes _, BitVec.toNat_ofNat, hsize]
    rfl
  obtain ⟨p, hp⟩ : ∃ p, (cs.visited order)[0]? = some p := by
    rw [← length_visited cs order] at hpos
    exact ⟨_, List.getElem?_eq_getElem hpos⟩
  have hcomplete : Complete cs order padding (cs.saveToDisk order padding).length p.1 := by
    refine ⟨0, p.2, hp, ?_⟩
    have hle := ((List.take_sublist 1 (cs.visited order)).flatMap fun p =>
      recordBytes (padding p.1) p.1 p.2).length_le
    rw [recordEnd, CacheState.saveToDisk, List.length_append, length_toBytes]
    exact Nat.add_le_add_left hle 4
  have hfound := h.result.mpr ⟨p.1, hcomplete⟩
  rw [loadStream_eq_foldl, hread] at hfound
  cases hfound

end CutOff

/-- The file of one shader, cut off in its key. -/
theorem loadsComplete_cutInKey :
    LoadsComplete oneShader {} keyOrder (fun _ => 0)
      ((oneShader.saveToDisk keyOrder fun _ => 0).take 10) :=
  loadsComplete (by decide) (List.take_prefix 10 _)

/-- The first `n` keys. -/
def manyKeys (n : ℕ) : List ShaderKey :=
  (List.range n).map fun i => { spirvHash := BitVec.ofNat 64 i }

theorem nodup_manyKeys {n : ℕ} (h : n ≤ 2 ^ 64) : (manyKeys n).Nodup := by
  refine List.Nodup.map_on (fun i hi j hj heq => ?_) List.nodup_range
  rw [List.mem_range] at hi hj
  have hhash := congrArg (fun key : ShaderKey => key.spirvHash.toNat) heq
  simp only [BitVec.toNat_ofNat] at hhash
  omega

/-- A cache with `n` shaders. -/
def manyShaders (n : ℕ) (h : n ≤ 2 ^ 64) : CacheState where
  entries := ⟨(manyKeys n).map fun key => ⟨key, { key := key, valid := true }⟩, by
    rw [List.NodupKeys, List.keys, List.map_map]
    exact (nodup_manyKeys h).map Function.injective_id⟩
  maxEntries := n

theorem size_manyShaders {n : ℕ} (h : n ≤ 2 ^ 64) : (manyShaders n h).size = n := by
  rw [CacheState.size, AList.keys, List.keys, List.length_map, manyShaders, List.length_map,
    manyKeys, List.length_map, List.length_range]

/-- A cache with `2 ^ 32` shaders: the count of its file is 0. -/
theorem not_loadsComplete_manyShaders :
    ¬ ∀ cs target order padding front, front <+: CacheState.saveToDisk cs order padding →
      LoadsComplete cs target order padding front := by
  intro h
  have hsize := size_manyShaders (n := 2 ^ 32) (by norm_num)
  exact not_loadsComplete_of_size (by rw [hsize, Nat.mod_self]) (by rw [hsize]; norm_num)
    (h (manyShaders (2 ^ 32) (by norm_num)) {} keyOrder (fun _ => 0) _ (List.prefix_refl _))

end ShaderCache
