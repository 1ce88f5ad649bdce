/-
# The shader cache on disk

`SaveToDisk` writes the entries one after the other, `LoadFromDisk` puts what it reads into the
cache.  Not all of an entry is written, and what is not is made up on the way back.

* `roundTrip_iff`: when a cache comes back as it was.
-/
import ChuckStation.BinaryFormats
import ChuckStation.ShaderCache

namespace ShaderCache

open BinaryFormats LittleEndian

/-! ## Writing -/

/-- The bytes of a `ShaderKey`, with the padding behind its stage. -/
def keyBytes (padding : BitVec 56) (key : ShaderKey) : List Byte :=
  toBytes 8 key.spirvHash ++ toBytes 8 key.pipelineHash ++ toBytes 1 key.stage ++
    toBytes 7 padding

/-- A length of 32 bits, and as many bytes. -/
def lengthAndBytes (bs : List Byte) : List Byte :=
  toBytes 4 (BitVec.ofNat 32 bs.length) ++ bs.take (BitVec.ofNat 32 bs.length).toNat

/-- One pass of the loop of `SaveToDisk`. -/
def recordBytes (padding : BitVec 56) (key : ShaderKey) (e : CacheEntry) : List Byte :=
  keyBytes padding key ++ lengthAndBytes e.debugName ++ lengthAndBytes e.binary ++
    toBytes 8 e.compilationMs ++ toBytes 8 e.compiledAtUs

/-- The entries as the hash map is gone over. -/
def CacheState.visited (cs : CacheState) (order : MapOrder) : List (ShaderKey × CacheEntry) :=
  (order.keys cs.entries.keys).filterMap fun key => (cs.entries.lookup key).map fun e => (key, e)

/-- `SaveToDisk`: the file.  The padding of a key is whatever is there. -/
def CacheState.saveToDisk (cs : CacheState) (order : MapOrder) (padding : ShaderKey → BitVec 56) :
    List Byte :=
  toBytes 4 (BitVec.ofNat 32 cs.size) ++
    (cs.visited order).flatMap fun p => recordBytes (padding p.1) p.1 p.2

/-! ## Reading -/

/-- The stream does not go on. -/
inductive StreamStop where
  | failbit
  deriving DecidableEq, Repr

/-- `std::ifstream::read`. -/
def readBytes (n : ℕ) : Reader StreamStop (List Byte) := fun f =>
  if f.offset + n ≤ f.data.length then
    .ok ((f.data.drop f.offset).take n, { f with offset := f.offset + n })
  else .error .failbit

/-- A word of `n` bytes. -/
def readWord (n w : ℕ) : Reader StreamStop (BitVec w) := do
  let bs ← readBytes n
  pure (ofBytes w bs)

/-- The `ShaderKey` that the bytes are read into. -/
def keyOf (bs : List Byte) : ShaderKey where
  spirvHash := ofBytes 64 (bs.take 8)
  pipelineHash := ofBytes 64 ((bs.drop 8).take 8)
  stage := ofBytes 8 ((bs.drop 16).take 1)

def readKey : Reader StreamStop ShaderKey := do
  let bs ← readBytes 24
  pure (keyOf bs)

/-- A length of 32 bits, and as many bytes. -/
def readLengthAndBytes : Reader StreamStop (List Byte) := do
  let n ← readWord 4 32
  readBytes n.toNat

/-- One pass of the loop of `LoadFromDisk`. -/
def readRecord : Reader StreamStop CacheEntry := do
  let k ← readKey
  let name ← readLengthAndBytes
  let bin ← readLengthAndBytes
  let ms ← readWord 8 64
  let ts ← readWord 8 64
  pure { key := k, binary := bin, debugName := name, compilationMs := ms, compiledAtUs := ts,
         lastUsedUs := ts, valid := true }

/-- The loop of `LoadFromDisk`, up to the first entry that is not all there. -/
def readRecords : ℕ → Cursor → List CacheEntry
  | 0, _ => []
  | count + 1, f =>
    match readRecord f with
    | .ok (e, f) => e :: readRecords count f
    | .error _ => []

/-- The entries in a file. -/
def recordsIn (bytes : List Byte) : List CacheEntry :=
  match readWord 4 32 ⟨bytes, 0⟩ with
  | .ok (count, f) => readRecords count.toNat f
  | .error _ => []

/-- `LoadFromDisk`; there may be no file. -/
def CacheState.loadFromDisk (cs : CacheState) (file : Option (List Byte)) : CacheState × Bool :=
  match file with
  | none => (cs, false)
  | some bytes =>
    ({ cs with entries := (recordsIn bytes).foldl (fun m e => m.insert e.key e) cs.entries },
      0 < (recordsIn bytes).length)

/-! ## What was written is read -/

section Reads

variable {N : ℕ}

theorem reads_readBytes (bs : List Byte) : Reads N (readBytes bs.length) bs bs := by
  intro pre post _
  have hle : pre.length + bs.length ≤ (pre ++ (bs ++ post)).length := by
    simp only [List.length_append]
    omega
  unfold readBytes
  dsimp only
  rw [if_pos hle, List.drop_left, List.take_left, List.length_append]

theorem reads_readWord {n w : ℕ} (hw : w ≤ 8 * n) (v : BitVec w) :
    Reads N (readWord n w) (toBytes n v) v := by
  have hread := reads_readBytes (N := N) (toBytes n v)
  rw [length_toBytes] at hread
  have h := hread.bind (q := fun bs => pure (ofBytes w bs)) (reads_pure _)
  rwa [List.append_nil, ofBytes_toBytes n v hw] at h

theorem keyOf_keyBytes (padding : BitVec 56) (key : ShaderKey) :
    keyOf (keyBytes padding key) = key := by
  have hassoc : keyBytes padding key = toBytes 8 key.spirvHash ++ (toBytes 8 key.pipelineHash ++
      (toBytes 1 key.stage ++ toBytes 7 padding)) := by
    rw [keyBytes, List.append_assoc, List.append_assoc]
  have hfirst : (keyBytes padding key).take 8 = toBytes 8 key.spirvHash := by
    rw [hassoc]
    exact List.take_left' (length_toBytes 8 _)
  have hdrop : (keyBytes padding key).drop 8 =
      toBytes 8 key.pipelineHash ++ (toBytes 1 key.stage ++ toBytes 7 padding) := by
    rw [hassoc]
    exact List.drop_left' (length_toBytes 8 _)
  have hsecond : ((keyBytes padding key).drop 8).take 8 = toBytes 8 key.pipelineHash := by
    rw [hdrop]
    exact List.take_left' (length_toBytes 8 _)
  have hdrop' : (keyBytes padding key).drop 16 = toBytes 1 key.stage ++ toBytes 7 padding := by
    have htwice : (keyBytes padding key).drop 16 = ((keyBytes padding key).drop 8).drop 8 := by
      rw [List.drop_drop]
    rw [htwice, hdrop]
    exact List.drop_left' (length_toBytes 8 _)
  have hthird : ((keyBytes padding key).drop 16).take 1 = toBytes 1 key.stage := by
    rw [hdrop']
    exact List.take_left' (length_toBytes 1 _)
  rw [keyOf, hfirst, hsecond, hthird, ofBytes_toBytes 8 _ le_rfl, ofBytes_toBytes 8 _ le_rfl,
    ofBytes_toBytes 1 _ le_rfl]

theorem length_keyBytes (padding : BitVec 56) (key : ShaderKey) :
    (keyBytes padding key).length = 24 := by
  simp [keyBytes]

theorem reads_readKey (padding : BitVec 56) (key : ShaderKey) :
    Reads N readKey (keyBytes padding key) key := by
  have hread := reads_readBytes (N := N) (keyBytes padding key)
  rw [length_keyBytes] at hread
  have h := hread.bind (q := fun bs => pure (keyOf bs)) (reads_pure _)
  rwa [List.append_nil, keyOf_keyBytes] at h

theorem reads_readLengthAndBytes {bs : List Byte} (h : bs.length < 2 ^ 32) :
    Reads N readLengthAndBytes (lengthAndBytes bs) bs := by
  have hlen : (BitVec.ofNat 32 bs.length).toNat = bs.length := by
    rw [BitVec.toNat_ofNat, Nat.mod_eq_of_lt h]
  have hbody : Reads N (readBytes (BitVec.ofNat 32 bs.length).toNat) bs bs := by
    rw [hlen]
    exact reads_readBytes bs
  have hread := (reads_readWord (N := N) (n := 4) (by norm_num) (BitVec.ofNat 32 bs.length)).bind
    (q := fun n : U32 => readBytes n.toNat) hbody
  rwa [lengthAndBytes, hlen, List.take_length]

theorem recordsIn_append (count : U32) (body : List Byte) :
    recordsIn (toBytes 4 count ++ body) =
      readRecords count.toNat ⟨toBytes 4 count ++ body, (toBytes 4 count).length⟩ := by
  have hread := reads_readWord (N := ([] ++ (toBytes 4 count ++ body)).length + 1) (n := 4)
    (by norm_num) count [] body (Nat.lt_succ_self _)
  rw [List.nil_append, List.nil_append, List.length_nil] at hread
  rw [recordsIn, hread]

/-- What an entry comes back as. -/
def reloaded (key : ShaderKey) (e : CacheEntry) : CacheEntry :=
  { key := key, binary := e.binary, debugName := e.debugName, compilationMs := e.compilationMs,
    compiledAtUs := e.compiledAtUs, lastUsedUs := e.compiledAtUs, valid := true }

/-- **One entry.** -/
theorem reads_readRecord (padding : BitVec 56) (key : ShaderKey) {e : CacheEntry}
    (hname : e.debugName.length < 2 ^ 32) (hbinary : e.binary.length < 2 ^ 32) :
    Reads N readRecord (recordBytes padding key e) (reloaded key e) := by
  have hms := reads_readWord (N := N) (n := 8) le_rfl e.compilationMs
  have hts := reads_readWord (N := N) (n := 8) le_rfl e.compiledAtUs
  have hall : Reads N readRecord (keyBytes padding key ++ (lengthAndBytes e.debugName ++
      (lengthAndBytes e.binary ++ (toBytes 8 e.compilationMs ++ (toBytes 8 e.compiledAtUs ++ [])))))
      (reloaded key e) := by
    unfold readRecord
    exact (reads_readKey padding key).bind ((reads_readLengthAndBytes hname).bind
      ((reads_readLengthAndBytes hbinary).bind (hms.bind (hts.bind (reads_pure _)))))
  rw [recordBytes]
  simpa only [List.append_assoc, List.append_nil] using hall

/-- All entries, one after the other. -/
theorem readRecords_flatMap (padding : ShaderKey → BitVec 56) (ps : List (ShaderKey × CacheEntry))
    (hsmall : ∀ p ∈ ps, p.2.debugName.length < 2 ^ 32 ∧ p.2.binary.length < 2 ^ 32)
    (pre : List Byte) :
    readRecords ps.length ⟨pre ++ ps.flatMap fun p => recordBytes (padding p.1) p.1 p.2,
      pre.length⟩ = ps.map fun p => reloaded p.1 p.2 := by
  induction ps generalizing pre with
  | nil => rfl
  | cons p ps ih =>
      obtain ⟨hname, hbinary⟩ := hsmall p List.mem_cons_self
      have hread := reads_readRecord (padding p.1) p.1 hname hbinary pre
        (ps.flatMap fun p => recordBytes (padding p.1) p.1 p.2) (Nat.lt_succ_self _)
      have hrest := ih (fun q hq => hsmall q (List.mem_cons_of_mem _ hq))
        (pre ++ recordBytes (padding p.1) p.1 p.2)
      rw [List.append_assoc] at hrest
      rw [List.flatMap_cons, List.length_cons, readRecords, hread]
      dsimp only
      rw [hrest, List.map_cons]

end Reads

/-! ## A cache that is saved and loaded -/

section RoundTrip

variable {cs : CacheState} {order : MapOrder} {key : ShaderKey} {e : CacheEntry}

theorem mem_visited {p : ShaderKey × CacheEntry} :
    p ∈ cs.visited order ↔ cs.entries.lookup p.1 = some p.2 := by
  rw [CacheState.visited, List.mem_filterMap]
  constructor
  · rintro ⟨key, -, hkey⟩
    obtain ⟨e, he, rfl⟩ := Option.map_eq_some_iff.mp hkey
    exact he
  · intro h
    refine ⟨p.1, (order.perm _).mem_iff.mpr (AList.mem_keys.mp (AList.mem_of_lookup h)), ?_⟩
    rw [h]
    rfl

theorem map_fst_visited : (cs.visited order).map Prod.fst = order.keys cs.entries.keys := by
  rw [CacheState.visited, List.map_filterMap]
  calc (order.keys cs.entries.keys).filterMap
        (fun key => ((cs.entries.lookup key).map fun e => (key, e)).map Prod.fst)
      = (order.keys cs.entries.keys).filterMap some := by
        refine List.filterMap_congr fun key hkey => ?_
        have hin : key ∈ cs.entries := (order.perm _).mem_iff.mp hkey
        obtain ⟨e, he⟩ := AList.exists_lookup hin
        rw [he]
        rfl
    _ = order.keys cs.entries.keys := List.filterMap_some

theorem length_visited (cs : CacheState) (order : MapOrder) :
    (cs.visited order).length = cs.size := by
  rw [← List.length_map (f := Prod.fst), map_fst_visited, (order.perm _).length_eq]
  rfl

theorem nodup_visited (cs : CacheState) (order : MapOrder) :
    ((cs.visited order).map Prod.fst).Nodup := by
  rw [map_fst_visited]
  exact (order.perm _).nodup_iff.mpr cs.entries.keys_nodup

/-- **What is saved is loaded**, as far as it is written. -/
theorem lookup_loadFromDisk_saveToDisk (cs target : CacheState) (order : MapOrder)
    (padding : ShaderKey → BitVec 56) (key : ShaderKey) (hcount : cs.size < 2 ^ 32)
    (hsmall : ∀ key e, cs.entries.lookup key = some e →
      e.debugName.length < 2 ^ 32 ∧ e.binary.length < 2 ^ 32) :
    ((CacheState.loadFromDisk { target with entries := ∅ }
      (some (cs.saveToDisk order padding))).1.entries).lookup key =
        (cs.entries.lookup key).map (reloaded key) := by
  have hrecords : recordsIn (cs.saveToDisk order padding) =
      (cs.visited order).map fun p => reloaded p.1 p.2 := by
    have hread := readRecords_flatMap padding (cs.visited order)
      (fun p hp => hsmall p.1 p.2 (mem_visited.mp hp)) (toBytes 4 (BitVec.ofNat 32 cs.size))
    rw [CacheState.saveToDisk, recordsIn_append, BitVec.toNat_ofNat, Nat.mod_eq_of_lt hcount,
      ← length_visited cs order]
    rw [← length_visited cs order] at hread
    exact hread
  rw [CacheState.loadFromDisk]
  dsimp only
  rw [hrecords, List.foldl_map]
  cases hlookup : cs.entries.lookup key with
  | none =>
      have hnot : key ∉ (cs.visited order).map Prod.fst := by
        rw [map_fst_visited, (order.perm _).mem_iff]
        exact AList.lookup_eq_none.mp hlookup
      exact AList.lookup_foldl_insert_of_notMem Prod.fst (fun p => reloaded p.1 p.2) _ ∅ hnot
  | some e =>
      have hin : (key, e) ∈ cs.visited order := mem_visited.mpr hlookup
      exact AList.lookup_foldl_insert_of_mem Prod.fst (fun p => reloaded p.1 p.2) ∅
        (nodup_visited cs order) hin

/-- What is to come back of an entry. -/
def content (e : CacheEntry) : List Byte × List Byte × U64 × Bool :=
  (e.binary, e.debugName, e.compiledAtUs, e.valid)

/-- The same keys, and under each the same binary, name, time and flag. -/
def SameEntries (cs cs' : CacheState) : Prop :=
  ∀ key, (cs'.entries.lookup key).map content = (cs.entries.lookup key).map content

/-- **Saving and loading** a cache gives the cache back exactly if all its entries are valid. -/
theorem roundTrip_iff (cs target : CacheState) (order : MapOrder) (padding : ShaderKey → BitVec 56)
    (hcount : cs.size < 2 ^ 32) (hsmall : ∀ key e, cs.entries.lookup key = some e →
      e.debugName.length < 2 ^ 32 ∧ e.binary.length < 2 ^ 32) :
    SameEntries cs (CacheState.loadFromDisk { target with entries := ∅ }
      (some (cs.saveToDisk order padding))).1 ↔
        ∀ key e, cs.entries.lookup key = some e → e.valid = true := by
  have hload := fun key =>
    lookup_loadFromDisk_saveToDisk cs target order padding key hcount hsmall
  constructor
  · intro hsame key e he
    have hkey := hsame key
    rw [hload, he] at hkey
    exact (congrArg (fun c => c.2.2.2) (Option.some.inj hkey)).symm
  · intro hvalid key
    rw [hload]
    cases he : cs.entries.lookup key with
    | none => rfl
    | some e =>
        have hflag := hvalid key e he
        rw [Option.map_some, Option.map_some, Option.map_some, content, content, reloaded, hflag]

end RoundTrip

/-- A hash map that is gone over in the order of its keys. -/
def keyOrder : MapOrder := ⟨id, fun _ => .refl _⟩

/-- A cache with one shader. -/
def oneShader : CacheState :=
  { entries := (∅ : AList fun _ : ShaderKey => CacheEntry).insert {}
      { key := {}, binary := [1, 2], debugName := [65], valid := true } }

theorem eq_of_lookup_insert_empty {key k : ShaderKey} {e v : CacheEntry}
    (h : ((∅ : AList fun _ : ShaderKey => CacheEntry).insert k v).lookup key = some e) : e = v := by
  rw [AList.lookup_insert_ite] at h
  split_ifs at h
  · exact (Option.some.inj h).symm
  · cases h

/-- One that was compiled. -/
theorem roundTrip_iff_oneShader :
    SameEntries oneShader (CacheState.loadFromDisk { ({} : CacheState) with entries := ∅ }
      (some (oneShader.saveToDisk keyOrder fun _ => 0))).1 := by
  refine (roundTrip_iff oneShader {} keyOrder (fun _ => 0) (by decide) fun key e he => ?_).mpr
    fun key e he => ?_
  · rw [eq_of_lookup_insert_empty he]
    decide
  · rw [eq_of_lookup_insert_empty he]

/-- One that was not: it comes back as a valid entry. -/
theorem not_sameEntries_failed :
    ∃ cs hit, CacheState.compile { compileFn := some fun _ _ => [] } keyOrder
        { key := {}, spirv := [1] } 0 0 0 = .ok (cs, hit) ∧
      ¬ SameEntries cs (CacheState.loadFromDisk { ({} : CacheState) with entries := ∅ }
        (some (cs.saveToDisk keyOrder fun _ => 0))).1 := by
  refine ⟨_, _, rfl, fun hsame => ?_⟩
  have hkey := hsame {}
  rw [lookup_loadFromDisk_saveToDisk] at hkey
  · cases hkey
  · decide
  · intro key e he
    rw [eq_of_lookup_insert_empty he]
    decide

end ShaderCache
