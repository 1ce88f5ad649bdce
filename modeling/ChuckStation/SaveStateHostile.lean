/-
# Hostile save files

What `Load` does with a file whose every byte was chosen by someone else.  The checks and the
blob readers keep all reads inside; but the pages of a region get a vector of the size the file
says before anyone looks whether they are there, and are copied to wherever the file says.

`RegionsFit` goes along with the loop over the records; `load_clean_iff` says that a load comes
to a result, and asks for no more memory than the blob has bytes, exactly under it.
-/
import ChuckStation.SaveStateAtomic

namespace SaveState

open BinaryFormats Memory

/-! ## Readers that stay inside -/

/-- On a blob whose size fits 32 bits the reader hands on a value and stays inside, or is
refused. -/
def Contained {α : Type} (p : Reader ReadStop α) : Prop :=
  ∀ (data : List Byte) (o : ℕ), o ≤ data.length → data.length < 2 ^ 32 →
    p ⟨data, o⟩ = .error .refused ∨
      ∃ v o', p ⟨data, o⟩ = .ok (v, ⟨data, o'⟩) ∧ o' ≤ data.length

section Contained

variable {α β : Type} {p : Reader ReadStop α} {q : α → Reader ReadStop β}

theorem contained_pure (v : α) : Contained (pure v) :=
  fun _ o ho _ => .inr ⟨v, o, rfl, ho⟩

theorem Contained.bind (hp : Contained p) (hq : ∀ v, Contained (q v)) : Contained (p >>= q) := by
  intro data o ho hlen
  change (p ⟨data, o⟩ >>= fun x => q x.1 x.2) = _ ∨
    ∃ v o', (p ⟨data, o⟩ >>= fun x => q x.1 x.2) = _ ∧ _
  rcases hp data o ho hlen with hrefused | ⟨v, o', hok, ho'⟩
  · rw [hrefused]
    exact .inl rfl
  · rw [hok]
    exact hq v data o' ho' hlen

/-- A run of bytes is there or it is not, unless its end wraps. -/
theorem contained_read {len : ℕ} (h : len < 2 ^ 63) : Contained (read len) := by
  intro data o ho hlen
  by_cases hfit : o + len ≤ data.length
  · exact .inr ⟨_, _, read_of_le hfit (by omega), hfit⟩
  · exact .inl (read_of_lt (by omega) (by omega))

theorem contained_readT {w : ℕ} (h : w < 2 ^ 63) : Contained (readT w) :=
  (contained_read ((Nat.div_le_self w 8).trans_lt h)).bind fun _ => contained_pure _

theorem contained_readStr : Contained readStr :=
  (contained_readT (by norm_num)).bind fun len => contained_read (len.isLt.trans (by norm_num))

end Contained

/-! ## Records -/

/-- What comes before the pages of a record. -/
structure RegionHead where
  base : U64
  size : U64
  prot : U32
  type : Byte
  tag : List Byte

def readHead : Reader ReadStop RegionHead := do
  let base ← readT 64
  let sz ← readT 64
  let prot ← readT 32
  let type ← readT 8
  let tag ← readStr
  pure ⟨base, sz, prot, type, tag⟩

theorem contained_readHead : Contained readHead :=
  (contained_readT (by norm_num)).bind fun _ => (contained_readT (by norm_num)).bind fun _ =>
    (contained_readT (by norm_num)).bind fun _ => (contained_readT (by norm_num)).bind fun _ =>
    contained_readStr.bind fun _ => contained_pure _

/-- The bytes of a blob that are left. -/
def remaining (r : BlobReader) : ℕ := r.data.length - r.offset

theorem readRegion_eq (alloc : ℕ → Bool) : readRegion alloc = (do
    let head ← readHead
    newVector alloc head.size.toNat
    let pageData ← readPageData head.size
    pure ⟨head.base, head.size, head.prot, head.type, head.tag, pageData⟩) := by
  simp only [readRegion, readHead, bind_assoc, pure_bind]

section Record

variable {alloc : ℕ → Bool} {data : List Byte} {o o' : ℕ} {head : RegionHead} {r' : BlobReader}

/-- Behind the head of a record. -/
theorem readRegion_of_head (hhead : readHead ⟨data, o⟩ = .ok (head, r')) :
    readRegion alloc ⟨data, o⟩ = (do
      newVector alloc head.size.toNat
      let pageData ← readPageData head.size
      pure ⟨head.base, head.size, head.prot, head.type, head.tag, pageData⟩ :
        Reader ReadStop SerializedRegion) r' := by
  rw [readRegion_eq]
  change (readHead ⟨data, o⟩ >>= fun x => _) = _
  rw [hhead]
  rfl

theorem readRegion_of_refused (hhead : readHead ⟨data, o⟩ = .error .refused) :
    readRegion alloc ⟨data, o⟩ = .error .refused := by
  rw [readRegion_eq]
  change (readHead ⟨data, o⟩ >>= fun x => _) = _
  rw [hhead]
  rfl

/-- Pages that are there are read, if they get their vector. -/
theorem readRegion_of_fits (hhead : readHead ⟨data, o⟩ = .ok (head, ⟨data, o'⟩))
    (hlen : data.length < 2 ^ 32) (ho' : o' ≤ data.length)
    (hfit : head.size.toNat ≤ remaining ⟨data, o'⟩) (halloc : alloc head.size.toNat = true) :
    ∃ record o'', readRegion alloc ⟨data, o⟩ = .ok (record, ⟨data, o''⟩) ∧ o'' ≤ data.length := by
  have hfit : o' + head.size.toNat ≤ data.length := by
    unfold remaining at hfit
    dsimp only at hfit
    omega
  have hvector : newVector alloc head.size.toNat ⟨data, o'⟩ = .ok ((), ⟨data, o'⟩) := by
    unfold newVector
    rw [if_neg (by omega), if_pos halloc]
  rw [readRegion_of_head hhead]
  simp only [bind_eq_ok]
  by_cases hpos : 0 < head.size
  · have hpages : readPageData head.size ⟨data, o'⟩ =
        .ok ((data.drop o').take head.size.toNat, ⟨data, o' + head.size.toNat⟩) := by
      rw [readPageData, if_pos hpos]
      exact read_of_le hfit (by omega)
    exact ⟨_, _, ⟨_, _, hvector, _, _, hpages, rfl⟩, hfit⟩
  · have hpages : readPageData head.size ⟨data, o'⟩ = .ok ([], ⟨data, o'⟩) := by
      rw [readPageData, if_neg hpos]
      rfl
    exact ⟨_, _, ⟨_, _, hvector, _, _, hpages, rfl⟩, ho'⟩

/-- Without a vector the exception of the allocator, or of the library, comes through. -/
theorem readRegion_of_refusedVector (hhead : readHead ⟨data, o⟩ = .ok (head, ⟨data, o'⟩))
    (halloc : alloc head.size.toNat = false) :
    ∃ e, readRegion alloc ⟨data, o⟩ = .error (.abort e) := by
  rw [readRegion_of_head hhead]
  change ∃ e, (newVector alloc head.size.toNat ⟨data, o'⟩ >>= fun x => _) = _
  unfold newVector
  split_ifs with hmax hvector
  · exact ⟨.lengthError, rfl⟩
  · rw [halloc] at hvector
    cases hvector
  · exact ⟨.badAlloc, rfl⟩

/-- No read leaves the blob: a vector that was granted is short enough for the bounds check. -/
theorem readRegion_ne_outOfBounds (ho : o ≤ data.length) (hlen : data.length < 2 ^ 32) :
    readRegion alloc ⟨data, o⟩ ≠ .error (.abort .outOfBounds) := by
  rcases contained_readHead data o ho hlen with hrefused | ⟨head, o', hhead, ho'⟩
  · rw [readRegion_of_refused hrefused]
    decide
  · intro h
    rw [readRegion_of_head hhead] at h
    change (newVector alloc head.size.toNat ⟨data, o'⟩ >>= fun x => _) = _ at h
    unfold newVector at h
    split_ifs at h with hmax hvector
    · cases h
    · change (readPageData head.size ⟨data, o'⟩ >>= fun x => _) = _ at h
      have hcontained : Contained (readPageData head.size) := by
        unfold readPageData
        split_ifs
        · exact contained_read (by omega)
        · exact contained_pure _
      rcases hcontained data o' ho' hlen with hrefused | ⟨v, o'', hok, -⟩
      · rw [hrefused] at h
        cases h
      · rw [hok] at h
        cases h
    · cases h

end Record

/-! ## The loop -/

section Loop

variable {σ : Type} (alloc : ℕ → Bool) (restore : σ → SerializedRegion → Except HostAbort σ)

/-- For each record the loop comes to, the size of the vector it asks for and the bytes of the
blob that are left then. -/
def regionRequests : ℕ → BlobReader → σ → List (ℕ × ℕ)
  | 0, _, _ => []
  | n + 1, r, s =>
    match readHead r with
    | .error _ => []
    | .ok (head, r₁) =>
      (head.size.toNat, remaining r₁) ::
        match readRegion alloc r with
        | .error _ => []
        | .ok (record, r₂) =>
          match restore s record with
          | .error _ => []
          | .ok s => regionRequests n r₂ s

/-- The requests of `DeserializeMemoryMap`. -/
def mapRequests (r : BlobReader) (s : σ) : List (ℕ × ℕ) :=
  match readT 32 r with
  | .error _ => []
  | .ok (count, r) => regionRequests alloc restore count.toNat r s

variable (lands : σ → SerializedRegion → Prop)

/-- Every record the loop comes to has its pages in the blob, gets a vector for them, and has
memory to put them. -/
def RegionsFit : ℕ → BlobReader → σ → Prop
  | 0, _, _ => True
  | n + 1, r, s =>
    ∀ head r₁, readHead r = .ok (head, r₁) →
      head.size.toNat ≤ remaining r₁ ∧ alloc head.size.toNat = true ∧
        ∀ record r₂, readRegion alloc r = .ok (record, r₂) →
          lands s record ∧ ∀ s', restore s record = .ok s' → RegionsFit n r₂ s'

/-- The records of a memory blob fit. -/
def MapFits (r : BlobReader) (s : σ) : Prop :=
  ∀ count r₁, readT 32 r = .ok (count, r₁) → RegionsFit alloc restore lands count.toNat r₁ s

variable {alloc restore lands} {data : List Byte} {o n : ℕ} {s : σ}

theorem regionsFit_of_head {r r₁ : BlobReader} {head : RegionHead}
    (hhead : readHead r = .ok (head, r₁)) :
    RegionsFit alloc restore lands (n + 1) r s ↔
      head.size.toNat ≤ remaining r₁ ∧ alloc head.size.toNat = true ∧
        ∀ record r₂, readRegion alloc r = .ok (record, r₂) →
          lands s record ∧ ∀ s', restore s record = .ok s' →
            RegionsFit alloc restore lands n r₂ s' := by
  constructor
  · intro h
    exact h head r₁ hhead
  · intro h head' r₁' hhead'
    rw [hhead] at hhead'
    cases hhead'
    exact h

/-- Behind a record that fits the rest has to. -/
theorem regionsFit_of_landed {r r₁ r₂ : BlobReader} {head : RegionHead} {record : SerializedRegion}
    {s' : σ} (hhead : readHead r = .ok (head, r₁)) (hfit : head.size.toNat ≤ remaining r₁)
    (halloc : alloc head.size.toNat = true) (hrecord : readRegion alloc r = .ok (record, r₂))
    (hland : lands s record) (hs : restore s record = .ok s') :
    RegionsFit alloc restore lands (n + 1) r s ↔ RegionsFit alloc restore lands n r₂ s' := by
  rw [regionsFit_of_head hhead]
  constructor
  · rintro ⟨-, -, hall⟩
    exact (hall record r₂ hrecord).2 s' hs
  · intro hrest
    refine ⟨hfit, halloc, fun record' r₂' hread => ?_⟩
    cases hrecord.symm.trans hread
    refine ⟨hland, fun t ht => ?_⟩
    cases hs.symm.trans ht
    exact hrest

/-- **The loop**: it returns, and asks for no more than is left, exactly if all records fit. -/
theorem deserializeRegions_iff
    (hlands : ∀ s record, (∃ s', restore s record = .ok s') ↔ lands s record)
    (ho : o ≤ data.length) (hlen : data.length < 2 ^ 32) :
    ((∃ x, deserializeRegions alloc restore n ⟨data, o⟩ s = .ok x) ∧
      ∀ q ∈ regionRequests alloc restore n ⟨data, o⟩ s, q.1 ≤ q.2) ↔
      RegionsFit alloc restore lands n ⟨data, o⟩ s := by
  -- A record that was read leaves the position inside the blob, where the rest starts.
  induction n generalizing o s with
  | zero => exact iff_of_true ⟨⟨_, rfl⟩, fun q hq => absurd hq List.not_mem_nil⟩ trivial
  | succ n ih =>
      rcases contained_readHead data o ho hlen with hrefused | ⟨head, o', hhead, ho'⟩
      · rw [deserializeRegions, regionRequests, RegionsFit]
        simp [hrefused, readRegion_of_refused hrefused]
      by_cases hfit : head.size.toNat ≤ remaining ⟨data, o'⟩
      swap
      · rw [deserializeRegions, regionRequests, regionsFit_of_head hhead]
        simp only [hhead, List.forall_mem_cons]
        exact iff_of_false (fun h => hfit h.2.1) fun h => hfit h.1
      cases halloc : alloc head.size.toNat with
      | false =>
          obtain ⟨e, he⟩ := readRegion_of_refusedVector hhead halloc
          rw [deserializeRegions, regionsFit_of_head hhead]
          simp [he, halloc]
      | true =>
          obtain ⟨record, o'', hrecord, ho''⟩ := readRegion_of_fits hhead hlen ho' hfit halloc
          cases hs : restore s record with
          | error e =>
              have hnot : ¬ lands s record := by
                rw [← hlands, hs]
                simp
              rw [deserializeRegions, regionsFit_of_head hhead]
              simp [hrecord, hs, hnot]
          | ok s' =>
              have hland : lands s record := (hlands s record).mp ⟨s', hs⟩
              rw [regionsFit_of_landed hhead hfit halloc hrecord hland hs, ← ih ho'',
                deserializeRegions, regionRequests]
              simp only [hhead, hrecord, hs, List.forall_mem_cons, hfit, true_and]

/-- No read of the loop leaves the blob. -/
theorem deserializeRegions_ne_outOfBounds
    (hrestore : ∀ s record, restore s record ≠ .error .outOfBounds)
    (ho : o ≤ data.length) (hlen : data.length < 2 ^ 32) :
    deserializeRegions alloc restore n ⟨data, o⟩ s ≠ .error .outOfBounds := by
  induction n generalizing o s with
  | zero => exact fun h => by cases h
  | succ n ih =>
      intro h
      rw [deserializeRegions] at h
      cases hread : readRegion alloc ⟨data, o⟩ with
      | error e =>
          cases e with
          | refused =>
              simp only [hread] at h
              cases h
          | abort e =>
              simp only [hread, Except.error.injEq] at h
              rw [h] at hread
              exact readRegion_ne_outOfBounds ho hlen hread
      | ok x =>
          obtain ⟨record, ⟨data', o'⟩⟩ := x
          obtain ⟨rfl, ho', -⟩ := local_readRegion alloc data [] o record _
            (by rw [List.append_nil]; omega) ho hread
          simp only [hread] at h
          cases hs : restore s record with
          | error e =>
              simp only [hs, Except.error.injEq] at h
              exact hrestore s record (by rw [hs, h])
          | ok s' =>
              simp only [hs] at h
              exact ih ho' h

/-- **The memory map**, exactly. -/
theorem deserializeMemoryMap_iff
    (hlands : ∀ s record, (∃ s', restore s record = .ok s') ↔ lands s record)
    (hlen : data.length < 2 ^ 32) :
    ((∃ x, deserializeMemoryMap alloc restore ⟨data, 0⟩ s = .ok x) ∧
      ∀ q ∈ mapRequests alloc restore ⟨data, 0⟩ s, q.1 ≤ q.2) ↔
      MapFits alloc restore lands ⟨data, 0⟩ s := by
  unfold deserializeMemoryMap mapRequests MapFits
  rcases contained_readT (w := 32) (by norm_num) data 0 (Nat.zero_le _) hlen with
    hrefused | ⟨count, o', hcount, ho'⟩
  · simp [hrefused]
  · simp only [hcount]
    rw [deserializeRegions_iff hlands ho' hlen]
    constructor
    · intro hfit count' r₁ hread
      cases hread
      exact hfit
    · intro hall
      exact hall count _ rfl

theorem deserializeMemoryMap_ne_outOfBounds
    (hrestore : ∀ s record, restore s record ≠ .error .outOfBounds)
    (hlen : data.length < 2 ^ 32) :
    deserializeMemoryMap alloc restore ⟨data, 0⟩ s ≠ .error .outOfBounds := by
  unfold deserializeMemoryMap
  rcases contained_readT (w := 32) (by norm_num) data 0 (Nat.zero_le _) hlen with
    hrefused | ⟨count, o', hcount, ho'⟩
  · simp [hrefused]
  · simp only [hcount]
    exact deserializeRegions_ne_outOfBounds hrestore ho' hlen

end Loop

/-! ## Where the pages go -/

/-- The memory at `base` takes the pages of the record. -/
def TakesPages (p : Process) (record : SerializedRegion) (base : U64) : Prop :=
  0 < record.size → base ≠ 0 → p.host.allows canWrite base record.pageData.length

/-- A record has memory for its pages: where it says, if a region of the table covers that, else
where it is mapped, if it is. -/
def Lands (os : Os) (p : Process) (record : SerializedRegion) : Prop :=
  match findRegion p record.base with
  | some _ => TakesPages p record record.base
  | none =>
    let mapped := map os record.base record.size record.prot record.type record.tag p
    mapped.1 ≠ 0 → TakesPages mapped.2 record mapped.1

section Land

variable {os : Os} {p : Process} {record : SerializedRegion}

theorem copyPages_isOk_iff {base : U64} :
    (∃ p', copyPages record base p = .ok p') ↔ TakesPages p record base := by
  unfold copyPages TakesPages
  split_ifs with hcopy hallow
  · exact iff_of_true ⟨_, rfl⟩ fun _ _ => hallow
  · exact iff_of_false (fun ⟨_, h⟩ => by cases h) fun h => hallow (h hcopy.1 hcopy.2)
  · exact iff_of_true ⟨_, rfl⟩ fun hsize hbase => absurd ⟨hsize, hbase⟩ hcopy

theorem restoreRegion_isOk_iff :
    (∃ p', restoreRegion os p record = .ok p') ↔ Lands os p record := by
  unfold restoreRegion Lands
  cases findRegion p record.base with
  | some r => exact copyPages_isOk_iff
  | none =>
      dsimp only
      split_ifs with hmapped
      · exact iff_of_true ⟨_, rfl⟩ fun h => absurd hmapped h
      · rw [copyPages_isOk_iff]
        exact ⟨fun h _ => h, fun h => h hmapped⟩

theorem copyPages_ne_outOfBounds {base : U64} : copyPages record base p ≠ .error .outOfBounds := by
  unfold copyPages
  split_ifs <;> simp

theorem restoreRegion_ne_outOfBounds : restoreRegion os p record ≠ .error .outOfBounds := by
  unfold restoreRegion
  cases findRegion p record.base with
  | some r => exact copyPages_ne_outOfBounds
  | none =>
      dsimp only
      split_ifs
      · simp
      · exact copyPages_ne_outOfBounds

end Land

/-! ## A load -/

/-- The buffer for the file. -/
def SlotFile.bufferSize : SlotFile → Option ℕ
  | .missing | .unopenable => none
  | .unreadable fileSize => some fileSize
  | .bytes fileData => some fileData.length

/-- A load that comes to the memory map: the file has its buffer and passes the checks, and the
CPU blob is complete. -/
def ReachesMap (alloc : ℕ → Bool) (initialised : Bool) (file : SlotFile) (blobs : Blobs) : Prop :=
  ∃ fileData, file = .bytes fileData ∧ initialised = true ∧
    allocate alloc fileData.length = .ok () ∧ validate fileData = .ok blobs ∧
    416 ≤ blobs.cpu.length

/-- A load comes to a result, reads nothing outside of the buffer or of the blob it is at, and
asks for no more memory for a region than the blob has bytes left. -/
structure Clean (os : Os) (alloc : ℕ → Bool) (initialised : Bool) (file : SlotFile)
    (m : Machine) : Prop where
  returns : ∃ result m', load os alloc initialised file m = .ok (result, m')
  inside : load os alloc initialised file m ≠ .error .outOfBounds
  blobs_inside : ∀ fileData blobs, file = .bytes fileData → validate fileData = .ok blobs →
    blobs.cpu.length = (headerOf fileData).cpuStateSize.toNat ∧
      blobs.mem.length = (headerOf fileData).memoryMapSize.toNat ∧
      blobs.gpu.length = (headerOf fileData).gpuStateSize.toNat
  bounded : ∀ blobs, ReachesMap alloc initialised file blobs →
    ∀ q ∈ mapRequests alloc (restoreRegion os) ⟨blobs.mem, 0⟩ m.mem, q.1 ≤ q.2

/-- The buffer is granted, and if the load comes to the memory map, all its records fit. -/
def Harmless (os : Os) (alloc : ℕ → Bool) (initialised : Bool) (file : SlotFile)
    (m : Machine) : Prop :=
  (initialised = true → ∀ n, file.bufferSize = some n → allocate alloc n = .ok ()) ∧
    ∀ blobs, ReachesMap alloc initialised file blobs →
      MapFits alloc (restoreRegion os) (Lands os) ⟨blobs.mem, 0⟩ m.mem

section Load

variable {os : Os} {alloc : ℕ → Bool} {initialised : Bool} {file : SlotFile} {m : Machine}
  {blobs : Blobs} {fileData : List Byte}

theorem allocate_ne_outOfBounds {n : ℕ} : allocate alloc n ≠ .error .outOfBounds := by
  unfold allocate
  split_ifs <;> simp

theorem deserializeGpuState_isOk (hlen : blobs.gpu.length < 2 ^ 32) :
    ∃ x, deserializeGpuState ⟨blobs.gpu, 0⟩ = .ok x :=
  ⟨_, readFields_eq gpuFields {} (Nat.zero_le _) (by
    have hsum : (gpuFields.map DataField.size).sum = 36 := rfl
    omega)⟩

/-- What `Load` does behind the checks is what it does with the memory map. -/
theorem restore_eq (os : Os) (alloc : ℕ → Bool) (m : Machine) (hcpu : blobs.cpu.length < 2 ^ 32)
    (hgpu : blobs.gpu.length < 2 ^ 32) :
    (416 ≤ blobs.cpu.length →
      ((∃ x, restore os alloc blobs m = .ok x) ↔
        ∃ x, deserializeMemoryMap alloc (restoreRegion os) ⟨blobs.mem, 0⟩ m.mem = .ok x) ∧
      ∀ e, restore os alloc blobs m = .error e →
        deserializeMemoryMap alloc (restoreRegion os) ⟨blobs.mem, 0⟩ m.mem = .error e) ∧
    (¬ 416 ≤ blobs.cpu.length → ∃ x, restore os alloc blobs m = .ok x) := by
  obtain ⟨r, hread⟩ := deserializeCpuContext_eq blobs.cpu hcpu m.ctx
  have hcomplete := decodeInto_complete_iff cpuFields blobs.cpu m.ctx
  rw [sum_cpuFields] at hcomplete
  unfold restore
  rw [hread]
  constructor
  · intro hlen
    rw [hcomplete.mpr hlen]
    dsimp only
    cases hmap : deserializeMemoryMap alloc (restoreRegion os) ⟨blobs.mem, 0⟩ m.mem with
    | error e => simp
    | ok x =>
        obtain ⟨complete, mem, r'⟩ := x
        obtain ⟨⟨whole, stats, r''⟩, hgpu⟩ := deserializeGpuState_isOk hgpu
        cases complete with
        | false => simp
        | true =>
            simp only [hgpu]
            cases whole <;> simp
  · intro hshort
    have hfalse : (decodeInto cpuFields blobs.cpu m.ctx).1 = false := by
      rw [← Bool.not_eq_true, hcomplete]
      exact hshort
    rw [hfalse]
    exact ⟨_, rfl⟩

theorem length_blobs_lt (h : validate fileData = .ok blobs) : blobs.cpu.length < 2 ^ 32 ∧
    blobs.mem.length < 2 ^ 32 ∧ blobs.gpu.length < 2 ^ 32 := by
  obtain ⟨hcpu, hmem, hgpu⟩ := length_blobs h
  rw [hcpu, hmem, hgpu]
  exact ⟨BitVec.isLt _, BitVec.isLt _, BitVec.isLt _⟩

/-- **No read leaves its buffer**, whatever the file. -/
theorem load_ne_outOfBounds (os : Os) (alloc : ℕ → Bool) (initialised : Bool) (file : SlotFile)
    (m : Machine) : load os alloc initialised file m ≠ .error .outOfBounds := by
  intro h
  unfold load at h
  split_ifs at h
  cases file with
  | missing | unopenable => cases h
  | unreadable fileSize =>
      cases halloc : allocate alloc fileSize with
      | error e =>
          simp only [halloc, Except.error.injEq] at h
          exact allocate_ne_outOfBounds (h ▸ halloc)
      | ok u => simp only [halloc, reduceCtorEq] at h
  | bytes fileData =>
      cases halloc : allocate alloc fileData.length with
      | error e =>
          simp only [halloc, Except.error.injEq] at h
          exact allocate_ne_outOfBounds (h ▸ halloc)
      | ok u =>
          cases hvalid : validate fileData with
          | error e => simp only [halloc, hvalid, reduceCtorEq] at h
          | ok blobs =>
              simp only [halloc, hvalid] at h
              obtain ⟨hcpu, hmem, hgpu⟩ := length_blobs_lt hvalid
              obtain ⟨hfull, hshort⟩ := restore_eq os alloc m hcpu hgpu
              by_cases hlen : 416 ≤ blobs.cpu.length
              · exact deserializeMemoryMap_ne_outOfBounds (fun _ _ => restoreRegion_ne_outOfBounds)
                  hmem ((hfull hlen).2 _ h)
              · obtain ⟨x, hx⟩ := hshort hlen
                rw [hx] at h
                cases h

/-- A load behind its first checks. -/
theorem load_bytes_iff (halloc : allocate alloc fileData.length = .ok ()) :
    (∃ result m', load os alloc true (.bytes fileData) m = .ok (result, m')) ↔
      ∀ blobs, ReachesMap alloc true (.bytes fileData) blobs →
        ∃ x, deserializeMemoryMap alloc (restoreRegion os) ⟨blobs.mem, 0⟩ m.mem = .ok x := by
  unfold load ReachesMap
  simp only [halloc, SlotFile.bytes.injEq, exists_eq_left', true_and]
  cases hvalid : validate fileData with
  | error e => simp
  | ok blobs =>
      obtain ⟨hcpu, -, hgpu⟩ := length_blobs_lt hvalid
      obtain ⟨hfull, hshort⟩ := restore_eq os alloc m hcpu hgpu
      have hpair : (∃ result m', restore os alloc blobs m = .ok (result, m')) ↔
          ∃ x, restore os alloc blobs m = .ok x :=
        ⟨fun ⟨result, m', h⟩ => ⟨(result, m'), h⟩, fun ⟨⟨result, m'⟩, h⟩ => ⟨result, m', h⟩⟩
      simp only [Bool.true_eq_false, if_false, Except.ok.injEq, and_imp, forall_eq', hpair]
      by_cases hlen : 416 ≤ blobs.cpu.length
      · rw [(hfull hlen).1]
        exact ⟨fun h _ => h, fun h => h hlen⟩
      · exact iff_of_true (hshort hlen) fun h => absurd h hlen

/-- **When a load is clean.**  Whatever the file, no read leaves its buffer.  A load comes to a
result and asks for no more than is left exactly if its buffer is granted and every record it
comes to has its pages in the blob, gets a vector for them, and has memory to put them. -/
theorem load_clean_iff (os : Os) (alloc : ℕ → Bool) (initialised : Bool) (file : SlotFile)
    (m : Machine) :
    Clean os alloc initialised file m ↔ Harmless os alloc initialised file m := by
  have hmaps : ∀ blobs, ReachesMap alloc initialised file blobs →
      (((∃ x, deserializeMemoryMap alloc (restoreRegion os) ⟨blobs.mem, 0⟩ m.mem = .ok x) ∧
        ∀ q ∈ mapRequests alloc (restoreRegion os) ⟨blobs.mem, 0⟩ m.mem, q.1 ≤ q.2) ↔
          MapFits alloc (restoreRegion os) (Lands os) ⟨blobs.mem, 0⟩ m.mem) := by
    rintro blobs ⟨fileData, -, -, -, hvalid, -⟩
    exact deserializeMemoryMap_iff (fun _ _ => restoreRegion_isOk_iff) (length_blobs_lt hvalid).2.1
  -- Apart from the records, a load comes to a result exactly if its buffer is granted.
  have hreturns : (∃ result m', load os alloc initialised file m = .ok (result, m')) ↔
      (initialised = true → ∀ n, file.bufferSize = some n → allocate alloc n = .ok ()) ∧
        ∀ blobs, ReachesMap alloc initialised file blobs →
          ∃ x, deserializeMemoryMap alloc (restoreRegion os) ⟨blobs.mem, 0⟩ m.mem = .ok x := by
    cases initialised with
    | false =>
        refine iff_of_true ⟨_, _, rfl⟩ ⟨fun h => absurd h (by decide), ?_⟩
        rintro blobs ⟨_, _, hinit, -⟩
        cases hinit
    | true =>
        cases file with
        | missing | unopenable =>
            refine iff_of_true ⟨_, _, rfl⟩ ⟨fun _ n hn => (by cases hn), ?_⟩
            rintro blobs ⟨_, hfile, -⟩
            cases hfile
        | unreadable fileSize =>
            have hnone : ∀ blobs, ¬ ReachesMap alloc true (.unreadable fileSize) blobs := by
              rintro blobs ⟨_, hfile, -⟩
              cases hfile
            rw [and_iff_left fun blobs h => absurd h (hnone blobs), load, if_neg (by decide)]
            simp only [SlotFile.bufferSize, Option.some.injEq, forall_eq', forall_const]
            cases halloc : allocate alloc fileSize with
            | error e => simp
            | ok u => simp
        | bytes fileData =>
            simp only [SlotFile.bufferSize, Option.some.injEq, forall_eq', forall_const]
            cases halloc : allocate alloc fileData.length with
            | error e =>
                refine iff_of_false ?_ fun h => by cases h.1
                rintro ⟨result, m', h⟩
                rw [load, if_neg (by decide)] at h
                simp only [halloc, reduceCtorEq] at h
            | ok u => rw [load_bytes_iff halloc, and_iff_right rfl]
  constructor
  · intro h
    obtain ⟨hbuffer, hall⟩ := hreturns.mp h.returns
    exact ⟨hbuffer, fun blobs hreach => (hmaps blobs hreach).mp ⟨hall blobs hreach,
      h.bounded blobs hreach⟩⟩
  · rintro ⟨hbuffer, hfits⟩
    exact {
      returns := hreturns.mpr ⟨hbuffer, fun blobs hreach =>
        ((hmaps blobs hreach).mpr (hfits blobs hreach)).1⟩
      inside := load_ne_outOfBounds os alloc initialised file m
      blobs_inside := fun fileData blobs _ hvalid => length_blobs hvalid
      bounded := fun blobs hreach => ((hmaps blobs hreach).mpr (hfits blobs hreach)).2 }

end Load

/-! ## A region of half the address space -/

/-- A memory map of one region, without a tag and without pages. -/
def hugeMap : List Byte :=
  writeT (1 : U32) ++ writeT (0x10000000 : U64) ++ writeT (0x8000000000000000 : U64) ++
    writeT Prot.RW ++ writeT AllocType.Data ++ writeStr []

/-- Its file passes the checks, and the vector for its pages throws. -/
theorem not_clean_hugeMap :
    ¬ ∀ (os : Os) (alloc : ℕ → Bool) (initialised : Bool) (file : SlotFile) (m : Machine),
      Clean os alloc initialised file m := by
  intro h
  have hvalid : validate (buildFile {} (serializeCpuContext {}) hugeMap (serializeGpuState {})) =
      .ok ⟨serializeCpuContext {}, hugeMap, serializeGpuState {}⟩ :=
    validate_buildFile {} (length_serializeCpuContext_lt {}) (by decide) (by decide)
  have halloc : allocate (fun _ => true) (buildFile {} (serializeCpuContext {}) hugeMap
      (serializeGpuState {})).length = .ok () := by
    have hheader : headerSize = 424 := rfl
    have hmap : hugeMap.length = 29 := rfl
    rw [allocate, buildFile, List.length_append, length_header, List.length_append,
      List.length_append, length_serializeCpuContext, length_serializeGpuState, hmap,
      if_neg (by decide), if_pos rfl]
  have hmap : deserializeMemoryMap (fun _ => true) (restoreRegion refusingOs) ⟨hugeMap, 0⟩
      blankMachine.mem = .error .lengthError := rfl
  obtain ⟨result, m', hload⟩ := (h refusingOs (fun _ => true) true
    (.bytes (buildFile {} (serializeCpuContext {}) hugeMap (serializeGpuState {})))
    blankMachine).returns
  have hrestore : restore refusingOs (fun _ => true) ⟨serializeCpuContext {}, hugeMap,
      serializeGpuState {}⟩ blankMachine = .error .lengthError := by
    unfold restore
    dsimp only
    rw [deserializeCpuContext_serialize]
    simp only [hmap]
  rw [load_of_validate halloc hvalid, hrestore] at hload
  cases hload

end SaveState
