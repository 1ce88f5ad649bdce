/-
# Reading a save state back

What the serialisers write is what the deserialisers read, blob by blob and then for the
whole file.
-/
import ChuckStation.SaveStateFormat

namespace SaveState

open BinaryFormats Memory LittleEndian
open Cpu (CpuContext)

/-! ## Reads of a blob -/

section Reads

variable {data : List Byte} {o len : ℕ}

theorem read_of_le (hle : o + len ≤ data.length) (hlen : data.length < 2 ^ 64) :
    read len ⟨data, o⟩ = .ok ((data.drop o).take len, ⟨data, o + len⟩) := by
  unfold read
  dsimp only
  rw [if_neg (by rw [Nat.mod_eq_of_lt (by omega)]; omega), if_neg (by omega)]

theorem read_of_lt (hlt : data.length < o + len) (hlen : o + len < 2 ^ 64) :
    read len ⟨data, o⟩ = .error .refused := by
  unfold read
  dsimp only
  rw [if_pos (by rw [Nat.mod_eq_of_lt hlen]; exact hlt)]

/-- A read that hands on bytes found them inside the blob. -/
theorem read_eq_ok {bs : List Byte} {c : Cursor} (h : read len ⟨data, o⟩ = .ok (bs, c)) :
    o + len ≤ data.length ∧ bs = (data.drop o).take len ∧ c = ⟨data, o + len⟩ := by
  unfold read at h
  dsimp only at h
  split_ifs at h with _ hout
  cases h
  exact ⟨by omega, rfl, rfl⟩

theorem reads_read (bs : List Byte) : Reads (2 ^ 64) (read bs.length) bs bs := by
  intro pre post hlen
  have hle : pre.length + bs.length ≤ (pre ++ (bs ++ post)).length := by
    simp only [List.length_append]
    omega
  rw [read_of_le hle hlen, List.drop_left, List.take_left, List.length_append]

theorem local_read (len : ℕ) : Local (2 ^ 64) (read len) := by
  intro data more o bs c hlen ho h
  obtain ⟨hle, rfl, rfl⟩ := read_eq_ok h
  rw [List.length_append] at hlen
  have hread : read len ⟨data ++ more, o⟩ = .ok _ :=
    read_of_le (by rw [List.length_append]; omega) (by rwa [List.length_append])
  refine ⟨rfl, hle, ?_⟩
  rw [hread, List.drop_append_of_le_length ho,
    List.take_append_of_le_length (by rw [List.length_drop]; omega)]

theorem reads_readT {w : ℕ} (hw : w = 8 * (w / 8)) (v : BitVec w) :
    Reads (2 ^ 64) (readT w) (writeT v) v := by
  have hread : Reads (2 ^ 64) (read (w / 8)) (writeT v) (writeT v) := by
    have h := reads_read (writeT v)
    rwa [writeT, length_toBytes] at h
  have hword : ofBytes w (writeT v) = v := ofBytes_toBytes _ v hw.le
  have h := hread.bind (q := fun bs => pure (ofBytes w bs)) (reads_pure (ofBytes w (writeT v)))
  rwa [List.append_nil, hword] at h

theorem local_readT (w : ℕ) : Local (2 ^ 64) (readT w) :=
  (local_read _).bind fun _ => local_pure _

/-- What is left of a string under a 32-bit length. -/
def storedStr (s : List Byte) : List Byte := s.take (s.length % 2 ^ 32)

theorem storedStr_eq {s : List Byte} (hs : s.length < 2 ^ 32) : storedStr s = s := by
  rw [storedStr, Nat.mod_eq_of_lt hs, List.take_length]

theorem reads_readStr (s : List Byte) : Reads (2 ^ 64) readStr (writeStr s) (storedStr s) := by
  have hlen : (BitVec.ofNat 32 s.length).toNat = (storedStr s).length := by
    rw [BitVec.toNat_ofNat, storedStr, List.length_take, Nat.min_eq_left (Nat.mod_le _ _)]
  have hbody : Reads (2 ^ 64) (read (BitVec.ofNat 32 s.length).toNat) (storedStr s)
      (storedStr s) := by
    rw [hlen]
    exact reads_read _
  exact (reads_readT (by norm_num) _).bind (q := fun len : U32 => read len.toNat) hbody

theorem local_readStr : Local (2 ^ 64) readStr :=
  (local_readT 32).bind fun _ => local_read _

theorem reads_newVector {alloc : ℕ → Bool} {n : ℕ} (hmax : n < 2 ^ 63) (halloc : alloc n = true) :
    Reads (2 ^ 64) (newVector alloc n) [] () := by
  intro pre post _
  unfold newVector
  rw [if_neg (by omega), if_pos halloc, List.append_nil]

theorem local_newVector (alloc : ℕ → Bool) (n : ℕ) : Local (2 ^ 64) (newVector alloc n) := by
  intro data more o v c _ ho h
  unfold newVector at h ⊢
  split_ifs at h ⊢ with _ halloc
  cases h
  exact ⟨rfl, ho, rfl⟩

/-- A chain of reads is `decodeInto` on the bytes from the cursor on. -/
theorem readFields_eq {σ : Type} (fs : List (DataField σ)) (s : σ) (ho : o ≤ data.length)
    (hlen : data.length + (fs.map DataField.size).sum < 2 ^ 64) :
    readFields fs ⟨data, o⟩ s = .ok ((decodeInto fs (data.drop o) s).1,
      (decodeInto fs (data.drop o) s).2.1,
      ⟨data, data.length - (decodeInto fs (data.drop o) s).2.2.length⟩) := by
  induction fs generalizing o s with
  | nil =>
      have hback : data.length - (data.length - o) = o := by omega
      simp only [readFields, decodeInto, List.length_drop, hback]
  | cons f fs ih =>
      rw [List.map_cons, List.sum_cons] at hlen
      by_cases hfit : o + f.size ≤ data.length
      · have hsize : f.size ≤ (data.drop o).length := by
          rw [List.length_drop]
          omega
        rw [readFields, read_of_le hfit (by omega), decodeInto_of_fits hsize, List.drop_drop]
        exact ih _ hfit (by omega)
      · have hshort : (data.drop o).length < f.size := by
          rw [List.length_drop]
          omega
        have hback : data.length - (data.length - o) = o := by omega
        rw [readFields, read_of_lt (by omega) (by omega), decodeInto_of_short hshort]
        simp only [List.length_drop, hback]

end Reads

/-! ## CPU context -/

theorem serializeCpuContext_eq (ctx : CpuContext) :
    serializeCpuContext ctx = encodeFields cpuFields ctx := by
  simp only [serializeCpuContext, encodeFields, cpuFields, List.flatMap_append, List.flatMap_cons,
    List.flatMap_nil, List.append_nil, List.flatMap_map, List.append_assoc]
  rfl

theorem pairwise_cpuFields : cpuFields.Pairwise DataField.Keeps := by
  have hgpr : ((List.finRange 16).map gprField).Pairwise DataField.Keeps := by
    refine List.pairwise_map.mpr ((List.nodup_finRange 16).imp fun {i j} hij => ?_)
    intro bs ctx
    simp [gprField, wordField, Function.update_of_ne hij]
  have hxmm : ((List.finRange 16).map xmmField).Pairwise DataField.Keeps := by
    refine List.pairwise_map.mpr ((List.nodup_finRange 16).imp fun {i j} hij => ?_)
    intro bs ctx
    simp [xmmField, arrayField, Function.update_of_ne hij]
  have hspecial : [ripField, rflagsField, csField, ssField].Pairwise DataField.Keeps := by
    simp [DataField.Keeps, ripField, rflagsField, csField, ssField, wordField]
  refine List.pairwise_append.mpr ⟨List.pairwise_append.mpr ⟨hgpr, hspecial, ?_⟩, hxmm, ?_⟩
  · simp [DataField.Keeps, gprField, ripField, rflagsField, csField, ssField, wordField]
  · simp [or_imp, forall_and, DataField.Keeps, gprField, ripField, rflagsField, csField, ssField,
      xmmField, wordField, arrayField]

/-- The fields are the whole context. -/
theorem cpuFields_ext {ctx ctx' : CpuContext} (h : ∀ f ∈ cpuFields, f.load ctx = f.load ctx') :
    ctx = ctx' := by
  have hword : ∀ f : DataField CpuContext, f ∈ cpuFields → f.load ctx = f.load ctx' := h
  simp only [cpuFields, List.mem_append, List.mem_map, List.mem_finRange, true_and, List.mem_cons,
    List.not_mem_nil, or_false] at hword
  have hgpr : ctx.gpr = ctx'.gpr := by
    funext i
    exact wordField_load_inj (hword (gprField i) (.inl (.inl ⟨i, rfl⟩)))
  have hxmm : ctx.xmm = ctx'.xmm := by
    funext i
    exact arrayField_load_inj (hword (xmmField i) (.inr ⟨i, rfl⟩))
  have hrip : ctx.rip = ctx'.rip :=
    wordField_load_inj (hword ripField (.inl (.inr (.inl rfl))))
  have hrflags : ctx.rflags = ctx'.rflags :=
    wordField_load_inj (hword rflagsField (.inl (.inr (.inr (.inl rfl)))))
  have hcs : ctx.cs = ctx'.cs :=
    wordField_load_inj (hword csField (.inl (.inr (.inr (.inr (.inl rfl))))))
  have hss : ctx.ss = ctx'.ss :=
    wordField_load_inj (hword ssField (.inl (.inr (.inr (.inr (.inr rfl))))))
  exact CpuContext.ext hgpr hrip hrflags hcs hss hxmm

theorem sum_cpuFields : (cpuFields.map DataField.size).sum = 416 := rfl

theorem length_encodeFields {σ : Type} (fs : List (DataField σ)) (s : σ) :
    (encodeFields fs s).length = (fs.map DataField.size).sum := by
  simp only [encodeFields, List.length_flatMap, DataField.length_load]

theorem length_serializeCpuContext (ctx : CpuContext) : (serializeCpuContext ctx).length = 416 := by
  rw [serializeCpuContext_eq, length_encodeFields, sum_cpuFields]

theorem length_serializeCpuContext_lt (ctx : CpuContext) :
    (serializeCpuContext ctx).length < 2 ^ 32 := by
  rw [length_serializeCpuContext]
  norm_num

/-- A chain of reads over the fields of a state takes exactly their bytes and restores them. -/
theorem readFields_encodeFields {σ : Type} {fs : List (DataField σ)} (v s : σ)
    (hind : fs.Pairwise DataField.Keeps) (hlen : 2 * (fs.map DataField.size).sum < 2 ^ 64) :
    ∃ s', readFields fs ⟨encodeFields fs v, 0⟩ s =
        .ok (true, s', ⟨encodeFields fs v, (encodeFields fs v).length⟩) ∧
      ∀ f ∈ fs, f.load s' = f.load v := by
  obtain ⟨s', hdec, hload⟩ := decodeInto_encodeFields [] (s := s) (v := v) hind
  rw [List.append_nil] at hdec
  refine ⟨s', ?_, hload⟩
  rw [readFields_eq _ _ (Nat.zero_le _) (by rw [length_encodeFields]; omega), List.drop_zero, hdec]
  rfl

/-- **The CPU blob**, whatever the live context holds before. -/
theorem deserializeCpuContext_serialize (saved live : CpuContext) :
    deserializeCpuContext ⟨serializeCpuContext saved, 0⟩ live =
      .ok (true, saved, ⟨serializeCpuContext saved, (serializeCpuContext saved).length⟩) := by
  obtain ⟨ctx, hread, hload⟩ :=
    readFields_encodeFields saved live pairwise_cpuFields (by rw [sum_cpuFields]; norm_num)
  rw [serializeCpuContext_eq, deserializeCpuContext, hread, cpuFields_ext hload]

/-! ## GPU statistics -/

theorem serializeGpuState_eq (stats : GpuStats) :
    serializeGpuState stats = encodeFields gpuFields stats := by
  simp only [serializeGpuState, encodeFields, gpuFields, List.flatMap_cons, List.flatMap_nil,
    List.append_nil, List.append_assoc]
  rfl

theorem length_serializeGpuState (stats : GpuStats) : (serializeGpuState stats).length = 36 := by
  rw [serializeGpuState_eq, length_encodeFields]
  rfl

theorem length_serializeGpuState_lt (stats : GpuStats) :
    (serializeGpuState stats).length < 2 ^ 32 := by
  rw [length_serializeGpuState]
  norm_num

/-- **The GPU blob.** -/
theorem deserializeGpuState_serialize (stats : GpuStats) :
    deserializeGpuState ⟨serializeGpuState stats, 0⟩ =
      .ok (true, stats, ⟨serializeGpuState stats, (serializeGpuState stats).length⟩) := by
  have hind : gpuFields.Pairwise DataField.Keeps := by
    simp [gpuFields, DataField.Keeps, wordField]
  obtain ⟨stats', hread, hload⟩ := readFields_encodeFields stats {} hind (by decide)
  have hstats : stats' = stats := by
    simp only [gpuFields, List.forall_mem_cons] at hload
    obtain ⟨h1, h2, h3, h4, h5, -⟩ := hload
    exact GpuStats.ext (wordField_load_inj h1) (wordField_load_inj h2) (wordField_load_inj h3)
      (wordField_load_inj h4) (wordField_load_inj h5)
  rw [serializeGpuState_eq, deserializeGpuState, hread, hstats]

/-! ## Memory map -/

/-- The record of a region with these pages. -/
def recordOf (r : Region) (page : List Byte) : SerializedRegion :=
  ⟨r.base, r.size, r.prot, r.type, storedStr r.tag, page⟩

section RecordOf

variable (r : Region) (page : List Byte)

@[simp] theorem recordOf_base : (recordOf r page).base = r.base := rfl
@[simp] theorem recordOf_size : (recordOf r page).size = r.size := rfl
@[simp] theorem recordOf_prot : (recordOf r page).prot = r.prot := rfl
@[simp] theorem recordOf_pageData : (recordOf r page).pageData = page := rfl

end RecordOf

/-- The records of the committed regions, in order. -/
def savedRecords (pages : Region → List Byte) (regions : List Region) : List SerializedRegion :=
  (regions.filter fun r => r.committed).map fun r => recordOf r (pages r)

/-- The pages of a committed region are all of it, and it does not start at the null
pointer. -/
def HasPages (pages : Region → List Byte) (r : Region) : Prop :=
  (pages r).length = r.size.toNat ∧ r.base ≠ 0

section MemoryMap

variable {alloc : ℕ → Bool} {pages : Region → List Byte} {regions : List Region}

theorem page_eq_nil {r : Region} {page : List Byte} (hpage : page.length = r.size.toNat)
    (h : ¬ 0 < r.size) : page = [] := by
  have hzero : (0 : U64).toNat = 0 := rfl
  rw [BitVec.lt_def, hzero] at h
  exact List.eq_nil_of_length_eq_zero (by omega)

theorem reads_readPageData {r : Region} {page : List Byte} (hpage : page.length = r.size.toNat) :
    Reads (2 ^ 64) (readPageData r.size) page page := by
  unfold readPageData
  by_cases hpos : 0 < r.size
  · rw [if_pos hpos, ← hpage]
    exact reads_read page
  · rw [if_neg hpos, page_eq_nil hpage hpos]
    exact reads_pure []

theorem local_readPageData (sz : U64) : Local (2 ^ 64) (readPageData sz) := by
  unfold readPageData
  split_ifs
  · exact local_read _
  · exact local_pure _

theorem reads_readRegion {r : Region} {page : List Byte} (hpage : page.length = r.size.toNat)
    (hmax : page.length < 2 ^ 63) (halloc : alloc page.length = true) :
    Reads (2 ^ 64) (readRegion alloc) (serializeRegion r page) (recordOf r page) := by
  have hdata := reads_readPageData hpage
  rw [hpage] at hmax halloc
  have hrecord : serializeRegion r page = writeT r.base ++ (writeT r.size ++ (writeT r.prot ++
      (writeT r.type ++ (writeStr r.tag ++ ([] ++ (page ++ [])))))) := by
    simp only [serializeRegion, List.append_assoc, List.nil_append, List.append_nil]
  rw [hrecord]
  exact (reads_readT rfl r.base).bind <| (reads_readT rfl r.size).bind <|
    (reads_readT rfl r.prot).bind <| (reads_readT rfl r.type).bind <|
    (reads_readStr r.tag).bind <| (reads_newVector hmax halloc).bind <|
    hdata.bind <| reads_pure _

theorem local_readRegion (alloc : ℕ → Bool) : Local (2 ^ 64) (readRegion alloc) :=
  (local_readT 64).bind fun _ => (local_readT 64).bind fun sz => (local_readT 32).bind fun _ =>
    (local_readT 8).bind fun _ => local_readStr.bind fun _ =>
    (local_newVector alloc sz.toNat).bind fun _ => (local_readPageData sz).bind fun _ =>
    local_pure _

/-- What the allocator grants is no more than all. -/
theorem readRegion_of_alloc {c c' : Cursor} {record : SerializedRegion}
    (h : readRegion alloc c = .ok (record, c')) :
    readRegion (fun _ => true) c = .ok (record, c') := by
  have hvector : ∀ {n c c'}, newVector alloc n c = .ok ((), c') →
      newVector (fun _ => true) n c = .ok ((), c') := by
    intro n c c' h
    unfold newVector at h ⊢
    split_ifs at h with hmax
    rw [if_neg hmax, if_pos rfl]
    exact h
  simp only [readRegion, bind_eq_ok] at h ⊢
  obtain ⟨base, c₁, h₁, sz, c₂, h₂, prot, c₃, h₃, type, c₄, h₄, tag, c₅, h₅, u, c₆, h₆, hrest⟩ := h
  exact ⟨base, c₁, h₁, sz, c₂, h₂, prot, c₃, h₃, type, c₄, h₄, tag, c₅, h₅, u, c₆, hvector h₆,
    hrest⟩

/-- The committed regions, one record after the other. -/
theorem serializeRegions_eq (hpages : ∀ r ∈ regions, r.committed = true → HasPages pages r) :
    serializeRegions (fun r => .ok (pages r)) regions =
      .ok ((regions.filter fun r => r.committed).flatMap fun r => serializeRegion r (pages r)) := by
  induction regions with
  | nil => rfl
  | cons r rs ih =>
      have hrest := ih fun r' hr' => hpages r' (List.mem_cons_of_mem r hr')
      cases hc : r.committed with
      | false =>
          rw [serializeRegions, if_neg (by simp [hc]), hrest,
            List.filter_cons_of_neg (by simp [hc])]
      | true =>
          obtain ⟨hlen, hbase⟩ := hpages r List.mem_cons_self hc
          have hpage : writePageData (fun r => .ok (pages r)) r = .ok (pages r) := by
            unfold writePageData
            split_ifs with hpos
            · rfl
            · rw [page_eq_nil hlen fun h => hpos ⟨h, hbase⟩]
          rw [serializeRegions, if_pos hc, hpage, hrest, List.filter_cons_of_pos hc,
            List.flatMap_cons]
          rfl

end MemoryMap

section Deserialize

variable {σ : Type} {alloc : ℕ → Bool} {restore : σ → SerializedRegion → Except HostAbort σ}
  {pages : Region → List Byte}

/-- **The loop over the records** meets every record that was written, in order, and
stops behind the last one. -/
theorem deserializeRegions_flatMap (restore : σ → SerializedRegion → Except HostAbort σ)
    {rs : List Region}
    (hrs : ∀ r ∈ rs, (pages r).length = r.size.toNat ∧ (pages r).length < 2 ^ 63 ∧
      alloc (pages r).length = true)
    (pre post : List Byte) (s : σ)
    (hlen : (pre ++ ((rs.flatMap fun r => serializeRegion r (pages r)) ++ post)).length < 2 ^ 64) :
    deserializeRegions alloc restore rs.length
        ⟨pre ++ ((rs.flatMap fun r => serializeRegion r (pages r)) ++ post), pre.length⟩ s =
      ((rs.map fun r => recordOf r (pages r)).foldlM restore s).map fun s' =>
        (true, s', ⟨pre ++ ((rs.flatMap fun r => serializeRegion r (pages r)) ++ post),
          (pre ++ rs.flatMap fun r => serializeRegion r (pages r)).length⟩) := by
  induction rs generalizing pre s with
  | nil => simp [deserializeRegions, Except.map, pure, Except.pure]
  | cons r rs ih =>
      obtain ⟨hpage, hmax, halloc⟩ := hrs r List.mem_cons_self
      rw [List.flatMap_cons, List.append_assoc] at hlen ⊢
      rw [List.length_cons, deserializeRegions,
        reads_readRegion hpage hmax halloc pre _ hlen, List.map_cons, List.foldlM_cons]
      cases hs : restore s (recordOf r (pages r)) with
      | error e =>
          simp only [hs]
          rfl
      | ok s₁ =>
          simp only [hs]
          have hnext := ih (fun r' hr' => hrs r' (List.mem_cons_of_mem r hr'))
            (pre ++ serializeRegion r (pages r)) s₁ (by rwa [List.append_assoc])
          rw [List.append_assoc, List.append_assoc] at hnext
          exact hnext

/-- A loop that read all its records reads them off every longer blob as well. -/
theorem deserializeRegions_append {n : ℕ} {data more : List Byte} {o : ℕ} {s s' : σ} {c : Cursor}
    (hlen : (data ++ more).length < 2 ^ 64) (ho : o ≤ data.length)
    (h : deserializeRegions alloc restore n ⟨data, o⟩ s = .ok (true, s', c)) :
    deserializeRegions (fun _ => true) restore n ⟨data ++ more, o⟩ s =
      .ok (true, s', ⟨data ++ more, c.offset⟩) := by
  induction n generalizing o s with
  | zero =>
      cases h
      rfl
  | succ n ih =>
      rw [deserializeRegions] at h ⊢
      cases hread : readRegion alloc ⟨data, o⟩ with
      | error e =>
          cases e with
          | refused =>
              simp only [hread] at h
              cases h
          | abort e => simp only [hread, reduceCtorEq] at h
      | ok x =>
          obtain ⟨record, ⟨data', o'⟩⟩ := x
          obtain ⟨rfl, ho', hmore⟩ := local_readRegion alloc data more o record _ hlen ho hread
          simp only [hread] at h
          simp only [readRegion_of_alloc hmore]
          cases hs : restore s record with
          | error e => simp only [hs, reduceCtorEq] at h
          | ok s₁ =>
              simp only [hs] at h
              exact ih ho' h

theorem deserializeMemoryMap_append {data : List Byte} (more : List Byte) {s s' : σ} {c : Cursor}
    (hlen : (data ++ more).length < 2 ^ 64)
    (h : deserializeMemoryMap alloc restore ⟨data, 0⟩ s = .ok (true, s', c)) :
    deserializeMemoryMap (fun _ => true) restore ⟨data ++ more, 0⟩ s =
      .ok (true, s', ⟨data ++ more, c.offset⟩) := by
  unfold deserializeMemoryMap at h ⊢
  cases hread : readT 32 ⟨data, 0⟩ with
  | error e =>
      cases e with
      | refused =>
          simp only [hread] at h
          cases h
      | abort e => simp only [hread, reduceCtorEq] at h
  | ok x =>
      obtain ⟨count, ⟨data', o'⟩⟩ := x
      obtain ⟨rfl, ho', hmore⟩ := local_readT 32 data more 0 count _ hlen (Nat.zero_le _) hread
      simp only [hread] at h
      simp only [hmore]
      exact deserializeRegions_append hlen ho' h

theorem length_pages_le {rs : List Region} {r : Region} (hr : r ∈ rs) :
    (pages r).length ≤ (rs.flatMap fun r => serializeRegion r (pages r)).length := by
  have hsub := ((List.singleton_sublist.mpr hr).flatMap fun r =>
    serializeRegion r (pages r)).length_le
  rw [List.flatMap_singleton] at hsub
  have hpage : (pages r).length ≤ (serializeRegion r (pages r)).length := by
    rw [serializeRegion, List.length_append]
    exact Nat.le_add_left _ _
  exact hpage.trans hsub

theorem length_le_flatMap (pages : Region → List Byte) (rs : List Region) :
    rs.length ≤ (rs.flatMap fun r => serializeRegion r (pages r)).length := by
  induction rs with
  | nil => exact Nat.zero_le _
  | cons r rs ih =>
      have hpos : 1 ≤ (serializeRegion r (pages r)).length := by
        simp only [serializeRegion, writeT, List.length_append, length_toBytes]
        omega
      rw [List.flatMap_cons, List.length_append, List.length_cons]
      omega

variable {regions : List Region} {mem : List Byte}

theorem serializeMemoryMap_eq (hpages : ∀ r ∈ regions, r.committed = true → HasPages pages r)
    (hmem : serializeMemoryMap (fun r => .ok (pages r)) regions = .ok mem) :
    mem = writeT (BitVec.ofNat 32 (regions.filter fun r => r.committed).length) ++
      (regions.filter fun r => r.committed).flatMap fun r => serializeRegion r (pages r) := by
  rw [serializeMemoryMap, serializeRegions_eq hpages, List.countP_eq_length_filter] at hmem
  exact (Except.ok.inj hmem).symm

theorem length_lt_of_blob (hpages : ∀ r ∈ regions, r.committed = true → HasPages pages r)
    (hmem : serializeMemoryMap (fun r => .ok (pages r)) regions = .ok mem)
    (hlen : mem.length < 2 ^ 32) : (regions.filter fun r => r.committed).length < 2 ^ 32 := by
  have hle := length_le_flatMap pages (regions.filter fun r => r.committed)
  rw [serializeMemoryMap_eq hpages hmem, List.length_append] at hlen
  omega

/-- **The memory blob**, whatever is done with the records. -/
theorem deserializeMemoryMap_serialize (alloc : ℕ → Bool)
    (restore : σ → SerializedRegion → Except HostAbort σ)
    (hpages : ∀ r ∈ regions, r.committed = true → HasPages pages r)
    (hmem : serializeMemoryMap (fun r => .ok (pages r)) regions = .ok mem)
    (hcount : (regions.filter fun r => r.committed).length < 2 ^ 32) (hlen : mem.length < 2 ^ 63)
    (halloc : ∀ r ∈ regions, r.committed = true → alloc r.size.toNat = true) (s : σ) :
    deserializeMemoryMap alloc restore ⟨mem, 0⟩ s =
      ((savedRecords pages regions).foldlM restore s).map fun s' =>
        (true, s', ⟨mem, mem.length⟩) := by
  have hmem := serializeMemoryMap_eq hpages hmem
  set rs := regions.filter fun r => r.committed with hrs
  set body := rs.flatMap fun r => serializeRegion r (pages r) with hbody
  have hcountN : (BitVec.ofNat 32 rs.length).toNat = rs.length := by
    rw [BitVec.toNat_ofNat, Nat.mod_eq_of_lt hcount]
  have hread := reads_readT (w := 32) rfl (BitVec.ofNat 32 rs.length) [] body
    (by rw [List.nil_append, ← hmem]; omega)
  rw [List.nil_append, List.nil_append, ← hmem, List.length_nil] at hread
  have hstored : ∀ r ∈ rs, (pages r).length = r.size.toNat ∧ (pages r).length < 2 ^ 63 ∧
      alloc (pages r).length = true := by
    intro r hr
    obtain ⟨hmemr, hc⟩ := List.mem_filter.mp hr
    have hpage := (hpages r hmemr hc).1
    have hle : (pages r).length ≤ body.length := length_pages_le hr
    rw [hmem, List.length_append] at hlen
    exact ⟨hpage, by omega, by rw [hpage]; exact halloc r hmemr hc⟩
  have hloop := deserializeRegions_flatMap restore hstored
    (writeT (BitVec.ofNat 32 rs.length)) [] s (by rw [List.append_nil, ← hbody, ← hmem]; omega)
  rw [List.append_nil, ← hbody, ← hmem] at hloop
  rw [deserializeMemoryMap, hread]
  dsimp only
  rw [hcountN, hloop]
  rfl

end Deserialize

/-! ## The file -/

section File

variable {notes : SaveNotes} {cpu mem gpu : List Byte}

theorem pairwise_headerFields : headerFields.Pairwise DataField.Keeps := by
  simp only [headerFields, List.pairwise_cons, List.forall_mem_cons, List.not_mem_nil,
    false_imp_iff, implies_true, List.Pairwise.nil, and_true]
  refine ⟨⟨?_, ?_, ?_, ?_, ?_, ?_, ?_, ?_, ?_⟩, ⟨?_, ?_, ?_, ?_, ?_, ?_, ?_, ?_⟩,
    ⟨?_, ?_, ?_, ?_, ?_, ?_, ?_⟩, ⟨?_, ?_, ?_, ?_, ?_, ?_⟩, ⟨?_, ?_, ?_, ?_, ?_⟩,
    ⟨?_, ?_, ?_, ?_⟩, ⟨?_, ?_, ?_⟩, ⟨?_, ?_⟩, ?_⟩ <;> exact fun _ _ => rfl

/-- The header of a file that was just written is the header that was built. -/
theorem headerOf_buildFile :
    headerOf (buildFile notes cpu mem gpu) = buildHeader notes cpu mem gpu := by
  obtain ⟨h, hdec, hload⟩ := decodeInto_encodeFields (cpu ++ mem ++ gpu)
    (v := buildHeader notes cpu mem gpu) (s := {}) pairwise_headerFields
  rw [headerOf, buildFile, hdec]
  simp only [headerFields, List.forall_mem_cons] at hload
  obtain ⟨h1, h2, h3, h4, h5, h6, h7, h8, h9, h10, -⟩ := hload
  exact SaveStateHeader.ext (arrayField_load_inj h1) (wordField_load_inj h2)
    (arrayField_load_inj h3) (wordField_load_inj h4) (arrayField_load_inj h5)
    (arrayField_load_inj h6) (wordField_load_inj h7) (wordField_load_inj h8)
    (wordField_load_inj h9) (wordField_load_inj h10)

/-- The header is all in the first bytes. -/
theorem headerOf_take {fileData : List Byte} {n : ℕ} (hn : headerSize ≤ n) :
    headerOf (fileData.take n) = headerOf fileData := by
  have hsize : (headerFields.map DataField.size).sum ≤ n := hn
  exact decodeInto_take hsize

theorem length_header (h : SaveStateHeader) :
    (encodeFields headerFields h).length = headerSize := by
  rw [length_encodeFields]
  rfl

theorem drop_header (n : ℕ) :
    (buildFile notes cpu mem gpu).drop (headerSize + n) = (cpu ++ mem ++ gpu).drop n := by
  rw [← List.drop_drop, buildFile, List.drop_left' (length_header _)]

/-- **The checks pass** on a file that was just written. -/
theorem validate_buildFile (notes : SaveNotes) {cpu mem gpu : List Byte}
    (hcpu : cpu.length < 2 ^ 32) (hmem : mem.length < 2 ^ 32) (hgpu : gpu.length < 2 ^ 32) :
    validate (buildFile notes cpu mem gpu) = .ok ⟨cpu, mem, gpu⟩ := by
  have hlen : (buildFile notes cpu mem gpu).length =
      headerSize + (cpu.length + mem.length + gpu.length) := by
    rw [buildFile, List.length_append, length_header, List.length_append, List.length_append]
  have hpayload : ((buildFile notes cpu mem gpu).drop headerSize).take
      (cpu.length + mem.length + gpu.length) = cpu ++ mem ++ gpu := by
    rw [← Nat.add_zero headerSize, drop_header, List.drop_zero]
    exact List.take_of_length_le (by simp only [List.length_append]; exact le_rfl)
  have hcpu' : ((buildFile notes cpu mem gpu).drop headerSize).take cpu.length = cpu := by
    rw [← Nat.add_zero headerSize, drop_header, List.drop_zero, List.append_assoc, List.take_left]
  have hmem' : ((buildFile notes cpu mem gpu).drop (headerSize + cpu.length)).take mem.length =
      mem := by
    rw [drop_header, List.append_assoc, List.drop_left, List.take_left]
  have hgpu' : ((buildFile notes cpu mem gpu).drop
      (headerSize + cpu.length + mem.length)).take gpu.length = gpu := by
    rw [Nat.add_assoc, drop_header, ← List.length_append, List.drop_left, List.take_length]
  have hsize : ∀ n, n < 2 ^ 32 → (BitVec.ofNat 32 n).toNat = n := fun n hn => by
    rw [BitVec.toNat_ofNat, Nat.mod_eq_of_lt hn]
  unfold validate
  dsimp only
  rw [headerOf_buildFile]
  simp only [buildHeader, hsize _ hcpu, hsize _ hmem, hsize _ hgpu, hlen, hpayload, hcpu', hmem',
    hgpu']
  rw [if_neg (by omega), if_neg (by simp), if_neg (by simp), if_neg (by omega), if_neg (by simp)]

/-- Behind the checks the CPU blob is the one written, and the memory blob as much of it as
its 32-bit size says. -/
theorem blobs_of_validate_buildFile {blobs : Blobs} (hcpu : cpu.length < 2 ^ 32)
    (h : validate (buildFile notes cpu mem gpu) = .ok blobs) :
    blobs.cpu = cpu ∧ blobs.mem = mem.take (mem.length % 2 ^ 32) := by
  unfold validate at h
  dsimp only at h
  rw [headerOf_buildFile] at h
  have hsize : (BitVec.ofNat 32 cpu.length).toNat = cpu.length := by
    rw [BitVec.toNat_ofNat, Nat.mod_eq_of_lt hcpu]
  simp only [buildHeader, hsize, BitVec.toNat_ofNat] at h
  split_ifs at h
  cases h
  constructor
  · rw [← Nat.add_zero headerSize, drop_header, List.drop_zero, List.append_assoc, List.take_left]
  · dsimp only
    rw [drop_header, List.append_assoc, List.drop_left,
      List.take_append_of_le_length (Nat.mod_le _ _)]

end File

/-! ## The whole file -/

/-- The committed regions as records: attributes, tag and pages. -/
def committedRecords (pages : Region → List Byte) (regions : List Region) :
    List SerializedRegion :=
  (regions.filter fun r => r.committed).map fun r =>
    ⟨r.base, r.size, r.prot, r.type, r.tag, pages r⟩

/-- The bytes `Save` writes pass every check of `Load`, and the three deserialisers take
off them what was saved, up to the last byte of each blob.  What is done with the
records on the way is left open. -/
def RoundTrips (alloc : ℕ → Bool) (notes : SaveNotes) (ctx : CpuContext) (regions : List Region)
    (pages : Region → List Byte) (gpu : GpuStats) : Prop :=
  ∃ mem blobs, serializeMemoryMap (fun r => .ok (pages r)) regions = .ok mem ∧
    validate (buildFile notes (serializeCpuContext ctx) mem (serializeGpuState gpu)) = .ok blobs ∧
    (∀ live, deserializeCpuContext ⟨blobs.cpu, 0⟩ live =
      .ok (true, ctx, ⟨blobs.cpu, blobs.cpu.length⟩)) ∧
    (∀ (σ : Type) (restore : σ → SerializedRegion → Except HostAbort σ) (s : σ),
      deserializeMemoryMap alloc restore ⟨blobs.mem, 0⟩ s =
        ((committedRecords pages regions).foldlM restore s).map fun s' =>
          (true, s', ⟨blobs.mem, blobs.mem.length⟩)) ∧
    deserializeGpuState ⟨blobs.gpu, 0⟩ = .ok (true, gpu, ⟨blobs.gpu, blobs.gpu.length⟩)

section RoundTrip

variable {alloc : ℕ → Bool} {pages : Region → List Byte} {regions : List Region}

theorem savedRecords_eq (htags : ∀ r ∈ regions, r.committed = true → r.tag.length < 2 ^ 32) :
    savedRecords pages regions = committedRecords pages regions := by
  refine List.map_congr_left fun r hr => ?_
  obtain ⟨hmem, hc⟩ := List.mem_filter.mp hr
  rw [recordOf, storedStr_eq (htags r hmem hc)]

/-- **Round trip.**  Every machine whose tags and whose memory blob fit 32-bit lengths is
read back from the file `Save` writes. -/
theorem roundTrips (alloc : ℕ → Bool) (notes : SaveNotes) (ctx : CpuContext) (gpu : GpuStats)
    (hpages : ∀ r ∈ regions, r.committed = true → HasPages pages r)
    (htags : ∀ r ∈ regions, r.committed = true → r.tag.length < 2 ^ 32)
    (hblob : ∀ mem, serializeMemoryMap (fun r => .ok (pages r)) regions = .ok mem →
      mem.length < 2 ^ 32)
    (halloc : ∀ r ∈ regions, r.committed = true → alloc r.size.toNat = true) :
    RoundTrips alloc notes ctx regions pages gpu := by
  obtain ⟨mem, hmem⟩ : ∃ mem, serializeMemoryMap (fun r => .ok (pages r)) regions = .ok mem := by
    rw [serializeMemoryMap, serializeRegions_eq hpages]
    exact ⟨_, rfl⟩
  have hlen := hblob mem hmem
  have hcpu := length_serializeCpuContext_lt ctx
  have hgpu := length_serializeGpuState_lt gpu
  refine ⟨mem, _, hmem, validate_buildFile notes hcpu hlen hgpu,
    deserializeCpuContext_serialize ctx, fun σ restore s => ?_, deserializeGpuState_serialize gpu⟩
  rw [← savedRecords_eq htags]
  exact deserializeMemoryMap_serialize alloc restore hpages hmem
    (length_lt_of_blob hpages hmem hlen) (by omega) halloc s

end RoundTrip

/-- The round trip of a region of two bytes. -/
theorem roundTrips_twoBytes :
    RoundTrips (fun _ => true) {} {} [⟨0x400000, 2, Prot.RW, AllocType.Data, [0x61, 0x62], true⟩]
      (fun _ => [1, 2]) {} := by
  refine roundTrips _ _ _ _ ?_ ?_ ?_ ?_
  · simp [HasPages]
  · simp
  · intro mem hmem
    cases hmem
    decide
  · simp

/-- A region is read back with the part of its tag that a 32-bit length leaves. -/
theorem storedStr_of_roundTrips {notes : SaveNotes} {ctx : CpuContext} {r : Region}
    {pages : Region → List Byte} {gpu : GpuStats} (hc : r.committed = true)
    (hr : HasPages pages r)
    (hblob : ∀ mem, serializeMemoryMap (fun r => .ok (pages r)) [r] = .ok mem →
      mem.length < 2 ^ 32)
    (h : RoundTrips (fun _ => true) notes ctx [r] pages gpu) : storedStr r.tag = r.tag := by
  obtain ⟨mem, blobs, hmem, hvalid, -, hrecords, -⟩ := h
  have hpages : ∀ r' ∈ [r], r'.committed = true → HasPages pages r' := by
    intro r' hr' _
    rwa [List.mem_singleton.mp hr']
  have hlen := hblob mem hmem
  have hcpu := length_serializeCpuContext_lt ctx
  have hgpu := length_serializeGpuState_lt gpu
  have hblobs := validate_buildFile notes hcpu hlen hgpu
  rw [hblobs] at hvalid
  cases hvalid
  -- Keep the records: the one read has the stored tag, the one saved the whole tag.
  have hread := deserializeMemoryMap_serialize (fun _ => true)
    (fun l record => .ok (l ++ [record])) hpages hmem
    (length_lt_of_blob hpages hmem hlen) (by omega) (fun _ _ _ => rfl) []
  have hfilter : ([r].filter fun r => r.committed) = [r] := by simp [hc]
  rw [hrecords] at hread
  simp only [committedRecords, savedRecords, hfilter, List.map_cons, List.map_nil] at hread
  have htags := congrArg (fun x : Bool × List SerializedRegion × BlobReader =>
    x.2.1.map SerializedRegion.tag) (Except.ok.inj hread)
  exact (List.cons.inj htags).1.symm

/-- A committed region of no bytes under a tag of `2 ^ 32` bytes. -/
def longTagRegion : Region :=
  { base := PAGE_SIZE, tag := List.replicate (2 ^ 32) 0, committed := true }

theorem length_longTag : longTagRegion.tag.length = 2 ^ 32 := List.length_replicate

theorem writeStr_longTag : writeStr longTagRegion.tag = writeT (0 : U32) := by
  have hzero : BitVec.ofNat 32 (2 ^ 32) = 0 := by decide
  simp only [writeStr, length_longTag, hzero]
  rfl

/-- **A tag of `2 ^ 32` bytes is lost**: its length is cast to zero, and the record comes
back with an empty tag although every blob is short. -/
theorem not_roundTrips_longTag :
    HasPages (fun _ => []) longTagRegion ∧
      (∀ mem, serializeMemoryMap (fun _ => .ok []) [longTagRegion] = .ok mem →
        mem.length < 2 ^ 32) ∧
      ¬ RoundTrips (fun _ => true) {} {} [longTagRegion] (fun _ => []) {} := by
  have hpages : HasPages (fun _ => []) longTagRegion := ⟨rfl, by decide⟩
  have hblob : ∀ mem, serializeMemoryMap (fun _ => .ok []) [longTagRegion] = .ok mem →
      mem.length < 2 ^ 32 := by
    intro mem hmem
    have hall : ∀ r ∈ [longTagRegion], r.committed = true → HasPages (fun _ => []) r := by
      intro r hr _
      rwa [List.mem_singleton.mp hr]
    have hfilter : ([longTagRegion].filter fun r => r.committed) = [longTagRegion] := rfl
    rw [serializeMemoryMap_eq hall hmem, hfilter, List.flatMap_singleton, serializeRegion,
      writeStr_longTag]
    simp [writeT]
  refine ⟨hpages, hblob, fun h => ?_⟩
  have htag := storedStr_of_roundTrips rfl hpages hblob h
  rw [storedStr, length_longTag, Nat.mod_self, List.take_zero] at htag
  have hlen := length_longTag
  rw [← htag] at hlen
  norm_num at hlen

end SaveState
