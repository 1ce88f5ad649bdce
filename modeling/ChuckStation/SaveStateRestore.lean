/-
# What a load restores

Between a save and a load the machine goes on: registers change, memory is written, mapped,
protected and unmapped.  A load then goes over the saved records against whatever the
table and the system have become.  `InPlace` is what has to hold when it comes to a record;
`restored_iff` says that a load that returns `Ok` restores the machine exactly if it holds
for every record.
-/
import ChuckStation.MemoryTable
import ChuckStation.OperationRuns
import ChuckStation.SaveStateLoad
import ChuckStation.SaveStateRoundTrip

namespace SaveState

open BinaryFormats Memory OperationRuns
open Cpu (CpuContext)

/-! ## Runs of the machine -/

/-- What happens to a machine that runs. -/
inductive Op where
  | setContext (ctx : CpuContext)
  | store (addr : U64) (bytes : List Byte)
  | memory (c : Call)

/-- A store to memory that is not writable leaves no machine to go on with; it is left
out. -/
def Machine.step (os : Os) (m : Machine) : Op → Machine
  | .setContext ctx => { m with ctx := ctx }
  | .store addr bytes =>
    if m.mem.host.allows canWrite addr bytes.length then
      { m with mem := { m.mem with host := { m.mem.host with
          bytes := ByteStore.write m.mem.host.bytes addr bytes } } }
    else m
  | .memory c => { m with mem := m.mem.call os c }

def Machine.run (os : Os) (m : Machine) (ops : List Op) : Machine := ops.foldl (Machine.step os) m

theorem run_memory (os : Os) (m : Machine) (c : Call) :
    m.run os [.memory c] = { m with mem := m.mem.call os c } := rfl

theorem soundTable_step {os : Os} (hos : os.Conforms) {m : Machine}
    (h : SoundTable m.mem.st.regions) (op : Op) : SoundTable (m.step os op).mem.st.regions := by
  cases op with
  | setContext ctx => exact h
  | store addr bytes =>
      rw [Machine.step]
      split_ifs
      · exact h
      · exact h
  | memory c => exact h.call hos c

theorem soundTable_run {os : Os} (hos : os.Conforms) {m : Machine}
    (h : SoundTable m.mem.st.regions) (ops : List Op) :
    SoundTable (m.run os ops).mem.st.regions := by
  induction ops generalizing m with
  | nil => exact h
  | cons op ops ih => exact ih (soundTable_step hos h op)

/-! ## The property and the condition -/

/-- A saved region is back: it is in the table with its base, size and protection, its
addresses are mapped with that protection, and they hold what they held. -/
structure RegionRestored (saved now : Process) (r : Region) : Prop where
  listed : ∃ r' ∈ now.st.regions, r'.base = r.base ∧ r'.size = r.size ∧ r'.prot = r.prot ∧
    r'.committed = true
  mapped : now.host.MappedWith r.base r.size.toNat (protToMmap r.prot)
  contents : ByteStore.read now.host.bytes r.base r.size.toNat =
    ByteStore.read saved.host.bytes r.base r.size.toNat

/-- The machine is back: the CPU context, and every region that was committed. -/
def Restored (saved now : Machine) : Prop :=
  now.ctx = saved.ctx ∧
    ∀ r ∈ saved.mem.st.regions, r.committed = true → RegionRestored saved.mem now.mem r

/-- When the loop comes to a record, either a region covers its base, and then the table
has a region with the record's base, size and protection and its addresses are mapped so;
or none does, and the system maps the record at its base. -/
def InPlace (os : Os) (p : Process) (record : SerializedRegion) : Prop :=
  match findRegion p record.base with
  | some _ =>
    (∃ r' ∈ p.st.regions, r'.base = record.base ∧ r'.size = record.size ∧
      r'.prot = record.prot ∧ r'.committed = true) ∧
    p.host.MappedWith record.base record.size.toNat (protToMmap record.prot)
  | none => placement os p record = some record.base

/-- What the committed regions hold. -/
def heldPages (p : Process) (r : Region) : List Byte :=
  ByteStore.read p.host.bytes r.base r.size.toNat

theorem length_heldPages (p : Process) (r : Region) : (heldPages p r).length = r.size.toNat :=
  ByteStore.length_read _ _ _

/-- The committed regions, as records. -/
def heldRecords (p : Process) : List SerializedRegion := savedRecords (heldPages p) p.st.regions

/-! ## One record -/

section Record

variable {os : Os} {p q saved : Process} {r r₂ : Region} {record : SerializedRegion}

theorem mappedWith_iff {h : Host} {base : U64} {n : ℕ} {prot : Prot} (hn : n ≤ 2 ^ 64) :
    h.MappedWith base n prot ↔ ∀ a, (a - base).toNat < n → h.prot a = some prot := by
  constructor
  · intro hmapped a ha
    have := hmapped _ ha
    rwa [ByteStore.add_ofNat_toNat_sub] at this
  · intro hall i hi
    refine hall _ ?_
    rwa [ByteStore.toNat_add_ofNat_sub base i (by omega)]

/-- Restoring a record never maps over what is mapped. -/
theorem prot_of_restores (hos : os.Conforms) (h : Restores os p record q) {a : U64}
    (ha : p.host.prot a ≠ none) : q.host.prot a = p.host.prot a := by
  cases h with
  | overwritten _ _ _ hprot _ _ => rw [hprot]
  | skipped _ _ _ hprot _ => rw [hprot]
  | placed base _ hplace _ hprot _ =>
      rw [hprot]
      exact Host.mapZero_prot_of_mapped (hos.fresh _ _ _ _ _ _ hplace) ha

theorem mem_regions_of_restores (h : Restores os p record q) (hr : r ∈ p.st.regions) :
    r ∈ q.st.regions := by
  cases h with
  | overwritten _ _ hregions _ _ _ => rwa [hregions]
  | skipped _ _ hregions _ _ => rwa [hregions]
  | placed _ _ _ hregions _ _ =>
      rw [hregions]
      exact List.mem_append_left _ hr

/-- The pages of a sound region, laid over memory. -/
theorem pagesOver_held (hr : r.Sound) (bytes : U64 → Byte) (a : U64) :
    pagesOver (recordOf r (heldPages saved r)) r.base bytes a =
      if (a - r.base).toNat < r.size.toNat then saved.host.bytes a else bytes a := by
  have hpages : 0 < (recordOf r (heldPages saved r)).size ∧ r.base ≠ 0 :=
    ⟨hr.size_pos, hr.base_ne⟩
  rw [pagesOver, if_pos hpages]
  exact ByteStore.write_read_apply _ _ _ _ _

/-- **A record in place** puts its own bytes and no others, and its region is listed and
mapped. -/
theorem restores_inPlace (hr : r.Sound)
    (hin : InPlace os p (recordOf r (heldPages saved r)))
    (h : Restores os p (recordOf r (heldPages saved r)) q) :
    (∀ a, q.host.bytes a =
      if (a - r.base).toNat < r.size.toNat then saved.host.bytes a else p.host.bytes a) ∧
    RegionRestored saved q r := by
  have hbytes : ∀ a, q.host.bytes a =
      if (a - r.base).toNat < r.size.toNat then saved.host.bytes a else p.host.bytes a := by
    intro a
    cases h with
    | overwritten _ _ _ _ hbytes _ =>
        rw [hbytes]
        exact pagesOver_held hr _ _
    | skipped hfind hplace _ _ _ =>
        rw [InPlace, hfind] at hin
        exact absurd (hplace.symm.trans hin) (by simp)
    | placed base hfind hplace _ _ hbytes =>
        rw [InPlace, hfind] at hin
        have hbase : base = r.base := Option.some.inj (hplace.symm.trans hin)
        rw [hbytes, hbase, pagesOver_held hr]
        -- Outside of the region the new mapping has no bytes of its own either.
        split_ifs with ha
        · rfl
        · refine ByteStore.write_apply_of_le _ _ _ _ ?_
          rw [List.length_replicate]
          change (alignUp r.size PAGE_SIZE).toNat ≤ _
          rw [hr.aligned]
          omega
  have hsize : r.size.toNat ≤ 2 ^ 64 := r.size.isLt.le
  refine ⟨hbytes, ?_, ?_, ?_⟩
  · cases h with
    | overwritten r' hfind hregions _ _ _ =>
        rw [InPlace, hfind] at hin
        rw [hregions]
        exact hin.1
    | skipped hfind hplace _ _ _ =>
        rw [InPlace, hfind] at hin
        exact absurd (hplace.symm.trans hin) (by simp)
    | placed base hfind hplace hregions _ _ =>
        rw [InPlace, hfind] at hin
        have hbase : base = r.base := Option.some.inj (hplace.symm.trans hin)
        rw [hregions]
        exact ⟨_, List.mem_append_right _ List.mem_cons_self, hbase, hr.aligned, rfl, rfl⟩
  · cases h with
    | overwritten r' hfind _ hprot _ _ =>
        rw [InPlace, hfind] at hin
        intro i hi
        rw [hprot]
        exact hin.2 i hi
    | skipped hfind hplace _ _ _ =>
        rw [InPlace, hfind] at hin
        exact absurd (hplace.symm.trans hin) (by simp)
    | placed base hfind hplace _ hprot _ =>
        rw [InPlace, hfind] at hin
        have hbase : base = r.base := Option.some.inj (hplace.symm.trans hin)
        refine (mappedWith_iff hsize).mpr fun a ha => ?_
        have hin' : (a - base).toNat < (alignUp r.size PAGE_SIZE).toNat := by
          rwa [hbase, hr.aligned]
        rw [hprot]
        exact if_pos hin'
  · refine (ByteStore.read_eq_read_iff _ _ _ hsize).mpr fun a ha => ?_
    rw [hbytes, if_pos ha]

/-- A record in place leaves the regions alone that are back already. -/
theorem RegionRestored.of_restores (hos : os.Conforms) (hr : r.Sound)
    (hin : InPlace os p (recordOf r (heldPages saved r)))
    (h : Restores os p (recordOf r (heldPages saved r)) q)
    (hback : RegionRestored saved p r₂) : RegionRestored saved q r₂ := by
  have hsize : r₂.size.toNat ≤ 2 ^ 64 := r₂.size.isLt.le
  obtain ⟨r', hr', hattr⟩ := hback.listed
  have hmapped := (mappedWith_iff hsize).mp hback.mapped
  have hcontents := (ByteStore.read_eq_read_iff _ _ _ hsize).mp hback.contents
  refine ⟨⟨r', mem_regions_of_restores h hr', hattr⟩, (mappedWith_iff hsize).mpr fun a ha => ?_,
    (ByteStore.read_eq_read_iff _ _ _ hsize).mpr fun a ha => ?_⟩
  · rw [prot_of_restores hos h (by rw [hmapped a ha]; simp), hmapped a ha]
  · rw [(restores_inPlace hr hin h).1, hcontents a ha]
    split_ifs
    · rfl
    · rfl

end Record

/-! ## All records -/

section Records

variable {os : Os} {p q saved : Process} {rs : List Region}

/-- **A run in place restores every region.** -/
theorem restored_of_inPlace (hos : os.Conforms) (hrs : ∀ r ∈ rs, r.Sound)
    (hall : AllReached (restoreRegion os) (InPlace os) p
      (rs.map fun r => recordOf r (heldPages saved r)))
    (hrun : (rs.map fun r => recordOf r (heldPages saved r)).foldlM (restoreRegion os) p = .ok q) :
    (∀ r ∈ rs, RegionRestored saved q r) ∧
      ∀ r₂, RegionRestored saved p r₂ → RegionRestored saved q r₂ := by
  induction rs generalizing p with
  | nil =>
      cases hrun
      exact ⟨by simp, fun _ h => h⟩
  | cons r rs ih =>
      obtain ⟨t, ht, hrest⟩ := foldlM_cons_eq_ok hrun
      have hr := hrs r List.mem_cons_self
      have hstep := restores_of_restoreRegion ht
      obtain ⟨hlater, hkeep⟩ := ih (fun r' hr' => hrs r' (List.mem_cons_of_mem r hr'))
        (hall.2 t ht) hrest
      have hback : RegionRestored saved t r := (restores_inPlace hr hall.1 hstep).2
      refine ⟨fun r' hr' => ?_, fun r₂ h₂ => ?_⟩
      · rcases List.mem_cons.mp hr' with rfl | hr'
        · exact hkeep _ hback
        · exact hlater r' hr'
      · exact hkeep r₂ (h₂.of_restores hos hr hall.1 hstep)

/-- A run maps over nothing that was mapped. -/
theorem prot_of_run {records : List SerializedRegion} (hos : os.Conforms)
    (hrun : records.foldlM (restoreRegion os) p = .ok q) {a : U64} (ha : p.host.prot a ≠ none) :
    q.host.prot a = p.host.prot a := by
  induction records generalizing p with
  | nil =>
      cases hrun
      rfl
  | cons record records ih =>
      obtain ⟨t, ht, hrest⟩ := foldlM_cons_eq_ok hrun
      have hstep := prot_of_restores hos (restores_of_restoreRegion ht) ha
      rw [ih hrest (by rwa [hstep]), hstep]

/-- **A run that restores every region was in place**, if no two of them have one base.
The induction also needs that the run lists no region at another base. -/
theorem inPlace_of_restored (hos : os.Conforms) (hp : SoundTable p.st.regions)
    (hrs : ∀ r ∈ rs, r.Sound) (hbases : (rs.map Region.base).Nodup)
    (hrun : (rs.map fun r => recordOf r (heldPages saved r)).foldlM (restoreRegion os) p = .ok q)
    (hback : ∀ r ∈ rs, RegionRestored saved q r) :
    AllReached (restoreRegion os) (InPlace os) p (rs.map fun r => recordOf r (heldPages saved r)) ∧
      ∀ x ∈ q.st.regions, x ∈ p.st.regions ∨ x.base ∈ rs.map Region.base := by
  induction rs generalizing p with
  | nil =>
      cases hrun
      exact ⟨trivial, fun x hx => .inl hx⟩
  | cons r rs ih =>
      obtain ⟨t, ht, hrest⟩ := foldlM_cons_eq_ok hrun
      obtain ⟨hnew, hbases'⟩ := List.nodup_cons.mp hbases
      have hr := hrs r List.mem_cons_self
      have hstep := restores_of_restoreRegion ht
      have htable : SoundTable t.st.regions := by
        cases hstep with
        | overwritten _ _ hregions _ _ _ => rwa [hregions]
        | skipped _ _ hregions _ _ => rwa [hregions]
        | placed base _ hplace hregions _ _ =>
            rw [hregions]
            exact hp.append (sound_of_mmap hos hplace rfl rfl)
      obtain ⟨hall, hgrown⟩ := ih htable (fun r' hr' => hrs r' (List.mem_cons_of_mem r hr'))
        hbases' hrest fun r' hr' => hback r' (List.mem_cons_of_mem r hr')
      have hrback := hback r List.mem_cons_self
      -- No later record lists a region at this base, so it is listed right after this step.
      obtain ⟨x, hx, hxbase, hxattr⟩ := hrback.listed
      have hxt : x ∈ t.st.regions := by
        rcases hgrown x hx with hxt | hxrs
        · exact hxt
        · rw [hxbase] at hxrs
          exact absurd hxrs hnew
      have hnot : findRegion p r.base = none → x ∉ p.st.regions := by
        intro hfind hxp
        have hcovers := (hp x hxp).covers_base
        rw [hxbase] at hcovers
        exact List.find?_eq_none.mp hfind x hxp hcovers
      have hhere : InPlace os p (recordOf r (heldPages saved r)) ∧
          ∀ y ∈ t.st.regions, y ∈ p.st.regions ∨ y.base = r.base := by
        unfold InPlace
        cases hstep with
        | overwritten r' hfind hregions hprot _ hallow =>
            rw [hfind]
            rw [hregions] at hxt
            refine ⟨⟨⟨x, hxt, hxbase, hxattr⟩, ?_⟩, fun y hy => .inl (by rwa [hregions] at hy)⟩
            -- The pages were copied here, so the addresses were mapped before the run went on.
            intro i hi
            obtain ⟨prot, hmapped, -⟩ := hallow hr.size_pos hr.base_ne i
              (by simpa [recordOf, heldPages] using hi)
            have hsame := prot_of_run hos hrun (Option.ne_none_iff_exists'.mpr ⟨prot, hmapped⟩)
            exact hsame.symm.trans (hrback.mapped i hi)
        | skipped hfind _ hregions _ _ =>
            rw [hregions] at hxt
            exact absurd hxt (hnot hfind)
        | placed base hfind hplace hregions _ _ =>
            rw [hfind]
            rw [hregions] at hxt
            have hbase : base = r.base := by
              rcases List.mem_append.mp hxt with hxp | hxnew
              · exact absurd hxp (hnot hfind)
              · rw [List.mem_singleton.mp hxnew] at hxbase
                exact hxbase
            refine ⟨by rw [hplace, hbase]; rfl, fun y hy => ?_⟩
            rw [hregions] at hy
            rcases List.mem_append.mp hy with hyp | hynew
            · exact .inl hyp
            · rw [List.mem_singleton.mp hynew]
              exact .inr hbase
      refine ⟨⟨hhere.1, fun t' ht' => ?_⟩, fun y hy => ?_⟩
      · rw [ht] at ht'
        cases ht'
        exact hall
      · rcases hgrown y hy with hyt | hyrs
        · rcases hhere.2 y hyt with hyp | hybase
          · exact .inl hyp
          · exact .inr (by rw [hybase]; exact List.mem_cons_self)
        · exact .inr (List.mem_cons_of_mem _ hyrs)

end Records

/-! ## From the file to the records -/

section File

variable {os : Os} {alloc alloc' : ℕ → Bool} {initialised : Bool} {slot : ℤ} {notes : SaveNotes}
  {outcome : WriteOutcome} {file file' : SlotFile} {m m' : Machine} {mem : List Byte}

/-- What pages could be read are what the memory holds. -/
theorem serializeRegions_of_hostPages {p : Process} {regions : List Region} {bs : List Byte}
    (h : serializeRegions (hostPages os p.host) regions = .ok bs) :
    serializeRegions (fun r => .ok (heldPages p r)) regions = .ok bs := by
  induction regions generalizing bs with
  | nil => exact h
  | cons r rs ih =>
      rw [serializeRegions] at h ⊢
      split_ifs at h ⊢ with hc
      · have hpage : ∀ page, writePageData (hostPages os p.host) r = .ok page →
            writePageData (fun r => .ok (heldPages p r)) r = .ok page := by
          intro page hpage
          unfold writePageData hostPages at hpage
          unfold writePageData
          split_ifs at hpage ⊢ with hpos
          · exact hpage
          · exact hpage
        cases hpg : writePageData (hostPages os p.host) r with
        | error e =>
            rw [hpg] at h
            cases h
        | ok page =>
            cases hrest : serializeRegions (hostPages os p.host) rs with
            | error e =>
                rw [hpg, hrest] at h
                cases h
            | ok rest =>
                rw [hpg, hrest] at h
                rw [hpage page hpg, ih hrest]
                exact h
      · exact ih h

theorem serializeMemoryMap_of_hostPages {p : Process}
    (h : serializeMemoryMap (hostPages os p.host) p.st.regions = .ok mem) :
    serializeMemoryMap (fun r => .ok (heldPages p r)) p.st.regions = .ok mem := by
  unfold serializeMemoryMap at h ⊢
  cases hrecords : serializeRegions (hostPages os p.host) p.st.regions with
  | error e =>
      rw [hrecords] at h
      cases h
  | ok records =>
      rw [hrecords] at h
      rw [serializeRegions_of_hostPages hrecords]
      exact h

theorem allocate_eq_ok {n : ℕ} (h : allocate alloc n = .ok ()) : n < 2 ^ 63 := by
  unfold allocate at h
  split_ifs at h with hmax
  omega

/-- A save that returned `Ok` wrote the file of a memory blob a vector can hold. -/
theorem save_eq_ok (h : save os alloc initialised slot notes outcome file m = .ok (.Ok, file')) :
    ∃ mem, serializeMemoryMap (fun r => .ok (heldPages m.mem r)) m.mem.st.regions = .ok mem ∧
      mem.length < 2 ^ 63 ∧
      file' = .bytes (buildFile notes (serializeCpuContext m.ctx) mem
        (serializeGpuState m.gpu)) := by
  unfold save at h
  by_cases hinit : initialised = false
  · rw [if_pos hinit] at h
    cases h
  rw [if_neg hinit] at h
  by_cases hslot : slot < 0 ∨ 9 < slot
  · rw [if_pos hslot] at h
    cases h
  rw [if_neg hslot] at h
  cases hmem : serializeMemoryMap (hostPages os m.mem.host) m.mem.st.regions with
  | error e =>
      rw [hmem] at h
      cases h
  | ok mem =>
      rw [hmem] at h
      cases halloc : allocate alloc ((serializeCpuContext m.ctx).length + mem.length +
          (serializeGpuState m.gpu).length) with
      | error e =>
          simp only [ok_bind, halloc] at h
          cases h
      | ok u =>
          have hlen := allocate_eq_ok halloc
          simp only [ok_bind, halloc] at h
          -- Only a write that completes is reported as `Ok`.
          refine ⟨mem, serializeMemoryMap_of_hostPages hmem, by omega, ?_⟩
          cases outcome with
          | refused => cases h
          | failedAfter n => cases h
          | complete =>
              cases h
              rfl

/-- A load that returned `Ok` came through all three deserialisers. -/
theorem restore_eq_ok {blobs : Blobs} (h : restore os alloc blobs m = .ok (.Ok, m')) :
    (∃ r, deserializeCpuContext ⟨blobs.cpu, 0⟩ m.ctx = .ok (true, m'.ctx, r)) ∧
      ∃ r, deserializeMemoryMap alloc (restoreRegion os) ⟨blobs.mem, 0⟩ m.mem =
        .ok (true, m'.mem, r) := by
  unfold restore at h
  split at h
  · cases h
  · cases h
  · split at h
    · cases h
    · cases h
    · split at h
      · cases h
      · cases h
      · cases h
        exact ⟨⟨_, by assumption⟩, _, by assumption⟩

/-- **From file to records.**  A load that returned `Ok` of a file written by a save took
over the saved context and restored the saved records one after the other. -/
theorem foldlM_of_load {S T T' : Machine}
    (hsave : save os alloc initialised slot notes outcome file S = .ok (.Ok, file'))
    (hload : load os alloc' initialised file' T = .ok (.Ok, T'))
    (hsound : SoundTable S.mem.st.regions)
    (hcount : (S.mem.st.regions.filter fun r => r.committed).length < 2 ^ 32) :
    T'.ctx = S.ctx ∧ (heldRecords S.mem).foldlM (restoreRegion os) T.mem = .ok T'.mem := by
  obtain ⟨mem, hmem, hlen, rfl⟩ := save_eq_ok hsave
  rcases load_cases hload with ⟨hne, -, -⟩ | ⟨fileData, blobs, hfile, -, hvalid, hrestore⟩
  · exact absurd rfl hne
  cases hfile
  obtain ⟨hcpu, hblob⟩ := blobs_of_validate_buildFile
    (length_serializeCpuContext_lt _) hvalid
  obtain ⟨⟨r, hctx⟩, r', hmap⟩ := restore_eq_ok hrestore
  rw [hcpu, deserializeCpuContext_serialize] at hctx
  rw [hblob] at hmap
  have hpages : ∀ r ∈ S.mem.st.regions, r.committed = true → HasPages (heldPages S.mem) r :=
    fun r hr _ => ⟨length_heldPages _ _, (hsound r hr).base_ne⟩
  -- The blob may have been cut; what was read off the rest would be read off all of it.
  have hwhole := deserializeMemoryMap_append (mem.drop (mem.length % 2 ^ 32))
    (by rw [List.take_append_drop]; omega) hmap
  rw [List.take_append_drop, deserializeMemoryMap_serialize _ _ hpages hmem hcount hlen
    (fun _ _ _ => rfl)] at hwhole
  simp only [Except.ok.injEq, Prod.mk.injEq, true_and] at hctx
  refine ⟨hctx.1.symm, ?_⟩
  unfold heldRecords
  cases hfold : (savedRecords (heldPages S.mem) S.mem.st.regions).foldlM (restoreRegion os)
      T.mem with
  | error e =>
      rw [hfold] at hwhole
      cases hwhole
  | ok p =>
      rw [hfold] at hwhole
      simp only [Except.map, Except.ok.injEq, Prod.mk.injEq, true_and] at hwhole
      rw [hwhole.1]

/-- A machine whose committed regions can be read is saved. -/
theorem save_of_readable {S : Machine}
    (hread : ∀ r ∈ S.mem.st.regions, r.committed = true →
      S.mem.host.allows os.canRead r.base r.size.toNat)
    (hmem : serializeMemoryMap (fun r => .ok (heldPages S.mem r)) S.mem.st.regions = .ok mem)
    (hlen : mem.length < 2 ^ 32) :
    save os (fun _ => true) true 0 notes .complete file S =
      .ok (.Ok, .bytes (buildFile notes (serializeCpuContext S.ctx) mem
        (serializeGpuState S.gpu))) := by
  have hrecords : ∀ rs : List Region,
      (∀ r ∈ rs, r.committed = true → S.mem.host.allows os.canRead r.base r.size.toNat) →
      serializeRegions (hostPages os S.mem.host) rs =
        serializeRegions (fun r => .ok (heldPages S.mem r)) rs := by
    intro rs hrs
    induction rs with
    | nil => rfl
    | cons r rs ih =>
        rw [serializeRegions, serializeRegions,
          ih fun r' hr' => hrs r' (List.mem_cons_of_mem r hr')]
        split_ifs with hc
        · have hpages : hostPages os S.mem.host r = .ok (heldPages S.mem r) :=
            if_pos (hrs r List.mem_cons_self hc)
          rw [writePageData, writePageData, hpages]
        · rfl
  have hsame : serializeMemoryMap (hostPages os S.mem.host) S.mem.st.regions = .ok mem := by
    rw [← hmem]
    unfold serializeMemoryMap
    rw [hrecords _ hread]
  have halloc : allocate (fun _ => true) ((serializeCpuContext S.ctx).length + mem.length +
      (serializeGpuState S.gpu).length) = .ok () := by
    rw [allocate, length_serializeCpuContext, length_serializeGpuState, if_neg (by omega),
      if_pos rfl]
  unfold save
  simp only [hsame, ok_bind, halloc]
  rfl

/-- A load goes through if the records can be restored one after the other. -/
theorem load_of_foldlM {S T : Machine} {p : Process}
    (hpages : ∀ r ∈ S.mem.st.regions, r.committed = true → HasPages (heldPages S.mem) r)
    (hmem : serializeMemoryMap (fun r => .ok (heldPages S.mem r)) S.mem.st.regions = .ok mem)
    (hlen : mem.length < 2 ^ 32)
    (hrun : (heldRecords S.mem).foldlM (restoreRegion os) T.mem = .ok p) :
    load os (fun _ => true) true (.bytes (buildFile notes (serializeCpuContext S.ctx) mem
      (serializeGpuState S.gpu))) T = .ok (.Ok, { T with ctx := S.ctx, mem := p }) := by
  have hcpu := length_serializeCpuContext_lt S.ctx
  have hgpu := length_serializeGpuState_lt S.gpu
  have halloc : allocate (fun _ => true) (buildFile notes (serializeCpuContext S.ctx) mem
      (serializeGpuState S.gpu)).length = .ok () := by
    have hheader : headerSize = 424 := rfl
    rw [allocate, buildFile, List.length_append, length_header, List.length_append,
      List.length_append, if_neg (by omega), if_pos rfl]
  rw [load_of_validate halloc (validate_buildFile notes hcpu hlen hgpu), restore,
    deserializeCpuContext_serialize]
  dsimp only
  rw [deserializeMemoryMap_serialize _ _ hpages hmem (length_lt_of_blob hpages hmem hlen) (by omega)
    fun _ _ _ => rfl]
  rw [heldRecords] at hrun
  simp only [hrun, Except.map, deserializeGpuState_serialize]

/-- A record whose base is covered by writable memory is copied there. -/
theorem restoreRegion_covered (os : Os) {p : Process} (saved : Process) {r r' : Region}
    (hfind : findRegion p r.base = some r')
    (hallow : p.host.allows canWrite r.base r.size.toNat) :
    ∃ q, restoreRegion os p (recordOf r (heldPages saved r)) = .ok q ∧ q.st = p.st := by
  have hpages : p.host.allows canWrite r.base
      (recordOf r (heldPages saved r)).pageData.length := by
    rwa [recordOf_pageData, length_heldPages]
  have hcopy : restoreRegion os p (recordOf r (heldPages saved r)) =
      copyPages (recordOf r (heldPages saved r)) r.base p := by
    rw [restoreRegion, recordOf_base, hfind]
  rw [hcopy, copyPages]
  split_ifs
  · exact ⟨_, rfl, rfl⟩
  · exact ⟨_, rfl, rfl⟩

end File

/-! ## Restoring a machine -/

section Restore

variable {os : Os} {alloc alloc' : ℕ → Bool} {initialised : Bool} {slot : ℤ} {notes : SaveNotes}
  {outcome : WriteOutcome} {file file' : SlotFile} {m' : Machine}

/-- **When a load restores the machine.**  Save in any reachable state, go on in any way,
and let a load return `Ok`.  If every record is in place when the load comes to it, the
machine is back; and if no two committed regions have one base, only then. -/
theorem restored_iff (m₀ : Machine) (hos : os.Conforms) (hinit : m₀.mem.st.regions = [])
    (before after : List Op)
    (hsave : save os alloc initialised slot notes outcome file (m₀.run os before) =
      .ok (.Ok, file'))
    (hload : load os alloc' initialised file' ((m₀.run os before).run os after) = .ok (.Ok, m'))
    (hcount : ((m₀.run os before).mem.st.regions.filter fun r => r.committed).length < 2 ^ 32) :
    (AllReached (restoreRegion os) (InPlace os) ((m₀.run os before).run os after).mem
        (heldRecords (m₀.run os before).mem) →
      Restored (m₀.run os before) m') ∧
    ((((m₀.run os before).mem.st.regions.filter fun r => r.committed).map Region.base).Nodup →
      Restored (m₀.run os before) m' →
      AllReached (restoreRegion os) (InPlace os) ((m₀.run os before).run os after).mem
        (heldRecords (m₀.run os before).mem)) := by
  have hempty : SoundTable m₀.mem.st.regions := by
    rw [hinit]
    simp [SoundTable]
  have hsaved : SoundTable (m₀.run os before).mem.st.regions := soundTable_run hos hempty before
  have hnow : SoundTable ((m₀.run os before).run os after).mem.st.regions :=
    soundTable_run hos hsaved after
  obtain ⟨hctx, hrun⟩ := foldlM_of_load hsave hload hsaved hcount
  have hsound : ∀ r ∈ (m₀.run os before).mem.st.regions.filter fun r => r.committed, r.Sound :=
    fun r hr => hsaved r (List.mem_filter.mp hr).1
  constructor
  · intro hall
    refine ⟨hctx, fun r hr hc => ?_⟩
    exact (restored_of_inPlace hos hsound hall hrun).1 r (List.mem_filter.mpr ⟨hr, hc⟩)
  · rintro hbases ⟨-, hback⟩
    refine (inPlace_of_restored hos hnow hsound hbases hrun fun r hr => ?_).1
    obtain ⟨hr, hc⟩ := List.mem_filter.mp hr
    exact hback r hr hc

end Restore

/-! ## A region that was protected anew -/

/-- A machine with nothing in it. -/
def emptyMachine : Machine where
  ctx := {}
  mem := ⟨{}, ⟨fun _ => none, fun _ => 0, []⟩⟩
  gpu := {}

/-- A page of data. -/
def dataRegion : Region :=
  ⟨0x10000000, PAGE_SIZE, Prot.RW, AllocType.Data, [], true⟩

def mapPage : List Op :=
  [.memory (.map dataRegion.base PAGE_SIZE Prot.RW AllocType.Data [])]

def protectPage : List Op := [.memory (.protect dataRegion.base PAGE_SIZE Prot.RWX)]

/-- The machine that is saved: it has mapped the page. -/
def savedMachine : Machine := emptyMachine.run obligingOs mapPage

/-- The machine that is loaded into: it has made the page executable. -/
def protectedMachine : Machine := savedMachine.run obligingOs protectPage

theorem savedMachine_eq : savedMachine.mem.st.regions = [dataRegion] ∧
    ∀ a, (a - dataRegion.base).toNat < PAGE_SIZE.toNat →
      savedMachine.mem.host.prot a = some (protToMmap Prot.RW) := by
  have hsize : alignUp PAGE_SIZE PAGE_SIZE = PAGE_SIZE := by decide
  have hplace : obligingOs.mmap emptyMachine.mem.host dataRegion.base
      (alignUp PAGE_SIZE PAGE_SIZE) (protToMmap Prot.RW) false = some dataRegion.base := by
    rw [hsize]
    exact obligingOs_mmap (by decide) (by decide) (by decide) fun i _ => rfl
  obtain ⟨p, hp, hregions, hhost⟩ := map_of_some AllocType.Data [] hplace
  have hmachine : savedMachine.mem = p := by
    rw [savedMachine, mapPage, run_memory, call_map, hp]
  rw [hmachine, hregions, hhost, hsize]
  exact ⟨rfl, fun a ha => Host.mapZero_prot_of_lt ha⟩

theorem protectedMachine_eq :
    protectedMachine.mem.st.regions = [{ dataRegion with prot := Prot.RWX }] ∧
    ∀ a, (a - dataRegion.base).toNat < PAGE_SIZE.toNat →
      protectedMachine.mem.host.prot a = some (protToMmap Prot.RWX) := by
  obtain ⟨p, hp, hregions, hhost⟩ := protect_of_true obligingOs dataRegion.base PAGE_SIZE
    Prot.RWX savedMachine.mem rfl
  have hmachine : protectedMachine.mem = p := by
    rw [protectedMachine, protectPage, run_memory, call_protect, hp]
  have hpages : kernelPages PAGE_SIZE = PAGE_SIZE.toNat := by decide
  rw [hmachine, hregions, hhost, hpages, savedMachine_eq.1]
  refine ⟨rfl, fun a ha => ?_⟩
  rw [Host.record_prot, Host.setProt_prot_of_lt ha]

theorem filter_savedMachine : (savedMachine.mem.st.regions.filter fun r => r.committed) =
    [dataRegion] := by
  rw [savedMachine_eq.1]
  rfl

theorem hasPages_savedMachine : ∀ r ∈ savedMachine.mem.st.regions, r.committed = true →
    HasPages (heldPages savedMachine.mem) r := by
  intro r hr _
  rw [savedMachine_eq.1, List.mem_singleton] at hr
  rw [hr]
  exact ⟨length_heldPages _ _, by decide⟩

/-- The page is restored where it is: nothing but its bytes changes. -/
theorem restore_dataRegion : ∃ p,
    (heldRecords savedMachine.mem).foldlM (restoreRegion obligingOs) protectedMachine.mem = .ok p ∧
      p.st.regions = [{ dataRegion with prot := Prot.RWX }] := by
  obtain ⟨hregions, hprot⟩ := protectedMachine_eq
  have hfind : findRegion protectedMachine.mem dataRegion.base =
      some { dataRegion with prot := Prot.RWX } := by
    rw [findRegion, hregions]
    rfl
  have hallow : protectedMachine.mem.host.allows canWrite dataRegion.base
      dataRegion.size.toNat := by
    intro i hi
    refine ⟨_, hprot _ ?_, by decide⟩
    rwa [ByteStore.toNat_add_ofNat_sub _ _ (hi.trans dataRegion.size.isLt)]
  obtain ⟨p, hp, hst⟩ := restoreRegion_covered obligingOs savedMachine.mem hfind hallow
  refine ⟨p, ?_, by rw [hst, hregions]⟩
  rw [heldRecords, savedRecords, filter_savedMachine, List.map_singleton, List.foldlM_cons, hp]
  rfl

/-- Saved, protected anew and loaded. -/
theorem load_protected : ∃ file p,
    save obligingOs (fun _ => true) true 0 {} .complete .missing savedMachine = .ok (.Ok, file) ∧
    load obligingOs (fun _ => true) true file protectedMachine =
      .ok (.Ok, { protectedMachine with ctx := savedMachine.ctx, mem := p }) ∧
    p.st.regions = [{ dataRegion with prot := Prot.RWX }] := by
  obtain ⟨p, hrun, hregions⟩ := restore_dataRegion
  obtain ⟨mem, hmem⟩ : ∃ mem, serializeMemoryMap (fun r => .ok (heldPages savedMachine.mem r))
      savedMachine.mem.st.regions = .ok mem := by
    rw [serializeMemoryMap, serializeRegions_eq hasPages_savedMachine]
    exact ⟨_, rfl⟩
  have hlen : mem.length < 2 ^ 32 := by
    rw [serializeMemoryMap_eq hasPages_savedMachine hmem, filter_savedMachine,
      List.flatMap_singleton, serializeRegion, List.length_append, List.length_append]
    rw [length_heldPages]
    decide
  refine ⟨_, p, save_of_readable ?_ hmem hlen,
    load_of_foldlM hasPages_savedMachine hmem hlen hrun, hregions⟩
  intro r hr _ i hi
  obtain ⟨hregions', hprot⟩ := savedMachine_eq
  rw [hregions', List.mem_singleton] at hr
  rw [hr] at hi ⊢
  refine ⟨_, hprot _ ?_, by decide⟩
  rwa [ByteStore.toNat_add_ofNat_sub _ _ (hi.trans PAGE_SIZE.isLt)]

/-- What the load restores is what the condition says. -/
theorem restored_iff_protected : ∃ m',
    (AllReached (restoreRegion obligingOs) (InPlace obligingOs) protectedMachine.mem
        (heldRecords savedMachine.mem) → Restored savedMachine m') ∧
    (((savedMachine.mem.st.regions.filter fun r => r.committed).map Region.base).Nodup →
      Restored savedMachine m' →
      AllReached (restoreRegion obligingOs) (InPlace obligingOs) protectedMachine.mem
        (heldRecords savedMachine.mem)) := by
  obtain ⟨file, p, hsave, hload, -⟩ := load_protected
  have hcount : (savedMachine.mem.st.regions.filter fun r => r.committed).length < 2 ^ 32 := by
    rw [filter_savedMachine]
    decide
  unfold protectedMachine at hload ⊢
  unfold savedMachine at hsave hload hcount ⊢
  exact ⟨_, restored_iff emptyMachine obligingOs_conforms rfl mapPage protectPage hsave hload
    hcount⟩

/-- **A load that returns `Ok` and does not restore the machine**: the page was made
executable after the save, and is so after the load. -/
theorem not_restored_protected : ∃ file m',
    save obligingOs (fun _ => true) true 0 {} .complete .missing savedMachine = .ok (.Ok, file) ∧
    load obligingOs (fun _ => true) true file protectedMachine = .ok (.Ok, m') ∧
    ¬ Restored savedMachine m' := by
  obtain ⟨file, p, hsave, hload, hregions⟩ := load_protected
  refine ⟨file, _, hsave, hload, fun h => ?_⟩
  have hback := h.2 dataRegion (by rw [savedMachine_eq.1]; exact List.mem_cons_self) rfl
  obtain ⟨r, hr, -, -, hprot, -⟩ := hback.listed
  dsimp only at hr
  rw [hregions, List.mem_singleton] at hr
  rw [hr] at hprot
  exact absurd hprot (by decide)

end SaveState
