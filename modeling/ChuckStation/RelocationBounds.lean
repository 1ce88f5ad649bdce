/-
# Where relocations write

`ApplyRelocations` takes the site of a record from the file and asks nobody whether it belongs
to the module.  Beside it stands here the loop that does ask, and leaves a record alone whose
site is not inside the module's own mappings.  Both loops are one loop with different bodies,
and the question is when they are the same.
-/
import ChuckStation.RelocationValues

namespace ModuleRegistry

open Memory Loader LittleEndian OperationRuns ByteStore

/-! ## Inside the module -/

/-- The address lies in the mapping that the loader made for the segment: what it asked for,
rounded up to pages. -/
def Maps (seg : Segment) (a : U64) : Prop :=
  seg.type = PT_LOAD ∧ seg.memsz ≠ 0 ∧ seg.hostBase ≠ 0 ∧
    (a - seg.hostBase).toNat < (alignUp seg.mapSz PAGE_SIZE).toNat

instance decidableMaps (seg : Segment) (a : U64) : Decidable (Maps seg a) :=
  inferInstanceAs (Decidable (_ ∧ _ ∧ _ ∧ _))

/-- The address lies in a mapping of the module. -/
def Inside (m : ModuleDesc) (a : U64) : Prop := ∃ seg ∈ m.elfInfo.segments, Maps seg a

instance decidableInside (m : ModuleDesc) (a : U64) : Decidable (Inside m a) :=
  inferInstanceAs (Decidable (∃ _ ∈ _, _))

/-- How many bytes a record of the type patches. -/
def siteSize (type : U32) : ℕ :=
  if type ∈ [R_X86_64_64, R_X86_64_GLOB_DAT, R_X86_64_JUMP_SLOT, R_X86_64_RELATIVE] then 8
  else if type ∈ [R_X86_64_PC32, R_X86_64_32, R_X86_64_32S] then 4
  else 0

/-- All bytes of the site lie in mappings of the module. -/
def SiteInside (m : ModuleDesc) (rela : Rela) : Prop :=
  ∀ k < siteSize rela.type, Inside m (m.baseAddr + rela.offset + BitVec.ofNat 64 k)

instance decidableSiteInside (m : ModuleDesc) (rela : Rela) : Decidable (SiteInside m rela) :=
  inferInstanceAs (Decidable (∀ k < _, _))

/-! ## Loops over records -/

section Loops

variable (os : Os) (outside : U64 → Option Byte)

/-- Where the records of a table are. -/
def recordsFrom : ℕ → U64 → List U64
  | 0, _ => []
  | count + 1, data => data :: recordsFrom count (data + BitVec.ofNat 64 relaSize)

/-- Where the records of the sections are. -/
def recordsOf (m : ModuleDesc) (sections : List RelaSection) : List U64 :=
  sections.flatMap fun rs => recordsFrom (rs.size.toNat / relaSize) (m.baseAddr + rs.offset)

variable (body : Rela → Process → Except HostAbort Process)

/-- A loop over the records at these addresses. -/
def loopAt : List U64 → Process → Except HostAbort Process
  | [], mem => .ok mem
  | data :: rest, mem => do
    let bs ← loadBytes os outside data relaSize mem.host
    let mem ← body (Rela.ofBytes bs) mem
    loopAt rest mem

/-- The records it reads, as far as it gets. -/
def recordsAt : List U64 → Process → List Rela
  | [], _ => []
  | data :: rest, mem =>
    match loadBytes os outside data relaSize mem.host with
    | .error _ => []
    | .ok bs =>
      Rela.ofBytes bs ::
        match body (Rela.ofBytes bs) mem with
        | .error _ => []
        | .ok mem => recordsAt rest mem

end Loops

/-! ## The loop that asks -/

/-- The loop body with the question. -/
def checkedRela (id : ModuleId) (m : ModuleDesc) (r : RegistryState) (rela : Rela)
    (mem : Process) : Except HostAbort Process :=
  if SiteInside m rela then applyRela id m r rela mem else .ok mem

/-- `ApplyRelocations` with the question. -/
def checkedRelocations (os : Os) (outside : U64 → Option Byte) (id : ModuleId)
    (r : RegistryState) (mem : Process) : Except HostAbort (Bool × Process) :=
  match r.modules.lookup id with
  | none => .ok (false, mem)
  | some m => do
    let mem ← loopAt os outside (checkedRela id m r) (recordsOf m m.elfInfo.relaSections) mem
    pure (true, mem)

/-- The records that it reads. -/
def checkedRecords (os : Os) (outside : U64 → Option Byte) (id : ModuleId) (m : ModuleDesc)
    (r : RegistryState) (mem : Process) : List Rela :=
  recordsAt os outside (checkedRela id m r) (recordsOf m m.elfInfo.relaSections) mem

/-- The run writes to the address. -/
def Written (os : Os) (outside : U64 → Option Byte) (id : ModuleId) (m : ModuleDesc)
    (r : RegistryState) (mem : Process) (a : U64) : Prop :=
  ∃ rela ∈ sectionRecords os outside id m r m.elfInfo.relaSections mem,
    ∃ p, patchOf id m r rela = some p ∧ p.Covers a

section Bounds

variable {os : Os} {outside : U64 → Option Byte} {id : ModuleId} {m : ModuleDesc}
  {r : RegistryState} {rela : Rela} {mem mem' : Process}

/-! ### Sites -/

theorem length_patchBytes (base S : U64) (rela : Rela) :
    (patchBytes base S rela).length = siteSize rela.type := by
  rw [patchBytes, siteSize]
  split_ifs <;> simp_all

/-- What a patch covers is its site. -/
theorem siteInside_iff {S : U64} : SiteInside m rela ↔
    ∀ a, Patch.Covers ⟨m.baseAddr + rela.offset, patchBytes m.baseAddr S rela⟩ a →
      Inside m a := by
  constructor
  · intro hsite a ha
    rw [Patch.Covers, length_patchBytes] at ha
    have hin := hsite _ ha
    rwa [add_ofNat_toNat_sub] at hin
  · intro h k hk
    have hlt : siteSize rela.type < 2 ^ 64 := by
      rw [siteSize]
      split_ifs <;> omega
    apply h
    rw [Patch.Covers, length_patchBytes]
    rwa [toNat_add_ofNat_sub _ k (by omega)]

/-- The bodies do the same for a record that is skipped or has its site inside. -/
theorem checkedRela_eq (h : HasSymbol id m r rela → SiteInside m rela) :
    checkedRela id m r rela mem = applyRela id m r rela mem := by
  rw [checkedRela]
  split_ifs with hsite
  · rfl
  · -- Outside, and skipped by both.
    have hnone : symbolValue id m r rela = none := by
      by_contra hS
      exact hsite (h (symbolValue_ne_none_iff.mp hS))
    rw [applyRela, hnone]

/-! ### One loop with two bodies -/

section Congr

variable {body g : Rela → Process → Except HostAbort Process}

theorem loopAt_append {l l' : List U64} : loopAt os outside body (l ++ l') mem =
    loopAt os outside body l mem >>= loopAt os outside body l' := by
  induction l generalizing mem with
  | nil => rfl
  | cons data l ih =>
      rw [List.cons_append, loopAt, loopAt]
      simp only [bind_assoc, ih]

theorem recordsAt_append {l l' : List U64} : recordsAt os outside body (l ++ l') mem =
    recordsAt os outside body l mem ++
      match loopAt os outside body l mem with
      | .error _ => []
      | .ok mem => recordsAt os outside body l' mem := by
  induction l generalizing mem with
  | nil => rfl
  | cons data l ih =>
      rw [List.cons_append, recordsAt, recordsAt, loopAt]
      cases hload : loadBytes os outside data relaSize mem.host with
      | error e => rfl
      | ok bs =>
          cases hbody : body (Rela.ofBytes bs) mem with
          | error e => simp only [bind, Except.bind, hbody, List.append_nil]
          | ok mem₁ => simp only [bind, Except.bind, hbody, ih, List.cons_append]

/-- Bodies that do the same for the records that one of them comes to run the same. -/
theorem loopAt_congr {l : List U64}
    (h : ∀ rela ∈ recordsAt os outside body l mem, ∀ mem, g rela mem = body rela mem) :
    loopAt os outside g l mem = loopAt os outside body l mem ∧
      recordsAt os outside g l mem = recordsAt os outside body l mem := by
  induction l generalizing mem with
  | nil => exact ⟨rfl, rfl⟩
  | cons data l ih =>
      rw [recordsAt] at h
      rw [recordsAt, recordsAt, loopAt, loopAt]
      cases hload : loadBytes os outside data relaSize mem.host with
      | error e => exact ⟨rfl, rfl⟩
      | ok bs =>
          rw [hload] at h
          dsimp only at h ⊢
          have hfirst : g (Rela.ofBytes bs) mem = body (Rela.ofBytes bs) mem :=
            h _ List.mem_cons_self mem
          cases hbody : body (Rela.ofBytes bs) mem with
          | error e => simp only [bind, Except.bind, hfirst, hbody, and_self]
          | ok mem₁ =>
              rw [hbody] at h
              obtain ⟨hloop, hrecords⟩ := ih fun rela hrela =>
                h rela (List.mem_cons_of_mem _ hrela)
              simp only [bind, Except.bind, hfirst, hbody, hloop, hrecords, and_self]

end Congr

/-- The loop over a table is such a loop. -/
theorem applyTable_eq_loopAt {count : ℕ} {data : U64} :
    applyTable os outside id m r count data mem =
      loopAt os outside (applyRela id m r) (recordsFrom count data) mem := by
  induction count generalizing data mem with
  | zero => rfl
  | succ count ih =>
      rw [applyTable, recordsFrom, loopAt]
      simp only [ih]

theorem tableRecords_eq_recordsAt {count : ℕ} {data : U64} :
    tableRecords os outside id m r count data mem =
      recordsAt os outside (applyRela id m r) (recordsFrom count data) mem := by
  induction count generalizing data mem with
  | zero => rfl
  | succ count ih =>
      rw [tableRecords, recordsFrom, recordsAt]
      cases hload : loadBytes os outside data relaSize mem.host with
      | error e => rfl
      | ok bs =>
          cases hrela : applyRela id m r (Rela.ofBytes bs) mem with
          | error e => simp only [hrela]
          | ok mem₁ => simp only [hrela, ih]

/-- So is the loop over the sections. -/
theorem applySections_eq_loopAt {sections : List RelaSection} :
    applySections os outside id m r sections mem =
      loopAt os outside (applyRela id m r) (recordsOf m sections) mem := by
  induction sections generalizing mem with
  | nil => rfl
  | cons rs rest ih =>
      rw [applySections, recordsOf, List.flatMap_cons, loopAt_append, applyTable_eq_loopAt]
      simp only [ih]
      rfl

theorem sectionRecords_eq_recordsAt {sections : List RelaSection} :
    sectionRecords os outside id m r sections mem =
      recordsAt os outside (applyRela id m r) (recordsOf m sections) mem := by
  induction sections generalizing mem with
  | nil => rfl
  | cons rs rest ih =>
      rw [sectionRecords, recordsOf, List.flatMap_cons, recordsAt_append,
        tableRecords_eq_recordsAt, applyTable_eq_loopAt]
      simp only [ih]
      rfl

/-! ### What is written -/

/-- **Frame.**  A run leaves alone what it does not write to. -/
theorem applyRelocations_frame (hm : r.modules.lookup id = some m) {ok : Bool}
    (h : applyRelocations os outside id r mem = .ok (ok, mem')) {a : U64}
    (ha : ¬ Written os outside id m r mem a) : mem'.host.bytes a = mem.host.bytes a := by
  rw [applyRelocations, hm] at h
  obtain ⟨mem₁, hsections, h⟩ := bind_eq_ok h
  cases h
  rw [foldlM_applyRela_patch (foldlM_sectionRecords hsections)]
  apply patch_apply_of_not_covers
  intro p hp hcovers
  obtain ⟨rela, hrela, hpatch⟩ := List.mem_filterMap.mp hp
  exact ha ⟨rela, hrela, p, hpatch, hcovers⟩

/-- All that is written is inside exactly if the records that are not skipped have their sites
inside. -/
theorem written_inside_iff : (∀ a, Written os outside id m r mem a → Inside m a) ↔
    ∀ rela ∈ sectionRecords os outside id m r m.elfInfo.relaSections mem,
      HasSymbol id m r rela → SiteInside m rela := by
  constructor
  · intro h rela hrela hsym
    obtain ⟨S, hS⟩ := Option.ne_none_iff_exists'.mp (symbolValue_ne_none_iff.mpr hsym)
    rw [siteInside_iff (S := S)]
    intro a ha
    refine h a ⟨rela, hrela, _, ?_, ha⟩
    rw [patchOf, hS, Option.map_some]
  · rintro h a ⟨rela, hrela, p, hpatch, ha⟩
    obtain ⟨S, hS, rfl⟩ := Option.map_eq_some_iff.mp hpatch
    have hsym : HasSymbol id m r rela := by
      rw [← symbolValue_ne_none_iff, hS]
      exact Option.some_ne_none S
    exact siteInside_iff.mp (h rela hrela hsym) a ha

/-- **Relocations write only into their module**, and skip the records whose sites are
elsewhere, exactly if the loop that asks comes to no such record that has its symbol. -/
theorem relocates_inside_iff (hm : r.modules.lookup id = some m) :
    ((∀ a, Written os outside id m r mem a → Inside m a) ∧
      applyRelocations os outside id r mem = checkedRelocations os outside id r mem) ↔
    ∀ rela ∈ checkedRecords os outside id m r mem, HasSymbol id m r rela →
      SiteInside m rela := by
  rw [written_inside_iff, sectionRecords_eq_recordsAt, checkedRecords]
  constructor
  · rintro ⟨h, -⟩
    -- The records that the code comes to are all done alike by the other loop.
    have hsame := loopAt_congr (g := checkedRela id m r) fun rela hrela _ =>
      checkedRela_eq (h rela hrela)
    rw [hsame.2]
    exact h
  · intro h
    -- And the other way round.
    have hsame := loopAt_congr (g := applyRela id m r) fun rela hrela _ =>
      (checkedRela_eq (h rela hrela)).symm
    constructor
    · rw [hsame.2]
      exact h
    · rw [applyRelocations, checkedRelocations, hm]
      dsimp only
      rw [applySections_eq_loopAt, hsame.1]

end Bounds

/-! ## Two pages -/

/-- A base-relative record for the site. -/
def recordBytes (site : U64) : List Byte :=
  toBytes 8 site ++ toBytes 8 (8 : U64) ++ toBytes 8 (1 : U64)

/-- An executable with the one segment at 0x400000 and the one record, which the loader keeps
at 0x10000. -/
def patchedImage (site : U64) : ExecutableInfo where
  segments := [{ vaddr := 0x400000, memsz := 0x4000, flags := PF_R ||| PF_W, type := PT_LOAD,
                 align := 0x4000, hostBase := 0x400000 }]
  relaSections := [{ offset := 0x10000, size := 24, data := recordBytes site }]

/-- The heap of the loader. -/
def recordHeap (site : U64) : U64 → Option Byte :=
  fun a => (recordBytes site)[(a - 0x10000).toNat]?

/-- The module. -/
def patchedModule (site : U64) : ModuleDesc := newDesc 1 [0x61] [] (patchedImage site) true

/-- The registry with the module. -/
def withPatched (site : U64) : RegistryState :=
  (register [0x61] [] (patchedImage site) true {}).2

/-- The segment and, at 0x800000, a page of someone else. -/
def twoMappings : Process where
  st := {}
  host :=
    { prot := fun a =>
        if (a - 0x400000).toNat < 0x4000 ∨ (a - 0x800000).toNat < 0x4000 then some (3 : Prot)
        else none
      bytes := fun _ => 0 }

/-- A record for the segment's page writes only there. -/
theorem relocates_inside_iff_ownPage :
    (∀ a, Written refusingOs (recordHeap 0x400010) 1 (patchedModule 0x400010)
        (withPatched 0x400010) twoMappings a → Inside (patchedModule 0x400010) a) ∧
      applyRelocations refusingOs (recordHeap 0x400010) 1 (withPatched 0x400010) twoMappings =
        checkedRelocations refusingOs (recordHeap 0x400010) 1 (withPatched 0x400010)
          twoMappings := by
  apply (relocates_inside_iff (m := patchedModule 0x400010) rfl).mpr
  have hrecords : checkedRecords refusingOs (recordHeap 0x400010) 1 (patchedModule 0x400010)
      (withPatched 0x400010) twoMappings = [⟨0x400010, 8, 1⟩] := rfl
  rw [hrecords]
  intro rela hrela _
  rw [List.mem_singleton.mp hrela]
  decide

/-- A record for the other page writes there too. -/
theorem not_relocates_inside_otherPage :
    ¬ ((∀ a, Written refusingOs (recordHeap 0x800000) 1 (patchedModule 0x800000)
        (withPatched 0x800000) twoMappings a → Inside (patchedModule 0x800000) a) ∧
      applyRelocations refusingOs (recordHeap 0x800000) 1 (withPatched 0x800000) twoMappings =
        checkedRelocations refusingOs (recordHeap 0x800000) 1 (withPatched 0x800000)
          twoMappings) := by
  rintro ⟨hinside, -⟩
  have hrecords : sectionRecords refusingOs (recordHeap 0x800000) 1 (patchedModule 0x800000)
      (withPatched 0x800000) (patchedModule 0x800000).elfInfo.relaSections twoMappings =
        [⟨0x800000, 8, 1⟩] := rfl
  have hwritten : Written refusingOs (recordHeap 0x800000) 1 (patchedModule 0x800000)
      (withPatched 0x800000) twoMappings 0x800000 := by
    refine ⟨⟨0x800000, 8, 1⟩, ?_, _, rfl, by decide⟩
    rw [hrecords]
    exact List.mem_singleton_self _
  exact absurd (hinside 0x800000 hwritten) (by decide)

end ModuleRegistry
