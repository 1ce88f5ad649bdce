/-
# Relocations of 32 bits

The values of relocations are made in 64 bits.  Both relocators cut them down for a field of 32
bits and do not look at what they cut off; the field is worth the value exactly if the value is
a number of 32 bits, signed or not as the type has it.
-/
import ChuckStation.LinkerRelocations
import ChuckStation.RelocationValues
import ChuckStation.WordOverflow

/-! ## Fields -/

namespace Memory

/-- The field of 32 bits at an address. -/
def wordField (p : Process) (a : U64) : U32 :=
  LittleEndian.ofBytes 32 (ByteStore.read p.host.bytes a 4)

theorem wordField_of_read {p : Process} {a : U64} {v : U32}
    (h : ByteStore.read p.host.bytes a 4 = LittleEndian.toBytes 4 v) : wordField p a = v := by
  rw [wordField, h, LittleEndian.ofBytes_toBytes 4 v le_rfl]

end Memory

namespace ModuleRegistry

open Memory Loader LittleEndian OperationRuns ByteStore WordOverflow

/-- The types with a field of 32 bits. -/
def Narrow (type : U32) : Prop :=
  type = R_X86_64_PC32 ∨ type = R_X86_64_32 ∨ type = R_X86_64_32S

/-- What such a record is for, in 64 bits. -/
def fullValue (base S : U64) (rela : Rela) : U64 :=
  if rela.type = R_X86_64_PC32 then S + rela.addend - (base + rela.offset) else S + rela.addend

/-- The field in 64 bits again. -/
def widened (type field : U32) : U64 :=
  if type = R_X86_64_32 then field.setWidth 64 else field.signExtend 64

/-- The value is a number of 32 bits. -/
def FitsField (type : U32) (value : U64) : Prop :=
  if type = R_X86_64_32 then FitsUnsigned 32 value.toNat else FitsSigned 32 value.toInt

/-- Applied, the record leaves its full value in the field, and skipped it leaves the field. -/
def RecordTruthful (id : ModuleId) (m : ModuleDesc) (r : RegistryState) (mem : Process)
    (rela : Rela) : Prop :=
  Narrow rela.type → ∀ mem', applyRela id m r rela mem = .ok mem' →
    (∃ S, symbolValue id m r rela = some S ∧
      widened rela.type (wordField mem' (m.baseAddr + rela.offset)) =
        fullValue m.baseAddr S rela) ∨
    (symbolValue id m r rela = none ∧
      read mem'.host.bytes (m.baseAddr + rela.offset) 4 =
        read mem.host.bytes (m.baseAddr + rela.offset) 4)

/-- The record has no symbol, or a site that cannot be written to, or a value that fits. -/
def RecordFits (id : ModuleId) (m : ModuleDesc) (r : RegistryState) (mem : Process)
    (rela : Rela) : Prop :=
  Narrow rela.type → ∀ S, symbolValue id m r rela = some S →
    mem.host.allows canWrite (m.baseAddr + rela.offset) 4 →
      FitsField rela.type (fullValue m.baseAddr S rela)

/-- So for all the records that `ApplyRelocations` comes to. -/
def AllRecords (os : Os) (outside : U64 → Option Byte) (id : ModuleId) (r : RegistryState)
    (mem : Process)
    (good : ModuleId → ModuleDesc → RegistryState → Process → Rela → Prop) : Prop :=
  ∀ m, r.modules.lookup id = some m →
    AllReached (fun mem rela => applyRela id m r rela mem) (good id m r) mem
      (sectionRecords os outside id m r m.elfInfo.relaSections mem)

section Records

variable {os : Os} {outside : U64 → Option Byte} {id : ModuleId} {m : ModuleDesc}
  {r : RegistryState} {rela : Rela} {mem : Process}

theorem widened_setWidth_iff (type : U32) (value : U64) :
    widened type (value.setWidth 32) = value ↔ FitsField type value := by
  rw [widened, FitsField]
  split_ifs with htype
  · exact setWidth_setWidth_eq_iff value (by norm_num)
  · exact signExtend_setWidth_eq_iff value (by norm_num) (by norm_num)

/-- What is written for a narrow type is the value cut down. -/
theorem patchBytes_narrow (base S : U64) (h : Narrow rela.type) :
    patchBytes base S rela = toBytes 4 ((fullValue base S rela).setWidth 32) := by
  rw [patchBytes, fullValue]
  rcases h with h | h | h
  · rw [h]
    rfl
  · rw [h]
    rfl
  · rw [h]
    rfl

/-- One record. -/
theorem recordTruthful_iff : RecordTruthful id m r mem rela ↔ RecordFits id m r mem rela := by
  rw [RecordTruthful, RecordFits]
  refine imp_congr_right fun hnarrow => ?_
  cases hS : symbolValue id m r rela with
  | none =>
      have hrun : applyRela id m r rela mem = .ok mem := by rw [applyRela, hS]
      refine iff_of_true (fun mem' h => ?_) fun S h => ?_
      · rw [hrun] at h
        cases h
        exact .inr ⟨rfl, rfl⟩
      · cases h
  | some S =>
      have hrun : applyRela id m r rela mem = store (m.baseAddr + rela.offset)
          (toBytes 4 ((fullValue m.baseAddr S rela).setWidth 32)) mem := by
        rw [applyRela, hS, ← patchBytes_narrow _ _ hnarrow]
      -- What a store leaves in the field.
      have hfield : ∀ mem', applyRela id m r rela mem = .ok mem' →
          widened rela.type (wordField mem' (m.baseAddr + rela.offset)) =
            widened rela.type ((fullValue m.baseAddr S rela).setWidth 32) := by
        intro mem' h
        rw [hrun] at h
        have hread : read mem'.host.bytes (m.baseAddr + rela.offset) 4 =
            toBytes 4 ((fullValue m.baseAddr S rela).setWidth 32) := by
          rw [store_eq_ok h]
          exact read_write_self _ _ (toBytes 4 _) (by rw [length_toBytes]; norm_num)
        rw [wordField_of_read hread]
      constructor
      · intro h S' hS' hallow
        cases hS'
        have hok : ∃ mem', applyRela id m r rela mem = .ok mem' := by
          rw [hrun, store, length_toBytes, if_pos hallow]
          exact ⟨_, rfl⟩
        obtain ⟨mem', hmem'⟩ := hok
        rcases h mem' hmem' with ⟨S', hS', hvalue⟩ | ⟨hnone, -⟩
        · cases hS'
          rw [hfield mem' hmem'] at hvalue
          exact (widened_setWidth_iff _ _).mp hvalue
        · cases hnone
      · intro h mem' hmem'
        have hallow : mem.host.allows canWrite (m.baseAddr + rela.offset) 4 := by
          rw [hrun] at hmem'
          simpa using DynamicLinker.allows_of_store hmem'
        left
        refine ⟨S, rfl, ?_⟩
        rw [hfield mem' hmem']
        exact (widened_setWidth_iff _ _).mpr (h S rfl hallow)

/-- All records of a run. -/
theorem allRecords_truthful_iff : AllRecords os outside id r mem RecordTruthful ↔
    AllRecords os outside id r mem RecordFits := by
  refine forall_congr' fun m => imp_congr_right fun _ => ?_
  exact allReached_congr (I := fun _ => True) (fun mem rela _ => recordTruthful_iff)
    (fun _ _ _ _ _ _ => trivial) trivial

end Records

end ModuleRegistry

/-! ## Entries -/

namespace DynamicLinker

open Memory Loader ModuleRegistry LittleEndian ByteStore WordOverflow OperationRuns

/-- `S + A - P`. -/
def entryValue (reloc : RelocEntry) (sym : CachedSymbol) : U64 :=
  sym.address + reloc.addend - reloc.offset

/-- An entry of type `PC32` that is reported as applied leaves its full value in the field, and
one that is reported as failed or is put off leaves the field. -/
def EntryTruthful (os : Os) (pipes : Pipes) (reloc : RelocEntry) (r : RegistryState)
    (ls : LinkerState) (p : Process) : Prop :=
  reloc.type = .pc32 → ∀ ok ls' p', applyReloc os pipes reloc r ls p = .ok (ok, ls', p') →
    (ok = true ∧ reloc.lazy = false ∧
      ∃ sym, (lookupSymbol reloc.symbolName r ls).1 = some sym ∧
        (wordField p' reloc.offset).signExtend 64 = entryValue reloc sym) ∨
    ((ok = false ∨ reloc.lazy = true) ∧
      read p'.host.bytes reloc.offset 4 = read p.host.bytes reloc.offset 4)

/-- The entry is put off or has no symbol; or its value fits if its site is patched, and the
probe has overwritten only zeros if it is not. -/
def EntryFits (os : Os) (pipes : Pipes) (reloc : RelocEntry) (r : RegistryState)
    (ls : LinkerState) (p : Process) : Prop :=
  reloc.type = .pc32 → reloc.lazy = false → reloc.symbolName ≠ [] →
    ∀ sym, (lookupSymbol reloc.symbolName r ls).1 = some sym →
      (Patched os pipes p reloc.offset 4 → FitsSigned 32 (entryValue reloc sym).toInt) ∧
      (Refused os pipes p reloc.offset 4 →
        ∀ i < lost os pipes p reloc.offset 4, p.host.bytes (reloc.offset + BitVec.ofNat 64 i) = 0)

section Entries

variable {os : Os} {pipes : Pipes} {reloc : RelocEntry} {r : RegistryState} {ls : LinkerState}
  {p p' : Process} {site : U64}

/-- The probe overwrites no more than it was asked about. -/
theorem lost_le (size : U64) : lost os pipes p site size ≤ size.toNat := by
  have hwritable : writableFrom p.host site size.toNat ≤ size.toNat := by
    calc writableFrom p.host site size.toNat ≤ (List.range size.toNat).length :=
          (List.takeWhile_sublist _).length_le
      _ = size.toNat := List.length_range
  rw [lost]
  split_ifs with hprobe
  · exact le_trans (min_le_right _ _) hwritable
  · exact Nat.zero_le _

/-- The field of a refused site. -/
theorem read_probed_iff : read (probed os pipes p site 4).host.bytes site 4 =
      read p.host.bytes site 4 ↔
    ∀ i < lost os pipes p site 4, p.host.bytes (site + BitVec.ofNat 64 i) = 0 :=
  read_write_replicate_iff _ _ _ (lost_le 4) (by norm_num)

/-- A patch of 32 bits. -/
theorem patch32_truthful_iff {value : U64} :
    (∀ ok p', patch32 os pipes site (value.setWidth 32) p = .ok (ok, p') →
      ok = true ∧ (wordField p' site).signExtend 64 = value ∨
      ok = false ∧ read p'.host.bytes site 4 = read p.host.bytes site 4) ↔
    (Patched os pipes p site 4 → FitsSigned 32 value.toInt) ∧
      (Refused os pipes p site 4 →
        ∀ i < lost os pipes p site 4, p.host.bytes (site + BitVec.ofNat 64 i) = 0) := by
  have hlen : (toBytes 4 (value.setWidth 32)).length = (4 : U64).toNat := length_toBytes 4 _
  rw [← read_probed_iff, ← signExtend_setWidth_eq_iff value (by norm_num) (by norm_num)]
  constructor
  · intro h
    constructor
    · intro hpatched
      obtain ⟨p', hrun⟩ := exists_of_patched hlen hpatched
      rcases patchSite_eq_ok hlen hrun with ⟨-, -, hread⟩ | ⟨hno, -⟩
      · rcases h true p' hrun with ⟨-, hvalue⟩ | ⟨hno, -⟩
        · rwa [wordField_of_read hread] at hvalue
        · cases hno
      · cases hno
    · intro hrefused
      obtain ⟨p', hrun⟩ := exists_of_refused hlen hrefused
      rcases patchSite_eq_ok hlen hrun with ⟨hyes, -⟩ | ⟨-, -, hbytes⟩
      · cases hyes
      · rcases h false p' hrun with ⟨hyes, -⟩ | ⟨-, hsame⟩
        · cases hyes
        · rwa [hbytes] at hsame
  · rintro ⟨hfits, hzeros⟩ ok p' hrun
    rcases patchSite_eq_ok hlen hrun with ⟨hok, hpatched, hread⟩ | ⟨hok, hrefused, hbytes⟩
    · left
      rw [wordField_of_read hread]
      exact ⟨hok, hfits hpatched⟩
    · right
      rw [hbytes]
      exact ⟨hok, hzeros hrefused⟩

/-- An entry that is put off changes nothing. -/
theorem applyReloc_of_lazy (htype : reloc.type = .pc32) (hlazy : reloc.lazy = true) :
    applyReloc os pipes reloc r ls p = .ok (true, ls, p) := by
  rw [applyReloc, if_neg (by rw [htype]; decide), if_pos hlazy]

/-- An entry whose symbol is not found fails and changes nothing. -/
theorem applyReloc_of_none {ok : Bool} {ls' : LinkerState} (htype : reloc.type = .pc32)
    (hlazy : reloc.lazy = false)
    (hnone : reloc.symbolName = [] ∨ (lookupSymbol reloc.symbolName r ls).1 = none)
    (h : applyReloc os pipes reloc r ls p = .ok (ok, ls', p')) : ok = false ∧ p' = p := by
  rw [applyReloc, if_neg (by rw [htype]; decide), if_neg (by rw [hlazy]; decide),
    if_neg (by rw [htype]; decide)] at h
  by_cases hname : reloc.symbolName = []
  · rw [if_pos hname] at h
    cases h
    exact ⟨rfl, rfl⟩
  · have hlookup := hnone.resolve_left hname
    rw [if_neg hname] at h
    rcases hfound : lookupSymbol reloc.symbolName r ls with ⟨_ | sym, ls₁⟩
    · rw [hfound] at h
      cases h
      exact ⟨rfl, rfl⟩
    · rw [hfound] at hlookup
      cases hlookup

/-- An entry whose symbol is found is a patch of 32 bits. -/
theorem applyReloc_of_some {sym : CachedSymbol} (htype : reloc.type = .pc32)
    (hlazy : reloc.lazy = false) (hname : reloc.symbolName ≠ [])
    (hsym : (lookupSymbol reloc.symbolName r ls).1 = some sym) :
    applyReloc os pipes reloc r ls p =
      patch32 os pipes reloc.offset ((entryValue reloc sym).setWidth 32) p >>= fun x =>
        .ok (x.1, (lookupSymbol reloc.symbolName r ls).2, x.2) := by
  rw [applyReloc, if_neg (by rw [htype]; decide), if_neg (by rw [hlazy]; decide),
    if_neg (by rw [htype]; decide), if_neg hname]
  rcases hlookup : lookupSymbol reloc.symbolName r ls with ⟨found, ls'⟩
  rw [hlookup] at hsym
  dsimp only at hsym ⊢
  rw [hsym]
  dsimp only
  rw [htype]
  rfl

/-- So it says what its patch says. -/
theorem entryTruthful_of_some {sym : CachedSymbol} (htype : reloc.type = .pc32)
    (hlazy : reloc.lazy = false) (hname : reloc.symbolName ≠ [])
    (hsym : (lookupSymbol reloc.symbolName r ls).1 = some sym) :
    EntryTruthful os pipes reloc r ls p ↔
      ∀ ok p', patch32 os pipes reloc.offset ((entryValue reloc sym).setWidth 32) p =
          .ok (ok, p') →
        ok = true ∧ (wordField p' reloc.offset).signExtend 64 = entryValue reloc sym ∨
        ok = false ∧ read p'.host.bytes reloc.offset 4 = read p.host.bytes reloc.offset 4 := by
  have hrun : applyReloc os pipes reloc r ls p = _ := applyReloc_of_some htype hlazy hname hsym
  rw [EntryTruthful]
  constructor
  · intro h ok p' hpatch
    have hentry : applyReloc os pipes reloc r ls p =
        .ok (ok, (lookupSymbol reloc.symbolName r ls).2, p') := by rw [hrun, hpatch, ok_bind]
    rcases h htype ok _ p' hentry with ⟨hok, -, sym', hsym', hvalue⟩ | ⟨hno, hsame⟩
    · rw [hsym] at hsym'
      cases hsym'
      exact .inl ⟨hok, hvalue⟩
    · rw [hlazy] at hno
      exact .inr ⟨hno.resolve_right Bool.false_ne_true, hsame⟩
  · intro h _ ok ls' p' hentry
    rw [hrun] at hentry
    obtain ⟨⟨ok₁, p₁⟩, hpatch, hentry⟩ := bind_eq_ok hentry
    cases hentry
    rcases h ok₁ p₁ hpatch with ⟨hok, hvalue⟩ | ⟨hno, hsame⟩
    · exact .inl ⟨hok, hlazy, sym, hsym, hvalue⟩
    · exact .inr ⟨.inl hno, hsame⟩

/-- One entry. -/
theorem entryTruthful_iff :
    EntryTruthful os pipes reloc r ls p ↔ EntryFits os pipes reloc r ls p := by
  by_cases htype : reloc.type = .pc32
  swap
  · exact iff_of_true (fun h => absurd h htype) fun h => absurd h htype
  by_cases hlazy : reloc.lazy = true
  · refine iff_of_true (fun _ ok ls' p' h => ?_) fun _ hno => ?_
    · rw [applyReloc_of_lazy htype hlazy] at h
      cases h
      exact .inr ⟨.inr hlazy, rfl⟩
    · rw [hlazy] at hno
      cases hno
  have hnow : reloc.lazy = false := eq_false_of_ne_true hlazy
  by_cases hnone : reloc.symbolName = [] ∨ (lookupSymbol reloc.symbolName r ls).1 = none
  · refine iff_of_true (fun _ ok ls' p' h => ?_) fun _ _ hname sym hsym => ?_
    · obtain ⟨rfl, rfl⟩ := applyReloc_of_none htype hnow hnone h
      exact .inr ⟨.inl rfl, rfl⟩
    · rw [hnone.resolve_left hname] at hsym
      cases hsym
  obtain ⟨hname, hsome⟩ := not_or.mp hnone
  obtain ⟨sym, hsym⟩ := Option.ne_none_iff_exists'.mp hsome
  rw [entryTruthful_of_some htype hnow hname hsym, patch32_truthful_iff]
  constructor
  · intro h _ _ _ sym' hsym'
    rw [hsym] at hsym'
    cases hsym'
    exact h
  · intro h
    exact h htype hnow hname sym hsym

/-- **Relocations of 32 bits do not truncate silently** exactly if the values of the records that
are applied, and of the entry if its site is patched, are numbers of 32 bits, and the probe of a
site that is not patched has overwritten nothing. -/
theorem relocations_truthful_iff (os : Os) (outside : U64 → Option Byte) (pipes : Pipes)
    (id : ModuleId) (reloc : RelocEntry) (r : RegistryState) (ls : LinkerState) (p : Process) :
    (AllRecords os outside id r p RecordTruthful ↔ AllRecords os outside id r p RecordFits) ∧
      (EntryTruthful os pipes reloc r ls p ↔ EntryFits os pipes reloc r ls p) :=
  ⟨allRecords_truthful_iff, entryTruthful_iff⟩

end Entries

/-! ## A value of 33 bits -/

/-- The page of a module with one record, of type `R_X86_64_32` and with addend 2 ^ 32. -/
def wideAddendPage : Process where
  st := {}
  host :=
    { prot := fun a => if (a - 0x400000).toNat < 0x1000 then some (3 : Prot) else none
      bytes := write (fun _ => 0) 0x400808 [10, 0, 0, 0, 0, 0, 0, 0, 0, 0, 0, 0, 1] }

/-- Pipes that open. -/
def openPipes : Pipes where
  readOpens := true
  writeOpens := true
  stored _ _ _ := 0

/-- The registry with a module that exports `x` at 2 ^ 32. -/
def withFarSymbol : RegistryState := (register [0x61] [] (exporting 0x100000000) false {}).2

/-- An entry for `x` in the page. -/
def farEntry : RelocEntry := { offset := 0x400000, type := .pc32, symbolName := [0x78] }

/-- The record is applied and leaves 0 for 2 ^ 32, and the entry is reported as applied and leaves
a negative number for a positive one. -/
theorem not_relocations_truthful_wide :
    ¬ AllRecords refusingOs (fun _ => none) 1 (withRelocatable []) wideAddendPage
        RecordTruthful ∧
      ¬ EntryTruthful refusingOs openPipes farEntry withFarSymbol {} wideAddendPage := by
  constructor
  · intro h
    have hrecords := h (newDesc 1 [0x61] [] (relocatable []) true) rfl
    have hlist : sectionRecords refusingOs (fun _ => none) 1
        (newDesc 1 [0x61] [] (relocatable []) true) (withRelocatable [])
        (relocatable []).relaSections wideAddendPage = [⟨0, 10, 0x100000000⟩] := rfl
    have hfirst : RecordTruthful 1 (newDesc 1 [0x61] [] (relocatable []) true)
        (withRelocatable []) wideAddendPage ⟨0, 10, 0x100000000⟩ := by
      rw [show (newDesc 1 [0x61] [] (relocatable []) true).elfInfo.relaSections =
        (relocatable []).relaSections from rfl, hlist] at hrecords
      exact hrecords.1
    rcases hfirst (.inr (.inl rfl)) _ rfl with ⟨S, hS, hvalue⟩ | ⟨hnone, -⟩
    · cases hS
      exact absurd hvalue (by decide)
    · cases hnone
  · intro h
    rcases h rfl _ _ _ rfl with ⟨-, -, sym, hsym, hvalue⟩ | ⟨hno, -⟩
    · cases hsym
      exact absurd hvalue (by decide)
    · rcases hno with hno | hno
      · cases hno
      · cases hno

end DynamicLinker
