/-
# What relocations write

Two questions about `ApplyRelocations`.  Is a base-relative record applied whatever the symbol
tables hold?  And does the value of an undefined symbol agree with `ResolveSymbol`?  The loop
is a list of patches, and its search for a symbol goes through the modules in an order that is
the hash map's own.
-/
import ChuckStation.BytePatches
import ChuckStation.LoaderLayout
import ChuckStation.ModuleRelocations

namespace ModuleRegistry

open Memory Loader LittleEndian OperationRuns ByteStore

/-! ## The search for a symbol -/

/-- Some module other than `id` defines the name at the address, which is not 0. -/
def DefinedElsewhere (id : ModuleId) (name : List Byte) (r : RegistryState) (a : U64) : Prop :=
  ∃ other m, other ≠ id ∧ r.modules.lookup other = some m ∧ definitionIn name m = a ∧ a ≠ 0

/-- The registry without the module in the load order. -/
def withoutModule (id : ModuleId) (r : RegistryState) : RegistryState :=
  { r with loadOrder := r.loadOrder.filter fun other => other != id }

section Search

variable {id : ModuleId} {m : ModuleDesc} {r : RegistryState} {rela : Rela} {sym : Symbol}

/-- For an undefined symbol, the search has the last word. -/
theorem symbolValue_of_undefined (hsym : m.elfInfo.symbols[rela.symId.toNat]? = some sym)
    (hundef : sym.shndx = 0) :
    symbolValue id m r rela = ((r.modules.entries.filter fun e => e.1 != id).map
      fun e => definitionIn sym.name e.2).find? fun v => v != 0 := by
  rw [symbolValue, hsym]
  dsimp only
  rw [if_neg (not_not_intro hundef), externalValue]
  cases hfind : ((r.modules.entries.filter fun e => e.1 != id).map
      fun e => definitionIn sym.name e.2).find? fun v => v != 0 with
  | none => rw [Option.getD_none, if_pos rfl]
  | some v =>
      have hv : v ≠ 0 := bne_iff_ne.mp (List.find?_some (p := fun v => v != 0) hfind)
      rw [Option.getD_some, if_neg hv]

theorem definedElsewhere_iff {name : List Byte} {a : U64} :
    DefinedElsewhere id name r a ↔ ∃ e ∈ r.modules.entries, (e.1 != id) = true ∧
      definitionIn name e.2 = a ∧ (a != 0) = true := by
  constructor
  · rintro ⟨other, m, hne, hm, hdef, ha⟩
    exact ⟨⟨other, m⟩, AList.mem_lookup_iff.mp hm, bne_iff_ne.mpr hne, hdef, bne_iff_ne.mpr ha⟩
  · rintro ⟨⟨other, m⟩, hm, hne, hdef, ha⟩
    exact ⟨other, m, bne_iff_ne.mp hne, AList.mem_lookup_iff.mpr hm, hdef, bne_iff_ne.mp ha⟩

/-- **Relocations and symbol lookup agree**, in every order of the modules, exactly if the
other modules define the name at the address that lookup finds and at no other. -/
theorem symbolValue_agrees_iff (hsym : m.elfInfo.symbols[rela.symId.toNat]? = some sym)
    (hundef : sym.shndx = 0) :
    (∀ modules : ModuleMap, modules.entries.Perm r.modules.entries →
      symbolValue id m { r with modules := modules } rela =
        (resolveSymbol sym.name (withoutModule id r)).map fun found => found.address) ↔
      ∀ a, DefinedElsewhere id sym.name r a ↔
        (resolveSymbol sym.name (withoutModule id r)).map (fun found => found.address) =
          some a := by
  simp only [definedElsewhere_iff]
  rw [← List.find?_map_filter_perm_iff]
  constructor
  · intro h entries hperm
    have hnodup : entries.NodupKeys := (List.perm_nodupKeys hperm).mpr r.modules.nodupKeys
    rw [← h ⟨entries, hnodup⟩ hperm, symbolValue_of_undefined hsym hundef]
  · intro h modules hperm
    rw [← h modules.entries hperm, symbolValue_of_undefined hsym hundef]

end Search

/-- A module with one symbol, `x`. -/
def symbolic (value : U64) (shndx : U16) : ExecutableInfo where
  symbols := [{ name := [0x78], value := value, type := STT_FUNC, shndx := shndx }]

/-- `x` is undefined in the module `a` and defined in `b` and, elsewhere, in `c`. -/
def withOneDefinition : RegistryState :=
  (register [0x62] [] (symbolic 16 1) false (register [0x61] [] (symbolic 0 0) true {}).2).2

def withTwoDefinitions : RegistryState :=
  (register [0x63] [] (symbolic 32 1) false withOneDefinition).2

/-- One definition is found by both. -/
theorem symbolValue_agrees_iff_oneDefinition :
    (resolveSymbol [0x78] (withoutModule 1 withOneDefinition)).map
        (fun found => found.address) = some 16 ∧
      ∀ modules : ModuleMap, modules.entries.Perm withOneDefinition.modules.entries →
        symbolValue 1 (newDesc 1 [0x61] [] (symbolic 0 0) true)
            { withOneDefinition with modules := modules } ⟨0, 1, 0⟩ =
          (resolveSymbol [0x78] (withoutModule 1 withOneDefinition)).map
            fun found => found.address := by
  have hsym : (newDesc 1 [0x61] [] (symbolic 0 0) true).elfInfo.symbols[
      (⟨0, 1, 0⟩ : Rela).symId.toNat]? = some { name := [0x78], type := STT_FUNC } := rfl
  have hresolve : (resolveSymbol [0x78] (withoutModule 1 withOneDefinition)).map
      (fun found => found.address) = some 16 := by decide
  refine ⟨hresolve, (symbolValue_agrees_iff hsym rfl).mpr fun a => ?_⟩
  rw [hresolve, definedElsewhere_iff, Option.some.injEq]
  constructor
  · rintro ⟨e, he, hne, hdef, -⟩
    have hentries : withOneDefinition.modules.entries =
        [⟨2, newDesc 2 [0x62] [] (symbolic 16 1) false⟩,
          ⟨1, newDesc 1 [0x61] [] (symbolic 0 0) true⟩] := rfl
    rw [hentries] at he
    rcases List.mem_cons.mp he with rfl | he
    · exact hdef
    · rw [List.mem_singleton.mp he] at hne
      exact absurd hne (by decide)
  · rintro rfl
    exact ⟨⟨2, newDesc 2 [0x62] [] (symbolic 16 1) false⟩, List.mem_cons_self, rfl, rfl, rfl⟩

/-- Of two, the relocation takes the one the hash map has first. -/
theorem not_symbolValue_agrees_twoDefinitions :
    ¬ ∀ modules : ModuleMap, modules.entries.Perm withTwoDefinitions.modules.entries →
      symbolValue 1 (newDesc 1 [0x61] [] (symbolic 0 0) true)
          { withTwoDefinitions with modules := modules } ⟨0, 1, 0⟩ =
        (resolveSymbol [0x78] (withoutModule 1 withTwoDefinitions)).map
          fun found => found.address := by
  intro h
  exact absurd (h withTwoDefinitions.modules (List.Perm.refl _)) (by decide)

/-! ## Base-relative records -/

/-- What the record has written where, if it is applied. -/
def patchOf (id : ModuleId) (m : ModuleDesc) (r : RegistryState) (rela : Rela) :
    Option (Patch 64) :=
  (symbolValue id m r rela).map fun S => ⟨m.baseAddr + rela.offset, patchBytes m.baseAddr S rela⟩

/-- The 64-bit word at an address, if it is mapped. -/
def wordAt (p : Process) (a : U64) : Option U64 :=
  if p.host.allows (fun _ => true) a 8 then some (ofBytes 64 (read p.host.bytes a 8)) else none

/-- The record is base-relative, the run comes to it, and no other record writes to its eight
bytes. -/
def AloneAtSite (os : Os) (outside : U64 → Option Byte) (id : ModuleId) (m : ModuleDesc)
    (r : RegistryState) (mem : Process) (rela : Rela) : Prop :=
  rela.type = R_X86_64_RELATIVE ∧
    ∃ before after,
      sectionRecords os outside id m r m.elfInfo.relaSections mem = before ++ rela :: after ∧
      ∀ other ∈ before ++ after, ∀ p, patchOf id m r other = some p → ∀ k < 8,
        ¬ p.Covers (m.baseAddr + rela.offset + BitVec.ofNat 64 k)

/-- The symbol of the record is not in the table, has a section or is defined elsewhere. -/
def HasSymbol (id : ModuleId) (m : ModuleDesc) (r : RegistryState) (rela : Rela) : Prop :=
  ∀ sym, m.elfInfo.symbols[rela.symId.toNat]? = some sym →
    sym.shndx ≠ 0 ∨ ∃ a, DefinedElsewhere id sym.name r a

section Relative

variable {os : Os} {outside : U64 → Option Byte} {id : ModuleId} {m : ModuleDesc}
  {r : RegistryState} {rela : Rela} {relas : List Rela} {mem mem' : Process}

theorem symbolValue_ne_none_iff : symbolValue id m r rela ≠ none ↔ HasSymbol id m r rela := by
  cases hsym : m.elfInfo.symbols[rela.symId.toNat]? with
  | none =>
      rw [symbolValue, hsym]
      refine ⟨fun _ sym h => ?_, fun _ => Option.some_ne_none _⟩
      rw [hsym] at h
      cases h
  | some sym =>
      have hiff : HasSymbol id m r rela ↔
          (sym.shndx ≠ 0 ∨ ∃ a, DefinedElsewhere id sym.name r a) := by
        refine ⟨fun h => h sym hsym, fun h sym' hsym' => ?_⟩
        rw [hsym] at hsym'
        cases hsym'
        exact h
      rw [hiff]
      by_cases hundef : sym.shndx = 0
      · -- The search finds something exactly if there is something to find.
        rw [symbolValue_of_undefined hsym hundef, Option.ne_none_iff_exists']
        constructor
        · rintro ⟨a, hfind⟩
          obtain ⟨e, he, hdef⟩ := List.mem_map.mp (List.mem_of_find?_eq_some hfind)
          obtain ⟨hin, hne⟩ := List.mem_filter.mp he
          have ha := List.find?_some (p := fun v => v != 0) hfind
          exact .inr ⟨a, definedElsewhere_iff.mpr ⟨e, hin, hne, hdef, ha⟩⟩
        · rintro (hdef | ⟨a, hdef⟩)
          · exact absurd hundef hdef
          · obtain ⟨e, hin, hne, hdef, ha⟩ := definedElsewhere_iff.mp hdef
            refine Option.isSome_iff_exists.mp (List.find?_isSome.mpr ⟨a, ?_, ha⟩)
            exact List.mem_map.mpr ⟨e, List.mem_filter.mpr ⟨hin, hne⟩, hdef⟩
      · refine ⟨fun _ => .inl hundef, fun _ => ?_⟩
        rw [symbolValue, hsym]
        dsimp only
        rw [if_pos hundef]
        exact Option.some_ne_none _

/-- An applied record leaves the process with its patch. -/
theorem applyRela_patch (h : applyRela id m r rela mem = .ok mem') :
    mem' = { mem with host :=
      { mem.host with bytes := patch mem.host.bytes (patchOf id m r rela).toList } } := by
  rw [applyRela] at h
  rw [patchOf]
  cases hS : symbolValue id m r rela with
  | none =>
      rw [hS] at h
      cases h
      rfl
  | some S =>
      rw [hS] at h
      exact store_eq_ok h

/-- The records of a run leave it with their patches. -/
theorem foldlM_applyRela_patch
    (h : relas.foldlM (fun mem rela => applyRela id m r rela mem) mem = .ok mem') :
    mem' = { mem with host :=
      { mem.host with bytes := patch mem.host.bytes (relas.filterMap (patchOf id m r)) } } := by
  induction relas generalizing mem with
  | nil =>
      cases h
      rfl
  | cons rela relas ih =>
      rw [List.foldlM_cons] at h
      obtain ⟨mem₁, hrela, h⟩ := bind_eq_ok h
      rw [ih h, applyRela_patch hrela, patch_filterMap_cons]

/-- A record that is applied has a site that is mapped. -/
theorem mapped_of_applyRela {S : U64} (h : applyRela id m r rela mem = .ok mem')
    (hS : symbolValue id m r rela = some S) {k : ℕ}
    (hk : k < (patchBytes m.baseAddr S rela).length) :
    mem.host.prot (m.baseAddr + rela.offset + BitVec.ofNat 64 k) ≠ none := by
  rw [applyRela, hS] at h
  exact store_mapped h hk

theorem patchBytes_relative {base S : U64} (htype : rela.type = R_X86_64_RELATIVE) :
    patchBytes base S rela = toBytes 8 (base + rela.addend) := by
  rw [patchBytes, htype]
  rfl

/-- What the word at the site of a lone base-relative record is afterwards: base plus addend if
the record was applied, and else what it was. -/
theorem wordAt_of_aloneAtSite
    (h : applySections os outside id m r m.elfInfo.relaSections mem = .ok mem')
    (halone : AloneAtSite os outside id m r mem rela) :
    wordAt mem' (m.baseAddr + rela.offset) =
      if symbolValue id m r rela = none then wordAt mem (m.baseAddr + rela.offset)
      else some (m.baseAddr + rela.addend) := by
  obtain ⟨htype, before, after, hrecords, hothers⟩ := halone
  have hfold := foldlM_sectionRecords h
  rw [hrecords] at hfold
  have hmem' := foldlM_applyRela_patch hfold
  rw [List.filterMap_append] at hmem'
  have hspares : ∀ l : List Rela, (∀ other ∈ l, other ∈ before ++ after) →
      ∀ p ∈ l.filterMap (patchOf id m r), ∀ k < 8,
        ¬ p.Covers (m.baseAddr + rela.offset + BitVec.ofNat 64 k) := by
    intro l hl p hp
    obtain ⟨other, hother, hpatch⟩ := List.mem_filterMap.mp hp
    exact hothers other (hl other hother) p hpatch
  have hbefore := hspares before fun other hother => List.mem_append_left after hother
  have hafter := hspares after fun other hother => List.mem_append_right before hother
  cases hS : symbolValue id m r rela with
  | none =>
      have hnone : patchOf id m r rela = none := by rw [patchOf, hS, Option.map_none]
      rw [List.filterMap_cons_none hnone] at hmem'
      rw [if_pos rfl, hmem', wordAt, wordAt, read_patch_of_not_covers ?_]
      · rfl
      · intro p hp
        rcases List.mem_append.mp hp with hp | hp
        · exact hbefore p hp
        · exact hafter p hp
  | some S =>
      have hsome : patchOf id m r rela =
          some ⟨m.baseAddr + rela.offset, toBytes 8 (m.baseAddr + rela.addend)⟩ := by
        rw [patchOf, hS, Option.map_some, patchBytes_relative htype]
      rw [List.filterMap_cons_some hsome] at hmem'
      -- The site is mapped when the record is applied, and patches map nothing.
      rw [List.foldlM_append] at hfold
      obtain ⟨mem₁, hfirst, hrest⟩ := bind_eq_ok hfold
      rw [List.foldlM_cons] at hrest
      obtain ⟨mem₂, hrela, -⟩ := bind_eq_ok hrest
      have hmapped : mem'.host.allows (fun _ => true) (m.baseAddr + rela.offset) 8 := by
        intro k hk
        have hsite := mapped_of_applyRela hrela hS (k := k)
          (by rw [patchBytes_relative htype, length_toBytes]; exact hk)
        rw [foldlM_applyRela_patch hfirst] at hsite
        rw [hmem']
        obtain ⟨prot, hprot⟩ := Option.ne_none_iff_exists'.mp hsite
        exact ⟨prot, hprot, rfl⟩
      have hread : read mem'.host.bytes (m.baseAddr + rela.offset) 8 =
          toBytes 8 (m.baseAddr + rela.addend) := by
        rw [hmem']
        exact read_patch_of_last (by simp) (by simpa using hafter) _
      rw [if_neg (Option.some_ne_none S), wordAt, if_pos hmapped, hread,
        ofBytes_toBytes 8 _ le_rfl]

/-- **Base-relative relocations are applied**, all that have their site to themselves, exactly
if each of them has a symbol to look up, or none, or its word in place beforehand. -/
theorem relative_applied_iff (hm : r.modules.lookup id = some m)
    (h : applyRelocations os outside id r mem = .ok (true, mem')) :
    (∀ rela, AloneAtSite os outside id m r mem rela →
      wordAt mem' (m.baseAddr + rela.offset) = some (m.baseAddr + rela.addend)) ↔
    ∀ rela, AloneAtSite os outside id m r mem rela →
      HasSymbol id m r rela ∨
        wordAt mem (m.baseAddr + rela.offset) = some (m.baseAddr + rela.addend) := by
  rw [applyRelocations, hm] at h
  obtain ⟨mem₁, hsections, h⟩ := bind_eq_ok h
  cases h
  refine forall_congr' fun rela => forall_congr' fun halone => ?_
  rw [wordAt_of_aloneAtSite hsections halone, ← symbolValue_ne_none_iff]
  split_ifs with hS
  · simp [hS]
  · simp [hS]

end Relative

/-- An executable at 0x400000 with one record, of type 8 and with symbol 0, at 0x400800. -/
def relocatable (symbols : List Symbol) : ExecutableInfo where
  imageBase := 0x400000
  symbols := symbols
  relaSections := [{ offset := 0x800, size := 24 }]

/-- The registry with the executable. -/
def withRelocatable (symbols : List Symbol) : RegistryState :=
  (register [0x61] [] (relocatable symbols) true {}).2

/-- Its page, which can be read and written. -/
def relocatablePage : Process where
  st := {}
  host :=
    { prot := fun a => if (a - 0x400000).toNat < 0x1000 then some (3 : Prot) else none
      bytes := write (fun _ => 0) 0x400808 [8, 0, 0, 0, 0, 0, 0, 0, 1] }

/-- The record. -/
def relocatableRela : Rela := ⟨0, 8, 1⟩

/-- It is the one record of the run. -/
theorem aloneAtSite_relocatable {symbols : List Symbol}
    (h : sectionRecords refusingOs (fun _ => none) 1
      (newDesc 1 [0x61] [] (relocatable symbols) true) (withRelocatable symbols)
      (relocatable symbols).relaSections relocatablePage = [relocatableRela]) :
    AloneAtSite refusingOs (fun _ => none) 1 (newDesc 1 [0x61] [] (relocatable symbols) true)
      (withRelocatable symbols) relocatablePage relocatableRela :=
  ⟨rfl, [], [], h, fun _ hother => absurd hother List.not_mem_nil⟩

/-- With no symbol table it is applied. -/
theorem relative_applied_iff_noSymbols : ∃ mem',
    applyRelocations refusingOs (fun _ => none) 1 (withRelocatable []) relocatablePage =
      .ok (true, mem') ∧
    ∀ rela, AloneAtSite refusingOs (fun _ => none) 1
        (newDesc 1 [0x61] [] (relocatable []) true) (withRelocatable []) relocatablePage rela →
      wordAt mem' (0x400000 + rela.offset) = some (0x400000 + rela.addend) := by
  have hrun : applyRelocations refusingOs (fun _ => none) 1 (withRelocatable []) relocatablePage =
      .ok (true, { relocatablePage with host :=
        { relocatablePage.host with
          bytes := write relocatablePage.host.bytes 0x400000 (toBytes 8 (0x400001 : U64)) } }) :=
    rfl
  refine ⟨_, hrun, ?_⟩
  apply (relative_applied_iff (m := newDesc 1 [0x61] [] (relocatable []) true) rfl hrun).mpr
  intro rela _
  left
  intro sym hsym
  cases hsym

/-- With the null symbol, which every ELF symbol table begins with, it is skipped. -/
theorem not_relative_applied_nullSymbol : ∃ mem',
    applyRelocations refusingOs (fun _ => none) 1 (withRelocatable [{}]) relocatablePage =
      .ok (true, mem') ∧
    ¬ ∀ rela, AloneAtSite refusingOs (fun _ => none) 1
        (newDesc 1 [0x61] [] (relocatable [{}]) true) (withRelocatable [{}]) relocatablePage
        rela →
      wordAt mem' (0x400000 + rela.offset) = some (0x400000 + rela.addend) := by
  refine ⟨relocatablePage, rfl, fun h => ?_⟩
  have hword := h relocatableRela (aloneAtSite_relocatable rfl)
  exact absurd hword (by decide)

end ModuleRegistry
