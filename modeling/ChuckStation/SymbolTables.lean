/-
# Symbol tables and the relocations linked to them

`InspectElf` puts the symbols of all the symbol tables of a file into one list, and does not keep
the section that a relocation section is linked to.  `ApplyRelocations` looks the index of a
record up in that list.  The tables are followed here entry by entry beside the list, so that an
entry has a place of its own in its table.
-/
import ChuckStation.ConcatenatedTables
import ChuckStation.ModuleRelocations

namespace Loader

open Memory ConcatenatedTables OperationRuns

/-! ## Tables, entry by entry -/

/-- The symbol loop, with nothing in the place of an entry that is skipped. -/
def inspectEntries (file : File) (strtab : List Byte) (off : U64) :
    ℕ → ℕ → Stream → Except HostAbort (List (Option Symbol) × Stream)
  | 0, _, s => .ok ([], s)
  | n + 1, i, s =>
    match readAt file (off + BitVec.ofNat 64 (i * symSize)) symSize s with
    | (none, s) => do
      let (rest, s) ← inspectEntries file strtab off n (i + 1) s
      pure (none :: rest, s)
    | (some bs, s) => do
      let elfsym := Sym.ofBytes bs
      let name ← nameAt strtab elfsym.st_name []
      let (rest, s) ← inspectEntries file strtab off n (i + 1) s
      let sym : Symbol :=
        { name := name, value := elfsym.st_value, size := elfsym.st_size
          binding := elfsym.st_info >>> 4, type := elfsym.st_info &&& 0xF
          visibility := elfsym.st_other &&& 0x3, shndx := elfsym.st_shndx }
      pure (some sym :: rest, s)

/-- `SHT_SYMTAB` or `SHT_DYNSYM`. -/
def Shdr.IsSymbolTable (sh : Shdr) : Prop := sh.sh_type = SHT_SYMTAB ∨ sh.sh_type = SHT_DYNSYM

instance (sh : Shdr) : Decidable sh.IsSymbolTable := inferInstanceAs (Decidable (_ ∨ _))

/-- The entries of a section, none if it is no symbol table. -/
def sectionEntries (heap : Heap) (file : File) (shdrs : List Shdr) (shstrtab : List Byte)
    (sh : Shdr) (s : Stream) : Except HostAbort (List (Option Symbol) × Stream) :=
  if sh.IsSymbolTable then do
    let (strtab, s) ← linkedTable heap file shdrs sh s
    inspectEntries file strtab sh.sh_offset (sh.sh_size.toNat / symSize) 0 s
  else do
    let (_, _, s) ← inspectSection heap file shdrs shstrtab sh s
    pure ([], s)

/-- The entries of all sections, section by section. -/
def sectionTables (heap : Heap) (file : File) (shdrs : List Shdr) (shstrtab : List Byte) :
    List Shdr → Stream → Except HostAbort (List (List (Option Symbol)))
  | [], _ => .ok []
  | sh :: rest, s => do
    let (entries, s) ← sectionEntries heap file shdrs shstrtab sh s
    let tables ← sectionTables heap file shdrs shstrtab rest s
    pure (entries :: tables)

/-- The section headers and the tables, as `inspectTables` goes through them. -/
def headerTables (heap : Heap) (file : File) (eh : Ehdr) (s : Stream) :
    Except HostAbort (List Shdr × List (List (Option Symbol))) := do
  let (shdrs, s) := sectionHeaders file eh s
  let (shstrtab, s) ← sectionNames heap file eh shdrs s
  let tables ← sectionTables heap file shdrs shstrtab shdrs s
  pure (shdrs, tables)

/-- The section headers and the tables of a file that `InspectElf` accepts. -/
def fileTables (heap : Heap) (file : File) : Option (List Shdr × List (List (Option Symbol))) :=
  match readAt file 0 ehdrSize {} with
  | (none, _) => none
  | (some bs, s) =>
    let eh := Ehdr.ofBytes bs
    if eh.check ≠ .Ok then none
    else
      match headerTables heap file eh (inspectPhdrs file eh.e_phoff eh.e_phnum.toNat 0 s).2 with
      | .error _ => none
      | .ok x => some x

section Reading

variable {heap : Heap} {file : File} {shdrs sections : List Shdr} {shstrtab strtab : List Byte}
  {sh : Shdr} {off : U64} {n i : ℕ} {s s' : Stream}

/-! ### The list and the tables -/

/-- The symbols are the entries that are there. -/
theorem inspectSymbols_eq : inspectSymbols file strtab off n i s =
    inspectEntries file strtab off n i s >>= fun x => .ok (x.1.reduceOption, x.2) := by
  induction n generalizing i s with
  | zero => rfl
  | succ n ih =>
      rw [inspectSymbols, inspectEntries]
      rcases readAt file (off + BitVec.ofNat 64 (i * symSize)) symSize s with ⟨_ | bs, s₁⟩
      · dsimp only
        rw [ih]
        cases inspectEntries file strtab off n (i + 1) s₁ with
        | error e => rfl
        | ok x => rfl
      · dsimp only
        rw [ih]
        cases nameAt strtab (Sym.ofBytes bs).st_name [] with
        | error e => rfl
        | ok name =>
            simp only [ok_bind]
            cases inspectEntries file strtab off n (i + 1) s₁ with
            | error e => rfl
            | ok x => rfl

/-- A section that is no symbol table has no symbols. -/
theorem inspectSection_nil {symbols : List Symbol} {relas : List RelaSection}
    (hsym : ¬ sh.IsSymbolTable)
    (h : inspectSection heap file shdrs shstrtab sh s = .ok (symbols, relas, s')) :
    symbols = [] := by
  rw [inspectSection, if_neg (show ¬ (_ ∨ _) from hsym)] at h
  split_ifs at h
  · obtain ⟨name, -, h⟩ := bind_eq_ok h
    obtain ⟨⟨data, s₁⟩, -, h⟩ := bind_eq_ok h
    cases h
    rfl
  · cases h
    rfl

theorem inspectSection_of_symbolTable (hsym : sh.IsSymbolTable) :
    inspectSection heap file shdrs shstrtab sh s =
      sectionEntries heap file shdrs shstrtab sh s >>= fun x =>
        .ok (x.1.reduceOption, [], x.2) := by
  rw [inspectSection, if_pos (show _ ∨ _ from hsym), sectionEntries, if_pos hsym]
  cases linkedTable heap file shdrs sh s with
  | error e => rfl
  | ok x =>
      simp only [ok_bind]
      rw [inspectSymbols_eq]
      cases inspectEntries file x.1 sh.sh_offset (sh.sh_size.toNat / symSize) 0 x.2 with
      | error e => rfl
      | ok y => rfl

/-- One section: its symbols are its entries that are there. -/
theorem inspectSection_iff {symbols : List Symbol} :
    (∃ relas, inspectSection heap file shdrs shstrtab sh s = .ok (symbols, relas, s')) ↔
      ∃ entries, sectionEntries heap file shdrs shstrtab sh s = .ok (entries, s') ∧
        symbols = entries.reduceOption := by
  by_cases hsym : sh.IsSymbolTable
  · rw [inspectSection_of_symbolTable hsym]
    constructor
    · rintro ⟨relas, h⟩
      obtain ⟨⟨entries, s₁⟩, hentries, h⟩ := bind_eq_ok h
      cases h
      exact ⟨entries, hentries, rfl⟩
    · rintro ⟨entries, hentries, rfl⟩
      exact ⟨[], by rw [hentries, ok_bind]⟩
  · rw [sectionEntries, if_neg hsym]
    constructor
    · rintro ⟨relas, h⟩
      exact ⟨[], by rw [h]; rfl, inspectSection_nil hsym h⟩
    · rintro ⟨entries, hentries, rfl⟩
      obtain ⟨⟨symbols, relas, s₁⟩, h, hentries⟩ := bind_eq_ok hentries
      cases hentries
      rw [h, inspectSection_nil hsym h]
      exact ⟨relas, rfl⟩

/-- All sections: the symbols are the entries of all the tables that are there. -/
theorem inspectSections_iff {symbols : List Symbol} :
    (∃ relas, inspectSections heap file shdrs shstrtab sections s = .ok (symbols, relas)) ↔
      ∃ tables, sectionTables heap file shdrs shstrtab sections s = .ok tables ∧
        symbols = tables.flatten.reduceOption := by
  induction sections generalizing s symbols with
  | nil =>
      constructor
      · rintro ⟨relas, h⟩
        cases h
        exact ⟨[], rfl, rfl⟩
      · rintro ⟨tables, h, rfl⟩
        cases h
        exact ⟨[], rfl⟩
  | cons sh rest ih =>
      rw [inspectSections, sectionTables]
      constructor
      · rintro ⟨relas, h⟩
        obtain ⟨⟨symbols₁, relas₁, s₁⟩, hsection, h⟩ := bind_eq_ok h
        obtain ⟨⟨symbols₂, relas₂⟩, hrest, h⟩ := bind_eq_ok h
        cases h
        obtain ⟨entries, hentries, rfl⟩ := inspectSection_iff.mp ⟨relas₁, hsection⟩
        obtain ⟨tables, htables, rfl⟩ := ih.mp ⟨relas₂, hrest⟩
        refine ⟨entries :: tables, ?_, ?_⟩
        · rw [hentries, ok_bind]
          dsimp only
          rw [htables]
          rfl
        · rw [List.flatten_cons, List.reduceOption_append]
      · rintro ⟨tables, h, rfl⟩
        obtain ⟨⟨entries, s₁⟩, hentries, h⟩ := bind_eq_ok h
        obtain ⟨tables', htables, h⟩ := bind_eq_ok h
        cases h
        obtain ⟨relas₁, hsection⟩ := inspectSection_iff.mpr ⟨entries, hentries, rfl⟩
        obtain ⟨relas₂, hrest⟩ := ih.mpr ⟨tables', htables, rfl⟩
        refine ⟨relas₁ ++ relas₂, ?_⟩
        rw [hsection, ok_bind]
        dsimp only
        rw [hrest, List.flatten_cons, List.reduceOption_append]
        rfl

theorem inspectTables_iff {eh : Ehdr} {symbols : List Symbol} :
    (∃ relas, inspectTables heap file eh s = .ok (symbols, relas)) ↔
      ∃ shdrs tables, headerTables heap file eh s = .ok (shdrs, tables) ∧
        symbols = tables.flatten.reduceOption := by
  rw [inspectTables, headerTables]
  rcases sectionHeaders file eh s with ⟨shdrs, s₁⟩
  dsimp only
  cases hnames : sectionNames heap file eh shdrs s₁ with
  | error e =>
      constructor
      · rintro ⟨relas, h⟩
        cases h
      · rintro ⟨shdrs', tables, h, -⟩
        cases h
  | ok x =>
      simp only [ok_bind]
      rw [inspectSections_iff]
      constructor
      · rintro ⟨tables, htables, hsymbols⟩
        exact ⟨shdrs, tables, by rw [htables]; rfl, hsymbols⟩
      · rintro ⟨shdrs', tables, h, hsymbols⟩
        obtain ⟨tables', htables, h⟩ := bind_eq_ok h
        cases h
        exact ⟨tables, htables, hsymbols⟩

/-- **`InspectElf` keeps the entries that are there** of all the tables of the file, and accepts
the files that have their tables here. -/
theorem inspectElf_iff (path : List Byte) (out : ExecutableInfo) {symbols : List Symbol} :
    (∃ info, inspectElf heap path (some file) out = (.returned .Ok, info) ∧
        info.symbols = symbols) ↔
      ∃ shdrs tables, fileTables heap file = some (shdrs, tables) ∧
        symbols = tables.flatten.reduceOption := by
  rw [inspectElf, fileTables]
  rcases readAt file 0 ehdrSize {} with ⟨_ | bs, s⟩
  · simp
  dsimp only
  by_cases hcheck : (Ehdr.ofBytes bs).check = .Ok
  swap
  · rw [if_pos hcheck, if_pos hcheck]
    simp [hcheck]
  rw [if_neg (not_not_intro hcheck), if_neg (not_not_intro hcheck)]
  rcases inspectPhdrs file (Ehdr.ofBytes bs).e_phoff (Ehdr.ofBytes bs).e_phnum.toNat 0 s with
    ⟨segments, s₁⟩
  dsimp only
  constructor
  · rintro ⟨info, h, rfl⟩
    rcases hinspect : inspectTables heap file (Ehdr.ofBytes bs) s₁ with e | ⟨symbols', relas⟩
    · rw [hinspect] at h
      cases h
    · rw [hinspect] at h
      cases h
      obtain ⟨shdrs, tables, htables, hsymbols⟩ := inspectTables_iff.mp ⟨relas, hinspect⟩
      exact ⟨shdrs, tables, by rw [htables], hsymbols⟩
  · rintro ⟨shdrs, tables, h, rfl⟩
    cases hheader : headerTables heap file (Ehdr.ofBytes bs) s₁ with
    | error e =>
        rw [hheader] at h
        cases h
    | ok x =>
        rw [hheader] at h
        cases h
        obtain ⟨relas, hinspect⟩ := inspectTables_iff.mpr ⟨shdrs, tables, hheader, rfl⟩
        rw [hinspect]
        exact ⟨_, rfl, rfl⟩

/-! ### After a read that fails -/

/-- A stream that has failed stays so, and a read that fails leaves it so. -/
theorem readAt_failed {bs : Option (List Byte)} (h : readAt file off n s = (bs, s')) :
    (s.failed = true → bs = none ∧ s'.failed = true) ∧ (bs = none → s'.failed = true) := by
  rw [readAt, Stream.read] at h
  split_ifs at h with hfailed hseek
  · cases h
    exact ⟨fun _ => ⟨rfl, hfailed⟩, fun _ => hfailed⟩
  · cases h
    exact ⟨fun _ => ⟨rfl, rfl⟩, fun _ => rfl⟩
  · cases hlen : ((file.bytes.drop off.toNat).take n).length == n with
    | true =>
        simp only [hlen] at h
        cases h
        exact ⟨fun hs => absurd hs hfailed, fun hno => absurd hno (Option.some_ne_none _)⟩
    | false =>
        simp only [hlen] at h
        cases h
        exact ⟨fun _ => ⟨rfl, rfl⟩, fun _ => rfl⟩

theorem readTable_failed {table : List Byte} (h : readTable heap file sh s = .ok (table, s'))
    (hs : s.failed = true) : s'.failed = true := by
  rw [readTable] at h
  obtain ⟨-, -, h⟩ := bind_eq_ok h
  have hread : s.read file sh.sh_offset sh.sh_size.toNat = ([], false, s) := by
    rw [Stream.read, if_pos hs]
  rw [readBytes, hread] at h
  cases h
  exact hs

/-- A symbol table: the entries that were read, and then those that were not. -/
theorem settles_inspectEntries {entries : List (Option Symbol)}
    (h : inspectEntries file strtab off n i s = .ok (entries, s')) :
    Settles s.failed entries s'.failed := by
  induction n generalizing i s entries with
  | zero =>
      cases h
      exact settles_nil id
  | succ n ih =>
      rw [inspectEntries] at h
      rcases hread : readAt file (off + BitVec.ofNat 64 (i * symSize)) symSize s with ⟨_ | bs, s₁⟩
      · rw [hread] at h
        obtain ⟨⟨rest, s₂⟩, hrest, h⟩ := bind_eq_ok h
        cases h
        have hfirst : Settles s.failed [(none : Option Symbol)] s₁.failed := by
          rw [(readAt_failed hread).2 rfl]
          exact settles_none
        exact hfirst.append (ih hrest)
      · rw [hread] at h
        obtain ⟨name, -, h⟩ := bind_eq_ok h
        obtain ⟨⟨rest, s₂⟩, hrest, h⟩ := bind_eq_ok h
        cases h
        have hgood : s.failed = false := by
          apply eq_false_of_ne_true
          intro hs
          exact absurd ((readAt_failed hread).1 hs).1 (Option.some_ne_none bs)
        exact (settles_some hgood).append (ih hrest)

theorem settles_sectionEntries {entries : List (Option Symbol)}
    (h : sectionEntries heap file shdrs shstrtab sh s = .ok (entries, s')) :
    Settles s.failed entries s'.failed := by
  rw [sectionEntries] at h
  split_ifs at h with hsym
  · obtain ⟨⟨strtab, s₁⟩, htable, h⟩ := bind_eq_ok h
    have hkeep : s.failed = true → s₁.failed = true := by
      intro hs
      rw [linkedTable] at htable
      split at htable
      · exact readTable_failed htable hs
      · cases htable
        exact hs
    exact (settles_nil hkeep).append (settles_inspectEntries h)
  · obtain ⟨⟨symbols, relas, s₁⟩, hsection, h⟩ := bind_eq_ok h
    cases h
    apply settles_nil
    intro hs
    rw [inspectSection, if_neg (show ¬ (_ ∨ _) from hsym)] at hsection
    split_ifs at hsection
    · obtain ⟨name, -, hsection⟩ := bind_eq_ok hsection
      obtain ⟨⟨data, s₂⟩, hdata, hsection⟩ := bind_eq_ok hsection
      cases hsection
      exact readTable_failed hdata hs
    · cases hsection
      exact hs

/-- All tables. -/
theorem settles_sectionTables {tables : List (List (Option Symbol))}
    (h : sectionTables heap file shdrs shstrtab sections s = .ok tables) :
    ∃ f, Settles s.failed tables.flatten f := by
  induction sections generalizing s tables with
  | nil =>
      cases h
      exact ⟨_, settles_nil id⟩
  | cons sh rest ih =>
      rw [sectionTables] at h
      obtain ⟨⟨entries, s₁⟩, hentries, h⟩ := bind_eq_ok h
      obtain ⟨tables', htables, h⟩ := bind_eq_ok h
      cases h
      obtain ⟨f, hrest⟩ := ih htables
      exact ⟨f, (settles_sectionEntries hentries).append hrest⟩

theorem length_sectionTables {tables : List (List (Option Symbol))}
    (h : sectionTables heap file shdrs shstrtab sections s = .ok tables) :
    tables.length = sections.length := by
  induction sections generalizing s tables with
  | nil =>
      cases h
      rfl
  | cons sh rest ih =>
      rw [sectionTables] at h
      obtain ⟨⟨entries, s₁⟩, -, h⟩ := bind_eq_ok h
      obtain ⟨tables', htables, h⟩ := bind_eq_ok h
      cases h
      rw [List.length_cons, List.length_cons, ih htables]

/-- Every section has its table, and the entries of all are those that were read and then those
that were not. -/
theorem fileTables_spec {tables : List (List (Option Symbol))}
    (h : fileTables heap file = some (shdrs, tables)) :
    tables.length = shdrs.length ∧ ∃ f f', Settles f tables.flatten f' := by
  have hheader : ∃ eh s, headerTables heap file eh s = .ok (shdrs, tables) := by
    rw [fileTables] at h
    split at h
    · cases h
    · dsimp only at h
      split_ifs at h
      split at h
      · cases h
      · rename_i x hx
        cases h
        exact ⟨_, _, hx⟩
  obtain ⟨eh, s, hheader⟩ := hheader
  rw [headerTables] at hheader
  rcases sectionHeaders file eh s with ⟨shdrs₁, s₁⟩
  obtain ⟨⟨shstrtab, s₂⟩, -, hheader⟩ := bind_eq_ok hheader
  obtain ⟨tables', htables, hheader⟩ := bind_eq_ok hheader
  cases hheader
  obtain ⟨f', hsettles⟩ := settles_sectionTables htables
  exact ⟨length_sectionTables htables, _, f', hsettles⟩

/-! ### What becomes of the symbols -/

/-- Mapping a file keeps its symbols. -/
theorem symbols_loadExecutable {os : Os} {path : List Byte} {inspected mapped : Option File}
    {out info : ExecutableInfo} {st st' : State}
    (h : loadExecutable os heap path inspected mapped out st = (.returned .Ok, info, st')) :
    ∃ info', inspectElf heap path inspected out = (.returned .Ok, info') ∧
      info.symbols = info'.symbols := by
  rw [loadExecutable] at h
  rcases hinspect : inspectElf heap path inspected out with ⟨e, info'⟩
  rw [hinspect] at h
  dsimp only at h
  split_ifs at h with hok hvalid hmap
  · exact absurd (Prod.mk.inj h).1 hok
  · exact absurd (Exit.returned.inj (Prod.mk.inj h).1) hvalid
  · exact absurd (Prod.mk.inj h).1 hmap
  · refine ⟨info', by rw [not_not.mp hok], ?_⟩
    rcases hsegments : mapSegments os heap path mapped info' st.mem with ⟨e', info₁, mem⟩
    rw [hsegments] at h hmap
    obtain ⟨-, h⟩ := Prod.mk.inj h
    obtain ⟨rfl, -⟩ := Prod.mk.inj h
    dsimp only at hmap
    rw [not_not.mp hmap] at hsegments
    obtain ⟨f, segs, st₁, -, -, rfl, -⟩ := mapSegments_eq_ok hsegments
    rfl

end Reading

end Loader

namespace ModuleRegistry

open Memory Loader LittleEndian ConcatenatedTables OperationRuns

/-! ## The symbol of a record -/

/-- The symbol whose value `ApplyRelocations` takes for a record. -/
def usedSymbol (m : ModuleDesc) (rela : Rela) : Option Symbol :=
  m.elfInfo.symbols[rela.symId.toNat]?

/-- The value that is taken for a symbol, and for none. -/
def valueOf (id : ModuleId) (m : ModuleDesc) (r : RegistryState) : Option Symbol → Option U64
  | none => some 0
  | some sym =>
    if sym.shndx ≠ 0 then some (m.baseAddr + sym.value)
    else if externalValue id sym.name r = 0 then none
    else some (externalValue id sym.name r)

theorem symbolValue_eq_valueOf (id : ModuleId) (m : ModuleDesc) (r : RegistryState) (rela : Rela) :
    symbolValue id m r rela = valueOf id m r (usedSymbol m rela) := by
  rw [symbolValue, usedSymbol]
  cases m.elfInfo.symbols[rela.symId.toNat]? with
  | none => rfl
  | some sym => rfl

/-- Some relocation section is linked to the symbol table with these entries, and these are the
entries of the sections before that table. -/
def LinkedTo (shdrs : List Shdr) (tables : List (List (Option Symbol)))
    (entries earlier : List (Option Symbol)) : Prop :=
  ∃ rs ∈ shdrs, rs.sh_type = SHT_RELA ∧
    ∃ sh, shdrs[rs.sh_link.toNat]? = some sh ∧ sh.IsSymbolTable ∧
      tables[rs.sh_link.toNat]? = some entries ∧
      earlier = (tables.take rs.sh_link.toNat).flatten

/-- A record of a relocation section uses, for the index of an entry, the entry of the table that
the section is linked to. -/
def UsesLinkedTable (heap : Heap) (path : List Byte) (file : File) (out : ExecutableInfo) : Prop :=
  ∀ info m shdrs tables entries earlier,
    inspectElf heap path (some file) out = (.returned .Ok, info) →
    m.elfInfo.symbols = info.symbols → fileTables heap file = some (shdrs, tables) →
    LinkedTo shdrs tables entries earlier → ∀ rela : Rela, rela.symId.toNat < entries.length →
      entries[rela.symId.toNat]? = some (usedSymbol m rela)

/-- No symbol was read before such a table, or the table repeats those that were. -/
def FirstOrRepeats (heap : Heap) (file : File) : Prop :=
  ∀ shdrs tables entries earlier, fileTables heap file = some (shdrs, tables) →
    LinkedTo shdrs tables entries earlier →
      earlier.reduceOption = [] ∨
        ∀ i < 2 ^ 32, i < entries.length →
          entries[i]? = some earlier.reduceOption[i % earlier.reduceOption.length]?

section Used

variable {heap : Heap} {path : List Byte} {file : File} {out : ExecutableInfo}

/-- The module that `Load` makes has the symbols that were inspected. -/
theorem symbols_load {os : Os} {outside : U64 → Option Byte} {mapped : Option File}
    {r r' : RegistryState} {s s' : State} {id : ModuleId}
    (hnew : r.byName.lookup (filename path) = none) (hid : id ≠ INVALID_MODULE)
    (h : load os heap outside path (some file) mapped r s = .ok (id, r', s')) :
    ∃ info m, inspectElf heap path (some file) {} = (.returned .Ok, info) ∧
      r'.modules.lookup id = some m ∧ m.elfInfo.symbols = info.symbols := by
  rw [load, hnew] at h
  dsimp only at h
  rcases hload : loadExecutable os heap path (some file) mapped {} s with ⟨res | e, elfInfo, s₁⟩
  · rw [hload] at h
    dsimp only at h
    split_ifs at h with hres hwrapped
    · cases h
      exact absurd rfl hid
    · cases h
      exact absurd hwrapped hid
    · rw [not_not.mp hres] at hload
      obtain ⟨info, hinspect, hsymbols⟩ := symbols_loadExecutable hload
      obtain ⟨⟨ok, mem⟩, -, h⟩ := bind_eq_ok h
      cases h
      rw [register_of_none hnew]
      exact ⟨info, _, hinspect, AList.lookup_insert _, hsymbols⟩
  · rw [hload] at h
    cases h

/-- Every index is the index of some record. -/
theorem exists_symId {i : ℕ} (hi : i < 2 ^ 32) : ∃ rela : Rela, rela.symId.toNat = i := by
  refine ⟨⟨0, BitVec.ofNat 64 (i * 2 ^ 32), 0⟩, ?_⟩
  rw [Rela.symId, BitVec.toNat_setWidth, BitVec.toNat_ushiftRight, BitVec.toNat_ofNat,
    Nat.shiftRight_eq_div_pow]
  omega

/-- The entries of one linked table. -/
theorem linked_iff {shdrs : List Shdr} {tables : List (List (Option Symbol))}
    {entries earlier : List (Option Symbol)} (htables : fileTables heap file = some (shdrs, tables))
    (hlinked : LinkedTo shdrs tables entries earlier) :
    (∀ i < 2 ^ 32, i < entries.length → entries[i]? = some tables.flatten.reduceOption[i]?) ↔
      earlier.reduceOption = [] ∨
        ∀ i < 2 ^ 32, i < entries.length →
          entries[i]? = some earlier.reduceOption[i % earlier.reduceOption.length]? := by
  obtain ⟨rs, -, -, sh, -, -, hentries, rfl⟩ := hlinked
  obtain ⟨-, f, f', xs, c, hsettled, -⟩ := fileTables_spec htables
  obtain ⟨hlt, rfl⟩ := List.getElem?_eq_some_iff.mp hentries
  have hsplit : (tables.take rs.sh_link.toNat).flatten ++ tables[rs.sh_link.toNat] ++
      (tables.drop (rs.sh_link.toNat + 1)).flatten = xs.map some ++ List.replicate c none := by
    rw [← hsettled, List.append_assoc, ← List.flatten_cons, ← List.drop_eq_getElem_cons hlt,
      ← List.flatten_append, List.take_append_drop]
  rw [reduceOption_of_settled hsettled]
  exact found_iff hsplit (2 ^ 32)

/-- **Relocations use their own symbol tables** exactly if no symbol was read before a table that
one is linked to, or the table repeats what was read before it. -/
theorem usesLinkedTable_iff (heap : Heap) (path : List Byte) (file : File)
    (out : ExecutableInfo) : UsesLinkedTable heap path file out ↔ FirstOrRepeats heap file := by
  constructor
  · intro h shdrs tables entries earlier htables hlinked
    obtain ⟨info, hinspect, hsymbols⟩ :=
      (inspectElf_iff path out).mpr ⟨shdrs, tables, htables, rfl⟩
    refine (linked_iff htables hlinked).mp fun i hi hlen => ?_
    obtain ⟨rela, rfl⟩ := exists_symId hi
    have hused := h info (newDesc 1 [] [] info false) shdrs tables entries earlier hinspect rfl
      htables hlinked rela hlen
    rw [hused, usedSymbol, ← hsymbols]
    rfl
  · intro h info m shdrs tables entries earlier hinspect hm htables hlinked rela hlen
    obtain ⟨shdrs', tables', htables', hsymbols⟩ :=
      (inspectElf_iff path out).mp ⟨info, hinspect, rfl⟩
    rw [htables] at htables'
    cases htables'
    have hi : rela.symId.toNat < 2 ^ 32 := rela.symId.isLt
    rw [(linked_iff htables hlinked).mpr (h shdrs tables entries earlier htables hlinked) _ hi
      hlen, usedSymbol, hm, hsymbols]

end Used

/-! ## Two tables -/

/-- The bytes of a section header. -/
def shdrBytes (sh : Shdr) : List Byte :=
  toBytes 4 sh.sh_name ++ toBytes 4 sh.sh_type ++ toBytes 8 (0 : U64) ++ toBytes 8 (0 : U64) ++
    toBytes 8 sh.sh_offset ++ toBytes 8 sh.sh_size ++ toBytes 4 sh.sh_link ++
    toBytes 4 (0 : U32) ++ toBytes 8 (8 : U64) ++ toBytes 8 (24 : U64)

/-- The bytes of a symbol without a name, in section 1. -/
def symBytes (value : U64) : List Byte :=
  toBytes 4 (0 : U32) ++ [0x12, 0] ++ toBytes 2 (1 : U16) ++ toBytes 8 value ++ toBytes 8 (0 : U64)

/-- A symbol table, a table of dynamic symbols and relocations linked to the latter. -/
def twoTableHeaders : List Shdr :=
  [⟨0, SHT_SYMTAB, 256, 48, 9⟩, ⟨0, SHT_DYNSYM, 304, 48, 9⟩, ⟨0, SHT_RELA, 352, 24, 1⟩]

/-- The file: of the two symbols of the tables, the second is at 16 in one and at 32 in the
other, and the one record has index 1. -/
def twoTableFile : File where
  bytes :=
    [0x7F, 0x45, 0x4C, 0x46, 2, 1, 1, 0, 0, 0, 0, 0, 0, 0, 0, 0] ++ toBytes 2 ET_DYN ++
      toBytes 2 EM_X86_64 ++ toBytes 4 (1 : U32) ++ toBytes 8 (0 : U64) ++ toBytes 8 (0 : U64) ++
      toBytes 8 (64 : U64) ++ toBytes 4 (0 : U32) ++ toBytes 2 (64 : U16) ++
      toBytes 2 (56 : U16) ++ toBytes 2 (0 : U16) ++ toBytes 2 (64 : U16) ++ toBytes 2 (3 : U16) ++
      toBytes 2 (9 : U16) ++ twoTableHeaders.flatMap shdrBytes ++ symBytes 0 ++ symBytes 16 ++
      symBytes 0 ++ symBytes 32 ++
      toBytes 8 (0x1000 : U64) ++ toBytes 8 (0x100000001 : U64) ++ toBytes 8 (0 : U64)

/-- A heap that grants everything. -/
def grantingHeap : Heap := ⟨fun _ => true, fun _ => 0⟩

/-- The symbol of an entry of such a table. -/
def symbolAt (value : U64) : Symbol :=
  { value := value, binding := 1, type := 2, shndx := 1 }

theorem fileTables_twoTables : fileTables grantingHeap twoTableFile =
    some (twoTableHeaders, [[some (symbolAt 0), some (symbolAt 16)],
      [some (symbolAt 0), some (symbolAt 32)], []]) := rfl

/-- The record uses the second symbol of the first table, not of its own. -/
theorem not_usesLinkedTable_twoTables :
    ¬ UsesLinkedTable grantingHeap [] twoTableFile {} := by
  intro h
  obtain ⟨info, hinspect, hsymbols⟩ :=
    (inspectElf_iff [] {}).mpr ⟨_, _, fileTables_twoTables, rfl⟩
  have hlinked : LinkedTo twoTableHeaders
      [[some (symbolAt 0), some (symbolAt 16)], [some (symbolAt 0), some (symbolAt 32)], []]
      [some (symbolAt 0), some (symbolAt 32)] [some (symbolAt 0), some (symbolAt 16)] :=
    ⟨⟨0, SHT_RELA, 352, 24, 1⟩, by decide, rfl, ⟨0, SHT_DYNSYM, 304, 48, 9⟩, rfl, by decide, rfl,
      rfl⟩
  have hused := h info (newDesc 1 [] [] info false) _ _ _ _ hinspect rfl fileTables_twoTables
    hlinked ⟨0x1000, 0x100000001, 0⟩ (by decide)
  rw [usedSymbol, show (newDesc 1 [] [] info false).elfInfo.symbols = info.symbols from rfl,
    hsymbols] at hused
  exact absurd hused (by decide)

end ModuleRegistry
