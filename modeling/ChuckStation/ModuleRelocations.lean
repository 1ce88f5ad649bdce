/-
# Relocations of a module

`ApplyRelocations`, and `Load`, which ends with it.  The loop reads its table from the memory
of the process, record by record, and patches the same memory; so what it reads next may
depend on what it wrote.  The records it comes to are listed here by a function of their own,
and the loop is a fold over them.
-/
import ChuckStation.LoaderEffects
import ChuckStation.ModuleRegistry
import ChuckStation.OperationRuns

namespace ModuleRegistry

open Memory Loader LittleEndian OperationRuns

/-! ## Relocation records -/

/-- `struct Elf64Rela`. -/
structure Rela where
  offset : U64
  info : U64
  addend : U64
  deriving DecidableEq, Repr

/-- `sizeof(Elf64Rela)`. -/
abbrev relaSize : ℕ := 24

def Rela.ofBytes (bs : List Byte) : Rela where
  offset := fieldAt 64 0 bs
  info := fieldAt 64 8 bs
  addend := fieldAt 64 16 bs

namespace Rela

def type (rela : Rela) : U32 := rela.info.setWidth 32

def symId (rela : Rela) : U32 := (rela.info >>> 32).setWidth 32

end Rela

abbrev R_X86_64_NONE : U32 := 0
abbrev R_X86_64_64 : U32 := 1
abbrev R_X86_64_PC32 : U32 := 2
abbrev R_X86_64_GLOB_DAT : U32 := 6
abbrev R_X86_64_JUMP_SLOT : U32 := 7
abbrev R_X86_64_RELATIVE : U32 := 8
abbrev R_X86_64_32 : U32 := 10
abbrev R_X86_64_32S : U32 := 11

/-! ## Symbol values -/

/-- Where a module defines the name: its first symbol of that name with a section, 0 if it
has none. -/
def definitionIn (name : List Byte) (m : ModuleDesc) : U64 :=
  match m.elfInfo.symbols.find? fun sym => sym.name == name && sym.shndx != 0 with
  | some sym => m.baseAddr + sym.value
  | none => 0

/-- The search through the other modules; the first value other than 0 ends it. -/
def externalValue (id : ModuleId) (name : List Byte) (r : RegistryState) : U64 :=
  (((r.modules.entries.filter fun e => e.1 != id).map fun e => definitionIn name e.2).find?
    fun v => v != 0).getD 0

/-- `S`; nothing for a record that is skipped because its symbol is not found. -/
def symbolValue (id : ModuleId) (m : ModuleDesc) (r : RegistryState) (rela : Rela) : Option U64 :=
  match m.elfInfo.symbols[rela.symId.toNat]? with
  | none => some 0
  | some sym =>
    if sym.shndx ≠ 0 then some (m.baseAddr + sym.value)
    else if externalValue id sym.name r = 0 then none
    else some (externalValue id sym.name r)

/-! ## Patches -/

/-- What a record with symbol value `S` has written at its site, `P`. -/
def patchBytes (base S : U64) (rela : Rela) : List Byte :=
  let P := base + rela.offset
  if rela.type = R_X86_64_64 then toBytes 8 (S + rela.addend)
  else if rela.type = R_X86_64_PC32 then toBytes 4 ((S + rela.addend - P).setWidth 32)
  else if rela.type = R_X86_64_GLOB_DAT then toBytes 8 S
  else if rela.type = R_X86_64_JUMP_SLOT then toBytes 8 S
  else if rela.type = R_X86_64_RELATIVE then toBytes 8 (base + rela.addend)
  else if rela.type = R_X86_64_32 then toBytes 4 ((S + rela.addend).setWidth 32)
  else if rela.type = R_X86_64_32S then toBytes 4 ((S + rela.addend).setWidth 32)
  else []

/-- The loop body.  A record that is skipped, of no type or of a type it does not know
changes nothing. -/
def applyRela (id : ModuleId) (m : ModuleDesc) (r : RegistryState) (rela : Rela)
    (mem : Process) : Except HostAbort Process :=
  match symbolValue id m r rela with
  | none => .ok mem
  | some S => store (m.baseAddr + rela.offset) (patchBytes m.baseAddr S rela) mem

/-! ## The loop -/

/-- The byte that a read of the process finds: in a page that can be read, or in what lies
`outside` the memory manager's pages (the data of the relocation sections does). -/
def peek (os : Os) (outside : U64 → Option Byte) (h : Host) (a : U64) : Option Byte :=
  match h.prot a with
  | some p => if os.canRead p then some (h.bytes a) else none
  | none => outside a

/-- `memcpy` from host memory. -/
def loadBytes (os : Os) (outside : U64 → Option Byte) (a : U64) (n : ℕ) (h : Host) :
    Except HostAbort (List Byte) :=
  match (List.range n).mapM fun i => peek os outside h (a + BitVec.ofNat 64 i) with
  | some bs => .ok bs
  | none => .error .segfault

section Loop

variable (os : Os) (outside : U64 → Option Byte) (id : ModuleId) (m : ModuleDesc)
  (r : RegistryState)

/-- The loop over the records at `data`. -/
def applyTable : ℕ → U64 → Process → Except HostAbort Process
  | 0, _, mem => .ok mem
  | count + 1, data, mem => do
    let bs ← loadBytes os outside data relaSize mem.host
    let mem ← applyRela id m r (Rela.ofBytes bs) mem
    applyTable count (data + BitVec.ofNat 64 relaSize) mem

/-- The loop over the relocation sections. -/
def applySections : List RelaSection → Process → Except HostAbort Process
  | [], mem => .ok mem
  | rs :: rest, mem => do
    let mem ← applyTable os outside id m r (rs.size.toNat / relaSize) (m.baseAddr + rs.offset) mem
    applySections rest mem

end Loop

/-- `ApplyRelocations`. -/
def applyRelocations (os : Os) (outside : U64 → Option Byte) (id : ModuleId) (r : RegistryState)
    (mem : Process) : Except HostAbort (Bool × Process) :=
  match r.modules.lookup id with
  | none => .ok (false, mem)
  | some m => do
    let mem ← applySections os outside id m r m.elfInfo.relaSections mem
    pure (true, mem)

/-- `Load`.  The file is opened twice. -/
def load (os : Os) (heap : Heap) (outside : U64 → Option Byte) (path : List Byte)
    (inspected mapped : Option File) (r : RegistryState) (s : State) :
    Except HostAbort (ModuleId × RegistryState × State) :=
  match r.byName.lookup (filename path) with
  | some id => .ok (id, addReference id r, s)
  | none =>
    match loadExecutable os heap path inspected mapped {} s with
    | (.abort e, _, _) => .error e
    | (.returned res, elfInfo, s) =>
      if res ≠ .Ok then .ok (INVALID_MODULE, r, s)
      else
        match register (filename path) path elfInfo false r with
        | (id, r) =>
          if id = INVALID_MODULE then .ok (id, r, s)
          else do
            let (_, mem) ← applyRelocations os outside id r s.mem
            pure (id, r, { s with mem := mem })

/-! ## The records of a run -/

section Records

variable {os : Os} {outside : U64 → Option Byte} {id : ModuleId} {m : ModuleDesc}
  {r : RegistryState}

/-- The records the loop over a table reads, in order, as far as it gets. -/
def tableRecords (os : Os) (outside : U64 → Option Byte) (id : ModuleId) (m : ModuleDesc)
    (r : RegistryState) : ℕ → U64 → Process → List Rela
  | 0, _, _ => []
  | count + 1, data, mem =>
    match loadBytes os outside data relaSize mem.host with
    | .error _ => []
    | .ok bs =>
      Rela.ofBytes bs ::
        match applyRela id m r (Rela.ofBytes bs) mem with
        | .error _ => []
        | .ok mem => tableRecords os outside id m r count (data + BitVec.ofNat 64 relaSize) mem

/-- The records of all sections. -/
def sectionRecords (os : Os) (outside : U64 → Option Byte) (id : ModuleId) (m : ModuleDesc)
    (r : RegistryState) : List RelaSection → Process → List Rela
  | [], _ => []
  | rs :: rest, mem =>
    let count := rs.size.toNat / relaSize
    let data := m.baseAddr + rs.offset
    tableRecords os outside id m r count data mem ++
      match applyTable os outside id m r count data mem with
      | .error _ => []
      | .ok mem => sectionRecords os outside id m r rest mem

/-- The loop over a table applies its records. -/
theorem foldlM_tableRecords {count : ℕ} {data : U64} {mem mem' : Process}
    (h : applyTable os outside id m r count data mem = .ok mem') :
    (tableRecords os outside id m r count data mem).foldlM
      (fun mem rela => applyRela id m r rela mem) mem = .ok mem' := by
  induction count generalizing data mem with
  | zero => exact h
  | succ count ih =>
      rw [applyTable] at h
      obtain ⟨bs, hbs, h⟩ := bind_eq_ok h
      obtain ⟨mem₁, hrela, h⟩ := bind_eq_ok h
      rw [tableRecords, hbs]
      dsimp only
      rw [hrela, List.foldlM_cons, hrela]
      exact ih h

/-- All the loops apply their records, one after another. -/
theorem foldlM_sectionRecords {sections : List RelaSection} {mem mem' : Process}
    (h : applySections os outside id m r sections mem = .ok mem') :
    (sectionRecords os outside id m r sections mem).foldlM
      (fun mem rela => applyRela id m r rela mem) mem = .ok mem' := by
  induction sections generalizing mem with
  | nil => exact h
  | cons rs rest ih =>
      rw [applySections] at h
      obtain ⟨mem₁, htable, h⟩ := bind_eq_ok h
      rw [sectionRecords, htable, List.foldlM_append, foldlM_tableRecords htable]
      exact ih h

/-- A patch changes bytes, and nothing else about the process. -/
theorem applyRela_eq_ok {rela : Rela} {mem mem' : Process}
    (h : applyRela id m r rela mem = .ok mem') :
    ∃ bytes, mem' = { mem with host := { mem.host with bytes := bytes } } := by
  rw [applyRela] at h
  split at h
  · cases h
    exact ⟨_, rfl⟩
  · obtain ⟨-, rfl⟩ := store_eq_ok h
    exact ⟨_, rfl⟩

/-- So do many. -/
theorem foldlM_applyRela_eq_ok {relas : List Rela} {mem mem' : Process}
    (h : relas.foldlM (fun mem rela => applyRela id m r rela mem) mem = .ok mem') :
    ∃ bytes, mem' = { mem with host := { mem.host with bytes := bytes } } := by
  induction relas generalizing mem with
  | nil =>
      cases h
      exact ⟨_, rfl⟩
  | cons rela relas ih =>
      rw [List.foldlM_cons] at h
      obtain ⟨mem₁, hrela, h⟩ := bind_eq_ok h
      obtain ⟨bytes₁, rfl⟩ := applyRela_eq_ok hrela
      obtain ⟨bytes, rfl⟩ := ih h
      exact ⟨bytes, rfl⟩

theorem applyRelocations_eq_ok {ok : Bool} {mem mem' : Process}
    (h : applyRelocations os outside id r mem = .ok (ok, mem')) :
    ∃ bytes, mem' = { mem with host := { mem.host with bytes := bytes } } := by
  rw [applyRelocations] at h
  split at h
  · cases h
    exact ⟨_, rfl⟩
  · obtain ⟨mem₁, hsections, h⟩ := bind_eq_ok h
    cases h
    exact foldlM_applyRela_eq_ok (foldlM_sectionRecords hsections)

/-- What a `Load` that returns has done: counted a known module, failed without a trace in the
registry, or registered what it loaded and patched some bytes. -/
theorem load_cases {heap : Heap} {path : List Byte} {inspected mapped : Option File}
    {s s' : State} {r' : RegistryState}
    (h : load os heap outside path inspected mapped r s = .ok (id, r', s')) :
    (∃ old, r.byName.lookup (filename path) = some old ∧ r' = addReference old r ∧ s' = s) ∨
    (r.byName.lookup (filename path) = none ∧
      (loadExecutable os heap path inspected mapped {} s).1 ≠ .returned .Ok ∧ r' = r ∧
      s' = (loadExecutable os heap path inspected mapped {} s).2.2) ∨
    (r.byName.lookup (filename path) = none ∧
      ∃ elfInfo s₁ bytes, loadExecutable os heap path inspected mapped {} s =
          (.returned .Ok, elfInfo, s₁) ∧
        r' = (register (filename path) path elfInfo false r).2 ∧
        s' = { s₁ with mem := { s₁.mem with host := { s₁.mem.host with bytes := bytes } } }) := by
  rw [load] at h
  cases hname : r.byName.lookup (filename path) with
  | some old =>
      rw [hname] at h
      cases h
      exact .inl ⟨_, rfl, rfl, rfl⟩
  | none =>
      rw [hname] at h
      right
      rcases hload : loadExecutable os heap path inspected mapped {} s with ⟨res | e, elfInfo, s₁⟩
      · rw [hload] at h
        dsimp only at h
        by_cases hok : res = .Ok
        · subst hok
          right
          refine ⟨rfl, elfInfo, s₁, ?_⟩
          rw [if_neg (by simp)] at h
          split_ifs at h
          · cases h
            exact ⟨_, rfl, rfl, rfl⟩
          · obtain ⟨⟨ok, mem⟩, hreloc, h⟩ := bind_eq_ok h
            cases h
            obtain ⟨bytes, rfl⟩ := applyRelocations_eq_ok hreloc
            exact ⟨bytes, rfl, rfl, rfl⟩
        · left
          rw [if_pos hok] at h
          cases h
          exact ⟨rfl, fun heq => hok (Exit.returned.inj heq), rfl, rfl⟩
      · rw [hload] at h
        cases h

end Records

end ModuleRegistry
