/-
# Relocations of the dynamic linker

`ApplyReloc`, which patches a site that it may have to make writable first.  Whether it has to
is what `IsWritable` says: the region table, or else a probe that has the kernel write zeros to
the site and puts the old bytes back if the kernel could.  If the kernel could only write some
of them, nobody puts these back.
-/
import ChuckStation.DependencyOrder
import ChuckStation.DynamicLinker
import ChuckStation.LoaderWrites

namespace Memory

open Loader ByteStore

/-! ## Probes -/

/-- The pipes of the probes: whether they open, and how many bytes a `read` from one stores at
an address before it comes to one that it may not write to. -/
structure Pipes where
  readOpens : Bool
  writeOpens : Bool
  stored : Host → U64 → ℕ → ℕ

/-- `IsReadable`. -/
def isReadable (os : Os) (pipes : Pipes) (p : Process) (base size : U64) : Bool :=
  hasProt p base size Prot.Read ||
    (pipes.readOpens && decide (p.host.allows os.canRead base size.toNat))

/-- How many addresses from `base` on can be written, up to `n`. -/
def writableFrom (h : Host) (base : U64) (n : ℕ) : ℕ :=
  ((List.range n).takeWhile fun i => (h.prot (base + BitVec.ofNat 64 i)).any canWrite).length

/-- A `read` of `n` zeros that fails: the kernel has stored some where it could. -/
def failedRead (pipes : Pipes) (base : U64) (n : ℕ) (p : Process) : Process :=
  let count := min (pipes.stored p.host base n) (writableFrom p.host base n)
  { p with host :=
    { p.host with bytes := write p.host.bytes base (List.replicate count 0) } }

/-- A `read` of `n` zeros, and the backup over them. -/
def fullRead (base : U64) (n : ℕ) (p : Process) : Process :=
  let zeroed := write p.host.bytes base (List.replicate n 0)
  { p with host :=
    { p.host with bytes := write zeroed base (read p.host.bytes base n) } }

/-- `IsWritable`. -/
def isWritable (os : Os) (pipes : Pipes) (p : Process) (base size : U64) :
    Except HostAbort (Bool × Process) :=
  if hasProt p base size Prot.Write then .ok (true, p)
  else if ¬ isReadable os pipes p base size then .ok (false, p)
  else if ¬ pipes.writeOpens then .ok (false, p)
  -- The backup is made by the process itself.
  else if ¬ p.host.allows os.canRead base size.toNat then .error .segfault
  else if p.host.allows canWrite base size.toNat then .ok (true, fullRead base size.toNat p)
  else .ok (false, failedRead pipes base size.toNat p)

end Memory

namespace DynamicLinker

open Memory Loader ModuleRegistry LittleEndian ByteStore OperationRuns

/-! ## Patches -/

/-- Making the site writable, patching it and making it code again. -/
def patchProtected (os : Os) (hostAddr size : U64) (bs : List Byte) (p : Process) :
    Except HostAbort (Bool × Process) :=
  match protect os hostAddr size Prot.RW p with
  | (false, p) => .ok (false, p)
  | (true, p) => do
    let p ← store hostAddr bs p
    pure (true, (protect os hostAddr size Prot.RX p).2)

/-- `Patch64` and `Patch32`, which differ in the size. -/
def patchSite (os : Os) (pipes : Pipes) (hostAddr size : U64) (bs : List Byte) (p : Process) :
    Except HostAbort (Bool × Process) := do
  let (writable, p) ← isWritable os pipes p hostAddr size
  if writable then do
    let p ← store hostAddr bs p
    pure (true, p)
  else patchProtected os hostAddr size bs p

/-- `Patch64`. -/
def patch64 (os : Os) (pipes : Pipes) (hostAddr value : U64) (p : Process) :
    Except HostAbort (Bool × Process) :=
  patchSite os pipes hostAddr 8 (toBytes 8 value) p

/-- `Patch32`. -/
def patch32 (os : Os) (pipes : Pipes) (hostAddr : U64) (value : U32) (p : Process) :
    Except HostAbort (Bool × Process) :=
  patchSite os pipes hostAddr 4 (toBytes 4 value) p

/-! ## Relocations -/

/-- `enum class RelocType`. -/
inductive RelocType where
  | none
  | r64
  | pc32
  | globDat
  | jumpSlot
  | relative
  | gotPcRel
  | size32
  | size64
  deriving DecidableEq, Repr

/-- `struct RelocEntry`, without the mark that `LinkModule` leaves. -/
structure RelocEntry where
  offset : U64 := 0
  type : RelocType := .none
  symbolName : List Byte := []
  addend : U64 := 0
  symModuleId : ModuleId := INVALID_MODULE
  lazy : Bool := false

/-- The base of the module that owns the entry, if it is there. -/
def ownerBase (reloc : RelocEntry) (r : RegistryState) : U64 :=
  if reloc.symModuleId ≠ 0 then
    match (getAllModules r).find? fun m => m.id == reloc.symModuleId with
    | some m => m.baseAddr
    | none => 0
  else 0

/-- `ApplyReloc`; `S + A` and `S + A - P` are made in 64 bits. -/
def applyReloc (os : Os) (pipes : Pipes) (reloc : RelocEntry) (r : RegistryState)
    (ls : LinkerState) (p : Process) : Except HostAbort (Bool × LinkerState × Process) :=
  if reloc.type = .none then .ok (true, ls, p)
  else if reloc.lazy then .ok (true, ls, p)
  else if reloc.type = .relative then do
    let (ok, p) ← patch64 os pipes reloc.offset (ownerBase reloc r + reloc.addend) p
    pure (ok, ls, p)
  else if reloc.symbolName = [] then .ok (false, ls, p)
  else
    match lookupSymbol reloc.symbolName r ls with
    | (none, ls) => .ok (false, ls, p)
    | (some sym, ls) =>
      let S := sym.address
      let A := reloc.addend
      let P := reloc.offset
      match reloc.type with
      | .r64 => do
        let (ok, p) ← patch64 os pipes P (S + A) p
        pure (ok, ls, p)
      | .pc32 => do
        let (ok, p) ← patch32 os pipes P ((S + A - P).setWidth 32) p
        pure (ok, ls, p)
      | .globDat | .jumpSlot => do
        let (ok, p) ← patch64 os pipes P S p
        pure (ok, ls, p)
      | _ => .ok (false, ls, p)

/-! ## What becomes of a site -/

/-- `IsWritable` does not find the range writable and comes back to say so. -/
def Asked (os : Os) (pipes : Pipes) (p : Process) (site size : U64) : Prop :=
  hasProt p site size Prot.Write = false ∧
    (isReadable os pipes p site size = false ∨ pipes.writeOpens = false ∨
      p.host.allows os.canRead site size.toNat ∧ ¬ p.host.allows canWrite site size.toNat)

/-- How many bytes of the range its probe has overwritten by then. -/
def lost (os : Os) (pipes : Pipes) (p : Process) (site size : U64) : ℕ :=
  if isReadable os pipes p site size = true ∧ pipes.writeOpens = true then
    min (pipes.stored p.host site size.toNat) (writableFrom p.host site size.toNat)
  else 0

/-- The process then. -/
def probed (os : Os) (pipes : Pipes) (p : Process) (site size : U64) : Process :=
  { p with host := { p.host with
    bytes := write p.host.bytes site (List.replicate (lost os pipes p site size) 0) } }

/-- The patch is made: into a site that the system makes writable, or that is found writable and
is. -/
def Patched (os : Os) (pipes : Pipes) (p : Process) (site size : U64) : Prop :=
  Asked os pipes p site size ∧
      os.mprotect (probed os pipes p site size).host site size (protToMmap Prot.RW) = true ∨
    ¬ Asked os pipes p site size ∧
      (hasProt p site size Prot.Write = true ∨ p.host.allows os.canRead site size.toNat) ∧
      p.host.allows canWrite site size.toNat

/-- The system refuses to make the site writable. -/
def Refused (os : Os) (pipes : Pipes) (p : Process) (site size : U64) : Prop :=
  Asked os pipes p site size ∧
    os.mprotect (probed os pipes p site size).host site size (protToMmap Prot.RW) = false

section Sites

variable {os : Os} {pipes : Pipes} {p p' : Process} {site size : U64} {bs : List Byte} {ok : Bool}

/-- What was overwritten and put back is what it was. -/
theorem fullRead_eq (base : U64) (n : ℕ) (p : Process) : fullRead base n p = p := by
  have hbytes : write (write p.host.bytes base (List.replicate n 0)) base
      (read p.host.bytes base n) = p.host.bytes := by
    funext x
    rw [write_read_apply]
    split_ifs with hx
    · rfl
    · apply write_apply_of_le
      rw [List.length_replicate]
      exact not_lt.mp hx
  rw [fullRead, hbytes]

/-- `IsWritable` says no exactly if it does not abort and does not find the range writable. -/
theorem isWritable_of_asked (h : Asked os pipes p site size) :
    isWritable os pipes p site size = .ok (false, probed os pipes p site size) := by
  obtain ⟨htable, hrest⟩ := h
  rw [isWritable, if_neg (by rw [htable]; exact Bool.false_ne_true), probed, lost]
  by_cases hread : isReadable os pipes p site size = true
  · by_cases hopens : pipes.writeOpens = true
    · obtain ⟨hcan, hcannot⟩ : p.host.allows os.canRead site size.toNat ∧
          ¬ p.host.allows canWrite site size.toNat := by
        rcases hrest with hno | hno | hno
        · exact absurd hread (by rw [hno]; exact Bool.false_ne_true)
        · exact absurd hopens (by rw [hno]; exact Bool.false_ne_true)
        · exact hno
      rw [if_neg (not_not_intro hread), if_neg (not_not_intro hopens),
        if_neg (not_not_intro hcan), if_neg hcannot, if_pos ⟨hread, hopens⟩]
      rfl
    · rw [if_neg (not_not_intro hread), if_pos hopens, if_neg fun h => hopens h.2]
      simp
  · rw [if_pos hread, if_neg fun h => hread h.1]
    simp

/-- Else it says yes, and has changed nothing, or it aborts. -/
theorem isWritable_of_not_asked (h : ¬ Asked os pipes p site size) :
    isWritable os pipes p site size =
      if hasProt p site size Prot.Write = true ∨ p.host.allows os.canRead site size.toNat then
        .ok (true, p)
      else .error .segfault := by
  rw [isWritable]
  by_cases htable : hasProt p site size Prot.Write = true
  · rw [if_pos htable, if_pos (.inl htable)]
  · have hno : hasProt p site size Prot.Write = false := eq_false_of_ne_true htable
    have hread : isReadable os pipes p site size = true := by
      by_contra hread
      exact h ⟨hno, .inl (eq_false_of_ne_true hread)⟩
    have hopens : pipes.writeOpens = true := by
      by_contra hopens
      exact h ⟨hno, .inr (.inl (eq_false_of_ne_true hopens))⟩
    rw [if_neg htable, if_neg (not_not_intro hread), if_neg (not_not_intro hopens)]
    by_cases hcan : p.host.allows os.canRead site size.toNat
    · have hwrite : p.host.allows canWrite site size.toNat := by
        by_contra hcannot
        exact h ⟨hno, .inr (.inr ⟨hcan, hcannot⟩)⟩
      rw [if_neg (not_not_intro hcan), if_pos hwrite, fullRead_eq, if_pos (.inr hcan)]
    · rw [if_pos hcan, if_neg (not_or_intro htable hcan)]

/-- The system's answer is the answer. -/
theorem protect_fst (os : Os) (base size : U64) (prot : Prot) (p : Process) :
    (protect os base size prot p).1 = os.mprotect p.host base size (protToMmap prot) := by
  simp only [protect, sysMprotect]
  cases os.mprotect p.host base size (protToMmap prot) with
  | false => rfl
  | true => rfl

theorem allows_of_store (h : store site bs p = .ok p') :
    p.host.allows canWrite site bs.length := by
  rw [store] at h
  split_ifs at h with hallow
  exact hallow

/-- A page that was made writable can be written to. -/
theorem store_of_protect (h : os.mprotect p.host site size (protToMmap Prot.RW) = true)
    (hlen : bs.length = size.toNat) :
    store site bs (protect os site size Prot.RW p).2 =
      .ok { (protect os site size Prot.RW p).2 with
        host := { (protect os site size Prot.RW p).2.host with
          bytes := write p.host.bytes site bs } } := by
  have hbytes := protect_bytes os site size Prot.RW p
  obtain ⟨p₁, hprotect, -, hhost⟩ := protect_of_true os site size Prot.RW p h
  rw [hprotect] at hbytes ⊢
  dsimp only at hbytes ⊢
  have hallow : p₁.host.allows canWrite site bs.length := by
    intro i hi
    refine ⟨protToMmap Prot.RW, ?_, by decide⟩
    rw [hhost, Host.record_prot]
    apply Host.setProt_prot_of_lt
    have hsize : size.toNat < 2 ^ 64 := size.isLt
    rw [toNat_add_ofNat_sub site i (by omega), kernelPages]
    omega
  rw [store, if_pos hallow, hbytes]

/-- The patch of a site that is not writable is made exactly if the system lets it. -/
theorem patchProtected_eq (os : Os) (site : U64) (p : Process) (hlen : bs.length = size.toNat) :
    ∃ p', patchProtected os site size bs p =
        .ok (os.mprotect p.host site size (protToMmap Prot.RW), p') ∧
      p'.host.bytes = if os.mprotect p.host site size (protToMmap Prot.RW) = true then
        write p.host.bytes site bs else p.host.bytes := by
  have hanswer := protect_fst os site size Prot.RW p
  have hbytes := protect_bytes os site size Prot.RW p
  rw [patchProtected]
  cases hgrant : os.mprotect p.host site size (protToMmap Prot.RW) with
  | true =>
      have hstore := store_of_protect hgrant hlen
      rcases hprotect : protect os site size Prot.RW p with ⟨ok, p₁⟩
      rw [hprotect, hgrant] at hanswer
      rw [hprotect] at hstore
      cases hanswer
      dsimp only at hstore ⊢
      rw [hstore]
      exact ⟨_, rfl, protect_bytes _ _ _ _ _⟩
  | false =>
      rcases hprotect : protect os site size Prot.RW p with ⟨ok, p₁⟩
      rw [hprotect, hgrant] at hanswer
      rw [hprotect] at hbytes
      cases hanswer
      exact ⟨p₁, rfl, hbytes⟩

/-- A site that is not found writable. -/
theorem patchSite_of_asked (h : Asked os pipes p site size) :
    patchSite os pipes site size bs p =
      patchProtected os site size bs (probed os pipes p site size) := by
  rw [patchSite, isWritable_of_asked h]
  rfl

/-- A site that is. -/
theorem patchSite_of_not_asked (h : ¬ Asked os pipes p site size) :
    patchSite os pipes site size bs p =
      if hasProt p site size Prot.Write = true ∨ p.host.allows os.canRead site size.toNat then
        store site bs p >>= fun p => .ok (true, p)
      else .error .segfault := by
  rw [patchSite, isWritable_of_not_asked h]
  split_ifs with hfound
  · rfl
  · rfl

/-- A patch that is reported as made is in place, and one that is not has left of the site what
the probe has. -/
theorem patchSite_eq_ok (hlen : bs.length = size.toNat)
    (h : patchSite os pipes site size bs p = .ok (ok, p')) :
    ok = true ∧ Patched os pipes p site size ∧ read p'.host.bytes site bs.length = bs ∨
      ok = false ∧ Refused os pipes p site size ∧
        p'.host.bytes = (probed os pipes p site size).host.bytes := by
  have hsize : bs.length ≤ 2 ^ 64 := by
    rw [hlen]
    exact size.isLt.le
  by_cases hasked : Asked os pipes p site size
  · rw [patchSite_of_asked hasked] at h
    obtain ⟨p₁, hrun, hbytes⟩ := patchProtected_eq os site (probed os pipes p site size) hlen
    rw [hrun] at h
    cases h
    cases hgrant : os.mprotect (probed os pipes p site size).host site size
        (protToMmap Prot.RW) with
    | true =>
        rw [hgrant, if_pos rfl] at hbytes
        left
        refine ⟨rfl, ?_, ?_⟩
        · exact .inl ⟨hasked, hgrant⟩
        · rw [hbytes]
          exact read_write_self _ _ _ hsize
    | false =>
        rw [hgrant, if_neg Bool.false_ne_true] at hbytes
        exact .inr ⟨rfl, ⟨hasked, hgrant⟩, hbytes⟩
  · rw [patchSite_of_not_asked hasked] at h
    split_ifs at h with hfound
    obtain ⟨p₁, hstore, h⟩ := bind_eq_ok h
    cases h
    left
    have hallow : p.host.allows canWrite site size.toNat := by
      rw [← hlen]
      exact allows_of_store hstore
    refine ⟨rfl, .inr ⟨hasked, hfound, hallow⟩, ?_⟩
    rw [store_eq_ok hstore]
    exact read_write_self _ _ _ hsize

theorem exists_of_patched (hlen : bs.length = size.toNat) (h : Patched os pipes p site size) :
    ∃ p', patchSite os pipes site size bs p = .ok (true, p') := by
  rcases h with ⟨hasked, hgrant⟩ | ⟨hasked, hfound, hallow⟩
  · obtain ⟨p', hrun, -⟩ := patchProtected_eq os site (probed os pipes p site size) hlen
    rw [hgrant] at hrun
    exact ⟨p', by rw [patchSite_of_asked hasked, hrun]⟩
  · rw [patchSite_of_not_asked hasked, if_pos hfound, store, hlen, if_pos hallow]
    exact ⟨_, rfl⟩

theorem exists_of_refused (hlen : bs.length = size.toNat) (h : Refused os pipes p site size) :
    ∃ p', patchSite os pipes site size bs p = .ok (false, p') := by
  obtain ⟨hasked, hgrant⟩ := h
  obtain ⟨p', hrun, -⟩ := patchProtected_eq os site (probed os pipes p site size) hlen
  rw [hgrant] at hrun
  exact ⟨p', by rw [patchSite_of_asked hasked, hrun]⟩

end Sites

end DynamicLinker
