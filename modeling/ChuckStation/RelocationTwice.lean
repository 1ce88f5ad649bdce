/-
# Relocating twice

A module is relocated when it is loaded, and `ApplyRelocations` may be called for it again.
The second call reads the records again and writes every site again.  It finds the same records
if the first has not written over them, and it writes what the first wrote, as no value that is
written depends on what the site holds.
-/
import ChuckStation.RelocationBounds

namespace ModuleRegistry

open Memory Loader OperationRuns ByteStore

/-- `ApplyRelocations` on the registry and the memory, which it only reads and only patches. -/
def relocate (os : Os) (outside : U64 → Option Byte) (id : ModuleId)
    (s : RegistryState × Process) : Except HostAbort (Bool × RegistryState × Process) := do
  let (ok, mem) ← applyRelocations os outside id s.1 s.2
  pure (ok, s.1, mem)

/-- The addresses that the loop takes its records from. -/
def InTables (m : ModuleDesc) (a : U64) : Prop :=
  ∃ data ∈ recordsOf m m.elfInfo.relaSections, ∃ k < relaSize, data + BitVec.ofNat 64 k = a

/-- No site that is patched overlaps a record. -/
def TablesApart (os : Os) (outside : U64 → Option Byte) (id : ModuleId) (m : ModuleDesc)
    (r : RegistryState) (mem : Process) : Prop :=
  ∀ a, InTables m a → ¬ Written os outside id m r mem a

/-- The process with other bytes in the same pages. -/
def withBytes (mem : Process) (bytes : U64 → Byte) : Process :=
  { mem with host := { mem.host with bytes := bytes } }

section Twice

variable {os : Os} {outside : U64 → Option Byte} {id : ModuleId} {m : ModuleDesc}
  {r : RegistryState} {rela : Rela} {mem mem' : Process} {bytes : U64 → Byte}

@[simp] theorem bytes_withBytes : (withBytes mem bytes).host.bytes = bytes := rfl

@[simp] theorem withBytes_withBytes (bytes' : U64 → Byte) :
    withBytes (withBytes mem bytes) bytes' = withBytes mem bytes' := rfl

/-! ### One record -/

/-- The bytes of a run of addresses are read the same from other bytes that agree there. -/
theorem loadBytes_withBytes {a : U64} {n : ℕ}
    (h : ∀ k < n, bytes (a + BitVec.ofNat 64 k) = mem.host.bytes (a + BitVec.ofNat 64 k)) :
    loadBytes os outside a n (withBytes mem bytes).host = loadBytes os outside a n mem.host := by
  have hpeek : ∀ k ∈ List.range n,
      peek os outside (withBytes mem bytes).host (a + BitVec.ofNat 64 k) =
        peek os outside mem.host (a + BitVec.ofNat 64 k) := by
    intro k hk
    simp only [peek, withBytes, h k (List.mem_range.mp hk)]
  rw [loadBytes, loadBytes, mapM_congr hpeek]

/-- Whether a record can be applied does not depend on any byte, nor does what is written. -/
theorem applyRela_withBytes (h : applyRela id m r rela mem = .ok mem') :
    applyRela id m r rela (withBytes mem bytes) =
      .ok (withBytes mem (patch bytes (patchOf id m r rela).toList)) := by
  rw [applyRela] at h ⊢
  rw [patchOf]
  cases hS : symbolValue id m r rela with
  | none => rfl
  | some S =>
      rw [hS] at h
      dsimp only at h ⊢
      rw [store] at h ⊢
      split_ifs at h with hallow
      rw [if_pos (show (withBytes mem bytes).host.allows _ _ _ from hallow)]
      rfl

/-! ### All records -/

/-- A run over the same records, from other bytes that agree on the records, makes the same
patches, if these leave the records alone. -/
theorem loopAt_withBytes (bytes : U64 → Byte) {l : List U64} {T : U64 → Prop}
    (hT : ∀ data ∈ l, ∀ k < relaSize, T (data + BitVec.ofNat 64 k))
    (hsame : ∀ a, T a → bytes a = mem.host.bytes a)
    (hapart : ∀ a, T a → ∀ rela ∈ recordsAt os outside (applyRela id m r) l mem,
      ∀ p, patchOf id m r rela = some p → ¬ p.Covers a)
    (h : loopAt os outside (applyRela id m r) l mem = .ok mem') :
    loopAt os outside (applyRela id m r) l (withBytes mem bytes) =
      .ok (withBytes mem (patch bytes
        ((recordsAt os outside (applyRela id m r) l mem).filterMap (patchOf id m r)))) := by
  induction l generalizing mem bytes with
  | nil => rfl
  | cons data l ih =>
      rw [loopAt] at h
      obtain ⟨bs, hload, h⟩ := bind_eq_ok h
      obtain ⟨mem₁, hrela, h⟩ := bind_eq_ok h
      have hload' : loadBytes os outside data relaSize (withBytes mem bytes).host = .ok bs := by
        rw [loadBytes_withBytes fun k hk => hsame _ (hT data List.mem_cons_self k hk), hload]
      have hmem₁ : mem₁ = withBytes mem (patch mem.host.bytes
          (patchOf id m r (Rela.ofBytes bs)).toList) := applyRela_patch hrela
      have hrecords : recordsAt os outside (applyRela id m r) (data :: l) mem =
          Rela.ofBytes bs :: recordsAt os outside (applyRela id m r) l mem₁ := by
        rw [recordsAt, hload]
        dsimp only
        rw [hrela]
      rw [hrecords] at hapart ⊢
      -- The first patch leaves the records alone in both memories.
      have hsame₁ : ∀ a, T a → patch bytes (patchOf id m r (Rela.ofBytes bs)).toList a =
          mem₁.host.bytes a := by
        intro a ha
        rw [hmem₁]
        exact patch_apply_congr (hsame a ha) _
      have hrest := ih _ (fun data' hdata' => hT data' (List.mem_cons_of_mem _ hdata')) hsame₁
        (fun a ha rela hrela => hapart a ha rela (List.mem_cons_of_mem _ hrela)) h
      rw [loopAt, hload', ok_bind, applyRela_withBytes hrela, ok_bind]
      rw [patch_filterMap_cons]
      rw [hmem₁, withBytes_withBytes, withBytes_withBytes] at hrest
      rw [hmem₁]
      exact hrest

/-! ### The two runs -/

/-- A run whose sites leave the records alone does nothing when it is repeated. -/
theorem applyRelocations_again (hm : r.modules.lookup id = some m)
    (hapart : TablesApart os outside id m r mem) {ok : Bool}
    (h : applyRelocations os outside id r mem = .ok (ok, mem')) :
    applyRelocations os outside id r mem' = .ok (ok, mem') := by
  have hkept : ∀ a, InTables m a → mem'.host.bytes a = mem.host.bytes a := fun a ha =>
    applyRelocations_frame hm h (hapart a ha)
  rw [applyRelocations, hm] at h ⊢
  dsimp only at h ⊢
  rw [applySections_eq_loopAt] at h ⊢
  obtain ⟨mem₁, hloop, h⟩ := bind_eq_ok h
  cases h
  -- What the first run leaves: the old process with the patches of its records.
  have hmem' : mem' = withBytes mem (patch mem.host.bytes
      ((recordsAt os outside (applyRela id m r) (recordsOf m m.elfInfo.relaSections) mem).filterMap
        (patchOf id m r))) := by
    have hloop' := hloop
    rw [← applySections_eq_loopAt] at hloop'
    rw [← sectionRecords_eq_recordsAt]
    exact foldlM_applyRela_patch (foldlM_sectionRecords hloop')
  have hagain := loopAt_withBytes (T := InTables m) mem'.host.bytes
    (fun data hdata k hk => ⟨data, hdata, k, hk, rfl⟩) hkept ?_ hloop
  · -- The second run patches what is patched already.
    rw [hmem', bytes_withBytes, patch_patch_self] at hagain
    rw [hmem', hagain]
    rfl
  · intro a ha rela hrela p hp hcovers
    rw [← sectionRecords_eq_recordsAt] at hrela
    exact hapart a ha ⟨rela, hrela, p, hp, hcovers⟩

/-- **Relocation is idempotent.**  A second run leaves the memory as the first one left it,
whatever the sites and the skipped records are, and neither run touches the registry or its
tables. -/
theorem relocate_twice (hm : r.modules.lookup id = some m)
    (hapart : TablesApart os outside id m r mem) :
    (relocate os outside id (r, mem) >>= fun x => relocate os outside id x.2) =
        relocate os outside id (r, mem) ∧
      ∀ ok r' mem', relocate os outside id (r, mem) = .ok (ok, r', mem') →
        r' = r ∧ ∀ a, InTables m a → mem'.host.bytes a = mem.host.bytes a := by
  constructor
  · cases hrun : applyRelocations os outside id r mem with
    | error e => simp only [relocate, hrun, bind, Except.bind]
    | ok x =>
        have hagain : applyRelocations os outside id r x.2 = .ok (x.1, x.2) :=
          applyRelocations_again hm hapart hrun
        simp only [relocate, hrun, ok_bind, pure, Except.pure, hagain]
  · intro ok r' mem' h
    obtain ⟨⟨ok', mem₁⟩, hrun, h⟩ := bind_eq_ok h
    cases h
    exact ⟨rfl, fun a ha => applyRelocations_frame hm hrun (hapart a ha)⟩

end Twice

/-- The one record, at 0x400800, is not at its site, 0x400000. -/
theorem relocate_twice_relocatable :
    (relocate refusingOs (fun _ => none) 1 (withRelocatable [], relocatablePage) >>=
        fun x => relocate refusingOs (fun _ => none) 1 x.2) =
      relocate refusingOs (fun _ => none) 1 (withRelocatable [], relocatablePage) ∧
    ∀ ok r' mem', relocate refusingOs (fun _ => none) 1 (withRelocatable [], relocatablePage) =
        .ok (ok, r', mem') →
      r' = withRelocatable [] ∧
        ∀ a, InTables (newDesc 1 [0x61] [] (relocatable []) true) a →
          mem'.host.bytes a = relocatablePage.host.bytes a := by
  apply relocate_twice rfl
  rintro a ⟨data, hdata, k, hk, rfl⟩ ⟨rela, hrela, p, hpatch, hcovers⟩
  have hrecords : sectionRecords refusingOs (fun _ => none) 1
      (newDesc 1 [0x61] [] (relocatable []) true) (withRelocatable [])
      (relocatable []).relaSections relocatablePage = [relocatableRela] := rfl
  have hdata : data = 0x400800 := List.mem_singleton.mp hdata
  have hrela : rela = relocatableRela := List.mem_singleton.mp (hrecords ▸ hrela)
  subst hdata hrela
  cases hpatch
  revert k
  decide

end ModuleRegistry
