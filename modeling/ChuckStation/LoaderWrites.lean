/-
# Writes of a segment and its mapping

What the segment loop stores for a segment, against the mapping it made for it.  The mapping
is the memory size padded to the alignment, with wrap-around; the stores are as long as the
longer of the two sizes in the file.
-/
import ChuckStation.LoaderEffects
import ChuckStation.MemoryTable

namespace Loader

open Memory

/-! ## Stores and mapping -/

namespace Segment

/-- An address stored to: by the copy of the file bytes or by the zero fill. -/
def Writes (seg : Segment) (x : U64) : Prop :=
  (x - seg.dest).toNat < seg.filesz.toNat ∨ (x - seg.bss).toNat < seg.zeros.length

/-- All stores go to the mapping. -/
def WritesInside (seg : Segment) : Prop :=
  ∀ x, seg.Writes x → (x - seg.hostBase).toNat < seg.mapSz.toNat

/-- How far the segment starts into its first alignment unit. -/
def offset (seg : Segment) : ℕ := (seg.vaddr &&& (seg.alignment - 1)).toNat

/-- What is added at the end to fill the last alignment unit. -/
def padding (seg : Segment) : ℕ := (seg.aEnd - (seg.vaddr + seg.memsz)).toNat

/-- The padded segment is shorter than the address space, and the file bytes fit into the
padded memory size. -/
def FitsMapping (seg : Segment) : Prop :=
  seg.offset + seg.memsz.toNat + seg.padding < 2 ^ 64 ∧
    seg.filesz.toNat ≤ seg.memsz.toNat + seg.padding

instance (seg : Segment) : Decidable seg.FitsMapping := inferInstanceAs (Decidable (_ ∧ _))

end Segment

section Rounding

variable {seg : Segment}

/-- What masking leaves out. -/
theorem sub_and_not (x m : U64) : x - (x &&& ~~~m) = x &&& m := by
  have hdisj : (x &&& ~~~m) &&& (x &&& m) = 0#64 := by
    ext i hi
    simp only [BitVec.getElem_and, BitVec.getElem_not, BitVec.getElem_zero]
    cases x[i] <;> cases m[i] <;> rfl
  have hsum : (x &&& ~~~m) + (x &&& m) = x := by
    rw [BitVec.add_eq_or_of_and_eq_zero _ _ hdisj]
    ext i hi
    simp only [BitVec.getElem_and, BitVec.getElem_not, BitVec.getElem_or]
    cases x[i] <;> cases m[i] <;> rfl
  rw [sub_eq_iff_eq_add, add_comm]
  exact hsum.symm

theorem Segment.toNat_vaddr_sub (seg : Segment) : (seg.vaddr - seg.aVa).toNat = seg.offset := by
  rw [aVa, sub_and_not, offset]

/-- The mapped size, with wrap-around. -/
theorem Segment.toNat_mapSz (seg : Segment) :
    seg.mapSz.toNat = (seg.offset + seg.memsz.toNat + seg.padding) % 2 ^ 64 := by
  have hsplit : seg.mapSz =
      (seg.vaddr - seg.aVa) + seg.memsz + (seg.aEnd - (seg.vaddr + seg.memsz)) := by
    rw [mapSz]
    ring
  rw [hsplit, BitVec.toNat_add, BitVec.toNat_add, toNat_vaddr_sub, padding, Nat.mod_add_mod]

theorem Segment.length_zeros (seg : Segment) :
    seg.zeros.length = seg.memsz.toNat - seg.filesz.toNat := by
  have hm := seg.memsz.isLt
  have hf := seg.filesz.isLt
  rw [zeros]
  split_ifs with h
  · rw [gt_iff_lt, BitVec.lt_def] at h
    rw [List.length_replicate, BitVec.toNat_sub]
    omega
  · rw [gt_iff_lt, BitVec.lt_def] at h
    rw [List.length_nil]
    omega

/-- The stores of a segment are the bytes from its offset on, as many as the larger size. -/
theorem Segment.writes_iff (seg : Segment) (x : U64) : seg.Writes x ↔
    (x - seg.hostBase - (seg.vaddr - seg.aVa)).toNat < max seg.filesz.toNat seg.memsz.toNat := by
  have hdest : x - seg.dest = x - seg.hostBase - (seg.vaddr - seg.aVa) := by
    rw [dest]
    ring
  have hbss : x - seg.bss = x - seg.hostBase - (seg.vaddr - seg.aVa) - seg.filesz := by
    rw [bss]
    ring
  rw [Writes, hdest, hbss, length_zeros]
  generalize x - seg.hostBase - (seg.vaddr - seg.aVa) = d
  have hd := d.isLt
  have hf := seg.filesz.isLt
  have hm := seg.memsz.isLt
  rw [BitVec.toNat_sub]
  omega

/-- The stores stay in the mapping exactly if its size, as it came out, has room for the
offset and the larger size. -/
theorem Segment.writesInside_iff_le (hmemsz : seg.memsz ≠ 0) :
    seg.WritesInside ↔
      seg.offset + max seg.filesz.toNat seg.memsz.toNat ≤ seg.mapSz.toNat := by
  have hoff : seg.offset < 2 ^ 64 := (seg.vaddr &&& (seg.alignment - 1)).isLt
  have hsz := seg.mapSz.isLt
  have hpos : 0 < seg.memsz.toNat :=
    Nat.pos_of_ne_zero fun hzero => hmemsz (BitVec.eq_of_toNat_eq hzero)
  have hmax : seg.memsz.toNat ≤ max seg.filesz.toNat seg.memsz.toNat := le_max_right _ _
  simp only [WritesInside, writes_iff]
  generalize max seg.filesz.toNat seg.memsz.toNat = larger at *
  constructor
  · intro h
    -- The last byte stored, or the last address of all if the stores wrap around.
    have hlast : ∀ d < 2 ^ 64, seg.offset ≤ d → d - seg.offset < larger → d < seg.mapSz.toNat := by
      intro d hd hle hlt
      have hx := h (seg.hostBase + BitVec.ofNat 64 d)
      rw [add_sub_cancel_left, BitVec.toNat_sub, seg.toNat_vaddr_sub, BitVec.toNat_ofNat,
        Nat.mod_eq_of_lt hd] at hx
      exact hx (by omega)
    by_cases hwrap : seg.offset + larger ≤ 2 ^ 64
    · have := hlast (seg.offset + larger - 1) (by omega) (by omega) (by omega)
      omega
    · have := hlast (2 ^ 64 - 1) (by omega) (by omega) (by omega)
      omega
  · intro h x hx
    have hd := (x - seg.hostBase).isLt
    rw [BitVec.toNat_sub (x - seg.hostBase), seg.toNat_vaddr_sub] at hx
    omega

theorem Segment.writesInside_iff_fits (hmemsz : seg.memsz ≠ 0) :
    seg.WritesInside ↔ seg.FitsMapping := by
  have hoff : seg.offset < 2 ^ 64 := (seg.vaddr &&& (seg.alignment - 1)).isLt
  have hpad : seg.padding < 2 ^ 64 := (seg.aEnd - (seg.vaddr + seg.memsz)).isLt
  have hmem := seg.memsz.isLt
  rw [writesInside_iff_le hmemsz, toNat_mapSz, FitsMapping]
  have hpos : 0 < seg.memsz.toNat :=
    Nat.pos_of_ne_zero fun hzero => hmemsz (BitVec.eq_of_toNat_eq hzero)
  omega

end Rounding

/-! ## Accepted images -/

/-- The loop body ran on the segment: it was mapped at `hostBase`, and then `Writes` are the
addresses that were stored to. -/
structure Segment.Ran (os : Os) (seg : Segment) (before after : Process) : Prop where
  mapped : ∃ hint type tag p, map os hint seg.mapSz Prot.RW type tag p = (seg.hostBase, before)
  bytes : ∃ bs : List Byte, bs.length = seg.filesz.toNat ∧ after.host.bytes =
    ByteStore.write (ByteStore.write before.host.bytes seg.dest bs) seg.bss seg.zeros

section Accepted

variable {os : Os} {isPic : Bool} {tag : List Byte} {fetch : Fetch}

theorem protect_bytes (os : Os) (base size : U64) (prot : Prot) (p : Process) :
    (protect os base size prot p).2.host.bytes = p.host.bytes := by
  simp only [protect, sysMprotect]
  split
  · rename_i hcall
    rw [← (Prod.mk.inj hcall).2]
    rfl
  · rename_i hcall
    rw [← (Prod.mk.inj hcall).2]
    rfl

theorem ran_of_mapLoop (hfetch : fetch.Exact) {segs segs' : List Segment} {st st' : MapState}
    (h : mapLoop os isPic tag fetch segs st = (none, segs', st')) {seg : Segment}
    (hseg : seg ∈ segs') (hmemsz : seg.memsz ≠ 0) :
    ∃ before after, seg.Ran os before after := by
  induction segs generalizing segs' st with
  | nil =>
      cases h
      cases hseg
  | cons seg₀ segs ih =>
      obtain ⟨seg₁, st₁, rest, hbody, hrest, rfl⟩ := mapLoop_eq_none h
      rcases List.mem_cons.mp hseg with rfl | hseg
      · rcases mapSegment_eq_none hbody with ⟨hzero, rfl, -⟩ | ⟨base, mem, -, -, hmap, rfl, hfill⟩
        · exact absurd hzero hmemsz
        · obtain ⟨bs, q, hbs, -, hq, hmem⟩ := fillSegment_eq_ok hfill
          refine ⟨mem, st₁.mem, ⟨_, _, _, _, hmap⟩, bs, hbs.length hfetch, ?_⟩
          rw [hmem, protect_bytes, hq]
      · exact ih hrest hseg

end Accepted

/-- One byte of memory, two bytes in the file, and no alignment. -/
def overlongImage : List Byte :=
  image ET_EXEC [⟨PT_LOAD, PF_R, 120, 0x10000000, 2, 1, 1⟩] [0xAA, 0xBB]

/-- A system that maps at one place, whatever is there. -/
def fixedOs : Os where
  mmap _ _ _ _ _ := some 0x10000000
  mprotect _ _ _ _ := true
  munmap _ _ _ := true
  memalign _ _ _ := none
  canRead p := p != Prot.None

def overlongSegment : Segment := ⟨0x10000000, 120, 2, 1, PF_R, PT_LOAD, 1, 0x10000000⟩

theorem loadFromMemory_overlongImage :
    ∃ s', loadFromMemory fixedOs overlongImage ⟨{}, emptyProcess⟩ = (.returned .Ok, s') ∧
      s'.current.segments = [overlongSegment] := by
  have hresult : (loadFromMemory fixedOs overlongImage ⟨{}, emptyProcess⟩).1 = .returned .Ok := by
    decide +kernel
  have hsegments : (loadFromMemory fixedOs overlongImage ⟨{}, emptyProcess⟩).2.current.segments =
      [overlongSegment] := by
    decide +kernel
  generalize loadFromMemory fixedOs overlongImage ⟨{}, emptyProcess⟩ = r at hresult hsegments
  obtain ⟨e, s'⟩ := r
  exact ⟨s', by rw [← hresult], hsegments⟩

end Loader
