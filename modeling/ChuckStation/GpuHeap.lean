/-
# The GPU heap

`GpuHeap::Alloc` of `GPU.cpp`: blocks are cut off the front of the heap, at aligned offsets.  A
pointer is its offset from the base of the heap.

* `KeepsBlocks`: what is expected of a request.
* `Sums`: the exact condition under which it does that.
-/
import ChuckStation.Alignment
import ChuckStation.Bytes
import ChuckStation.OperationRuns

namespace Gpu

open OperationRuns

/-! ## The heap -/

/-- `kSize`. -/
def kSize : U64 := 256 * 1024 * 1024

/-- `struct GpuHeap`. -/
structure GpuHeap where
  used : U64 := 0
  deriving DecidableEq, Repr

/-- A size, and an alignment that is a power of two. -/
structure Request where
  bytes : U64
  align : U64
  pow : ∃ k < 64, align.toNat = 2 ^ k

/-- A request with the alignment that is the default. -/
def Request.ofBytes (bytes : U64) : Request := ⟨bytes, 256, 8, by decide, rfl⟩

namespace GpuHeap

variable (heap : GpuHeap)

/-- `aligned`. -/
def aligned (align : U64) : U64 := (heap.used + align - 1) &&& ~~~(align - 1)

/-- `Alloc`; no block for `nullptr`. -/
def alloc (bytes align : U64) : GpuHeap × Option U64 :=
  let aligned := heap.aligned align
  if kSize < aligned + bytes then (heap, none) else ({ used := aligned + bytes }, some aligned)

end GpuHeap

/-! ## Requests in a row -/

/-- Where a block begins, and how many bytes it has. -/
structure Block where
  offset : ℕ
  bytes : ℕ
  deriving DecidableEq, Repr

/-- The bytes of a block. -/
def Block.range (b : Block) : Set ℕ := Set.Ico b.offset (b.offset + b.bytes)

/-- The heap, and the blocks that were given out. -/
structure HeapRun where
  heap : GpuHeap := {}
  blocks : List Block := []

def step (s : HeapRun) (r : Request) : HeapRun :=
  match s.heap.alloc r.bytes r.align with
  | (heap, none) => { s with heap := heap }
  | (heap, some ptr) =>
    { heap := heap, blocks := ⟨ptr.toNat, r.bytes.toNat⟩ :: s.blocks }

/-- Behind what is used there is room for an aligned block. -/
def Fits (heap : GpuHeap) (r : Request) : Prop :=
  ∃ offset, heap.used.toNat ≤ offset ∧ r.align.toNat ∣ offset ∧
    offset + r.bytes.toNat ≤ kSize.toNat

/-- A block lies in the heap, is aligned, and overlaps no other; a request that does not fit is
refused and changes nothing. -/
structure KeepsBlocks (s : HeapRun) (r : Request) : Prop where
  placed : ∀ ptr, (s.heap.alloc r.bytes r.align).2 = some ptr →
    ptr.toNat + r.bytes.toNat ≤ kSize.toNat ∧ r.align.toNat ∣ ptr.toNat ∧
      ∀ b ∈ s.blocks, Disjoint b.range (Block.range ⟨ptr.toNat, r.bytes.toNat⟩)
  refused : ¬ Fits s.heap r → s.heap.alloc r.bytes r.align = (s.heap, none)

/-- The end of the block is a word, or far enough beyond one. -/
def Sums (s : HeapRun) (r : Request) : Prop :=
  (s.heap.aligned r.align).toNat + r.bytes.toNat < 2 ^ 64 ∨
    2 ^ 64 + kSize.toNat < (s.heap.aligned r.align).toNat + r.bytes.toNat

/-! ## One request -/

/-- What is used lies in the heap, and all blocks lie in what is used. -/
structure WellFormed (s : HeapRun) : Prop where
  used : s.heap.used.toNat ≤ kSize.toNat
  blocks : ∀ b ∈ s.blocks, b.offset + b.bytes ≤ s.heap.used.toNat

section Requests

variable {s : HeapRun} {heap : GpuHeap} {r : Request}

theorem toNat_kSize : kSize.toNat = 2 ^ 28 := by decide

/-- The offset is rounded up to the next multiple of the alignment, without an overflow. -/
theorem aligned_spec (hused : heap.used.toNat ≤ kSize.toNat) (r : Request) :
    heap.used.toNat ≤ (heap.aligned r.align).toNat ∧
      r.align.toNat ∣ (heap.aligned r.align).toNat ∧
      (heap.aligned r.align).toNat < heap.used.toNat + r.align.toNat := by
  obtain ⟨k, hk, halign⟩ := r.pow
  have hpos : 0 < 2 ^ k := by positivity
  have hpow : 2 ^ k ≤ 2 ^ 63 := Nat.pow_le_pow_right (by decide) (by omega)
  have hsize := toNat_kSize
  have hmask : r.align - 1 = BitVec.ofNat 64 (2 ^ k - 1) := by
    apply BitVec.eq_of_toNat_eq
    have hone : (1 : U64).toNat = 1 := rfl
    rw [BitVec.toNat_sub_of_le (by rw [BitVec.le_def]; omega), BitVec.toNat_ofNat, halign, hone,
      Nat.mod_eq_of_lt (by omega)]
  have heq : heap.aligned r.align = Alignment.alignDown (heap.used + (r.align - 1)) k := by
    rw [GpuHeap.aligned, Alignment.alignDown, ← hmask]
    congr 1
    bv_omega
  have hsum : (heap.used + (r.align - 1)).toNat = heap.used.toNat + (2 ^ k - 1) := by
    have hlow : (BitVec.ofNat 64 (2 ^ k - 1)).toNat = 2 ^ k - 1 := by
      rw [BitVec.toNat_ofNat, Nat.mod_eq_of_lt (by omega)]
    rw [hmask, BitVec.toNat_add_of_lt (by omega), hlow]
  have hlt := Alignment.lt_alignDown_add (heap.used + (r.align - 1)) k
  have hle := Alignment.alignDown_le (heap.used + (r.align - 1)) k
  have hdvd := Alignment.dvd_alignDown (heap.used + (r.align - 1)) k
  rw [heq, halign]
  exact ⟨by omega, hdvd, by omega⟩

/-- A request fits exactly if the block from the aligned offset on lies in the heap. -/
theorem fits_iff (hused : heap.used.toNat ≤ kSize.toNat) :
    Fits heap r ↔ (heap.aligned r.align).toNat + r.bytes.toNat ≤ kSize.toNat := by
  obtain ⟨hle, hdvd, hlt⟩ := aligned_spec hused r
  constructor
  · rintro ⟨offset, hoffset, hmultiple, hroom⟩
    -- There is no multiple of the alignment between what is used and the aligned offset.
    have hnear : (heap.aligned r.align).toNat ≤ offset := by
      by_contra hless
      have hgap := Nat.le_of_dvd (by omega) (Nat.dvd_sub hdvd hmultiple)
      omega
    omega
  · intro hroom
    exact ⟨_, hle, hdvd, hroom⟩

theorem keepsBlocks_iff_of_fits (hs : WellFormed s) :
    KeepsBlocks s r ↔
      ∀ ptr, (s.heap.alloc r.bytes r.align).2 = some ptr → Fits s.heap r := by
  obtain ⟨hle, hdvd, -⟩ := aligned_spec hs.used r
  constructor
  · intro h ptr hptr
    by_contra hnot
    rw [h.refused hnot] at hptr
    cases hptr
  · intro h
    refine ⟨fun ptr hptr => ?_, fun hnot => ?_⟩
    · have hfits := (fits_iff hs.used).mp (h ptr hptr)
      rw [GpuHeap.alloc] at hptr
      split_ifs at hptr
      obtain rfl := Option.some.inj hptr
      refine ⟨hfits, hdvd, fun b hb => ?_⟩
      rw [Block.range, Block.range, Set.Ico_disjoint_Ico]
      have hend := hs.blocks b hb
      dsimp only
      omega
    · rw [GpuHeap.alloc]
      split_ifs with hfull
      · rfl
      · exact absurd (h _ (by rw [GpuHeap.alloc, if_neg hfull])) hnot

/-- The check of the code is the check for room, unless the sum wraps to something small. -/
theorem keepsBlocks_iff (hs : WellFormed s) : KeepsBlocks s r ↔ Sums s r := by
  have hsize := toNat_kSize
  have hsum : (s.heap.aligned r.align + r.bytes).toNat =
      ((s.heap.aligned r.align).toNat + r.bytes.toNat) % 2 ^ 64 := BitVec.toNat_add _ _
  have ha := (s.heap.aligned r.align).isLt
  have hb := r.bytes.isLt
  rw [keepsBlocks_iff_of_fits hs, fits_iff hs.used, Sums]
  by_cases hfull : kSize < s.heap.aligned r.align + r.bytes
  · have hnone : (s.heap.alloc r.bytes r.align).2 = none := by
      rw [GpuHeap.alloc, if_pos hfull]
    rw [BitVec.lt_def, hsum] at hfull
    rw [hnone]
    refine iff_of_true (fun ptr hptr => by cases hptr) ?_
    omega
  · have hsome : (s.heap.alloc r.bytes r.align).2 = some (s.heap.aligned r.align) := by
      rw [GpuHeap.alloc, if_neg hfull]
    rw [BitVec.lt_def, hsum] at hfull
    rw [hsome]
    constructor
    · intro h
      have hroom := h _ rfl
      omega
    · intro h ptr _
      omega

theorem wellFormed_step (hs : WellFormed s) (hsums : Sums s r) : WellFormed (step s r) := by
  have hkeeps := (keepsBlocks_iff hs).mpr hsums
  obtain ⟨hle, -, -⟩ := aligned_spec hs.used r
  rw [step]
  by_cases hfull : kSize < s.heap.aligned r.align + r.bytes
  · rw [GpuHeap.alloc, if_pos hfull]
    exact hs
  · obtain ⟨hroom, -, -⟩ := hkeeps.placed (s.heap.aligned r.align) (by
      rw [GpuHeap.alloc, if_neg hfull])
    have hend : (s.heap.aligned r.align + r.bytes).toNat =
        (s.heap.aligned r.align).toNat + r.bytes.toNat :=
      BitVec.toNat_add_of_lt (by have := toNat_kSize; omega)
    rw [GpuHeap.alloc, if_neg hfull]
    refine ⟨hend ▸ hroom, fun b hb => ?_⟩
    show b.offset + b.bytes ≤ (s.heap.aligned r.align + r.bytes).toNat
    rcases List.mem_cons.mp hb with rfl | hb
    · exact hend.ge
    · have hbefore := hs.blocks b hb
      omega

end Requests

/-! ## Runs -/

/-- **The blocks of the GPU heap**: in any sequence of requests all are kept apart exactly if no
end of a block wraps around to an offset in the heap. -/
theorem keepsBlocks_run_iff (rs : List Request) :
    AllSteps step KeepsBlocks {} rs ↔ AllSteps step Sums {} rs := by
  have hfresh : WellFormed {} := ⟨Nat.zero_le _, fun b hb => absurd hb List.not_mem_nil⟩
  constructor
  · refine allSteps_of_allSteps (I := WellFormed) (fun s r hs h => ?_) (fun s r hs h => ?_) hfresh
    · exact wellFormed_step hs ((keepsBlocks_iff hs).mp h)
    · exact (keepsBlocks_iff hs).mp h
  · refine allSteps_of_allSteps (I := WellFormed) (fun s r hs h => ?_) (fun s r hs h => ?_) hfresh
    · exact wellFormed_step hs h
    · exact (keepsBlocks_iff hs).mpr h

/-- Behind a block of 256 bytes a request for `2 ^ 64 - 256` bytes is granted. -/
theorem not_keepsBlocks_wrapped :
    ¬ AllSteps step KeepsBlocks {} [.ofBytes 256, .ofBytes (-256)] := by
  rintro ⟨-, h, -⟩
  have hin := (h.placed 256 (by decide)).1
  exact absurd hin (by decide)

end Gpu
