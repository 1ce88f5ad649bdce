/-
# The program break

`WinMem::Brk` (`Syscalls.cpp`) in its two builds: over a range reserved with `VirtualAlloc`
whose pages are committed as the break grows, and over one block of `malloc`.  What the
operating system answers is given with every call.

* `Meets`: what is expected of a call.
* `Keeps`: what a call does; small addresses are handed back as they come.
-/
import ChuckStation.Bytes
import ChuckStation.OperationRuns

namespace Syscalls

/-- Whether `_WIN32` is defined. -/
inductive Build where
  | windows
  | fallback
  deriving DecidableEq, Repr

namespace WinMem

open OperationRuns

/-! ## The break -/

/-- 64 MB. -/
abbrev kBrkReserve : U64 := 64 * 1024 * 1024

/-- The static variables behind `Brk`: one heap region, committed up to `brkSize`. -/
structure BrkState where
  brkBase : U64 := 0
  brkSize : U64 := 0
  brkCurrent : U64 := 0
  deriving DecidableEq, Repr

/-- What the operating system says during a call: where it reserves the heap (0 if it
refuses), and whether it commits pages. -/
structure BrkAnswers where
  reserved : U64
  commits : Bool
  deriving DecidableEq, Repr

/-- `EnsureBrk`. -/
def ensureBrk (build : Build) (reserved : U64) (st : BrkState) : BrkState :=
  if st.brkBase ≠ 0 then st
  else match build with
    | .windows =>
      if reserved ≠ 0 then { brkBase := reserved, brkSize := 0, brkCurrent := reserved } else st
    | .fallback => { brkBase := reserved, brkSize := kBrkReserve, brkCurrent := reserved }

/-- A call of `VirtualAlloc` for pages, with its answer. -/
structure Commit where
  address : U64
  size : U64
  granted : Bool
  deriving DecidableEq, Repr

/-- What came of a call, with the differences that it computed for sizes. -/
structure BrkCall where
  result : U64
  st : BrkState
  sizes : List (U64 × U64) := []
  commit : Option Commit := none
  deriving DecidableEq, Repr

/-- `Brk`. -/
def brk (build : Build) (addr : U64) (os : BrkAnswers) (st : BrkState) : BrkCall :=
  let st := ensureBrk build os.reserved st
  if addr = 0 then { result := st.brkCurrent, st := st }
  else if addr < 16 * 1024 * 1024 then { result := addr, st := st }
  else if addr < st.brkBase then { result := st.brkCurrent, st := st }
  else
    let newSize := addr - st.brkBase
    let sizes := [(addr, st.brkBase)]
    if kBrkReserve < newSize then { result := st.brkCurrent, st := st, sizes := sizes }
    else match build with
      | .windows =>
        let toCommit := newSize - st.brkSize
        let sizes := sizes ++ [(newSize, st.brkSize)]
        if 0 < toCommit then
          let commit := some ⟨st.brkBase + st.brkSize, toCommit, os.commits⟩
          if os.commits then
            let st := { st with brkSize := newSize, brkCurrent := st.brkBase + newSize }
            { result := st.brkCurrent, st := st, sizes := sizes, commit := commit }
          else { result := st.brkCurrent, st := st, sizes := sizes, commit := commit }
        else
          let st := { st with brkCurrent := st.brkBase + newSize }
          { result := st.brkCurrent, st := st, sizes := sizes }
      | .fallback =>
        let st := { st with
          brkSize := if newSize ≤ kBrkReserve then newSize else kBrkReserve
          brkCurrent := st.brkBase + newSize }
        { result := st.brkCurrent, st := st, sizes := sizes }

/-- The state after a system call `brk(addr)`. -/
def step (build : Build) (st : BrkState) (call : U64 × BrkAnswers) : BrkState :=
  (brk build call.1 call.2 st).st

/-! ## What is expected of a call -/

namespace BrkCall

variable (out : BrkCall)

/-- The call has returned the break that is in force, and `brk(0)` says so too. -/
def InForce (build : Build) : Prop :=
  out.result = out.st.brkCurrent ∧
    (out.st.brkBase ≠ 0 → ∀ os, (brk build 0 os out.st).result = out.result)

/-- `addr` is an address of the heap, or the one behind it. -/
def Inside (addr : U64) : Prop :=
  out.st.brkBase.toNat ≤ addr.toNat ∧ addr.toNat ≤ out.st.brkBase.toNat + kBrkReserve.toNat

/-- A request for an address inside comes through, unless pages are refused. -/
def Grants (addr : U64) : Prop :=
  addr ≠ 0 → out.Inside addr → (∃ c, out.commit = some c ∧ c.granted = false) ∨ out.result = addr

/-- No difference that was computed wraps. -/
def NoWrap : Prop := ∀ d ∈ out.sizes, d.2 ≤ d.1

end BrkCall

/-- What is expected of a call `brk(addr)`. -/
structure Meets (build : Build) (addr : U64) (out : BrkCall) : Prop where
  inForce : out.InForce build
  inside : out.Inside out.st.brkCurrent
  grants : out.Grants addr
  noWrap : out.NoWrap

/-- An address below 16 MB. -/
def Small (addr : U64) : Prop := addr ≠ 0 ∧ addr < 16 * 1024 * 1024

/-- The heap of pages is to become smaller. -/
def Shrinks (build : Build) (st : BrkState) (addr : U64) : Prop :=
  build = .windows ∧ st.brkBase ≤ addr ∧ addr < st.brkCurrent

/-- What a call does to the heap `st`: small addresses are handed back and change nothing; all
else is as expected, where no pages have to be given back. -/
structure Keeps (build : Build) (st : BrkState) (addr : U64) (out : BrkCall) : Prop where
  small : Small addr → out.result = addr ∧ out.st = st
  inForce : ¬ Small addr → out.InForce build
  inside : out.Inside out.st.brkCurrent
  grants : ¬ Small addr → ¬ Shrinks build st addr → out.Grants addr
  noWrap : ¬ Shrinks build st addr → out.NoWrap

/-! ## The break stays in the heap -/

/-- The break is at most 64 MB above the base, and the pages below it are those committed. -/
structure Sound (build : Build) (st : BrkState) : Prop where
  base_le : st.brkBase ≤ st.brkCurrent
  size_le : st.brkCurrent - st.brkBase ≤ kBrkReserve
  committed : build = .windows → st.brkSize = st.brkCurrent - st.brkBase

section Lemmas

variable {build : Build} {st : BrkState} {addr reserved : U64} {os : BrkAnswers} {out : BrkCall}

/-- A heap that has just been reserved. -/
theorem sound_reserved (reserved : U64) :
    Sound build { brkBase := reserved, brkSize := 0, brkCurrent := reserved } := by
  refine ⟨Nat.le_refl _, ?_, fun _ => (BitVec.sub_self reserved).symm⟩
  show reserved - reserved ≤ kBrkReserve
  rw [BitVec.sub_self]
  exact Nat.zero_le _

theorem Sound.ensured (hs : Sound build st) (reserved : U64) :
    Sound build (ensureBrk build reserved st) := by
  have hnew : Sound build { brkBase := reserved, brkSize := 0, brkCurrent := reserved } :=
    sound_reserved reserved
  unfold ensureBrk
  by_cases hbase : st.brkBase ≠ 0
  · rw [if_pos hbase]
    exact hs
  · rw [if_neg hbase]
    cases build with
    | windows =>
        dsimp only
        split_ifs
        · exact hnew
        · exact hs
    | fallback => exact ⟨hnew.base_le, hnew.size_le, fun h => nomatch h⟩

/-- A reserved heap stays where it is. -/
theorem ensureBrk_of_ne (h : st.brkBase ≠ 0) : ensureBrk build reserved st = st := if_pos h

/-- The break inside the heap, as numbers. -/
theorem Sound.toNat_le (hs : Sound build st) :
    st.brkBase.toNat ≤ st.brkCurrent.toNat ∧
      st.brkCurrent.toNat ≤ st.brkBase.toNat + kBrkReserve.toNat := by
  have hle := hs.base_le
  have hsize := hs.size_le
  rw [BitVec.le_def] at hle hsize
  rw [BitVec.toNat_sub_of_le hs.base_le] at hsize
  exact ⟨hle, by omega⟩

/-- What a call can do, behind `EnsureBrk`. -/
inductive BrkStep (build : Build) (st : BrkState) (addr : U64) : BrkCall → Prop
  | query (h : addr = 0) : BrkStep build st addr { result := st.brkCurrent, st := st }
  | small (h : Small addr) : BrkStep build st addr { result := addr, st := st }
  | below (hsmall : ¬ Small addr) (h : addr < st.brkBase) :
      BrkStep build st addr { result := st.brkCurrent, st := st }
  | tooLarge (hsmall : ¬ Small addr) (hbase : st.brkBase ≤ addr)
      (h : kBrkReserve < addr - st.brkBase) :
      BrkStep build st addr { result := st.brkCurrent, st := st, sizes := [(addr, st.brkBase)] }
  | refused (hsmall : ¬ Small addr) (hbase : st.brkBase ≤ addr) (hbuild : build = .windows) :
      BrkStep build st addr
        { result := st.brkCurrent, st := st,
          sizes := [(addr, st.brkBase), (addr - st.brkBase, st.brkSize)],
          commit := some ⟨st.brkBase + st.brkSize, addr - st.brkBase - st.brkSize, false⟩ }
  | moved (hsmall : ¬ Small addr) (hbase : st.brkBase ≤ addr)
      (hsize : addr - st.brkBase ≤ kBrkReserve) (commit : Option Commit) :
      BrkStep build st addr
        { result := addr, commit := commit,
          sizes := (addr, st.brkBase) ::
            if build = .windows then [(addr - st.brkBase, st.brkSize)] else [],
          st := { st with brkSize := addr - st.brkBase, brkCurrent := addr } }

theorem brk_cases (build : Build) (addr : U64) (os : BrkAnswers) (st : BrkState) :
    BrkStep build (ensureBrk build os.reserved st) addr (brk build addr os st) := by
  rw [brk]
  generalize ensureBrk build os.reserved st = st
  by_cases hzero : addr = 0
  · rw [if_pos hzero]
    exact .query hzero
  rw [if_neg hzero]
  by_cases hsmall : addr < 16 * 1024 * 1024
  · rw [if_pos hsmall]
    exact .small ⟨hzero, hsmall⟩
  have hnot : ¬ Small addr := fun h => hsmall h.2
  rw [if_neg hsmall]
  by_cases hbelow : addr < st.brkBase
  · rw [if_pos hbelow]
    exact .below hnot hbelow
  have hbase := BitVec.not_lt.mp hbelow
  rw [if_neg hbelow]
  by_cases hlarge : kBrkReserve < addr - st.brkBase
  · rw [if_pos hlarge]
    exact .tooLarge hnot hbase hlarge
  have hsize := BitVec.not_lt.mp hlarge
  have haddr : st.brkBase + (addr - st.brkBase) = addr := by
    rw [BitVec.add_comm, BitVec.sub_add_cancel]
  rw [if_neg hlarge, if_pos hsize, haddr]
  cases build with
  | windows =>
      dsimp only
      split_ifs with hcommit hcommits
      · exact .moved hnot hbase hsize _
      · rw [Bool.eq_false_of_not_eq_true hcommits]
        exact .refused hnot hbase rfl
      · -- Nothing is to be committed: the pages end there already.
        have hzero : addr - st.brkBase - st.brkSize = 0 := by
          rw [BitVec.not_lt] at hcommit
          exact BitVec.le_zero_iff.mp hcommit
        have hsame : st.brkSize = addr - st.brkBase := (sub_eq_zero.mp hzero).symm
        have hst : ({ st with brkCurrent := addr } : BrkState) =
            { st with brkSize := addr - st.brkBase, brkCurrent := addr } := by rw [← hsame]
        rw [hst]
        exact .moved hnot hbase hsize none
  | fallback => exact .moved hnot hbase hsize none

/-- The break stays in the heap. -/
theorem Sound.of_brkStep (hs : Sound build st) (h : BrkStep build st addr out) :
    Sound build out.st := by
  cases h with
  | query | small | below | tooLarge | refused => exact hs
  | moved hsmall hbase hsize commit => exact ⟨hbase, hsize, fun _ => rfl⟩

/-- `brk(0)` returns the break of a heap that is reserved. -/
theorem brk_zero (h : st.brkBase ≠ 0) (os : BrkAnswers) :
    (brk build 0 os st).result = st.brkCurrent := by
  rw [brk, ensureBrk_of_ne h]
  rfl

/-- Calls that return the break there is afterwards. -/
theorem inForce_of_eq (h : out.result = out.st.brkCurrent) : out.InForce build :=
  ⟨h, fun hbase os => (brk_zero hbase os).trans h.symm⟩

theorem inForce_of_brkStep (h : BrkStep build st addr out) (hsmall : ¬ Small addr) :
    out.InForce build := by
  cases h with
  | small h => exact absurd h hsmall
  | query | below | tooLarge | refused | moved => exact inForce_of_eq rfl

/-- An address inside the heap is neither below it nor too large. -/
theorem grants_of_brkStep (h : BrkStep build st addr out) : out.Grants addr := by
  intro hzero hinside
  have hle : st.brkBase ≤ addr → out.st.brkBase = st.brkBase →
      (addr - st.brkBase).toNat ≤ kBrkReserve.toNat := by
    intro hbase hsame
    have hend := hinside.2
    rw [hsame] at hend
    rw [BitVec.toNat_sub_of_le hbase]
    omega
  cases h with
  | query h => exact absurd h hzero
  | small => exact .inr rfl
  | below hsmall h => exact absurd hinside.1 (Nat.not_le.mpr h)
  | tooLarge hsmall hbase h => exact absurd (hle hbase rfl) (Nat.not_le.mpr h)
  | refused => exact .inl ⟨_, rfl, rfl⟩
  | moved => exact .inr rfl

/-- Where the heap does not shrink, the pages to commit begin where those committed end. -/
theorem noWrap_of_brkStep (hs : Sound build st) (h : BrkStep build st addr out)
    (hgrows : ¬ Shrinks build st addr) : out.NoWrap := by
  have hsub : build = .windows → st.brkBase ≤ addr → st.brkSize ≤ addr - st.brkBase := by
    intro hbuild hbase
    have hle : st.brkCurrent ≤ addr := BitVec.not_lt.mp fun h => hgrows ⟨hbuild, hbase, h⟩
    rw [hs.committed hbuild, BitVec.le_def, BitVec.toNat_sub_of_le hs.base_le,
      BitVec.toNat_sub_of_le hbase]
    exact Nat.sub_le_sub_right hle _
  intro d hd
  cases h with
  | query | small | below => cases hd
  | tooLarge hsmall hbase h =>
      rw [List.mem_singleton.mp hd]
      exact hbase
  | refused hsmall hbase hbuild =>
      rcases List.mem_pair.mp hd with rfl | rfl
      · exact hbase
      · exact hsub hbuild hbase
  | moved hsmall hbase hsize commit =>
      rcases List.mem_cons.mp hd with rfl | hd
      · exact hbase
      · split_ifs at hd with hbuild
        · rw [List.mem_singleton.mp hd]
          exact hsub hbuild hbase
        · cases hd

/-- **One call.** -/
theorem Sound.keeps (hs : Sound build st) (h : BrkStep build st addr out) :
    Keeps build st addr out where
  small := by
    intro hsmall
    cases h with
    | query h => exact absurd h hsmall.1
    | small => exact ⟨rfl, rfl⟩
    | below hnot | tooLarge hnot | refused hnot | moved hnot => exact absurd hsmall hnot
  inForce := inForce_of_brkStep h
  inside := (hs.of_brkStep h).toNat_le
  grants := fun _ _ => grants_of_brkStep h
  noWrap := noWrap_of_brkStep hs h

end Lemmas

/-! ## Runs -/

/-- **Every call of every run.** -/
theorem keeps_run (build : Build) (calls : List (U64 × BrkAnswers)) :
    AllSteps (step build) (fun st call =>
      Keeps build (ensureBrk build call.2.reserved st) call.1 (brk build call.1 call.2 st)) {}
      calls := by
  refine allSteps_of_allSteps (I := Sound build) (F := fun _ _ => True) (fun st call hs _ => ?_)
    (fun st call hs _ => ?_) (sound_reserved 0) (allSteps_of_forall fun _ _ => trivial)
  · exact (hs.ensured call.2.reserved).of_brkStep (brk_cases build call.1 call.2 st)
  · exact (hs.ensured call.2.reserved).keeps (brk_cases build call.1 call.2 st)

/-- `brk(0x8000)` is answered with an address below the heap. -/
theorem not_meets_smallAddress : ¬ AllSteps (step .windows) (fun st call =>
    Meets .windows call.1 (brk .windows call.1 call.2 st)) {} [(0x8000, ⟨0x10000000, true⟩)] := by
  rintro ⟨hmeets, -⟩
  exact absurd hmeets.inForce.1 (by decide)

/-- A heap that was grown does not get smaller again: what is to be committed wraps. -/
example : (brk .windows 0x10001000 ⟨0, true⟩
    (step .windows {} (0x10002000, ⟨0x10000000, true⟩))).commit =
      some ⟨0x10002000, 0xfffffffffffff000, true⟩ := by decide

end WinMem

end Syscalls
