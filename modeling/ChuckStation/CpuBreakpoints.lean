/-
# The interpreter's breakpoint table

The table keeps its breakpoints twice: a list of entries and an index from addresses to ids.
`Bookkeeping` runs calls on the table beside what the callers know: the ids handed out, and the
breakpoints added and neither removed nor cleared.

The index has room for one breakpoint an address.  So the two stay together exactly as long as no
breakpoint is removed that shares its address with another, and ids stay apart exactly as long as
their counter has not come round.
-/
import ChuckStation.CpuStep
import ChuckStation.HandleCounters
import ChuckStation.NumberedLists
import ChuckStation.OperationRuns

namespace Cpu

open OperationRuns NumberedList HandleCounter

/-! ## One call -/

section Table

variable (st : CpuState) (a addr : U64) (label : String) (id : U32)

theorem isBreakpoint_addBreakpoint :
    (st.addBreakpoint addr label).2.isBreakpoint a = true ↔
      a = addr ∨ st.isBreakpoint a = true := by
  unfold CpuState.addBreakpoint CpuState.isBreakpoint
  by_cases h : a = addr
  · subst h
    simp
  · simp [h, AList.lookup_insert_ne h]

theorem isBreakpoint_clearBreakpoints : st.clearBreakpoints.isBreakpoint a = false := by
  simp [CpuState.clearBreakpoints, CpuState.isBreakpoint]

theorem isBreakpoint_init : st.init.isBreakpoint a = false := by
  simp [CpuState.init, CpuState.isBreakpoint]

theorem removeBreakpoint_none
    (h : st.breakpoints.find? (fun b => b.id == id) = none) :
    st.removeBreakpoint id = (false, st) := by
  simp only [CpuState.removeBreakpoint, h]

theorem isBreakpoint_removeBreakpoint_some {c : BpEntry}
    (h : st.breakpoints.find? (fun b => b.id == id) = some c) :
    (st.removeBreakpoint id).2.isBreakpoint a = true ↔
      a ≠ c.addr ∧ st.isBreakpoint a = true := by
  simp only [CpuState.removeBreakpoint, h, CpuState.isBreakpoint]
  by_cases ha : a = c.addr
  · subst ha
    simp
  · simp [ha, AList.lookup_erase_ne ha]

/-- `RemoveBreakpoint` answers whether there is an entry of the id. -/
theorem removeBreakpoint_answer :
    (st.removeBreakpoint id).1 = st.breakpoints.any fun b => b.id == id := by
  cases hfind : st.breakpoints.find? fun b => b.id == id with
  | none =>
      rw [removeBreakpoint_none _ _ hfind]
      exact (List.any_eq_false.mpr fun b hb => List.find?_eq_none.mp hfind b hb).symm
  | some c =>
      simp only [CpuState.removeBreakpoint, hfind]
      exact (List.any_eq_true.mpr ⟨c, List.mem_of_find?_eq_some hfind,
        by simpa using List.find?_some hfind⟩).symm

/-- Where all ids differ, the other entries stay. -/
theorem breakpoints_removeBreakpoint (hids : (st.breakpoints.map BpEntry.id).Nodup) :
    (st.removeBreakpoint id).2.breakpoints = st.breakpoints.filter fun b => b.id != id := by
  cases hfind : st.breakpoints.find? fun b => b.id == id with
  | none =>
      rw [removeBreakpoint_none _ _ hfind, List.filter_eq_self.mpr]
      intro b hb
      simpa using List.find?_eq_none.mp hfind b hb
  | some c => simp only [CpuState.removeBreakpoint, hfind, eraseP_eq_filter hids]

theorem nextBpId_removeBreakpoint : (st.removeBreakpoint id).2.nextBpId = st.nextBpId := by
  unfold CpuState.removeBreakpoint
  split <;> rfl

end Table

/-! ## Sequences of calls -/

/-- A call on the table. -/
inductive BreakpointCall where
  | add (addr : U64) (label : String)
  | remove (id : U32)
  | clear

/-- The table, and what its callers know of it: the ids handed out, the id and address of every
breakpoint that is set, and whether `RemoveBreakpoint` has always answered as it should. -/
structure Bookkeeping where
  cpu : CpuState
  issued : List U32 := []
  live : List (U32 × U64) := []
  answered : Bool := true

namespace Bookkeeping

/-- A call on the table, and what the caller makes of it. -/
def step (s : Bookkeeping) : BreakpointCall → Bookkeeping
  | .add addr label =>
      let (id, cpu) := s.cpu.addBreakpoint addr label
      { s with cpu, issued := s.issued ++ [id], live := s.live ++ [(id, addr)] }
  | .remove id =>
      let (removed, cpu) := s.cpu.removeBreakpoint id
      { s with
        cpu
        live := s.live.filter fun b => b.1 != id
        answered := s.answered && removed == s.live.any fun b => b.1 == id }
  | .clear => { s with cpu := s.cpu.clearBreakpoints, live := [] }

/-- The table is what its callers take it for. -/
structure Kept (s : Bookkeeping) : Prop where
  stops : ∀ a, s.cpu.isBreakpoint a = true ↔ ∃ b ∈ s.live, b.2 = a
  entries : s.cpu.breakpoints.map (fun b => (b.id, b.addr)) = s.live
  once : s.issued.Nodup
  answered : s.answered = true

/-- When a call keeps the table so: fewer than `2 ^ 32` ids were handed out before, and the
breakpoint removed is the only one at its address. -/
def Guarded (s : Bookkeeping) : BreakpointCall → Prop
  | .add _ _ => s.issued.length < 2 ^ 32
  | .remove id => ∀ a, (id, a) ∈ s.live → ∀ b ∈ s.live, b.2 = a → b.1 = id
  | .clear => True

/-- The ids handed out are those from `start` on, and the breakpoints set have some of them. -/
structure Invariant (start : ℕ) (s : Bookkeeping) : Prop extends Kept s where
  next_eq : s.cpu.nextBpId = BitVec.ofNat 32 (start + s.issued.length)
  issued_eq : s.issued = (List.range s.issued.length).map fun i => BitVec.ofNat 32 (start + i)
  live_issued : ∀ b ∈ s.live, b.1 ∈ s.issued
  live_once : (s.live.map Prod.fst).Nodup

section Steps

variable {start : ℕ} {s : Bookkeeping} {addr : U64} {label : String} {id : U32}

theorem Invariant.next_notMem_iff (h : Invariant start s) :
    s.cpu.nextBpId ∉ s.issued ↔ s.issued.length < 2 ^ 32 := by
  rw [h.issued_eq, h.next_eq, List.mem_map, List.length_map, List.length_range]
  constructor
  · intro hnew
    by_contra hmany
    have hmany := not_lt.mp hmany
    refine hnew ⟨s.issued.length - 2 ^ 32, List.mem_range.mpr (by omega), ?_⟩
    apply BitVec.eq_of_toNat_eq
    rw [BitVec.toNat_ofNat, BitVec.toNat_ofNat]
    omega
  · rintro hfew ⟨i, hi, heq⟩
    exact ofNat_ne_of_lt (List.mem_range.mp hi) hfew heq.symm

/-- Everything but the ids handed out is kept by another breakpoint. -/
theorem invariant_add (h : Invariant start s) (hnew : s.cpu.nextBpId ∉ s.issued) :
    Invariant start (s.step (.add addr label)) where
  stops := by
    intro a
    dsimp only [step]
    rw [isBreakpoint_addBreakpoint, h.stops]
    simp [or_comm, eq_comm]
  entries := by
    simp only [step, CpuState.addBreakpoint, List.map_append, h.entries, List.map_singleton]
  once := by
    simp only [step, CpuState.addBreakpoint]
    rw [List.nodup_append_comm, List.singleton_append, List.nodup_cons]
    exact ⟨hnew, h.once⟩
  answered := h.answered
  next_eq := by
    simp only [step, CpuState.addBreakpoint, List.length_append, List.length_singleton, h.next_eq]
    rw [← Nat.add_assoc, BitVec.ofNat_add (start + s.issued.length) 1]
    rfl
  issued_eq := by
    simp only [step, CpuState.addBreakpoint, List.length_append, List.length_singleton]
    rw [List.range_succ, List.map_append, ← h.issued_eq, List.map_singleton, h.next_eq]
  live_issued := by
    intro b hb
    simp only [step, CpuState.addBreakpoint, List.mem_append, List.mem_singleton] at hb ⊢
    rcases hb with hb | rfl
    · exact Or.inl (h.live_issued b hb)
    · exact Or.inr rfl
  live_once := by
    simp only [step, CpuState.addBreakpoint, List.map_append, List.map_singleton]
    rw [List.nodup_append_comm, List.singleton_append, List.nodup_cons]
    refine ⟨fun hmem => ?_, h.live_once⟩
    obtain ⟨b, hb, hid⟩ := List.mem_map.mp hmem
    exact hnew (hid ▸ h.live_issued b hb)

theorem invariant_clear (h : Invariant start s) : Invariant start (s.step .clear) where
  stops := by
    intro a
    dsimp only [step]
    rw [isBreakpoint_clearBreakpoints]
    simp
  entries := rfl
  once := h.once
  answered := h.answered
  next_eq := h.next_eq
  issued_eq := h.issued_eq
  live_issued := fun b hb => absurd hb List.not_mem_nil
  live_once := List.nodup_nil

/-- The entry found by an id is the breakpoint of that id. -/
theorem Invariant.find?_eq_some {c : BpEntry} (h : Invariant start s)
    (hfind : s.cpu.breakpoints.find? (fun b => b.id == id) = some c) :
    c.id = id ∧ (id, c.addr) ∈ s.live := by
  have hid : c.id = id := by simpa using List.find?_some hfind
  refine ⟨hid, ?_⟩
  rw [← h.entries, ← hid]
  exact List.mem_map_of_mem (List.mem_of_find?_eq_some hfind)

/-- The address of a breakpoint is its own. -/
theorem Invariant.addr_unique {b c : U32 × U64} (h : Invariant start s) (hb : b ∈ s.live)
    (hc : c ∈ s.live) (hid : b.1 = c.1) : b = c :=
  List.inj_on_of_nodup_map h.live_once hb hc hid

theorem cpu_remove : (s.step (.remove id)).cpu = (s.cpu.removeBreakpoint id).2 := rfl

theorem live_remove : (s.step (.remove id)).live = s.live.filter fun b => b.1 != id := rfl

/-- Removing a breakpoint takes its address out of the index, whoever else is there. -/
theorem stops_remove_iff (h : Invariant start s) :
    (∀ a, (s.step (.remove id)).cpu.isBreakpoint a = true ↔
      ∃ b ∈ (s.step (.remove id)).live, b.2 = a) ↔ Guarded s (.remove id) := by
  rw [cpu_remove, live_remove]
  simp only [Guarded, List.mem_filter, bne_iff_ne, ne_eq]
  cases hfind : s.cpu.breakpoints.find? fun b => b.id == id with
  | none =>
      have hnone : ∀ b ∈ s.live, b.1 ≠ id := by
        rw [← h.entries]
        intro b hb
        obtain ⟨e, he, rfl⟩ := List.mem_map.mp hb
        simpa using List.find?_eq_none.mp hfind e he
      rw [removeBreakpoint_none _ _ hfind]
      refine iff_of_true (fun a => ?_) fun a ha => absurd rfl (hnone _ ha)
      rw [h.stops]
      exact ⟨fun ⟨b, hb, ha⟩ => ⟨b, ⟨hb, hnone b hb⟩, ha⟩, fun ⟨b, ⟨hb, _⟩, ha⟩ => ⟨b, hb, ha⟩⟩
  | some c =>
      obtain ⟨-, hlive⟩ := h.find?_eq_some hfind
      simp only [isBreakpoint_removeBreakpoint_some _ _ _ hfind, h.stops]
      constructor
      · intro hall a ha b hb hba
        have hown : a = c.addr := congrArg Prod.snd (h.addr_unique ha hlive rfl)
        -- Another breakpoint at the address would still stop there.
        by_contra hother
        exact ((hall a).mpr ⟨b, ⟨hb, hother⟩, hba⟩).1 hown
      · intro hguard a
        constructor
        · rintro ⟨hne, b, hb, rfl⟩
          refine ⟨b, ⟨hb, fun hid => hne ?_⟩, rfl⟩
          exact congrArg Prod.snd (h.addr_unique hb hlive hid)
        · rintro ⟨b, ⟨hb, hid⟩, rfl⟩
          exact ⟨fun heq => hid (hguard c.addr hlive b hb heq), b, hb, rfl⟩

/-- All else is kept by every removal. -/
theorem invariant_remove (h : Invariant start s) (hguard : Guarded s (.remove id)) :
    Invariant start (s.step (.remove id)) where
  stops := (stops_remove_iff h).mpr hguard
  entries := by
    have hids : (s.cpu.breakpoints.map BpEntry.id).Nodup := by
      have hlive := h.live_once
      rwa [← h.entries, List.map_map] at hlive
    rw [cpu_remove, live_remove, ← h.entries, List.filter_map,
      breakpoints_removeBreakpoint _ _ hids]
    rfl
  once := h.once
  answered := by
    have hanswer : (s.cpu.removeBreakpoint id).1 = s.live.any fun b => b.1 == id := by
      rw [← h.entries, List.any_map, removeBreakpoint_answer]
      rfl
    have hbefore := h.answered
    simp only [step, hbefore, hanswer, Bool.true_and, beq_self_eq_true]
  next_eq := by
    rw [cpu_remove, nextBpId_removeBreakpoint]
    exact h.next_eq
  issued_eq := h.issued_eq
  live_issued := fun b hb => h.live_issued b (List.mem_filter.mp hb).1
  live_once := h.live_once.sublist (List.filter_sublist.map Prod.fst)

theorem Invariant.step (h : Invariant start s) (c : BreakpointCall) (hguard : Guarded s c) :
    Invariant start (s.step c) := by
  cases c with
  | add addr label => exact invariant_add h (h.next_notMem_iff.mpr hguard)
  | remove id => exact invariant_remove h hguard
  | clear => exact invariant_clear h

theorem Invariant.guarded (h : Invariant start s) (c : BreakpointCall) (hkept : Kept (s.step c)) :
    Guarded s c := by
  cases c with
  | add addr label =>
      apply h.next_notMem_iff.mp
      have honce := hkept.once
      simp only [Bookkeeping.step, CpuState.addBreakpoint] at honce
      rw [List.nodup_append_comm, List.singleton_append, List.nodup_cons] at honce
      exact honce.1
  | remove id => exact (stops_remove_iff h).mp hkept.stops
  | clear => trivial

end Steps

end Bookkeeping

/-! ## From a fresh table -/

/-- The interpreter freshly initialised; its counter is wherever it was. -/
def CpuState.watched (st : CpuState) : Bookkeeping := { cpu := st.init }

theorem CpuState.invariant_watched (st : CpuState) :
    st.watched.Invariant st.nextBpId.toNat where
  stops := fun a => by simp [watched, isBreakpoint_init]
  entries := rfl
  once := List.nodup_nil
  answered := rfl
  next_eq := by
    rw [show st.watched.issued.length = 0 from rfl, Nat.add_zero, BitVec.ofNat_toNat,
      BitVec.setWidth_eq]
    rfl
  issued_eq := rfl
  live_issued := fun b hb => absurd hb List.not_mem_nil
  live_once := List.nodup_nil

/-- **The breakpoint table, exactly.**  After every call of a sequence the interpreter stops at
the addresses of the breakpoints that are set, its entries are these breakpoints, no id was handed
out twice and every removal was answered rightly, if and only if every call of the sequence is
guarded: no more than `2 ^ 32` breakpoints are added, and none is removed that has its address
in common with another. -/
theorem kept_run_iff (st : CpuState) (calls : List BreakpointCall) :
    AllStates Bookkeeping.step Bookkeeping.Kept st.watched calls ↔
      AllSteps Bookkeeping.step Bookkeeping.Guarded st.watched calls :=
  allStates_iff_allSteps_of (fun _ h => h.toKept) (fun _ c _ h => h.step c)
    (fun _ c _ h => h.guarded c) st.invariant_watched

/-- Of two breakpoints at one address the first is removed, and the second no longer stops the
interpreter. -/
theorem not_kept_shared :
    ¬ ∀ (st : CpuState) (calls : List BreakpointCall),
      Bookkeeping.Kept (calls.foldl Bookkeeping.step st.watched) := by
  intro h
  have hkept := h {} [.add 0x1000 "a", .add 0x1000 "b", .remove 1]
  have hstops := (hkept.stops 0x1000).mpr ⟨(2, 0x1000), by decide, rfl⟩
  exact absurd hstops (by decide)

end Cpu
