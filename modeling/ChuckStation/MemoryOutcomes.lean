/-
# What a call of the memory manager can do

On both platforms a call clears the table, is refused, or changes it in one of a few ways, and
its answer says which.  `Outcome` is these ways; `Platform.manager` is the manager on a platform,
with that rule.
-/
import ChuckStation.MemoryTable
import ChuckStation.MemoryWindows

namespace Memory

/-! ## Answers -/

/-- What a call returns. -/
inductive Answer where
  | done
  | flag (ok : Bool)
  | address (a : U64)
  deriving DecidableEq, Repr

/-- `false`, or a null pointer. -/
def Answer.failed : Answer → Bool
  | .done => false
  | .flag ok => !ok
  | .address a => a == 0

/-- The call starts the manager anew. -/
def Call.clears : Call → Bool
  | .init | .reset | .shutdown => true
  | _ => false

/-- The size of the range that the call asks for. -/
def Call.range : Call → Option U64
  | .reserve _ size _ => some (alignUp size PAGE_SIZE)
  | .map _ size _ _ _ => some (alignUp size PAGE_SIZE)
  | _ => none

/-- The base of the region that the call changes. -/
def Call.marked : Call → Option U64
  | .commit base _ _ => some base
  | .protect base _ _ => some base
  | _ => none

theorem Call.clears_of_range {c : Call} {size : U64} (h : c.range = some size) :
    c.clears = false := by
  cases c with
  | init => cases h
  | reset => cases h
  | shutdown => cases h
  | _ => rfl

theorem Call.clears_of_marked {c : Call} {base : U64} (h : c.marked = some base) :
    c.clears = false := by
  cases c with
  | init => cases h
  | reset => cases h
  | shutdown => cases h
  | _ => rfl

/-! ## Outcomes -/

/-- One more heap block. -/
def MemState.addBlock (st : MemState) (ptr size : U64) (type : AllocType) : MemState :=
  { st with
    heapAllocs := (ptr, { size := size, type := type }) ::
      st.heapAllocs.filter fun e => e.1 != ptr
    stats := { st.stats with totalAllocated := st.stats.totalAllocated + size } }

/-- One heap block less. -/
def MemState.removeBlock (st : MemState) (ptr size : U64) : MemState :=
  { st with
    heapAllocs := st.heapAllocs.eraseP fun e => e.1 == ptr
    stats := { st.stats with totalAllocated := st.stats.totalAllocated - size } }

/-- One more region; its size may be counted as committed once more. -/
def MemState.addMapping (st : MemState) (r : Region) (again : U64) : MemState :=
  { addRegion st r with
    stats := { (addRegion st r).stats with
      totalCommitted := (addRegion st r).stats.totalCommitted + again } }

/-- What a call can make of the table, and its answer. -/
inductive Outcome (st : MemState) : Call → MemState → Answer → Prop where
  | cleared {c : Call} (h : c.clears = true) : Outcome st c {} .done
  | refused {c : Call} {answer : Answer} (hclears : c.clears = false)
      (h : answer.failed = true) : Outcome st c st answer
  | granted {c : Call} {r : Region} {again : U64} (h : c.range = some r.size)
      (hbase : r.base ≠ 0) : Outcome st c (st.addMapping r again) (.address r.base)
  | marked {c : Call} {base : U64} {f : Region → Region} (h : c.marked = some base)
      (hf : ∀ r, (f r).base = r.base ∧ (f r).size = r.size) :
      Outcome st c (st.withRegions (modifyRegion base f st.regions)) (.flag true)
  | removed {base size : U64} :
      Outcome st (.unmap base size) (removeRegion st base) (.flag true)
  | allocated {size align ptr : U64} {type : AllocType} (hptr : ptr ≠ 0) :
      Outcome st (.alloc size align type) (st.addBlock ptr size type) (.address ptr)
  | freed {ptr : U64} {e : U64 × HeapAlloc} (hptr : ptr ≠ 0)
      (h : st.heapAllocs.find? (fun e => e.1 == ptr) = some e) :
      Outcome st (.free ptr) (st.removeBlock ptr e.2.size) .done
  | unknown {ptr : U64}
      (h : ptr = 0 ∨ st.heapAllocs.find? (fun e => e.1 == ptr) = none) :
      Outcome st (.free ptr) st .done

theorem addMapping_zero (st : MemState) (r : Region) : st.addMapping r 0 = addRegion st r := by
  rw [MemState.addMapping, add_zero]

/-! ## POSIX -/

/-- What a call returns. -/
def Process.answer (os : Os) (p : Process) : Call → Answer
  | .reserve hint size tag => .address (reserve os hint size tag p).1
  | .commit base size prot => .flag (commit os base size prot p).1
  | .map hint size prot type tag => .address (map os hint size prot type tag p).1
  | .protect base size prot => .flag (protect os base size prot p).1
  | .unmap base size => .flag (unmap os base size p).1
  | .alloc size align type => .address (alloc os size align type p).1
  | .init | .free _ | .reset | .shutdown => .done

/-- What is granted is not at the null pointer. -/
structure Os.NonNull (os : Os) : Prop where
  mmap : ∀ h hint size prot fixed, os.mmap h hint size prot fixed ≠ some 0
  memalign : ∀ h align size, os.memalign h align size ≠ some 0

section Posix

variable {os : Os}

theorem outcome_reserve (hos : os.NonNull) (p : Process) (hint size : U64) (tag : List Byte) :
    Outcome p.st (.reserve hint size tag) (p.call os (.reserve hint size tag)).st
      (p.answer os (.reserve hint size tag)) := by
  have hnonnull : ∀ hint prot fixed h, (sysMmap os hint (alignUp size PAGE_SIZE) prot fixed h).1 ≠
      some 0 := fun hint prot fixed h => hos.mmap _ _ _ _ _
  rw [Process.call, Process.answer, reserve]
  dsimp only
  -- The answer that counts is that of the first attempt or of the second.
  generalize hfirst : sysMmap os hint (alignUp size PAGE_SIZE) Prot.None (hint != 0) p.host = first
  generalize hattempt : (if (first.1.isNone && hint != 0) = true then
    sysMmap os 0 (alignUp size PAGE_SIZE) Prot.None false first.2 else first) = attempt
  have hanswer : attempt.1 ≠ some 0 := by
    rw [← hattempt]
    split_ifs
    · exact hnonnull _ _ _ _
    · rw [← hfirst]
      exact hnonnull _ _ _ _
  rcases attempt with ⟨answer, host⟩
  cases answer with
  | none => exact .refused rfl rfl
  | some base =>
      have hbase : base ≠ 0 := fun hzero => hanswer (congrArg some hzero)
      let r : Region := { base := base, size := alignUp size PAGE_SIZE, tag := tag }
      have hout := @Outcome.granted p.st (.reserve hint size tag) r 0 rfl hbase
      rwa [addMapping_zero] at hout

theorem outcome_map (hos : os.NonNull) (p : Process) (hint size : U64) (prot : Prot)
    (type : AllocType) (tag : List Byte) :
    Outcome p.st (.map hint size prot type tag) (p.call os (.map hint size prot type tag)).st
      (p.answer os (.map hint size prot type tag)) := by
  rw [Process.call, Process.answer, map]
  dsimp only
  cases hanswer : sysMmap os hint (alignUp size PAGE_SIZE) (protToMmap prot) false p.host with
  | mk answer host =>
      cases answer with
      | none => exact .refused rfl rfl
      | some base =>
          have hbase : base ≠ 0 := by
            rintro rfl
            exact hos.mmap _ _ _ _ _ (congrArg Prod.fst hanswer)
          exact .granted (r := ⟨base, alignUp size PAGE_SIZE, prot, type, tag, true⟩) rfl hbase

theorem outcome_unmap (p : Process) (base size : U64) :
    Outcome p.st (.unmap base size) (p.call os (.unmap base size)).st
      (p.answer os (.unmap base size)) := by
  rw [Process.call, Process.answer, unmap]
  rcases sysMunmap os base size p.host with ⟨ok, host⟩
  cases ok with
  | false => exact .refused rfl rfl
  | true => exact .removed

theorem outcome_commit (p : Process) (base size : U64) (prot : Prot) :
    Outcome p.st (.commit base size prot) (p.call os (.commit base size prot)).st
      (p.answer os (.commit base size prot)) := by
  rw [Process.call, Process.answer, commit]
  dsimp only
  rcases sysMprotect os base (alignUp size PAGE_SIZE) (protToMmap prot) p.host with ⟨ok, host⟩
  cases ok with
  | false => exact .refused rfl rfl
  | true => exact .marked rfl fun r => ⟨rfl, rfl⟩

theorem outcome_protect (p : Process) (base size : U64) (prot : Prot) :
    Outcome p.st (.protect base size prot) (p.call os (.protect base size prot)).st
      (p.answer os (.protect base size prot)) := by
  rw [Process.call, Process.answer, protect]
  rcases sysMprotect os base size (protToMmap prot) p.host with ⟨ok, host⟩
  cases ok with
  | false => exact .refused rfl rfl
  | true => exact .marked rfl fun r => ⟨rfl, rfl⟩

theorem outcome_alloc (hos : os.NonNull) (p : Process) (size align : U64) (type : AllocType) :
    Outcome p.st (.alloc size align type) (p.call os (.alloc size align type)).st
      (p.answer os (.alloc size align type)) := by
  rw [Process.call, Process.answer, alloc]
  dsimp only
  cases hanswer : os.memalign p.host (if align < 8 then 8 else align) size with
  | none => exact .refused rfl rfl
  | some ptr =>
      have hptr : ptr ≠ 0 := by
        rintro rfl
        exact hos.memalign _ _ _ hanswer
      exact .allocated hptr

theorem outcome_free (p : Process) (ptr : U64) :
    Outcome p.st (.free ptr) (p.call os (.free ptr)).st (p.answer os (.free ptr)) := by
  rw [Process.call, Process.answer, free]
  split_ifs with hptr
  · exact .unknown (.inl hptr)
  · cases hfind : p.st.heapAllocs.find? (fun e => e.1 == ptr) with
    | none => exact .unknown (.inr hfind)
    | some e => exact .freed hptr hfind

/-- **A call** of the manager. -/
theorem outcome_call (hos : os.NonNull) (p : Process) (c : Call) :
    Outcome p.st c (p.call os c).st (p.answer os c) := by
  cases c with
  | init => exact .cleared rfl
  | reset => exact .cleared rfl
  | shutdown => exact .cleared rfl
  | reserve hint size tag => exact outcome_reserve hos p hint size tag
  | commit base size prot => exact outcome_commit p base size prot
  | map hint size prot type tag => exact outcome_map hos p hint size prot type tag
  | protect base size prot => exact outcome_protect p base size prot
  | unmap base size => exact outcome_unmap p base size
  | alloc size align type => exact outcome_alloc hos p size align type
  | free ptr => exact outcome_free p ptr

end Posix

/-! ## Windows -/

namespace Windows

/-- The process after a call. -/
def Process.call (os : System) (p : Process) : Call → Process
  | .init => init p
  | .reserve hint size tag => (reserve os hint size tag p).2
  | .commit base size prot => (commit os base size prot p).2
  | .map hint size prot type tag => (map os hint size prot type tag p).2
  | .protect base size prot => (protect os base size prot p).2
  | .unmap base size => (unmap os base size p).2
  | .alloc size align type => (alloc os size align type p).2
  | .free ptr => free ptr p
  | .reset => reset os p
  | .shutdown => shutdown os p

/-- What a call returns. -/
def Process.answer (os : System) (p : Process) : Call → Answer
  | .reserve hint size tag => .address (reserve os hint size tag p).1
  | .commit base size prot => .flag (commit os base size prot p).1
  | .map hint size prot type tag => .address (map os hint size prot type tag p).1
  | .protect base size prot => .flag (protect os base size prot p).1
  | .unmap base size => .flag (unmap os base size p).1
  | .alloc size align type => .address (alloc os size align type p).1
  | .init | .free _ | .reset | .shutdown => .done

variable {os : System}

theorem outcome_reserve (p : Process) (hint size : U64) (tag : List Byte) :
    Outcome p.st (.reserve hint size tag) (p.call os (.reserve hint size tag)).st
      (p.answer os (.reserve hint size tag)) := by
  rw [Process.call, Process.answer, reserve]
  dsimp only
  generalize sysVirtualAlloc os hint (alignUp size PAGE_SIZE) .reserve 0x01 p.calls = first
  generalize (if first.1 = 0 then
    sysVirtualAlloc os 0 (alignUp size PAGE_SIZE) .reserve 0x01 first.2 else first) = attempt
  split_ifs with hnull
  · exact .refused rfl rfl
  · let r : Region := { base := attempt.1, size := alignUp size PAGE_SIZE, tag := tag }
    have hout := @Outcome.granted p.st (.reserve hint size tag) r 0 rfl hnull
    rwa [addMapping_zero] at hout

theorem outcome_map (p : Process) (hint size : U64) (prot : Prot) (type : AllocType)
    (tag : List Byte) :
    Outcome p.st (.map hint size prot type tag) (p.call os (.map hint size prot type tag)).st
      (p.answer os (.map hint size prot type tag)) := by
  rw [Process.call, Process.answer, map]
  dsimp only
  generalize sysVirtualAlloc os hint (alignUp size PAGE_SIZE) .reserveCommit (protToWin prot)
    p.calls = first
  generalize (if first.1 = 0 ∧ hint ≠ 0 then sysVirtualAlloc os 0 (alignUp size PAGE_SIZE)
    .reserveCommit (protToWin prot) first.2 else first) = attempt
  split_ifs with hnull
  · exact .refused rfl rfl
  · exact .granted (r := ⟨attempt.1, alignUp size PAGE_SIZE, prot, type, tag, true⟩) rfl hnull

theorem outcome_alloc (p : Process) (size align : U64) (type : AllocType) :
    Outcome p.st (.alloc size align type) (p.call os (.alloc size align type)).st
      (p.answer os (.alloc size align type)) := by
  rw [Process.call, Process.answer, alloc]
  dsimp only
  generalize (if align < 8 then 8 else align) = align'
  split_ifs with hnull
  · exact .refused rfl rfl
  · exact .allocated hnull

theorem outcome_free (p : Process) (ptr : U64) :
    Outcome p.st (.free ptr) (p.call os (.free ptr)).st (p.answer os (.free ptr)) := by
  rw [Process.call, Process.answer, free]
  split_ifs with hptr
  · exact .unknown (.inl hptr)
  · cases hfind : p.st.heapAllocs.find? (fun e => e.1 == ptr) with
    | none => exact .unknown (.inr hfind)
    | some e => exact .freed hptr hfind

/-- **A call** of the manager. -/
theorem outcome_call (p : Process) (c : Call) :
    Outcome p.st c (p.call os c).st (p.answer os c) := by
  cases c with
  | init => exact .cleared rfl
  | reset => exact .cleared rfl
  | shutdown => exact .cleared rfl
  | reserve hint size tag => exact outcome_reserve p hint size tag
  | map hint size prot type tag => exact outcome_map p hint size prot type tag
  | alloc size align type => exact outcome_alloc p size align type
  | free ptr => exact outcome_free p ptr
  | commit base size prot =>
      rw [Process.call, Process.answer, commit]
      dsimp only
      split_ifs
      · exact .refused rfl rfl
      · exact .marked rfl fun r => ⟨rfl, rfl⟩
  | protect base size prot =>
      rw [Process.call, Process.answer, protect]
      rcases sysVirtualProtect os base size (protToWin prot) p.calls with ⟨ok, calls⟩
      cases ok with
      | false => exact .refused rfl rfl
      | true => exact .marked rfl fun r => ⟨rfl, rfl⟩
  | unmap base size =>
      rw [Process.call, Process.answer, unmap]
      rcases sysVirtualFree os base p.calls with ⟨ok, calls⟩
      cases ok with
      | false => exact .refused rfl rfl
      | true => exact .removed

end Windows

/-! ## The platforms -/

/-- A manager: its table in a state, what a call makes of the state, and what it answers. -/
structure Manager where
  State : Type
  table : State → MemState
  call : State → Call → State
  answer : State → Call → Answer
  outcome : ∀ s c, Outcome (table s) c (table (call s c)) (answer s c)

/-- Where the manager is built for, with the operating system there. -/
inductive Platform where
  | posix (os : Os) (hos : os.NonNull)
  | windows (os : Windows.System)

@[reducible] def Platform.manager : Platform → Manager
  | .posix os hos => ⟨Process, Process.st, Process.call os, Process.answer os, outcome_call hos⟩
  | .windows os => ⟨Windows.Process, Windows.Process.st, Windows.Process.call os,
      Windows.Process.answer os, Windows.outcome_call⟩

/-- The operating system and the allocator hand out nothing that is still recorded. -/
def FreshAnswer (st : MemState) : Call → Answer → Prop
  | .reserve _ _ _, .address base => base ≠ 0 → ∀ r ∈ st.regions, r.base ≠ base
  | .map _ _ _ _ _, .address base => base ≠ 0 → ∀ r ∈ st.regions, r.base ≠ base
  | .alloc _ _ _, .address ptr => ptr ≠ 0 → ∀ e ∈ st.heapAllocs, e.1 ≠ ptr
  | _, _ => True

/-! ## What an outcome leaves alone -/

section Frame

variable {st : MemState} {base : U64} {f : Region → Region}

/-- A mark changes no base and no size. -/
theorem map_modifyRegion {α : Type*} (g : Region → α) (hf : ∀ r, g (f r) = g r)
    (rs : List Region) : (modifyRegion base f rs).map g = rs.map g := by
  induction rs with
  | nil => rfl
  | cons r rs ih =>
      rw [modifyRegion]
      split_ifs
      · rw [List.map_cons, List.map_cons, hf]
      · rw [List.map_cons, List.map_cons, ih]

theorem length_modifyRegion (base : U64) (f : Region → Region) (rs : List Region) :
    (modifyRegion base f rs).length = rs.length := by
  have hmap : (modifyRegion base f rs).map (fun _ => ()) = rs.map fun _ => () :=
    map_modifyRegion (fun _ => ()) (fun _ => rfl) rs
  simpa only [List.length_map] using congrArg List.length hmap

/-- The first region at the base goes, if there is one. -/
theorem removeRegion_cases (st : MemState) (base : U64) :
    (st.regions.find? (fun r => r.base == base) = none ∧ removeRegion st base = st) ∨
      ∃ before r after, st.regions = before ++ r :: after ∧ r.base = base ∧
        (∀ r' ∈ before, r'.base ≠ base) ∧
        removeRegion st base = { st with
          regions := before ++ after
          stats := { st.stats with
            totalReserved := st.stats.totalReserved - r.size
            totalCommitted := st.stats.totalCommitted - if r.committed then r.size else 0
            regionCount := st.stats.regionCount - 1 } } := by
  cases hfind : st.regions.find? (fun r => r.base == base) with
  | none => exact .inl ⟨rfl, by rw [removeRegion, hfind]⟩
  | some r =>
      obtain ⟨hbase, before, after, hsplit, hbefore⟩ := List.find?_eq_some_iff_append.mp hfind
      refine .inr ⟨before, r, after, hsplit, by simpa using hbase,
        fun r' hr' => by simpa using hbefore r' hr', ?_⟩
      rw [removeRegion, hfind]
      dsimp only
      rw [hsplit, List.eraseP_append_right _ (fun r' hr' => by simpa using hbefore r' hr'),
        List.eraseP_cons, hbase, cond_true]

/-- A block that is not recorded is one more. -/
theorem heapAllocs_addBlock {ptr : U64} (size : U64) (type : AllocType)
    (hfresh : ∀ e ∈ st.heapAllocs, e.1 ≠ ptr) :
    (st.addBlock ptr size type).heapAllocs = (ptr, ⟨size, type⟩) :: st.heapAllocs := by
  have hothers : st.heapAllocs.filter (fun e => e.1 != ptr) = st.heapAllocs := by
    rw [List.filter_eq_self]
    intro e he
    simpa using hfresh e he
  rw [MemState.addBlock, hothers]

/-- The block that is found goes. -/
theorem heapAllocs_removeBlock {ptr : U64} {e : U64 × HeapAlloc} (size : U64)
    (hfind : st.heapAllocs.find? (fun e => e.1 == ptr) = some e) :
    ∃ before after, st.heapAllocs = before ++ e :: after ∧ e.1 = ptr ∧
      (st.removeBlock ptr size).heapAllocs = before ++ after := by
  obtain ⟨hptr, before, after, hsplit, hbefore⟩ := List.find?_eq_some_iff_append.mp hfind
  refine ⟨before, after, hsplit, beq_iff_eq.mp hptr, ?_⟩
  rw [MemState.removeBlock]
  dsimp only
  rw [hsplit, List.eraseP_append_right _ (fun e' he' => by simpa using hbefore e' he'),
    List.eraseP_cons, hptr, cond_true]

end Frame

end Memory
