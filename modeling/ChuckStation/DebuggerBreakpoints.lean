/-
# The debugger's breakpoint list

The breakpoint manager of `Debugger.cpp` over the interpreter's table: two lists with id
counters of their own, and an address index on the interpreter's side.

`Agree` is the simulation relation between the two.  Adding and clearing keep it; `Init`,
`RemoveBreakpoint` and `EnableBreakpoint` keep it under the guards of `KeepsAgreement`.
-/
import ChuckStation.CpuBreakpoints

namespace Debugger

open OperationRuns NumberedList

/-! ## State -/

/-- `struct BreakpointEntry`. -/
structure BreakpointEntry where
  id : U32 := 0
  addr : U64 := 0
  label : String := ""
  hitCount : U32 := 0
  enabled : Bool := true
  deriving DecidableEq, Repr

/-- The breakpoint manager's part of `struct State`. -/
structure State where
  initialised : Bool := false
  breakpoints : List BreakpointEntry := []
  nextBpId : U32 := 1
  nextCondBpId : U32 := 10000

/-- The two modules. -/
structure System where
  dbg : State
  cpu : Cpu.CpuState

/-! ## Operations -/

/-- `Init()`. -/
def init (s : System) : System :=
  { s with dbg := { initialised := true, breakpoints := [], nextBpId := 1, nextCondBpId := 10000 } }

/-- `SetBreakpoint(addr, label)`, also `AddBreakpoint`. -/
def setBreakpoint (s : System) (addr : U64) (label : String) : U32 × System :=
  let id := s.dbg.nextBpId
  (id, { dbg := { s.dbg with
           nextBpId := s.dbg.nextBpId + 1
           breakpoints := s.dbg.breakpoints ++ [{ id, addr, label }] }
         cpu := (s.cpu.addBreakpoint addr label).2 })

/-- `AddConditionalBreakpoint(address, condition, label)`; the condition is not kept. -/
def addConditionalBreakpoint (s : System) (address : U64) (label : String) : U32 × System :=
  let id := s.dbg.nextCondBpId
  (id, { dbg := { s.dbg with
           nextCondBpId := s.dbg.nextCondBpId + 1
           breakpoints := s.dbg.breakpoints ++ [{ id, addr := address, label }] }
         cpu := (s.cpu.addBreakpoint address label).2 })

/-- `RemoveBreakpoint(id)`: the interpreter is asked to remove its own entry of that id. -/
def removeBreakpoint (s : System) (id : U32) : Bool × System :=
  match s.dbg.breakpoints.find? fun b => b.id == id with
  | none => (false, s)
  | some _ =>
      (true, { dbg := { s.dbg with breakpoints := s.dbg.breakpoints.eraseP fun b => b.id == id }
               cpu := (s.cpu.removeBreakpoint id).2 })

/-- The loop of `EnableBreakpoint`: the list with the first entry of that id changed. -/
def setEnabled (id : U32) (enable : Bool) : List BreakpointEntry → Option (List BreakpointEntry)
  | [] => none
  | bp :: bps =>
      if bp.id == id then some ({ bp with enabled := enable } :: bps)
      else (setEnabled id enable bps).map (bp :: ·)

/-- `EnableBreakpoint(id, enable)`. -/
def enableBreakpoint (s : System) (id : U32) (enable : Bool) : Bool × System :=
  match setEnabled id enable s.dbg.breakpoints with
  | none => (false, s)
  | some bps => (true, { s with dbg := { s.dbg with breakpoints := bps } })

/-- `ClearAllBreakpoints()`, also `ClearBreakpoints()`. -/
def clearAllBreakpoints (s : System) : System :=
  { dbg := { s.dbg with breakpoints := [] }, cpu := s.cpu.clearBreakpoints }

/-- A call of the breakpoint manager. -/
inductive Operation where
  | init
  | setBreakpoint (addr : U64) (label : String)
  | addConditionalBreakpoint (address : U64) (label : String)
  | removeBreakpoint (id : U32)
  | enableBreakpoint (id : U32) (enable : Bool)
  | clearAllBreakpoints

/-- The state after a call. -/
def System.apply (s : System) : Operation → System
  | .init => init s
  | .setBreakpoint addr label => (setBreakpoint s addr label).2
  | .addConditionalBreakpoint address label => (addConditionalBreakpoint s address label).2
  | .removeBreakpoint id => (removeBreakpoint s id).2
  | .enableBreakpoint id enable => (enableBreakpoint s id enable).2
  | .clearAllBreakpoints => clearAllBreakpoints s

/-- Both modules freshly initialised, whatever they were before. -/
def System.fresh (s : System) : System := { init s with cpu := s.cpu.init }

/-! ## Agreement -/

/-- An enabled entry of the list has address `a`. -/
def EnabledAt (bps : List BreakpointEntry) (a : U64) : Prop :=
  ∃ e ∈ bps, e.addr = a ∧ e.enabled = true

/-- The interpreter stops exactly at the addresses of enabled entries. -/
def Agree (s : System) : Prop :=
  ∀ a, s.cpu.isBreakpoint a = true ↔ EnabledAt s.dbg.breakpoints a

/-- Taking `e` out of the list leaves no enabled entry at its address. -/
def LosesAddress (e : BreakpointEntry) (rest : List BreakpointEntry) : Prop :=
  e.enabled = true ∧ ¬ EnabledAt rest e.addr

/-- When a call keeps an agreeing system in agreement. -/
def KeepsAgreement (s : System) : Operation → Prop
  | .setBreakpoint _ _ | .addConditionalBreakpoint _ _ | .clearAllBreakpoints => True
  | .init => ∀ e ∈ s.dbg.breakpoints, e.enabled = false
  | .enableBreakpoint id enable =>
      ∀ e, s.dbg.breakpoints.find? (fun b => b.id == id) = some e →
        e.enabled = enable ∨ EnabledAt (s.dbg.breakpoints.eraseP fun b => b.id == id) e.addr
  | .removeBreakpoint id =>
      ∀ e, s.dbg.breakpoints.find? (fun b => b.id == id) = some e →
        match s.cpu.breakpoints.find? fun b => b.id == id with
        | none => ¬ LosesAddress e (s.dbg.breakpoints.eraseP fun b => b.id == id)
        | some c =>
            (LosesAddress e (s.dbg.breakpoints.eraseP fun b => b.id == id) ∧ c.addr = e.addr) ∨
            (¬ LosesAddress e (s.dbg.breakpoints.eraseP fun b => b.id == id) ∧
              s.cpu.isBreakpoint c.addr = false)

/-! ## The debugger's list -/

section Entries

variable {bps : List BreakpointEntry} {e : BreakpointEntry} {a : U64} {id : U32}

theorem enabledAt_cons : EnabledAt (e :: bps) a ↔
    (e.addr = a ∧ e.enabled = true) ∨ EnabledAt bps a := by
  simp [EnabledAt]

theorem enabledAt_of_perm {bps' : List BreakpointEntry} (h : bps.Perm bps') :
    EnabledAt bps a ↔ EnabledAt bps' a := by
  unfold EnabledAt
  simp only [h.mem_iff]

theorem enabledAt_append_singleton : EnabledAt (bps ++ [e]) a ↔
    (e.addr = a ∧ e.enabled = true) ∨ EnabledAt bps a :=
  (enabledAt_of_perm (List.perm_append_singleton e bps)).trans enabledAt_cons

theorem setEnabled_of_find?_none (enable : Bool)
    (h : bps.find? (fun b => b.id == id) = none) : setEnabled id enable bps = none := by
  induction bps with
  | nil => rfl
  | cons bp bps ih =>
      cases hid : bp.id == id with
      | true => simp only [List.find?_cons, hid, reduceCtorEq] at h
      | false =>
          simp only [List.find?_cons, hid] at h
          simp [setEnabled, hid, ih h]

theorem setEnabled_of_find?_some (enable : Bool)
    (h : bps.find? (fun b => b.id == id) = some e) :
    ∃ bps', setEnabled id enable bps = some bps' ∧
      bps'.Perm ({ e with enabled := enable } :: bps.eraseP fun b => b.id == id) := by
  induction bps with
  | nil => cases h
  | cons bp bps ih =>
      cases hid : bp.id == id with
      | true =>
          simp only [List.find?_cons, hid, Option.some.injEq] at h
          subst h
          refine ⟨{ bp with enabled := enable } :: bps, by simp [setEnabled, hid], ?_⟩
          simp only [List.eraseP_cons, hid, cond_true]
          exact List.Perm.refl _
      | false =>
          simp only [List.find?_cons, hid] at h
          obtain ⟨bps', hset, hperm⟩ := ih h
          refine ⟨bp :: bps', by simp [setEnabled, hid, hset], ?_⟩
          simp only [List.eraseP_cons, hid, cond_false]
          exact (hperm.cons bp).trans (List.Perm.swap _ bp _)

end Entries

/-! ## One call -/

section Calls

variable {s : System}

theorem agree_setBreakpoint (h : Agree s) (addr : U64) (label : String) :
    Agree (setBreakpoint s addr label).2 := by
  intro a
  dsimp only [setBreakpoint]
  rw [Cpu.isBreakpoint_addBreakpoint, enabledAt_append_singleton, h a]
  simp [eq_comm]

theorem agree_addConditionalBreakpoint (h : Agree s) (address : U64) (label : String) :
    Agree (addConditionalBreakpoint s address label).2 := by
  intro a
  dsimp only [addConditionalBreakpoint]
  rw [Cpu.isBreakpoint_addBreakpoint, enabledAt_append_singleton, h a]
  simp [eq_comm]

theorem agree_clearAllBreakpoints (s : System) : Agree (clearAllBreakpoints s) := by
  intro a
  dsimp only [clearAllBreakpoints]
  rw [Cpu.isBreakpoint_clearBreakpoints]
  simp [EnabledAt]

theorem agree_fresh (s : System) : Agree s.fresh := by
  intro a
  dsimp only [System.fresh, init]
  rw [Cpu.isBreakpoint_init]
  simp [EnabledAt]

/-- `Init` empties the debugger's list and leaves the interpreter's table alone. -/
theorem agree_init_iff (h : Agree s) :
    Agree (init s) ↔ ∀ e ∈ s.dbg.breakpoints, e.enabled = false := by
  have hempty : Agree (init s) ↔ ∀ a, ¬ EnabledAt s.dbg.breakpoints a := by
    refine forall_congr' fun a => ?_
    dsimp only [init]
    rw [h a]
    simp [EnabledAt]
  rw [hempty]
  constructor
  · intro hno e he
    by_contra hen
    exact hno e.addr ⟨e, he, rfl, by simpa using hen⟩
  · rintro hall a ⟨e, he, -, hen⟩
    rw [hall e he] at hen
    cases hen

/-- `EnableBreakpoint` changes the debugger's list only. -/
theorem agree_enableBreakpoint_iff (h : Agree s) (id : U32) (enable : Bool) :
    Agree (enableBreakpoint s id enable).2 ↔ KeepsAgreement s (.enableBreakpoint id enable) := by
  dsimp only [KeepsAgreement]
  cases hfind : s.dbg.breakpoints.find? fun b => b.id == id with
  | none =>
      have hsame : (enableBreakpoint s id enable).2 = s := by
        simp only [enableBreakpoint, setEnabled_of_find?_none enable hfind]
      rw [hsame]
      exact ⟨fun _ e he => absurd he (by simp), fun _ => h⟩
  | some e =>
      obtain ⟨bps', hset, hperm⟩ := setEnabled_of_find?_some enable hfind
      -- Only the list of the debugger changes.
      have hagree : Agree (enableBreakpoint s id enable).2 ↔
          ∀ a, EnabledAt s.dbg.breakpoints a ↔ EnabledAt bps' a := by
        refine forall_congr' fun a => ?_
        simp only [enableBreakpoint, hset]
        rw [h a]
      rw [hagree]
      simp only [enabledAt_of_perm (perm_of_find? hfind), enabledAt_of_perm hperm, enabledAt_cons]
      constructor
      · intro hall e' he'
        cases he'
        have hat := hall e.addr
        -- Another breakpoint at the address hides the change.
        by_cases hrest : EnabledAt (s.dbg.breakpoints.eraseP fun b => b.id == id) e.addr
        · exact Or.inr hrest
        · left
          simp only [true_and, hrest, or_false] at hat
          exact Bool.eq_iff_iff.mpr hat
      · intro hguard a
        rcases hguard e rfl with hen | hrest
        · rw [hen]
        · constructor
          · rintro (⟨rfl, -⟩ | hin)
            · exact Or.inr hrest
            · exact Or.inr hin
          · rintro (⟨rfl, -⟩ | hin)
            · exact Or.inr hrest
            · exact Or.inr hin

/-- `RemoveBreakpoint` hands the debugger's id to the interpreter. -/
theorem agree_removeBreakpoint_iff (h : Agree s) (id : U32) :
    Agree (removeBreakpoint s id).2 ↔ KeepsAgreement s (.removeBreakpoint id) := by
  dsimp only [KeepsAgreement]
  cases hfind : s.dbg.breakpoints.find? fun b => b.id == id with
  | none =>
      have hsame : (removeBreakpoint s id).2 = s := by simp only [removeBreakpoint, hfind]
      rw [hsame]
      exact ⟨fun _ e he => absurd he (by simp), fun _ => h⟩
  | some e =>
      have hbefore : ∀ a, s.cpu.isBreakpoint a = true ↔ (e.addr = a ∧ e.enabled = true) ∨
          EnabledAt (s.dbg.breakpoints.eraseP fun b => b.id == id) a := fun a =>
        (h a).trans ((enabledAt_of_perm (perm_of_find? hfind)).trans enabledAt_cons)
      generalize hrest : s.dbg.breakpoints.eraseP (fun b => b.id == id) = rest at hbefore ⊢
      have hagree : Agree (removeBreakpoint s id).2 ↔
          ∀ a, (s.cpu.removeBreakpoint id).2.isBreakpoint a = true ↔ EnabledAt rest a := by
        simp only [Agree, removeBreakpoint, hfind, hrest]
      rw [hagree]
      -- whether the debugger's list loses the address decides what the table has to lose
      cases hc : s.cpu.breakpoints.find? fun b => b.id == id with
      | none =>
          rw [Cpu.removeBreakpoint_none _ _ hc]
          simp only [hbefore]
          constructor
          · rintro hall e' he' ⟨hen, hno⟩
            cases he'
            exact hno ((hall e.addr).mp (Or.inl ⟨rfl, hen⟩))
          · intro hkeep a
            have hkeep := hkeep e rfl
            simp only [LosesAddress, not_and, not_not] at hkeep
            constructor
            · rintro (⟨rfl, hen⟩ | hin)
              · exact hkeep hen
              · exact hin
            · exact Or.inr
      | some c =>
          simp only [Cpu.isBreakpoint_removeBreakpoint_some _ _ _ hc]
          by_cases hlose : LosesAddress e rest
          · constructor
            · intro hall e' he'
              cases he'
              refine Or.inl ⟨hlose, ?_⟩
              by_contra hne
              have hat := (hall e.addr).mp ⟨fun heq => hne heq.symm, (hbefore e.addr).mpr
                (Or.inl ⟨rfl, hlose.1⟩)⟩
              exact hlose.2 hat
            · intro hguard a
              have hceq : c.addr = e.addr := by
                rcases hguard e rfl with ⟨-, hceq⟩ | ⟨hnot, -⟩
                · exact hceq
                · exact absurd hlose hnot
              rw [hbefore a, hceq]
              constructor
              · rintro ⟨hne, ⟨heq, -⟩ | hin⟩
                · exact absurd heq.symm hne
                · exact hin
              · intro hin
                refine ⟨?_, Or.inr hin⟩
                rintro rfl
                exact hlose.2 hin
          · have hsame : ∀ a, s.cpu.isBreakpoint a = true ↔ EnabledAt rest a := by
              intro a
              simp only [LosesAddress, not_and, not_not] at hlose
              rw [hbefore a]
              constructor
              · rintro (⟨rfl, hen⟩ | hin)
                · exact hlose hen
                · exact hin
              · exact Or.inr
            constructor
            · intro hall e' he'
              cases he'
              refine Or.inr ⟨hlose, ?_⟩
              by_contra hbp
              have hin := (hsame c.addr).mp (by simpa using hbp)
              exact ((hall c.addr).mpr hin).1 rfl
            · intro hguard a
              have hoff : s.cpu.isBreakpoint c.addr = false := by
                rcases hguard e rfl with ⟨hyes, -⟩ | ⟨-, hoff⟩
                · exact absurd hyes hlose
                · exact hoff
              rw [hsame a]
              constructor
              · exact fun hin => hin.2
              · intro hin
                refine ⟨?_, hin⟩
                rintro rfl
                have hon := (hsame c.addr).mpr hin
                rw [hoff] at hon
                cases hon

/-- What keeps the two tables together in one call. -/
theorem agree_apply_iff (s : System) (op : Operation) (h : Agree s) :
    Agree (s.apply op) ↔ KeepsAgreement s op := by
  cases op with
  | init => exact agree_init_iff h
  | setBreakpoint addr label => exact iff_of_true (agree_setBreakpoint h addr label) trivial
  | addConditionalBreakpoint addr label =>
      exact iff_of_true (agree_addConditionalBreakpoint h addr label) trivial
  | removeBreakpoint id => exact agree_removeBreakpoint_iff h id
  | enableBreakpoint id enable => exact agree_enableBreakpoint_iff h id enable
  | clearAllBreakpoints => exact iff_of_true (agree_clearAllBreakpoints s) trivial

end Calls

/-! ## Sequences of calls -/

/-- **Agreement, exactly.**  From freshly initialised modules, the interpreter stops exactly
at the enabled entries after every call of a sequence if and only if every call of it
meets its guard. -/
theorem agree_run_iff (s : System) (ops : List Operation) :
    AllStates System.apply Agree s.fresh ops ↔
      AllSteps System.apply KeepsAgreement s.fresh ops :=
  allStates_iff_allSteps agree_apply_iff (agree_fresh s)

/-- A conditional breakpoint that was removed still stops the interpreter: its id is not
one of the interpreter's. -/
theorem not_agree_conditional :
    ¬ ∀ (s : System) (ops : List Operation), Agree (ops.foldl System.apply s.fresh) := by
  intro h
  have hagree := h ⟨{}, {}⟩ [.addConditionalBreakpoint 0x1000 "", .removeBreakpoint 10000] 0x1000
  obtain ⟨e, he, -⟩ := hagree.mp (by decide)
  have hempty : ([.addConditionalBreakpoint 0x1000 "", .removeBreakpoint 10000].foldl System.apply
      (System.fresh ⟨{}, {}⟩)).dbg.breakpoints = [] := by decide
  rw [hempty] at he
  cases he

end Debugger
