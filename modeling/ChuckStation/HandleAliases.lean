/-
# Duplicated handles

`DuplicateHandle` puts the shared pointer of a handle under one more number.  What that is for is
said by `Aliases`: a handle stands for the one that its chain of duplications started from, and
the object of that one is there until the last handle of the chain is closed.

The code answers every sequence of calls as `Aliases` does, as long as fewer than `2 ^ 32` handles
are given out.  After that the numbers come round, and a new handle takes the place of an open
one.
-/
import ChuckStation.KernelHandles
import ChuckStation.OperationResults

namespace KernelRuntime

open HandleCounter OperationRuns

/-! ## Calls on objects -/

/-- The calls on semaphores and events; the waits are those with a time limit of zero. -/
inductive ObjectCall where
  | signal (count : BitVec 32)
  | waitSemaphore
  | set
  | clear
  | waitEvent

/-- The type that `Get` asks for. -/
def ObjectCall.expectedType : ObjectCall → KObjectType
  | .signal _ | .waitSemaphore => .Semaphore
  | .set | .clear | .waitEvent => .Event

/-- What a call does to an object of its type.  A wait is given up if it would have to wait. -/
def ObjectCall.on : ObjectCall → KObject → KObject × Bool
  | .signal count, .semaphore attr value =>
    (.semaphore attr ((semaphore attr).run (.signal count) value).1, true)
  | .waitSemaphore, .semaphore attr value =>
    if (semaphore attr).ready (.wait 0) value then
      (.semaphore attr ((semaphore attr).run (.wait 0) value).1, true)
    else (.semaphore attr value, false)
  | .set, .event attr isSet => (.event attr ((eventObject attr).run .set isSet).1, true)
  | .clear, .event attr isSet => (.event attr ((eventObject attr).run .clear isSet).1, true)
  | .waitEvent, .event attr isSet =>
    if (eventObject attr).ready (.wait 0) isSet then
      (.event attr ((eventObject attr).run (.wait 0) isSet).1, true)
    else (.event attr isSet, false)
  | _, obj => (obj, false)

namespace KernelState

/-- `Get`, and what the call does with the object. -/
def callObject (h : KHandle) (call : ObjectCall) (st : KernelState) : KernelState × Bool :=
  match st.handles h with
  | none => (st, false)
  | some e =>
    if e.type ≠ call.expectedType then (st, false)
    else match st.objects[e.obj]? with
      | none => (st, false)
      | some obj =>
        ({ st with objects := st.objects.set e.obj (call.on obj).1 }, (call.on obj).2)

def signalSemaphore (h : KHandle) (count : BitVec 32) (st : KernelState) : KernelState × Bool :=
  st.callObject h (.signal count)

/-- `WaitSemaphore(h, 0)`. -/
def waitSemaphore (h : KHandle) (st : KernelState) : KernelState × Bool :=
  st.callObject h .waitSemaphore

def setEvent (h : KHandle) (st : KernelState) : KernelState × Bool := st.callObject h .set

def clearEvent (h : KHandle) (st : KernelState) : KernelState × Bool := st.callObject h .clear

/-- `WaitEvent(h, 0)`. -/
def waitEvent (h : KHandle) (st : KernelState) : KernelState × Bool := st.callObject h .waitEvent

end KernelState

/-! ## Sequences of calls -/

inductive AliasOp where
  | createSemaphore (attr : SemaphoreAttr)
  | createEvent (attr : EventAttr)
  | duplicate (src : KHandle)
  | signalSemaphore (h : KHandle) (count : BitVec 32)
  | waitSemaphore (h : KHandle)
  | setEvent (h : KHandle)
  | clearEvent (h : KHandle)
  | waitEvent (h : KHandle)
  | close (h : KHandle)

inductive AliasAnswer where
  | handle (h : KHandle)
  | done (ok : Bool)
  deriving DecidableEq

/-- What the kernel runtime does. -/
def kernelStep (st : KernelState) : AliasOp → KernelState × AliasAnswer
  | .createSemaphore attr => (st.createSemaphore attr).map id .handle
  | .createEvent attr => (st.createEvent attr).map id .handle
  | .duplicate src => (st.duplicateHandle src).map id .handle
  | .signalSemaphore h count => (st.signalSemaphore h count).map id .done
  | .waitSemaphore h => (st.waitSemaphore h).map id .done
  | .setEvent h => (st.setEvent h).map id .done
  | .clearEvent h => (st.clearEvent h).map id .done
  | .waitEvent h => (st.waitEvent h).map id .done
  | .close h => (st.closeHandle h).map id .done

/-! ## What duplication is for -/

/-- Handles are counted from 1 on, and never used twice.  Each open handle has the original that
its chain started from, and each original its object. -/
structure Aliases where
  original : ℕ → Option ℕ := fun _ => none
  object : ℕ → Option KObject := fun _ => none
  handed : ℕ := 0

namespace Aliases

/-- The number under which a handle is known to its callers. -/
def number (n : ℕ) : KHandle := BitVec.ofNat 32 n

def create (obj : KObject) (a : Aliases) : Aliases × AliasAnswer :=
  let n := a.handed + 1
  ({ original := Function.update a.original n (some n)
     object := Function.update a.object n (some obj)
     handed := n }, .handle (number n))

def duplicate (src : ℕ) (a : Aliases) : Aliases × AliasAnswer :=
  match a.original src with
  | none => (a, .handle invalidHandle)
  | some o =>
    let n := a.handed + 1
    ({ a with
      original := Function.update a.original n (some o)
      handed := n }, .handle (number n))

/-- A call goes to the object of the original. -/
def call (h : ℕ) (c : ObjectCall) (a : Aliases) : Aliases × AliasAnswer :=
  match a.original h with
  | none => (a, .done false)
  | some o =>
    match a.object o with
    | none => (a, .done false)
    | some obj =>
      ({ a with object := Function.update a.object o (some (c.on obj).1) },
        .done (c.on obj).2)

open Classical in
/-- The last handle of a chain takes the object with it. -/
noncomputable def close (h : ℕ) (a : Aliases) : Aliases × AliasAnswer :=
  let original := Function.update a.original h none
  ({ a with
    original := original
    object := fun o => if ∃ n, original n = some o then a.object o else none },
    .done (a.original h).isSome)

noncomputable def step (a : Aliases) : AliasOp → Aliases × AliasAnswer
  | .createSemaphore attr => a.create (.semaphore attr attr.initialValue)
  | .createEvent attr => a.create (.event attr attr.initialSet)
  | .duplicate src => a.duplicate src.toNat
  | .signalSemaphore h count => a.call h.toNat (.signal count)
  | .waitSemaphore h => a.call h.toNat .waitSemaphore
  | .setEvent h => a.call h.toNat .set
  | .clearEvent h => a.call h.toNat .clear
  | .waitEvent h => a.call h.toNat .waitEvent
  | .close h => a.close h.toNat

end Aliases

/-! ## The table of shared pointers does what `Aliases` does -/

theorem ObjectCall.type_on (c : ObjectCall) (obj : KObject) : (c.on obj).1.type = obj.type := by
  cases c with
  | signal count | set | clear => cases obj <;> rfl
  | waitSemaphore =>
      cases obj with
      | semaphore attr value =>
          unfold ObjectCall.on
          dsimp only
          split_ifs <;> rfl
      | thread | mutex | event attr isSet | timer => rfl
  | waitEvent =>
      cases obj with
      | event attr isSet =>
          unfold ObjectCall.on
          dsimp only
          split_ifs <;> rfl
      | thread | mutex | semaphore attr value | timer => rfl

/-- A call on an object of another type fails and changes nothing. -/
theorem ObjectCall.on_of_ne {c : ObjectCall} {obj : KObject} (h : obj.type ≠ c.expectedType) :
    c.on obj = (obj, false) := by
  cases c with
  | signal count | waitSemaphore =>
      cases obj with
      | semaphore attr value => exact absurd rfl h
      | thread | mutex | event attr isSet | timer => rfl
  | set | clear | waitEvent =>
      cases obj with
      | event attr isSet => exact absurd rfl h
      | thread | mutex | semaphore attr value | timer => rfl

/-- The originals are known by the objects that the table leads to. -/
structure Aliased (st : KernelState) (a : Aliases) (root : ℕ → ℕ) : Prop where
  counter : GivenOut 1 a.handed st.nextHandle fun h => st.handles h ≠ none
  original : ∀ h, a.original h.toNat = (st.handles h).map fun e => root e.obj
  object : ∀ h e, st.handles h = some e → ∃ obj, st.objects[e.obj]? = some obj ∧
    e.type = obj.type ∧ a.object (root e.obj) = some obj
  root_le : ∀ h e, st.handles h = some e → root e.obj ≤ a.handed
  root_inj : ∀ h h' e e', st.handles h = some e → st.handles h' = some e' →
    root e.obj = root e'.obj → e.obj = e'.obj

section Simulation

open Aliases

variable {st : KernelState} {a : Aliases} {root : ℕ → ℕ}

/-- The number of the next handle. -/
theorem Aliased.next_eq (h : Aliased st a root) : st.nextHandle = number (a.handed + 1) := by
  rw [h.counter.next_eq, Nat.add_comm 1]
  rfl

theorem toNat_number {n : ℕ} (hn : n < 2 ^ 32) : (number n).toNat = n := by
  unfold number
  rw [BitVec.toNat_ofNat, Nat.mod_eq_of_lt hn]

theorem Aliased.next_unused (h : Aliased st a root) (hfew : a.handed + 1 < 2 ^ 32) :
    st.handles st.nextHandle = none :=
  not_not.mp (h.counter.next_unused (by omega))

/-- One more number for an object, and one more handle of the chain. -/
theorem Aliased.open (h : Aliased st a root) (hfew : a.handed + 1 < 2 ^ 32) {e : HandleEntry}
    (obj : KObject) (hobj : st.objects[e.obj]? = some obj) (htype : e.type = obj.type)
    (hobject : a.object (root e.obj) = some obj) (hroot : root e.obj ≤ a.handed + 1)
    (hinj : ∀ h e', st.handles h = some e' → root e'.obj = root e.obj → e'.obj = e.obj) :
    Aliased
      { st with
        handles := Function.update st.handles st.nextHandle (some e)
        nextHandle := st.nextHandle + 1 }
      { a with
        original := Function.update a.original (a.handed + 1) (some (root e.obj))
        handed := a.handed + 1 } root := by
  have hnext : st.nextHandle.toNat = a.handed + 1 := by
    rw [h.next_eq, toNat_number hfew]
  -- Under the new number is the new entry, and under the others what was there.
  have hcases : ∀ x e', Function.update st.handles st.nextHandle (some e) x = some e' →
      e' = e ∨ st.handles x = some e' := by
    intro x e' hx
    by_cases hnew : x = st.nextHandle
    · rw [hnew, Function.update_self] at hx
      exact .inl (Option.some_inj.mp hx).symm
    · rw [Function.update_of_ne hnew] at hx
      exact .inr hx
  constructor
  · apply h.counter.succ
    intro x hx
    by_cases hnew : x = st.nextHandle
    · exact .inl hnew
    · exact .inr fun hnone => hx ((Function.update_of_ne hnew _ _).trans hnone)
  · intro x
    dsimp only
    by_cases hnew : x = st.nextHandle
    · rw [hnew, hnext, Function.update_self, Function.update_self]
      rfl
    · have hne : x.toNat ≠ a.handed + 1 := by
        rw [← hnext]
        exact fun heq => hnew (BitVec.eq_of_toNat_eq heq)
      rw [Function.update_of_ne hnew, Function.update_of_ne hne]
      exact h.original x
  · intro x e' hx
    rcases hcases x e' hx with rfl | hx
    · exact ⟨obj, hobj, htype, hobject⟩
    · exact h.object x e' hx
  · intro x e' hx
    rcases hcases x e' hx with rfl | hx
    · exact hroot
    · exact (h.root_le x e' hx).trans (Nat.le_succ _)
  · intro x y e₁ e₂ hx hy hsame
    rcases hcases x e₁ hx with rfl | hx
    · rcases hcases y e₂ hy with rfl | hy
      · rfl
      · exact (hinj y e₂ hy hsame.symm).symm
    · rcases hcases y e₂ hy with heq | hy
      · rw [heq] at hsame ⊢
        exact hinj x e₁ hx hsame
      · exact h.root_inj x y e₁ e₂ hx hy hsame

/-- An open handle has its object. -/
theorem Aliased.obj_lt (h : Aliased st a root) {x : KHandle} {e : HandleEntry}
    (hx : st.handles x = some e) : e.obj < st.objects.length := by
  obtain ⟨obj, hobj, -, -⟩ := h.object x e hx
  exact (List.getElem?_eq_some_iff.mp hobj).1

/-- One more object, which nothing leads to yet. -/
theorem Aliased.make (h : Aliased st a root) (obj : KObject) :
    Aliased { st with objects := st.objects ++ [obj] }
      { a with object := Function.update a.object (a.handed + 1) (some obj) }
      (Function.update root st.objects.length (a.handed + 1)) := by
  have hroot : ∀ x e, st.handles x = some e →
      Function.update root st.objects.length (a.handed + 1) e.obj = root e.obj :=
    fun x e hx => Function.update_of_ne (ne_of_lt (h.obj_lt hx)) _ _
  constructor
  · exact h.counter
  · intro x
    refine (h.original x).trans ?_
    dsimp only
    cases hx : st.handles x with
    | none => rfl
    | some e => exact congrArg some (hroot x e hx).symm
  · intro x e hx
    obtain ⟨obj', hobj, htype, hobject⟩ := h.object x e hx
    have hne : root e.obj ≠ a.handed + 1 := by
      have hle := h.root_le x e hx
      omega
    refine ⟨obj', (List.getElem?_append_left (h.obj_lt hx)).trans hobj, htype, ?_⟩
    rw [hroot x e hx]
    exact (Function.update_of_ne hne _ _).trans hobject
  · intro x e hx
    rw [hroot x e hx]
    exact h.root_le x e hx
  · intro x y e e' hx hy hsame
    rw [hroot x e hx, hroot y e' hy] at hsame
    exact h.root_inj x y e e' hx hy hsame

theorem Aliased.create (h : Aliased st a root) (hfew : a.handed + 1 < 2 ^ 32) (obj : KObject) :
    AliasAnswer.handle (st.alloc obj).2 = (a.create obj).2 ∧
      ∃ root, Aliased (st.alloc obj).1 (a.create obj).1 root := by
  refine ⟨congrArg _ h.next_eq, Function.update root st.objects.length (a.handed + 1), ?_⟩
  have hself : Function.update root st.objects.length (a.handed + 1) st.objects.length =
      a.handed + 1 := Function.update_self _ _ _
  have hopen := (h.make obj).open hfew (e := ⟨obj.type, st.objects.length⟩) obj
    List.getElem?_concat_length rfl ?_ ?_ ?_
  · dsimp only at hopen
    rw [hself] at hopen
    exact hopen
  · rw [hself]
    exact Function.update_self _ _ _
  · exact hself.le
  · -- The original of the new handle is newer than those of the open ones.
    intro x e' hx hsame
    rw [hself, Function.update_of_ne (ne_of_lt (h.obj_lt hx))] at hsame
    have hle := h.root_le x e' hx
    omega

theorem Aliased.duplicate (h : Aliased st a root) (src : KHandle)
    (hfew : (a.duplicate src.toNat).1.handed < 2 ^ 32) :
    AliasAnswer.handle (st.duplicateHandle src).2 = (a.duplicate src.toNat).2 ∧
      Aliased (st.duplicateHandle src).1 (a.duplicate src.toNat).1 root := by
  unfold KernelState.duplicateHandle Aliases.duplicate at *
  rw [h.original src] at hfew ⊢
  cases hsrc : st.handles src with
  | none => exact ⟨rfl, h⟩
  | some e =>
      rw [hsrc] at hfew
      obtain ⟨obj, hobj, htype, hobject⟩ := h.object src e hsrc
      refine ⟨congrArg _ h.next_eq, ?_⟩
      exact h.open hfew obj hobj htype hobject ((h.root_le src e hsrc).trans (Nat.le_succ _))
        fun x e' hx hsame => h.root_inj x src e' e hx hsrc hsame

theorem Aliased.call (h : Aliased st a root) (x : KHandle) (c : ObjectCall) :
    AliasAnswer.done (st.callObject x c).2 = (a.call x.toNat c).2 ∧
      Aliased (st.callObject x c).1 (a.call x.toNat c).1 root := by
  unfold KernelState.callObject Aliases.call
  rw [h.original x]
  cases hx : st.handles x with
  | none => exact ⟨rfl, h⟩
  | some e =>
      obtain ⟨obj, hobj, htype, hobject⟩ := h.object x e hx
      dsimp only [Option.map_some]
      rw [hobj, hobject]
      dsimp only
      by_cases hexpected : e.type = c.expectedType
      · rw [if_neg (not_not_intro hexpected)]
        refine ⟨rfl, h.counter, h.original, ?_, h.root_le, h.root_inj⟩
        intro y e' hy
        obtain ⟨obj', hobj', htype', hobject'⟩ := h.object y e' hy
        dsimp only
        -- The handles of the chain see the call, and no others.
        by_cases hsame : e'.obj = e.obj
        · rw [hsame] at hobj' ⊢
          rw [hobj] at hobj'
          cases hobj'
          refine ⟨(c.on obj).1, ?_, ?_, Function.update_self _ _ _⟩
          · exact List.getElem?_set_self (List.getElem?_eq_some_iff.mp hobj).1
          · rw [c.type_on, htype']
        · have hroot : root e'.obj ≠ root e.obj := fun heq =>
            hsame (h.root_inj y x e' e hy hx heq)
          refine ⟨obj', ?_, htype', ?_⟩
          · rw [List.getElem?_set_ne (Ne.symm hsame)]
            exact hobj'
          · rw [Function.update_of_ne hroot]
            exact hobject'
      · rw [if_pos hexpected, ObjectCall.on_of_ne (htype ▸ hexpected)]
        have hnothing : Function.update a.object (root e.obj) (some obj) = a.object := by
          rw [← hobject]
          exact Function.update_eq_self _ _
        dsimp only
        rw [hnothing]
        exact ⟨rfl, h⟩

theorem Aliased.close (h : Aliased st a root) (x : KHandle) :
    AliasAnswer.done (st.closeHandle x).2 = (a.close x.toNat).2 ∧
      Aliased (st.closeHandle x).1 (a.close x.toNat).1 root := by
  have hstill : ∀ y e, Function.update st.handles x none y = some e →
      y ≠ x ∧ st.handles y = some e := by
    intro y e hy
    by_cases hne : y = x
    · rw [hne, Function.update_self] at hy
      cases hy
    · rw [Function.update_of_ne hne] at hy
      exact ⟨hne, hy⟩
  have horiginal : ∀ y, y ≠ x →
      Function.update a.original x.toNat none y.toNat = a.original y.toNat := fun y hne =>
    Function.update_of_ne (fun heq => hne (BitVec.eq_of_toNat_eq heq)) _ _
  unfold KernelState.closeHandle Aliases.close
  refine ⟨?_, ?_, ?_, ?_, ?_, ?_⟩
  · rw [h.original x, Option.isSome_map]
  · refine h.counter.mono fun y hy hnone => hy ?_
    by_cases hne : y = x
    · rw [hne]
      exact Function.update_self _ _ _
    · exact (Function.update_of_ne hne _ _).trans hnone
  · intro y
    dsimp only
    by_cases hne : y = x
    · rw [hne, Function.update_self, Function.update_self]
      rfl
    · rw [horiginal y hne, Function.update_of_ne hne]
      exact h.original y
  · intro y e hy
    obtain ⟨hne, hy⟩ := hstill y e hy
    obtain ⟨obj, hobj, htype, hobject⟩ := h.object y e hy
    refine ⟨obj, hobj, htype, ?_⟩
    -- Its handle is open still, so the object has not been dropped.
    refine (if_pos ⟨y.toNat, ?_⟩).trans hobject
    rw [horiginal y hne, h.original y, hy]
    rfl
  · intro y e hy
    exact h.root_le y e (hstill y e hy).2
  · intro y z e e' hy hz hsame
    exact h.root_inj y z e e' (hstill y e hy).2 (hstill z e' hz).2 hsame

/-- One call. -/
theorem kernelStep_spec (h : ∃ root, Aliased st a root) (op : AliasOp)
    (hfew : (a.step op).1.handed < 2 ^ 32) :
    (kernelStep st op).2 = (a.step op).2 ∧
      ∃ root, Aliased (kernelStep st op).1 (a.step op).1 root := by
  obtain ⟨root, h⟩ := h
  cases op with
  | createSemaphore attr => exact h.create hfew _
  | createEvent attr => exact h.create hfew _
  | duplicate src => exact ⟨(h.duplicate src hfew).1, root, (h.duplicate src hfew).2⟩
  | signalSemaphore x count => exact ⟨(h.call x _).1, root, (h.call x _).2⟩
  | waitSemaphore x => exact ⟨(h.call x _).1, root, (h.call x _).2⟩
  | setEvent x => exact ⟨(h.call x _).1, root, (h.call x _).2⟩
  | clearEvent x => exact ⟨(h.call x _).1, root, (h.call x _).2⟩
  | waitEvent x => exact ⟨(h.call x _).1, root, (h.call x _).2⟩
  | close x => exact ⟨(h.close x).1, root, (h.close x).2⟩

theorem aliased_empty : Aliased {} {} id where
  counter := GivenOut.zero.mono fun _ hne => hne rfl
  original := fun _ => rfl
  object := fun _ _ hx => nomatch hx
  root_le := fun _ _ hx => nomatch hx
  root_inj := fun _ _ _ _ hx => nomatch hx

theorem handed_le_step (a : Aliases) (op : AliasOp) : a.handed ≤ (a.step op).1.handed := by
  have hcall : ∀ n c, (a.call n c).1.handed = a.handed := by
    intro n c
    unfold Aliases.call
    cases a.original n with
    | none => rfl
    | some o =>
        dsimp only
        cases a.object o <;> rfl
  cases op with
  | createSemaphore attr | createEvent attr => exact Nat.le_succ _
  | duplicate src =>
      show a.handed ≤ (a.duplicate src.toNat).1.handed
      unfold Aliases.duplicate
      cases a.original src.toNat with
      | none => exact le_refl _
      | some o => exact Nat.le_succ _
  | signalSemaphore x count | waitSemaphore x | setEvent x | clearEvent x | waitEvent x =>
      exact (hcall _ _).ge
  | close x => exact le_refl _

/-- What the calls of a sequence answer, if handles were never used twice. -/
noncomputable def aliasResults (ops : List AliasOp) : List AliasAnswer :=
  results Aliases.step {} ops

/-- How many handles they give out. -/
noncomputable def handlesGivenOut (ops : List AliasOp) : ℕ :=
  (ops.foldl (fun a op => (Aliases.step a op).1) {}).handed

/-- The calls on one handle. -/
inductive AliasOp.On (h : KHandle) : AliasOp → Prop
  | duplicate : On h (.duplicate h)
  | signalSemaphore (count : BitVec 32) : On h (.signalSemaphore h count)
  | waitSemaphore : On h (.waitSemaphore h)
  | setEvent : On h (.setEvent h)
  | clearEvent : On h (.clearEvent h)
  | waitEvent : On h (.waitEvent h)
  | close : On h (.close h)

/-- A call that has failed. -/
def AliasAnswer.failed : AliasAnswer → Bool
  | .handle h => h == invalidHandle
  | .done ok => !ok

theorem callObject_of_closed {x : KHandle} (hx : st.handles x = none) (c : ObjectCall) :
    st.callObject x c = (st, false) := by
  unfold KernelState.callObject
  rw [hx]

/-- A call on a handle that is not open fails, and leaves everything as it is. -/
theorem kernelStep_of_closed {x : KHandle} (hx : st.handles x = none) {op : AliasOp}
    (hop : op.On x) : (kernelStep st op).2.failed = true ∧ (kernelStep st op).1 = st := by
  have hcall : ∀ c, (AliasAnswer.done (st.callObject x c).2).failed = true ∧
      (st.callObject x c).1 = st := by
    intro c
    rw [callObject_of_closed hx]
    exact ⟨rfl, rfl⟩
  cases hop with
  | duplicate =>
      show (AliasAnswer.handle (st.duplicateHandle x).2).failed = true ∧
        (st.duplicateHandle x).1 = st
      unfold KernelState.duplicateHandle
      rw [hx]
      exact ⟨rfl, rfl⟩
  | signalSemaphore count => exact hcall _
  | waitSemaphore => exact hcall _
  | setEvent => exact hcall _
  | clearEvent => exact hcall _
  | waitEvent => exact hcall _
  | close =>
      have hsame : Function.update st.handles x none = st.handles := by
        rw [← hx]
        exact Function.update_eq_self _ _
      show (AliasAnswer.done (st.closeHandle x).2).failed = true ∧ (st.closeHandle x).1 = st
      unfold KernelState.closeHandle
      rw [hsame, hx]
      exact ⟨rfl, rfl⟩

/-- **Duplicated handles alias one object.**  Sequences of calls that give out fewer than `2 ^ 32`
handles are answered as if each handle was the one that its chain started from; and in any
state, a call on a handle that is not open fails and changes nothing. -/
theorem aliases_run (ops : List AliasOp) (hfew : handlesGivenOut ops < 2 ^ 32) :
    results kernelStep {} ops = aliasResults ops ∧
      ∀ (st : KernelState) (x : KHandle) (op : AliasOp), st.handles x = none → op.On x →
        (kernelStep st op).2.failed = true ∧ (kernelStep st op).1 = st := by
  refine ⟨?_, fun st x op hx hop => kernelStep_of_closed hx hop⟩
  apply results_eq (R := fun st a => ∃ root, Aliased st a root)
    (G := fun a op => (Aliases.step a op).1.handed < 2 ^ 32)
  · intro st a op h hfew
    exact kernelStep_spec h op hfew
  · exact ⟨id, aliased_empty⟩
  · exact allSteps_lt handed_le_step hfew

end Simulation

/-- A semaphore with one permit, and two handles of it. -/
def twoHandles : List AliasOp :=
  [.createSemaphore ⟨1, 1⟩, .duplicate 1, .waitSemaphore 2, .waitSemaphore 1, .close 1]

theorem aliases_run_twoHandles :
    results kernelStep {} twoHandles = aliasResults twoHandles ∧
      ∀ (st : KernelState) (x : KHandle) (op : AliasOp), st.handles x = none → op.On x →
        (kernelStep st op).2.failed = true ∧ (kernelStep st op).1 = st :=
  aliases_run twoHandles (show 2 < 2 ^ 32 by norm_num)

/-! ## When the numbers come round -/

section Round

open Aliases

/-- `k` events that are created under the numbers from `n` on, and closed at once. -/
def closedEvents : ℕ → ℕ → List AliasOp
  | 0, _ => []
  | k + 1, n => .createEvent {} :: .close (number n) :: closedEvents k (n + 1)

/-- A semaphore is created, then `k` events that are closed at once, and one more event. -/
def manyEvents (k : ℕ) : List AliasOp :=
  .createSemaphore ⟨1, 1⟩ :: closedEvents k 2 ++ [.createEvent {}]

theorem nextHandle_closedEvents (st : KernelState) {n : ℕ} (k : ℕ)
    (h : st.nextHandle = number n) :
    ((closedEvents k n).foldl (fun st op => (kernelStep st op).1) st).nextHandle =
      number (n + k) := by
  induction k generalizing st n with
  | zero => exact h
  | succ k ih =>
      rw [closedEvents, List.foldl_cons, List.foldl_cons, ih _ (n := n + 1)]
      · rw [Nat.add_right_comm, Nat.add_assoc]
      · show st.nextHandle + 1 = number (n + 1)
        unfold number at h ⊢
        rw [h, BitVec.ofNat_add n 1]
        rfl

/-- The first handle and its semaphore. -/
structure HasPermit (a : Aliases) : Prop where
  original : a.original 1 = some 1
  object : a.object 1 = some (.semaphore ⟨1, 1⟩ 1)
  handed : 1 ≤ a.handed

theorem HasPermit.createEvent {a : Aliases} (h : HasPermit a) :
    HasPermit (a.step (.createEvent {})).1 := by
  have hne : 1 ≠ a.handed + 1 := by
    have hle := h.handed
    omega
  exact ⟨(Function.update_of_ne hne _ _).trans h.original,
    (Function.update_of_ne hne _ _).trans h.object, h.handed.trans (Nat.le_succ _)⟩

theorem HasPermit.close {a : Aliases} (h : HasPermit a) {x : KHandle} (hx : x.toNat ≠ 1) :
    HasPermit (a.step (.close x)).1 := by
  have horiginal : Function.update a.original x.toNat none 1 = some 1 :=
    (Function.update_of_ne hx.symm _ _).trans h.original
  exact ⟨horiginal, (if_pos ⟨1, horiginal⟩).trans h.object, h.handed⟩

theorem HasPermit.closedEvents {a : Aliases} (h : HasPermit a) {n : ℕ} (k : ℕ) (hn : 2 ≤ n)
    (hk : n + k ≤ 2 ^ 32 + 1) :
    HasPermit ((closedEvents k n).foldl (fun a op => (Aliases.step a op).1) a) := by
  induction k generalizing a n with
  | zero => exact h
  | succ k ih =>
      refine ih (h.createEvent.close ?_) (by omega) (by omega)
      unfold number
      rw [BitVec.toNat_ofNat]
      omega

/-- The event has the number of the semaphore, which the code has lost. -/
theorem kernelStep_manyEvents {k : ℕ} (hk : 2 + k = 2 ^ 32 + 1) :
    (kernelStep ((manyEvents k).foldl (fun st op => (kernelStep st op).1) {})
      (.waitSemaphore 1)).2 = .done false := by
  unfold manyEvents
  rw [List.cons_append, List.foldl_cons, List.foldl_append]
  have hnext := nextHandle_closedEvents (kernelStep {} (.createSemaphore ⟨1, 1⟩)).1 (n := 2) k
    rfl
  generalize (closedEvents k 2).foldl (fun st op => (kernelStep st op).1)
    (kernelStep {} (.createSemaphore ⟨1, 1⟩)).1 = st at hnext ⊢
  have hone : st.nextHandle = 1 := by
    rw [hnext, hk]
    decide
  have hentry : (kernelStep st (.createEvent {})).1.handles 1 =
      some ⟨.Event, st.objects.length⟩ := by
    show Function.update st.handles st.nextHandle _ 1 = _
    rw [hone]
    exact Function.update_self _ _ _
  show AliasAnswer.done ((kernelStep st (.createEvent {})).1.callObject 1 .waitSemaphore).2 = _
  unfold KernelState.callObject
  rw [hentry]
  rfl

/-- The handle of the semaphore is open, and there is a permit. -/
theorem step_manyEvents {k : ℕ} (hk : 2 + k = 2 ^ 32 + 1) :
    (Aliases.step ((manyEvents k).foldl (fun a op => (Aliases.step a op).1) {})
      (.waitSemaphore 1)).2 = .done true := by
  unfold manyEvents
  rw [List.cons_append, List.foldl_cons, List.foldl_append]
  have hstart : HasPermit (Aliases.step {} (.createSemaphore ⟨1, 1⟩)).1 := ⟨rfl, rfl, le_refl _⟩
  have hkept := (hstart.closedEvents k (le_refl 2) hk.le).createEvent
  generalize (closedEvents k 2).foldl (fun a op => (Aliases.step a op).1)
    (Aliases.step {} (.createSemaphore ⟨1, 1⟩)).1 = a at hkept ⊢
  show (Aliases.call 1 .waitSemaphore (a.step (.createEvent {})).1).2 = _
  unfold Aliases.call
  rw [hkept.original]
  dsimp only
  rw [hkept.object]
  rfl

/-- When the counter has come round, a new handle takes the place of an open one. -/
theorem not_aliases_reusedNumber :
    ¬ ∀ ops : List AliasOp, results kernelStep {} ops = aliasResults ops := by
  intro h
  obtain ⟨k, hk⟩ : ∃ k, 2 + k = 2 ^ 32 + 1 := ⟨2 ^ 32 - 1, by norm_num⟩
  have hlast := h (manyEvents k ++ [.waitSemaphore 1])
  unfold aliasResults at hlast
  rw [results_append, results_append] at hlast
  have hanswer := (List.append_inj' hlast (by rw [length_results, length_results])).2
  have hsame : AliasAnswer.done false = .done true := by
    rw [← kernelStep_manyEvents hk, ← step_manyEvents hk]
    exact (List.cons_eq_cons.mp hanswer).1
  exact absurd hsame (by decide)

end Round

end KernelRuntime
