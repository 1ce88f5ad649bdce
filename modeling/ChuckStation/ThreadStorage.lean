/-
# Thread-local storage of the kernel runtime

The keys are in the kernel state and the values in a store of their own, under the thread and the
key.  `Init` clears the keys and counts them from 0 again; neither `Init` nor `Reset` nor
`TlsFree` touches a value.

* `tlsStore`: what thread-local storage is for.  A key that is handed out is empty in every
  thread, and then has in each what that thread has set.
* `AsIdeal`: the code gives every thread those values.  This holds exactly as long as no key is
  handed out under which a thread has left a value.
-/
import ChuckStation.Bytes
import ChuckStation.OperationRuns

namespace KernelRuntime

open OperationRuns

abbrev TlsKey := U32

/-- `nullptr`, as the value of a key. -/
def nullValue : U64 := 0

/-- `tlsKeys` and `nextTlsKey` of `KernelState`, and `data` of `TlsStore`.  Nothing is ever done
with the destructors. -/
structure TlsState (ι : Type*) where
  tlsKeys : Finset TlsKey := ∅
  nextTlsKey : TlsKey := 0
  data : ι × TlsKey → Option U64 := fun _ => none

section Functions

variable {ι : Type*}

/-- What `Init` does to the keys. -/
def tlsInit (st : TlsState ι) : TlsState ι := { st with tlsKeys := ∅, nextTlsKey := 0 }

/-- What `Reset` does to the keys. -/
def tlsReset (st : TlsState ι) : TlsState ι := { st with tlsKeys := ∅ }

def tlsAlloc (st : TlsState ι) : TlsState ι × TlsKey :=
  ({ st with
    tlsKeys := insert st.nextTlsKey st.tlsKeys
    nextTlsKey := st.nextTlsKey + 1 }, st.nextTlsKey)

def tlsFree (key : TlsKey) (st : TlsState ι) : TlsState ι × Bool :=
  ({ st with tlsKeys := st.tlsKeys.erase key }, key ∈ st.tlsKeys)

/-- `TlsSet` in the thread `t`. -/
def tlsSet [DecidableEq ι] (t : ι) (key : TlsKey) (value : U64) (st : TlsState ι) :
    TlsState ι × Bool :=
  ({ st with data := Function.update st.data (t, key) (some value) }, true)

/-- `TlsGet` in the thread `t`. -/
def tlsGet (t : ι) (key : TlsKey) (st : TlsState ι) : U64 :=
  match st.data (t, key) with
  | none => nullValue
  | some value => value

theorem tlsGet_congr {st st' : TlsState ι} (h : st'.data = st.data) (t : ι) (key : TlsKey) :
    tlsGet t key st' = tlsGet t key st := by
  unfold tlsGet
  rw [h]

end Functions

/-! ## Runs -/

/-- The calls, with the threads that make those that depend on it. -/
inductive TlsOp (ι : Type*) where
  | init
  | reset
  | alloc
  | free (key : TlsKey)
  | set (t : ι) (key : TlsKey) (value : U64)
  | get (t : ι) (key : TlsKey)

/-- The value of every key in every thread, as it should be: empty since the key was handed out
for the last time, unless the thread has set it since. -/
abbrev TlsIdeal (ι : Type*) := ι → TlsKey → U64

/-- The state, and what a thread should find. -/
structure TlsRun (ι : Type*) where
  st : TlsState ι := {}
  ideal : TlsIdeal ι := fun _ _ => nullValue

section Runs

variable {ι : Type*} [DecidableEq ι]

def tlsStep (s : TlsRun ι) : TlsOp ι → TlsRun ι
  | .init => { s with st := tlsInit s.st }
  | .reset => { s with st := tlsReset s.st }
  | .alloc =>
    match tlsAlloc s.st with
    | (st, key) => ⟨st, fun t => Function.update (s.ideal t) key nullValue⟩
  | .free key => { s with st := (tlsFree key s.st).1 }
  | .set t key value =>
    ⟨(tlsSet t key value s.st).1,
      Function.update s.ideal t (Function.update (s.ideal t) key value)⟩
  | .get _ _ => s

/-- Every thread gets what it should. -/
def AsIdeal (s : TlsRun ι) : Prop := ∀ t key, tlsGet t key s.st = s.ideal t key

/-- A key that is handed out: no thread has a value under it. -/
def KeyIsEmpty (s : TlsRun ι) : TlsOp ι → Prop
  | .alloc => ∀ t, tlsGet t s.st.nextTlsKey s.st = nullValue
  | _ => True

variable {s : TlsRun ι}

/-- A set is seen by its thread, under its key. -/
theorem tlsGet_tlsSet (t t' : ι) (key key' : TlsKey) (value : U64) (st : TlsState ι) :
    tlsGet t' key' (tlsSet t key value st).1 =
      if t' = t ∧ key' = key then value else tlsGet t' key' st := by
  unfold tlsGet tlsSet
  dsimp only
  by_cases h : (t', key') = (t, key)
  · rw [h, Function.update_self, if_pos (Prod.mk.inj h)]
  · rw [Function.update_of_ne h, if_neg fun heq => h (Prod.ext heq.1 heq.2)]

theorem asIdeal_alloc_iff (h : AsIdeal s) :
    AsIdeal (tlsStep s .alloc) ↔ KeyIsEmpty s .alloc := by
  -- Handing a key out leaves the values as they are.
  have hget : ∀ t key, tlsGet t key (tlsStep s .alloc).st = tlsGet t key s.st :=
    fun t key => tlsGet_congr rfl t key
  constructor
  · intro hall t
    have hnew := hall t s.st.nextTlsKey
    rw [hget] at hnew
    exact hnew.trans (Function.update_self _ _ _)
  · intro hempty t key
    rw [hget]
    show tlsGet t key s.st = Function.update (s.ideal t) s.st.nextTlsKey nullValue key
    by_cases hkey : key = s.st.nextTlsKey
    · rw [hkey, Function.update_self]
      exact hempty t
    · rw [Function.update_of_ne hkey]
      exact h t key

theorem AsIdeal.set (h : AsIdeal s) (t : ι) (key : TlsKey) (value : U64) :
    AsIdeal (tlsStep s (.set t key value)) := by
  intro t' key'
  show tlsGet t' key' (tlsSet t key value s.st).1 =
    Function.update s.ideal t (Function.update (s.ideal t) key value) t' key'
  rw [tlsGet_tlsSet]
  by_cases ht : t' = t
  · subst ht
    rw [Function.update_self]
    by_cases hkey : key' = key
    · rw [hkey, if_pos ⟨rfl, rfl⟩, Function.update_self]
    · rw [if_neg fun heq => hkey heq.2, Function.update_of_ne hkey]
      exact h t' key'
  · rw [if_neg fun heq => ht heq.1, Function.update_of_ne ht]
    exact h t' key'

/-- One call keeps the values as they should be exactly if it hands out no key with a value. -/
theorem asIdeal_step_iff (h : AsIdeal s) (op : TlsOp ι) :
    AsIdeal (tlsStep s op) ↔ KeyIsEmpty s op := by
  cases op with
  | alloc => exact asIdeal_alloc_iff h
  | set t key value => exact iff_of_true (h.set t key value) trivial
  | init | reset | free key =>
      exact iff_of_true (fun t key => (tlsGet_congr rfl t key).trans (h t key)) trivial
  | get t key => exact iff_of_true h trivial

end Runs

end KernelRuntime
