/-
# Shared memory of the kernel services

A segment is mapped when it is created, and unmapped by the close that takes its last reference.
`CloseShm` and `UnmapShm` are the same; any number of segments may have one name, and `OpenShm`
takes the first that it comes across.

* `Balanced`: a handle is good for as long as it has been opened more often than closed, and its
  segment is unmapped once, by the close that ends this.

References and handles are counted with 32 bits.  Too many references do no harm, as long as
there are fewer than `2 ^ 32` opens; but when the handles come round, a new segment takes the
place of one that is in use.
-/
import ChuckStation.AssociationLists
import ChuckStation.HandleCounters
import ChuckStation.OperationRuns

namespace KernelServices

open HandleCounter OperationRuns

/-! ## Segments -/

abbrev ShmHandle := BitVec 32

def invalidShm : ShmHandle := -1

structure ShmDesc where
  handle : ShmHandle
  name : String
  size : U64
  hostPtr : U64
  refCount : U32

structure ShmEntry where
  desc : ShmDesc
  memBase : U64

def ShmEntry.setRefCount (e : ShmEntry) (refCount : U32) : ShmEntry :=
  { e with desc := { e.desc with refCount := refCount } }

abbrev ShmTable := AList fun _ : ShmHandle => ShmEntry

/-- The segments of `SvcState`. -/
structure ShmState where
  shms : ShmTable := ∅
  nextShm : ShmHandle := 1

/-- How the hash map is gone over, for any table. -/
structure ShmOrder where
  entries : ShmTable → List (Sigma fun _ : ShmHandle => ShmEntry)
  perm : ∀ t, (entries t).Perm t.entries

/-- A range that is unmapped: the arguments of `Memory::Unmap`. -/
structure ShmRange where
  base : U64
  size : U64

/-- `CreateShm`; `base` is what `Memory::Map` returns, which is 0 if it fails. -/
def createShm (name : String) (size base : U64) (st : ShmState) : ShmState × ShmHandle :=
  if base = 0 then (st, invalidShm)
  else
    let h := st.nextShm
    ({ shms := st.shms.insert h
         { desc := { handle := h, name := name, size := size, hostPtr := base, refCount := 1 }
           memBase := base }
       nextShm := h + 1 }, h)

def openShm (order : ShmOrder) (name : String) (st : ShmState) : ShmState × ShmHandle :=
  match (order.entries st.shms).find? fun e => e.2.desc.name == name with
  | none => (st, invalidShm)
  | some ⟨h, e⟩ =>
    ({ st with shms := st.shms.insert h (e.setRefCount (e.desc.refCount + 1)) }, h)

/-- `CloseShm`, and what it unmaps. -/
def closeShm (h : ShmHandle) (st : ShmState) : ShmState × Bool × Option ShmRange :=
  match st.shms.lookup h with
  | none => (st, false, none)
  | some e =>
    let refCount := e.desc.refCount - 1
    if refCount = 0 then
      ({ st with shms := st.shms.erase h }, true, some ⟨e.memBase, e.desc.size⟩)
    else
      ({ st with shms := st.shms.insert h (e.setRefCount refCount) }, true, none)

def unmapShm (h : ShmHandle) (st : ShmState) : ShmState × Bool × Option ShmRange := closeShm h st

/-- `MapShm`; `nullptr` is 0. -/
def mapShm (h : ShmHandle) (st : ShmState) : U64 :=
  match st.shms.lookup h with
  | none => 0
  | some e => e.desc.hostPtr

/-! ## Runs -/

inductive ShmOp where
  | createShm (name : String) (size base : U64)
  | openShm (order : ShmOrder) (name : String)
  | closeShm (h : ShmHandle)
  | unmapShm (h : ShmHandle)

/-- What has been done with a handle: the segment it was created for, the opens that returned
it, the closes of it that returned true, and what these have unmapped. -/
structure ShmAccount where
  segment : Option ShmRange := none
  opened : ℕ := 0
  closed : ℕ := 0
  released : List ShmRange := []

namespace ShmAccount

def addSegment (range : ShmRange) (a : ShmAccount) : ShmAccount :=
  { a with segment := a.segment <|> some range }

def addOpen (a : ShmAccount) : ShmAccount := { a with opened := a.opened + 1 }

def addClose (unmapped : Option ShmRange) (a : ShmAccount) : ShmAccount :=
  { a with closed := a.closed + 1, released := a.released ++ unmapped.toList }

end ShmAccount

/-- The segments; what has been done with the handles; how many segments have been mapped, and
how many opens have returned a handle. -/
structure ShmRun where
  st : ShmState := {}
  account : ShmHandle → ShmAccount := fun _ => {}
  created : ℕ := 0
  opens : ℕ := 0

def ShmRun.note (s : ShmRun) (h : ShmHandle) (f : ShmAccount → ShmAccount) :
    ShmHandle → ShmAccount :=
  Function.update s.account h (f (s.account h))

def ShmRun.closed (s : ShmRun) (h : ShmHandle) : ShmState × Bool × Option ShmRange → ShmRun
  | (st, true, unmapped) =>
    { s with
      st := st
      account := s.note h (ShmAccount.addClose unmapped) }
  | (st, false, _) => { s with st := st }

def shmStep (s : ShmRun) : ShmOp → ShmRun
  | .createShm name size base =>
    match createShm name size base s.st with
    | (st, h) =>
      { s with
        st := st
        account :=
          if h = invalidShm then s.account
          else s.note h (ShmAccount.addSegment ⟨base, size⟩)
        created := if base = 0 then s.created else s.created + 1 }
  | .openShm order name =>
    match openShm order name s.st with
    | (st, h) =>
      if h = invalidShm then { s with st := st }
      else { s with
        st := st
        account := s.note h ShmAccount.addOpen
        opens := s.opens + 1 }
  | .closeShm h => s.closed h (closeShm h s.st)
  | .unmapShm h => s.closed h (unmapShm h s.st)

/-- What the callers may rely on, for every handle. -/
structure Balanced (s : ShmRun) : Prop where
  valid_iff : ∀ h, h ∈ s.st.shms ↔
    (s.account h).segment.isSome ∧ (s.account h).closed < 1 + (s.account h).opened
  address : ∀ h range, h ∈ s.st.shms → (s.account h).segment = some range →
    mapShm h s.st = range.base
  released : ∀ h, (s.account h).released =
    if h ∈ s.st.shms then [] else (s.account h).segment.toList

/-- Fewer than `2 ^ 32` opens. -/
def ShmRun.FewOpens (s : ShmRun) : Prop := s.opens < 2 ^ 32

/-- So few segments that the counter of handles comes neither round nor to `INVALID_SHM`. -/
def ShmRun.FewSegments (s : ShmRun) : Prop := s.created < 2 ^ 32 - 1

/-! ## References are counted right -/

/-- What is in the table under a handle, and what has been done with the handle: nothing; more
opens than closes, and the difference is the count; or as many of both. -/
inductive AccountKept : Option ShmEntry → ShmAccount → Prop
  | unused : AccountKept none {}
  | valid {e : ShmEntry} {opened closed : ℕ} (hlt : closed < 1 + opened)
      (hcount : e.desc.refCount = BitVec.ofNat 32 (1 + opened - closed))
      (hptr : e.desc.hostPtr = e.memBase) :
      AccountKept (some e) ⟨some ⟨e.memBase, e.desc.size⟩, opened, closed, []⟩
  | gone {range : ShmRange} {opened : ℕ} :
      AccountKept none ⟨some range, opened, 1 + opened, [range]⟩

structure ShmKept (s : ShmRun) : Prop where
  accounts : ∀ h, AccountKept (s.st.shms.lookup h) (s.account h)
  opens : ∀ h, (s.account h).opened ≤ s.opens
  counter : GivenOut 1 s.created s.st.nextShm fun h => (s.account h).segment ≠ none

section Kept

variable {s : ShmRun} {h : ShmHandle} {e : ShmEntry} {a : ShmAccount}

theorem shmKept_empty : ShmKept {} where
  accounts := fun _ => .unused
  opens := fun _ => le_refl 0
  counter := GivenOut.zero.mono fun _ hne => hne rfl

/-- The entry under a handle, if there is one. -/
theorem AccountKept.valid_iff {o : Option ShmEntry} (h : AccountKept o a) :
    o.isSome = true ↔ a.segment.isSome = true ∧ a.closed < 1 + a.opened := by
  cases h with
  | unused => simp
  | valid hlt => simpa using hlt
  | gone => simp

theorem AccountKept.released {o : Option ShmEntry} (h : AccountKept o a) :
    a.released = if o.isSome = true then [] else a.segment.toList := by
  cases h with
  | unused | gone => rfl
  | valid hlt => rfl

theorem ShmKept.balanced (hs : ShmKept s) : Balanced s where
  valid_iff := by
    intro h
    rw [← AList.lookup_isSome]
    exact (hs.accounts h).valid_iff
  address := by
    intro h range hmem hrange
    obtain ⟨e, he⟩ := AList.exists_lookup hmem
    have hkept := hs.accounts h
    unfold mapShm
    rw [he] at hkept ⊢
    generalize s.account h = a at hkept hrange
    cases hkept with
    | valid hlt hcount hptr =>
        cases hrange
        exact hptr
  released := by
    intro h
    simp only [← AList.lookup_isSome]
    exact (hs.accounts h).released

/-- An entry is replaced, and what is done with its handle is noted. -/
theorem ShmKept.accounts_insert (hs : ShmKept s) {f : ShmAccount → ShmAccount}
    (hnew : AccountKept (some e) (f (s.account h))) (x : ShmHandle) :
    AccountKept ((s.st.shms.insert h e).lookup x) (s.note h f x) := by
  unfold ShmRun.note
  rw [AList.lookup_insert_ite]
  by_cases hx : x = h
  · rw [if_pos hx, hx, Function.update_self]
    exact hnew
  · rw [if_neg hx, Function.update_of_ne hx]
    exact hs.accounts x

theorem ShmKept.accounts_erase (hs : ShmKept s) {f : ShmAccount → ShmAccount}
    (hnew : AccountKept none (f (s.account h))) (x : ShmHandle) :
    AccountKept ((s.st.shms.erase h).lookup x) (s.note h f x) := by
  unfold ShmRun.note
  rw [AList.lookup_erase_ite]
  by_cases hx : x = h
  · rw [if_pos hx, hx, Function.update_self]
    exact hnew
  · rw [if_neg hx, Function.update_of_ne hx]
    exact hs.accounts x

/-- Handles with a segment are those that have been given out, and none is `INVALID_SHM`. -/
theorem ShmKept.ne_invalidShm (hs : ShmKept s) (hfew : s.FewSegments)
    (hsegment : (s.account h).segment ≠ none) : h ≠ invalidShm := by
  obtain ⟨i, hi, rfl⟩ := hs.counter.used_lt h hsegment
  unfold ShmRun.FewSegments at hfew
  intro heq
  have hnat := congrArg BitVec.toNat heq
  rw [BitVec.toNat_ofNat] at hnat
  have hmax : invalidShm.toNat = 2 ^ 32 - 1 := by decide
  omega

theorem AccountKept.eq_empty {o : Option ShmEntry} (h : AccountKept o a)
    (hsegment : a.segment = none) : a = {} := by
  cases h with
  | unused => rfl
  | valid hlt => cases hsegment
  | gone => cases hsegment

theorem ShmKept.opens_note (hs : ShmKept s) {f : ShmAccount → ShmAccount}
    (hf : ∀ a, (f a).opened = a.opened) (x : ShmHandle) : (s.note h f x).opened ≤ s.opens := by
  unfold ShmRun.note
  by_cases hx : x = h
  · rw [hx, Function.update_self, hf]
    exact hs.opens h
  · rw [Function.update_of_ne hx]
    exact hs.opens x

theorem ShmKept.create (hs : ShmKept s) {name : String} {size base : U64}
    (hfew : (shmStep s (.createShm name size base)).FewSegments) :
    ShmKept (shmStep s (.createShm name size base)) := by
  by_cases hbase : base = 0
  · have hsame : shmStep s (.createShm name size base) = s := by
      unfold shmStep createShm
      dsimp only
      rw [if_pos hbase, if_pos hbase, if_pos rfl]
    rw [hsame]
    exact hs
  · unfold ShmRun.FewSegments shmStep at hfew
    dsimp only at hfew
    rw [if_neg hbase] at hfew
    have hnext : s.st.nextShm ≠ invalidShm := by
      rw [hs.counter.next_eq]
      intro heq
      have hnat := congrArg BitVec.toNat heq
      rw [BitVec.toNat_ofNat] at hnat
      have hmax : invalidShm.toNat = 2 ^ 32 - 1 := by decide
      omega
    have hunused : (s.account s.st.nextShm).segment = none :=
      not_not.mp (hs.counter.next_unused (by omega))
    have haccount : s.account s.st.nextShm = {} := (hs.accounts _).eq_empty hunused
    have hstep : shmStep s (.createShm name size base) =
        { st :=
            { shms := s.st.shms.insert s.st.nextShm
                { desc := ⟨s.st.nextShm, name, size, base, 1⟩, memBase := base }
              nextShm := s.st.nextShm + 1 }
          account := s.note s.st.nextShm (ShmAccount.addSegment ⟨base, size⟩)
          created := s.created + 1
          opens := s.opens } := by
      unfold shmStep createShm
      dsimp only
      rw [if_neg hbase, if_neg hbase]
      dsimp only
      rw [if_neg hnext]
    rw [hstep]
    constructor
    · refine hs.accounts_insert ?_
      rw [haccount]
      exact .valid (Nat.lt_succ_self 0) rfl rfl
    · exact hs.opens_note fun _ => rfl
    · refine hs.counter.succ fun x hx => ?_
      by_cases hnew : x = s.st.nextShm
      · exact .inl hnew
      · refine .inr fun hnone => hx ?_
        show (s.note _ _ x).segment = none
        rw [ShmRun.note, Function.update_of_ne hnew]
        exact hnone

/-- The handle that an open finds. -/
theorem openShm_cases (order : ShmOrder) (name : String) (st : ShmState) :
    openShm order name st = (st, invalidShm) ∨ ∃ h e, st.shms.lookup h = some e ∧
      openShm order name st =
        ({ st with shms := st.shms.insert h (e.setRefCount (e.desc.refCount + 1)) }, h) := by
  unfold openShm
  cases hfind : (order.entries st.shms).find? fun e => e.2.desc.name == name with
  | none => exact .inl rfl
  | some entry =>
      obtain ⟨h, e⟩ := entry
      have hmem := (order.perm st.shms).mem_iff.mp (List.mem_of_find?_eq_some hfind)
      exact .inr ⟨h, e, AList.mem_lookup_iff.mpr hmem, rfl⟩

/-- What has been done with a handle that has an entry. -/
theorem ShmKept.valid (hs : ShmKept s) (he : s.st.shms.lookup h = some e) :
    ∃ opened closed, closed < 1 + opened ∧
      e.desc.refCount = BitVec.ofNat 32 (1 + opened - closed) ∧ e.desc.hostPtr = e.memBase ∧
      s.account h = ⟨some ⟨e.memBase, e.desc.size⟩, opened, closed, []⟩ := by
  have hkept := hs.accounts h
  rw [he] at hkept
  generalize s.account h = a at hkept ⊢
  cases hkept with
  | valid hlt hcount hptr => exact ⟨_, _, hlt, hcount, hptr, rfl⟩

/-- What is noted keeps the segments. -/
theorem ShmKept.counter_note (hs : ShmKept s) {f : ShmAccount → ShmAccount}
    (hf : ∀ a, (f a).segment = a.segment) :
    GivenOut 1 s.created s.st.nextShm fun x => (s.note h f x).segment ≠ none := by
  apply hs.counter.mono
  intro x hx hnone
  apply hx
  unfold ShmRun.note
  by_cases heq : x = h
  · subst heq
    rw [Function.update_self, hf]
    exact hnone
  · rw [Function.update_of_ne heq]
    exact hnone

theorem ShmKept.open (hs : ShmKept s) (order : ShmOrder) (name : String)
    (hfew : s.FewSegments) : ShmKept (shmStep s (.openShm order name)) := by
  unfold shmStep
  dsimp only
  rcases openShm_cases order name s.st with hopen | ⟨h, e, he, hopen⟩
  · rw [hopen]
    dsimp only
    rw [if_pos rfl]
    exact hs
  · obtain ⟨opened, closed, hlt, hcount, hptr, haccount⟩ := hs.valid he
    have hne : h ≠ invalidShm := hs.ne_invalidShm hfew (by rw [haccount]; simp)
    rw [hopen]
    dsimp only
    rw [if_neg hne]
    constructor
    · refine hs.accounts_insert ?_
      rw [haccount]
      refine .valid (show closed < 1 + (opened + 1) by omega) ?_ hptr
      show e.desc.refCount + 1 = BitVec.ofNat 32 (1 + (opened + 1) - closed)
      rw [hcount, show 1 + (opened + 1) - closed = (1 + opened - closed) + 1 by omega,
        BitVec.ofNat_add (1 + opened - closed) 1]
      rfl
    · intro x
      show (s.note h ShmAccount.addOpen x).opened ≤ s.opens + 1
      unfold ShmRun.note
      by_cases hx : x = h
      · rw [hx, Function.update_self]
        exact Nat.succ_le_succ (hs.opens h)
      · rw [Function.update_of_ne hx]
        exact (hs.opens x).trans (Nat.le_succ _)
    · exact hs.counter_note fun _ => rfl

theorem ShmKept.close (hs : ShmKept s) (h : ShmHandle) (hfew : s.FewOpens) :
    ShmKept (s.closed h (closeShm h s.st)) := by
  unfold closeShm
  cases he : s.st.shms.lookup h with
  | none => exact hs
  | some e =>
      obtain ⟨opened, closed, hlt, hcount, hptr, haccount⟩ := hs.valid he
      have hopened : opened ≤ s.opens := by
        have hle := hs.opens h
        rw [haccount] at hle
        exact hle
      unfold ShmRun.FewOpens at hfew
      have hpred : e.desc.refCount - 1 = BitVec.ofNat 32 (1 + opened - (closed + 1)) := by
        rw [hcount, show 1 + opened - closed = (1 + opened - (closed + 1)) + 1 by omega,
          BitVec.ofNat_add _ 1]
        exact BitVec.add_sub_cancel _ _
      have hopens : ∀ unmapped x, (s.note h (ShmAccount.addClose unmapped) x).opened ≤ s.opens :=
        fun unmapped => hs.opens_note fun _ => rfl
      dsimp only
      -- At most `2 ^ 32 - 1` references are left, so the count is 0 only if there are none.
      by_cases hlast : closed = opened
      · have hzero : e.desc.refCount - 1 = 0 := by
          rw [hpred, hlast, Nat.add_comm, Nat.sub_self]
          rfl
        rw [if_pos hzero]
        refine ⟨hs.accounts_erase ?_, hopens _, hs.counter_note fun _ => rfl⟩
        rw [haccount, hlast]
        show AccountKept none ⟨_, opened, opened + 1, _⟩
        rw [Nat.add_comm]
        exact .gone
      · have hne : e.desc.refCount - 1 ≠ 0 := by
          rw [hpred]
          intro hzero
          have hnat := congrArg BitVec.toNat hzero
          rw [BitVec.toNat_ofNat] at hnat
          have hzero' : (0 : BitVec 32).toNat = 0 := rfl
          omega
        rw [if_neg hne]
        refine ⟨hs.accounts_insert ?_, hopens _, hs.counter_note fun _ => rfl⟩
        rw [haccount]
        exact .valid (show closed + 1 < 1 + opened by omega) hpred hptr

/-- What has been counted is not taken back. -/
theorem few_of_step {op : ShmOp} (h : (shmStep s op).FewOpens ∧ (shmStep s op).FewSegments) :
    s.FewOpens ∧ s.FewSegments := by
  have hclosed : ∀ h r, (s.closed h r).opens = s.opens ∧ (s.closed h r).created = s.created := by
    rintro h ⟨st, ok, unmapped⟩
    cases ok <;> exact ⟨rfl, rfl⟩
  have hle : s.opens ≤ (shmStep s op).opens ∧ s.created ≤ (shmStep s op).created := by
    cases op with
    | createShm name size base =>
        refine ⟨le_refl _, ?_⟩
        show s.created ≤ if base = 0 then s.created else s.created + 1
        split_ifs
        · exact le_refl _
        · exact Nat.le_succ _
    | openShm order name =>
        unfold shmStep
        dsimp only
        split_ifs
        · exact ⟨le_refl _, le_refl _⟩
        · exact ⟨Nat.le_succ _, le_refl _⟩
    | closeShm h | unmapShm h => exact ⟨(hclosed _ _).1.ge, (hclosed _ _).2.ge⟩
  exact ⟨hle.1.trans_lt h.1, hle.2.trans_lt h.2⟩

/-- One call. -/
theorem ShmKept.step (hs : ShmKept s) (op : ShmOp)
    (hfew : (shmStep s op).FewOpens ∧ (shmStep s op).FewSegments) : ShmKept (shmStep s op) := by
  have hbefore := few_of_step hfew
  cases op with
  | createShm name size base => exact hs.create hfew.2
  | openShm order name => exact hs.open order name hbefore.2
  | closeShm h => exact hs.close h hbefore.1
  | unmapShm h => exact hs.close h hbefore.1

/-- **Shared memory is counted right**, as long as there have been fewer than `2 ^ 32` opens and
fewer than `2 ^ 32 - 1` segments. -/
theorem balanced_run (ops : List ShmOp) :
    AllStates shmStep (fun s => s.FewOpens ∧ s.FewSegments → Balanced s) {} ops := by
  refine allStates_of_allSteps (G := fun _ _ => True)
    (I := fun s => s.FewOpens ∧ s.FewSegments → ShmKept s) (fun s hs hfew => (hs hfew).balanced)
    (fun s op hs _ hfew => (hs (few_of_step hfew)).step op hfew) (fun _ => shmKept_empty)
    (allSteps_of_forall fun _ _ => trivial)

end Kept

/-! ## When the handles come round -/

/-- `k` segments that are created under the handles from `n` on, and closed at once. -/
def closedSegments : ℕ → ℕ → List ShmOp
  | 0, _ => []
  | k + 1, n =>
    .createShm "b" 1 0x2000 :: .closeShm (BitVec.ofNat 32 n) :: closedSegments k (n + 1)

/-- A segment is created, then `k` that are closed at once, and one more. -/
def manySegments (k : ℕ) : List ShmOp :=
  .createShm "a" 1 0x1000 :: closedSegments k 2 ++ [.createShm "c" 1 0x3000]

/-- The handle of the first segment, and the next one. -/
structure FirstSegment (s : ShmRun) (n : ℕ) : Prop where
  segment : (s.account 1).segment = some ⟨0x1000, 1⟩
  next : s.st.nextShm = BitVec.ofNat 32 n
  opens : s.opens = 0

section Round

variable {s : ShmRun} {n : ℕ}

/-- A handle that has a segment keeps the first. -/
theorem segment_note {h : ShmHandle} {f : ShmAccount → ShmAccount} {range : ShmRange}
    (hf : ∀ a, a.segment = some range → (f a).segment = some range)
    (hs : (s.account 1).segment = some range) : (s.note h f 1).segment = some range := by
  unfold ShmRun.note
  by_cases h1 : 1 = h
  · rw [← h1, Function.update_self]
    exact hf _ hs
  · rw [Function.update_of_ne h1]
    exact hs

theorem FirstSegment.create (hs : FirstSegment s n) (name : String) (size base : U64)
    (hbase : base ≠ 0) : FirstSegment (shmStep s (.createShm name size base)) (n + 1) := by
  have hcreate : createShm name size base s.st =
      ({ shms := s.st.shms.insert s.st.nextShm
          { desc := ⟨s.st.nextShm, name, size, base, 1⟩, memBase := base }
         nextShm := s.st.nextShm + 1 }, s.st.nextShm) := if_neg hbase
  unfold shmStep
  dsimp only
  rw [hcreate]
  constructor
  · dsimp only
    split_ifs
    · exact hs.segment
    · refine segment_note (fun a ha => ?_) hs.segment
      unfold ShmAccount.addSegment
      rw [ha]
      rfl
  · show s.st.nextShm + 1 = BitVec.ofNat 32 (n + 1)
    rw [hs.next, BitVec.ofNat_add n 1]
    rfl
  · exact hs.opens

theorem FirstSegment.close (hs : FirstSegment s n) (h : ShmHandle) :
    FirstSegment (shmStep s (.closeShm h)) n := by
  show FirstSegment (s.closed h (closeShm h s.st)) n
  unfold closeShm
  cases s.st.shms.lookup h with
  | none => exact hs
  | some e =>
      dsimp only
      split_ifs
      · exact ⟨segment_note (fun a ha => ha) hs.segment, hs.next, hs.opens⟩
      · exact ⟨segment_note (fun a ha => ha) hs.segment, hs.next, hs.opens⟩

theorem FirstSegment.closedSegments (hs : FirstSegment s n) (k : ℕ) :
    FirstSegment ((closedSegments k n).foldl shmStep s) (n + k) := by
  induction k generalizing s n with
  | zero => exact hs
  | succ k ih =>
      have hround := ih ((hs.create "b" 1 0x2000 (by decide)).close (BitVec.ofNat 32 n))
      rw [Nat.add_right_comm] at hround
      exact hround

/-- The first segment is in use, and its handle leads to another one. -/
theorem not_balanced_reusedHandle :
    ¬ ∀ ops : List ShmOp, AllStates shmStep (fun s => s.FewOpens → Balanced s) {} ops := by
  intro h
  obtain ⟨k, hk⟩ : ∃ k, 2 + k = 2 ^ 32 + 1 := ⟨2 ^ 32 - 1, by norm_num⟩
  have hlast := h (manySegments k) _ (List.prefix_refl _)
  unfold manySegments at hlast
  rw [List.cons_append, List.foldl_cons, List.foldl_append] at hlast
  have hstart : FirstSegment (shmStep {} (.createShm "a" 1 0x1000)) 2 := ⟨rfl, rfl, rfl⟩
  have hround := hstart.closedSegments k
  generalize (closedSegments k 2).foldl shmStep (shmStep {} (.createShm "a" 1 0x1000)) = s at *
  have hnext : s.st.nextShm = 1 := by
    rw [hround.next, hk]
    decide
  have hnew := hround.create "c" 1 0x3000 (by decide)
  have hentry : (shmStep s (.createShm "c" 1 0x3000)).st.shms.lookup 1 =
      some { desc := ⟨1, "c", 1, 0x3000, 1⟩, memBase := 0x3000 } := by
    show (s.st.shms.insert s.st.nextShm _).lookup 1 = _
    rw [hnext]
    exact AList.lookup_insert _
  have hbalanced : Balanced (shmStep s (.createShm "c" 1 0x3000)) := by
    apply hlast
    show (shmStep s (.createShm "c" 1 0x3000)).opens < 2 ^ 32
    rw [hnew.opens]
    norm_num
  have haddress := hbalanced.address 1 _ (AList.mem_of_lookup hentry) hnew.segment
  unfold mapShm at haddress
  rw [hentry] at haddress
  exact absurd haddress (by decide)

end Round

end KernelServices
