/-
# The names and handles of IPC ports

A port is an object that any number of handles share; a name leads to one port.  Creating a
port gives the name to the new one, connecting opens one more handle on the port that has the
name, and closing a handle takes the name of its port off, whoever has it.

* `Published`: a server port that is open, and is the last one created under its name, can be
  connected to.  A close breaks this exactly if it takes the name off such a port and is not the
  close of its own handle.
-/
import ChuckStation.Bytes
import ChuckStation.OperationRuns

namespace KernelRuntime

open OperationRuns

/-! ## Ports -/

structure IpcEntry where
  name : String
  queue : List (List Byte) := []
  server : Bool := false

/-- The ports of `P6State`.  A port is known by how many were created before it; it lives as
long as anything refers to it, so it is never taken off the list. -/
structure IpcState where
  entries : List IpcEntry := []
  ipcByName : String → Option ℕ := fun _ => none
  ipcByHandle : ℤ → Option ℕ := fun _ => none
  nextIpc : ℤ := 1

def invalidIpcPort : ℤ := -1

/-- An `int32_t` is counted up beyond its range: the behaviour is undefined. -/
inductive IpcFault where
  | handlesUsedUp

/-- `h = st.nextIpc++; st.ipcByHandle[h] = entry`. -/
def IpcState.openHandle (st : IpcState) (entry : ℕ) : Except IpcFault (IpcState × ℤ) :=
  if st.nextIpc = 2 ^ 31 - 1 then .error .handlesUsedUp
  else .ok ({ st with
    nextIpc := st.nextIpc + 1
    ipcByHandle := Function.update st.ipcByHandle st.nextIpc (some entry) }, st.nextIpc)

def createIpcPort (name : String) (st : IpcState) : Except IpcFault (IpcState × ℤ) :=
  let entry := st.entries.length
  { st with
    entries := st.entries ++ [{ name, server := true }]
    ipcByName := Function.update st.ipcByName name (some entry) : IpcState }.openHandle entry

def connectIpcPort (name : String) (st : IpcState) : Except IpcFault (IpcState × ℤ) :=
  match st.ipcByName name with
  | none => .ok (st, invalidIpcPort)
  | some entry => st.openHandle entry

def closeIpcPort (h : ℤ) (st : IpcState) : IpcState × Bool :=
  match st.ipcByHandle h with
  | none => (st, false)
  | some entry =>
    -- Every handle of the port sees the flag, not only the one the port was created with.
    let byName := match st.entries[entry]? with
      | some e => if e.server then Function.update st.ipcByName e.name none else st.ipcByName
      | none => st.ipcByName
    ({ st with
      ipcByName := byName
      ipcByHandle := Function.update st.ipcByHandle h none }, true)

/-! ## Who is the server of a name -/

inductive PortOp where
  | create (name : String)
  | connect (name : String)
  | close (h : ℤ)

/-- The ports, and for each name the last port created under it with the handle it got. -/
structure PortRun where
  st : IpcState := {}
  latest : String → Option (ℤ × ℕ) := fun _ => none

def portStep (s : PortRun) : PortOp → Except IpcFault PortRun
  | .create name => do
    let (st, h) ← createIpcPort name s.st
    return ⟨st, Function.update s.latest name (some (h, s.st.entries.length))⟩
  | .connect name => do
    let (st, _) ← connectIpcPort name s.st
    return { s with st := st }
  | .close h => return { s with st := (closeIpcPort h s.st).1 }

/-- The last port created under a name, if its server handle is open. -/
def PortRun.serves (s : PortRun) (name : String) (port : ℕ) : Prop :=
  ∃ h, s.latest name = some (h, port) ∧ (s.st.ipcByHandle h).isSome

/-- Whoever connects under the name of an open server gets a handle of its port. -/
def Published (s : PortRun) : Prop :=
  ∀ name port, s.serves name port → ∀ st h, connectIpcPort name s.st = .ok (st, h) →
    h ≠ invalidIpcPort ∧ st.ipcByHandle h = some port

/-- A close that takes off the name of a port: no other handle is the open server of it. -/
def SparesServer (s : PortRun) : PortOp → Prop
  | .create _ | .connect _ => True
  | .close h => ∀ entry e, s.st.ipcByHandle h = some entry → s.st.entries[entry]? = some e →
    ∀ h' port, s.latest e.name = some (h', port) → h' ≠ h → s.st.ipcByHandle h' = none

/-! ## Names stay with their servers -/

/-- The state after a handle has been opened. -/
def IpcState.opened (st : IpcState) (entry : ℕ) : IpcState :=
  { st with
    nextIpc := st.nextIpc + 1
    ipcByHandle := Function.update st.ipcByHandle st.nextIpc (some entry) }

def IpcState.created (st : IpcState) (name : String) : IpcState :=
  { st with
    entries := st.entries ++ [{ name, server := true }]
    ipcByName := Function.update st.ipcByName name (some st.entries.length) }

/-- The new port is one more port for the names to lead to. -/
theorem created_ipcByName_lt {st : IpcState} {name : String}
    (hst : ∀ name port, st.ipcByName name = some port → port < st.entries.length) :
    ∀ name' port, (st.created name).ipcByName name' = some port →
      port < (st.created name).entries.length := by
  intro name' port hname'
  show port < (st.entries ++ [_]).length
  rw [List.length_append, List.length_singleton]
  have hname' : Function.update st.ipcByName name (some st.entries.length) name' = some port :=
    hname'
  by_cases hname : name' = name
  · subst hname
    rw [Function.update_self] at hname'
    cases hname'
    omega
  · rw [Function.update_of_ne hname] at hname'
    have hlt := hst name' port hname'
    omega

/-- The state after a handle has been closed, and the name of its port taken off. -/
def IpcState.closed (st : IpcState) (h : ℤ) (name : String) : IpcState :=
  { st with
    ipcByName := Function.update st.ipcByName name none
    ipcByHandle := Function.update st.ipcByHandle h none }

theorem openHandle_eq_ok {st st' : IpcState} {entry : ℕ} {h : ℤ}
    (hopen : st.openHandle entry = .ok (st', h)) : h = st.nextIpc ∧ st' = st.opened entry := by
  rw [IpcState.openHandle] at hopen
  split_ifs at hopen
  cases hopen
  exact ⟨rfl, rfl⟩

theorem createIpcPort_eq_ok {st st' : IpcState} {name : String} {h : ℤ}
    (hcreate : createIpcPort name st = .ok (st', h)) :
    h = st.nextIpc ∧ st' = (st.created name).opened st.entries.length :=
  openHandle_eq_ok hcreate

theorem connectIpcPort_eq_ok {st st' : IpcState} {name : String} {h : ℤ}
    (hconnect : connectIpcPort name st = .ok (st', h)) :
    (st.ipcByName name = none ∧ h = invalidIpcPort ∧ st' = st) ∨
      ∃ entry, st.ipcByName name = some entry ∧ h = st.nextIpc ∧ st' = st.opened entry := by
  rw [connectIpcPort] at hconnect
  cases hname : st.ipcByName name with
  | none =>
      rw [hname] at hconnect
      cases hconnect
      exact .inl ⟨rfl, rfl, rfl⟩
  | some entry =>
      rw [hname] at hconnect
      exact .inr ⟨entry, rfl, openHandle_eq_ok hconnect⟩

/-- What an operation of the ports can do. -/
theorem portStep_cases {s s' : PortRun} {op : PortOp} (hstep : portStep s op = .ok s') :
    (∃ name, op = .create name ∧ s'.st = (s.st.created name).opened s.st.entries.length ∧
      s'.latest = Function.update s.latest name (some (s.st.nextIpc, s.st.entries.length))) ∨
    (∃ name, op = .connect name ∧ s'.latest = s.latest ∧
      (s'.st = s.st ∨ ∃ entry, s.st.ipcByName name = some entry ∧ s'.st = s.st.opened entry)) ∨
    (∃ h, op = .close h ∧ s'.latest = s.latest ∧ s'.st = (closeIpcPort h s.st).1) := by
  cases op with
  | create name =>
      rw [portStep] at hstep
      cases hcreate : createIpcPort name s.st with
      | error e =>
          rw [hcreate] at hstep
          cases hstep
      | ok r =>
          rw [hcreate] at hstep
          cases hstep
          have hpair : createIpcPort name s.st = .ok (r.1, r.2) := hcreate
          obtain ⟨hh, hst⟩ := createIpcPort_eq_ok hpair
          refine .inl ⟨name, rfl, hst, ?_⟩
          rw [← hh]
  | connect name =>
      rw [portStep] at hstep
      cases hconnect : connectIpcPort name s.st with
      | error e =>
          rw [hconnect] at hstep
          cases hstep
      | ok r =>
          rw [hconnect] at hstep
          cases hstep
          refine .inr (.inl ⟨name, rfl, rfl, ?_⟩)
          have hpair : connectIpcPort name s.st = .ok (r.1, r.2) := hconnect
          rcases connectIpcPort_eq_ok hpair with
            ⟨-, -, hst⟩ | ⟨entry, hname, -, hst⟩
          · exact .inl hst
          · exact .inr ⟨entry, hname, hst⟩
  | close h =>
      cases hstep
      exact .inr (.inr ⟨h, rfl, rfl, rfl⟩)

/-- What keeps the names with their servers. -/
structure PortsKept (s : PortRun) : Prop where
  positive : 1 ≤ s.st.nextIpc
  old : ∀ h port, s.st.ipcByHandle h = some port → h < s.st.nextIpc
  latestOld : ∀ name h port, s.latest name = some (h, port) → h < s.st.nextIpc
  latestOwn : ∀ name h port, s.latest name = some (h, port) → s.st.ipcByHandle h ≠ none →
    s.st.ipcByHandle h = some port
  latestNamed : ∀ name h port, s.latest name = some (h, port) →
    ∃ e, s.st.entries[port]? = some e ∧ e.name = name
  servers : ∀ e ∈ s.st.entries, e.server = true
  exist : ∀ h port, s.st.ipcByHandle h = some port → port < s.st.entries.length
  namesExist : ∀ name port, s.st.ipcByName name = some port → port < s.st.entries.length
  published : ∀ name h port, s.latest name = some (h, port) → s.st.ipcByHandle h ≠ none →
    s.st.ipcByName name = some port

theorem PortsKept.nil : PortsKept {} where
  positive := le_refl 1
  old := fun _ _ h => nomatch h
  latestOld := fun _ _ _ h => nomatch h
  latestOwn := fun _ _ _ h => nomatch h
  latestNamed := fun _ _ _ h => nomatch h
  servers := fun _ h => nomatch h
  exist := fun _ _ h => nomatch h
  namesExist := fun _ _ h => nomatch h
  published := fun _ _ _ h => nomatch h

theorem PortsKept.isPublished {s : PortRun} (hs : PortsKept s) : Published s := by
  rintro name port ⟨h, hlatest, hopen⟩ st h' hconnect
  have hname := hs.published name h port hlatest (Option.isSome_iff_ne_none.mp hopen)
  rcases connectIpcPort_eq_ok hconnect with ⟨hnone, -, -⟩ | ⟨entry, hentry, rfl, rfl⟩
  · rw [hnone] at hname
    cases hname
  · rw [hname] at hentry
    cases hentry
    have hpositive := hs.positive
    refine ⟨?_, Function.update_self _ _ _⟩
    rw [invalidIpcPort]
    omega

theorem opened_ipcByHandle_of_lt {st : IpcState} {entry : ℕ} {h : ℤ} (hlt : h < st.nextIpc) :
    (st.opened entry).ipcByHandle h = st.ipcByHandle h :=
  Function.update_of_ne (ne_of_lt hlt) _ _

/-- A handle of an opened port is a handle from before, or the new one. -/
theorem opened_ipcByHandle_cases {st : IpcState} {entry port : ℕ} {h : ℤ}
    (hh : (st.opened entry).ipcByHandle h = some port) :
    (h = st.nextIpc ∧ port = entry) ∨ st.ipcByHandle h = some port := by
  by_cases heq : h = st.nextIpc
  · subst heq
    have hself : (st.opened entry).ipcByHandle st.nextIpc = some entry := Function.update_self _ _ _
    rw [hself] at hh
    cases hh
    exact .inl ⟨rfl, rfl⟩
  · exact .inr ((Function.update_of_ne heq _ _).symm.trans hh)

theorem PortsKept.open {s s' : PortRun} (hs : PortsKept s) {entry : ℕ}
    (hentry : entry < s.st.entries.length) (hst : s'.st = s.st.opened entry)
    (hlatest : s'.latest = s.latest) : PortsKept s' := by
  obtain ⟨st, latest⟩ := s'
  subst hst hlatest
  have hpositive := hs.positive
  -- The handles of the last servers are older than the new one.
  have hhandle : ∀ name h port, s.latest name = some (h, port) →
      (s.st.opened entry).ipcByHandle h = s.st.ipcByHandle h := fun name h port hl =>
    opened_ipcByHandle_of_lt (hs.latestOld name h port hl)
  constructor
  · show 1 ≤ s.st.nextIpc + 1
    omega
  · intro h port hh
    show h < s.st.nextIpc + 1
    rcases opened_ipcByHandle_cases hh with ⟨rfl, -⟩ | hh
    · omega
    · have hlt := hs.old h port hh
      omega
  · intro name h port hl
    have hlt := hs.latestOld name h port hl
    show h < s.st.nextIpc + 1
    omega
  · intro name h port hl hopen
    have hsame := hhandle name h port hl
    exact hsame.trans (hs.latestOwn name h port hl fun hnone => hopen (hsame.trans hnone))
  · exact hs.latestNamed
  · exact hs.servers
  · intro h port hh
    rcases opened_ipcByHandle_cases hh with ⟨-, rfl⟩ | hh
    · exact hentry
    · exact hs.exist h port hh
  · exact hs.namesExist
  · intro name h port hl hopen
    exact hs.published name h port hl fun hnone => hopen ((hhandle name h port hl).trans hnone)

theorem PortsKept.create {s s' : PortRun} (hs : PortsKept s) {name : String}
    (hst : s'.st = (s.st.created name).opened s.st.entries.length)
    (hlatest : s'.latest = Function.update s.latest name
      (some (s.st.nextIpc, s.st.entries.length))) : PortsKept s' := by
  obtain ⟨st, latest⟩ := s'
  subst hst hlatest
  have hpositive := hs.positive
  have hself : ((s.st.created name).opened s.st.entries.length).ipcByHandle s.st.nextIpc =
      some s.st.entries.length := Function.update_self _ _ _
  -- The last port of a name is the new one, or it is the last port of another name.
  have hcases : ∀ name' h port, Function.update s.latest name
      (some (s.st.nextIpc, s.st.entries.length)) name' = some (h, port) →
      (name' = name ∧ h = s.st.nextIpc ∧ port = s.st.entries.length) ∨
        (name' ≠ name ∧ s.latest name' = some (h, port)) := by
    intro name' h port hl
    by_cases hname : name' = name
    · subst hname
      rw [Function.update_self] at hl
      cases hl
      exact .inl ⟨rfl, rfl, rfl⟩
    · rw [Function.update_of_ne hname] at hl
      exact .inr ⟨hname, hl⟩
  have hhandle : ∀ name' h port, s.latest name' = some (h, port) →
      ((s.st.created name).opened s.st.entries.length).ipcByHandle h = s.st.ipcByHandle h :=
    fun name' h port hl =>
      opened_ipcByHandle_of_lt (hs.latestOld name' h port hl)
  constructor
  · show 1 ≤ s.st.nextIpc + 1
    omega
  · intro h port hh
    show h < s.st.nextIpc + 1
    rcases opened_ipcByHandle_cases hh with ⟨rfl, -⟩ | hh
    · show s.st.nextIpc < s.st.nextIpc + 1
      omega
    · have hlt := hs.old h port hh
      omega
  · intro name' h port hl
    show h < s.st.nextIpc + 1
    rcases hcases name' h port hl with ⟨-, rfl, -⟩ | ⟨-, hl⟩
    · omega
    · have hlt := hs.latestOld name' h port hl
      omega
  · intro name' h port hl hopen
    rcases hcases name' h port hl with ⟨-, rfl, rfl⟩ | ⟨-, hl⟩
    · exact hself
    · have hsame := hhandle name' h port hl
      exact hsame.trans (hs.latestOwn name' h port hl fun hnone => hopen (hsame.trans hnone))
  · intro name' h port hl
    rcases hcases name' h port hl with ⟨rfl, -, rfl⟩ | ⟨-, hl⟩
    · exact ⟨{ name := name', server := true }, List.getElem?_concat_length, rfl⟩
    · obtain ⟨e, he, hname⟩ := hs.latestNamed name' h port hl
      have hlt := (List.getElem?_eq_some_iff.mp he).1
      exact ⟨e, (List.getElem?_append_left hlt).trans he, hname⟩
  · intro e he
    rcases List.mem_append.mp he with he | he
    · exact hs.servers e he
    · rw [List.mem_singleton.mp he]
  · intro h port hh
    show port < (s.st.entries ++ [_]).length
    rw [List.length_append, List.length_singleton]
    rcases opened_ipcByHandle_cases hh with ⟨-, rfl⟩ | hh
    · omega
    · have hlt := hs.exist h port hh
      omega
  · exact created_ipcByName_lt hs.namesExist
  · intro name' h port hl hopen
    rcases hcases name' h port hl with ⟨rfl, -, rfl⟩ | ⟨hname, hl⟩
    · exact Function.update_self _ _ _
    · have hsame := hhandle name' h port hl
      have hpublished := hs.published name' h port hl fun hnone => hopen (hsame.trans hnone)
      exact (Function.update_of_ne hname _ _).trans hpublished

theorem closeIpcPort_of_none {st : IpcState} {h : ℤ} (hh : st.ipcByHandle h = none) :
    closeIpcPort h st = (st, false) := by
  rw [closeIpcPort, hh]

/-- What a close does to the handles and to the names. -/
theorem closeIpcPort_of_some {s : PortRun} (hs : PortsKept s) {h : ℤ} {entry : ℕ} {e : IpcEntry}
    (hh : s.st.ipcByHandle h = some entry) (he : s.st.entries[entry]? = some e) :
    (closeIpcPort h s.st).1 = s.st.closed h e.name := by
  have hserver : e.server = true := hs.servers e (List.mem_of_getElem? he)
  rw [closeIpcPort, hh]
  dsimp only
  rw [he]
  dsimp only
  rw [if_pos hserver]
  rfl

theorem PortsKept.close {s s' : PortRun} (hs : PortsKept s) {h : ℤ}
    (hguard : SparesServer s (.close h)) (hst : s'.st = (closeIpcPort h s.st).1)
    (hlatest : s'.latest = s.latest) : PortsKept s' := by
  obtain ⟨st, latest⟩ := s'
  subst hst hlatest
  cases hh : s.st.ipcByHandle h with
  | none =>
      rw [closeIpcPort_of_none hh]
      exact hs
  | some entry =>
      obtain ⟨e, he⟩ : ∃ e, s.st.entries[entry]? = some e :=
        ⟨_, List.getElem?_eq_getElem (hs.exist h entry hh)⟩
      rw [closeIpcPort_of_some hs hh he]
      -- What is open after the close was open before, and is not the closed handle.
      have hopen : ∀ h', Function.update s.st.ipcByHandle h none h' ≠ none →
          h' ≠ h ∧ Function.update s.st.ipcByHandle h none h' = s.st.ipcByHandle h' := by
        intro h' hne
        by_cases heq : h' = h
        · subst heq
          exact absurd (Function.update_self _ _ _) hne
        · exact ⟨heq, Function.update_of_ne heq _ _⟩
      have hstill : ∀ h' port, Function.update s.st.ipcByHandle h none h' = some port →
          s.st.ipcByHandle h' = some port := by
        intro h' port hport
        have hne : Function.update s.st.ipcByHandle h none h' ≠ none := by
          rw [hport]
          exact Option.some_ne_none port
        rw [← (hopen h' hne).2]
        exact hport
      constructor
      · exact hs.positive
      · exact fun h' port hport => hs.old h' port (hstill h' port hport)
      · exact hs.latestOld
      · intro name h' port hl hne
        obtain ⟨-, hsame⟩ := hopen h' hne
        exact hsame.trans (hs.latestOwn name h' port hl fun hnone => hne (hsame.trans hnone))
      · exact hs.latestNamed
      · exact hs.servers
      · exact fun h' port hport => hs.exist h' port (hstill h' port hport)
      · intro name port hname'
        have hname' : Function.update s.st.ipcByName e.name none name = some port := hname'
        by_cases hname : name = e.name
        · subst hname
          rw [Function.update_self] at hname'
          cases hname'
        · rw [Function.update_of_ne hname] at hname'
          exact hs.namesExist name port hname'
      · intro name h' port hl hne
        obtain ⟨hother, hsame⟩ := hopen h' hne
        have hbefore : s.st.ipcByHandle h' ≠ none := fun hnone => hne (hsame.trans hnone)
        -- The guard: the port of the handle is not that of another open server.
        have hname : name ≠ e.name := by
          rintro rfl
          exact hbefore (hguard entry e hh he h' port hl hother)
        exact (Function.update_of_ne hname _ _).trans (hs.published name h' port hl hbefore)

theorem PortsKept.step {s s' : PortRun} {op : PortOp} (hs : PortsKept s)
    (hguard : SparesServer s op) (hstep : portStep s op = .ok s') : PortsKept s' := by
  rcases portStep_cases hstep with ⟨name, -, hst, hlatest⟩ |
    ⟨name, -, hlatest, hst | ⟨entry, hname, hst⟩⟩ | ⟨h, rfl, hlatest, hst⟩
  · exact hs.create hst hlatest
  · obtain ⟨st, latest⟩ := s'
    subst hst hlatest
    exact hs
  · exact hs.open (hs.namesExist name entry hname) hst hlatest
  · exact hs.close hguard hst hlatest

/-- A close that takes the name off an open server leaves nothing to connect to. -/
theorem sparesServer_of_published {s : PortRun} {h : ℤ} (hs : PortsKept s)
    (hpublished : Published { s with st := (closeIpcPort h s.st).1 }) :
    SparesServer s (.close h) := by
  intro entry e hh he h' port hl hother
  by_contra hopen
  rw [closeIpcPort_of_some hs hh he] at hpublished
  have hsame : Function.update s.st.ipcByHandle h none h' = s.st.ipcByHandle h' :=
    Function.update_of_ne hother _ _
  -- The server is open still, and the name is gone.
  have hserves : (PortRun.mk (s.st.closed h e.name) s.latest).serves e.name port := by
    refine ⟨h', hl, ?_⟩
    show (Function.update s.st.ipcByHandle h none h').isSome = true
    rw [hsame]
    exact Option.isSome_iff_ne_none.mpr hopen
  have hconnect : connectIpcPort e.name (s.st.closed h e.name) =
      .ok (s.st.closed h e.name, invalidIpcPort) := by
    have hnone : (s.st.closed h e.name).ipcByName e.name = none := Function.update_self _ _ _
    rw [connectIpcPort, hnone]
  exact (hpublished e.name port hserves _ _ hconnect).1 rfl

/-- **IPC names stay with their server**, in exactly the runs in which every close spares the
open servers of other handles. -/
theorem published_iff (ops : List PortOp) :
    AllStatesReached portStep Published {} ops ↔ AllReached portStep SparesServer {} ops := by
  refine allStatesReached_iff_allReached_of (I := PortsKept) (fun s hs => hs.isPublished)
    (fun s op s' hs hguard hstep => hs.step hguard hstep) ?_ PortsKept.nil
  intro s op hs hpublished
  cases op with
  | create name => trivial
  | connect name => trivial
  | close h => exact sparesServer_of_published hs (hpublished _ rfl)

/-- A client closes its handle, and the server's name is gone. -/
theorem not_published_closedClient :
    ¬ ∀ ops : List PortOp, AllStatesReached portStep Published {} ops := by
  intro h
  have hpublished := h [.create "a", .connect "a", .close 2] _ (List.prefix_refl _) _ rfl
  exact absurd rfl (hpublished "a" 0 ⟨1, rfl, rfl⟩ _ invalidIpcPort rfl).1

end KernelRuntime
