/-
# IPC ports as channels

`IpcSend` and `IpcRecv` look their handle up under one lock and go to the queue under another,
so ports may be closed, created again and used by other threads in between.

* `Reliable`: through the handles of a port comes out a prefix of what went in through the
  handles of that port, whatever happens to the handles and the names meanwhile.
-/
import ChuckStation.IpcPorts

namespace KernelRuntime

open OperationRuns

/-! ## Calls in two critical sections -/

/-- A call that has found the port of its handle, and is not done with the queue. -/
inductive Pending where
  | send (h : ℤ) (entry : ℕ) (msg : List Byte)
  | recv (h : ℤ) (entry : ℕ) (bufSize : U64) (timeoutUs : U64)

/-- A call that has returned. -/
inductive Record where
  | sent (h : ℤ) (msg : List Byte)
  | received (h : ℤ) (buf : List Byte)
  | failed

/-- The ports, the calls on their way, for each handle the port it was opened on (kept when it
is closed), and the calls that have returned, first one first. -/
structure ChannelRun (ι : Type) where
  st : IpcState := {}
  pending : ι → Option Pending := fun _ => none
  opened : ℤ → Option ℕ := fun _ => none
  log : List Record := []

/-- The critical sections: those under `ipcMtx`, and those under the mutex of a port, which a
waiting call enters again at every wake-up and when its time is over. -/
inductive ChannelEvent (ι : Type) where
  | create (t : ι) (name : String)
  | connect (t : ι) (name : String)
  | close (t : ι) (h : ℤ)
  | send (t : ι) (h : ℤ) (msg : List Byte)
  | recv (t : ι) (h : ℤ) (bufSize : U64) (timeoutUs : U64)
  | enter (t : ι)
  | expire (t : ι)

def IpcState.queueOf (st : IpcState) (port : ℕ) : List (List Byte) :=
  (st.entries[port]?).elim [] IpcEntry.queue

def IpcState.setQueue (st : IpcState) (port : ℕ) (queue : List (List Byte)) : IpcState :=
  { st with entries := st.entries.modify port fun e => { e with queue := queue } }

variable {ι : Type}

/-- The handles that are open now are remembered. -/
def ChannelRun.remember (s : ChannelRun ι) (st : IpcState) : ChannelRun ι :=
  { s with
    st := st
    opened := fun h => (st.ipcByHandle h).or (s.opened h) }

section Step

variable [DecidableEq ι]

def ChannelRun.setPending (s : ChannelRun ι) (t : ι) (p : Option Pending) : ChannelRun ι :=
  { s with pending := Function.update s.pending t p }

def ChannelRun.finish (s : ChannelRun ι) (t : ι) (r : Record) : ChannelRun ι :=
  { s.setPending t none with log := s.log ++ [r] }

/-- `IpcRecv` where the queue is not empty. -/
def ChannelRun.take (s : ChannelRun ι) (t : ι) (h : ℤ) (entry : ℕ) (bufSize : U64)
    (msg : List Byte) (rest : List (List Byte)) : ChannelRun ι :=
  { s.finish t (.received h (msg.take bufSize.toNat)) with st := s.st.setQueue entry rest }

def channelStep (s : ChannelRun ι) : ChannelEvent ι → Except IpcFault (ChannelRun ι)
  | .create t name =>
    if (s.pending t).isSome then return s
    else (createIpcPort name s.st).map fun r => s.remember r.1
  | .connect t name =>
    if (s.pending t).isSome then return s
    else (connectIpcPort name s.st).map fun r => s.remember r.1
  | .close t h =>
    if (s.pending t).isSome then return s
    else return { s with st := (closeIpcPort h s.st).1 }
  | .send t h msg =>
    if (s.pending t).isSome then return s
    else match s.st.ipcByHandle h with
      | none => return s.finish t .failed
      | some entry => return s.setPending t (some (.send h entry msg))
  | .recv t h bufSize timeoutUs =>
    if (s.pending t).isSome then return s
    else match s.st.ipcByHandle h with
      | none => return s.finish t .failed
      | some entry => return s.setPending t (some (.recv h entry bufSize timeoutUs))
  | .enter t => match s.pending t with
    | none => return s
    | some (.send h entry msg) =>
      return { s.finish t (.sent h msg) with
        st := s.st.setQueue entry (s.st.queueOf entry ++ [msg]) }
    | some (.recv h entry bufSize _) => match s.st.queueOf entry with
      | [] => return s
      | msg :: rest => return s.take t h entry bufSize msg rest
  | .expire t => match s.pending t with
    | none | some (.send _ _ _) => return s
    | some (.recv h entry bufSize timeoutUs) => match s.st.queueOf entry with
      | [] => if timeoutUs = uint64Max then return s else return s.finish t .failed
      | msg :: rest => return s.take t h entry bufSize msg rest

end Step

/-! ## Channels -/

/-- The message of a record that was sent through a handle of the port. -/
def Record.sentTo (opened : ℤ → Option ℕ) (port : ℕ) : Record → Option (List Byte)
  | .sent h msg => if opened h = some port then some msg else none
  | .received _ _ | .failed => none

def Record.receivedFrom (opened : ℤ → Option ℕ) (port : ℕ) : Record → Option (List Byte)
  | .received h buf => if opened h = some port then some buf else none
  | .sent _ _ | .failed => none

/-- The messages sent through the handles of a port. -/
def ChannelRun.sentOn (s : ChannelRun ι) (port : ℕ) : List (List Byte) :=
  s.log.filterMap (Record.sentTo s.opened port)

/-- The messages received through the handles of a port. -/
def ChannelRun.receivedOn (s : ChannelRun ι) (port : ℕ) : List (List Byte) :=
  s.log.filterMap (Record.receivedFrom s.opened port)

/-- Nothing is lost, doubled, reordered or delivered to another port. -/
def Reliable (s : ChannelRun ι) : Prop := ∀ port, s.receivedOn port <+: s.sentOn port

/-- A receive that is about to take a message has a buffer for all of it. -/
def RoomForMessage (s : ChannelRun ι) : ChannelEvent ι → Prop
  | .enter t | .expire t => ∀ h entry bufSize timeoutUs,
    s.pending t = some (.recv h entry bufSize timeoutUs) →
      ∀ msg rest, s.st.queueOf entry = msg :: rest → msg.length ≤ bufSize.toNat
  | _ => True

/-! ## What carries the channels -/

section Run

variable {s s' : ChannelRun ι} {e : ChannelEvent ι}

theorem queueOf_setQueue (st : IpcState) (entry port : ℕ) (queue : List (List Byte))
    (hentry : entry < st.entries.length) :
    (st.setQueue entry queue).queueOf port = if port = entry then queue else st.queueOf port := by
  rw [IpcState.queueOf, IpcState.setQueue]
  by_cases hport : port = entry
  · subst hport
    rw [if_pos rfl, List.getElem?_modify_eq, List.getElem?_eq_getElem hentry]
    rfl
  · rw [if_neg hport, List.getElem?_modify_ne _ _ (Ne.symm hport)]
    rfl

/-- A new port has an empty queue. -/
theorem queueOf_created (st : IpcState) (name : String) (port : ℕ) :
    (st.created name).queueOf port = st.queueOf port := by
  rw [IpcState.queueOf, IpcState.queueOf, IpcState.created, List.getElem?_append]
  split_ifs with hlt
  · rfl
  · rw [List.getElem?_eq_none (not_lt.mp hlt), List.getElem?_singleton]
    split_ifs
    · rfl
    · rfl

theorem closeIpcPort_entries (h : ℤ) (st : IpcState) :
    (closeIpcPort h st).1.entries = st.entries := by
  rw [closeIpcPort]
  cases st.ipcByHandle h with
  | none => rfl
  | some entry => rfl

theorem closeIpcPort_nextIpc (h : ℤ) (st : IpcState) :
    (closeIpcPort h st).1.nextIpc = st.nextIpc := by
  rw [closeIpcPort]
  cases st.ipcByHandle h with
  | none => rfl
  | some entry => rfl

/-- A close only takes handles and names away. -/
theorem closeIpcPort_ipcByHandle {h h' : ℤ} {st : IpcState} {port : ℕ}
    (hh : (closeIpcPort h st).1.ipcByHandle h' = some port) : st.ipcByHandle h' = some port := by
  rw [closeIpcPort] at hh
  cases hentry : st.ipcByHandle h with
  | none =>
      rw [hentry] at hh
      exact hh
  | some entry =>
      rw [hentry] at hh
      have hh : Function.update st.ipcByHandle h none h' = some port := hh
      by_cases heq : h' = h
      · subst heq
        rw [Function.update_self] at hh
        cases hh
      · rwa [Function.update_of_ne heq] at hh

theorem closeIpcPort_ipcByName {h : ℤ} {name : String} {st : IpcState} {port : ℕ}
    (hname : (closeIpcPort h st).1.ipcByName name = some port) :
    st.ipcByName name = some port := by
  rw [closeIpcPort] at hname
  cases hentry : st.ipcByHandle h with
  | none =>
      rw [hentry] at hname
      exact hname
  | some entry =>
      rw [hentry] at hname
      cases he : st.entries[entry]? with
      | none =>
          simp only [he] at hname
          exact hname
      | some e =>
          simp only [he] at hname
          split_ifs at hname
          · by_cases heq : name = e.name
            · subst heq
              rw [Function.update_self] at hname
              cases hname
            · rwa [Function.update_of_ne heq] at hname
          · exact hname

/-- The handle that a record or a pending call came with. -/
def Record.handle : Record → Option ℤ
  | .sent h _ | .received h _ => some h
  | .failed => none

def Pending.goesTo (p : Pending) (opened : ℤ → Option ℕ) : Prop :=
  match p with
  | .send h entry _ | .recv h entry _ _ => opened h = some entry

/-- What carries the channels through a run. -/
structure ChannelsKept (s : ChannelRun ι) : Prop where
  handles : ∀ h port, s.st.ipcByHandle h = some port → s.opened h = some port
  old : ∀ h port, s.opened h = some port → h < s.st.nextIpc ∧ port < s.st.entries.length
  names : ∀ name port, s.st.ipcByName name = some port → port < s.st.entries.length
  onTheWay : ∀ t p, s.pending t = some p → p.goesTo s.opened
  logged : ∀ r ∈ s.log, ∀ h ∈ r.handle, (s.opened h).isSome
  balance : ∀ port, s.sentOn port = s.receivedOn port ++ s.st.queueOf port

theorem ChannelsKept.reliable (hs : ChannelsKept s) : Reliable s := by
  intro port
  rw [hs.balance port]
  exact List.prefix_append _ _

theorem ChannelsKept.nil : ChannelsKept ({} : ChannelRun ι) where
  handles := fun _ _ h => nomatch h
  old := fun _ _ h => nomatch h
  names := fun _ _ h => nomatch h
  onTheWay := fun _ _ h => nomatch h
  logged := fun _ h => nomatch h
  balance := fun _ => rfl

/-- Opening a handle changes what is remembered at that handle. -/
theorem ChannelsKept.remember_opened (hs : ChannelsKept s) {st : IpcState} {entry : ℕ}
    (hhandles : st.ipcByHandle = Function.update s.st.ipcByHandle s.st.nextIpc (some entry)) :
    (s.remember st).opened = Function.update s.opened s.st.nextIpc (some entry) := by
  funext h
  show (st.ipcByHandle h).or (s.opened h) = _
  rw [hhandles]
  by_cases hnew : h = s.st.nextIpc
  · subst hnew
    rw [Function.update_self, Function.update_self, Option.some_or]
  · rw [Function.update_of_ne hnew, Function.update_of_ne hnew]
    cases hh : s.st.ipcByHandle h with
    | none => exact Option.none_or
    | some port => exact (hs.handles h port hh).symm

theorem ChannelsKept.remember_self (hs : ChannelsKept s) : s.remember s.st = s := by
  have hopened : (fun h => (s.st.ipcByHandle h).or (s.opened h)) = s.opened := by
    funext h
    cases hh : s.st.ipcByHandle h with
    | none => exact Option.none_or
    | some port => exact (hs.handles h port hh).symm
  rw [ChannelRun.remember, hopened]

theorem sentTo_update {opened : ℤ → Option ℕ} {h' : ℤ} {p : Option ℕ} {port : ℕ} {r : Record}
    (hne : ∀ h ∈ r.handle, h ≠ h') :
    r.sentTo (Function.update opened h' p) port = r.sentTo opened port := by
  cases r with
  | sent h msg => rw [Record.sentTo, Record.sentTo, Function.update_of_ne (hne h rfl)]
  | received h buf | failed => rfl

theorem receivedFrom_update {opened : ℤ → Option ℕ} {h' : ℤ} {p : Option ℕ} {port : ℕ} {r : Record}
    (hne : ∀ h ∈ r.handle, h ≠ h') :
    r.receivedFrom (Function.update opened h' p) port = r.receivedFrom opened port := by
  cases r with
  | received h buf =>
      rw [Record.receivedFrom, Record.receivedFrom, Function.update_of_ne (hne h rfl)]
  | sent h msg | failed => rfl

/-- The handle of a call on its way has a port that exists. -/
theorem ChannelsKept.entry_lt (hs : ChannelsKept s) {h : ℤ} {entry : ℕ}
    (hopened : s.opened h = some entry) : entry < s.st.entries.length := (hs.old h entry hopened).2

/-- A handle is opened, on a port from before or on a new one. -/
theorem ChannelsKept.open (hs : ChannelsKept s) {st : IpcState} {entry : ℕ}
    (hhandles : st.ipcByHandle = Function.update s.st.ipcByHandle s.st.nextIpc (some entry))
    (hnext : st.nextIpc = s.st.nextIpc + 1) (hentry : entry < st.entries.length)
    (hlength : s.st.entries.length ≤ st.entries.length)
    (hnames : ∀ name port, st.ipcByName name = some port → port < st.entries.length)
    (hqueues : ∀ port, st.queueOf port = s.st.queueOf port) : ChannelsKept (s.remember st) := by
  have hopened := hs.remember_opened hhandles
  -- Whatever has a port already is older than the new handle.
  have hkept : ∀ h port, s.opened h = some port →
      h ≠ s.st.nextIpc ∧ (s.remember st).opened h = some port := by
    intro h port hh
    have hne : h ≠ s.st.nextIpc := ne_of_lt (hs.old h port hh).1
    refine ⟨hne, ?_⟩
    rw [hopened, Function.update_of_ne hne]
    exact hh
  -- So what is logged stays with the ports it was logged for.
  have hlogged : ∀ r ∈ s.log, ∀ h ∈ r.handle, h ≠ s.st.nextIpc := by
    intro r hr h hh
    obtain ⟨port, hport⟩ := Option.isSome_iff_exists.mp (hs.logged r hr h hh)
    exact (hkept h port hport).1
  constructor
  · intro h port hh
    have hh : st.ipcByHandle h = some port := hh
    rw [hopened]
    rw [hhandles] at hh
    by_cases hnew : h = s.st.nextIpc
    · subst hnew
      rwa [Function.update_self] at hh ⊢
    · rw [Function.update_of_ne hnew] at hh ⊢
      exact hs.handles h port hh
  · intro h port hh
    show h < st.nextIpc ∧ port < st.entries.length
    rw [hopened] at hh
    by_cases hnew : h = s.st.nextIpc
    · subst hnew
      rw [Function.update_self] at hh
      cases hh
      omega
    · rw [Function.update_of_ne hnew] at hh
      have hold := hs.old h port hh
      omega
  · exact hnames
  · intro t p hp
    have hgoes := hs.onTheWay t p hp
    cases p with
    | send h port msg => exact (hkept h port hgoes).2
    | recv h port bufSize timeoutUs => exact (hkept h port hgoes).2
  · intro r hr h hh
    obtain ⟨port, hport⟩ := Option.isSome_iff_exists.mp (hs.logged r hr h hh)
    rw [(hkept h port hport).2]
    rfl
  · intro port
    have hsent : (s.remember st).sentOn port = s.sentOn port := by
      rw [ChannelRun.sentOn, hopened]
      exact List.filterMap_congr fun r hr => sentTo_update (hlogged r hr)
    have hreceived : (s.remember st).receivedOn port = s.receivedOn port := by
      rw [ChannelRun.receivedOn, hopened]
      exact List.filterMap_congr fun r hr => receivedFrom_update (hlogged r hr)
    rw [hsent, hreceived, hs.balance port]
    exact congrArg _ (hqueues port).symm

theorem ChannelsKept.close (hs : ChannelsKept s) (h : ℤ) :
    ChannelsKept { s with st := (closeIpcPort h s.st).1 } := by
  have hentries := closeIpcPort_entries h s.st
  constructor
  · exact fun h' port hh => hs.handles h' port (closeIpcPort_ipcByHandle hh)
  · intro h' port hh
    rw [hentries, closeIpcPort_nextIpc]
    exact hs.old h' port hh
  · intro name port hname
    rw [hentries]
    exact hs.names name port (closeIpcPort_ipcByName hname)
  · exact hs.onTheWay
  · exact hs.logged
  · intro port
    show s.sentOn port = s.receivedOn port ++ (closeIpcPort h s.st).1.queueOf port
    rw [IpcState.queueOf, hentries]
    exact hs.balance port

/-- A call returns: its record and the queue of its port change together. -/
theorem ChannelsKept.record (hs : ChannelsKept s) {r : Record} {st : IpcState}
    (hhandle : ∀ h ∈ r.handle, (s.opened h).isSome) (hhandles : st.ipcByHandle = s.st.ipcByHandle)
    (hnext : st.nextIpc = s.st.nextIpc) (hnames : st.ipcByName = s.st.ipcByName)
    (hlength : st.entries.length = s.st.entries.length)
    (hbalance : ∀ port, s.sentOn port ++ (r.sentTo s.opened port).toList =
      s.receivedOn port ++ (r.receivedFrom s.opened port).toList ++ st.queueOf port) :
    ChannelsKept { s with st := st, log := s.log ++ [r] } := by
  constructor
  · intro h port hh
    exact hs.handles h port (by rwa [← hhandles])
  · intro h port hh
    rw [hnext, hlength]
    exact hs.old h port hh
  · intro name port hname
    rw [hlength]
    exact hs.names name port (by rwa [← hnames])
  · exact hs.onTheWay
  · intro r' hr' h hh
    rcases List.mem_append.mp hr' with hr' | hr'
    · exact hs.logged r' hr' h hh
    · rw [List.mem_singleton.mp hr'] at hh
      exact hhandle h hh
  · intro port
    -- The new record is the last of both lists.
    have hone : ∀ f : Record → Option (List Byte), [r].filterMap f = (f r).toList := fun f => by
      rw [List.filterMap_cons]
      cases f r with
      | none => rfl
      | some msg => rfl
    show (s.log ++ [r]).filterMap _ = (s.log ++ [r]).filterMap _ ++ _
    rw [List.filterMap_append, List.filterMap_append, hone, hone]
    exact hbalance port

/-! ## What a step does -/

variable [DecidableEq ι]

/-- What a critical section can do to the channels. -/
inductive ChannelStep (s : ChannelRun ι) (e : ChannelEvent ι) : ChannelRun ι → Prop
  | none : ChannelStep s e s
  | create (name : String) : ChannelStep s e
      (s.remember ((s.st.created name).opened s.st.entries.length))
  | connect (name : String) (entry : ℕ) (hname : s.st.ipcByName name = some entry) :
      ChannelStep s e (s.remember (s.st.opened entry))
  | refused : ChannelStep s e (s.remember s.st)
  | close (h : ℤ) : ChannelStep s e { s with st := (closeIpcPort h s.st).1 }
  | fail (t : ι) : ChannelStep s e (s.finish t .failed)
  | send (t : ι) (h : ℤ) (entry : ℕ) (msg : List Byte) (hh : s.st.ipcByHandle h = some entry) :
      ChannelStep s e (s.setPending t (some (.send h entry msg)))
  | recv (t : ι) (h : ℤ) (entry : ℕ) (bufSize timeoutUs : U64)
      (hh : s.st.ipcByHandle h = some entry) :
      ChannelStep s e (s.setPending t (some (.recv h entry bufSize timeoutUs)))
  | push (t : ι) (h : ℤ) (entry : ℕ) (msg : List Byte)
      (hpending : s.pending t = some (.send h entry msg)) :
      ChannelStep s e { s.finish t (.sent h msg) with
        st := s.st.setQueue entry (s.st.queueOf entry ++ [msg]) }
  | take (t : ι) (h : ℤ) (entry : ℕ) (bufSize timeoutUs : U64) (msg : List Byte)
      (rest : List (List Byte)) (hpending : s.pending t = some (.recv h entry bufSize timeoutUs))
      (hqueue : s.st.queueOf entry = msg :: rest)
      (hroom : RoomForMessage s e → msg.length ≤ bufSize.toNat) :
      ChannelStep s e (s.take t h entry bufSize msg rest)

/-- `CreateIpcPort`. -/
theorem channelStep_create {t : ι} {name : String}
    (hstep : channelStep s (.create t name) = .ok s') : ChannelStep s (.create t name) s' := by
  rw [channelStep] at hstep
  split_ifs at hstep
  · cases hstep
    exact .none
  · cases hcreate : createIpcPort name s.st with
    | error f =>
        rw [hcreate] at hstep
        cases hstep
    | ok r =>
        obtain ⟨st, h⟩ := r
        obtain ⟨-, rfl⟩ := createIpcPort_eq_ok hcreate
        rw [hcreate] at hstep
        cases hstep
        exact .create name

/-- `ConnectIpcPort`. -/
theorem channelStep_connect {t : ι} {name : String}
    (hstep : channelStep s (.connect t name) = .ok s') : ChannelStep s (.connect t name) s' := by
  rw [channelStep] at hstep
  split_ifs at hstep
  · cases hstep
    exact .none
  · cases hconnect : connectIpcPort name s.st with
    | error f =>
        rw [hconnect] at hstep
        cases hstep
    | ok r =>
        obtain ⟨st, h⟩ := r
        rw [hconnect] at hstep
        cases hstep
        rcases connectIpcPort_eq_ok hconnect with ⟨-, -, rfl⟩ | ⟨entry, hname, -, rfl⟩
        · exact .refused
        · exact .connect name entry hname

/-- A call gets the lock of its queue. -/
theorem channelStep_enter {t : ι}
    (hstep : channelStep s (.enter t) = .ok s') : ChannelStep s (.enter t) s' := by
  rw [channelStep] at hstep
  cases hp : s.pending t with
  | none =>
      rw [hp] at hstep
      cases hstep
      exact .none
  | some p =>
      rw [hp] at hstep
      cases p with
      | send h entry msg =>
          cases hstep
          exact .push t h entry msg hp
      | recv h entry bufSize timeoutUs =>
          cases hq : s.st.queueOf entry with
          | nil =>
              simp only [hq] at hstep
              cases hstep
              exact .none
          | cons msg rest =>
              simp only [hq] at hstep
              cases hstep
              exact .take t h entry bufSize timeoutUs msg rest hp hq
                fun hroom => hroom h entry bufSize timeoutUs hp msg rest hq

/-- A receiving call wakes at its timeout. -/
theorem channelStep_expire {t : ι}
    (hstep : channelStep s (.expire t) = .ok s') : ChannelStep s (.expire t) s' := by
  rw [channelStep] at hstep
  cases hp : s.pending t with
  | none =>
      rw [hp] at hstep
      cases hstep
      exact .none
  | some p =>
      rw [hp] at hstep
      cases p with
      | send h entry msg =>
          cases hstep
          exact .none
      | recv h entry bufSize timeoutUs =>
          cases hq : s.st.queueOf entry with
          | nil =>
              simp only [hq] at hstep
              split_ifs at hstep
              · cases hstep
                exact .none
              · cases hstep
                exact .fail t
          | cons msg rest =>
              simp only [hq] at hstep
              cases hstep
              exact .take t h entry bufSize timeoutUs msg rest hp hq
                fun hroom => hroom h entry bufSize timeoutUs hp msg rest hq

theorem channelStep_cases (hstep : channelStep s e = .ok s') : ChannelStep s e s' := by
  cases e with
  | create t name => exact channelStep_create hstep
  | connect t name => exact channelStep_connect hstep
  | close t h =>
      rw [channelStep] at hstep
      split_ifs at hstep
      · cases hstep
        exact .none
      · cases hstep
        exact .close h
  | send t h msg =>
      rw [channelStep] at hstep
      split_ifs at hstep
      · cases hstep
        exact .none
      · cases hh : s.st.ipcByHandle h with
        | none =>
            rw [hh] at hstep
            cases hstep
            exact .fail t
        | some entry =>
            rw [hh] at hstep
            cases hstep
            exact .send t h entry msg hh
  | recv t h bufSize timeoutUs =>
      rw [channelStep] at hstep
      split_ifs at hstep
      · cases hstep
        exact .none
      · cases hh : s.st.ipcByHandle h with
        | none =>
            rw [hh] at hstep
            cases hstep
            exact .fail t
        | some entry =>
            rw [hh] at hstep
            cases hstep
            exact .recv t h entry bufSize timeoutUs hh
  | enter t => exact channelStep_enter hstep
  | expire t => exact channelStep_expire hstep

/-! ## Channels stay reliable -/

/-- A call finds the port of its handle, or is done with the queue. -/
theorem ChannelsKept.setPending (hs : ChannelsKept s) {t : ι} {p : Option Pending}
    (hp : ∀ p', p = some p' → p'.goesTo s.opened) : ChannelsKept (s.setPending t p) := by
  refine ⟨hs.handles, hs.old, hs.names, ?_, hs.logged, hs.balance⟩
  intro t' p' hp'
  have hp' : Function.update s.pending t p t' = some p' := hp'
  by_cases ht : t' = t
  · subst ht
    rw [Function.update_self] at hp'
    exact hp p' hp'
  · rw [Function.update_of_ne ht] at hp'
    exact hs.onTheWay t' p' hp'

theorem ChannelsKept.return (hs : ChannelsKept s) (t : ι) : ChannelsKept (s.setPending t none) :=
  hs.setPending fun _ hp => nomatch hp

theorem ChannelsKept.fail (hs : ChannelsKept s) (t : ι) : ChannelsKept (s.finish t .failed) := by
  refine (hs.return t).record (fun h hh => nomatch hh)
    rfl rfl rfl rfl fun port => ?_
  rw [Record.sentTo, Record.receivedFrom, Option.toList_none, List.append_nil, List.append_nil]
  exact hs.balance port

theorem ChannelsKept.push (hs : ChannelsKept s) {t : ι} {h : ℤ} {entry : ℕ} {msg : List Byte}
    (hpending : s.pending t = some (.send h entry msg)) :
    ChannelsKept { s.finish t (.sent h msg) with
      st := s.st.setQueue entry (s.st.queueOf entry ++ [msg]) } := by
  have hopened : s.opened h = some entry := hs.onTheWay t _ hpending
  refine (hs.return t).record ?_ rfl rfl rfl
    (List.length_modify _ _ _) fun port => ?_
  · rintro h' ⟨⟩
    exact Option.isSome_iff_exists.mpr ⟨entry, hopened⟩
  · -- Only the queue of the port grows, by what was sent.
    show s.sentOn port ++ (if s.opened h = some port then some msg else none).toList =
      s.receivedOn port ++ [] ++ (s.st.setQueue entry (s.st.queueOf entry ++ [msg])).queueOf port
    rw [queueOf_setQueue _ _ _ _ (hs.entry_lt hopened), hs.balance port, hopened, List.append_nil]
    by_cases hport : port = entry
    · subst hport
      rw [if_pos rfl, if_pos rfl, Option.toList_some, List.append_assoc]
    · rw [if_neg hport, if_neg fun heq => hport (Option.some.inj heq).symm, Option.toList_none,
        List.append_nil]

theorem ChannelsKept.take (hs : ChannelsKept s) {t : ι} {h : ℤ} {entry : ℕ}
    {bufSize timeoutUs : U64} {msg : List Byte} {rest : List (List Byte)}
    (hpending : s.pending t = some (.recv h entry bufSize timeoutUs))
    (hqueue : s.st.queueOf entry = msg :: rest) (hroom : msg.length ≤ bufSize.toNat) :
    ChannelsKept (s.take t h entry bufSize msg rest) := by
  have hopened : s.opened h = some entry := hs.onTheWay t _ hpending
  refine (hs.return t).record ?_ rfl rfl rfl
    (List.length_modify _ _ _) fun port => ?_
  · rintro h' ⟨⟩
    exact Option.isSome_iff_exists.mpr ⟨entry, hopened⟩
  · -- The first message moves from the queue of the port to what was received.
    show s.sentOn port ++ [] = s.receivedOn port ++
      (if s.opened h = some port then some (msg.take bufSize.toNat) else none).toList ++
        (s.st.setQueue entry rest).queueOf port
    rw [queueOf_setQueue _ _ _ _ (hs.entry_lt hopened), hs.balance port, hopened, List.append_nil,
      List.take_of_length_le hroom]
    by_cases hport : port = entry
    · subst hport
      rw [if_pos rfl, if_pos rfl, hqueue, Option.toList_some, List.append_assoc,
        List.singleton_append]
    · rw [if_neg hport, if_neg fun heq => hport (Option.some.inj heq).symm, Option.toList_none,
        List.append_nil]

theorem ChannelsKept.step (hs : ChannelsKept s) (hroom : RoomForMessage s e)
    (hstep : channelStep s e = .ok s') : ChannelsKept s' := by
  cases channelStep_cases hstep with
  | none => exact hs
  | create name =>
      refine hs.open rfl rfl ?_ ?_ ?_ ?_
      · show s.st.entries.length < (s.st.entries ++ [_]).length
        rw [List.length_append, List.length_singleton]
        omega
      · show s.st.entries.length ≤ (s.st.entries ++ [_]).length
        rw [List.length_append]
        omega
      · exact created_ipcByName_lt hs.names
      · exact fun port => queueOf_created s.st name port
  | connect name entry hname =>
      exact hs.open rfl rfl (hs.names name entry hname) le_rfl hs.names fun _ => rfl
  | refused =>
      rw [hs.remember_self]
      exact hs
  | close h => exact hs.close h
  | fail t => exact hs.fail t
  | send t h entry msg hh =>
      exact hs.setPending fun p hp => by
        cases hp
        exact hs.handles h entry hh
  | recv t h entry bufSize timeoutUs hh =>
      exact hs.setPending fun p hp => by
        cases hp
        exact hs.handles h entry hh
  | push t h entry msg hpending => exact hs.push hpending
  | take t h entry bufSize timeoutUs msg rest hpending hqueue hfits =>
      exact hs.take hpending hqueue (hfits hroom)

/-- A step that logs no message leaves the queues as they are. -/
theorem queueOf_of_not_logged (hstep : channelStep s e = .ok s')
    (hlog : s'.log = s.log ∨ s'.log = s.log ++ [.failed]) (port : ℕ) :
    s'.st.queueOf port = s.st.queueOf port := by
  have hlogged : ∀ r, r ≠ .failed →
      ¬ (s.log ++ [r] = s.log ∨ s.log ++ [r] = s.log ++ [.failed]) := by
    rintro r hr (hsame | hfailed)
    · exact absurd (List.append_right_eq_self.mp hsame) (List.cons_ne_nil _ _)
    · exact hr (List.singleton_injective (List.append_cancel_left hfailed))
  cases channelStep_cases hstep with
  | none | connect | refused | fail | send | recv => rfl
  | create name => exact queueOf_created s.st name port
  | close h =>
      show (closeIpcPort h s.st).1.queueOf port = s.st.queueOf port
      rw [IpcState.queueOf, closeIpcPort_entries]
      rfl
  | push t h entry msg hpending => exact absurd hlog (hlogged _ (nofun))
  | take t h entry bufSize timeoutUs msg rest hpending hqueue hfits =>
      exact absurd hlog (hlogged _ (nofun))

/-- **IPC ports are reliable channels.**  As long as the receivers have room for the messages,
what comes out of a port is a prefix of what went into it, in every run; and no step but a
successful send or receive, so no step of a call that fails, changes a queue. -/
theorem reliable_run (events : List (ChannelEvent ι))
    (hroom : AllReached channelStep RoomForMessage {} events) :
    AllStatesReached channelStep Reliable {} events ∧
      ∀ (s s' : ChannelRun ι) (e : ChannelEvent ι), channelStep s e = .ok s' →
        s'.log = s.log ∨ s'.log = s.log ++ [.failed] →
          ∀ port, s'.st.queueOf port = s.st.queueOf port := by
  refine ⟨?_, fun s s' e hstep hlog port => queueOf_of_not_logged hstep hlog port⟩
  exact allStatesReached_of_allReached (fun s hs => hs.reliable)
    (fun s e s' hs hfits hstep => hs.step hfits hstep) ChannelsKept.nil hroom

theorem reliable_run_oneMessage :
    AllStatesReached channelStep Reliable ({} : ChannelRun ℕ)
        [.create 0 "port", .send 0 1 [7], .enter 0, .recv 1 1 8 uint64Max, .enter 1] ∧
      ∀ (s s' : ChannelRun ℕ) (e : ChannelEvent ℕ), channelStep s e = .ok s' →
        s'.log = s.log ∨ s'.log = s.log ++ [.failed] →
          ∀ port, s'.st.queueOf port = s.st.queueOf port := by
  apply reliable_run
  refine ⟨trivial, ?_⟩
  rintro s ⟨⟩
  refine ⟨trivial, ?_⟩
  rintro s ⟨⟩
  refine ⟨?_, ?_⟩
  · intro h entry bufSize timeoutUs hp
    cases hp
  rintro s ⟨⟩
  refine ⟨trivial, ?_⟩
  rintro s ⟨⟩
  refine ⟨?_, fun s _ => trivial⟩
  intro h entry bufSize timeoutUs hp msg rest hqueue
  cases hp
  cases hqueue
  decide

end Run

end KernelRuntime
