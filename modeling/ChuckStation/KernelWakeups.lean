/-
# Semaphores, events and IPC ports: who is woken

`SignalSemaphore` and `SetEvent` unlock the mutex and then notify all; `IpcSend` unlocks it and
then notifies one.  In between the state says one thing and the waiting threads know another.

* `semaphore_awake`, `event_awake`: a call waits on only while there is nothing for it, or while
  the thread that brought it is still before its `notify_all`.
* `ipc_attended`: while a receiver is blocked, every message of the port has a receiver on its
  way, or a sender before its `notify_one`.
-/
import ChuckStation.KernelObjects
import ChuckStation.MonitorTokens

namespace KernelRuntime

open Monitor OperationRuns

variable {ι : Type*} [Fintype ι] [DecidableEq ι]

/-! ## Semaphores -/

def semaphoreSignals : Signals Unit SemaphoreCall where
  waitsOn _ := ()
  notifies
    | .wait _ => none
    | .signal _ => some ()
  all := true
  inside := false

/-- A semaphore as `CreateSemaphore` makes it, with its threads. -/
def createSemaphoreThreads (ι : Type*) (attr : SemaphoreAttr) :
    Scheduled ι (BitVec 32) SemaphoreCall Unit :=
  { shared := attr.initialValue }

/-- A wait is blocked only while the value is not positive, or a signal has not notified yet. -/
def SemaphoreAwake (s : Scheduled ι (BitVec 32) SemaphoreCall Unit) : Prop :=
  ∀ t timeoutUs, s.place t = .waiting (.wait timeoutUs) →
    s.shared.toInt ≤ 0 ∨ ∃ u count, s.place u = .notifying (.signal count)

theorem announces_semaphore (attr : SemaphoreAttr) :
    Announces semaphoreSignals (semaphore attr) := by
  refine ⟨rfl, fun c c' value hwaits hruns hready => ?_⟩
  cases c with
  | signal count => cases hwaits
  | wait timeoutUs =>
      cases c' with
      | signal count => rfl
      | wait timeoutUs' =>
          -- Both ask for the same.
          have hsame : (0 : BitVec 32).slt value = true := hruns
          rw [show (0 : BitVec 32).slt value = false from hwaits] at hsame
          cases hsame

omit [Fintype ι] [DecidableEq ι] in
theorem SemaphoreAwake.of_awake {attr : SemaphoreAttr}
    {s : Scheduled ι (BitVec 32) SemaphoreCall Unit}
    (h : Awake semaphoreSignals (semaphore attr) s) : SemaphoreAwake s := by
  intro t timeoutUs ht
  rcases h t _ ht with hnothing | ⟨u, c, hu, hnotifies⟩
  · left
    apply not_lt.mp
    intro hpos
    have hready : (0 : BitVec 32).slt s.shared = true := BitVec.slt_iff_toInt_lt.mpr hpos
    rw [show (0 : BitVec 32).slt s.shared = false from hnothing] at hready
    cases hready
  · cases c with
    | wait timeoutUs' => cases hnotifies
    | signal count => exact Or.inr ⟨u, count, hu⟩

/-- **No wait sleeps on a count**, whatever the counts are and however the threads interleave. -/
theorem semaphore_awake (attr : SemaphoreAttr) (moves : List (Move ι SemaphoreCall)) :
    AllStates (advance semaphoreSignals (semaphore attr)) SemaphoreAwake
      (createSemaphoreThreads ι attr) moves := by
  have hawake : AllStates (advance semaphoreSignals (semaphore attr))
      (Awake semaphoreSignals (semaphore attr)) (createSemaphoreThreads ι attr) moves :=
    awake_run (announces_semaphore attr) attr.initialValue moves
  exact fun moves' hpre => SemaphoreAwake.of_awake (hawake moves' hpre)

/-! ## Events -/

def eventSignals : Signals Unit EventCall where
  waitsOn _ := ()
  notifies
    | .set => some ()
    | .clear | .wait _ => none
  all := true
  inside := false

/-- An event as `CreateEvent` makes it, with its threads. -/
def createEventThreads (ι : Type*) (attr : EventAttr) : Scheduled ι Bool EventCall Unit :=
  { shared := attr.initialSet }

/-- A wait is blocked only while the event is not set, or a set has not notified yet. -/
def EventAwake (s : Scheduled ι Bool EventCall Unit) : Prop :=
  ∀ t timeoutUs, s.place t = .waiting (.wait timeoutUs) →
    s.shared = false ∨ ∃ u, s.place u = .notifying .set

theorem announces_event (attr : EventAttr) : Announces eventSignals (eventObject attr) := by
  refine ⟨rfl, fun c c' set hwaits hruns hready => ?_⟩
  cases c with
  | set | clear => cases hwaits
  | wait timeoutUs =>
      have hset : set = false := hwaits
      cases c' with
      | set => rfl
      | clear => cases hready
      | wait timeoutUs' =>
          rw [hset] at hruns
          cases hruns

/-- **No wait sleeps on a set event**, be it reset by the waits or not. -/
theorem event_awake (attr : EventAttr) (moves : List (Move ι EventCall)) :
    AllStates (advance eventSignals (eventObject attr)) EventAwake (createEventThreads ι attr)
      moves := by
  have hawake : AllStates (advance eventSignals (eventObject attr))
      (Awake eventSignals (eventObject attr)) (createEventThreads ι attr) moves :=
    awake_run (announces_event attr) attr.initialSet moves
  intro moves' hpre t timeoutUs ht
  refine (hawake moves' hpre t _ ht).imp_right ?_
  rintro ⟨u, c, hu, hnotifies⟩
  cases c with
  | clear | wait timeoutUs' => cases hnotifies
  | set => exact ⟨u, hu⟩

/-! ## IPC ports -/

/-- The arguments of `IpcSend` and `IpcRecv`. -/
inductive IpcCall where
  | ipcSend (data : List Byte)
  | ipcRecv (bufSize : U64) (timeoutUs : U64)

inductive IpcResult where
  | sent
  | received (buf : List Byte)

/-- `IpcSend` and `IpcRecv` on the queue of one port, whichever handles they came by. -/
def ipcPort : Monitor (List (List Byte)) IpcCall IpcResult where
  ready
    | .ipcSend _, _ => true
    | .ipcRecv _ _, queue => !queue.isEmpty
  timed
    | .ipcSend _ => false
    | .ipcRecv _ timeoutUs => timeoutUs != uint64Max
  run
    | .ipcSend data, queue => (queue ++ [data], .sent)
    | .ipcRecv bufSize _, queue =>
      -- The predicate has seen that there is a front.
      match queue with
      | [] => ([], .received [])
      | msg :: rest => (rest, .received (msg.take bufSize.toNat))

def ipcSignals : Signals Unit IpcCall where
  waitsOn _ := ()
  notifies
    | .ipcSend _ => some ()
    | .ipcRecv _ _ => none
  all := false
  inside := false

/-- A port as `CreateIpcPort` makes it, with its threads. -/
def createIpcThreads (ι : Type*) : Scheduled ι (List (List Byte)) IpcCall IpcResult :=
  { shared := [] }

/-- While a receive is blocked, there are as many threads on their way as messages. -/
def IpcAttended (s : Scheduled ι (List (List Byte)) IpcCall IpcResult) : Prop :=
  ∀ t bufSize timeoutUs, s.place t = .waiting (.ipcRecv bufSize timeoutUs) →
    s.shared.length ≤ (wayTo ipcSignals () s.place).card

theorem rations_ipcPort : Rations ipcSignals ipcPort fun _ queue => queue.length := by
  constructor
  · intro c queue hready
    cases c with
    | ipcSend data => cases hready
    | ipcRecv bufSize timeoutUs =>
        have hempty : queue = [] := by simpa [ipcPort] using hready
        rw [hempty]
        rfl
  · intro c queue g hready
    cases c with
    | ipcSend data => exact le_of_eq List.length_append
    | ipcRecv bufSize timeoutUs =>
        cases queue with
        | nil => cases hready
        | cons msg rest => exact Nat.le_succ rest.length
  · rintro c queue hready ⟨queue', hblocks⟩
    cases c with
    | ipcSend data => cases hblocks
    | ipcRecv bufSize timeoutUs =>
        cases queue with
        | nil => cases hready
        | cons msg rest => exact le_refl (rest.length + 1)

/-- **No receive sleeps on a message**, whoever else is woken first or comes by in time. -/
theorem ipc_attended (moves : List (Move ι IpcCall)) :
    AllStates (advance ipcSignals ipcPort) IpcAttended (createIpcThreads ι) moves := by
  have hbalanced : AllStates (advance ipcSignals ipcPort)
      (Balanced ipcSignals fun _ queue => queue.length) (createIpcThreads ι) moves :=
    tokens_balanced_run rations_ipcPort [] moves
  intro moves' hpre t bufSize timeoutUs ht
  exact hbalanced moves' hpre () ⟨t, by rw [ht]; rfl⟩

end KernelRuntime
