/-
# Message queues of the kernel services

One message queue, with any number of threads that send and receive.  The messages are kept by
falling priority, and a new one goes where a binary search puts it, so the search is right only
as long as the queue is in order.

* `Intact`: what the callers may rely on.  No message is lost, doubled or altered, and a receive
  takes one of the highest priority.
* `Fifo`: among messages of one priority the first sent is the first received.  The search puts
  a new message in front of those of its own priority, so this holds only as long as no two
  messages of one priority are queued together.
-/
import ChuckStation.Bytes
import ChuckStation.BinarySearch
import ChuckStation.Monitor

namespace KernelServices

open BinarySearch Monitor OperationRuns

structure MqAttr where
  maxMessages : U32 := 32
  maxMsgSize : U32 := 256

structure MsgEntry where
  data : List Byte
  priority : U32
deriving DecidableEq

/-- The arguments of `SendMsg` and `RecvMsg`. -/
inductive MqCall where
  | sendMsg (data : List Byte) (priority : U32) (timeoutUs : U64)
  | recvMsg (bufSize : U64) (timeoutUs : U64)

/-- What a call that returns true leaves its caller. -/
inductive MqResult where
  | sent
  | received (buf : List Byte) (priority : U32)
deriving DecidableEq

/-- The comparison of the binary search: the queued message goes before the new one. -/
def comesBefore (msg : MsgEntry) (a : MsgEntry) : Bool := msg.priority < a.priority

/-- The message that `SendMsg` makes. -/
def makeMsg (attr : MqAttr) (data : List Byte) (priority : U32) : MsgEntry :=
  ⟨data.take attr.maxMsgSize.toNat, priority⟩

/-- `SendMsg` and `RecvMsg` on one queue. -/
def messageQueue (attr : MqAttr) : Monitor (List MsgEntry) MqCall MqResult where
  ready
    | .sendMsg _ _ _, msgs => msgs.length < attr.maxMessages.toNat
    | .recvMsg _ _, msgs => !msgs.isEmpty
  timed
    | .sendMsg _ _ timeoutUs | .recvMsg _ timeoutUs => timeoutUs != uint64Max
  run
    | .sendMsg data priority _, msgs =>
      let msg := makeMsg attr data priority
      (insertAt (comesBefore msg) msg msgs, .sent)
    | .recvMsg bufSize _, msgs =>
      -- The predicate has seen that there is a front.
      match msgs with
      | [] => ([], .received [] 0)
      | msg :: rest => (rest, .received (msg.data.take bufSize.toNat) msg.priority)

/-- The queue with its callers and all calls that have returned. -/
abbrev MqRun (ι : Type*) := Config ι (List MsgEntry) MqCall MqResult

/-- A queue as `CreateMq` makes it. -/
def createMq (ι : Type*) : MqRun ι := { shared := [] }

/-! ## Integrity -/

section Intact

variable {ι : Type*} {attr : MqAttr}

/-- The message that a call has put in. -/
def accepted (attr : MqAttr) (d : Done ι (List MsgEntry) MqCall MqResult) : Option MsgEntry :=
  match d.call, d.result with
  | .sendMsg data priority _, some _ => some (makeMsg attr data priority)
  | _, _ => none

/-- The message that a call has taken out. -/
def delivered (d : Done ι (List MsgEntry) MqCall MqResult) : Option MsgEntry :=
  match d.call, d.result with
  | .recvMsg _ _, some _ => d.before.head?
  | _, _ => none

/-- A receive that succeeded took a message of the highest priority, and handed over its bytes,
cut to the buffer, and its priority. -/
def DeliversHighest (d : Done ι (List MsgEntry) MqCall MqResult) : Prop :=
  ∀ bufSize timeoutUs r, d.call = .recvMsg bufSize timeoutUs → d.result = some r →
    ∃ msg ∈ d.before, delivered d = some msg ∧ (∀ a ∈ d.before, a.priority ≤ msg.priority) ∧
      r = .received (msg.data.take bufSize.toNat) msg.priority

/-- What the callers of a queue may rely on. -/
structure Intact (attr : MqAttr) (s : MqRun ι) : Prop where
  capacity : s.shared.length ≤ attr.maxMessages.toNat
  highest : ∀ d ∈ s.done, DeliversHighest d
  conserved : (s.done.filterMap (accepted attr)).Perm (s.done.filterMap delivered ++ s.shared)

/-- The queue is in order. -/
def Ordered (msgs : List MsgEntry) : Prop := msgs.Pairwise fun a b => b.priority ≤ a.priority

theorem comesBefore_iff {msg a : MsgEntry} :
    comesBefore msg a = true ↔ msg.priority.toNat < a.priority.toNat := decide_eq_true_iff

theorem comesBefore_eq_false {msg a : MsgEntry} :
    comesBefore msg a = false ↔ a.priority.toNat ≤ msg.priority.toNat := by
  rw [← Bool.not_eq_true, comesBefore_iff, not_lt]

theorem Ordered.partitioned {msgs : List MsgEntry} (h : Ordered msgs) (msg : MsgEntry) :
    Partitioned (comesBefore msg) msgs := by
  apply h.imp
  intro a b hba hb
  have hle : b.priority.toNat ≤ a.priority.toNat := hba
  rw [comesBefore_iff] at hb ⊢
  omega

/-- The search finds the right place in a queue that is in order. -/
theorem Ordered.insertAt {msgs : List MsgEntry} (h : Ordered msgs) (msg : MsgEntry) :
    Ordered (insertAt (comesBefore msg) msg msgs) := by
  apply pairwise_insertAt (h.partitioned msg) h
  · intro a ha
    exact (comesBefore_iff.mp ha).le
  · intro a ha
    exact comesBefore_eq_false.mp ha

/-- What carries the integrity of the queue through a run. -/
structure Carried (attr : MqAttr) (msgs : List MsgEntry)
    (done : List (Done ι (List MsgEntry) MqCall MqResult)) : Prop where
  ordered : Ordered msgs
  capacity : msgs.length ≤ attr.maxMessages.toNat
  highest : ∀ d ∈ done, DeliversHighest d
  conserved : (done.filterMap (accepted attr)).Perm (done.filterMap delivered ++ msgs)

variable {msgs : List MsgEntry} {done : List (Done ι (List MsgEntry) MqCall MqResult)} {t : ι}

/-- A call that is given up takes nothing and leaves nothing. -/
theorem Carried.giveUp (h : Carried attr msgs done) (c : MqCall) :
    Carried attr msgs (⟨t, c, msgs, none⟩ :: done) where
  ordered := h.ordered
  capacity := h.capacity
  highest := by
    intro d hd
    rcases List.mem_cons.mp hd with rfl | hd
    · intro bufSize timeoutUs r _ hr
      cases hr
    · exact h.highest d hd
  conserved := by
    have haccepted : accepted attr ⟨t, c, msgs, none⟩ = none := by cases c <;> rfl
    have hdelivered : delivered ⟨t, c, msgs, none⟩ = none := by cases c <;> rfl
    rw [List.filterMap_cons_none haccepted, List.filterMap_cons_none hdelivered]
    exact h.conserved

theorem Carried.sendMsg (h : Carried attr msgs done) {data : List Byte} {priority : U32}
    {timeoutUs : U64} (hready : msgs.length < attr.maxMessages.toNat) :
    Carried attr (insertAt (comesBefore (makeMsg attr data priority))
        (makeMsg attr data priority) msgs)
      (⟨t, .sendMsg data priority timeoutUs, msgs, some .sent⟩ :: done) where
  ordered := h.ordered.insertAt _
  capacity := by
    rw [(insertAt_perm _ _ msgs).length_eq, List.length_cons]
    omega
  highest := by
    intro d hd
    rcases List.mem_cons.mp hd with rfl | hd
    · intro bufSize timeoutUs r hcall
      cases hcall
    · exact h.highest d hd
  conserved := by
    show (makeMsg attr data priority :: done.filterMap (accepted attr)).Perm
      (done.filterMap delivered ++ _)
    refine ((h.conserved.cons _).trans List.perm_middle.symm).trans ?_
    exact (insertAt_perm _ _ msgs).symm.append_left _

theorem Carried.recvMsg {msg : MsgEntry} (h : Carried attr (msg :: msgs) done) {bufSize : U64}
    {timeoutUs : U64} :
    Carried attr msgs (⟨t, .recvMsg bufSize timeoutUs, msg :: msgs,
      some (.received (msg.data.take bufSize.toNat) msg.priority)⟩ :: done) where
  ordered := (List.pairwise_cons.mp h.ordered).2
  capacity := by
    have hle := h.capacity
    rw [List.length_cons] at hle
    omega
  highest := by
    intro d hd
    rcases List.mem_cons.mp hd with rfl | hd
    · intro bufSize' timeoutUs' r hcall hr
      cases hcall
      cases hr
      refine ⟨msg, List.mem_cons_self, rfl, fun a ha => ?_, rfl⟩
      -- The front of a queue in order is as high as anything behind it.
      rcases List.mem_cons.mp ha with rfl | ha
      · exact le_refl a.priority.toNat
      · exact (List.pairwise_cons.mp h.ordered).1 a ha
    · exact h.highest d hd
  conserved := by
    show (done.filterMap (accepted attr)).Perm (msg :: (done.filterMap delivered ++ msgs))
    exact h.conserved.trans List.perm_middle

theorem Carried.run (h : Carried attr msgs done) {c : MqCall}
    (hready : (messageQueue attr).ready c msgs = true) :
    Carried attr ((messageQueue attr).run c msgs).1
      (⟨t, c, msgs, some ((messageQueue attr).run c msgs).2⟩ :: done) := by
  cases c with
  | sendMsg data priority timeoutUs => exact h.sendMsg (of_decide_eq_true hready)
  | recvMsg bufSize timeoutUs =>
      cases msgs with
      | nil => cases hready
      | cons msg msgs => exact h.recvMsg

variable [DecidableEq ι]

/-- **Message queue integrity.**  However the sends and receives of any number of threads
interleave, the queue never holds more than it may, a receive delivers a message of the highest
priority, and what was put in is what was taken out and what is still there. -/
theorem intact_run (attr : MqAttr) (events : List (Event ι MqCall)) :
    AllStates (messageQueue attr).step (Intact attr) (createMq ι) events := by
  refine allStates_of_invariant (I := Carried attr)
    (fun s h => ⟨h.capacity, h.highest, h.conserved⟩)
    (fun _ _ _ _ h hready => h.run hready) (fun _ _ _ c h _ => h.giveUp c) ?_
  exact {
    ordered := List.Pairwise.nil
    capacity := Nat.zero_le _
    highest := fun d hd => absurd hd List.not_mem_nil
    conserved := List.Perm.refl _ }

end Intact

/-! ## First in, first out -/

/-- The queue with a record of what went through it.  A message is known by how many were sent
before it. -/
structure Numbered where
  sent : List MsgEntry := []
  msgs : List (ℕ × MsgEntry) := []
  received : List ℕ := []

/-- The messages as they stand in the queue. -/
def Numbered.queue (q : Numbered) : List MsgEntry := q.msgs.map Prod.snd

/-- The queue that keeps the record. -/
def numberedQueue (attr : MqAttr) : Monitor Numbered MqCall MqResult where
  ready c q := (messageQueue attr).ready c q.queue
  timed := (messageQueue attr).timed
  run c q := match c with
    | .sendMsg data priority _ =>
      let msg := makeMsg attr data priority
      ({ sent := q.sent ++ [msg]
         msgs := insertAt (fun a => comesBefore msg a.2) (q.sent.length, msg) q.msgs
         received := q.received }, .sent)
    | .recvMsg bufSize _ => match q.msgs with
      | [] => (q, .received [] 0)
      | (i, msg) :: rest =>
        ({ q with msgs := rest, received := q.received ++ [i] },
          .received (msg.data.take bufSize.toNat) msg.priority)

/-- Of two messages of one priority the first sent is the first received. -/
def Fifo (q : Numbered) : Prop :=
  ∀ (i j : ℕ) (msg msg' : MsgEntry), i < j → q.sent[i]? = some msg → q.sent[j]? = some msg' →
    msg.priority = msg'.priority →
    ∀ k : ℕ, q.received[k]? = some j → ∃ k' < k, q.received[k']? = some i

/-- A message is sent only when none of its priority is queued. -/
def AlonePriority (msgs : List MsgEntry) : MqCall → Prop
  | .sendMsg _ priority _ => ∀ a ∈ msgs, a.priority ≠ priority
  | .recvMsg _ _ => True

section Order

variable {ι : Type*} {attr : MqAttr} {q : Numbered}

/-- The record does not change what the queue does. -/
theorem numberedQueue_extends (attr : MqAttr) :
    Extends (numberedQueue attr) (messageQueue attr) Numbered.queue where
  ready _ _ := rfl
  timed := rfl
  state c q := by
    cases c with
    | sendMsg data priority timeoutUs => exact map_insertAt (f := Prod.snd) _ _ _
    | recvMsg bufSize timeoutUs =>
        obtain ⟨sent, msgs, received⟩ := q
        cases msgs with
        | nil => rfl
        | cons m rest => rfl
  result c q := by
    cases c with
    | sendMsg data priority timeoutUs => rfl
    | recvMsg bufSize timeoutUs =>
        obtain ⟨sent, msgs, received⟩ := q
        cases msgs with
        | nil => rfl
        | cons m rest => rfl

/-- What carries the order through a run. -/
structure Alone (q : Numbered) : Prop where
  known : ∀ m ∈ q.msgs, q.sent[m.1]? = some m.2
  present : ∀ i < q.sent.length, i ∈ q.received ∨ i ∈ q.msgs.map Prod.fst
  past : ∀ i ∈ q.received, i < q.sent.length
  alone : q.msgs.Pairwise fun a b => a.2.priority ≠ b.2.priority
  fifo : Fifo q

theorem Alone.sendMsg (h : Alone q) {data : List Byte} {priority : U32} {timeoutUs : U64}
    (hguard : AlonePriority q.queue (.sendMsg data priority timeoutUs)) :
    Alone ((numberedQueue attr).run (.sendMsg data priority timeoutUs) q).1 := by
  have hperm : (insertAt (fun a : ℕ × MsgEntry => comesBefore (makeMsg attr data priority) a.2)
      (q.sent.length, makeMsg attr data priority) q.msgs).Perm
        ((q.sent.length, makeMsg attr data priority) :: q.msgs) := insertAt_perm _ _ _
  have hnew : (q.sent ++ [makeMsg attr data priority])[q.sent.length]? =
      some (makeMsg attr data priority) := by simp
  have hold : ∀ i < q.sent.length, (q.sent ++ [makeMsg attr data priority])[i]? = q.sent[i]? :=
    fun i hi => List.getElem?_append_left hi
  constructor
  · intro m hm
    rcases List.mem_cons.mp (hperm.mem_iff.mp hm) with rfl | hm
    · exact hnew
    · have hknown := h.known m hm
      exact (hold m.1 (List.getElem?_eq_some_iff.mp hknown).1).trans hknown
  · intro i hi
    have hlength : i < (q.sent ++ [makeMsg attr data priority]).length := hi
    rw [List.length_append, List.length_singleton] at hlength
    have hmem := (hperm.map Prod.fst).mem_iff (a := i)
    by_cases hlast : i = q.sent.length
    · exact .inr (hmem.mpr (hlast ▸ List.mem_cons_self))
    · rcases h.present i (by omega) with hreceived | hqueued
      · exact .inl hreceived
      · exact .inr (hmem.mpr (List.mem_cons_of_mem _ hqueued))
  · intro i hi
    have hlt := h.past i hi
    show i < (q.sent ++ [makeMsg attr data priority]).length
    rw [List.length_append]
    omega
  · -- The guard: none of its priority is queued.
    refine (hperm.pairwise_iff fun hab => Ne.symm hab).mpr (List.pairwise_cons.mpr ⟨?_, h.alone⟩)
    intro a ha heq
    exact hguard a.2 (List.mem_map_of_mem ha) heq.symm
  · intro i j msg msg' hij hi hj heq k hk
    -- Nothing received is as young as the new message.
    have hjlt := h.past j (List.mem_of_getElem? hk)
    exact h.fifo i j msg msg' hij ((hold i (hij.trans hjlt)).symm.trans hi)
      ((hold j hjlt).symm.trans hj) heq k hk

theorem Alone.recvMsg (h : Alone q) {bufSize timeoutUs : U64} :
    Alone ((numberedQueue attr).run (.recvMsg bufSize timeoutUs) q).1 := by
  obtain ⟨sent, msgs, received⟩ := q
  cases msgs with
  | nil => exact h
  | cons m rest =>
      obtain ⟨j₀, msg₀⟩ := m
      have hfront : sent[j₀]? = some msg₀ := h.known (j₀, msg₀) List.mem_cons_self
      obtain ⟨hother, halone⟩ := List.pairwise_cons.mp h.alone
      constructor
      · exact fun m hm => h.known m (List.mem_cons_of_mem _ hm)
      · intro i hi
        rcases h.present i hi with hreceived | hqueued
        · exact .inl (List.mem_append_left _ hreceived)
        · rcases List.mem_cons.mp hqueued with rfl | hqueued
          · exact .inl (List.mem_append_right _ List.mem_cons_self)
          · exact .inr hqueued
      · intro i hi
        rcases List.mem_append.mp hi with hi | hi
        · exact h.past i hi
        · rw [List.mem_singleton.mp hi]
          exact (List.getElem?_eq_some_iff.mp hfront).1
      · exact halone
      · intro i j msg msg' hij hi hj heq k hk
        have hk : (received ++ [j₀])[k]? = some j := hk
        by_cases hlt : k < received.length
        · rw [List.getElem?_append_left hlt] at hk
          obtain ⟨k', hk', hfirst⟩ := h.fifo i j msg msg' hij hi hj heq k hk
          exact ⟨k', hk', (List.getElem?_append_left (hk'.trans hlt)).trans hfirst⟩
        · -- The message received now: the older one cannot be queued behind it.
          rw [List.getElem?_append_right (by omega), List.getElem?_singleton] at hk
          have hj₀ : j₀ = j := by
            split_ifs at hk
            exact Option.some.inj hk
          subst hj₀
          have hmsg' : msg' = msg₀ := Option.some.inj (hj.symm.trans hfront)
          rcases h.present i (List.getElem?_eq_some_iff.mp hi).1 with hreceived | hqueued
          · obtain ⟨k', hk'⟩ := List.getElem?_of_mem hreceived
            have hk'lt : k' < received.length := (List.getElem?_eq_some_iff.mp hk').1
            exact ⟨k', by omega, (List.getElem?_append_left hk'lt).trans hk'⟩
          · rcases List.mem_cons.mp hqueued with rfl | hqueued
            · exact absurd hij (lt_irrefl _)
            · obtain ⟨m, hm, rfl⟩ := List.mem_map.mp hqueued
              have hmsg : msg = m.2 :=
                Option.some.inj (hi.symm.trans (h.known m (List.mem_cons_of_mem _ hm)))
              rw [hmsg, hmsg'] at heq
              exact absurd heq.symm (hother m hm)

variable [DecidableEq ι]

/-- **First in, first out within a priority**, in every run that sends a message only when none
of its priority is queued. -/
theorem fifo_run (attr : MqAttr) (events : List (Event ι MqCall))
    (hall : AllSteps (messageQueue attr).step ((messageQueue attr).Admits AlonePriority)
      (createMq ι) events) :
    AllStates (numberedQueue attr).step (fun s => Fifo s.shared) { shared := {} } events := by
  have hall' := (numberedQueue_extends attr).allSteps (s := { shared := {} }) hall
  refine allStates_of_admits (I := fun q _ => Alone q) (fun s h => h.fifo) ?_ (fun _ _ _ _ h _ => h)
    ?_ hall'
  · intro q done t c h hready hguard
    cases c with
    | sendMsg data priority timeoutUs => exact h.sendMsg hguard
    | recvMsg bufSize timeoutUs => exact h.recvMsg
  · exact {
      known := fun m hm => absurd hm List.not_mem_nil
      present := fun i hi => absurd hi (Nat.not_lt_zero i)
      past := fun i hi => absurd hi List.not_mem_nil
      alone := List.Pairwise.nil
      fifo := by
        intro i j msg msg' _ hi
        cases hi }

theorem fifo_run_twoPriorities :
    AllStates (numberedQueue {}).step (fun s => Fifo s.shared) { shared := {} }
      [.call 0 (.sendMsg [1] 5 0), .call 1 (.sendMsg [2] 6 0), .call 0 (.recvMsg 8 0)] := by
  have hqueue : ((messageQueue {}).step (createMq ℕ) (.call 0 (.sendMsg [1] 5 0))).shared =
      [⟨[1], 5⟩] := by decide +kernel
  apply fifo_run
  refine ⟨admits_call fun _ => ?_, admits_call fun _ => ?_, admits_call fun _ => trivial, trivial⟩
  · exact fun a ha => absurd ha List.not_mem_nil
  · rw [hqueue]
    show ∀ a ∈ [MsgEntry.mk [1] 5], a.priority ≠ 6
    decide

/-- Two messages of one priority come out in the wrong order. -/
theorem not_fifo_twoMessages :
    ¬ ∀ (attr : MqAttr) (events : List (Event ℕ MqCall)),
      AllStates (numberedQueue attr).step (fun s => Fifo s.shared) { shared := {} } events := by
  intro h
  have hrun := h {} [.call 0 (.sendMsg [1] 5 0), .call 0 (.sendMsg [2] 5 0), .call 1 (.recvMsg 8 0)]
    _ (List.prefix_refl _)
  obtain ⟨k, hk, -⟩ := hrun 0 1 ⟨[1], 5⟩ ⟨[2], 5⟩ (by decide) (by decide +kernel)
    (by decide +kernel) rfl 0 (by decide +kernel)
  exact absurd hk (Nat.not_lt_zero k)

end Order

end KernelServices
