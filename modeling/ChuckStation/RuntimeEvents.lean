/-
# Runtime events

The event system (`RuntimeEvents.cpp`): a ring of the last events, the timeline, and handlers
that are told of every event.  What a handler is stays open here; the times that the clock
tells are given with every call.
-/
import Mathlib.Data.List.AList
import ChuckStation.Bytes

namespace RuntimeEvents

/-! ## Events -/

/-- `enum class EventType`. -/
inductive EventType where
  | ProcessCreated | ProcessStarted | ProcessExited | ProcessFaulted
  | ThreadSpawned | ThreadExited | ThreadFaulted
  | ModuleLoaded | ModuleUnloaded | SymbolResolved | SymbolMissing
  | PageFault | MemoryProtViolation | MemoryLeak
  | FrameBegin | FrameEnd | SwapchainResize | ShaderCompiled
  | SyscallEnter | SyscallReturn | SyscallUnknown
  | WatchdogWarning | WatchdogTimeout
  | ProfileMark | ProfileBegin | ProfileEnd
  | Custom
  deriving DecidableEq, Repr

/-- `EventTypeName`. -/
def eventTypeName : EventType → String
  | .ProcessCreated => "ProcessCreated"
  | .ProcessStarted => "ProcessStarted"
  | .ProcessExited => "ProcessExited"
  | .ProcessFaulted => "ProcessFaulted"
  | .ThreadSpawned => "ThreadSpawned"
  | .ThreadExited => "ThreadExited"
  | .ThreadFaulted => "ThreadFaulted"
  | .ModuleLoaded => "ModuleLoaded"
  | .ModuleUnloaded => "ModuleUnloaded"
  | .SymbolResolved => "SymbolResolved"
  | .SymbolMissing => "SymbolMissing"
  | .PageFault => "PageFault"
  | .MemoryProtViolation => "MemoryProtViolation"
  | .MemoryLeak => "MemoryLeak"
  | .FrameBegin => "FrameBegin"
  | .FrameEnd => "FrameEnd"
  | .SwapchainResize => "SwapchainResize"
  | .ShaderCompiled => "ShaderCompiled"
  | .SyscallEnter => "SyscallEnter"
  | .SyscallReturn => "SyscallReturn"
  | .SyscallUnknown => "SyscallUnknown"
  | .WatchdogWarning => "WatchdogWarning"
  | .WatchdogTimeout => "WatchdogTimeout"
  | .ProfileMark => "ProfileMark"
  | .ProfileBegin => "ProfileBegin"
  | .ProfileEnd => "ProfileEnd"
  | .Custom => "Custom"

/-- `EventPayload`; a `double` is its bits. -/
inductive EventPayload where
  | monostate
  | processExited (exitCode : U32) (reason : String)
  | processFaulted (faultAddr : U64) (description : String)
  | thread (threadId : U32) (name : String) (exitCode : U32)
  | module (moduleId : U32) (name : String) (base : U64)
  | symbol (name : String) (address : U64) (moduleId : U32)
  | pageFault (address : U64) (isWrite isExec : Bool)
  | syscall (sysno : U32) (name : String) (result : U64)
  | frame (frameIndex : U64) (gpuMs cpuMs : U64)
  | profile (label : String) (durationUs : U64)
  | custom (tag data : String)
  deriving DecidableEq, Repr

/-- `struct RuntimeEvent`. -/
structure RuntimeEvent where
  id : U64 := 0
  type : EventType := .Custom
  timestampUs : U64 := 0
  pid : U32 := 0
  tid : U32 := 0
  payload : EventPayload := .monostate
  deriving DecidableEq, Repr

/-- `struct TimelineEntry`; the duration is the bits of a `double`. -/
structure TimelineEntry where
  timestampUs : U64 := 0
  type : EventType := .Custom
  label : String := ""
  durationUs : U64 := 0
  deriving DecidableEq, Repr

/-! ## The state -/

/-- `struct HandlerEntry`. -/
structure HandlerEntry (κ : Type*) where
  id : U32
  fn : κ
  filter : Option EventType

/-- `struct EventState`, without the watchdog. -/
structure EventState (κ : Type*) where
  ring : List RuntimeEvent := []
  capacity : ℕ := 65536
  totalCount : U64 := 0
  nextId : U64 := 1
  handlers : List (HandlerEntry κ) := []
  nextHandlerId : U32 := 1
  timeline : List TimelineEntry := []
  profileBeginTimes : AList fun _ : String => U64 := ∅

variable {κ : Type*}

/-- The handler is told of events of this type. -/
def HandlerEntry.listens (h : HandlerEntry κ) (type : EventType) : Bool :=
  match h.filter with
  | none => true
  | some filter => filter == type

/-- What is handed to `Publish`, and the time. -/
structure Publication where
  type : EventType
  payload : EventPayload := .monostate
  pid : U32 := 0
  tid : U32 := 0
  now : U64 := 0

/-- The types that the `switch` in `Publish` puts on the timeline. -/
def onTimeline : EventType → Bool
  | .FrameBegin | .FrameEnd | .ModuleLoaded | .ProcessStarted | .ProcessExited | .ShaderCompiled
  | .WatchdogWarning | .WatchdogTimeout | .ProfileMark | .ProfileEnd => true
  | _ => false

namespace EventState

variable (es : EventState κ)

/-! ## Publishing -/

/-- `MakeEvent`: the event. -/
def makeEvent (p : Publication) : RuntimeEvent :=
  { id := es.nextId, type := p.type, timestampUs := p.now, pid := p.pid, tid := p.tid,
    payload := p.payload }

/-- `MakeEvent`: its id is drawn. -/
def drawId : EventState κ := { es with nextId := es.nextId + 1 }

/-- `Publish`: the event is counted. -/
def count : EventState κ := { es with totalCount := es.totalCount + 1 }

/-- What stays in the ring when there has to be room for one more event. -/
def retained : List RuntimeEvent :=
  if es.capacity ≤ es.ring.length then es.ring.tail else es.ring

/-- `Publish`: the block under `ringMtx`. -/
def insertEvent (ev : RuntimeEvent) : EventState κ := { es with ring := es.retained ++ [ev] }

/-- `AppendTimeline`. -/
def appendTimeline (ev : RuntimeEvent) (label : String) (durUs : U64) : EventState κ :=
  { es with timeline := es.timeline ++ [⟨ev.timestampUs, ev.type, label, durUs⟩] }

/-- The `switch` in `Publish`. -/
def recordTimeline (ev : RuntimeEvent) : EventState κ :=
  if onTimeline ev.type then es.appendTimeline ev (eventTypeName ev.type) 0 else es

/-- `Publish`, as far as the handlers. -/
def publishing (p : Publication) : EventState κ :=
  (es.drawId.count.insertEvent (es.makeEvent p)).recordTimeline (es.makeEvent p)

/-- The handlers that `DispatchToHandlers` calls, in order. -/
def listeners (ev : RuntimeEvent) : List (HandlerEntry κ) :=
  es.handlers.filter fun h => h.listens ev.type

theorem handlers_publishing (p : Publication) : (es.publishing p).handlers = es.handlers := by
  rw [publishing, recordTimeline]
  split_ifs <;> rfl

/-! ## Subscription -/

/-- `Subscribe`. -/
def subscribe (fn : κ) (filter : Option EventType) : EventState κ × U32 :=
  ({ es with
      handlers := es.handlers ++ [⟨es.nextHandlerId, fn, filter⟩]
      nextHandlerId := es.nextHandlerId + 1 }, es.nextHandlerId)

/-- `Unsubscribe`. -/
def unsubscribe (handlerId : U32) : EventState κ :=
  { es with handlers := es.handlers.filter fun h => h.id != handlerId }

/-! ## Profiling -/

/-- `PublishProfileBegin`: the time is kept. -/
def beginProfile (label : String) (now : U64) : EventState κ :=
  { es with profileBeginTimes := es.profileBeginTimes.insert label now }

/-- `PublishProfileEnd`: the duration; a time that is used is taken out. -/
def endProfile (label : String) (durationUs now : U64) : EventState κ × U64 :=
  match es.profileBeginTimes.lookup label with
  | some began =>
    if durationUs = 0 then
      ({ es with profileBeginTimes := es.profileBeginTimes.erase label }, now - began)
    else (es, durationUs)
  | none => (es, durationUs)

/-! ## Queries -/

/-- `GetRecent`. -/
def getRecent (n : ℕ) : List RuntimeEvent :=
  es.ring.drop (if n < es.ring.length then es.ring.length - n else 0)

/-- The loop of `GetByType`, from the newest event on. -/
def collect (type : EventType) (maxCount : ℕ) :
    List RuntimeEvent → List RuntimeEvent → List RuntimeEvent
  | [], out => out
  | ev :: evs, out =>
    if out.length < maxCount then
      collect type maxCount evs (if ev.type = type then out ++ [ev] else out)
    else out

/-- `GetByType`. -/
def getByType (type : EventType) (maxCount : ℕ) : List RuntimeEvent :=
  (collect type maxCount es.ring.reverse []).reverse

end EventState

/-! ## Lifecycle -/

/-- `Init`. -/
def init (ringCapacity : ℕ) (es : EventState κ) : EventState κ :=
  { es with
    ring := []
    capacity := ringCapacity
    totalCount := 0
    nextId := 1
    handlers := []
    timeline := [] }

end RuntimeEvents
