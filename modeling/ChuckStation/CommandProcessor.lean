/-
# Command processor

`CommandProcessor.cpp` from `Init` on: `Process` goes over a command list with a cursor, and
hands the GPU layer what it reads.  A read that does not fit yields zero and leaves the cursor
where it is; the fields of some packets are skipped without a look at the end of the list.
-/
import ChuckStation.BinaryFormats
import ChuckStation.CommandLists

namespace CommandProcessor

open BinaryFormats LittleEndian

/-! ## State -/

/-- `struct ProcessorStats`, without the time spent. -/
structure ProcessorStats where
  commandListsProcessed : U64 := 0
  commandsProcessed : U64 := 0
  drawCalls : U64 := 0
  computeDispatches : U64 := 0
  barriers : U64 := 0
  renderPassBegins : U64 := 0
  unknownCommands : U64 := 0
  deriving DecidableEq, Repr

/-- `struct CpState`; of the backend, whether there is one. -/
structure CpState where
  backend : Bool := false
  stats : ProcessorStats := {}
  initialised : Bool := false
  deriving DecidableEq, Repr

/-- `Init`. -/
def init (backend : Bool) (_ : CpState) : CpState := { backend := backend, initialised := true }

/-- `Shutdown`. -/
def shutdown (st : CpState) : CpState := { st with backend := false, initialised := false }

/-- `ResetStats`. -/
def resetStats (st : CpState) : CpState := { st with stats := {} }

/-- The functions of the GPU layer that `Process` calls. -/
inductive GpuCall where
  | clearRenderTarget (slot r g b a : U32)
  | clearDepthTarget (depth : U32) (stencil : Byte)
  | insertBarrier (b : Barrier)
  | waitFence (h : U32) (timeoutUs : U64)
  | signalFence (h : U32)
  | setRenderTarget (slot : U32) (rt : RenderTarget)
  | setDepthTarget (dt : DepthTarget)
  deriving DecidableEq, Repr

/-- The loop: the count, the statistics, the calls made so far, and where the packets that it
has executed begin. -/
structure Run where
  count : U32 := 0
  stats : ProcessorStats
  calls : List GpuCall := []
  executed : List (ℕ × CommandOpcode) := []
  deriving DecidableEq, Repr

/-- Why there is no result: a read outside the buffer, or a loop that goes on. -/
inductive Fault where
  | outOfBounds
  | unfinished
  deriving DecidableEq, Repr

namespace Run

def call (g : GpuCall) (run : Run) : Run := { run with calls := run.calls ++ [g] }

def countDraw (run : Run) : Run :=
  { run with stats := { run.stats with drawCalls := run.stats.drawCalls + 1 } }

def countDispatch (run : Run) : Run :=
  { run with stats := { run.stats with computeDispatches := run.stats.computeDispatches + 1 } }

def countBarrier (run : Run) : Run :=
  { run with stats := { run.stats with barriers := run.stats.barriers + 1 } }

def countRenderPass (run : Run) : Run :=
  { run with stats := { run.stats with renderPassBegins := run.stats.renderPassBegins + 1 } }

def countUnknown (run : Run) : Run :=
  { run with stats := { run.stats with unknownCommands := run.stats.unknownCommands + 1 } }

/-- The end of the loop body. -/
def next (offset : ℕ) (op : CommandOpcode) (run : Run) : Run :=
  { run with count := run.count + 1, executed := run.executed ++ [(offset, op)] }

end Run

/-! ## Reading packets -/

/-- The `n` bytes at the cursor. -/
def deref (n : ℕ) : Reader Fault (List Byte) := fun c =>
  if c.offset + n ≤ c.data.length then .ok ((c.data.drop c.offset).take n, c)
  else .error .outOfBounds

/-- `ptr += n`. -/
def skip (n : ℕ) : Reader Fault Unit := fun c => .ok ((), { c with offset := c.offset + n })

/-- `ReadVal` of a word. -/
def readVal (w : ℕ) : Reader Fault (BitVec w) := fun c =>
  if c.offset + w / 8 ≤ c.data.length then
    (do
      let bs ← deref (w / 8)
      skip (w / 8)
      pure (ofBytes w bs) : Reader Fault (BitVec w)) c
  else .ok (0, c)

/-- `std::min<size_t>(len, end - ptr)`. -/
def available (len : U32) (c : Cursor) : ℕ := min len.toNat (c.data.length - c.offset)

/-! ## Packets -/

def processClearColor (backend : Bool) (run : Run) : Reader Fault Run := do
  let slot ← readVal 32
  let r ← readVal 32
  let g ← readVal 32
  let b ← readVal 32
  let a ← readVal 32
  pure (if backend then run.call (.clearRenderTarget slot r g b a) else run)

def processClearDepth (backend : Bool) (run : Run) : Reader Fault Run := do
  let depth ← readVal 32
  let stencil ← readVal 32
  pure (if backend then run.call (.clearDepthTarget depth (stencil.setWidth 8)) else run)

def processDrawDirect (run : Run) : Reader Fault Run := do
  let _ ← readVal 32
  let _ ← readVal 32
  let _ ← readVal 32
  let _ ← readVal 32
  pure run.countDraw

def processDrawIndexed (run : Run) : Reader Fault Run := do
  let _ ← readVal 32
  let _ ← readVal 32
  let _ ← readVal 32
  let _ ← readVal 32
  let _ ← readVal 32
  pure run.countDraw

def processDispatch (run : Run) : Reader Fault Run := do
  let _ ← readVal 32
  let _ ← readVal 32
  let _ ← readVal 32
  pure run.countDispatch

def processBarrier (run : Run) : Reader Fault Run := do
  let gpuAddr ← readVal 64
  let before ← readVal 32
  let after ← readVal 32
  let b : Barrier :=
    { gpuAddr := gpuAddr, before := before.setWidth 8, after := after.setWidth 8 }
  pure (run.call (.insertBarrier b)).countBarrier

def processWaitFence (run : Run) : Reader Fault Run := do
  let h ← readVal 32
  pure (run.call (.waitFence h 1000000))

def processSignalFence (run : Run) : Reader Fault Run := do
  let h ← readVal 32
  pure (run.call (.signalFence h))

/-- The label is copied, and goes to the log. -/
def processBeginRenderPass (run : Run) : Reader Fault Run := do
  let len ← readVal 32
  let n ← fun c => .ok (available len c, c)
  let _ ← deref n
  skip n
  pure run.countRenderPass

def processPushDebugLabel (run : Run) : Reader Fault Run := do
  let len ← readVal 32
  let n ← fun c => .ok (available len c, c)
  skip n
  pure run

def processSetRenderTarget (run : Run) : Reader Fault Run := do
  let slot ← readVal 32
  let gpuAddr ← readVal 64
  let width ← readVal 32
  let height ← readVal 32
  let pitch ← readVal 32
  let format ← readVal 32
  let rt : RenderTarget :=
    { gpuAddr := gpuAddr, width := width, height := height, pitch := pitch, format := format }
  pure (run.call (.setRenderTarget slot rt))

def processSetDepthTarget (run : Run) : Reader Fault Run := do
  let gpuAddr ← readVal 64
  let width ← readVal 32
  let height ← readVal 32
  let format ← readVal 32
  let dt : DepthTarget :=
    { gpuAddr := gpuAddr, width := width, height := height, format := format }
  pure (run.call (.setDepthTarget dt))

/-- The cases of the switch, but for `End` and the default. -/
def processPacket (backend : Bool) (run : Run) : CommandOpcode → Reader Fault Run
  | .Nop => pure run
  | .ClearColor => processClearColor backend run
  | .ClearDepth => processClearDepth backend run
  | .DrawDirect => processDrawDirect run
  | .DrawIndexed => processDrawIndexed run
  | .Dispatch => processDispatch run
  | .BarrierTransition => processBarrier run
  | .WaitFence => processWaitFence run
  | .SignalFence => processSignalFence run
  | .BeginRenderPass => processBeginRenderPass run
  | .EndRenderPass => pure run
  | .PushDebugLabel => processPushDebugLabel run
  | .PopDebugLabel => pure run
  | .SetViewport => do skip (6 * 4); pure run
  | .SetScissor => do skip (4 * 4); pure run
  | .SetRenderTarget => processSetRenderTarget run
  | .SetDepthTarget => processSetDepthTarget run
  | .End => pure run

/-! ## The loop -/

/-- The loop of `Process`, with fuel. -/
def processLoop (backend : Bool) : ℕ → Run → Cursor → Except Fault (Run × Cursor)
  | 0, _, _ => .error .unfinished
  | fuel + 1, run, c =>
    if c.offset + 4 ≤ c.data.length then do
      let (raw, c₁) ← readVal 32 c
      match CommandOpcode.ofRaw raw with
      | none => pure (run.countUnknown, c₁)
      | some .End => pure (run, c₁)
      | some op => do
        let (run, c₂) ← processPacket backend run op c₁
        processLoop backend fuel (run.next c.offset op) c₂
    else pure (run, c)

/-- What comes of a call: the result, the state, the calls to the GPU layer, the packets that
were executed, and where the cursor stopped. -/
structure Outcome where
  count : U32 := 0
  state : CpState
  calls : List GpuCall := []
  executed : List (ℕ × CommandOpcode) := []
  cursor : ℕ := 0
  deriving DecidableEq, Repr

/-- The statistics at `done`. -/
def finishStats (count : U32) (stats : ProcessorStats) : ProcessorStats :=
  { stats with
    commandListsProcessed := stats.commandListsProcessed + 1
    commandsProcessed := stats.commandsProcessed + count.signExtend 64 }

/-- What is there at the end of the function. -/
def Run.outcome (st : CpState) (c : Cursor) (run : Run) : Outcome where
  count := run.count
  state := { st with stats := finishStats run.count run.stats }
  calls := run.calls
  executed := run.executed
  cursor := c.offset

/-- `Process`.  A turn of the loop takes four bytes or more. -/
def process (st : CpState) (data : List Byte) : Except Fault Outcome :=
  if data = [] then .ok { state := st }
  else do
    let (run, c) ← processLoop st.backend (data.length / 4 + 1) { stats := st.stats } ⟨data, 0⟩
    pure (run.outcome st c)

end CommandProcessor
