/-
# GPU command lists

What `CommandProcessor.h` says a command list is, and the builder of `CommandProcessor.cpp`:
every call appends one packet, an opcode and what the opcode wants behind it.  Floats are kept
as their 32 bits, which is all that a command list does with them.
-/
import ChuckStation.Bytes

namespace CommandProcessor

open LittleEndian

/-! ## Opcodes -/

/-- `enum class CommandOpcode`. -/
inductive CommandOpcode where
  | Nop
  | SetRenderTarget
  | SetDepthTarget
  | ClearColor
  | ClearDepth
  | DrawIndexed
  | DrawDirect
  | Dispatch
  | SetViewport
  | SetScissor
  | BarrierTransition
  | WaitFence
  | SignalFence
  | BeginRenderPass
  | EndRenderPass
  | PushDebugLabel
  | PopDebugLabel
  | End
  deriving DecidableEq, Repr

namespace CommandOpcode

def value : CommandOpcode → U32
  | Nop => 0x0000
  | SetRenderTarget => 0x0001
  | SetDepthTarget => 0x0002
  | ClearColor => 0x0010
  | ClearDepth => 0x0011
  | DrawIndexed => 0x0100
  | DrawDirect => 0x0101
  | Dispatch => 0x0200
  | SetViewport => 0x0300
  | SetScissor => 0x0301
  | BarrierTransition => 0x0400
  | WaitFence => 0x0500
  | SignalFence => 0x0501
  | BeginRenderPass => 0x0600
  | EndRenderPass => 0x0601
  | PushDebugLabel => 0x0700
  | PopDebugLabel => 0x0701
  | End => 0xFFFF

def all : List CommandOpcode :=
  [Nop, SetRenderTarget, SetDepthTarget, ClearColor, ClearDepth, DrawIndexed, DrawDirect,
    Dispatch, SetViewport, SetScissor, BarrierTransition, WaitFence, SignalFence, BeginRenderPass,
    EndRenderPass, PushDebugLabel, PopDebugLabel, End]

/-- The enumerator with this value; for any other value `Process` takes the default case. -/
def ofRaw (raw : U32) : Option CommandOpcode := all.find? fun op => op.value == raw

@[simp] theorem ofRaw_value (op : CommandOpcode) : ofRaw op.value = some op := by
  cases op <;> decide

end CommandOpcode

/-! ## Arguments -/

/-- `struct GPU::RenderTarget`. -/
structure RenderTarget where
  dataPtr : U64 := 0
  gpuAddr : U64 := 0
  width : U32 := 0
  height : U32 := 0
  pitch : U32 := 0
  format : U32 := 0
  deriving DecidableEq, Repr

/-- `struct GPU::DepthTarget`. -/
structure DepthTarget where
  dataPtr : U64 := 0
  gpuAddr : U64 := 0
  width : U32 := 0
  height : U32 := 0
  format : U32 := 20
  deriving DecidableEq, Repr

/-- `struct GPU::Barrier`; a resource state is one byte. -/
structure Barrier where
  gpuAddr : U64 := 0
  before : Byte := 0
  after : Byte := 0
  deriving DecidableEq, Repr

/-- `struct Viewport`, six floats. -/
structure Viewport where
  x : U32
  y : U32
  width : U32
  height : U32
  minDepth : U32
  maxDepth : U32
  deriving DecidableEq, Repr

/-- `struct Scissor`. -/
structure Scissor where
  x : U32 := 0
  y : U32 := 0
  width : U32 := 1920
  height : U32 := 1080
  deriving DecidableEq, Repr

/-! ## The builder -/

/-- `class CommandList`: the bytes so far. -/
abbrev CommandList := List Byte

namespace CommandList

def writeU32 (v : U32) (buf : CommandList) : CommandList := buf ++ toBytes 4 v

def writeU64 (v : U64) (buf : CommandList) : CommandList := buf ++ toBytes 8 v

def writeBytes (data : List Byte) (buf : CommandList) : CommandList := buf ++ data

def writeOpcode (op : CommandOpcode) (buf : CommandList) : CommandList := writeU32 op.value buf

def nop (buf : CommandList) : CommandList := buf |> writeOpcode .Nop

def setRenderTarget (slot : U32) (rt : RenderTarget) (buf : CommandList) : CommandList :=
  buf |> writeOpcode .SetRenderTarget |> writeU32 slot |> writeU64 rt.gpuAddr |>
    writeU32 rt.width |> writeU32 rt.height |> writeU32 rt.pitch |> writeU32 rt.format

def setDepthTarget (dt : DepthTarget) (buf : CommandList) : CommandList :=
  buf |> writeOpcode .SetDepthTarget |> writeU64 dt.gpuAddr |> writeU32 dt.width |>
    writeU32 dt.height |> writeU32 dt.format

def clearColor (slot r g b a : U32) (buf : CommandList) : CommandList :=
  buf |> writeOpcode .ClearColor |> writeU32 slot |> writeU32 r |> writeU32 g |> writeU32 b |>
    writeU32 a

def clearDepth (depth : U32) (stencil : Byte) (buf : CommandList) : CommandList :=
  buf |> writeOpcode .ClearDepth |> writeU32 depth |> writeU32 (stencil.setWidth 32)

def drawDirect (vertexCount instanceCount firstVertex firstInstance : U32) (buf : CommandList) :
    CommandList :=
  buf |> writeOpcode .DrawDirect |> writeU32 vertexCount |> writeU32 instanceCount |>
    writeU32 firstVertex |> writeU32 firstInstance

def drawIndexed (indexCount instanceCount firstIndex vertexOffset firstInstance : U32)
    (buf : CommandList) : CommandList :=
  buf |> writeOpcode .DrawIndexed |> writeU32 indexCount |> writeU32 instanceCount |>
    writeU32 firstIndex |> writeU32 vertexOffset |> writeU32 firstInstance

def dispatch (gx gy gz : U32) (buf : CommandList) : CommandList :=
  buf |> writeOpcode .Dispatch |> writeU32 gx |> writeU32 gy |> writeU32 gz

def setViewport (vp : Viewport) (buf : CommandList) : CommandList :=
  buf |> writeOpcode .SetViewport |> writeU32 vp.x |> writeU32 vp.y |> writeU32 vp.width |>
    writeU32 vp.height |> writeU32 vp.minDepth |> writeU32 vp.maxDepth

def setScissor (sc : Scissor) (buf : CommandList) : CommandList :=
  buf |> writeOpcode .SetScissor |> writeU32 sc.x |> writeU32 sc.y |> writeU32 sc.width |>
    writeU32 sc.height

def barrier (b : Barrier) (buf : CommandList) : CommandList :=
  buf |> writeOpcode .BarrierTransition |> writeU64 b.gpuAddr |>
    writeU32 (b.before.setWidth 32) |> writeU32 (b.after.setWidth 32)

def waitFence (h : U32) (buf : CommandList) : CommandList :=
  buf |> writeOpcode .WaitFence |> writeU32 h

def signalFence (h : U32) (buf : CommandList) : CommandList :=
  buf |> writeOpcode .SignalFence |> writeU32 h

/-- The label of `BeginRenderPass` and `PushDebugLabel`; its length is cut to 32 bits. -/
def writeLabel (label : List Byte) (buf : CommandList) : CommandList :=
  let len : U32 := BitVec.ofNat 32 label.length
  let buf := writeU32 len buf
  if len ≠ 0 then writeBytes (label.take len.toNat) buf else buf

def beginRenderPass (label : List Byte) (buf : CommandList) : CommandList :=
  buf |> writeOpcode .BeginRenderPass |> writeLabel label

def endRenderPass (buf : CommandList) : CommandList := buf |> writeOpcode .EndRenderPass

def pushDebugLabel (label : List Byte) (buf : CommandList) : CommandList :=
  buf |> writeOpcode .PushDebugLabel |> writeLabel label

def popDebugLabel (buf : CommandList) : CommandList := buf |> writeOpcode .PopDebugLabel

/-- `End`. -/
def finish (buf : CommandList) : CommandList := buf |> writeOpcode .End

end CommandList

/-! ## Commands -/

/-- A call of the builder other than `End`. -/
inductive Command where
  | nop
  | setRenderTarget (slot : U32) (rt : RenderTarget)
  | setDepthTarget (dt : DepthTarget)
  | clearColor (slot r g b a : U32)
  | clearDepth (depth : U32) (stencil : Byte)
  | drawDirect (vertexCount instanceCount firstVertex firstInstance : U32)
  | drawIndexed (indexCount instanceCount firstIndex vertexOffset firstInstance : U32)
  | dispatch (gx gy gz : U32)
  | setViewport (vp : Viewport)
  | setScissor (sc : Scissor)
  | barrier (b : Barrier)
  | waitFence (h : U32)
  | signalFence (h : U32)
  | beginRenderPass (label : List Byte)
  | endRenderPass
  | pushDebugLabel (label : List Byte)
  | popDebugLabel
  deriving DecidableEq, Repr

namespace Command

/-- The call. -/
def build : Command → CommandList → CommandList
  | nop => CommandList.nop
  | setRenderTarget slot rt => CommandList.setRenderTarget slot rt
  | setDepthTarget dt => CommandList.setDepthTarget dt
  | clearColor slot r g b a => CommandList.clearColor slot r g b a
  | clearDepth depth stencil => CommandList.clearDepth depth stencil
  | drawDirect vc ic fv fi => CommandList.drawDirect vc ic fv fi
  | drawIndexed ic inst fi vo fii => CommandList.drawIndexed ic inst fi vo fii
  | dispatch gx gy gz => CommandList.dispatch gx gy gz
  | setViewport vp => CommandList.setViewport vp
  | setScissor sc => CommandList.setScissor sc
  | barrier b => CommandList.barrier b
  | waitFence h => CommandList.waitFence h
  | signalFence h => CommandList.signalFence h
  | beginRenderPass label => CommandList.beginRenderPass label
  | endRenderPass => CommandList.endRenderPass
  | pushDebugLabel label => CommandList.pushDebugLabel label
  | popDebugLabel => CommandList.popDebugLabel

def opcode : Command → CommandOpcode
  | nop => .Nop
  | setRenderTarget .. => .SetRenderTarget
  | setDepthTarget .. => .SetDepthTarget
  | clearColor .. => .ClearColor
  | clearDepth .. => .ClearDepth
  | drawDirect .. => .DrawDirect
  | drawIndexed .. => .DrawIndexed
  | dispatch .. => .Dispatch
  | setViewport .. => .SetViewport
  | setScissor .. => .SetScissor
  | barrier .. => .BarrierTransition
  | waitFence .. => .WaitFence
  | signalFence .. => .SignalFence
  | beginRenderPass .. => .BeginRenderPass
  | endRenderPass => .EndRenderPass
  | pushDebugLabel .. => .PushDebugLabel
  | popDebugLabel => .PopDebugLabel

/-- A label as it stands in a packet. -/
def labelBytes (label : List Byte) : List Byte :=
  toBytes 4 (BitVec.ofNat 32 label.length) ++ label.take (BitVec.ofNat 32 label.length).toNat

/-- What stands behind the opcode. -/
def payload : Command → List Byte
  | nop | endRenderPass | popDebugLabel => []
  | setRenderTarget slot rt =>
    toBytes 4 slot ++ (toBytes 8 rt.gpuAddr ++ (toBytes 4 rt.width ++ (toBytes 4 rt.height ++
      (toBytes 4 rt.pitch ++ toBytes 4 rt.format))))
  | setDepthTarget dt =>
    toBytes 8 dt.gpuAddr ++ (toBytes 4 dt.width ++ (toBytes 4 dt.height ++ toBytes 4 dt.format))
  | clearColor slot r g b a =>
    toBytes 4 slot ++ (toBytes 4 r ++ (toBytes 4 g ++ (toBytes 4 b ++ toBytes 4 a)))
  | clearDepth depth stencil => toBytes 4 depth ++ toBytes 4 (stencil.setWidth 32)
  | drawDirect vc ic fv fi => toBytes 4 vc ++ (toBytes 4 ic ++ (toBytes 4 fv ++ toBytes 4 fi))
  | drawIndexed ic inst fi vo fii =>
    toBytes 4 ic ++ (toBytes 4 inst ++ (toBytes 4 fi ++ (toBytes 4 vo ++ toBytes 4 fii)))
  | dispatch gx gy gz => toBytes 4 gx ++ (toBytes 4 gy ++ toBytes 4 gz)
  | setViewport vp =>
    toBytes 4 vp.x ++ (toBytes 4 vp.y ++ (toBytes 4 vp.width ++ (toBytes 4 vp.height ++
      (toBytes 4 vp.minDepth ++ toBytes 4 vp.maxDepth))))
  | setScissor sc =>
    toBytes 4 sc.x ++ (toBytes 4 sc.y ++ (toBytes 4 sc.width ++ toBytes 4 sc.height))
  | barrier b =>
    toBytes 8 b.gpuAddr ++ (toBytes 4 (b.before.setWidth 32) ++ toBytes 4 (b.after.setWidth 32))
  | waitFence h | signalFence h => toBytes 4 h
  | beginRenderPass label | pushDebugLabel label => labelBytes label

/-- The packet of a command. -/
def packet (c : Command) : List Byte := toBytes 4 c.opcode.value ++ c.payload

theorem writeLabel_eq (label : List Byte) (buf : CommandList) :
    CommandList.writeLabel label buf = buf ++ labelBytes label := by
  rw [CommandList.writeLabel, labelBytes]
  split_ifs with hlen
  · rw [CommandList.writeBytes, CommandList.writeU32, List.append_assoc]
  · rw [not_not] at hlen
    have hnone : label.take (0 : U32).toNat = [] := List.take_zero
    rw [hlen, hnone, List.append_nil, CommandList.writeU32]

/-- **Every call appends its packet.** -/
theorem build_eq (c : Command) (buf : CommandList) : c.build buf = buf ++ c.packet := by
  cases c <;> simp only [build, packet, payload, opcode, CommandList.nop,
    CommandList.setRenderTarget, CommandList.setDepthTarget, CommandList.clearColor,
    CommandList.clearDepth, CommandList.drawDirect, CommandList.drawIndexed,
    CommandList.dispatch, CommandList.setViewport, CommandList.setScissor, CommandList.barrier,
    CommandList.waitFence, CommandList.signalFence, CommandList.beginRenderPass,
    CommandList.endRenderPass, CommandList.pushDebugLabel, CommandList.popDebugLabel,
    CommandList.writeOpcode, CommandList.writeU32, CommandList.writeU64, writeLabel_eq,
    List.append_assoc, List.append_nil]

end Command

/-- The calls, one after another. -/
def buildAll (cmds : List Command) (buf : CommandList) : CommandList :=
  cmds.foldl (fun buf c => c.build buf) buf

theorem buildAll_eq (cmds : List Command) (buf : CommandList) :
    buildAll cmds buf = buf ++ cmds.flatMap Command.packet := by
  induction cmds generalizing buf with
  | nil => simp [buildAll]
  | cons c cmds ih =>
      rw [List.flatMap_cons, ← List.append_assoc, ← Command.build_eq, ← ih]
      rfl

end CommandProcessor
