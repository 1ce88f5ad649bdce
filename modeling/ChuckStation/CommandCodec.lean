/-
# Command lists are processed as they were built

Builder and processor are written separately, packet by packet.  They fit if every packet, read
at the cursor, moves the cursor to its end: then the next one is read where it begins, and a
list of any length is processed command by command.
-/
import ChuckStation.CommandProcessor

namespace CommandProcessor

open BinaryFormats LittleEndian

/-! ## What a command does -/

namespace Command

/-- The call to the GPU layer.  The host pointer of a target is not part of a packet. -/
def gpuCall (backend : Bool) : Command → Option GpuCall
  | clearColor slot r g b a => if backend then some (.clearRenderTarget slot r g b a) else none
  | clearDepth depth stencil => if backend then some (.clearDepthTarget depth stencil) else none
  | barrier b => some (.insertBarrier b)
  | waitFence h => some (.waitFence h 1000000)
  | signalFence h => some (.signalFence h)
  | setRenderTarget slot rt => some (.setRenderTarget slot { rt with dataPtr := 0 })
  | setDepthTarget dt => some (.setDepthTarget { dt with dataPtr := 0 })
  | _ => none

def isDraw : Command → Bool
  | drawDirect .. | drawIndexed .. => true
  | _ => false

def isDispatch : Command → Bool
  | dispatch .. => true
  | _ => false

def isBarrier : Command → Bool
  | barrier .. => true
  | _ => false

def isRenderPass : Command → Bool
  | beginRenderPass .. => true
  | _ => false

end Command

/-- The counts of commands of each kind, added to the statistics. -/
def ProcessorStats.tally (cmds : List Command) (stats : ProcessorStats) : ProcessorStats :=
  { stats with
    drawCalls := stats.drawCalls + BitVec.ofNat 64 (cmds.countP Command.isDraw)
    computeDispatches :=
      stats.computeDispatches + BitVec.ofNat 64 (cmds.countP Command.isDispatch)
    barriers := stats.barriers + BitVec.ofNat 64 (cmds.countP Command.isBarrier)
    renderPassBegins :=
      stats.renderPassBegins + BitVec.ofNat 64 (cmds.countP Command.isRenderPass) }

/-- Where the packets of the commands begin, the first at `offset`. -/
def packetsFrom : ℕ → List Command → List (ℕ × CommandOpcode)
  | _, [] => []
  | offset, c :: cmds => (offset, c.opcode) :: packetsFrom (offset + c.packet.length) cmds

namespace Run

/-- The run after the commands, the first of which is at `offset`. -/
def after (backend : Bool) (offset : ℕ) (cmds : List Command) (run : Run) : Run where
  count := run.count + BitVec.ofNat 32 cmds.length
  stats := run.stats.tally cmds
  calls := run.calls ++ cmds.filterMap (Command.gpuCall backend)
  executed := run.executed ++ packetsFrom offset cmds

/-- The calls and the statistics of one command. -/
def effect (backend : Bool) (c : Command) (run : Run) : Run :=
  { run with calls := run.calls ++ (c.gpuCall backend).toList, stats := run.stats.tally [c] }

theorem after_nil (backend : Bool) (offset : ℕ) (run : Run) :
    run.after backend offset [] = run := by
  simp [after, ProcessorStats.tally, packetsFrom]

theorem tally_cons (c : Command) (cmds : List Command) (stats : ProcessorStats) :
    stats.tally (c :: cmds) = (stats.tally [c]).tally cmds := by
  have hcount : ∀ (p : Command → Bool) (v : U64),
      v + BitVec.ofNat 64 ((c :: cmds).countP p) =
        v + BitVec.ofNat 64 ([c].countP p) + BitVec.ofNat 64 (cmds.countP p) := by
    intro p v
    have hsplit : (c :: cmds).countP p = [c].countP p + cmds.countP p := by
      rw [← List.countP_append, List.singleton_append]
    rw [hsplit, BitVec.ofNat_add, BitVec.add_assoc]
  simp only [ProcessorStats.tally, hcount]

/-- One command, and then the others. -/
theorem after_cons (backend : Bool) (offset : ℕ) (c : Command) (cmds : List Command) (run : Run) :
    run.after backend offset (c :: cmds) =
      ((run.effect backend c).next offset c.opcode).after backend (offset + c.packet.length)
        cmds := by
  have hcount : run.count + BitVec.ofNat 32 (c :: cmds).length =
      run.count + 1 + BitVec.ofNat 32 cmds.length := by
    rw [List.length_cons, BitVec.add_assoc, Nat.add_comm, BitVec.ofNat_add]
    rfl
  have hcalls : (c :: cmds).filterMap (Command.gpuCall backend) =
      (c.gpuCall backend).toList ++ cmds.filterMap (Command.gpuCall backend) := by
    rw [List.filterMap_cons]
    cases c.gpuCall backend with
    | none => rfl
    | some g => rfl
  rw [after, hcount, tally_cons, hcalls, packetsFrom]
  simp only [after, effect, next, List.append_assoc, List.singleton_append]

end Run

/-! ## One packet -/

section Reading

variable {N n w : ℕ} {c : Cursor}

/-- A value that is there. -/
theorem readVal_of_le (h : c.offset + w / 8 ≤ c.data.length) :
    readVal w c = .ok (ofBytes w ((c.data.drop c.offset).take (w / 8)),
      { c with offset := c.offset + w / 8 }) := by
  rw [readVal, if_pos h]
  show (deref (w / 8) c >>= _) = _
  rw [deref, if_pos h]
  rfl

/-- A value that is not there. -/
theorem readVal_of_lt (h : c.data.length < c.offset + w / 8) : readVal w c = .ok (0, c) := by
  rw [readVal, if_neg (by omega)]

theorem reads_readVal (v : BitVec w) (hw : w = 8 * n) :
    Reads N (readVal w) (toBytes n v) v := by
  intro pre post hlen
  have hn : w / 8 = n := by omega
  have hfits : pre.length + w / 8 ≤ (pre ++ (toBytes n v ++ post)).length := by
    rw [List.length_append, List.length_append, length_toBytes, hn]
    omega
  rw [readVal_of_le hfits]
  dsimp only
  rw [hn, List.drop_left, List.take_left' (length_toBytes n v), ofBytes_toBytes n v hw.le,
    List.length_append, length_toBytes]

theorem reads_skip {bs : List Byte} (h : bs.length = n) : Reads N (skip n) bs () := by
  intro pre post hlen
  rw [skip, ← h, List.length_append]

/-- The bytes at the cursor are looked at and left. -/
theorem reads_deref {bs : List Byte} {β : Type} {q : List Byte → Reader Fault β} {v : β}
    (h : Reads N (q (bs.take n)) bs v) (hn : n ≤ bs.length) :
    Reads N (deref n >>= q) bs v := by
  intro pre post hlen
  show (deref n _ >>= _) = _
  rw [deref, if_pos (by simp only [List.length_append]; omega), List.drop_left,
    List.take_append_of_le_length hn]
  exact h pre post hlen

theorem reads_available {bs : List Byte} {β : Type} {q : ℕ → Reader Fault β} {v : β} {len : U32}
    (hlen : bs.length = len.toNat) (h : Reads N (q len.toNat) bs v) :
    Reads N ((fun c => .ok (available len c, c) : Reader Fault ℕ) >>= q) bs v := by
  intro pre post hN
  have hall : available len ⟨pre ++ (bs ++ post), pre.length⟩ = len.toNat := by
    rw [available]
    simp only [List.length_append]
    omega
  show q (available len _) _ = _
  rw [hall]
  exact h pre post hN

/-- The label is as long as its length field says. -/
theorem length_label (label : List Byte) :
    (label.take (BitVec.ofNat 32 label.length).toNat).length =
      (BitVec.ofNat 32 label.length).toNat := by
  rw [List.length_take, BitVec.toNat_ofNat]
  exact min_eq_left (Nat.mod_le _ _)

end Reading

/-- The last field of a packet. -/
theorem Reads.last {ε α β : Type} {N : ℕ} {p : Reader ε α} {bs : List Byte} {v : α}
    (hp : Reads N p bs v) (f : α → β) : Reads N (p >>= fun x => pure (f x)) bs (f v) := by
  have hbind : Reads N (p >>= fun x => pure (f x)) (bs ++ []) (f v) := hp.bind (reads_pure (f v))
  rwa [List.append_nil] at hbind

section Effects

variable (backend : Bool) (run : Run)

theorem effect_of_call {c : Command} {g : GpuCall} (hcall : c.gpuCall backend = some g)
    (htally : run.stats.tally [c] = run.stats) : run.effect backend c = run.call g := by
  rw [Run.effect, hcall, htally]
  rfl

theorem effect_of_silent {c : Command} (hcall : c.gpuCall backend = none) :
    run.effect backend c = { run with stats := run.stats.tally [c] } := by
  rw [Run.effect, hcall, Option.toList_none, List.append_nil]

/-- A command that is neither a draw nor a dispatch nor a barrier nor a render pass. -/
theorem tally_of_uncounted {c : Command} (hdraw : c.isDraw = false)
    (hdispatch : c.isDispatch = false) (hbarrier : c.isBarrier = false)
    (hpass : c.isRenderPass = false) (stats : ProcessorStats) : stats.tally [c] = stats := by
  simp [ProcessorStats.tally, hdraw, hdispatch, hbarrier, hpass]

theorem effect_of_draw {c : Command} (hcall : c.gpuCall backend = none) (hdraw : c.isDraw = true)
    (hdispatch : c.isDispatch = false) (hbarrier : c.isBarrier = false)
    (hpass : c.isRenderPass = false) : run.effect backend c = run.countDraw := by
  rw [effect_of_silent backend run hcall, Run.countDraw]
  simp [ProcessorStats.tally, hdraw, hdispatch, hbarrier, hpass]

end Effects

/-- **Every packet is read as it was written**, to its end. -/
theorem reads_packet (backend : Bool) (run : Run) (N : ℕ) (c : Command) :
    Reads N (processPacket backend run c.opcode) c.payload (run.effect backend c) := by
  cases c with
  | nop =>
      rw [effect_of_silent backend run rfl, tally_of_uncounted rfl rfl rfl rfl]
      exact reads_pure run
  | endRenderPass =>
      rw [effect_of_silent backend run rfl, tally_of_uncounted rfl rfl rfl rfl]
      exact reads_pure run
  | popDebugLabel =>
      rw [effect_of_silent backend run rfl, tally_of_uncounted rfl rfl rfl rfl]
      exact reads_pure run
  | setRenderTarget slot rt =>
      rw [effect_of_call backend run rfl (tally_of_uncounted rfl rfl rfl rfl _)]
      exact (reads_readVal slot rfl).bind <| (reads_readVal rt.gpuAddr rfl).bind <|
        (reads_readVal rt.width rfl).bind <| (reads_readVal rt.height rfl).bind <|
        (reads_readVal rt.pitch rfl).bind <| Reads.last (reads_readVal rt.format rfl) _
  | setDepthTarget dt =>
      rw [effect_of_call backend run rfl (tally_of_uncounted rfl rfl rfl rfl _)]
      exact (reads_readVal dt.gpuAddr rfl).bind <| (reads_readVal dt.width rfl).bind <|
        (reads_readVal dt.height rfl).bind <| Reads.last (reads_readVal dt.format rfl) _
  | clearColor slot r g b a =>
      -- Without a back end the clear is read and dropped.
      have heffect : run.effect backend (.clearColor slot r g b a) =
          if backend then run.call (.clearRenderTarget slot r g b a) else run := by
        cases backend with
        | true => exact effect_of_call true run rfl (tally_of_uncounted rfl rfl rfl rfl _)
        | false => rw [effect_of_silent false run rfl, tally_of_uncounted rfl rfl rfl rfl]; rfl
      rw [heffect]
      exact (reads_readVal slot rfl).bind <| (reads_readVal r rfl).bind <|
        (reads_readVal g rfl).bind <| (reads_readVal b rfl).bind <|
        Reads.last (reads_readVal a rfl) _
  | clearDepth depth stencil =>
      -- The stencil is written as 32 bits and read back as 8.
      have hstencil : (stencil.setWidth 32).setWidth 8 = stencil :=
        BitVec.setWidth_setWidth_of_le stencil (by decide)
      have heffect : run.effect backend (.clearDepth depth stencil) =
          if backend then run.call (.clearDepthTarget depth ((stencil.setWidth 32).setWidth 8))
          else run := by
        rw [hstencil]
        cases backend with
        | true => exact effect_of_call true run rfl (tally_of_uncounted rfl rfl rfl rfl _)
        | false => rw [effect_of_silent false run rfl, tally_of_uncounted rfl rfl rfl rfl]; rfl
      rw [heffect]
      exact (reads_readVal depth rfl).bind <|
        Reads.last (reads_readVal (stencil.setWidth 32) rfl) _
  | drawDirect vc ic fv fi =>
      rw [effect_of_draw backend run rfl rfl rfl rfl rfl]
      exact (reads_readVal vc rfl).bind <| (reads_readVal ic rfl).bind <|
        (reads_readVal fv rfl).bind <| Reads.last (reads_readVal fi rfl) _
  | drawIndexed ic inst fi vo fii =>
      rw [effect_of_draw backend run rfl rfl rfl rfl rfl]
      exact (reads_readVal ic rfl).bind <| (reads_readVal inst rfl).bind <|
        (reads_readVal fi rfl).bind <| (reads_readVal vo rfl).bind <|
        Reads.last (reads_readVal fii rfl) _
  | dispatch gx gy gz =>
      have heffect : run.effect backend (.dispatch gx gy gz) = run.countDispatch := by
        simp [Run.effect, Run.countDispatch, ProcessorStats.tally, Command.gpuCall,
          Command.isDraw, Command.isDispatch, Command.isBarrier, Command.isRenderPass]
      rw [heffect]
      exact (reads_readVal gx rfl).bind <| (reads_readVal gy rfl).bind <|
        Reads.last (reads_readVal gz rfl) _
  | setViewport vp =>
      rw [effect_of_silent backend run rfl, tally_of_uncounted rfl rfl rfl rfl]
      exact Reads.last (reads_skip (by simp [Command.payload])) fun _ => run
  | setScissor sc =>
      rw [effect_of_silent backend run rfl, tally_of_uncounted rfl rfl rfl rfl]
      exact Reads.last (reads_skip (by simp [Command.payload])) fun _ => run
  | barrier b =>
      have hstate : ∀ state : Byte, (state.setWidth 32).setWidth 8 = state := fun state =>
        BitVec.setWidth_setWidth_of_le state (by decide)
      have heffect : run.effect backend (.barrier b) =
          (run.call (.insertBarrier
            { gpuAddr := b.gpuAddr
              before := (b.before.setWidth 32).setWidth 8
              after := (b.after.setWidth 32).setWidth 8 })).countBarrier := by
        rw [hstate, hstate]
        simp [Run.effect, Run.call, Run.countBarrier, ProcessorStats.tally, Command.gpuCall,
          Command.isDraw, Command.isDispatch, Command.isBarrier, Command.isRenderPass]
      rw [heffect]
      exact (reads_readVal b.gpuAddr rfl).bind <|
        (reads_readVal (b.before.setWidth 32) rfl).bind <|
        Reads.last (reads_readVal (b.after.setWidth 32) rfl) _
  | waitFence h =>
      rw [effect_of_call backend run rfl (tally_of_uncounted rfl rfl rfl rfl _)]
      exact Reads.last (reads_readVal h rfl) _
  | signalFence h =>
      rw [effect_of_call backend run rfl (tally_of_uncounted rfl rfl rfl rfl _)]
      exact Reads.last (reads_readVal h rfl) _
  | beginRenderPass label =>
      have heffect : run.effect backend (.beginRenderPass label) = run.countRenderPass := by
        simp [Run.effect, Run.countRenderPass, ProcessorStats.tally, Command.gpuCall,
          Command.isDraw, Command.isDispatch, Command.isBarrier, Command.isRenderPass]
      rw [heffect]
      refine (reads_readVal (BitVec.ofNat 32 label.length) rfl).bind ?_
      -- The label is padded to whole words; its first byte is looked at before it is skipped.
      refine reads_available (length_label label) ?_
      refine reads_deref ?_ (length_label label).ge
      exact Reads.last (reads_skip (length_label label)) fun _ => run.countRenderPass
  | pushDebugLabel label =>
      rw [effect_of_silent backend run rfl, tally_of_uncounted rfl rfl rfl rfl]
      refine (reads_readVal (BitVec.ofNat 32 label.length) rfl).bind ?_
      refine reads_available (length_label label) ?_
      exact Reads.last (reads_skip (length_label label)) fun _ => run

/-! ## The loop -/

section Loop

variable {backend : Bool} {fuel : ℕ} {run run' : Run} {c c₁ c₂ : Cursor} {raw : U32}
  {op : CommandOpcode}

/-- One turn: an opcode that is known, and its packet. -/
theorem processLoop_of_packet (hfits : c.offset + 4 ≤ c.data.length)
    (hraw : readVal 32 c = .ok (raw, c₁)) (hop : CommandOpcode.ofRaw raw = some op)
    (hne : op ≠ .End) (hpacket : processPacket backend run op c₁ = .ok (run', c₂)) :
    processLoop backend (fuel + 1) run c =
      processLoop backend fuel (run'.next c.offset op) c₂ := by
  rw [processLoop, if_pos hfits, hraw]
  simp only [bind, Except.bind, hop]
  cases op <;> first
    | exact absurd rfl hne
    | rw [hpacket]

/-- The turn that comes to the end of a list. -/
theorem processLoop_of_end (hfits : c.offset + 4 ≤ c.data.length)
    (hraw : readVal 32 c = .ok (raw, c₁)) (hop : CommandOpcode.ofRaw raw = some .End) :
    processLoop backend (fuel + 1) run c = .ok (run, c₁) := by
  rw [processLoop, if_pos hfits, hraw]
  simp only [bind, Except.bind, hop]
  rfl

/-- The turn that comes across an opcode it does not know. -/
theorem processLoop_of_unknown (hfits : c.offset + 4 ≤ c.data.length)
    (hraw : readVal 32 c = .ok (raw, c₁)) (hop : CommandOpcode.ofRaw raw = none) :
    processLoop backend (fuel + 1) run c = .ok (run.countUnknown, c₁) := by
  rw [processLoop, if_pos hfits, hraw]
  simp only [bind, Except.bind, hop]
  rfl

/-- The turn after the last opcode. -/
theorem processLoop_of_short (hshort : c.data.length < c.offset + 4) :
    processLoop backend (fuel + 1) run c = .ok (run, c) := by
  rw [processLoop, if_neg (by omega)]
  rfl

end Loop

/-- `End` behind the commands. -/
theorem processLoop_end (backend : Bool) (fuel : ℕ) (run : Run) (pre : List Byte) :
    processLoop backend (fuel + 1) run
        ⟨pre ++ toBytes 4 CommandOpcode.End.value, pre.length⟩ =
      .ok (run, ⟨pre ++ toBytes 4 CommandOpcode.End.value, pre.length + 4⟩) := by
  have hraw := reads_readVal CommandOpcode.End.value (n := 4) rfl
    (N := (pre ++ toBytes 4 CommandOpcode.End.value).length + 1) pre [] (by simp)
  rw [List.append_nil, List.length_append, length_toBytes] at hraw
  exact processLoop_of_end (by simp) hraw (CommandOpcode.ofRaw_value _)

theorem opcode_ne_end (c : Command) : c.opcode ≠ .End := by
  cases c <;> simp [Command.opcode]

theorem length_packet (c : Command) : c.packet.length = 4 + c.payload.length := by
  rw [Command.packet, List.length_append, length_toBytes]

/-- One command of a list. -/
theorem processLoop_packet (backend : Bool) (fuel : ℕ) (run : Run) (c : Command)
    (pre rest : List Byte) :
    processLoop backend (fuel + 1) run ⟨pre ++ (c.packet ++ rest), pre.length⟩ =
      processLoop backend fuel ((run.effect backend c).next pre.length c.opcode)
        ⟨pre ++ (c.packet ++ rest), (pre ++ c.packet).length⟩ := by
  let N := (pre ++ (c.packet ++ rest)).length + 1
  have hraw := reads_readVal c.opcode.value (n := 4) rfl (N := N) pre (c.payload ++ rest)
    (by simp [N, Command.packet])
  have hpacket := reads_packet backend run N c (pre ++ toBytes 4 c.opcode.value) rest
    (by simp [N, Command.packet])
  rw [List.append_assoc pre, List.append_assoc pre] at hpacket
  rw [Command.packet, List.append_assoc]
  refine processLoop_of_packet ?_ hraw (CommandOpcode.ofRaw_value _) (opcode_ne_end c) hpacket
  simp only [List.length_append, length_toBytes]
  omega

/-- **Resynchronisation.**  After any number of commands the cursor is where the next packet
begins. -/
theorem processLoop_commands (backend : Bool) (fuel : ℕ) (run : Run) (cmds : List Command)
    (pre rest : List Byte) :
    processLoop backend (fuel + cmds.length) run
        ⟨pre ++ (cmds.flatMap Command.packet ++ rest), pre.length⟩ =
      processLoop backend fuel (run.after backend pre.length cmds)
        ⟨pre ++ (cmds.flatMap Command.packet ++ rest),
          (pre ++ cmds.flatMap Command.packet).length⟩ := by
  induction cmds generalizing pre run with
  | nil => rw [Run.after_nil, List.flatMap_nil, List.append_nil]; rfl
  | cons c cmds ih =>
      have hlength : (pre ++ c.packet).length = pre.length + c.packet.length := List.length_append
      have hnext := ih ((run.effect backend c).next pre.length c.opcode) (pre ++ c.packet)
      rw [List.append_assoc pre, List.append_assoc pre, hlength] at hnext
      rw [List.flatMap_cons, List.append_assoc, List.length_cons, ← Nat.add_assoc,
        processLoop_packet, hlength, hnext, Run.after_cons]

/-- A packet is four bytes long at least. -/
theorem length_packets (cmds : List Command) :
    4 * cmds.length ≤ (cmds.flatMap Command.packet).length := by
  induction cmds with
  | nil => simp
  | cons c cmds ih =>
      rw [List.flatMap_cons, List.length_append, List.length_cons, length_packet]
      omega

/-- The statistics after a list of commands. -/
theorem finishStats_after (cmds : List Command) (hlen : cmds.length < 2 ^ 31)
    (stats : ProcessorStats) :
    finishStats (BitVec.ofNat 32 cmds.length) (stats.tally cmds) =
      { stats.tally cmds with
        commandListsProcessed := stats.commandListsProcessed + 1
        commandsProcessed := stats.commandsProcessed + BitVec.ofNat 64 cmds.length } := by
  have hsign : (BitVec.ofNat 32 cmds.length).signExtend 64 = BitVec.ofNat 64 cmds.length := by
    rw [BitVec.signExtend_eq_setWidth_of_msb_false]
    · apply BitVec.eq_of_toNat_eq
      simp only [BitVec.toNat_setWidth, BitVec.toNat_ofNat]
      omega
    · rw [BitVec.msb_eq_false_iff_two_mul_lt, BitVec.toNat_ofNat]
      omega
  rw [finishStats, hsign]
  rfl

/-- A list of commands with something behind them at which the loop ends. -/
theorem process_commands (st : CpState) (cmds : List Command) {tail : List Byte} {k : ℕ}
    (hne : cmds.flatMap Command.packet ++ tail ≠ [])
    (htail : ∀ (fuel : ℕ) (run : Run) (pre : List Byte),
      processLoop st.backend (fuel + 1) run ⟨pre ++ tail, pre.length⟩ =
        .ok (run, ⟨pre ++ tail, pre.length + k⟩)) :
    process st (cmds.flatMap Command.packet ++ tail) =
      .ok ((Run.after st.backend 0 cmds { stats := st.stats }).outcome st
        ⟨cmds.flatMap Command.packet ++ tail, (cmds.flatMap Command.packet).length + k⟩) := by
  have hshort := length_packets cmds
  have hlength : (cmds.flatMap Command.packet ++ tail).length =
      (cmds.flatMap Command.packet).length + tail.length := List.length_append
  obtain ⟨fuel, hfuel⟩ : ∃ fuel, (cmds.flatMap Command.packet ++ tail).length / 4 + 1 =
      fuel + 1 + cmds.length :=
    ⟨(cmds.flatMap Command.packet ++ tail).length / 4 - cmds.length, by omega⟩
  have hcmds := processLoop_commands st.backend (fuel + 1) { stats := st.stats } cmds [] tail
  rw [List.nil_append, List.nil_append, htail, List.length_nil] at hcmds
  rw [process, if_neg hne, hfuel, hcmds]
  rfl

/-- **A command list is processed as it was built**: the commands in order, each at its place,
with the arguments given to the builder, and every one of them counted. -/
theorem process_built (st : CpState) (hbackend : st.backend = true) (cmds : List Command)
    (hlen : cmds.length < 2 ^ 31) :
    ∃ out, process st (buildAll cmds []).finish = .ok out ∧
      out.count.toInt = cmds.length ∧
      out.executed = packetsFrom 0 cmds ∧
      out.cursor = (buildAll cmds []).finish.length ∧
      out.calls = cmds.filterMap (Command.gpuCall true) ∧
      out.state = { st with stats :=
        { commandListsProcessed := st.stats.commandListsProcessed + 1
          commandsProcessed := st.stats.commandsProcessed + BitVec.ofNat 64 cmds.length
          drawCalls := st.stats.drawCalls + BitVec.ofNat 64 (cmds.countP Command.isDraw)
          computeDispatches :=
            st.stats.computeDispatches + BitVec.ofNat 64 (cmds.countP Command.isDispatch)
          barriers := st.stats.barriers + BitVec.ofNat 64 (cmds.countP Command.isBarrier)
          renderPassBegins :=
            st.stats.renderPassBegins + BitVec.ofNat 64 (cmds.countP Command.isRenderPass)
          unknownCommands := st.stats.unknownCommands } } := by
  have hbytes : (buildAll cmds []).finish =
      cmds.flatMap Command.packet ++ toBytes 4 CommandOpcode.End.value := by
    rw [CommandList.finish, CommandList.writeOpcode, CommandList.writeU32, buildAll_eq,
      List.nil_append]
  have hlength : (cmds.flatMap Command.packet ++ toBytes 4 CommandOpcode.End.value).length =
      (cmds.flatMap Command.packet).length + 4 := by
    rw [List.length_append, length_toBytes]
  have hne : cmds.flatMap Command.packet ++ toBytes 4 CommandOpcode.End.value ≠ [] := by
    intro hnil
    rw [hnil, List.length_nil] at hlength
    omega
  rw [hbytes, process_commands st cmds (k := 4) hne (processLoop_end st.backend), hbackend]
  have hcount : (0 : U32) + BitVec.ofNat 32 cmds.length = BitVec.ofNat 32 cmds.length :=
    BitVec.zero_add _
  refine ⟨_, rfl, ?_, List.nil_append _, hlength.symm, List.nil_append _, ?_⟩
  · -- The counter is 32 bits wide, and the list is shorter than that.
    have hnat : (BitVec.ofNat 32 cmds.length).toNat = cmds.length := by
      rw [BitVec.toNat_ofNat]
      omega
    show BitVec.toInt (0 + BitVec.ofNat 32 cmds.length) = _
    rw [hcount, BitVec.toInt_eq_toNat_of_lt (by omega), hnat]
  · rw [Run.outcome]
    dsimp only [Run.after]
    rw [hcount, finishStats_after cmds hlen, hbackend]
    rfl

/-- A pass with a clear and two draws. -/
theorem process_built_scene :
    ∃ out, process { backend := true }
        (buildAll [.beginRenderPass [0x6D], .clearColor 0 0 0 0 1, .setViewport ⟨0, 0, 9, 9, 0, 1⟩,
          .drawDirect 3 1 0 0, .drawIndexed 6 1 0 0 0, .endRenderPass] []).finish = .ok out ∧
      out.count.toInt = 6 ∧ out.calls = [.clearRenderTarget 0 0 0 0 1] ∧
      out.state.stats.drawCalls = 2 := by
  obtain ⟨out, hout, hcount, -, -, hcalls, hstate⟩ := process_built { backend := true } rfl
    [.beginRenderPass [0x6D], .clearColor 0 0 0 0 1, .setViewport ⟨0, 0, 9, 9, 0, 1⟩,
      .drawDirect 3 1 0 0, .drawIndexed 6 1 0 0 0, .endRenderPass] (by decide)
  exact ⟨out, hout, hcount, hcalls, by rw [hstate]; rfl⟩

end CommandProcessor
