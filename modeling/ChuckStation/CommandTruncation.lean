/-
# Truncated command lists

A buffer is a row of complete packets and then something else.  `Process` does right by it
unless that something is an opcode with too little behind it: then the packet is executed all
the same, with zeros for what is missing, and a skip may take the cursor out of the buffer.
After such a packet fewer than four bytes are left, so there is never more than one.
-/
import ChuckStation.CommandCodec

namespace CommandProcessor

open BinaryFormats LittleEndian

/-! ## Complete packets -/

/-- How many bytes belong behind the opcode, of those that are there. -/
def payloadLength : CommandOpcode → List Byte → ℕ
  | .Nop, _ | .EndRenderPass, _ | .PopDebugLabel, _ | .End, _ => 0
  | .SetRenderTarget, _ => 28
  | .SetDepthTarget, _ => 20
  | .ClearColor, _ => 20
  | .ClearDepth, _ => 8
  | .DrawIndexed, _ => 20
  | .DrawDirect, _ => 16
  | .Dispatch, _ => 12
  | .SetViewport, _ => 24
  | .SetScissor, _ => 16
  | .BarrierTransition, _ => 16
  | .WaitFence, _ | .SignalFence, _ => 4
  | .BeginRenderPass, bs | .PushDebugLabel, bs => 4 + (ofBytes 32 (bs.take 4)).toNat

/-- The complete packets of a buffer, and whether what follows them is an opcode whose payload
is cut off.  `End` and unknown opcodes end a buffer. -/
def scan (offset : ℕ) (bs : List Byte) : List (ℕ × CommandOpcode) × Bool :=
  if 4 ≤ bs.length then
    match CommandOpcode.ofRaw (ofBytes 32 (bs.take 4)) with
    | none => ([], false)
    | some .End => ([], false)
    | some op =>
      let n := payloadLength op (bs.drop 4)
      if n ≤ (bs.drop 4).length then
        let rest := scan (offset + 4 + n) ((bs.drop 4).drop n)
        ((offset, op) :: rest.1, rest.2)
      else ([], true)
  else ([], false)
termination_by bs.length
decreasing_by
  simp only [List.length_drop]
  omega

def completePackets (data : List Byte) : List (ℕ × CommandOpcode) := (scan 0 data).1

/-- The buffer ends within the payload of a packet. -/
def CutInPayload (data : List Byte) : Prop := (scan 0 data).2 = true

/-- The longest row of commands whose packets lie within the first `n` bytes of the list. -/
structure LongestComplete (cmds done : List Command) (n : ℕ) : Prop where
  isPrefix : done <+: cmds
  fits : (buildAll done []).length ≤ n
  longest : ∀ more, more <+: cmds → (buildAll more []).length ≤ n → more.length ≤ done.length

/-- The cursor stays inside, and what is executed and counted is the complete packets; for a
prefix of a list that was built, with calls and statistics of the commands that are complete. -/
structure OnlyComplete (st : CpState) (data : List Byte) (out : Outcome) : Prop where
  inside : out.cursor ≤ data.length
  executed : out.executed = completePackets data
  count : out.count = BitVec.ofNat 32 (completePackets data).length
  ofPrefix : ∀ cmds done, data <+: (buildAll cmds []).finish →
    LongestComplete cmds done data.length →
      out.count = BitVec.ofNat 32 done.length ∧
      out.calls = done.filterMap (Command.gpuCall st.backend) ∧
      out.state.stats = if data = [] then st.stats
        else finishStats (BitVec.ofNat 32 done.length) (st.stats.tally done)

section Scan

variable {offset : ℕ} {bs rest tail : List Byte} {op : CommandOpcode}

theorem scan_of_short (h : bs.length < 4) : scan offset bs = ([], false) := by
  rw [scan, if_neg (by omega)]

/-- An opcode of a packet. -/
theorem scan_of_opcode (hlen : 4 ≤ bs.length) (hne : op ≠ .End)
    (hraw : CommandOpcode.ofRaw (ofBytes 32 (bs.take 4)) = some op) :
    scan offset bs =
      if payloadLength op (bs.drop 4) ≤ (bs.drop 4).length then
        ((offset, op) :: (scan (offset + 4 + payloadLength op (bs.drop 4))
            ((bs.drop 4).drop (payloadLength op (bs.drop 4)))).1,
          (scan (offset + 4 + payloadLength op (bs.drop 4))
            ((bs.drop 4).drop (payloadLength op (bs.drop 4)))).2)
      else ([], true) := by
  rw [scan, if_pos hlen, hraw]
  cases op <;> first
    | exact absurd rfl hne
    | rfl

/-- Anything else ends the buffer. -/
theorem scan_of_stop (hlen : 4 ≤ bs.length)
    (hraw : CommandOpcode.ofRaw (ofBytes 32 (bs.take 4)) = none ∨
      CommandOpcode.ofRaw (ofBytes 32 (bs.take 4)) = some .End) :
    scan offset bs = ([], false) := by
  rw [scan, if_pos hlen]
  rcases hraw with hraw | hraw
  · rw [hraw]
  · rw [hraw]

end Scan

/-! ## Packets that were built -/

theorem length_labelBytes (label : List Byte) :
    (Command.labelBytes label).length = 4 + (BitVec.ofNat 32 label.length).toNat := by
  rw [Command.labelBytes, List.length_append, length_toBytes, length_label]

theorem take_labelBytes (label rest : List Byte) :
    ofBytes 32 ((Command.labelBytes label ++ rest).take 4) = BitVec.ofNat 32 label.length := by
  rw [Command.labelBytes, List.append_assoc, List.take_left' (length_toBytes 4 _),
    ofBytes_toBytes 4 _ le_rfl]

/-- A payload that is all there. -/
theorem payloadLength_append (c : Command) (rest : List Byte) :
    payloadLength c.opcode (c.payload ++ rest) = c.payload.length := by
  cases c with
  | beginRenderPass label =>
      exact (congrArg (fun len : U32 => 4 + len.toNat) (take_labelBytes label rest)).trans
        (length_labelBytes label).symm
  | pushDebugLabel label =>
      exact (congrArg (fun len : U32 => 4 + len.toNat) (take_labelBytes label rest)).trans
        (length_labelBytes label).symm
  | _ => simp [payloadLength, Command.opcode, Command.payload]

/-- A label that is cut off is missed, also if its length is. -/
theorem labelBytes_cut {label t more : List Byte} (h : t ++ more = Command.labelBytes label)
    (hmore : more ≠ []) : t.length < 4 + (ofBytes 32 (t.take 4)).toNat := by
  by_cases hlen : 4 ≤ t.length
  · have htake := take_labelBytes label []
    rw [List.append_nil, ← h, List.take_append_of_le_length hlen] at htake
    have hlength := congrArg List.length h
    have hpos := List.length_pos_iff.mpr hmore
    rw [List.length_append, length_labelBytes] at hlength
    rw [htake]
    omega
  · omega

/-- A payload that is cut off is missed. -/
theorem payloadLength_cut (c : Command) {t more : List Byte} (h : t ++ more = c.payload)
    (hmore : more ≠ []) : t.length < payloadLength c.opcode t := by
  have hlength := congrArg List.length h
  have hpos := List.length_pos_iff.mpr hmore
  rw [List.length_append] at hlength
  cases c with
  | beginRenderPass label => exact labelBytes_cut h hmore
  | pushDebugLabel label => exact labelBytes_cut h hmore
  | _ =>
      simp only [Command.payload, List.length_append, length_toBytes, List.length_nil] at hlength
      simp only [payloadLength, Command.opcode]
      omega

theorem take_four_packet (c : Command) (rest : List Byte) :
    (c.packet ++ rest).take 4 = toBytes 4 c.opcode.value := by
  rw [Command.packet, List.append_assoc]
  exact List.take_left' (length_toBytes 4 _)

theorem drop_four_packet (c : Command) (rest : List Byte) :
    (c.packet ++ rest).drop 4 = c.payload ++ rest := by
  rw [Command.packet, List.append_assoc]
  exact List.drop_left' (length_toBytes 4 _)

theorem ofRaw_packet (c : Command) (rest : List Byte) :
    CommandOpcode.ofRaw (ofBytes 32 ((c.packet ++ rest).take 4)) = some c.opcode := by
  rw [take_four_packet, ofBytes_toBytes 4 _ le_rfl, CommandOpcode.ofRaw_value]

theorem scan_packet (offset : ℕ) (c : Command) (rest : List Byte) :
    scan offset (c.packet ++ rest) =
      ((offset, c.opcode) :: (scan (offset + c.packet.length) rest).1,
        (scan (offset + c.packet.length) rest).2) := by
  have hlen : 4 ≤ (c.packet ++ rest).length := by
    rw [List.length_append, length_packet]
    omega
  rw [scan_of_opcode hlen (opcode_ne_end c) (ofRaw_packet c rest), drop_four_packet,
    payloadLength_append, if_pos (by rw [List.length_append]; omega), List.drop_left,
    length_packet, Nat.add_assoc]

/-- The packets of a list are found where they are. -/
theorem scan_commands (offset : ℕ) (cmds : List Command) (tail : List Byte) :
    scan offset (cmds.flatMap Command.packet ++ tail) =
      (packetsFrom offset cmds ++ (scan (offset + (cmds.flatMap Command.packet).length) tail).1,
        (scan (offset + (cmds.flatMap Command.packet).length) tail).2) := by
  induction cmds generalizing offset with
  | nil => rw [List.flatMap_nil, List.nil_append]; rfl
  | cons c cmds ih =>
      rw [List.flatMap_cons, List.append_assoc, scan_packet, ih, List.length_append,
        Nat.add_assoc]
      rfl

/-- A packet of which the opcode is there, but not everything. -/
theorem scan_cut (offset : ℕ) (c : Command) {t more : List Byte} (h : t ++ more = c.packet)
    (hmore : more ≠ []) (hlen : 4 ≤ t.length) : scan offset t = ([], true) := by
  have htake := take_four_packet c []
  rw [List.append_nil, ← h, List.take_append_of_le_length hlen] at htake
  have hdrop := drop_four_packet c []
  rw [List.append_nil, List.append_nil, ← h, List.drop_append_of_le_length hlen] at hdrop
  have hraw : CommandOpcode.ofRaw (ofBytes 32 (t.take 4)) = some c.opcode := by
    rw [htake, ofBytes_toBytes 4 _ le_rfl, CommandOpcode.ofRaw_value]
  rw [scan_of_opcode hlen (opcode_ne_end c) hraw,
    if_neg (Nat.not_le.mpr (payloadLength_cut c hdrop hmore))]

/-! ## One packet of any buffer -/

/-- Where the cursor is after fields of these sizes: one that does not fit is passed over. -/
def skim (sizes : List ℕ) (len offset : ℕ) : ℕ :=
  sizes.foldl (fun o n => if o + n ≤ len then o + n else o) offset

theorem skim_of_le {sizes : List ℕ} {len offset : ℕ} (h : offset + sizes.sum ≤ len) :
    skim sizes len offset = offset + sizes.sum := by
  induction sizes generalizing offset with
  | nil => rfl
  | cons n sizes ih =>
      rw [List.sum_cons] at h ⊢
      rw [skim, List.foldl_cons, if_pos (by omega)]
      exact (ih (by omega)).trans (Nat.add_assoc _ _ _)

/-- The run counts as before. -/
def SameCount (run run' : Run) : Prop := run'.count = run.count ∧ run'.executed = run.executed

/-- The computation reads fields of these sizes, whatever they hold. -/
def Skims (p : Reader Fault Run) (sizes : List ℕ) (run : Run) : Prop :=
  ∀ c, ∃ run', p c = .ok (run', { c with offset := skim sizes c.data.length c.offset }) ∧
    SameCount run run'

section Skimming

variable {run run' : Run} {sizes : List ℕ} {w : ℕ} {q : BitVec w → Reader Fault Run}

theorem skims_pure (h : SameCount run run') : Skims (pure run') [] run :=
  fun _ => ⟨run', rfl, h⟩

theorem skims_readVal (h : ∀ v, Skims (q v) sizes run) :
    Skims (readVal w >>= q) (w / 8 :: sizes) run := by
  intro c
  show ∃ run', (readVal w c >>= fun x => q x.1 x.2) = _ ∧ _
  rw [skim, List.foldl_cons]
  by_cases hfits : c.offset + w / 8 ≤ c.data.length
  · rw [readVal_of_le hfits, if_pos hfits]
    exact h _ { c with offset := c.offset + w / 8 }
  · rw [readVal_of_lt (by omega), if_neg hfits]
    exact h 0 c

theorem skims_ite {b : Bool} (h : SameCount run run') :
    SameCount run (if b then run' else run) := by
  cases b with
  | true => exact h
  | false => exact ⟨rfl, rfl⟩

end Skimming

/-- The sizes of the fields that are read one by one. -/
def fieldSizes : CommandOpcode → Option (List ℕ)
  | .Nop | .EndRenderPass | .PopDebugLabel | .End => some []
  | .SetRenderTarget => some [4, 8, 4, 4, 4, 4]
  | .SetDepthTarget => some [8, 4, 4, 4]
  | .ClearColor => some [4, 4, 4, 4, 4]
  | .ClearDepth => some [4, 4]
  | .DrawIndexed => some [4, 4, 4, 4, 4]
  | .DrawDirect => some [4, 4, 4, 4]
  | .Dispatch => some [4, 4, 4]
  | .BarrierTransition => some [8, 4, 4]
  | .WaitFence | .SignalFence => some [4]
  | .SetViewport | .SetScissor | .BeginRenderPass | .PushDebugLabel => none

theorem skims_processPacket (backend : Bool) (run : Run) {op : CommandOpcode} {sizes : List ℕ}
    (h : fieldSizes op = some sizes) : Skims (processPacket backend run op) sizes run := by
  have hsame : SameCount run run := ⟨rfl, rfl⟩
  cases op <;> cases h
  case Nop => exact skims_pure hsame
  case EndRenderPass => exact skims_pure hsame
  case PopDebugLabel => exact skims_pure hsame
  case End => exact skims_pure hsame
  case SetRenderTarget =>
    exact skims_readVal fun _ => skims_readVal fun _ => skims_readVal fun _ =>
      skims_readVal fun _ => skims_readVal fun _ => skims_readVal fun _ => skims_pure hsame
  case SetDepthTarget =>
    exact skims_readVal fun _ => skims_readVal fun _ => skims_readVal fun _ =>
      skims_readVal fun _ => skims_pure hsame
  case ClearColor =>
    exact skims_readVal fun _ => skims_readVal fun _ => skims_readVal fun _ =>
      skims_readVal fun _ => skims_readVal fun _ => skims_pure (skims_ite hsame)
  case ClearDepth =>
    exact skims_readVal fun _ => skims_readVal fun _ => skims_pure (skims_ite hsame)
  case DrawIndexed =>
    exact skims_readVal fun _ => skims_readVal fun _ => skims_readVal fun _ =>
      skims_readVal fun _ => skims_readVal fun _ => skims_pure hsame
  case DrawDirect =>
    exact skims_readVal fun _ => skims_readVal fun _ => skims_readVal fun _ =>
      skims_readVal fun _ => skims_pure hsame
  case Dispatch =>
    exact skims_readVal fun _ => skims_readVal fun _ => skims_readVal fun _ => skims_pure hsame
  case BarrierTransition =>
    exact skims_readVal fun _ => skims_readVal fun _ => skims_readVal fun _ => skims_pure hsame
  case WaitFence => exact skims_readVal fun _ => skims_pure hsame
  case SignalFence => exact skims_readVal fun _ => skims_pure hsame

/-- Fields that do not all fit leave less than four bytes. -/
def Tight (sizes : List ℕ) : Prop :=
  ∀ len offset, len < offset + sizes.sum → len < skim sizes len offset + 4

theorem le_skim (sizes : List ℕ) (len offset : ℕ) : offset ≤ skim sizes len offset := by
  induction sizes generalizing offset with
  | nil => exact le_rfl
  | cons n sizes ih =>
      rw [skim, List.foldl_cons]
      split_ifs
      · exact (Nat.le_add_right offset n).trans (ih _)
      · exact ih offset

theorem tight_nil : Tight [] := by
  intro len offset h
  rw [List.sum_nil] at h
  exact Nat.lt_add_right 4 h

theorem tight_four {sizes : List ℕ} (h : Tight sizes) : Tight (4 :: sizes) := by
  intro len offset hlt
  rw [List.sum_cons] at hlt
  have hle := le_skim sizes len offset
  rw [skim, List.foldl_cons]
  split_ifs with hfits
  · exact h len (offset + 4) (by omega)
  · rw [skim] at hle
    omega

/-- What a wide field passes over is enough for a narrow one. -/
theorem tight_eight {sizes : List ℕ} (h : Tight sizes) (hsum : 8 ≤ sizes.sum) :
    Tight (8 :: sizes) := by
  intro len offset hlt
  rw [List.sum_cons] at hlt
  rw [skim, List.foldl_cons]
  split_ifs with hfits
  · exact h len (offset + 8) (by omega)
  · exact h len offset (by omega)

theorem tight_fieldSizes {op : CommandOpcode} {sizes : List ℕ}
    (hop : fieldSizes op = some sizes) : Tight sizes := by
  have hone := tight_four tight_nil
  have htwo := tight_four hone
  have hthree := tight_four htwo
  have hfour := tight_four hthree
  cases op <;> cases hop
  case SetRenderTarget => exact tight_four (tight_eight hfour (by decide))
  case SetDepthTarget => exact tight_eight hthree (by decide)
  case BarrierTransition => exact tight_eight htwo (by decide)
  case ClearColor => exact tight_four hfour
  case DrawIndexed => exact tight_four hfour
  case DrawDirect => exact hfour
  case Dispatch => exact hthree
  case ClearDepth => exact htwo
  case WaitFence => exact hone
  case SignalFence => exact hone
  all_goals exact tight_nil

theorem payloadLength_fields {op : CommandOpcode} {sizes : List ℕ}
    (hop : fieldSizes op = some sizes) (bs : List Byte) : payloadLength op bs = sizes.sum := by
  cases op <;> cases hop <;> rfl

/-- What happens to a packet of which the opcode was read: with all of it there, the cursor
goes to its end, and else to where fewer than four bytes are left. -/
def Packet (p : Reader Fault Run) (run : Run) (op : CommandOpcode) : Prop :=
  ∀ c : Cursor, c.offset ≤ c.data.length → ∃ run' o, p c = .ok (run', { c with offset := o }) ∧
    SameCount run run' ∧
    (payloadLength op (c.data.drop c.offset) ≤ (c.data.drop c.offset).length →
      o = c.offset + payloadLength op (c.data.drop c.offset)) ∧
    ((c.data.drop c.offset).length < payloadLength op (c.data.drop c.offset) →
      c.data.length < o + 4)

theorem packet_fields {p : Reader Fault Run} {run : Run} {op : CommandOpcode} {sizes : List ℕ}
    (hop : fieldSizes op = some sizes) (h : Skims p sizes run) : Packet p run op := by
  intro c hc
  obtain ⟨run', hp, hsame⟩ := h c
  refine ⟨run', _, hp, hsame, ?_, ?_⟩
  · rw [payloadLength_fields hop, List.length_drop]
    intro hle
    exact skim_of_le (by omega)
  · rw [payloadLength_fields hop, List.length_drop]
    intro hlt
    exact tight_fieldSizes hop _ _ (by omega)

theorem packet_skip {run : Run} {op : CommandOpcode} {n : ℕ}
    (hn : ∀ bs, payloadLength op bs = n) :
    Packet (do skip n; pure run) run op := by
  intro c hc
  refine ⟨run, c.offset + n, rfl, ⟨rfl, rfl⟩, ?_, ?_⟩
  · intro _
    rw [hn]
  · rw [hn, List.length_drop]
    intro hlt
    omega

/-- A length, as many bytes as are available, and what is made of them. -/
theorem packet_label {run run' : Run} {op : CommandOpcode} {q : ℕ → Reader Fault Run}
    (hop : ∀ bs, payloadLength op bs = 4 + (ofBytes 32 (bs.take 4)).toNat)
    (hsame : SameCount run run')
    (hq : ∀ n c, c.offset + n ≤ c.data.length →
      q n c = .ok (run', { c with offset := c.offset + n })) :
    Packet (do let len ← readVal 32; let n ← fun c => .ok (available len c, c); q n) run op := by
  intro c hc
  have hrest : (c.data.drop c.offset).length = c.data.length - c.offset := List.length_drop
  show ∃ run' o, (readVal 32 c >>= fun x => q (available x.1 x.2) x.2) = _ ∧ _
  rw [hop, hrest]
  by_cases hfits : c.offset + 4 ≤ c.data.length
  · rw [readVal_of_le hfits]
    let len := ofBytes 32 ((c.data.drop c.offset).take 4)
    let c₁ : Cursor := { c with offset := c.offset + 4 }
    have havailable : available len c₁ = min len.toNat (c.data.length - (c.offset + 4)) := rfl
    refine ⟨run', c.offset + 4 + available len c₁, hq _ c₁ ?_, hsame, ?_, ?_⟩
    · show c.offset + 4 + available len c₁ ≤ c.data.length
      omega
    · intro hle
      show c.offset + 4 + available len c₁ = c.offset + (4 + len.toNat)
      have hle' : 4 + len.toNat ≤ c.data.length - c.offset := hle
      omega
    · intro hlt
      show c.data.length < c.offset + 4 + available len c₁ + 4
      have hlt' : c.data.length - c.offset < 4 + len.toNat := hlt
      omega
  · rw [readVal_of_lt (by omega)]
    have hnone : available 0 c = 0 := Nat.zero_min _
    refine ⟨run', c.offset, ?_, hsame, fun hle => ?_, fun _ => by omega⟩
    · show q (available 0 c) c = _
      rw [hnone]
      exact hq 0 c hc
    · omega

theorem packet_processPacket (backend : Bool) (run : Run) (op : CommandOpcode) :
    Packet (processPacket backend run op) run op := by
  cases hop : fieldSizes op with
  | some sizes => exact packet_fields hop (skims_processPacket backend run hop)
  | none =>
      cases op <;> cases hop
      · exact packet_skip fun _ => rfl
      · exact packet_skip fun _ => rfl
      · refine packet_label (fun _ => rfl) (⟨rfl, rfl⟩ : SameCount run run.countRenderPass) ?_
        intro n c hn
        show (deref n c >>= _) = _
        rw [deref, if_pos hn]
        rfl
      · exact packet_label (fun _ => rfl) ⟨rfl, rfl⟩ fun n c _ => rfl

/-! ## The loop over any buffer -/

/-- An opcode is unknown, or `End`, or that of a packet. -/
theorem ofRaw_cases (raw : U32) :
    CommandOpcode.ofRaw raw = none ∨ CommandOpcode.ofRaw raw = some .End ∨
      ∃ op, op ≠ .End ∧ CommandOpcode.ofRaw raw = some op := by
  cases hop : CommandOpcode.ofRaw raw with
  | none => exact .inl rfl
  | some op =>
      by_cases hend : op = .End
      · exact .inr (.inl (congrArg some hend))
      · exact .inr (.inr ⟨op, hend, rfl⟩)

/-- **The loop over any buffer.**  It ends, and has executed the complete packets, and one more
if the buffer is cut within its payload. -/
theorem processLoop_scan (backend : Bool) {fuel : ℕ} {run : Run} {c : Cursor}
    (hc : c.offset ≤ c.data.length) (hfuel : c.data.length < c.offset + 4 * fuel)
    (hpos : 0 < fuel) :
    ∃ run' c', processLoop backend fuel run c = .ok (run', c') ∧
      ((scan c.offset (c.data.drop c.offset)).2 = false →
        run'.executed = run.executed ++ (scan c.offset (c.data.drop c.offset)).1 ∧
        run'.count =
          run.count + BitVec.ofNat 32 (scan c.offset (c.data.drop c.offset)).1.length ∧
        c'.offset ≤ c.data.length) ∧
      ((scan c.offset (c.data.drop c.offset)).2 = true → ∃ extra,
        run'.executed = run.executed ++ (scan c.offset (c.data.drop c.offset)).1 ++ [extra]) := by
  induction fuel generalizing run c with
  | zero => exact absurd hpos (Nat.lt_irrefl 0)
  | succ fuel ih =>
      have hrest : (c.data.drop c.offset).length = c.data.length - c.offset := List.length_drop
      by_cases hfits : c.offset + 4 ≤ c.data.length
      · have hlen : 4 ≤ (c.data.drop c.offset).length := by omega
        let raw := ofBytes 32 ((c.data.drop c.offset).take 4)
        let c₁ : Cursor := { c with offset := c.offset + 4 }
        have hraw : readVal 32 c = .ok (raw, c₁) := readVal_of_le hfits
        rcases ofRaw_cases raw with hnone | hend | ⟨op, hne, hop⟩
        · -- An unknown opcode ends the loop, and so does `End`.
          rw [scan_of_stop hlen (.inl hnone)]
          refine ⟨run.countUnknown, c₁, processLoop_of_unknown hfits hraw hnone,
            fun _ => ⟨?_, ?_, hfits⟩, fun h => by cases h⟩
          · exact (List.append_nil _).symm
          · exact (BitVec.add_zero _).symm
        · rw [scan_of_stop hlen (.inr hend)]
          refine ⟨run, c₁, processLoop_of_end hfits hraw hend, fun _ => ⟨?_, ?_, hfits⟩,
            fun h => by cases h⟩
          · exact (List.append_nil _).symm
          · exact (BitVec.add_zero _).symm
        · obtain ⟨run₁, o, hp, ⟨hcount, hexecuted⟩, hall, hcut⟩ :=
            packet_processPacket backend run op c₁ hfits
          have hstep : processLoop backend (fuel + 1) run c =
              processLoop backend fuel (run₁.next c.offset op) { c₁ with offset := o } :=
            processLoop_of_packet hfits hraw hop hne hp
          have hdrop : (c.data.drop c.offset).drop 4 = c.data.drop (c.offset + 4) :=
            List.drop_drop
          rw [scan_of_opcode hlen hne hop, hdrop, hstep]
          simp only [c₁] at hall hcut
          have hlength : (c.data.drop (c.offset + 4)).length = c.data.length - (c.offset + 4) :=
            List.length_drop
          split_ifs with hn
          · -- The packet is complete, and the loop goes on behind it.
            have ho := hall hn
            rw [List.drop_drop, ← ho]
            have hin' : o ≤ c.data.length := by omega
            have hfuel' : c.data.length < o + 4 * fuel := by omega
            obtain ⟨run', c', hloop, huncut, hcut'⟩ :=
              @ih (run₁.next c.offset op) { c with offset := o } hin' hfuel' (by omega)
            refine ⟨run', c', hloop, fun h => ?_, fun h => ?_⟩
            · obtain ⟨hexec, hcnt, hin⟩ := huncut h
              refine ⟨?_, ?_, hin⟩
              · rw [hexec, Run.next, hexecuted, List.append_assoc, List.singleton_append]
              · rw [hcnt, Run.next, hcount, List.length_cons, Nat.add_comm, BitVec.ofNat_add,
                  BitVec.add_assoc]
                rfl
            · obtain ⟨extra, hexec⟩ := hcut' h
              refine ⟨extra, ?_⟩
              rw [hexec, Run.next, hexecuted]
              simp
          · -- It is cut, and nothing is left that the loop could read.
            have hleft := hcut (Nat.lt_of_not_le hn)
            obtain ⟨fuel', rfl⟩ : ∃ fuel', fuel = fuel' + 1 := ⟨fuel - 1, by omega⟩
            refine ⟨run₁.next c.offset op, { c with offset := o }, processLoop_of_short hleft,
              fun h => h.elim, fun _ => ⟨(c.offset, op), ?_⟩⟩
            rw [Run.next, hexecuted, List.append_nil]
      · -- Too few bytes are left for an opcode.
        rw [scan_of_short (by omega)]
        refine ⟨run, c, processLoop_of_short (by omega), fun _ => ⟨?_, ?_, hc⟩,
          fun h => by cases h⟩
        · exact (List.append_nil _).symm
        · exact (BitVec.add_zero _).symm

/-! ## Prefixes of built lists -/

/-- Two rows of commands of one list, the longest with packets in the first `n` bytes: what
comes behind, as far as it goes. -/
theorem LongestComplete.split {cmds done : List Command} {data : List Byte}
    (hdone : LongestComplete cmds done data.length) (h : data <+: (buildAll cmds []).finish) :
    ∃ tail, data = done.flatMap Command.packet ++ tail ∧
      (tail <+: toBytes 4 CommandOpcode.End.value ∨
        ∃ c : Command, ∃ more, tail ++ more = c.packet ∧ more ≠ []) := by
  obtain ⟨rest, rfl⟩ := hdone.isPrefix
  have hbytes : (buildAll (done ++ rest) []).finish = done.flatMap Command.packet ++
      (rest.flatMap Command.packet ++ toBytes 4 CommandOpcode.End.value) := by
    rw [CommandList.finish, CommandList.writeOpcode, CommandList.writeU32, buildAll_eq,
      List.nil_append, List.flatMap_append, List.append_assoc]
  have hfits := hdone.fits
  rw [buildAll_eq, List.nil_append] at hfits
  rw [hbytes] at h
  obtain ⟨tail, rfl⟩ : done.flatMap Command.packet <+: data :=
    List.prefix_of_prefix_length_le (List.prefix_append _ _) h hfits
  refine ⟨tail, rfl, ?_⟩
  rw [List.prefix_append_right_inj] at h
  cases rest with
  | nil =>
      left
      exact h
  | cons c rest =>
      right
      -- The next packet does not fit any more.
      have hnext : ¬ c.packet.length ≤ tail.length := by
        intro hle
        have hlonger := hdone.longest (done ++ [c]) ⟨rest, by simp⟩ (by
          rw [buildAll_eq, List.nil_append, List.flatMap_append, List.flatMap_singleton,
            List.length_append, List.length_append]
          omega)
        rw [List.length_append, List.length_singleton] at hlonger
        omega
      rw [List.flatMap_cons, List.append_assoc] at h
      obtain ⟨more, hmore⟩ : tail <+: c.packet :=
        List.prefix_of_prefix_length_le h (List.prefix_append _ _) (by omega)
      refine ⟨c, more, hmore, fun hnil => hnext ?_⟩
      rw [← hmore, hnil, List.append_nil]

/-- Behind the last complete packet of a list that is not cut in a payload, the loop ends. -/
theorem processLoop_tail {tail : List Byte} (offset : ℕ) (huncut : (scan offset tail).2 = false)
    (htail : tail <+: toBytes 4 CommandOpcode.End.value ∨
      ∃ c : Command, ∃ more, tail ++ more = c.packet ∧ more ≠ []) :
    ∃ k, ∀ (backend : Bool) (fuel : ℕ) (run : Run) (pre : List Byte),
      processLoop backend (fuel + 1) run ⟨pre ++ tail, pre.length⟩ =
        .ok (run, ⟨pre ++ tail, pre.length + k⟩) := by
  by_cases hshort : tail.length < 4
  · refine ⟨0, fun backend fuel run pre => processLoop_of_short ?_⟩
    show (pre ++ tail).length < pre.length + 4
    rw [List.length_append]
    omega
  · rcases htail with hend | ⟨c, more, hmore, hne⟩
    · have hall : tail = toBytes 4 CommandOpcode.End.value := by
        refine hend.eq_of_length_le ?_
        rw [length_toBytes]
        omega
      rw [hall]
      exact ⟨4, processLoop_end⟩
    · rw [scan_cut offset c hmore hne (by omega)] at huncut
      cases huncut

/-- What a prefix of a list that was built comes to. -/
theorem process_prefix (st : CpState) {cmds done : List Command} {data : List Byte}
    (hne : data ≠ []) (huncut : ¬ CutInPayload data) (h : data <+: (buildAll cmds []).finish)
    (hdone : LongestComplete cmds done data.length) : ∃ c,
    process st data = .ok ((Run.after st.backend 0 done { stats := st.stats }).outcome st c) := by
  obtain ⟨tail, rfl, htail⟩ := hdone.split h
  rw [CutInPayload, scan_commands, Bool.not_eq_true] at huncut
  obtain ⟨k, hk⟩ := processLoop_tail _ huncut htail
  exact ⟨_, process_commands st done hne (hk st.backend)⟩

/-- **Truncated command lists.**  `Process` returns for every buffer and never reads outside
it; it stays inside, and executes and counts what is complete and nothing else, exactly if the
buffer does not end within the payload of a packet. -/
theorem onlyComplete_iff (st : CpState) (data : List Byte) :
    ∃ out, process st data = .ok out ∧ (OnlyComplete st data out ↔ ¬ CutInPayload data) := by
  by_cases hnil : data = []
  · subst hnil
    -- No bytes: nothing is run.
    have hscan : scan 0 [] = ([], false) := scan_of_short (by simp)
    refine ⟨{ state := st }, rfl, fun _ hcut => ?_, fun _ => ⟨le_rfl, ?_, ?_, ?_⟩⟩
    · rw [CutInPayload, hscan] at hcut
      cases hcut
    · rw [completePackets, hscan]
    · rw [completePackets, hscan]
      rfl
    · intro cmds done _ hdone
      have hfits := hdone.fits
      have hlength := length_packets done
      rw [buildAll_eq, List.nil_append, List.length_nil] at hfits
      have hdone' : done = [] := List.length_eq_zero_iff.mp (by omega)
      rw [hdone']
      exact ⟨rfl, rfl, rfl⟩
  · have hfuel : data.length < 0 + 4 * (data.length / 4 + 1) := by omega
    obtain ⟨run, c, hloop, huncut, hcut⟩ := @processLoop_scan st.backend (data.length / 4 + 1)
      { stats := st.stats } ⟨data, 0⟩ (Nat.zero_le _) hfuel (Nat.succ_pos _)
    have hprocess : process st data = .ok (run.outcome st c) := by
      rw [process, if_neg hnil, hloop]
      rfl
    refine ⟨_, hprocess, fun h hcutAt => ?_, fun hnot => ?_⟩
    · -- One packet more was executed than is complete.
      obtain ⟨extra, hextra⟩ := hcut hcutAt
      have hexecuted : run.executed = completePackets data := h.executed
      rw [hexecuted, List.nil_append] at hextra
      have hlength := congrArg List.length hextra
      rw [List.length_append, List.length_singleton] at hlength
      exact absurd hlength (Nat.ne_of_lt (Nat.lt_succ_self _))
    · have huncut' := huncut (by rwa [CutInPayload, Bool.not_eq_true] at hnot)
      obtain ⟨hexecuted, hcount, hinside⟩ := huncut'
      refine ⟨hinside, ?_, ?_, fun cmds done hprefix hdone => ?_⟩
      · exact hexecuted.trans (List.nil_append _)
      · exact hcount.trans (BitVec.zero_add _)
      · obtain ⟨c', hprocess'⟩ := process_prefix st hnil hnot hprefix hdone
        rw [hprocess] at hprocess'
        rw [Except.ok.inj hprocess', if_neg hnil]
        refine ⟨BitVec.zero_add _, List.nil_append _, ?_⟩
        have hzero : (0 : U32) + BitVec.ofNat 32 done.length = BitVec.ofNat 32 done.length :=
          BitVec.zero_add _
        show finishStats (0 + BitVec.ofNat 32 done.length) _ = _
        rw [hzero]
        rfl

/-- An opcode alone: `SetViewport` counts, and takes the cursor 24 bytes out of the buffer. -/
theorem not_onlyComplete_loneOpcode : ∃ out,
    process {} (toBytes 4 CommandOpcode.SetViewport.value) = .ok out ∧
      toBytes 4 CommandOpcode.SetViewport.value <+:
        (buildAll [.setViewport ⟨0, 0, 1, 1, 0, 1⟩] []).finish ∧
      ¬ OnlyComplete {} (toBytes 4 CommandOpcode.SetViewport.value) out := by
  refine ⟨_, rfl, by decide, fun h => ?_⟩
  exact absurd h.inside (by decide)

end CommandProcessor
