/-
# The ring buffer of an audio port

`RingBuffer` of `Audio.cpp`, with the words it computes on and every `memcpy` checked against the
storage.  It refines a queue of bytes.
-/
import ChuckStation.Bytes
import ChuckStation.CircularBuffers
import ChuckStation.OperationRuns

namespace Audio

open CircularBuffers OperationRuns

/-! ## The ring buffer -/

/-- `struct RingBuffer`. -/
structure RingBuffer where
  data : List Byte
  readPos : U64 := 0
  writePos : U64 := 0
  used : U64 := 0
  deriving DecidableEq, Repr

/-- A copy that leaves the storage. -/
inductive Undefined where
  | outOfBounds
  deriving DecidableEq, Repr

/-- `std::min`. -/
def sizeMin (a b : U64) : U64 := if b < a then b else a

/-- `memcpy` into the storage. -/
def copyIn (data : List Byte) (pos : U64) (src : List Byte) : Except Undefined (List Byte) :=
  if pos.toNat + src.length ≤ data.length then .ok (put data pos.toNat src)
  else .error .outOfBounds

/-- `memcpy` out of the storage. -/
def copyOut (data : List Byte) (pos bytes : U64) : Except Undefined (List Byte) :=
  if pos.toNat + bytes.toNat ≤ data.length then .ok ((data.drop pos.toNat).take bytes.toNat)
  else .error .outOfBounds

/-- The `bytes` bytes from `s + pos` on. -/
def bytesAt (s : ℕ → Byte) (pos bytes : U64) : List Byte :=
  (List.range bytes.toNat).map fun i => s (pos.toNat + i)

namespace RingBuffer

/-- The constructor; a `std::vector` of more than `max_size()` bytes throws. -/
def new (capacity : U64) : Option RingBuffer :=
  if capacity.toNat ≤ 2 ^ 63 - 1 then some { data := List.replicate capacity.toNat 0 } else none

variable (rb : RingBuffer)

/-- `Capacity`. -/
def capacity : U64 := BitVec.ofNat 64 rb.data.length

/-- `Free`. -/
def free : U64 := rb.capacity - rb.used

/-- `Write` of the bytes that `s` points at. -/
def write (s : ℕ → Byte) (bytes : U64) : Except Undefined (Bool × RingBuffer) := do
  if rb.free < bytes then .ok (false, rb)
  else
    let cap := rb.capacity
    let first := sizeMin bytes (cap - rb.writePos)
    let data ← copyIn rb.data rb.writePos (bytesAt s 0 first)
    let data ← (if first < bytes then copyIn data 0 (bytesAt s first (bytes - first))
      else .ok data)
    .ok (true, { rb with
      data := data, writePos := (rb.writePos + bytes) % cap, used := rb.used + bytes })

/-- `Read`: the bytes read, as many as it returns. -/
def read (bytes : U64) : Except Undefined (List Byte × RingBuffer) := do
  let toRead := sizeMin bytes rb.used
  let cap := rb.capacity
  let first := sizeMin toRead (cap - rb.readPos)
  let head ← copyOut rb.data rb.readPos first
  let tail ← (if first < toRead then copyOut rb.data 0 (toRead - first) else .ok [])
  .ok (head ++ tail, { rb with
    readPos := (rb.readPos + toRead) % cap, used := rb.used - toRead })

/-- `Clear`. -/
def clear : RingBuffer := { rb with readPos := 0, writePos := 0, used := 0 }

/-- The bytes that are waiting to be read. -/
def queued : List Byte := contents rb.data rb.readPos.toNat rb.used.toNat

/-- The representation: the queue lies between the positions, around the end. -/
structure WellFormed (cap : U64) : Prop where
  capacity : rb.data.length = cap.toNat
  small : cap.toNat < 2 ^ 63
  used : rb.used.toNat ≤ cap.toNat
  readPos : rb.readPos.toNat < cap.toNat
  writePos : rb.writePos.toNat = (rb.readPos.toNat + rb.used.toNat) % cap.toNat

end RingBuffer

/-! ## Words as numbers -/

theorem toNat_sizeMin (a b : U64) : (sizeMin a b).toNat = min a.toNat b.toNat := by
  rw [sizeMin]
  split_ifs with h
  · rw [min_eq_right (BitVec.lt_def.mp h).le]
  · rw [min_eq_left (by rw [BitVec.lt_def] at h; omega)]

theorem length_bytesAt (s : ℕ → Byte) (pos bytes : U64) :
    (bytesAt s pos bytes).length = bytes.toNat := by
  rw [bytesAt, List.length_map, List.length_range]

/-- The first bytes. -/
theorem take_bytesAt (s : ℕ → Byte) {first bytes : U64} (h : first.toNat ≤ bytes.toNat) :
    (bytesAt s 0 bytes).take first.toNat = bytesAt s 0 first := by
  rw [bytesAt, bytesAt, ← List.map_take, List.take_range, min_eq_left h]

/-- The others behind them. -/
theorem drop_bytesAt (s : ℕ → Byte) {first bytes : U64} (h : first.toNat ≤ bytes.toNat) :
    (bytesAt s 0 bytes).drop first.toNat = bytesAt s first (bytes - first) := by
  have hrest : (bytes - first).toNat = bytes.toNat - first.toNat := BitVec.toNat_sub_of_le h
  apply List.ext_getElem
  · rw [List.length_drop, length_bytesAt, length_bytesAt, hrest]
  · intro i _ _
    simp [bytesAt]

/-! ## What the calls do -/

namespace RingBuffer

variable {rb : RingBuffer} {cap : U64}

theorem WellFormed.capacity_eq (h : rb.WellFormed cap) : rb.capacity = cap := by
  rw [RingBuffer.capacity, h.capacity, BitVec.ofNat_toNat, BitVec.setWidth_eq]

theorem WellFormed.toNat_free (h : rb.WellFormed cap) :
    rb.free.toNat = cap.toNat - rb.used.toNat := by
  rw [free, h.capacity_eq]
  exact BitVec.toNat_sub_of_le h.used

theorem WellFormed.writePos_lt (h : rb.WellFormed cap) : rb.writePos.toNat < cap.toNat := by
  rw [h.writePos]
  exact Nat.mod_lt _ (Nat.zero_lt_of_lt h.readPos)

theorem WellFormed.length_queued (h : rb.WellFormed cap) :
    rb.queued.length = rb.used.toNat :=
  length_contents (h.capacity ▸ h.used)

/-- A position goes on around the end, without an overflow before. -/
theorem WellFormed.toNat_advance (h : rb.WellFormed cap) {pos n : U64}
    (hpos : pos.toNat < cap.toNat) (hn : n.toNat ≤ cap.toNat) :
    ((pos + n) % rb.capacity).toNat = (pos.toNat + n.toNat) % cap.toNat := by
  have hsmall := h.small
  rw [h.capacity_eq, BitVec.toNat_umod, BitVec.toNat_add,
    Nat.mod_eq_of_lt (show pos.toNat + n.toNat < 2 ^ 64 by omega)]

/-- `Write` of more than is free. -/
theorem write_of_full (s : ℕ → Byte) {bytes : U64} (hfull : rb.free < bytes) :
    rb.write s bytes = .ok (false, rb) := by
  rw [write, if_pos hfull]

/-- **`Write`** of what fits: both copies stay in the storage. -/
theorem WellFormed.write_eq (h : rb.WellFormed cap) (s : ℕ → Byte) {bytes : U64}
    (hfit : bytes.toNat ≤ rb.free.toNat) :
    rb.write s bytes = .ok (true,
      { rb with
        data := putAround rb.data rb.writePos.toNat (bytesAt s 0 bytes)
        writePos := (rb.writePos + bytes) % rb.capacity
        used := rb.used + bytes }) := by
  have hpos := h.writePos_lt
  have hfree := h.toNat_free
  have hlen := h.capacity
  have hrest : (cap - rb.writePos).toNat = cap.toNat - rb.writePos.toNat :=
    BitVec.toNat_sub_of_le (BitVec.le_def.mpr hpos.le)
  obtain ⟨first, hfirst⟩ : ∃ first, first = sizeMin bytes (cap - rb.writePos) := ⟨_, rfl⟩
  have hmin : first.toNat = min bytes.toNat (rb.data.length - rb.writePos.toNat) := by
    rw [hfirst, toNat_sizeMin, hrest, hlen]
  have hle : first.toNat ≤ bytes.toNat := by omega
  have hhead : copyIn rb.data rb.writePos (bytesAt s 0 first) =
      .ok (put rb.data rb.writePos.toNat (bytesAt s 0 first)) := by
    rw [copyIn, if_pos (by rw [length_bytesAt]; omega)]
  have hput : (put rb.data rb.writePos.toNat (bytesAt s 0 first)).length = rb.data.length :=
    length_put (by rw [length_bytesAt]; omega)
  have htail : (if first < bytes then
      copyIn (put rb.data rb.writePos.toNat (bytesAt s 0 first)) 0 (bytesAt s first (bytes - first))
      else .ok (put rb.data rb.writePos.toNat (bytesAt s 0 first))) =
      .ok (putAround rb.data rb.writePos.toNat (bytesAt s 0 bytes)) := by
    rw [putAround, length_bytesAt, ← hmin, take_bytesAt s hle, drop_bytesAt s hle]
    split_ifs with hmore
    · rw [copyIn, if_pos]
      · rfl
      · rw [length_bytesAt, hput, BitVec.toNat_sub_of_le hle]
        show 0 + _ ≤ _
        omega
    · have hall : first = bytes := by
        apply BitVec.eq_of_toNat_eq
        rw [BitVec.lt_def] at hmore
        omega
      rw [hall, BitVec.sub_self]
      exact congrArg Except.ok (put_nil _ 0).symm
  rw [write, if_neg (by rw [BitVec.lt_def]; omega), h.capacity_eq]
  dsimp only
  rw [← hfirst, hhead, ok_bind, htail, ok_bind]

/-- **`Read`** gives out what has waited longest: both copies stay in the storage. -/
theorem WellFormed.read_eq (h : rb.WellFormed cap) (bytes : U64) :
    rb.read bytes = .ok (rb.queued.take bytes.toNat,
      { rb with
        readPos := (rb.readPos + sizeMin bytes rb.used) % rb.capacity
        used := rb.used - sizeMin bytes rb.used }) := by
  have hpos := h.readPos
  have hused := h.used
  have hlen := h.capacity
  have hrest : (cap - rb.readPos).toNat = cap.toNat - rb.readPos.toNat :=
    BitVec.toNat_sub_of_le (BitVec.le_def.mpr hpos.le)
  have htoRead := toNat_sizeMin bytes rb.used
  generalize hgen : sizeMin bytes rb.used = toRead at htoRead
  obtain ⟨first, hfirst⟩ : ∃ first, first = sizeMin toRead (cap - rb.readPos) := ⟨_, rfl⟩
  have hmin : first.toNat = min toRead.toNat (rb.data.length - rb.readPos.toNat) := by
    rw [hfirst, toNat_sizeMin, hrest, hlen]
  have hle : first.toNat ≤ toRead.toNat := by omega
  have hhead : copyOut rb.data rb.readPos first =
      .ok ((rb.data.drop rb.readPos.toNat).take first.toNat) := by
    rw [copyOut, if_pos (by omega)]
  have htail : (if first < toRead then copyOut rb.data 0 (toRead - first) else .ok []) =
      .ok (rb.data.take (toRead.toNat - first.toNat)) := by
    split_ifs with hmore
    · rw [copyOut, BitVec.toNat_sub_of_le hle, if_pos]
      · rfl
      · show 0 + _ ≤ _
        omega
    · rw [BitVec.lt_def] at hmore
      rw [Nat.sub_eq_zero_of_le (by omega), List.take_zero]
  have hout : (rb.data.drop rb.readPos.toNat).take first.toNat ++
      rb.data.take (toRead.toNat - first.toNat) = rb.queued.take bytes.toNat := by
    have hget := getAround_eq (show rb.readPos.toNat ≤ rb.data.length by omega)
      (show toRead.toNat ≤ rb.data.length by omega)
    rw [getAround, ← hmin] at hget
    rw [hget, ← take_contents (show toRead.toNat ≤ rb.used.toNat by omega), ← queued, htoRead,
      ← List.take_take, List.take_of_length_le (Nat.le_of_eq h.length_queued)]
  rw [read, hgen, h.capacity_eq, ← hfirst, hhead, ok_bind, htail, ok_bind, hout]

/-! ## The invariant -/

theorem wellFormed_new {capacity : U64} (hcap : 0 < capacity) (h : new capacity = some rb) :
    rb.WellFormed capacity ∧ rb.queued = [] := by
  rw [new] at h
  split_ifs at h with hmax
  rw [← Option.some.inj h]
  have hpos : 0 < capacity.toNat := BitVec.lt_def.mp hcap
  exact ⟨⟨List.length_replicate, by omega, Nat.zero_le _, hpos, (Nat.zero_mod _).symm⟩, rfl⟩

theorem WellFormed.clear (h : rb.WellFormed cap) :
    rb.clear.WellFormed cap ∧ rb.clear.queued = [] :=
  ⟨⟨h.capacity, h.small, Nat.zero_le _, Nat.zero_lt_of_lt h.readPos, (Nat.zero_mod _).symm⟩, rfl⟩

/-- What fits is queued behind. -/
theorem WellFormed.write (h : rb.WellFormed cap) (s : ℕ → Byte) {bytes : U64}
    (hfit : bytes.toNat ≤ rb.free.toNat) :
    ∃ rb', rb.write s bytes = .ok (true, rb') ∧ rb'.WellFormed cap ∧
      rb'.queued = rb.queued ++ bytesAt s 0 bytes := by
  have hpos := h.writePos_lt
  have hfree := h.toNat_free
  have hlen := h.capacity
  have hsmall := h.small
  have hused := h.used
  have hsum : (rb.used + bytes).toNat = rb.used.toNat + bytes.toNat :=
    BitVec.toNat_add_of_lt (by omega)
  have hsrc := length_bytesAt s 0 bytes
  refine ⟨_, h.write_eq s hfit, ⟨?_, hsmall, ?_, h.readPos, ?_⟩, ?_⟩
  · exact (length_putAround (by omega) (by omega)).trans hlen
  · show (rb.used + bytes).toNat ≤ cap.toNat
    omega
  · show ((rb.writePos + bytes) % rb.capacity).toNat =
      (rb.readPos.toNat + (rb.used + bytes).toNat) % cap.toNat
    rw [h.toNat_advance hpos (by omega), h.writePos, Nat.mod_add_mod, hsum, Nat.add_assoc]
  · show contents (putAround rb.data rb.writePos.toNat _) rb.readPos.toNat
      (rb.used + bytes).toNat = _
    rw [h.writePos, hsum, ← hlen, ← hsrc, contents_putAround (by omega)]
    rfl

/-- What is read is gone from the front. -/
theorem WellFormed.read (h : rb.WellFormed cap) (bytes : U64) :
    ∃ rb', rb.read bytes = .ok (rb.queued.take bytes.toNat, rb') ∧ rb'.WellFormed cap ∧
      rb'.queued = rb.queued.drop bytes.toNat := by
  have hpos := h.readPos
  have hused := h.used
  have hlen := h.capacity
  have htoRead := toNat_sizeMin bytes rb.used
  have hrest : (rb.used - sizeMin bytes rb.used).toNat =
      rb.used.toNat - (sizeMin bytes rb.used).toNat :=
    BitVec.toNat_sub_of_le (BitVec.le_def.mpr (by omega))
  have hnext := h.toNat_advance hpos (show (sizeMin bytes rb.used).toNat ≤ cap.toNat by omega)
  refine ⟨_, h.read_eq bytes, ⟨hlen, h.small, ?_, ?_, ?_⟩, ?_⟩
  · show (rb.used - sizeMin bytes rb.used).toNat ≤ cap.toNat
    omega
  · show ((rb.readPos + sizeMin bytes rb.used) % rb.capacity).toNat < cap.toNat
    rw [hnext]
    exact Nat.mod_lt _ (Nat.zero_lt_of_lt hpos)
  · show rb.writePos.toNat = (((rb.readPos + sizeMin bytes rb.used) % rb.capacity).toNat +
      (rb.used - sizeMin bytes rb.used).toNat) % cap.toNat
    rw [hnext, hrest, Nat.mod_add_mod, h.writePos]
    congr 1
    omega
  · show contents rb.data ((rb.readPos + sizeMin bytes rb.used) % rb.capacity).toNat
      (rb.used - sizeMin bytes rb.used).toNat = _
    rw [hnext, hrest, ← hlen, contents_advance (by omega) (by omega), htoRead, ← queued]
    by_cases hall : bytes.toNat ≤ rb.used.toNat
    · rw [min_eq_left hall]
    · have hqueued := h.length_queued
      rw [min_eq_right (by omega), List.drop_of_length_le (by omega),
        List.drop_of_length_le (by omega)]

end RingBuffer

/-! ## Runs -/

inductive Op where
  | write (s : ℕ → Byte) (bytes : U64)
  | read (bytes : U64)
  | clear

/-- A ring buffer, with the bytes that were accepted and those that were returned since the last
`Clear`. -/
structure Played where
  rb : RingBuffer
  accepted : List Byte := []
  returned : List Byte := []

def step (p : Played) : Op → Except Undefined Played
  | .write s bytes => do
    let (written, rb) ← p.rb.write s bytes
    .ok { p with
      rb := rb, accepted := if written then p.accepted ++ bytesAt s 0 bytes else p.accepted }
  | .read bytes => do
    let (out, rb) ← p.rb.read bytes
    .ok { p with rb := rb, returned := p.returned ++ out }
  | .clear => .ok { rb := p.rb.clear }

/-- What is expected of the ring buffer, after any calls. -/
structure IsQueue (cap : U64) (p : Played) : Prop where
  wellFormed : p.rb.WellFormed cap
  order : p.returned ++ p.rb.queued = p.accepted
  free : p.rb.free.toNat = cap.toNat - p.rb.used.toNat
  write : ∀ s bytes, ∃ written rb, p.rb.write s bytes = .ok (written, rb) ∧
    (written = true ↔ bytes ≤ p.rb.free) ∧ (written = false → rb = p.rb)
  read : ∀ bytes, ∃ out rb, p.rb.read bytes = .ok (out, rb) ∧
    out.length = min bytes.toNat p.rb.used.toNat

/-- The order of the bytes, by which the rest is kept too. -/
structure Queued (cap : U64) (p : Played) : Prop where
  wellFormed : p.rb.WellFormed cap
  order : p.returned ++ p.rb.queued = p.accepted

section Runs

variable {cap : U64} {p : Played}

theorem Queued.isQueue (h : Queued cap p) : IsQueue cap p := by
  refine ⟨h.wellFormed, h.order, h.wellFormed.toNat_free, fun s bytes => ?_, fun bytes => ?_⟩
  · by_cases hfull : p.rb.free < bytes
    · refine ⟨false, p.rb, RingBuffer.write_of_full s hfull, ?_, fun _ => rfl⟩
      rw [BitVec.le_def]
      rw [BitVec.lt_def] at hfull
      exact iff_of_false Bool.false_ne_true (by omega)
    · have hfit : bytes.toNat ≤ p.rb.free.toNat := by
        rw [BitVec.lt_def] at hfull
        omega
      obtain ⟨rb, hwrite, -⟩ := h.wellFormed.write s hfit
      exact ⟨true, rb, hwrite, iff_of_true rfl hfit, fun hnot => by cases hnot⟩
  · obtain ⟨rb, hread, -⟩ := h.wellFormed.read bytes
    refine ⟨_, rb, hread, ?_⟩
    rw [List.length_take, h.wellFormed.length_queued]

/-- **One call** of a ring buffer that is well formed. -/
theorem Queued.step (h : Queued cap p) (op : Op) : ∃ p', step p op = .ok p' ∧ Queued cap p' := by
  cases op with
  | write s bytes =>
      by_cases hfull : p.rb.free < bytes
      · refine ⟨p, ?_, h⟩
        rw [Audio.step, RingBuffer.write_of_full s hfull]
        rfl
      · have hfit : bytes.toNat ≤ p.rb.free.toNat := by
          rw [BitVec.lt_def] at hfull
          omega
        obtain ⟨rb, hwrite, hrb, hqueued⟩ := h.wellFormed.write s hfit
        refine ⟨{ p with rb := rb, accepted := p.accepted ++ bytesAt s 0 bytes }, ?_, hrb, ?_⟩
        · rw [Audio.step, hwrite]
          rfl
        · show p.returned ++ rb.queued = p.accepted ++ bytesAt s 0 bytes
          rw [hqueued, ← List.append_assoc, h.order]
  | read bytes =>
      obtain ⟨rb, hread, hrb, hqueued⟩ := h.wellFormed.read bytes
      refine ⟨{ p with rb := rb, returned := p.returned ++ p.rb.queued.take bytes.toNat }, ?_, hrb,
        ?_⟩
      · rw [Audio.step, hread]
        rfl
      · show (p.returned ++ p.rb.queued.take bytes.toNat) ++ rb.queued = p.accepted
        rw [hqueued, List.append_assoc, List.take_append_drop, h.order]
  | clear =>
      obtain ⟨hrb, hqueued⟩ := h.wellFormed.clear
      exact ⟨{ rb := p.rb.clear }, rfl, hrb, hqueued⟩

theorem Queued.run (h : Queued cap p) (ops : List Op) :
    ∃ p', ops.foldlM Audio.step p = .ok p' ∧ Queued cap p' := by
  induction ops generalizing p with
  | nil => exact ⟨p, rfl, h⟩
  | cons op ops ih =>
      obtain ⟨q, hstep, hq⟩ := h.step op
      obtain ⟨p', hrun, hp'⟩ := ih hq
      refine ⟨p', ?_, hp'⟩
      rw [List.foldlM_cons, hstep, ok_bind, hrun]

end Runs

/-- **The audio ring buffer is a queue**: after any calls, each of which stays in the storage. -/
theorem ring_isQueue {capacity : U64} {rb : RingBuffer} (hcap : 0 < capacity)
    (hnew : RingBuffer.new capacity = some rb) (ops : List Op) :
    ∃ p, ops.foldlM step { rb := rb } = .ok p ∧ IsQueue capacity p := by
  obtain ⟨hrb, hqueued⟩ := RingBuffer.wellFormed_new hcap hnew
  have hfresh : Queued capacity { rb := rb } := ⟨hrb, hqueued⟩
  obtain ⟨p, hrun, hp⟩ := hfresh.run ops
  exact ⟨p, hrun, hp.isQueue⟩

/-- Three bytes of room: the second write goes around the end. -/
theorem ring_isQueue_three :
    ∃ p, [.write (fun _ => 1) 2, .read 1, .write (fun _ => 2) 2, .read 5, .clear].foldlM step
      { rb := { data := [0, 0, 0] } } = .ok p ∧ IsQueue 3 p :=
  ring_isQueue (by decide) (by decide) _

end Audio
