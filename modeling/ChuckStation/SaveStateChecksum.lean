/-
# The checksum of a save file

`Crc32` by its table is the reflected CRC-32 bit by bit, and one byte of the payload changed is
one checksum changed: the register comes to the byte in the same state, leaves it in another, and
no later byte brings the two together.
-/
import ChuckStation.ReflectedCrc
import ChuckStation.SaveStateAtomic

namespace SaveState

open BinaryFormats ReflectedCrc

/-! ## Bit by bit -/

/-- The polynomial of CRC-32, its low end on the left. -/
abbrev polynomial : U32 := 0xEDB88320

/-- The bits of a message, each byte from its low end. -/
def bitsOf (data : List Byte) : List Bool := data.flatMap fun b => lowBits 8 b

/-- CRC-32 as it is defined: the register starts and ends complemented. -/
def crc32Bitwise (data : List Byte) : U32 :=
  register polynomial 0xFFFFFFFF (bitsOf data) ^^^ 0xFFFFFFFF

/-- What `Crc32` does with a byte. -/
def crcByte (crc : U32) (b : Byte) : U32 :=
  crcTable ((crc ^^^ b.setWidth 32) &&& 0xFF) ^^^ (crc >>> 8)

theorem crc32_eq_foldl (data : List Byte) :
    crc32 data = data.foldl crcByte 0xFFFFFFFF ^^^ 0xFFFFFFFF := rfl

/-! ## A byte -/

theorem and_one_ne_zero_iff (c : U32) : c &&& 1 ≠ 0 ↔ c.getLsbD 0 = true := by
  have hand : c &&& 1 = BitVec.setWidth 32 (BitVec.ofBool (c.getLsbD 0)) :=
    BitVec.and_one_eq_setWidth_ofBool_getLsbD
  rw [hand]
  cases c.getLsbD 0 <;> decide

/-- An entry of the table is eight shifts of its index. -/
theorem crcTable_eq (i : U32) : crcTable i = (shift polynomial)^[8] i := by
  have hstep : ∀ c : U32, (if c &&& 1 ≠ 0 then 0xEDB88320 ^^^ (c >>> 1) else c >>> 1) =
      shift polynomial c := by
    intro c
    rw [shift]
    exact if_congr (and_one_ne_zero_iff c) rfl rfl
  unfold crcTable
  simp only [hstep]
  rw [List.foldl_const, List.length_range]

theorem byte_ushiftRight (b : Byte) : b.setWidth 32 >>> 8 = 0#32 := by
  apply BitVec.eq_of_getLsbD_eq
  intro i _
  simp

/-- **The step by the table** is eight shifts of the register with the byte in it. -/
theorem crcByte_eq (crc : U32) (b : Byte) :
    crcByte crc b = (shift polynomial)^[8] (crc ^^^ b.setWidth 32) := by
  have hmask : ∀ i, (0xFF : U32).getLsbD i = (decide (i < 32) && decide (i < 8)) := by
    intro i
    by_cases hi : i < 32
    · interval_cases i <;> rfl
    · rw [BitVec.getLsbD_of_ge _ _ (by omega), decide_eq_false hi, Bool.false_and]
  rw [iterate_shift_eq polynomial hmask, crcByte, crcTable_eq, BitVec.ushiftRight_xor_distrib,
    byte_ushiftRight, BitVec.xor_zero]

/-- The eight bits of a byte in a row. -/
theorem register_byte (crc : U32) (b : Byte) :
    register polynomial crc (lowBits 8 b) = crcByte crc b := by
  have hwide : lowBits 8 b = lowBits 8 (b.setWidth 32) := by
    apply List.map_congr_left
    intro i hi
    rw [BitVec.getLsbD_setWidth, decide_eq_true (by have := List.mem_range.mp hi; omega),
      Bool.true_and]
  rw [hwide, register_lowBits polynomial (byte_ushiftRight b), crcByte_eq]

/-! ## A message -/

theorem register_bitsOf (data : List Byte) (crc : U32) :
    register polynomial crc (bitsOf data) = data.foldl crcByte crc := by
  induction data generalizing crc with
  | nil => rfl
  | cons b data ih =>
      calc register polynomial crc (bitsOf (b :: data))
          = register polynomial (register polynomial crc (lowBits 8 b)) (bitsOf data) := by
            rw [bitsOf, List.flatMap_cons, register, List.foldl_append]
            rfl
        _ = data.foldl crcByte (crcByte crc b) := by rw [register_byte, ih]

/-! ## One byte -/

theorem crcShifts_injective : Function.Injective (shift polynomial)^[8] :=
  (shift_injective (by decide)).iterate 8

theorem crcByte_left_injective (b : Byte) : Function.Injective fun crc => crcByte crc b := by
  intro crc crc' heq
  simp only [crcByte_eq] at heq
  exact (BitVec.xor_left_inj _).mp (crcShifts_injective heq)

theorem crcByte_right_injective (crc : U32) : Function.Injective (crcByte crc) := by
  intro b b' heq
  rw [crcByte_eq, crcByte_eq] at heq
  have hwide := (BitVec.xor_right_inj _).mp (crcShifts_injective heq)
  have hnarrow := congrArg (BitVec.setWidth 8) hwide
  rwa [BitVec.setWidth_setWidth_of_le _ (by decide), BitVec.setWidth_setWidth_of_le _ (by decide),
    BitVec.setWidth_eq, BitVec.setWidth_eq] at hnarrow

/-- Two states stay apart over the same bytes. -/
theorem foldl_crcByte_injective (data : List Byte) :
    Function.Injective fun crc => data.foldl crcByte crc := by
  induction data with
  | nil => exact fun _ _ heq => heq
  | cons b data ih => exact fun crc crc' heq => crcByte_left_injective b (ih heq)

/-- **One byte changed.** -/
theorem crc32_set_ne {data : List Byte} {i : ℕ} {b : Byte} (hi : i < data.length)
    (hne : data[i]? ≠ some b) : crc32 (data.set i b) ≠ crc32 data := by
  have hsplit : data = data.take i ++ data[i] :: data.drop (i + 1) := by
    rw [← List.drop_eq_getElem_cons hi, List.take_append_drop]
  have hset : data.set i b = data.take i ++ b :: data.drop (i + 1) := by
    rw [List.set_eq_take_append_cons_drop, if_pos hi]
  intro heq
  rw [crc32_eq_foldl, crc32_eq_foldl, BitVec.xor_left_inj, hset] at heq
  nth_rewrite 3 [hsplit] at heq
  rw [List.foldl_append, List.foldl_append, List.foldl_cons, List.foldl_cons] at heq
  have hbyte := crcByte_right_injective _ (foldl_crcByte_injective _ heq)
  rw [List.getElem?_eq_getElem hi, hbyte] at hne
  exact hne rfl

/-! ## A save file -/

section File

variable {fileData : List Byte} {blobs : Blobs} {i : ℕ} {b : Byte}

theorem headerOf_set (hi : headerSize ≤ i) : headerOf (fileData.set i b) = headerOf fileData := by
  rw [← headerOf_take le_rfl, List.take_set_of_le hi, headerOf_take le_rfl]

/-- **A payload with one byte changed does not pass the checks.** -/
theorem validate_set (h : validate fileData = .ok blobs) (hlow : headerSize ≤ i)
    (hhigh : i < headerSize + (blobs.cpu.length + blobs.mem.length + blobs.gpu.length))
    (hne : fileData[i]? ≠ some b) : validate (fileData.set i b) = .error .ChecksumMismatch := by
  obtain ⟨hcpu, hmem, hgpu⟩ := length_blobs h
  rw [hcpu, hmem, hgpu] at hhigh
  unfold validate at h ⊢
  dsimp only at h ⊢
  rw [headerOf_set hlow, List.length_set]
  split_ifs at h with hshort hmagic hversion hfit hcrc
  rw [if_neg hshort, if_neg hmagic, if_neg hversion, if_neg hfit, if_pos]
  -- The payload of the changed file is the payload with the byte changed.
  rw [List.drop_set, if_neg (by omega), List.take_set]
  intro heq
  refine crc32_set_ne ?_ ?_ (heq.trans (not_not.mp hcrc).symm)
  · rw [List.length_take, List.length_drop]
    omega
  · rw [List.getElem?_take_of_lt (by omega), List.getElem?_drop]
    rwa [show headerSize + (i - headerSize) = i from by omega]

end File

/-- **The checksum.**  `Crc32` is CRC-32 bit by bit, and `Load` of a valid file with one byte of
its payload changed answers `ChecksumMismatch` and changes nothing. -/
theorem checksum_detects (os : Memory.Os) (alloc : ℕ → Bool) (m : Machine) :
    (∀ data, crc32 data = crc32Bitwise data) ∧
      ∀ (fileData : List Byte) (blobs : Blobs) (i : ℕ) (b : Byte),
        allocate alloc fileData.length = .ok () → validate fileData = .ok blobs →
        headerSize ≤ i →
        i < headerSize + (blobs.cpu.length + blobs.mem.length + blobs.gpu.length) →
        fileData[i]? ≠ some b →
        load os alloc true (.bytes (fileData.set i b)) m = .ok (.ChecksumMismatch, m) := by
  constructor
  · intro data
    rw [crc32Bitwise, register_bitsOf, crc32_eq_foldl]
  · intro fileData blobs i b halloc hvalid hlow hhigh hne
    rw [load, if_neg (by decide)]
    simp only [List.length_set, halloc, validate_set hvalid hlow hhigh hne]

/-- The first byte of a register, `1`, changed to `2`. -/
theorem checksum_detects_oneRegister :
    load Memory.refusingOs (fun _ => true) true (.bytes (oneRegisterFile.set headerSize 2))
      blankMachine = .ok (.ChecksumMismatch, blankMachine) := by
  have hbyte : oneRegisterFile[headerSize]? = some 1 := by
    rw [oneRegisterFile, buildFile, List.getElem?_append_right (by rw [length_header]),
      length_header]
    rfl
  refine (checksum_detects Memory.refusingOs (fun _ => true) blankMachine).2 oneRegisterFile
    ⟨writeT (1 : U64), [], []⟩ headerSize 2 allocate_oneRegister validate_oneRegister le_rfl
    (by decide) ?_
  rw [hbyte]
  decide

end SaveState
