/-
# Bytes, little-endian words and byte-addressed stores

The host and the guest of the emulator share one flat, byte-addressed address
space, and every multi-byte field (a guest word, an immediate, a field of a save
file or of an ELF header) is laid out least significant byte first.  This file is
the arithmetic of that layout, over words and address spaces of any width:

* `encode` / `decode`: a natural number as `n` little-endian bytes and back;
* `ByteStore.read` / `ByteStore.write`: a run of consecutive bytes of an address
  space whose addresses wrap modulo `2 ^ w`.
-/
import Mathlib

abbrev Byte := BitVec 8
abbrev U16 := BitVec 16
abbrev U32 := BitVec 32
abbrev U64 := BitVec 64

/-- `UINT64_MAX`. -/
def uint64Max : U64 := BitVec.allOnes 64

/-- For the numerals of `Fin 16`, the registers. -/
instance instNeZeroSixteen : NeZero 16 := ⟨by decide⟩

/-! ## Little-endian words -/

namespace LittleEndian

/-- The `n` low bytes of `v`, least significant first. -/
def encode : ℕ → ℕ → List Byte
  | 0, _ => []
  | n + 1, v => BitVec.ofNat 8 v :: encode n (v / 256)

/-- The number whose little-endian bytes are `bs`. -/
def decode : List Byte → ℕ
  | [] => 0
  | b :: bs => b.toNat + 256 * decode bs

@[simp] theorem length_encode (n v : ℕ) : (encode n v).length = n := by
  induction n generalizing v with
  | zero => rfl
  | succ n ih => simp [encode, ih]

/-- Decoding recovers the value modulo what `n` bytes can hold. -/
theorem decode_encode (n v : ℕ) : decode (encode n v) = v % 256 ^ n := by
  induction n generalizing v with
  | zero => simp [encode, decode, Nat.mod_one]
  | succ n ih =>
      have hlow : (BitVec.ofNat 8 v).toNat = v % 256 := BitVec.toNat_ofNat v 8
      rw [encode, decode, ih, hlow, pow_succ', Nat.mod_mul]

/-- Encoding recovers the bytes. -/
theorem encode_decode (bs : List Byte) : encode bs.length (decode bs) = bs := by
  induction bs with
  | nil => rfl
  | cons b bs ih =>
      have hb := b.isLt
      have hdiv : (b.toNat + 256 * decode bs) / 256 = decode bs := by omega
      have hlow : BitVec.ofNat 8 (b.toNat + 256 * decode bs) = b := by
        apply BitVec.eq_of_toNat_eq
        rw [BitVec.toNat_ofNat]
        omega
      rw [List.length_cons, encode, decode, hdiv, ih, hlow]

/-- The little-endian bytes of a word. -/
def toBytes (n : ℕ) {w : ℕ} (v : BitVec w) : List Byte := encode n v.toNat

/-- The word of width `w` whose little-endian bytes are `bs`. -/
def ofBytes (w : ℕ) (bs : List Byte) : BitVec w := BitVec.ofNat w (decode bs)

@[simp] theorem length_toBytes (n : ℕ) {w : ℕ} (v : BitVec w) : (toBytes n v).length = n :=
  length_encode n v.toNat

/-- A word written as enough bytes is read back unchanged. -/
theorem ofBytes_toBytes (n : ℕ) {w : ℕ} (v : BitVec w) (hw : w ≤ 8 * n) :
    ofBytes w (toBytes n v) = v := by
  have hlt : v.toNat < 256 ^ n := by
    calc v.toNat < 2 ^ w := v.isLt
      _ ≤ 2 ^ (8 * n) := Nat.pow_le_pow_right (by norm_num) hw
      _ = 256 ^ n := by rw [pow_mul]; norm_num
  rw [ofBytes, toBytes, decode_encode, Nat.mod_eq_of_lt hlt, BitVec.ofNat_toNat, BitVec.setWidth_eq]

theorem decode_lt (bs : List Byte) : decode bs < 256 ^ bs.length := by
  induction bs with
  | nil => simp [decode]
  | cons b bs ih =>
      have hb := b.isLt
      rw [decode, List.length_cons, pow_succ']
      omega

theorem decode_append (bs cs : List Byte) :
    decode (bs ++ cs) = decode bs + 256 ^ bs.length * decode cs := by
  induction bs with
  | nil => simp [decode]
  | cons b bs ih =>
      rw [List.cons_append, decode, decode, ih, List.length_cons, pow_succ']
      ring

/-- The bytes of the word are the bytes it was made of. -/
theorem toBytes_ofBytes {n w : ℕ} {bs : List Byte} (hn : bs.length = n) (hw : w = 8 * n) :
    toBytes n (ofBytes w bs) = bs := by
  have hlt : decode bs < 2 ^ w := by
    calc decode bs < 256 ^ bs.length := decode_lt bs
      _ = 2 ^ w := by rw [hn, hw, pow_mul]; norm_num
  rw [toBytes, ofBytes, BitVec.toNat_ofNat, Nat.mod_eq_of_lt hlt, ← hn, encode_decode]

end LittleEndian

/-! ## Byte-addressed stores -/

namespace ByteStore

variable {w : ℕ}

/-- The `n` bytes from address `a` on; addresses wrap. -/
def read (m : BitVec w → Byte) (a : BitVec w) (n : ℕ) : List Byte :=
  (List.range n).map fun i => m (a + BitVec.ofNat w i)

/-- The store after copying `bs` to address `a` on; addresses wrap. -/
def write (m : BitVec w → Byte) (a : BitVec w) (bs : List Byte) : BitVec w → Byte :=
  fun x => (bs[(x - a).toNat]?).getD (m x)

@[simp] theorem length_read (m : BitVec w → Byte) (a : BitVec w) (n : ℕ) :
    (read m a n).length = n := by
  simp [read]

theorem getElem_read (m : BitVec w → Byte) (a : BitVec w) (n i : ℕ)
    (hi : i < (read m a n).length) : (read m a n)[i] = m (a + BitVec.ofNat w i) := by
  simp [read]

/-- Distance from `a` to the `i`-th address after it. -/
theorem toNat_add_ofNat_sub (a : BitVec w) (i : ℕ) (hi : i < 2 ^ w) :
    ((a + BitVec.ofNat w i) - a).toNat = i := by
  rw [BitVec.add_comm, BitVec.add_sub_cancel, BitVec.toNat_ofNat, Nat.mod_eq_of_lt hi]

/-- Every address is its distance from `a` away from `a`. -/
theorem add_ofNat_toNat_sub (a x : BitVec w) : a + BitVec.ofNat w (x - a).toNat = x := by
  rw [BitVec.ofNat_toNat, BitVec.setWidth_eq, BitVec.add_comm, BitVec.sub_add_cancel]

/-- Inside the copied run the store holds the copied byte. -/
theorem write_apply_of_lt (m : BitVec w → Byte) (a : BitVec w) (bs : List Byte) (x : BitVec w)
    (hx : (x - a).toNat < bs.length) : write m a bs x = bs[(x - a).toNat] := by
  rw [write, List.getElem?_eq_getElem hx, Option.getD_some]

/-- Outside the copied run the store is unchanged. -/
theorem write_apply_of_le (m : BitVec w → Byte) (a : BitVec w) (bs : List Byte) (x : BitVec w)
    (hx : bs.length ≤ (x - a).toNat) : write m a bs x = m x := by
  rw [write, List.getElem?_eq_none hx, Option.getD_none]

@[simp] theorem write_nil (m : BitVec w → Byte) (a : BitVec w) : write m a [] = m := by
  funext x
  exact write_apply_of_le m a [] x (Nat.zero_le _)

/-- What was copied is read back. -/
theorem read_write_self (m : BitVec w → Byte) (a : BitVec w) (bs : List Byte)
    (hlen : bs.length ≤ 2 ^ w) : read (write m a bs) a bs.length = bs := by
  apply List.ext_getElem (length_read _ _ _)
  intro i hi hi'
  have hpos : ((a + BitVec.ofNat w i) - a).toNat = i :=
    toNat_add_ofNat_sub a i (lt_of_lt_of_le hi' hlen)
  rw [getElem_read, write_apply_of_lt _ _ _ _ (by rw [hpos]; exact hi')]
  simp only [hpos]

/-- **Frame.**  Reading bytes none of which was copied over. -/
theorem read_write_of_disjoint (m : BitVec w → Byte) (a b : BitVec w) (n : ℕ) (bs : List Byte)
    (hdis : ∀ i < n, bs.length ≤ ((b + BitVec.ofNat w i) - a).toNat) :
    read (write m a bs) b n = read m b n := by
  apply List.ext_getElem (by simp)
  intro i hi hi'
  rw [getElem_read, getElem_read]
  exact write_apply_of_le _ _ _ _ (hdis i (by simpa using hi))

/-- Two stores that agree on a run of addresses read the same there. -/
theorem read_congr (m m' : BitVec w → Byte) (a : BitVec w) (n : ℕ)
    (h : ∀ i < n, m (a + BitVec.ofNat w i) = m' (a + BitVec.ofNat w i)) :
    read m a n = read m' a n := by
  apply List.ext_getElem (by simp)
  intro i hi hi'
  rw [getElem_read, getElem_read]
  exact h i (by simpa using hi)

/-- Copying over a run the bytes another store holds there. -/
theorem write_read_apply (m m' : BitVec w → Byte) (a : BitVec w) (n : ℕ) (x : BitVec w) :
    write m a (read m' a n) x = if (x - a).toNat < n then m' x else m x := by
  by_cases hx : (x - a).toNat < n
  · rw [write_apply_of_lt _ _ _ _ (by simpa using hx), getElem_read, add_ofNat_toNat_sub, if_pos hx]
  · rw [write_apply_of_le _ _ _ _ (by simpa using hx), if_neg hx]

/-- Two stores read the same over a run exactly if they agree there. -/
theorem read_eq_read_iff (m m' : BitVec w → Byte) (a : BitVec w) {n : ℕ} (hn : n ≤ 2 ^ w) :
    read m a n = read m' a n ↔ ∀ x, (x - a).toNat < n → m x = m' x := by
  constructor
  · intro h x hx
    have hget := congrArg (fun l : List Byte => l[(x - a).toNat]?) h
    simp only [read, List.getElem?_map, List.getElem?_range hx, Option.map_some,
      add_ofNat_toNat_sub] at hget
    exact Option.some.inj hget
  · intro h
    refine read_congr m m' a n fun i hi => h _ ?_
    rwa [toNat_add_ofNat_sub a i (by omega)]

/-- Filling the start of a run is not noticed exactly if the start was filled so already. -/
theorem read_write_replicate_iff (m : BitVec w → Byte) (a : BitVec w) (b : Byte) {k n : ℕ}
    (hk : k ≤ n) (hn : n ≤ 2 ^ w) :
    read (write m a (List.replicate k b)) a n = read m a n ↔
      ∀ i < k, m (a + BitVec.ofNat w i) = b := by
  have hfilled : ∀ x, (x - a).toNat < k → write m a (List.replicate k b) x = b := by
    intro x hx
    rw [write_apply_of_lt m a _ x (by simpa using hx), List.getElem_replicate]
  rw [read_eq_read_iff _ _ a hn]
  constructor
  · intro h i hi
    have hpos : ((a + BitVec.ofNat w i) - a).toNat = i := toNat_add_ofNat_sub a i (by omega)
    rw [← h _ (by omega)]
    exact hfilled _ (by omega)
  · intro h x _
    by_cases hlt : (x - a).toNat < k
    · have hold := h _ hlt
      rw [add_ofNat_toNat_sub] at hold
      rw [hfilled x hlt, hold]
    · apply write_apply_of_le
      rw [List.length_replicate]
      exact not_lt.mp hlt

end ByteStore
