/-
# Streams of bytes

The bytes of a file and a position in them.  Chunks that are written one after another are
one write of all their bytes, chunks that are read one after another are one read, and a read
from where the writing began returns what was written, however either side was cut.

* `puts_eq`, `gets_eq`: chunks are joined;
* `gets_puts`: the round trip.
-/
import ChuckStation.HostTree

namespace ByteStreams

open HostTree

variable {β : Type*} [Inhabited β]

/-! ## Overwriting -/

omit [Inhabited β] in
theorem length_head (old : List β) (pos : ℕ) (d : β) :
    (old.take pos ++ List.replicate (pos - old.length) d).length = pos := by
  rw [List.length_append, List.length_take, List.length_replicate]
  omega

/-- What lies before the position, filled up if the file ends earlier. -/
theorem take_overwrite (old : List β) (pos : ℕ) (bytes : List β) :
    (Tree.overwrite old pos bytes).take pos =
      old.take pos ++ List.replicate (pos - old.length) default := by
  rw [Tree.overwrite, List.append_assoc, List.take_left' (length_head old pos default)]

/-- What lies from the position on. -/
theorem drop_overwrite (old : List β) (pos : ℕ) (bytes : List β) :
    (Tree.overwrite old pos bytes).drop pos = bytes ++ old.drop (pos + bytes.length) := by
  rw [Tree.overwrite, List.append_assoc, List.drop_left' (length_head old pos default)]

theorem drop_overwrite_add (old : List β) (pos : ℕ) (bytes : List β) :
    (Tree.overwrite old pos bytes).drop (pos + bytes.length) =
      old.drop (pos + bytes.length) := by
  rw [← List.drop_drop, drop_overwrite, List.drop_left' rfl]

theorem le_length_overwrite (old : List β) (pos : ℕ) (bytes : List β) :
    pos + bytes.length ≤ (Tree.overwrite old pos bytes).length := by
  rw [Tree.overwrite, List.length_append, List.length_append, length_head]
  omega

/-- **One write after another** is one write of both. -/
theorem overwrite_overwrite (old : List β) (pos : ℕ) (first second : List β) :
    Tree.overwrite (Tree.overwrite old pos first) (pos + first.length) second =
      Tree.overwrite old pos (first ++ second) := by
  have hlen := le_length_overwrite old pos first
  have htake : (Tree.overwrite old pos first).take (pos + first.length) =
      old.take pos ++ List.replicate (pos - old.length) default ++ first := by
    rw [List.take_add, take_overwrite, drop_overwrite, List.take_left' rfl]
  have hdrop : (Tree.overwrite old pos first).drop (pos + first.length + second.length) =
      old.drop (pos + (first ++ second).length) := by
    rw [← List.drop_drop, drop_overwrite_add, List.drop_drop, List.length_append, Nat.add_assoc]
  show (Tree.overwrite old pos first).take (pos + first.length) ++
      List.replicate (pos + first.length - (Tree.overwrite old pos first).length) default ++
      second ++ (Tree.overwrite old pos first).drop (pos + first.length + second.length) = _
  rw [htake, hdrop, Nat.sub_eq_zero_of_le hlen, List.replicate_zero, List.append_nil,
    Tree.overwrite, ← List.append_assoc]

/-! ## Streams -/

structure Stream (β : Type*) where
  bytes : List β
  pos : ℕ

namespace Stream

variable (s : Stream β)

def put (chunk : List β) : Stream β :=
  { bytes := Tree.overwrite s.bytes s.pos chunk, pos := s.pos + chunk.length }

omit [Inhabited β] in
/-- The bytes that a read of so many returns. -/
def get (n : ℕ) : List β := (s.bytes.drop s.pos).take n

omit [Inhabited β] in
def skip (n : ℕ) : Stream β := { s with pos := s.pos + (s.get n).length }

def puts (chunks : List (List β)) : Stream β := chunks.foldl put s

omit [Inhabited β] in
/-- The bytes of all reads. -/
def gets : Stream β → List ℕ → List β
  | _, [] => []
  | s, n :: ns => s.get n ++ gets (s.skip n) ns

theorem put_put (first second : List β) : (s.put first).put second = s.put (first ++ second) := by
  rw [put, put, put, overwrite_overwrite, List.length_append, Nat.add_assoc]

/-- **Written chunks are joined.**  (A write of nothing still moves the end of the file to the
position.) -/
theorem puts_eq (chunk : List β) (chunks : List (List β)) :
    s.puts (chunk :: chunks) = s.put (chunk ++ chunks.flatten) := by
  induction chunks generalizing s chunk with
  | nil =>
      rw [List.flatten_nil, List.append_nil]
      rfl
  | cons chunk' chunks ih =>
      show (s.put chunk).puts (chunk' :: chunks) = _
      rw [ih, put_put, List.flatten_cons]

omit [Inhabited β] in
theorem get_add (n m : ℕ) : s.get (n + m) = s.get n ++ (s.skip n).get m := by
  show (s.bytes.drop s.pos).take (n + m) =
    (s.bytes.drop s.pos).take n ++ (s.bytes.drop (s.pos + (s.get n).length)).take m
  rw [List.take_add, ← List.drop_drop]
  congr 2
  by_cases hn : n ≤ (s.bytes.drop s.pos).length
  · rw [get, List.length_take_of_le hn]
  · -- The read came to the end, and nothing is left for the next one.
    rw [get, List.take_of_length_le (by omega), List.drop_length, List.drop_of_length_le (by omega)]

omit [Inhabited β] in
/-- **Read chunks are joined.** -/
theorem gets_eq (ns : List ℕ) : s.gets ns = s.get ns.sum := by
  induction ns generalizing s with
  | nil => exact (List.take_zero).symm
  | cons n ns ih => rw [gets, ih, List.sum_cons, get_add]

theorem pos_puts (chunks : List (List β)) :
    (s.puts chunks).pos = s.pos + chunks.flatten.length := by
  cases chunks with
  | nil => rfl
  | cons chunk chunks =>
      rw [puts_eq, List.flatten_cons]
      rfl

theorem drop_puts (chunks : List (List β)) :
    (s.puts chunks).bytes.drop s.pos =
      chunks.flatten ++ s.bytes.drop (s.pos + chunks.flatten.length) := by
  cases chunks with
  | nil => rfl
  | cons chunk chunks =>
      rw [puts_eq, List.flatten_cons]
      exact drop_overwrite s.bytes s.pos _

/-- **Round trip.**  The chunks that were written come back, and after them what the file had
there before. -/
theorem gets_puts (chunks : List (List β)) (ns : List ℕ) :
    ({ s.puts chunks with pos := s.pos } : Stream β).gets ns =
      (chunks.flatten ++ s.bytes.drop (s.pos + chunks.flatten.length)).take ns.sum := by
  rw [gets_eq, ← drop_puts]
  rfl

end Stream

end ByteStreams
