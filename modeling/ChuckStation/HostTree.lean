/-
# Trees of files

A file tree as its host keeps it, over any names and any bytes: places are lists of names,
files have contents of their own so that an open file outlives its name, and two names may
lead to one file.  What the host refuses for other reasons than the tree is left open.

* `Tree.Keeps`: nothing happened at a place;
* `Tree.makeDirs`, `Tree.openFile`, `Tree.removeAt`, `Tree.rename`, `Tree.write`: the calls;
* `keeps_makeDirs`, …: what each call leaves alone.
-/
import Mathlib
import ChuckStation.AssociationLists

namespace HostTree

variable {ν β : Type*} [DecidableEq ν]

/-! ## Trees -/

inductive Node where
  | dir
  | file (id : ℕ)
  deriving DecidableEq, Repr

/-- Names and the nodes they lead to, the contents of the files, and the next free file.  No
name leads to a file that is still free. -/
structure Tree (ν β : Type*) where
  entries : List (List ν × Node)
  data : ℕ → List β
  next : ℕ
  lt_next : ∀ p id, (p, Node.file id) ∈ entries → id < next

/-- `p` lies in the directory `d`, at any depth. -/
def Below (d p : List ν) : Prop := d <+: p ∧ p ≠ d

instance (d p : List ν) : Decidable (Below d p) := by
  unfold Below; infer_instance

namespace Tree

variable (t : Tree ν β) (p q : List ν)

def node : Option Node := t.entries.lookup p

/-- Nothing happened at `p` from `t` to `t'`: the same node, and the same bytes in it. -/
def Keeps (t t' : Tree ν β) (p : List ν) : Prop :=
  t'.node p = t.node p ∧ ∀ id, t.node p = some (.file id) → t'.data id = t.data id

/-- No name lies below `p`. -/
def isEmptyDir : Bool := t.entries.all fun e => !decide (Below p e.1)

/-! ## Changes of a tree -/

def insertDir : Tree ν β :=
  { t with
    entries := (p, .dir) :: t.entries
    lt_next := fun q id h => t.lt_next q id (by simpa using h) }

/-- A new file without bytes. -/
def insertFile : Tree ν β :=
  { entries := (p, .file t.next) :: t.entries
    data := Function.update t.data t.next []
    next := t.next + 1
    lt_next := fun q id h => by
      rcases List.mem_cons.mp h with h | h
      · rw [Prod.mk.injEq, Node.file.injEq] at h
        omega
      · exact Nat.lt_succ_of_lt (t.lt_next q id h) }

def erase : Tree ν β :=
  { t with
    entries := t.entries.filter fun e => e.1 ≠ p
    lt_next := fun q id h => t.lt_next q id (List.mem_filter.mp h).1 }

/-- The place of a name after `p` was moved to `q`. -/
def moved (r : List ν) : List ν := if p <+: r then q ++ r.drop p.length else r

/-- Everything from `p` down is at `q`, and what was at `q` is gone. -/
def move : Tree ν β :=
  { t with
    entries := (t.erase q).entries.map fun e => (moved p q e.1, e.2)
    lt_next := fun r id h => by
      obtain ⟨e, he, heq⟩ := List.mem_map.mp h
      rw [Prod.mk.injEq] at heq
      obtain ⟨r', n⟩ := e
      exact (t.erase q).lt_next r' id (by rw [← heq.2]; exact he) }

def setData (id : ℕ) (bytes : List β) : Tree ν β :=
  { t with data := Function.update t.data id bytes }

end Tree

/-! ## Calls -/

/-- The calls a host may refuse. -/
inductive Call (ν : Type*) where
  | makeDir (p : List ν)
  | openFile (p : List ν) (writes : Bool)
  | newFile (p : List ν)
  | remove (p : List ν)
  | rename (p q : List ν)

/-- What the host decides by itself: the calls it lets through, and how many bytes a write to
a file takes. -/
structure Policy (ν β : Type*) where
  allows : Tree ν β → Call ν → Bool
  accepts : Tree ν β → ℕ → List β → ℕ

/-- The modes of `fopen`. -/
inductive Mode where
  | rb
  | wb
  | ab
  | rPlusB
  deriving DecidableEq, Repr

def Mode.writes : Mode → Bool
  | rb => false
  | wb | ab | rPlusB => true

def Mode.reads : Mode → Bool
  | rb | rPlusB => true
  | wb | ab => false

/-- A file that is not there is made. -/
def Mode.creates : Mode → Bool
  | rb | rPlusB => false
  | wb | ab => true

namespace Tree

variable (host : Policy ν β) (t : Tree ν β)

/-- A name can be added at `p`: it is free, and its parent is a directory. -/
def free (p : List ν) : Bool := t.node p == none && p != [] && t.node p.dropLast == some .dir

/-- `mkdir`. -/
def makeDir (p : List ν) : Option (Tree ν β) :=
  if t.free p && host.allows t (.makeDir p) then some (t.insertDir p) else none

/-- `create_directories` over the places of the path, the outermost first: whether the last
one was created, or nothing if a step failed. -/
def makeDirs : List (List ν) → Tree ν β → Option Bool × Tree ν β
  | [], t => (some false, t)
  | p :: ps, t =>
      match t.node p with
      | some .dir => makeDirs ps t
      | some (.file _) => (none, t)
      | none =>
          match t.makeDir host p with
          | none => (none, t)
          | some t' => if ps = [] then (some true, t') else makeDirs ps t'

/-- `fopen`: the file that was opened. -/
def openFile (p : List ν) (mode : Mode) : Option (ℕ × Tree ν β) :=
  match t.node p with
  | some .dir => none
  | some (.file id) =>
      if host.allows t (.openFile p mode.writes) then
        some (id, if mode = .wb then t.setData id [] else t)
      else none
  | none =>
      match mode with
      | .rb | .rPlusB => none
      | .wb | .ab =>
          if t.free p && host.allows t (.newFile p) then some (t.next, t.insertFile p) else none

/-- `remove`: a file, or a directory with nothing in it. -/
def removeAt (p : List ν) : Option (Tree ν β) :=
  match t.node p with
  | none => none
  | some .dir =>
      if t.isEmptyDir p && host.allows t (.remove p) then some (t.erase p) else none
  | some (.file _) => if host.allows t (.remove p) then some (t.erase p) else none

/-- A directory can be moved onto nothing or an empty directory, a file onto nothing or a
file. -/
def canReplace (n : Node) (q : List ν) : Bool :=
  match n, t.node q with
  | .dir, none => t.free q
  | .dir, some .dir => t.isEmptyDir q
  | .dir, some (.file _) => false
  | .file _, none => t.free q
  | .file _, some .dir => false
  | .file _, some (.file _) => true

/-- `rename`: nothing happens when both names are one or lead to one file, and no directory
moves into itself. -/
def rename (p q : List ν) : Option (Tree ν β) :=
  match t.node p with
  | none => none
  | some n =>
      if p = q ∨ n ≠ .dir ∧ t.node q = some n then some t
      else if !decide (p <+: q) && t.canReplace n q && host.allows t (.rename p q) then
        some (t.move p q)
      else none

/-- The bytes of a file after `bytes` were written at `pos`. -/
def overwrite [Inhabited β] (old : List β) (pos : ℕ) (bytes : List β) : List β :=
  old.take pos ++ List.replicate (pos - old.length) default ++ bytes ++
    old.drop (pos + bytes.length)

/-- `fwrite`: how many bytes the file took. -/
def write [Inhabited β] (id pos : ℕ) (bytes : List β) : ℕ × Tree ν β :=
  let taken := bytes.take (host.accepts t id bytes)
  (taken.length, t.setData id (overwrite (t.data id) pos taken))

/-! ## What the changes leave alone -/

section Keeps

variable {host} {t} {t' t'' : Tree ν β} {p q r : List ν}

theorem mem_of_node {n : Node} (h : t.node p = some n) : (p, n) ∈ t.entries := by
  obtain ⟨l, l', heq, -⟩ := List.lookup_eq_some_iff.mp h
  rw [heq]
  simp

theorem lookup_cons_of_ne (n : Node) (l : List (List ν × Node)) (h : r ≠ p) :
    ((p, n) :: l).lookup r = l.lookup r := by
  rw [List.lookup_cons, beq_false_of_ne h]

theorem lookup_map_of_fixed (g : List ν → List ν) (l : List (List ν × Node))
    (h : ∀ e ∈ l, g e.1 = r ↔ e.1 = r) :
    (l.map fun e => (g e.1, e.2)).lookup r = l.lookup r := by
  induction l with
  | nil => rfl
  | cons e l ih =>
      obtain ⟨he, hl⟩ := List.forall_mem_cons.mp h
      have hbeq : (r == g e.1) = (r == e.1) := by
        rw [Bool.eq_iff_iff, beq_iff_eq, beq_iff_eq, eq_comm, he, eq_comm]
      rw [List.map_cons, List.lookup_cons, List.lookup_cons, hbeq, ih hl]

theorem keeps_refl (t : Tree ν β) (p : List ν) : Keeps t t p := ⟨rfl, fun _ _ => rfl⟩

theorem Keeps.trans (h : Keeps t t' p) (h' : Keeps t' t'' p) : Keeps t t'' p :=
  ⟨h'.1.trans h.1, fun id hid => (h'.2 id (h.1.trans hid)).trans (h.2 id hid)⟩

theorem keeps_insertDir (h : r ≠ p) : Keeps t (t.insertDir p) r :=
  ⟨lookup_cons_of_ne .dir t.entries h, fun _ _ => rfl⟩

theorem keeps_insertFile (h : r ≠ p) : Keeps t (t.insertFile p) r := by
  refine ⟨lookup_cons_of_ne (.file t.next) t.entries h, fun id hid => ?_⟩
  have hlt := t.lt_next r id (mem_of_node hid)
  exact Function.update_of_ne (by omega) _ _

theorem keeps_erase (h : r ≠ p) : Keeps t (t.erase p) r :=
  ⟨List.lookup_filter_of_ne t.entries h, fun _ _ => rfl⟩

/-- A move leaves alone what lies below neither end. -/
theorem keeps_move (hp : ¬ p <+: r) (hq : ¬ q <+: r) : Keeps t (t.move p q) r := by
  have hne : r ≠ q := fun h => hq (h ▸ List.prefix_refl r)
  refine ⟨?_, fun _ _ => rfl⟩
  refine (lookup_map_of_fixed (moved p q) (t.erase q).entries fun e _ => ?_).trans
    (List.lookup_filter_of_ne t.entries hne)
  rw [moved]
  split_ifs with hmoved
  · constructor
    · intro h
      exact absurd (h ▸ List.prefix_append q _) hq
    · intro h
      exact absurd (h ▸ hmoved) hp
  · exact Iff.rfl

theorem keeps_setData {id : ℕ} (bytes : List β) (h : t.node r ≠ some (.file id)) :
    Keeps t (t.setData id bytes) r := by
  refine ⟨rfl, fun id' hid' => Function.update_of_ne ?_ _ _⟩
  intro heq
  exact h (heq ▸ hid')

/-! ## What the changes put there -/

omit [DecidableEq ν] in
@[simp] theorem data_setData_self (t : Tree ν β) (id : ℕ) (bytes : List β) :
    (t.setData id bytes).data id = bytes := Function.update_self _ _ _

omit [DecidableEq ν] in
theorem setData_data (t : Tree ν β) (id : ℕ) : t.setData id (t.data id) = t := by
  rw [setData, Function.update_eq_self]

@[simp] theorem node_insertFile_self (t : Tree ν β) (p : List ν) :
    (t.insertFile p).node p = some (.file t.next) := List.lookup_cons_self

/-! ## What the calls leave alone -/

theorem makeDir_eq_some (hrun : t.makeDir host p = some t') :
    t.node p = none ∧ t' = t.insertDir p := by
  rw [makeDir, Option.ite_none_right_eq_some, Bool.and_eq_true, free] at hrun
  obtain ⟨⟨hfree, -⟩, ht⟩ := hrun
  simp only [Bool.and_eq_true, beq_iff_eq] at hfree
  exact ⟨hfree.1.1, (Option.some.inj ht).symm⟩

/-- Directories are made at places where nothing is. -/
theorem keeps_makeDirs {ps : List (List ν)} (h : r ∈ ps → t.node r ≠ none) :
    Keeps t (makeDirs host ps t).2 r := by
  induction ps generalizing t with
  | nil => exact keeps_refl t r
  | cons p ps ih =>
      rw [makeDirs]
      match hnode : t.node p with
      | some .dir => exact ih fun hr => h (List.mem_cons_of_mem p hr)
      | some (.file _) => exact keeps_refl t r
      | none =>
          cases hmake : t.makeDir host p with
          | none => exact keeps_refl t r
          | some t' =>
              have hne : r ≠ p := fun hr => h (hr ▸ List.mem_cons_self) (hr ▸ hnode)
              obtain ⟨-, rfl⟩ := makeDir_eq_some hmake
              have hfirst : Keeps t (t.insertDir p) r := keeps_insertDir hne
              dsimp only
              split_ifs
              · exact hfirst
              · refine hfirst.trans (ih fun hr => ?_)
                rw [hfirst.1]
                exact h (List.mem_cons_of_mem p hr)

theorem node_of_insertDir {id : ℕ} (h : (t.insertDir p).node r = some (.file id)) :
    t.node r = some (.file id) := by
  by_cases hr : r = p
  · rw [hr, node, insertDir, List.lookup_cons_self] at h
    cases h
  · rw [← h]
    exact (lookup_cons_of_ne .dir t.entries hr).symm

/-- Making directories adds no file. -/
theorem node_of_makeDirs {ps : List (List ν)} {id : ℕ}
    (h : (makeDirs host ps t).2.node r = some (.file id)) : t.node r = some (.file id) := by
  induction ps generalizing t with
  | nil => exact h
  | cons p ps ih =>
      rw [makeDirs] at h
      match hnode : t.node p with
      | some .dir => exact ih (by simpa only [hnode] using h)
      | some (.file _) => simpa only [hnode] using h
      | none =>
          simp only [hnode] at h
          cases hmake : t.makeDir host p with
          | none => simpa only [hmake] using h
          | some t' =>
              obtain ⟨-, rfl⟩ := makeDir_eq_some hmake
              simp only [hmake] at h
              split_ifs at h
              · exact node_of_insertDir h
              · exact node_of_insertDir (ih h)

theorem openFile_of_file {mode : Mode} {id : ℕ} (hnode : t.node p = some (.file id)) :
    t.openFile host p mode =
      if host.allows t (.openFile p mode.writes) then
        some (id, if mode = .wb then t.setData id [] else t)
      else none := by
  rw [openFile.eq_def, hnode]

theorem openFile_of_none {mode : Mode} (hnode : t.node p = none) :
    t.openFile host p mode =
      if mode.creates && (t.free p && host.allows t (.newFile p)) then
        some (t.next, t.insertFile p)
      else none := by
  rw [openFile.eq_def, hnode]
  cases mode <;> rfl

/-- An existing file was opened, and emptied for `wb`, or a new one was made to be written. -/
theorem openFile_cases {mode : Mode} {id : ℕ} (hrun : t.openFile host p mode = some (id, t')) :
    t.node p = some (.file id) ∧ t' = (if mode = .wb then t.setData id [] else t) ∨
      t.node p = none ∧ mode.writes = true ∧ id = t.next ∧ t' = t.insertFile p := by
  unfold openFile at hrun
  match hnode : t.node p with
  | some .dir => simp [hnode] at hrun
  | some (.file i) =>
      simp only [hnode, Option.ite_none_right_eq_some, Option.some.injEq, Prod.mk.injEq] at hrun
      obtain ⟨-, rfl, ht⟩ := hrun
      exact Or.inl ⟨rfl, ht.symm⟩
  | none =>
      simp only [hnode] at hrun
      cases mode with
      | rb => simp at hrun
      | rPlusB => simp at hrun
      | wb | ab =>
          simp only [Option.ite_none_right_eq_some, Option.some.injEq, Prod.mk.injEq] at hrun
          obtain ⟨-, hid, ht⟩ := hrun
          exact Or.inr ⟨rfl, rfl, hid.symm, ht.symm⟩

/-- Opening a file leaves everything else alone, but for other names of a file that is opened
to be written. -/
theorem keeps_openFile {mode : Mode} {id : ℕ} (hrun : t.openFile host p mode = some (id, t'))
    (h : mode.writes = true → r ≠ p)
    (hlink : mode.writes = true → ∀ i, t.node p = some (.file i) → t.node r ≠ some (.file i)) :
    Keeps t t' r := by
  rcases openFile_cases hrun with ⟨hnode, rfl⟩ | ⟨-, hwrites, -, rfl⟩
  · split_ifs with hmode
    · exact keeps_setData [] (hlink (by rw [hmode]; rfl) id hnode)
    · exact keeps_refl t r
  · exact keeps_insertFile (h hwrites)

/-- A file that was opened has no other name, if the place it was opened at has none. -/
theorem node_ne_of_openFile {mode : Mode} {id : ℕ}
    (hrun : t.openFile host p mode = some (id, t')) (h : r ≠ p)
    (hlink : ∀ i, t.node p = some (.file i) → t.node r ≠ some (.file i)) :
    t'.node r ≠ some (.file id) := by
  rcases openFile_cases hrun with ⟨hnode, rfl⟩ | ⟨-, -, rfl, rfl⟩
  · split_ifs
    · exact hlink id hnode
    · exact hlink id hnode
  · rw [(keeps_insertFile h).1]
    intro hnew
    exact absurd (t.lt_next r t.next (mem_of_node hnew)) (lt_irrefl _)

theorem keeps_removeAt (hrun : t.removeAt host p = some t') (h : r ≠ p) : Keeps t t' r := by
  have herase : t' = t.erase p := by
    rw [removeAt] at hrun
    match hnode : t.node p with
    | none => simp [hnode] at hrun
    | some .dir =>
        simp only [hnode] at hrun
        split_ifs at hrun
        exact (Option.some.inj hrun).symm
    | some (.file _) =>
        simp only [hnode] at hrun
        split_ifs at hrun
        exact (Option.some.inj hrun).symm
  rw [herase]
  exact keeps_erase h

theorem keeps_rename (hrun : t.rename host p q = some t') (hp : ¬ p <+: r) (hq : ¬ q <+: r) :
    Keeps t t' r := by
  rw [rename] at hrun
  cases hnode : t.node p with
  | none => simp [hnode] at hrun
  | some n =>
      simp only [hnode] at hrun
      split_ifs at hrun
      · rw [← Option.some.inj hrun]
        exact keeps_refl t r
      · rw [← Option.some.inj hrun]
        exact keeps_move hp hq

end Keeps

end Tree

end HostTree
