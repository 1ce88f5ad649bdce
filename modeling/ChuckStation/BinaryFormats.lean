/-
# Binary formats

Two ways of taking data off a byte buffer:

* **records**: fields of fixed size, stored one after the other into a state
  (`encodeFields` / `decodeInto`);
* **readers**: computations over a cursor that hand on a value or stop with a reason
  (`Reads` / `Local`).

For both the rules are the same: what was written is read back, and what is read depends
on the bytes consumed only.
-/
import ChuckStation.Bytes

namespace BinaryFormats

/-! ## Fields of a state -/

/-- A part of a state that is laid out as a fixed number of bytes. -/
structure DataField (σ : Type*) where
  size : ℕ
  load : σ → List Byte
  store : List Byte → σ → σ
  length_load : ∀ s, (load s).length = size
  load_store : ∀ bs s, bs.length = size → load (store bs s) = bs
  store_load : ∀ s, store (load s) s = s

section Fields

variable {σ : Type*} {f g : DataField σ} {fs : List (DataField σ)} {bs rest : List Byte} {s v : σ}

/-- Storing `g` leaves the part `f` alone. -/
def DataField.Keeps (f g : DataField σ) : Prop := ∀ bs s, f.load (g.store bs s) = f.load s

/-- The fields of a state, one after the other. -/
def encodeFields (fs : List (DataField σ)) (s : σ) : List Byte := fs.flatMap fun f => f.load s

/-- Store the fields one after the other as long as their bytes are there: whether all of
them were, the state and the bytes left. -/
def decodeInto : List (DataField σ) → List Byte → σ → Bool × σ × List Byte
  | [], bs, s => (true, s, bs)
  | f :: fs, bs, s =>
    if f.size ≤ bs.length then
      decodeInto fs (bs.drop f.size) (f.store (bs.take f.size) s)
    else (false, s, bs)

/-- Every field whose bytes are all there finds the bytes the state already has. -/
def Agree : List (DataField σ) → List Byte → σ → Prop
  | [], _, _ => True
  | f :: fs, bs, s =>
    f.size ≤ bs.length → bs.take f.size = f.load s ∧ Agree fs (bs.drop f.size) s

theorem encodeFields_cons : encodeFields (f :: fs) s = f.load s ++ encodeFields fs s :=
  List.flatMap_cons

theorem decodeInto_of_fits (h : f.size ≤ bs.length) : decodeInto (f :: fs) bs s =
    decodeInto fs (bs.drop f.size) (f.store (bs.take f.size) s) := if_pos h

theorem decodeInto_of_short (h : bs.length < f.size) :
    decodeInto (f :: fs) bs s = (false, s, bs) := if_neg (by omega)

/-- Fields stored later do not disturb a field they keep. -/
theorem load_decodeInto (h : ∀ g ∈ fs, f.Keeps g) :
    f.load (decodeInto fs bs s).2.1 = f.load s := by
  induction fs generalizing bs s with
  | nil => rfl
  | cons g fs ih =>
      by_cases hfit : g.size ≤ bs.length
      · rw [decodeInto_of_fits hfit, ih fun g' hg' => h g' (List.mem_cons_of_mem g hg')]
        exact h g List.mem_cons_self _ _
      · rw [decodeInto_of_short (by omega)]

/-- **Round trip of a record.**  The fields written are all there, are read back into any
state, and nothing more is consumed. -/
theorem decodeInto_encodeFields (rest : List Byte) (hind : fs.Pairwise DataField.Keeps) :
    ∃ s', decodeInto fs (encodeFields fs v ++ rest) s = (true, s', rest) ∧
      ∀ f ∈ fs, f.load s' = f.load v := by
  induction fs generalizing s with
  | nil => exact ⟨s, rfl, by simp⟩
  | cons f fs ih =>
      obtain ⟨hf, hfs⟩ := List.pairwise_cons.mp hind
      have hlen : (f.load v).length = f.size := f.length_load v
      have hfit : f.size ≤ (encodeFields (f :: fs) v ++ rest).length := by
        rw [encodeFields_cons, List.append_assoc, List.length_append, hlen]
        exact Nat.le_add_right _ _
      have htake : (encodeFields (f :: fs) v ++ rest).take f.size = f.load v := by
        rw [encodeFields_cons, List.append_assoc, List.take_left' hlen]
      have hdrop : (encodeFields (f :: fs) v ++ rest).drop f.size = encodeFields fs v ++ rest := by
        rw [encodeFields_cons, List.append_assoc, List.drop_left' hlen]
      obtain ⟨s', hs', hload⟩ := ih (s := f.store (f.load v) s) hfs
      refine ⟨s', ?_, ?_⟩
      · rw [decodeInto_of_fits hfit, htake, hdrop, hs']
      · intro g hg
        rcases List.mem_cons.mp hg with rfl | hg
        · calc
            g.load s' =
                g.load (decodeInto fs (encodeFields fs v ++ rest) (g.store (g.load v) s)).2.1 := by
              rw [hs']
            _ = g.load (g.store (g.load v) s) := load_decodeInto hf
            _ = g.load v := g.load_store _ _ hlen
        · exact hload g hg

/-- **A record that leaves no trace.**  Storing the fields that are there changes nothing
exactly if each finds the bytes the state has. -/
theorem decodeInto_eq_self_iff (hind : fs.Pairwise DataField.Keeps) :
    (decodeInto fs bs s).2.1 = s ↔ Agree fs bs s := by
  induction fs generalizing bs with
  | nil => simp [decodeInto, Agree]
  | cons f fs ih =>
      obtain ⟨hf, hfs⟩ := List.pairwise_cons.mp hind
      by_cases hfit : f.size ≤ bs.length
      · have htake : (bs.take f.size).length = f.size := by
          rw [List.length_take, Nat.min_eq_left hfit]
        rw [decodeInto_of_fits hfit, Agree]
        constructor
        · intro h _
          -- Later fields keep `f`, so what was stored into it is what the state had.
          have hload : bs.take f.size = f.load s := by
            calc bs.take f.size = f.load (f.store (bs.take f.size) s) :=
                  (f.load_store _ _ htake).symm
              _ = f.load s := by rw [← load_decodeInto hf, h]
          refine ⟨hload, (ih hfs).mp ?_⟩
          rwa [hload, f.store_load] at h
        · intro h
          obtain ⟨hload, hrest⟩ := h hfit
          rw [hload, f.store_load]
          exact (ih hfs).mpr hrest
      · rw [decodeInto_of_short (by omega), Agree]
        exact ⟨fun _ h => absurd h hfit, fun _ => rfl⟩

/-- All fields are there exactly if the bytes suffice. -/
theorem decodeInto_complete_iff (fs : List (DataField σ)) (bs : List Byte) (s : σ) :
    (decodeInto fs bs s).1 = true ↔ (fs.map DataField.size).sum ≤ bs.length := by
  induction fs generalizing bs s with
  | nil => simp [decodeInto]
  | cons f fs ih =>
      rw [List.map_cons, List.sum_cons]
      by_cases hfit : f.size ≤ bs.length
      · rw [decodeInto_of_fits hfit, ih, List.length_drop]
        omega
      · rw [decodeInto_of_short (by omega)]
        simp only [Bool.false_eq_true, false_iff]
        omega

/-- The fields lie in the first bytes. -/
theorem decodeInto_take {n : ℕ} (h : (fs.map DataField.size).sum ≤ n) :
    (decodeInto fs (bs.take n) s).2.1 = (decodeInto fs bs s).2.1 := by
  induction fs generalizing n bs s with
  | nil => rfl
  | cons f fs ih =>
      rw [List.map_cons, List.sum_cons] at h
      by_cases hfit : f.size ≤ bs.length
      · have hfit' : f.size ≤ (bs.take n).length := by
          rw [List.length_take]
          omega
        rw [decodeInto_of_fits hfit, decodeInto_of_fits hfit', List.take_take,
          Nat.min_eq_left (by omega), List.drop_take]
        exact ih (by omega)
      · have hshort : (bs.take n).length < f.size := by
          rw [List.length_take]
          omega
        rw [decodeInto_of_short hshort, decodeInto_of_short (not_le.mp hfit)]

end Fields

/-! ## Readers -/

/-- A byte buffer and the position of the next byte. -/
structure Cursor where
  data : List Byte
  offset : ℕ := 0
  deriving DecidableEq, Repr

/-- A computation that takes a value off a buffer, or stops. -/
abbrev Reader (ε : Type) := StateT Cursor (Except ε)

section Readers

variable {ε α β : Type} {N : ℕ} {p : Reader ε α} {q : α → Reader ε β} {bs bs' : List Byte}
  {v : α} {w : β}

/-- On any buffer below `N` bytes that has `bs` at the cursor, `p` takes `bs` and nothing
else, and hands on `v`. -/
def Reads (N : ℕ) (p : Reader ε α) (bs : List Byte) (v : α) : Prop :=
  ∀ pre post, (pre ++ (bs ++ post)).length < N →
    p ⟨pre ++ (bs ++ post), pre.length⟩ = .ok (v, ⟨pre ++ (bs ++ post), (pre ++ bs).length⟩)

/-- What `p` takes off a buffer it takes off every longer one. -/
def Local (N : ℕ) (p : Reader ε α) : Prop :=
  ∀ (data more : List Byte) (o : ℕ) (v : α) (c : Cursor),
    (data ++ more).length < N → o ≤ data.length → p ⟨data, o⟩ = .ok (v, c) →
    c.data = data ∧ c.offset ≤ data.length ∧
      p ⟨data ++ more, o⟩ = .ok (v, ⟨data ++ more, c.offset⟩)

theorem reads_pure (v : α) : Reads N (pure v : Reader ε α) [] v := by
  intro pre post _
  rw [List.append_nil]
  rfl

/-- One after the other. -/
theorem Reads.bind (hp : Reads N p bs v) (hq : Reads N (q v) bs' w) :
    Reads N (p >>= q) (bs ++ bs') w := by
  intro pre post hlen
  rw [List.append_assoc] at hlen ⊢
  have hnext := hq (pre ++ bs) post (by rwa [List.append_assoc])
  rw [List.append_assoc] at hnext
  calc (p >>= q) ⟨pre ++ (bs ++ (bs' ++ post)), pre.length⟩
      = q v ⟨pre ++ (bs ++ (bs' ++ post)), (pre ++ bs).length⟩ := by
        change (p _ >>= fun x => q x.1 x.2) = _
        rw [hp pre (bs' ++ post) hlen]
        rfl
    _ = .ok (w, ⟨pre ++ (bs ++ (bs' ++ post)), (pre ++ (bs ++ bs')).length⟩) := by
        rw [hnext, List.append_assoc]

/-- A reader that hands on a value came through its parts. -/
theorem bind_eq_ok {c c' : Cursor} : (p >>= q) c = .ok (w, c') ↔
    ∃ v d, p c = .ok (v, d) ∧ q v d = .ok (w, c') := by
  change (p c >>= fun x => q x.1 x.2) = _ ↔ _
  cases hp : p c with
  | error e =>
      constructor
      · intro h
        cases h
      · rintro ⟨v, d, h, -⟩
        cases h
  | ok x =>
      constructor
      · intro h
        exact ⟨x.1, x.2, rfl, h⟩
      · rintro ⟨v, d, h, hq⟩
        cases h
        exact hq

theorem local_pure (v : α) : Local N (pure v : Reader ε α) := by
  intro data more o v' c _ ho h
  cases h
  exact ⟨rfl, ho, rfl⟩

theorem Local.bind (hp : Local N p) (hq : ∀ x, Local N (q x)) : Local N (p >>= q) := by
  intro data more o w c hlen ho h
  change (p ⟨data, o⟩ >>= fun x => q x.1 x.2) = .ok (w, c) at h
  cases hpo : p ⟨data, o⟩ with
  | error e =>
      rw [hpo] at h
      cases h
  | ok x =>
      obtain ⟨v, ⟨data', o'⟩⟩ := x
      obtain ⟨rfl, ho', hmore⟩ := hp data more o v ⟨data', o'⟩ hlen ho hpo
      rw [hpo] at h
      obtain ⟨hdata, hle, hext⟩ := hq v data' more o' w c hlen ho' h
      refine ⟨hdata, hle, ?_⟩
      change (p ⟨data' ++ more, o⟩ >>= fun x => q x.1 x.2) = _
      rw [hmore]
      exact hext

end Readers

end BinaryFormats
