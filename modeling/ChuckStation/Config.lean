/-
# The configuration store

`Config.cpp` keeps strings under dot-separated keys.  `Save` groups them into sections by what
stands before the first dot, and puts the keys without a dot into a section of their own; `Load`
puts the name of a section back in front of each key.

* `load_save`: what is read back of any store;
* `roundTrips_iff`: when that is the store.
-/
import ChuckStation.OrderedMaps
import ChuckStation.TextLines

namespace Config

open OrderedMaps Std TextLines

/-- A text. -/
abbrev Text := List Char

/-- `kv_store`. -/
abbrev KvStore := ExtTreeMap Text Text

/-! ## Keys and values -/

/-- `Set`. -/
def set (kvStore : KvStore) (key value : Text) : KvStore := kvStore.insert key value

/-- `Get`. -/
def get (kvStore : KvStore) (key : Text) : Text := kvStore.getD key []

/-! ## Saving -/

/-- The section that a key is saved in. -/
def sectionOf (fullKey : Text) : Text :=
  match find '.' fullKey with
  | none => "general".toList
  | some dot => fullKey.take dot

/-- The key within its section. -/
def keyOf (fullKey : Text) : Text :=
  match find '.' fullKey with
  | none => fullKey
  | some dot => fullKey.drop (dot + 1)

/-- The keys by their sections. -/
def sections (kvStore : KvStore) : ExtTreeMap Text (List (Text × Text)) :=
  groupBy (fun p => sectionOf p.1) (fun p => (keyOf p.1, p.2)) kvStore.toList

/-- `Save`: the file. -/
def save (kvStore : KvStore) : Text :=
  "# ChuckStation5 v1.0.0 configuration (auto-generated)".toList ++ ['\n'] ++
    ("# Repository: github.com/libaerto/chuckstation5-windows".toList ++ ['\n']) ++
    (sections kvStore).toList.flatMap fun (sec, pairs) =>
      '\n' :: '[' :: (sec ++ [']', '\n']) ++
        pairs.flatMap fun (k, v) => k ++ ' ' :: '=' :: ' ' :: (v ++ ['\n'])

/-! ## Loading -/

/-- The locals of the loop of `Load`. -/
structure LoadState where
  sect : Text := []
  kvStore : KvStore := ∅

/-- The key under which a key of a section is stored. -/
def joinKey (sect key : Text) : Text := if sect.isEmpty then key else sect ++ ".".toList ++ key

/-- One pass of the loop of `Load`. -/
def loadLine (st : LoadState) (line : Text) : LoadState :=
  match findFirstNotOf isSpace line with
  | none => st
  | some start =>
    let line := line.drop start
    if line.head? = some '#' ∨ line.head? = some ';' then st
    else if line.head? = some '[' then
      match find ']' line with
      | some last => { st with sect := (line.drop 1).take (last - 1) }
      | none => { st with sect := [] }
    else
      match find '=' line with
      | none => st
      | some eq =>
        let key := trim isBlank isSpace (line.take eq)
        let value := trim isBlank isSpace (line.drop (eq + 1))
        { st with kvStore := st.kvStore.insert (joinKey st.sect key) value }

/-- `Load`; there may be no file. -/
def load (kvStore : KvStore) : Option Text → Bool × KvStore
  | none => (false, kvStore)
  | some file => (true, ((lines '\n' file).foldl loadLine {}).kvStore)

/-! ## One line -/

section Lines

/-- Letters, digits, `_`, `-` and `.`. -/
def isKeyChar (c : Char) : Bool := c.isAlphanum || c = '_' || c = '-' || c = '.'

/-- A word of such characters. -/
def IsWord (key : Text) : Prop := ∀ c ∈ key, isKeyChar c = true

variable {sect key value : Text}

theorem not_mem_of_isWord (h : IsWord key) {c : Char} (hc : isKeyChar c = false) : c ∉ key := by
  intro hin
  rw [h c hin] at hc
  cases hc

theorem not_isSpace_of_isKeyChar {c : Char} (h : isKeyChar c = true) : isSpace c = false :=
  isSpace_eq_false_of_kind (by decide) h

/-- The value behind `=`. -/
theorem trim_value (h : IsField value) : trim isBlank isSpace (' ' :: value) = value := by
  have htrim : trim isBlank isSpace ([' '] ++ (value ++ [])) = value :=
    trim_padded ⟨h.bare.front, h.bare_space.back⟩ isSpace_of_isBlank
      (List.forall_mem_singleton.mpr rfl) (List.forall_mem_nil _)
  rwa [List.append_nil] at htrim

/-- The key in front of it. -/
theorem trim_key (h : IsWord key) : trim isBlank isSpace (key ++ [' ']) = key := by
  have hfield := isField_of_forall fun c hc => not_isSpace_of_isKeyChar (h c hc)
  show trim isBlank isSpace ([] ++ (key ++ [' '])) = key
  exact trim_padded ⟨hfield.bare.front, hfield.bare_space.back⟩ isSpace_of_isBlank
    (List.forall_mem_nil _) (List.forall_mem_singleton.mpr rfl)

theorem loadLine_nil (st : LoadState) : loadLine st [] = st := rfl

/-- The header of a section. -/
theorem loadLine_section (st : LoadState) (h : IsWord sect) :
    loadLine st ('[' :: (sect ++ [']'])) = { st with sect := sect } := by
  have hstart : findFirstNotOf isSpace ('[' :: (sect ++ [']'])) = some 0 :=
    findFirstNotOf_append (List.forall_mem_nil _) rfl _
  rw [loadLine, hstart]
  dsimp only
  rw [List.drop_zero, List.head?_cons, if_neg (by decide), if_pos rfl,
    find_bracketed (by decide) (not_mem_of_isWord h (by decide))]
  dsimp only
  rw [take_bracketed]

/-- A line whose first character opens neither a comment nor a section. -/
theorem loadLine_of_find (st : LoadState) {line front rest : Text} {start : ℕ}
    (hstart : findFirstNotOf isSpace line = some start)
    (hdrop : line.drop start = front ++ '=' :: rest) (hfront : '=' ∉ front)
    (hhead : ∀ c ∈ (line.drop start).head?, c ≠ '#' ∧ c ≠ ';' ∧ c ≠ '[') :
    loadLine st line =
      { st with
        kvStore := st.kvStore.insert (joinKey st.sect (trim isBlank isSpace front))
          (trim isBlank isSpace rest) } := by
  have hne (d : Char) (hd : d = '#' ∨ d = ';' ∨ d = '[') : (line.drop start).head? ≠ some d := by
    intro heq
    obtain ⟨h1, h2, h3⟩ := hhead d heq
    rcases hd with rfl | rfl | rfl
    · exact h1 rfl
    · exact h2 rfl
    · exact h3 rfl
  rw [loadLine, hstart]
  dsimp only
  rw [if_neg (not_or.mpr ⟨hne '#' (by simp), hne ';' (by simp)⟩), if_neg (hne '[' (by simp)), hdrop,
    find_append hfront]
  dsimp only
  rw [List.take_left, ← List.drop_drop, List.drop_left, List.drop_one, List.tail_cons]

/-- A key and its value. -/
theorem loadLine_pair (st : LoadState) (hkey : IsWord key) (hvalue : IsField value) :
    loadLine st (key ++ ' ' :: '=' :: ' ' :: value) =
      { st with kvStore := st.kvStore.insert (joinKey st.sect key) value } := by
  have hval := trim_value hvalue
  cases key with
  | nil =>
      -- The blank in front of the `=` goes before the line is cut.
      have hstart : findFirstNotOf isSpace (' ' :: '=' :: ' ' :: value) = some 1 :=
        findFirstNotOf_append (List.forall_mem_singleton.mpr rfl) rfl _
      have hdrop : (' ' :: '=' :: ' ' :: value).drop 1 = [] ++ '=' :: ' ' :: value := rfl
      have hline := loadLine_of_find st hstart hdrop List.not_mem_nil (by simp)
      rwa [hval] at hline
  | cons c key =>
      have hc := hkey c List.mem_cons_self
      have hstart : findFirstNotOf isSpace (c :: key ++ ' ' :: '=' :: ' ' :: value) = some 0 :=
        findFirstNotOf_append (List.forall_mem_nil _) (not_isSpace_of_isKeyChar hc) _
      have hnot : '=' ∉ c :: key ++ [' '] := by
        rw [List.mem_append, not_or]
        exact ⟨not_mem_of_isWord hkey (by decide), by decide⟩
      have hne (d : Char) (hd : isKeyChar d = false) : c ≠ d := by
        rintro rfl
        rw [hc] at hd
        cases hd
      have hdrop : (c :: key ++ ' ' :: '=' :: ' ' :: value).drop 0 =
          (c :: key ++ [' ']) ++ '=' :: ' ' :: value := by simp
      rw [loadLine_of_find st hstart hdrop hnot, trim_key hkey, hval]
      intro d hd
      obtain rfl : c = d := Option.some.inj hd
      exact ⟨hne _ (by decide), hne _ (by decide), hne _ (by decide)⟩

end Lines

/-! ## A whole file -/

section Files

/-- The lines of a section. -/
def sectionLines (block : Text × List (Text × Text)) : List Text :=
  [] :: ('[' :: (block.1 ++ [']'])) :: block.2.map fun p => p.1 ++ ' ' :: '=' :: ' ' :: p.2

/-- The lines that `Save` writes. -/
def saveLines (kvStore : KvStore) : List Text :=
  "# ChuckStation5 v1.0.0 configuration (auto-generated)".toList ::
    "# Repository: github.com/libaerto/chuckstation5-windows".toList ::
      (sections kvStore).toList.flatMap sectionLines

theorem flatMap_sectionLines (sec : Text) (pairs : List (Text × Text)) :
    (sectionLines (sec, pairs)).flatMap (fun l => l ++ ['\n']) =
      '\n' :: '[' :: (sec ++ [']', '\n']) ++
        pairs.flatMap fun (k, v) => k ++ ' ' :: '=' :: ' ' :: (v ++ ['\n']) := by
  rw [sectionLines, List.flatMap_cons, List.flatMap_cons, List.flatMap_map]
  simp

theorem flatMap_banner (first second : Text) (blocks : List (Text × List (Text × Text))) :
    (first :: second :: blocks.flatMap sectionLines).flatMap (fun l => l ++ ['\n']) =
      first ++ ['\n'] ++ (second ++ ['\n']) ++ blocks.flatMap fun (sec, pairs) =>
        '\n' :: '[' :: (sec ++ [']', '\n']) ++
          pairs.flatMap fun (k, v) => k ++ ' ' :: '=' :: ' ' :: (v ++ ['\n']) := by
  rw [List.flatMap_cons, List.flatMap_cons, List.flatMap_assoc, ← List.append_assoc]
  refine congrArg (List.append _) (List.flatMap_congr fun block _ => ?_)
  exact flatMap_sectionLines block.1 block.2

theorem save_eq_lines (kvStore : KvStore) :
    save kvStore = (saveLines kvStore).flatMap fun l => l ++ ['\n'] :=
  (flatMap_banner _ _ _).symm

/-- Everything that is written of a section is a word or a value. -/
def IsBlock (block : Text × List (Text × Text)) : Prop :=
  IsWord block.1 ∧ ∀ p ∈ block.2, IsWord p.1 ∧ IsField p.2

/-- The pairs of a section as `Load` stores them. -/
def joined (block : Text × List (Text × Text)) : List (Text × Text) :=
  block.2.map fun p => (joinKey block.1 p.1, p.2)

/-- What a store comes back as, pair by pair. -/
def reloaded (kvStore : KvStore) : List (Text × Text) := (sections kvStore).toList.flatMap joined

variable {block : Text × List (Text × Text)} {blocks : List (Text × List (Text × Text))}
  {kvStore : KvStore}

theorem foldl_pairs (st : LoadState) {pairs : List (Text × Text)}
    (h : ∀ p ∈ pairs, IsWord p.1 ∧ IsField p.2) :
    (pairs.map fun p => p.1 ++ ' ' :: '=' :: ' ' :: p.2).foldl loadLine st =
      { st with
        kvStore := insertAll st.kvStore (pairs.map fun p => (joinKey st.sect p.1, p.2)) } := by
  induction pairs generalizing st with
  | nil => rfl
  | cons p pairs ih =>
      rw [List.forall_mem_cons] at h
      rw [List.map_cons, List.foldl_cons, loadLine_pair st h.1.1 h.1.2, ih _ h.2]
      rfl

theorem foldl_sections (st : LoadState) (h : ∀ block ∈ blocks, IsBlock block) :
    ((blocks.flatMap sectionLines).foldl loadLine st).kvStore =
      insertAll st.kvStore (blocks.flatMap joined) := by
  induction blocks generalizing st with
  | nil => rfl
  | cons block blocks ih =>
      rw [List.forall_mem_cons] at h
      rw [List.flatMap_cons, List.foldl_append, ih _ h.2, sectionLines, List.foldl_cons,
        List.foldl_cons, loadLine_nil, loadLine_section st h.1.1, foldl_pairs _ h.1.2,
        List.flatMap_cons]
      exact List.foldl_append.symm

theorem newline_notMem_sectionLines (h : IsBlock block) {l : Text} (hl : l ∈ sectionLines block) :
    '\n' ∉ l := by
  have hword {w : Text} (hw : IsWord w) : '\n' ∉ w := not_mem_of_isWord hw (by decide)
  rcases List.mem_cons.mp hl with rfl | hl
  · exact List.not_mem_nil
  · rcases List.mem_cons.mp hl with rfl | hl
    · simp [hword h.1]
    · obtain ⟨p, hp, rfl⟩ := List.mem_map.mp hl
      obtain ⟨hkey, hvalue⟩ := h.2 p hp
      simp [hword hkey, hvalue.oneLine.1]

/-! ## Keys through their sections -/

variable {fullKey sec : Text}

/-- The key that a key is read back as. -/
def reloadedKey (fullKey : Text) : Text := joinKey (sectionOf fullKey) (keyOf fullKey)

theorem sectionOf_of_dotless (h : '.' ∉ fullKey) :
    sectionOf fullKey = "general".toList ∧ keyOf fullKey = fullKey := by
  rw [sectionOf, keyOf, find_eq_none h]
  exact ⟨rfl, rfl⟩

theorem sectionOf_append (h : '.' ∉ sec) (rest : Text) :
    sectionOf (sec ++ '.' :: rest) = sec ∧ keyOf (sec ++ '.' :: rest) = rest := by
  rw [sectionOf, keyOf, find_append h]
  dsimp only
  rw [List.take_left, ← List.drop_drop, List.drop_left]
  exact ⟨rfl, rfl⟩

theorem isWord_sectionOf (h : IsWord fullKey) :
    IsWord (sectionOf fullKey) ∧ IsWord (keyOf fullKey) := by
  by_cases hdot : '.' ∈ fullKey
  · obtain ⟨sec, rest, rfl, hsec⟩ := List.eq_append_cons_of_mem hdot
    obtain ⟨hs, hk⟩ := sectionOf_append hsec rest
    rw [hs, hk]
    exact ⟨fun c hc => h c (List.mem_append_left _ hc),
      fun c hc => h c (List.mem_append_right _ (List.mem_cons_of_mem _ hc))⟩
  · obtain ⟨hs, hk⟩ := sectionOf_of_dotless hdot
    rw [hs, hk]
    exact ⟨List.all_eq_true.mp (by decide), h⟩

/-- Exactly the pairs of the store are written. -/
theorem mem_sections_iff {k v : Text} :
    (∃ pairs, (sec, pairs) ∈ (sections kvStore).toList ∧ (k, v) ∈ pairs) ↔
      ∃ fullKey, kvStore[fullKey]? = some v ∧ sectionOf fullKey = sec ∧ keyOf fullKey = k := by
  rw [sections, mem_groupBy_iff]
  constructor
  · rintro ⟨⟨fullKey, v'⟩, hin, hsec, hkey⟩
    obtain ⟨hk, rfl⟩ := Prod.mk.inj hkey
    exact ⟨fullKey, ExtTreeMap.mem_toList_iff_getElem?_eq_some.mp hin, hsec, hk⟩
  · rintro ⟨fullKey, hv, hsec, hk⟩
    exact ⟨(fullKey, v), ExtTreeMap.mem_toList_iff_getElem?_eq_some.mpr hv, hsec,
      Prod.ext hk rfl⟩

theorem mem_reloaded_iff {k v : Text} :
    (k, v) ∈ reloaded kvStore ↔
      ∃ fullKey, kvStore[fullKey]? = some v ∧ reloadedKey fullKey = k := by
  rw [reloaded, List.mem_flatMap]
  constructor
  · rintro ⟨⟨sec, pairs⟩, hblock, hin⟩
    obtain ⟨⟨k', v'⟩, hpair, heq⟩ := List.mem_map.mp hin
    obtain ⟨hk, rfl⟩ := Prod.mk.inj heq
    obtain ⟨fullKey, hv, rfl, rfl⟩ := mem_sections_iff.mp ⟨pairs, hblock, hpair⟩
    exact ⟨fullKey, hv, hk⟩
  · rintro ⟨fullKey, hv, rfl⟩
    obtain ⟨pairs, hblock, hpair⟩ := mem_sections_iff.mpr ⟨fullKey, hv, rfl, rfl⟩
    exact ⟨(sectionOf fullKey, pairs), hblock, List.mem_map_of_mem hpair⟩

/-- The keys are words and the values are values. -/
def IsPlain (kvStore : KvStore) : Prop :=
  ∀ key value, kvStore[key]? = some value → key ≠ [] ∧ IsWord key ∧ IsField value

theorem isBlock_of_isPlain (h : IsPlain kvStore) (hblock : block ∈ (sections kvStore).toList) :
    IsBlock block := by
  obtain ⟨sec, pairs⟩ := block
  constructor
  · have hmem : sec ∈ sections kvStore := by
      rw [ExtTreeMap.mem_iff_isSome_getElem?,
        ExtTreeMap.mem_toList_iff_getElem?_eq_some.mp hblock]
      rfl
    obtain ⟨⟨fullKey, v⟩, hin, rfl⟩ := (mem_groupBy _ _ _).mp hmem
    have hv := ExtTreeMap.mem_toList_iff_getElem?_eq_some.mp hin
    exact (isWord_sectionOf (h fullKey v hv).2.1).1
  · rintro ⟨k, v⟩ hpair
    obtain ⟨fullKey, hv, -, rfl⟩ := mem_sections_iff.mp ⟨pairs, hblock, hpair⟩
    obtain ⟨-, hword, hvalue⟩ := h fullKey v hv
    exact ⟨(isWord_sectionOf hword).2, hvalue⟩

/-- **What is read back** of a store: its values, under keys that went through a section. -/
theorem load_save (old : KvStore) (h : IsPlain kvStore) :
    load old (some (save kvStore)) = (true, insertAll ∅ (reloaded kvStore)) := by
  have hlines : ∀ l ∈ saveLines kvStore, '\n' ∉ l := by
    intro l hl
    rcases List.mem_cons.mp hl with rfl | hl
    · decide
    · rcases List.mem_cons.mp hl with rfl | hl
      · decide
      · obtain ⟨block, hblock, hin⟩ := List.mem_flatMap.mp hl
        exact newline_notMem_sectionLines (isBlock_of_isPlain h hblock) hin
  rw [load, save_eq_lines, lines_flatMap hlines, saveLines, List.foldl_cons, List.foldl_cons]
  congr 1
  exact foldl_sections {} fun block hblock => isBlock_of_isPlain h hblock

end Files

/-! ## Round trips -/

section RoundTrip

variable {kvStore : KvStore} {key : Text}

/-- Saving and loading gives the store back, whatever was there before. -/
def RoundTrips (kvStore : KvStore) : Prop :=
  ∀ old, load old (some (save kvStore)) = (true, kvStore)

/-- There is a dot in the key, and not at its front. -/
def IsSectioned (key : Text) : Prop := '.' ∈ key ∧ key.head? ≠ some '.'

theorem reloadedKey_of_isSectioned (h : IsSectioned key) : reloadedKey key = key := by
  obtain ⟨sec, rest, rfl, hsec⟩ := List.eq_append_cons_of_mem h.1
  obtain ⟨hs, hk⟩ := sectionOf_append hsec rest
  rw [reloadedKey, hs, hk, joinKey]
  cases sec with
  | nil => exact absurd rfl h.2
  | cons c sec => simp

/-- A key with a dot at its front loses it. -/
theorem reloadedKey_of_dot (rest : Text) : reloadedKey ('.' :: rest) = rest := by
  obtain ⟨hs, hk⟩ := sectionOf_append List.not_mem_nil rest
  rw [List.nil_append] at hs hk
  rw [reloadedKey, hs, hk]
  rfl

/-- A key without a dot gets a section. -/
theorem reloadedKey_of_dotless (h : '.' ∉ key) : reloadedKey key = "general.".toList ++ key := by
  obtain ⟨hs, hk⟩ := sectionOf_of_dotless h
  rw [reloadedKey, hs, hk]
  rfl

/-- Every key is read back with a dot behind its front, or was one with a dot at its front. -/
theorem isSectioned_reloadedKey (h : key.head? ≠ some '.') : IsSectioned (reloadedKey key) := by
  by_cases hdot : '.' ∈ key
  · rw [reloadedKey_of_isSectioned ⟨hdot, h⟩]
    exact ⟨hdot, h⟩
  · rw [reloadedKey_of_dotless hdot]
    exact ⟨List.mem_append_left _ (by decide), by simp⟩

/-- In a finite list nothing can have something larger of its kind. -/
theorem not_of_exists_larger {β : Type*} {l : List β} {P : β → Prop} (size : β → ℕ)
    (h : ∀ x ∈ l, P x → ∃ y ∈ l, P y ∧ size x < size y) : ∀ x ∈ l, ¬ P x := by
  classical
  intro x hx hP
  obtain ⟨y, hy, hmax⟩ := Finset.exists_max_image (l.toFinset.filter P) size
    ⟨x, Finset.mem_filter.mpr ⟨List.mem_toFinset.mpr hx, hP⟩⟩
  rw [Finset.mem_filter, List.mem_toFinset] at hy
  obtain ⟨z, hz, hPz, hlt⟩ := h y hy.1 hy.2
  have hle := hmax z (Finset.mem_filter.mpr ⟨List.mem_toFinset.mpr hz, hPz⟩)
  omega

/-- Keys that are all read back as keys of the store have their dots behind their fronts: each one
with a dot at its front would come of a longer one. -/
theorem isSectioned_of_reloaded
    (h : ∀ key ∈ kvStore.keys, ∃ key' ∈ kvStore.keys, reloadedKey key' = key) :
    ∀ key ∈ kvStore.keys, IsSectioned key := by
  have hfront : ∀ key ∈ kvStore.keys, ¬ key.head? = some '.' := by
    refine not_of_exists_larger List.length fun key hkey hdot => ?_
    obtain ⟨key', hkey', rfl⟩ := h key hkey
    by_cases hdot' : key'.head? = some '.'
    · refine ⟨key', hkey', hdot', ?_⟩
      obtain ⟨rest, rfl⟩ := List.head?_eq_some_iff.mp hdot'
      rw [reloadedKey_of_dot, List.length_cons]
      omega
    · exact absurd hdot (isSectioned_reloadedKey hdot').2
  intro key hkey
  obtain ⟨key', hkey', rfl⟩ := h key hkey
  exact isSectioned_reloadedKey (hfront key' hkey')

theorem mem_keys_iff {key : Text} : key ∈ kvStore.keys ↔ ∃ value, kvStore[key]? = some value := by
  rw [ExtTreeMap.mem_keys, ExtTreeMap.mem_iff_isSome_getElem?, Option.isSome_iff_exists]

/-- A store that comes back is written under keys that it has. -/
theorem isSectioned_of_roundTrips (h : IsPlain kvStore) (hround : RoundTrips kvStore)
    {value : Text} (hkey : kvStore[key]? = some value) : IsSectioned key := by
  have hback := hround ∅
  rw [load_save ∅ h] at hback
  have hstore : insertAll ∅ (reloaded kvStore) = kvStore := congrArg Prod.snd hback
  refine isSectioned_of_reloaded (fun key hkey => ?_) key (mem_keys_iff.mpr ⟨value, hkey⟩)
  obtain ⟨value, hvalue⟩ := mem_keys_iff.mp hkey
  rw [← hstore] at hvalue
  rcases getElem?_insertAll_cases hvalue with hin | ⟨hempty, -⟩
  · obtain ⟨fullKey, hfull, rfl⟩ := mem_reloaded_iff.mp hin
    exact ⟨fullKey, mem_keys_iff.mpr ⟨value, hfull⟩, rfl⟩
  · rw [ExtTreeMap.getElem?_empty] at hempty
    cases hempty

theorem roundTrips_of_isSectioned (h : IsPlain kvStore)
    (hkeys : ∀ key value, kvStore[key]? = some value → IsSectioned key) : RoundTrips kvStore := by
  have hpairs : ∀ key value, (key, value) ∈ reloaded kvStore ↔ kvStore[key]? = some value := by
    intro key value
    rw [mem_reloaded_iff]
    constructor
    · rintro ⟨fullKey, hfull, rfl⟩
      rwa [reloadedKey_of_isSectioned (hkeys fullKey value hfull)]
    · intro hkey
      exact ⟨key, hkey, reloadedKey_of_isSectioned (hkeys key value hkey)⟩
  intro old
  rw [load_save old h]
  congr 1
  apply ExtTreeMap.ext_getElem?
  intro key
  apply Option.ext
  intro value
  rw [getElem?_insertAll_iff, hpairs]
  intro key value value' hin hin'
  rw [hpairs] at hin hin'
  exact Option.some.inj (hin.symm.trans hin')

/-- **Saving and loading** gives a store back exactly if each of its keys has a dot behind its
front. -/
theorem roundTrips_iff (h : IsPlain kvStore) :
    RoundTrips kvStore ↔ ∀ key value, kvStore[key]? = some value → IsSectioned key :=
  ⟨fun hround _ _ hkey => isSectioned_of_roundTrips h hround hkey, roundTrips_of_isSectioned h⟩

end RoundTrip

theorem getElem?_singleton {key key' value value' : Text}
    (h : ((∅ : KvStore).insert key value)[key']? = some value') : key' = key ∧ value' = value := by
  rw [ExtTreeMap.getElem?_insert] at h
  split_ifs at h with hkey
  · exact ⟨(cmp_eq_iff.mp hkey).symm, (Option.some.inj h).symm⟩
  · rw [ExtTreeMap.getElem?_empty] at h
    cases h

theorem isPlain_singleton {key value : Text} (hne : key ≠ []) (hword : IsWord key)
    (hvalue : IsField value) : IsPlain ((∅ : KvStore).insert key value) := by
  intro key' value' h
  obtain ⟨rfl, rfl⟩ := getElem?_singleton h
  exact ⟨hne, hword, hvalue⟩

theorem isField_dark : IsField "dark".toList :=
  isField_of_forall (isSpace_eq_false_of_any (by decide))

/-- A theme that is stored under the key of the user interface. -/
theorem roundTrips_theme : RoundTrips ((∅ : KvStore).insert "ui.theme".toList "dark".toList) := by
  refine (roundTrips_iff (isPlain_singleton (by decide) (List.all_eq_true.mp (by decide))
    isField_dark)).mpr fun key value h => ?_
  rw [(getElem?_singleton h).1]
  exact ⟨by decide, by decide⟩

/-- One that is stored under a key without a dot. -/
theorem not_roundTrips_dotless : ¬ ∀ kvStore, IsPlain kvStore → RoundTrips kvStore := by
  intro h
  have hplain : IsPlain ((∅ : KvStore).insert "theme".toList "dark".toList) :=
    isPlain_singleton (by decide) (List.all_eq_true.mp (by decide)) isField_dark
  have hsectioned := isSectioned_of_roundTrips hplain (h _ hplain)
    (getElem?_insert_self ∅ "theme".toList "dark".toList)
  exact absurd hsectioned.1 (by decide)

end Config
