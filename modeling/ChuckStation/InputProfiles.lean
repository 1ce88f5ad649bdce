/-
# Profiles that are saved and loaded

`SaveProfile` writes a section for the name of the active profile and one for each entry, and
`LoadProfile` reads them back.  Every name of the tables is found under itself and every key code
is read as it was printed; what `std::stof` does with a printed float is another matter.

* `parseIni_sections`: the sections that were written are read;
* `reloads_iff`: when a profile that was saved comes back.
-/
import ChuckStation.InputMapping

namespace InputMapping

open NumberTexts OperationRuns TextLines

/-! ## Sections as lines -/

section Sections

variable {key value sect : Text} {p : Text × Text} {sec : IniSection} {secs : List IniSection}

/-- The line of a key and its value. -/
def pairLine (p : Text × Text) : Text := p.1 ++ '=' :: p.2

/-- The lines of a section, and an empty one behind them. -/
def sectionLines (sec : IniSection) : List Text :=
  ('[' :: (sec.name ++ [']'])) :: (sec.kv.map pairLine ++ [[]])

/-- A word of letters. -/
structure IsKey (key : Text) : Prop where
  ne_nil : key ≠ []
  isAlpha : key.all Char.isAlpha = true

/-- The header of the section can be read, and so can the lines below it. -/
structure IsWritten (sec : IniSection) : Prop where
  name : ']' ∉ sec.name ∧ '\n' ∉ sec.name
  kv : ∀ p ∈ sec.kv, IsKey p.1 ∧ IsField p.2

theorem IsKey.not_mem (h : IsKey key) {c : Char} (hc : c.isAlpha = false) : c ∉ key := by
  intro hin
  rw [List.all_eq_true.mp h.isAlpha c hin] at hc
  cases hc

theorem IsKey.isField (h : IsKey key) : IsField key :=
  isField_of_forall fun c hc =>
    isSpace_eq_false_of_kind (by decide) (List.all_eq_true.mp h.isAlpha c hc)

/-- What is at the front of a key opens neither a comment nor a section. -/
theorem IsKey.head?_ne (h : IsKey key) {c : Char} (hc : c.isAlpha = false) (s : Text) :
    (key ++ s).head? ≠ some c := by
  intro heq
  rw [List.head?_append_of_ne_nil _ h.ne_nil] at heq
  exact h.not_mem hc (List.mem_of_mem_head? heq)

theorem trimField_of_isField (h : IsField value) : trimField value = value := by
  by_cases hne : value = []
  · rw [hne]
    rfl
  · obtain ⟨hfirst, hbetween⟩ := between_of_bare h.bare hne
    rw [trimField, hfirst]
    cases hlast : findLastNotOf isBlank value with
    | none => rfl
    | some e =>
        rw [hlast] at hbetween
        exact hbetween

theorem parseLine_of_bare {line : Text} (ss : List IniSection) (hbare : Bare isSpace isSpace line)
    (hne : line ≠ []) : parseLine ss line = parseTrimmed ss line := by
  obtain ⟨hfirst, hline⟩ := between_of_bare hbare hne
  rw [parseLine, hfirst]
  exact congrArg (parseTrimmed ss) hline

theorem parseLine_nil (ss : List IniSection) : parseLine ss [] = ss := rfl

theorem parseLine_header (ss : List IniSection) (h : ']' ∉ sect) :
    parseLine ss ('[' :: (sect ++ [']'])) = { name := sect } :: ss := by
  have hbare : Bare isSpace isSpace ('[' :: (sect ++ [']'])) := by
    constructor
    · rintro c ⟨⟩
      rfl
    · intro c hc
      rw [← List.cons_append, List.getLast?_concat] at hc
      cases hc
      rfl
  rw [parseLine_of_bare ss hbare (List.cons_ne_nil _ _), parseTrimmed.eq_def, List.head?_cons,
    if_neg (by decide), if_pos rfl, find_bracketed (by decide) h]
  dsimp only
  rw [take_bracketed]

theorem parseLine_pairLine (cur : IniSection) (rest : List IniSection) (hkey : IsKey p.1)
    (hvalue : IsField p.2) :
    parseLine (cur :: rest) (pairLine p) = { cur with kv := cur.kv ++ [p] } :: rest := by
  have hbare : Bare isSpace isSpace (pairLine p) := by
    constructor
    · intro c hc
      rw [pairLine, List.head?_append_of_ne_nil _ hkey.ne_nil] at hc
      exact hkey.isField.bare_space.front c hc
    · intro c hc
      rw [pairLine, List.getLast?_append_cons] at hc
      cases hp : p.2 with
      | nil =>
          rw [hp] at hc
          cases hc
          rfl
      | cons d s =>
          rw [hp, List.getLast?_cons_cons, ← hp] at hc
          exact hvalue.bare_space.back c hc
  have hhead {c : Char} (hc : c.isAlpha = false) : (pairLine p).head? ≠ some c :=
    hkey.head?_ne hc _
  rw [parseLine_of_bare _ hbare (by simp [pairLine]), parseTrimmed,
    if_neg (not_or.mpr ⟨hhead (by decide), hhead (by decide)⟩), if_neg (hhead (by decide)),
    pairLine, find_append (hkey.not_mem (by decide))]
  dsimp only
  rw [List.take_left, ← List.drop_drop, List.drop_left, List.drop_one, List.tail_cons,
    trimField_of_isField hkey.isField, trimField_of_isField hvalue]

theorem foldl_pairLines {kv : List (Text × Text)} (cur : IniSection) (rest : List IniSection)
    (h : ∀ p ∈ kv, IsKey p.1 ∧ IsField p.2) :
    (kv.map pairLine).foldl parseLine (cur :: rest) = { cur with kv := cur.kv ++ kv } :: rest := by
  induction kv generalizing cur with
  | nil => rw [List.append_nil, List.map_nil, List.foldl_nil]
  | cons p kv ih =>
      rw [List.forall_mem_cons] at h
      rw [List.map_cons, List.foldl_cons, parseLine_pairLine cur rest h.1.1 h.1.2, ih _ h.2,
        List.append_assoc, List.singleton_append]

theorem foldl_sectionLines (ss : List IniSection) (h : IsWritten sec) :
    (sectionLines sec).foldl parseLine ss = sec :: ss := by
  rw [sectionLines, List.foldl_cons, parseLine_header ss h.name.1, List.foldl_append,
    foldl_pairLines _ _ h.kv]
  exact parseLine_nil _

theorem newline_notMem_sectionLines (h : IsWritten sec) : ∀ l ∈ sectionLines sec, '\n' ∉ l := by
  intro l hl
  rw [sectionLines, List.mem_cons, List.mem_append, List.mem_map, List.mem_singleton] at hl
  rcases hl with rfl | ⟨p, hp, rfl⟩ | rfl
  · simp [h.name.2]
  · obtain ⟨hkey, hvalue⟩ := h.kv p hp
    simp [pairLine, hkey.isField.oneLine.1, hvalue.oneLine.1]
  · exact List.not_mem_nil

/-- **Sections** that are written one after the other are read one after the other. -/
theorem parseIni_sections (h : ∀ sec ∈ secs, IsWritten sec) :
    parseIni ((secs.flatMap sectionLines).flatMap fun l => l ++ ['\n']) = secs := by
  have hlines : ∀ l ∈ secs.flatMap sectionLines, '\n' ∉ l := by
    intro l hl
    obtain ⟨sec, hsec, hin⟩ := List.mem_flatMap.mp hl
    exact newline_notMem_sectionLines (h sec hsec) l hin
  have hfold (ss : List IniSection) :
      (secs.flatMap sectionLines).foldl parseLine ss = secs.reverse ++ ss := by
    clear hlines
    induction secs generalizing ss with
    | nil => rfl
    | cons sec secs ih =>
        rw [List.forall_mem_cons] at h
        rw [List.flatMap_cons, List.foldl_append, foldl_sectionLines ss h.1, ih h.2,
          List.reverse_cons, List.append_assoc, List.singleton_append]
  rw [parseIni, lines_flatMap hlines, hfold, List.append_nil, List.reverse_reverse]

end Sections

/-! ## The sections of a profile -/

section Profiles

variable {F : Type} {num : Numbers F} {i : ℕ} {e : MappingEntry F} {profile : MappingProfile F}

/-- What has no name in the table is not found in it either. -/
theorem ps5ButtonFromName_name (b : Ps5Button) : ps5ButtonFromName (ps5ButtonName b) = b := by
  cases b <;> rfl

theorem hostInputTypeFromName_name (t : HostInputType) :
    hostInputTypeFromName (hostInputTypeName t) = t := by
  cases t <;> rfl

/-- What is written for a flag. -/
def boolName (b : Bool) : Text := if b then "true".toList else "false".toList

/-- The pairs that are written for an entry. -/
def entryPairs (num : Numbers F) (e : MappingEntry F) : List (Text × Text) :=
  [("target".toList, ps5ButtonName e.target),
    ("sourceType".toList, hostInputTypeName e.sourceType),
    ("sourceId".toList, decimal e.sourceId.toNat),
    ("scale".toList, num.print e.scale),
    ("deadzone".toList, num.print e.deadzone),
    ("inverted".toList, boolName e.inverted)]

/-- The section of an entry. -/
def entrySection (num : Numbers F) (e : MappingEntry F) (i : ℕ) : IniSection :=
  { name := "mapping.".toList ++ decimal i, kv := entryPairs num e }

/-- The section of a name. -/
def nameSection (name : Text) : IniSection :=
  { name := "profile".toList, kv := [("name".toList, name)] }

/-- The sections of a profile. -/
def profileSections (num : Numbers F) (profile : MappingProfile F) : List IniSection :=
  nameSection profile.name :: profile.entries.zipIdx.map fun p => entrySection num p.1 p.2

theorem flatMap_sectionLines (name : Text) (kv : List (Text × Text)) :
    (sectionLines { name, kv }).flatMap (fun l => l ++ ['\n']) =
      '[' :: (name ++ [']', '\n']) ++
        ((kv.flatMap fun p => p.1 ++ '=' :: (p.2 ++ ['\n'])) ++ ['\n']) := by
  simp [sectionLines, pairLine, List.flatMap_map]

/-- Six keys with the `=` behind them. -/
theorem flatten_labels (word digits k₁ v₁ k₂ v₂ k₃ v₃ k₄ v₄ k₅ v₅ k₆ v₆ : Text) :
    List.flatten
      [('[' :: word) ++ digits ++ [']', '\n'], k₁ ++ ['='] ++ v₁ ++ ['\n'],
        k₂ ++ ['='] ++ v₂ ++ ['\n'], k₃ ++ ['='] ++ v₃ ++ ['\n'], k₄ ++ ['='] ++ v₄ ++ ['\n'],
        k₅ ++ ['='] ++ v₅ ++ ['\n'], k₆ ++ ['='] ++ v₆ ++ ['\n'], ['\n']] =
      (sectionLines
        { name := word ++ digits
          kv := [(k₁, v₁), (k₂, v₂), (k₃, v₃), (k₄, v₄), (k₅, v₅), (k₆, v₆)] }).flatMap
        fun l => l ++ ['\n'] := by
  rw [flatMap_sectionLines]
  simp

theorem writeEntry_eq (e : MappingEntry F) (i : ℕ) :
    writeEntry num i e =
      (sectionLines (entrySection num e i)).flatMap fun l => l ++ ['\n'] := by
  have hheader : "[mapping.".toList = '[' :: "mapping.".toList := rfl
  have htarget : "target=".toList = "target".toList ++ ['='] := rfl
  have htype : "sourceType=".toList = "sourceType".toList ++ ['='] := rfl
  have hid : "sourceId=".toList = "sourceId".toList ++ ['='] := rfl
  have hscale : "scale=".toList = "scale".toList ++ ['='] := rfl
  have hdeadzone : "deadzone=".toList = "deadzone".toList ++ ['='] := rfl
  have hinverted : "inverted=".toList = "inverted".toList ++ ['='] := rfl
  have hclose : "]\n".toList = [']', '\n'] := rfl
  have hnewline : "\n".toList = ['\n'] := rfl
  unfold writeEntry
  rw [hheader, htarget, htype, hid, hscale, hdeadzone, hinverted, hclose, hnewline,
    flatten_labels]
  rfl

theorem append_labels {header label close word key : Text}
    (hheader : header = '[' :: (word ++ [']', '\n'])) (hlabel : label = key ++ ['='])
    (hclose : close = ['\n', '\n']) (name : Text) :
    header ++ (label ++ name ++ close) =
      (sectionLines { name := word, kv := [(key, name)] }).flatMap fun l => l ++ ['\n'] := by
  rw [hheader, hlabel, hclose, flatMap_sectionLines]
  simp

theorem writeProfileIni_eq :
    writeProfileIni num profile =
      ((profileSections num profile).flatMap sectionLines).flatMap fun l => l ++ ['\n'] := by
  have hheader : "[profile]\n".toList = '[' :: ("profile".toList ++ [']', '\n']) := rfl
  have hlabel : "name=".toList = "name".toList ++ ['='] := rfl
  have hclose : "\n\n".toList = ['\n', '\n'] := rfl
  have hname : "[profile]\n".toList ++ ("name=".toList ++ profile.name ++ "\n\n".toList) =
      (sectionLines (nameSection profile.name)).flatMap fun l => l ++ ['\n'] :=
    append_labels hheader hlabel hclose profile.name
  unfold writeProfileIni
  rw [profileSections, List.flatMap_cons, List.flatMap_append, List.flatMap_assoc,
    List.flatMap_map, hname]
  exact congrArg (List.append _) (List.flatMap_congr fun p _ => writeEntry_eq p.1 p.2)

theorem isWritten_nameSection {name : Text} (h : IsField name) : IsWritten (nameSection name) := by
  have hword : ']' ∉ "profile".toList ∧ '\n' ∉ "profile".toList := by decide
  have hkey : IsKey "name".toList := ⟨by decide, by decide⟩
  exact ⟨hword, List.forall_mem_singleton.mpr ⟨hkey, h⟩⟩

theorem isField_decimal (n : ℕ) : IsField (decimal n) :=
  isField_of_forall fun _ hc => isSpace_eq_false_of_kind (by decide) (isDigit_of_mem_decimal hc)

theorem isField_ps5ButtonName (b : Ps5Button) : IsField (ps5ButtonName b) := by
  apply isField_of_forall
  apply isSpace_eq_false_of_any
  cases b <;> rfl

theorem isField_hostInputTypeName (t : HostInputType) : IsField (hostInputTypeName t) := by
  apply isField_of_forall
  apply isSpace_eq_false_of_any
  cases t <;> rfl

theorem isField_boolName (b : Bool) : IsField (boolName b) := by
  apply isField_of_forall
  apply isSpace_eq_false_of_any
  cases b <;> rfl

theorem not_mem_append_decimal {word : Text} {c : Char} (hword : c ∉ word)
    (hc : c.isDigit = false) (n : ℕ) : c ∉ word ++ decimal n := by
  rw [List.mem_append, not_or]
  refine ⟨hword, fun hin => ?_⟩
  rw [isDigit_of_mem_decimal hin] at hc
  cases hc

theorem isWritten_entrySection (e : MappingEntry F) (i : ℕ) : IsWritten (entrySection num e i) := by
  have hprint (x : F) : IsField (num.print x) := isField_of_forall (num.print_word x)
  have htarget : IsKey "target".toList := ⟨by decide, by decide⟩
  have htype : IsKey "sourceType".toList := ⟨by decide, by decide⟩
  have hid : IsKey "sourceId".toList := ⟨by decide, by decide⟩
  have hscale : IsKey "scale".toList := ⟨by decide, by decide⟩
  have hdeadzone : IsKey "deadzone".toList := ⟨by decide, by decide⟩
  have hinverted : IsKey "inverted".toList := ⟨by decide, by decide⟩
  refine ⟨⟨not_mem_append_decimal (by decide) (by decide) i,
    not_mem_append_decimal (by decide) (by decide) i⟩, ?_⟩
  refine List.forall_mem_cons.mpr ⟨⟨htarget, isField_ps5ButtonName _⟩, ?_⟩
  refine List.forall_mem_cons.mpr ⟨⟨htype, isField_hostInputTypeName _⟩, ?_⟩
  refine List.forall_mem_cons.mpr ⟨⟨hid, isField_decimal _⟩, ?_⟩
  refine List.forall_mem_cons.mpr ⟨⟨hscale, hprint _⟩, ?_⟩
  refine List.forall_mem_cons.mpr ⟨⟨hdeadzone, hprint _⟩, ?_⟩
  exact List.forall_mem_singleton.mpr ⟨hinverted, isField_boolName _⟩

/-- **The sections of a file** that was written are those of the profile. -/
theorem parseIni_writeProfileIni (h : IsField profile.name) :
    parseIni (writeProfileIni num profile) = profileSections num profile := by
  rw [writeProfileIni_eq]
  apply parseIni_sections
  rw [profileSections, List.forall_mem_cons]
  refine ⟨isWritten_nameSection h, fun sec hsec => ?_⟩
  obtain ⟨p, -, rfl⟩ := List.mem_map.mp hsec
  exact isWritten_entrySection p.1 p.2

/-! ## Reading them -/

/-- What an entry says apart from its floats. -/
def MappingEntry.binding (e : MappingEntry F) : Ps5Button × HostInputType × U32 × Bool :=
  (e.target, e.sourceType, e.sourceId, e.inverted)

/-- The floats of an entry are read as they are printed, to whatever floats. -/
def Accepts (num : Numbers F) (e : MappingEntry F) : Prop :=
  (∃ x, num.stof (num.print e.scale) = .ok x) ∧ ∃ x, num.stof (num.print e.deadzone) = .ok x

theorem stoul_sourceId (e : MappingEntry F) :
    stoul num.ulongBits (decimal e.sourceId.toNat) = .ok e.sourceId.toNat := by
  have hle := Nat.pow_le_pow_right (show 0 < 2 by norm_num) num.le_ulongBits
  exact stoul_decimal (by have := e.sourceId.isLt; omega)

theorem converts_entrySection_iff : Converts num (entrySection num e i) ↔ Accepts num e := by
  constructor
  · intro h
    exact ⟨h.scale, h.deadzone⟩
  · rintro ⟨hscale, hdeadzone⟩
    exact ⟨exists_stoul_iff.mp ⟨_, stoul_sourceId e⟩, hscale, hdeadzone⟩

theorem binding_of_readEntry {e' : MappingEntry F}
    (h : readEntry num (entrySection num e i) = .ok e') : e'.binding = e.binding := by
  have hid : stoul num.ulongBits (getKv (entrySection num e i) "sourceId".toList "0".toList) =
      .ok e.sourceId.toNat := stoul_sourceId e
  have hbutton : ps5ButtonFromName (getKv (entrySection num e i) "target".toList []) = e.target :=
    ps5ButtonFromName_name _
  have htype : hostInputTypeFromName (getKv (entrySection num e i) "sourceType".toList
      "Keyboard".toList) = e.sourceType := hostInputTypeFromName_name _
  have hflag : decide (getKv (entrySection num e i) "inverted".toList "false".toList =
      "true".toList) = e.inverted := by
    show decide (boolName e.inverted = "true".toList) = e.inverted
    cases e.inverted <;> decide
  rw [readEntry, hid, ok_bind] at h
  obtain ⟨x, -, h⟩ := bind_eq_ok h
  obtain ⟨y, -, h⟩ := bind_eq_ok h
  dsimp only at h
  rw [hbutton, htype] at h
  cases h
  rw [MappingEntry.binding, MappingEntry.binding, hflag, BitVec.ofNat_toNat, BitVec.setWidth_eq]

theorem isMapping_entrySection : IsMapping (entrySection num e i) := List.prefix_append _ _

theorem not_isMapping_nameSection (name : Text) : ¬ IsMapping (nameSection name) := by
  show ¬ "mapping.".toList <+: "profile".toList
  decide

theorem readSection_nameSection (name : Text) :
    readSection num profile (nameSection name) = .ok { profile with name := name } := rfl

/-- Reading the section of an entry adds one that says the same. -/
theorem readSection_entrySection {p : MappingProfile F} (htarget : e.target ≠ .Count)
    (h : readSection num profile (entrySection num e i) = .ok p) :
    p.name = profile.name ∧
      p.entries.map MappingEntry.binding =
        profile.entries.map MappingEntry.binding ++ [e.binding] := by
  have hname : (entrySection num e i).name ≠ "profile".toList := by
    intro hname
    have hmapping : IsMapping (entrySection num e i) := isMapping_entrySection
    rw [IsMapping, hname] at hmapping
    exact absurd hmapping (by decide)
  rw [readSection, if_neg hname,
    if_pos (List.isPrefixOf_iff_prefix.mpr isMapping_entrySection)] at h
  obtain ⟨e', he', h⟩ := bind_eq_ok h
  have hbinding := binding_of_readEntry he'
  have htarget' : e'.target ≠ .Count := by
    rw [show e'.target = e.target from congrArg Prod.fst hbinding]
    exact htarget
  rw [if_pos htarget'] at h
  cases h
  rw [List.map_append, List.map_singleton, hbinding]
  exact ⟨rfl, rfl⟩

theorem foldlM_entrySections {es : List (MappingEntry F × ℕ)} {p : MappingProfile F}
    (htargets : ∀ x ∈ es, x.1.target ≠ .Count)
    (h : (es.map fun x => entrySection num x.1 x.2).foldlM (readSection num) profile = .ok p) :
    p.name = profile.name ∧
      p.entries.map MappingEntry.binding =
        profile.entries.map MappingEntry.binding ++ es.map fun x => x.1.binding := by
  induction es generalizing profile with
  | nil =>
      cases h
      exact ⟨rfl, (List.append_nil _).symm⟩
  | cons x es ih =>
      rw [List.forall_mem_cons] at htargets
      rw [List.map_cons] at h
      obtain ⟨q, hq, hrest⟩ := foldlM_cons_eq_ok h
      obtain ⟨hname, hentries⟩ := readSection_entrySection htargets.1 hq
      obtain ⟨hname', hentries'⟩ := ih htargets.2 hrest
      rw [hname', hname, hentries', hentries, List.append_assoc, List.singleton_append,
        List.map_cons]
      exact ⟨rfl, rfl⟩

/-- What is read of the sections of a profile is that profile, its floats apart. -/
theorem foldlM_profileSections {p q : MappingProfile F}
    (htargets : ∀ e ∈ profile.entries, e.target ≠ .Count) (hq : q.entries = [])
    (h : (profileSections num profile).foldlM (readSection num) q = .ok p) :
    p.name = profile.name ∧
      p.entries.map MappingEntry.binding = profile.entries.map MappingEntry.binding := by
  obtain ⟨r, hr, hrest⟩ := foldlM_cons_eq_ok h
  rw [readSection_nameSection] at hr
  cases hr
  have htargets' : ∀ x ∈ profile.entries.zipIdx, x.1.target ≠ .Count := fun x hx =>
    htargets x.1 (List.fst_mem_of_mem_zipIdx hx)
  obtain ⟨hname, hentries⟩ := foldlM_entrySections htargets' hrest
  refine ⟨hname, hentries.trans ?_⟩
  have hmap : (profile.entries.zipIdx.map fun x => x.1.binding) =
      (profile.entries.zipIdx.map Prod.fst).map MappingEntry.binding := by
    rw [List.map_map]
    rfl
  rw [hq, hmap, List.zipIdx_map_fst]
  rfl

/-! ## Round trips -/

/-- Whenever the module is initialised, loading the file makes the profile active, with the same
entries in the same order, their floats apart. -/
def Reloads (num : Numbers F) (file : Text) (profile : MappingProfile F) : Prop :=
  ∀ st : InputMappingState F, st.initialised = true →
    ∃ st', loadProfile num (some file) st = .ok (true, st') ∧
      st'.activeProfile.name = profile.name ∧
      st'.activeProfile.entries.map MappingEntry.binding =
        profile.entries.map MappingEntry.binding

theorem converts_profileSections_iff :
    (∀ sec ∈ profileSections num profile, IsMapping sec → Converts num sec) ↔
      ∀ e ∈ profile.entries, Accepts num e := by
  rw [profileSections, List.forall_mem_cons]
  constructor
  · rintro ⟨-, h⟩ e he
    obtain ⟨i, hi⟩ := List.mem_iff_getElem?.mp he
    have hin := List.mk_mem_zipIdx_iff_getElem?.mpr hi
    exact converts_entrySection_iff.mp (h _ (List.mem_map_of_mem hin) isMapping_entrySection)
  · intro h
    refine ⟨fun hmapping => absurd hmapping (not_isMapping_nameSection _), fun sec hsec _ => ?_⟩
    obtain ⟨p, hp, rfl⟩ := List.mem_map.mp hsec
    exact converts_entrySection_iff.mpr (h p.1 (List.fst_mem_of_mem_zipIdx hp))

theorem readProfileIni_writeProfileIni (hname : IsField profile.name)
    (htargets : ∀ e ∈ profile.entries, e.target ≠ .Count)
    (h : ∀ e ∈ profile.entries, Accepts num e) :
    ∃ p : MappingProfile F, readProfileIni num (writeProfileIni num profile) = .ok (some p) ∧
      p.name = profile.name ∧
      p.entries.map MappingEntry.binding = profile.entries.map MappingEntry.binding := by
  have hsections : parseIni (writeProfileIni num profile) = profileSections num profile :=
    parseIni_writeProfileIni hname
  have hread : (∃ p, (profileSections num profile).foldlM (readSection num) {} = .ok p) ↔ _ :=
    foldlM_isOk_iff_forall fun q sec => exists_readSection_iff q
  obtain ⟨p, hp⟩ := hread.mpr (converts_profileSections_iff.mpr h)
  refine ⟨p, ?_, foldlM_profileSections htargets rfl hp⟩
  have hne : profileSections num profile ≠ [] := List.cons_ne_nil _ _
  rw [readProfileIni, hsections, if_neg hne, hp, ok_bind]
  rfl

theorem reloads_writeProfileIni_iff (profile : MappingProfile F) (hname : IsField profile.name)
    (htargets : ∀ e ∈ profile.entries, e.target ≠ .Count)
    (hstate : ∃ st : InputMappingState F, st.initialised = true) :
    Reloads num (writeProfileIni num profile) profile ↔ ∀ e ∈ profile.entries, Accepts num e := by
  constructor
  · intro h
    obtain ⟨st, hinit⟩ := hstate
    obtain ⟨st', hload, -⟩ := h st hinit
    rw [loadProfile, hinit] at hload
    obtain ⟨loaded, hread, -⟩ := bind_eq_ok hload
    have hconverts := exists_readProfileIni_iff.mp ⟨loaded, hread⟩
    rw [parseIni_writeProfileIni hname] at hconverts
    exact converts_profileSections_iff.mp hconverts
  · intro h st hinit
    obtain ⟨p, hread, hback⟩ := readProfileIni_writeProfileIni hname htargets h
    refine ⟨{ st with activeProfile := p }, ?_, hback⟩
    rw [loadProfile, hinit, hread]
    rfl

/-- **A profile that was saved** comes back exactly if the floats of its entries are read as they
are printed. -/
theorem reloads_iff {opens : Bool} {name file : Text} {st : InputMappingState F}
    (hname : IsField name) (htargets : ∀ e ∈ st.activeProfile.entries, e.target ≠ .Count)
    (hsave : saveProfile num opens name st = some file) :
    Reloads num file { st.activeProfile with name := name } ↔
      ∀ e ∈ st.activeProfile.entries, Accepts num e := by
  rw [saveProfile] at hsave
  split_ifs at hsave with hinit
  cases hsave
  rw [Bool.and_eq_true] at hinit
  exact reloads_writeProfileIni_iff _ hname htargets ⟨st, hinit.1⟩

end Profiles

/-- The cross on the space bar, with a scale. -/
def spaceBar (scale : BitVec 32) : MappingEntry (BitVec 32) :=
  { target := .Cross, sourceType := .Keyboard, sourceId := 0x20, scale, deadzone := 0 }

theorem isField_pad : IsField "My pad".toList := by
  refine ⟨by decide, ?_, ?_⟩
  · rintro c ⟨⟩
    rfl
  · rintro c ⟨⟩
    rfl

/-- One entry with the scale that is the default. -/
theorem reloads_pad :
    Reloads someFloats
      (writeProfileIni someFloats { name := "My pad".toList, entries := [spaceBar 0x3f800000] })
      { name := "My pad".toList, entries := [spaceBar 0x3f800000] } := by
  have hsave : saveProfile someFloats true "My pad".toList
      { activeProfile := { entries := [spaceBar 0x3f800000] }, initialised := true } =
      some (writeProfileIni someFloats
        { name := "My pad".toList, entries := [spaceBar 0x3f800000] }) := rfl
  refine (reloads_iff isField_pad (List.forall_mem_singleton.mpr (by decide)) hsave).mpr ?_
  exact List.forall_mem_singleton.mpr ⟨⟨0x3f800000, rfl⟩, ⟨0, rfl⟩⟩

/-- One with the least scale above zero, which is refused as it is printed. -/
theorem not_reloads_subnormal :
    ¬ ∀ (opens : Bool) (name file : Text) (st : InputMappingState (BitVec 32)),
      IsField name → (∀ e ∈ st.activeProfile.entries, e.target ≠ .Count) →
      saveProfile someFloats opens name st = some file →
      Reloads someFloats file { st.activeProfile with name := name } := by
  intro h
  have hreload := h true "My pad".toList _
    { activeProfile := { entries := [spaceBar 1] }, initialised := true } isField_pad
    (List.forall_mem_singleton.mpr (by decide)) rfl
  have haccepts := (reloads_writeProfileIni_iff _ isField_pad
    (List.forall_mem_singleton.mpr (by decide)) ⟨⟨{}, true⟩, rfl⟩).mp hreload
  obtain ⟨x, hx⟩ := (List.forall_mem_singleton.mp haccepts).1
  cases hx

end InputMapping
