/-
# Input profiles

A profile maps keys, buttons and axes of the host to those of the controller
(`InputMapping.cpp`).  It is kept in a text file with a section for its name and one for each
entry.  Reading one ends in conversions of the standard library, which throw, and nothing between
them and the caller catches.

Floats and the texts they are printed as are a parameter, and so is the width of
`unsigned long`, which is not the same on all hosts.

* `loadProfile_safe_iff`: when loading a file neither throws nor loses the active profile.
-/
import ChuckStation.Bytes
import ChuckStation.NumberTexts
import ChuckStation.OperationRuns
import ChuckStation.TextLines

namespace InputMapping

open NumberTexts OperationRuns TextLines

/-- A text. -/
abbrev Text := List Char

/-! ## Name tables -/

/-- `enum class Ps5Button`. -/
inductive Ps5Button where
  | Triangle | Circle | Cross | Square
  | L1 | R1 | L2 | R2
  | Create | Options | PS | TouchPad
  | L3 | R3
  | DPadUp | DPadDown | DPadLeft | DPadRight
  | GyroX | GyroY | GyroZ
  | Count
  deriving DecidableEq, Repr

/-- The values below `Count`. -/
def Ps5Button.all : List Ps5Button :=
  [.Triangle, .Circle, .Cross, .Square, .L1, .R1, .L2, .R2, .Create, .Options, .PS, .TouchPad,
    .L3, .R3, .DPadUp, .DPadDown, .DPadLeft, .DPadRight, .GyroX, .GyroY, .GyroZ]

/-- `Ps5ButtonName`. -/
def ps5ButtonName : Ps5Button → Text
  | .Triangle => "Triangle".toList
  | .Circle => "Circle".toList
  | .Cross => "Cross".toList
  | .Square => "Square".toList
  | .L1 => "L1".toList
  | .R1 => "R1".toList
  | .L2 => "L2".toList
  | .R2 => "R2".toList
  | .Create => "Create".toList
  | .Options => "Options".toList
  | .PS => "PS".toList
  | .TouchPad => "TouchPad".toList
  | .L3 => "L3".toList
  | .R3 => "R3".toList
  | .DPadUp => "DPadUp".toList
  | .DPadDown => "DPadDown".toList
  | .DPadLeft => "DPadLeft".toList
  | .DPadRight => "DPadRight".toList
  | .GyroX => "GyroX".toList
  | .GyroY => "GyroY".toList
  | .GyroZ => "GyroZ".toList
  | .Count => "Unknown".toList

/-- `Ps5ButtonFromName`. -/
def ps5ButtonFromName (name : Text) : Ps5Button :=
  (Ps5Button.all.find? fun b => name = ps5ButtonName b).getD .Count

/-- `enum class HostInputType`. -/
inductive HostInputType where
  | Keyboard | Mouse | Gamepad | Touch
  deriving DecidableEq, Repr

/-- `HostInputTypeName`. -/
def hostInputTypeName : HostInputType → Text
  | .Keyboard => "Keyboard".toList
  | .Mouse => "Mouse".toList
  | .Gamepad => "Gamepad".toList
  | .Touch => "Touch".toList

/-- `HostInputTypeFromName`. -/
def hostInputTypeFromName (name : Text) : HostInputType :=
  if name = "Keyboard".toList then .Keyboard
  else if name = "Mouse".toList then .Mouse
  else if name = "Gamepad".toList then .Gamepad
  else if name = "Touch".toList then .Touch
  else .Keyboard

/-! ## Profiles -/

/-- What the standard library of a host does with numbers: `operator<<` of a `float`, which prints
no spaces, `std::stof`, and the bits of an `unsigned long`. -/
structure Numbers (F : Type) where
  print : F → Text
  stof : Text → Except StdException F
  ulongBits : ℕ
  print_word : ∀ x, ∀ c ∈ print x, isSpace c = false
  le_ulongBits : 32 ≤ ulongBits

/-- `struct MappingEntry`. -/
structure MappingEntry (F : Type) where
  target : Ps5Button
  sourceType : HostInputType
  sourceId : U32
  scale : F
  deadzone : F
  inverted : Bool := false
  deriving DecidableEq, Repr

/-- `struct MappingProfile`. -/
structure MappingProfile (F : Type) where
  name : Text := "Default".toList
  entries : List (MappingEntry F) := []
  deriving DecidableEq, Repr

/-- `struct InputMappingState`, without the directory of the profiles. -/
structure InputMappingState (F : Type) where
  activeProfile : MappingProfile F
  initialised : Bool
  deriving DecidableEq, Repr

variable {F : Type} (num : Numbers F)

/-! ## Writing -/

/-- What is written for an entry. -/
def writeEntry (i : ℕ) (e : MappingEntry F) : Text :=
  List.flatten
    ["[mapping.".toList ++ decimal i ++ "]\n".toList,
      "target=".toList ++ ps5ButtonName e.target ++ "\n".toList,
      "sourceType=".toList ++ hostInputTypeName e.sourceType ++ "\n".toList,
      "sourceId=".toList ++ decimal e.sourceId.toNat ++ "\n".toList,
      "scale=".toList ++ num.print e.scale ++ "\n".toList,
      "deadzone=".toList ++ num.print e.deadzone ++ "\n".toList,
      "inverted=".toList ++ (if e.inverted then "true".toList else "false".toList) ++
        "\n".toList,
      "\n".toList]

/-- `WriteProfileIni`: the file. -/
def writeProfileIni (profile : MappingProfile F) : Text :=
  "[profile]\n".toList ++ ("name=".toList ++ profile.name ++ "\n\n".toList) ++
    profile.entries.zipIdx.flatMap fun (e, i) => writeEntry num i e

/-- `SaveProfile`: the file that is written if it returns true.  It may be that the file cannot be
opened. -/
def saveProfile (opens : Bool) (name : Text) (st : InputMappingState F) : Option Text :=
  if st.initialised && opens then
    some (writeProfileIni num { st.activeProfile with name := name })
  else none

/-! ## Reading -/

/-- `struct IniSection`. -/
structure IniSection where
  name : Text
  kv : List (Text × Text) := []
  deriving DecidableEq, Repr

/-- A key or a value without the blanks around it; blanks alone stay. -/
def trimField (s : Text) : Text :=
  match findFirstNotOf isBlank s, findLastNotOf isBlank s with
  | some b, some e => between s b (some e)
  | _, _ => s

/-- What the loop of `ParseIni` does with a line that has no spaces around it, over the sections so
far, the last one first. -/
def parseTrimmed (sections : List IniSection) (line : Text) : List IniSection :=
  if line.head? = some '#' ∨ line.head? = some ';' then sections
  else if line.head? = some '[' then
    match find ']' line with
    | none => sections
    | some close => { name := (line.drop 1).take (close - 1) } :: sections
  else
    match sections with
    | [] => []
    | cur :: rest =>
      match find '=' line with
      | none => cur :: rest
      | some eq =>
        let key := trimField (line.take eq)
        let value := trimField (line.drop (eq + 1))
        { cur with kv := cur.kv ++ [(key, value)] } :: rest

/-- One pass of the loop. -/
def parseLine (sections : List IniSection) (line : Text) : List IniSection :=
  match findFirstNotOf isSpace line with
  | none => sections
  | some start => parseTrimmed sections (between line start (findLastNotOf isSpace line))

/-- `ParseIni`. -/
def parseIni (file : Text) : List IniSection := ((lines '\n' file).foldl parseLine []).reverse

/-- `GetKv`. -/
def getKv (s : IniSection) (key : Text) (defaultVal : Text) : Text :=
  (s.kv.lookup key).getD defaultVal

/-- The entry of a section. -/
def readEntry (sec : IniSection) : Except StdException (MappingEntry F) := do
  let target := ps5ButtonFromName (getKv sec "target".toList [])
  let sourceType := hostInputTypeFromName (getKv sec "sourceType".toList "Keyboard".toList)
  let sourceId ← stoul num.ulongBits (getKv sec "sourceId".toList "0".toList)
  let scale ← num.stof (getKv sec "scale".toList "1.0".toList)
  let deadzone ← num.stof (getKv sec "deadzone".toList "0.0".toList)
  let inverted := getKv sec "inverted".toList "false".toList = "true".toList
  return { target, sourceType, sourceId := BitVec.ofNat 32 sourceId, scale, deadzone, inverted }

/-- One pass of the loop of `ReadProfileIni`. -/
def readSection (profile : MappingProfile F) (sec : IniSection) :
    Except StdException (MappingProfile F) :=
  if sec.name = "profile".toList then
    .ok { profile with name := getKv sec "name".toList "Unknown".toList }
  else if "mapping.".toList.isPrefixOf sec.name then do
    let e ← readEntry num sec
    if e.target ≠ .Count then return { profile with entries := profile.entries ++ [e] }
    else return profile
  else .ok profile

/-- `ReadProfileIni`; nothing for a file without sections. -/
def readProfileIni (file : Text) : Except StdException (Option (MappingProfile F)) :=
  if parseIni file = [] then .ok none
  else do
    let profile ← (parseIni file).foldlM (readSection num) {}
    return some profile

/-- `LoadProfile`, with the file of the profile, if there is one. -/
def loadProfile (file : Option Text) (st : InputMappingState F) :
    Except StdException (Bool × InputMappingState F) :=
  if !st.initialised then .ok (false, st)
  else
    match file with
    | none => .ok (false, st)
    | some file => do
      match ← readProfileIni num file with
      | none => return (false, st)
      | some loaded => return (true, { st with activeProfile := loaded })

/-! ## What is thrown -/

section Throws

variable {num} {sec : IniSection} {text : Text} {file : Option Text} {st : InputMappingState F}

/-- The numbers of a section are numbers. -/
structure Converts (num : Numbers F) (sec : IniSection) : Prop where
  sourceId : HasNumber num.ulongBits (getKv sec "sourceId".toList "0".toList)
  scale : ∃ x, num.stof (getKv sec "scale".toList "1.0".toList) = .ok x
  deadzone : ∃ x, num.stof (getKv sec "deadzone".toList "0.0".toList) = .ok x

/-- The section is that of an entry. -/
def IsMapping (sec : IniSection) : Prop := "mapping.".toList <+: sec.name

theorem exists_readEntry_iff : (∃ e, readEntry num sec = .ok e) ↔ Converts num sec := by
  rw [readEntry]
  constructor
  · intro h
    obtain ⟨n, hn, h⟩ := isOk_bind_iff.mp h
    obtain ⟨x, hx, h⟩ := isOk_bind_iff.mp h
    obtain ⟨y, hy, -⟩ := isOk_bind_iff.mp h
    exact ⟨exists_stoul_iff.mp ⟨n, hn⟩, ⟨x, hx⟩, ⟨y, hy⟩⟩
  · rintro ⟨hid, ⟨x, hx⟩, ⟨y, hy⟩⟩
    obtain ⟨n, hn⟩ := exists_stoul_iff.mpr hid
    rw [hn, hx, hy]
    exact ⟨_, rfl⟩

/-- The name of a profile has a section that is not that of an entry. -/
theorem exists_readSection_iff (profile : MappingProfile F) :
    (∃ p, readSection num profile sec = .ok p) ↔ (IsMapping sec → Converts num sec) := by
  rw [readSection]
  by_cases hprofile : sec.name = "profile".toList
  · rw [if_pos hprofile]
    refine iff_of_true ⟨_, rfl⟩ fun hmapping => ?_
    rw [IsMapping, hprofile] at hmapping
    exact absurd hmapping (by decide)
  · rw [if_neg hprofile]
    by_cases hmapping : IsMapping sec
    · rw [if_pos (List.isPrefixOf_iff_prefix.mpr hmapping), imp_iff_right hmapping,
        ← exists_readEntry_iff, isOk_bind_iff]
      refine exists_congr fun e => and_iff_left ?_
      split_ifs
      · exact ⟨_, rfl⟩
      · exact ⟨_, rfl⟩
    · rw [if_neg fun h => hmapping (List.isPrefixOf_iff_prefix.mp h)]
      exact iff_of_true ⟨_, rfl⟩ fun h => absurd h hmapping

theorem exists_readProfileIni_iff :
    (∃ p, readProfileIni num text = .ok p) ↔
      ∀ sec ∈ parseIni text, IsMapping sec → Converts num sec := by
  rw [readProfileIni]
  by_cases hempty : parseIni text = []
  · rw [if_pos hempty, hempty]
    exact iff_of_true ⟨_, rfl⟩ (List.forall_mem_nil _)
  · have hfold : (∃ p, (parseIni text).foldlM (readSection num) {} = .ok p) ↔ _ :=
      foldlM_isOk_iff_forall fun profile sec => exists_readSection_iff profile
    rw [if_neg hempty, isOk_bind_iff, ← hfold]
    exact exists_congr fun p => and_iff_left ⟨_, rfl⟩

/-- Loading ends with true or false, and with false it leaves the active profile as it was. -/
def LoadsSafely (num : Numbers F) (file : Option Text) (st : InputMappingState F) : Prop :=
  ∃ ok st', loadProfile num file st = .ok (ok, st') ∧
    (ok = false → st'.activeProfile = st.activeProfile)

/-- Nothing that can be caught changes the active profile. -/
theorem activeProfile_of_loadProfile {st' : InputMappingState F}
    (h : loadProfile num file st = .ok (false, st')) : st'.activeProfile = st.activeProfile := by
  unfold loadProfile at h
  split_ifs at h with hinit
  · cases h
    rfl
  · cases file with
    | none =>
        cases h
        rfl
    | some text =>
        obtain ⟨loaded, -, h⟩ := bind_eq_ok h
        cases loaded with
        | none =>
            cases h
            rfl
        | some loaded => cases h

/-- **Loading a profile** is safe exactly if the module is not initialised, there is no file, or
every number in a section of an entry is one. -/
theorem loadsSafely_iff :
    LoadsSafely num file st ↔
      (st.initialised = true → ∀ text, file = some text →
        ∀ sec ∈ parseIni text, IsMapping sec → Converts num sec) := by
  have hreturns : LoadsSafely num file st ↔ ∃ r, loadProfile num file st = .ok r := by
    constructor
    · rintro ⟨ok, st', h, -⟩
      exact ⟨(ok, st'), h⟩
    · rintro ⟨⟨ok, st'⟩, h⟩
      refine ⟨ok, st', h, ?_⟩
      rintro rfl
      exact activeProfile_of_loadProfile h
  rw [hreturns]
  unfold loadProfile
  by_cases hinit : st.initialised = true
  · rw [hinit, imp_iff_right rfl, if_neg (by decide)]
    cases file with
    | none => exact iff_of_true ⟨_, rfl⟩ nofun
    | some text =>
        have hread : (∀ t, some text = some t → ∀ sec ∈ parseIni t, IsMapping sec →
            Converts num sec) ↔ ∃ p, readProfileIni num text = .ok p := by
          rw [exists_readProfileIni_iff]
          exact ⟨fun h => h text rfl, fun h t ht => Option.some.inj ht ▸ h⟩
        rw [hread]
        dsimp only
        rw [isOk_bind_iff]
        refine exists_congr fun loaded => and_iff_left ?_
        cases loaded with
        | none => exact ⟨_, rfl⟩
        | some loaded => exact ⟨_, rfl⟩
  · rw [Bool.not_eq_true] at hinit
    rw [hinit]
    exact iff_of_true ⟨_, rfl⟩ nofun

end Throws

/-- Zero, one and the least float above zero, on a host where `std::stof` throws for what is too
small for a normal float. -/
def someFloats : Numbers (BitVec 32) where
  print x := if x = 0 then "0".toList else if x = 1 then "1.4013e-45".toList else "1".toList
  stof s :=
    if s = "0".toList ∨ s = "0.0".toList then .ok 0
    else if s = "1".toList ∨ s = "1.0".toList then .ok 0x3f800000
    else if s = "1.4013e-45".toList then .error .outOfRange
    else .error .invalidArgument
  ulongBits := 64
  print_word x := by
    split_ifs
    · exact isSpace_eq_false_of_any (by decide)
    · exact isSpace_eq_false_of_any (by decide)
    · exact isSpace_eq_false_of_any (by decide)
  le_ulongBits := by decide

/-- A profile file in which a key is named by a letter. -/
theorem not_loadsSafely_letter :
    ¬ ∀ (file : Option Text) (st : InputMappingState (BitVec 32)),
      LoadsSafely someFloats file st := by
  intro h
  obtain ⟨ok, st', hload, -⟩ := h (some "[mapping.0]\ntarget=Cross\nsourceId=J\n".toList) ⟨{}, true⟩
  have hthrows : loadProfile someFloats (some "[mapping.0]\ntarget=Cross\nsourceId=J\n".toList)
      ⟨{}, true⟩ = .error .invalidArgument := by
    rfl
  rw [hthrows] at hload
  cases hload

end InputMapping
