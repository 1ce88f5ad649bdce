/-
# Reads of the ELF buffer

`LoadFromMemory` reads its buffer in three places: the file header, the program headers and
the file bytes of the segments.  Both ends it checks are 64-bit sums of fields of the file;
all reads stay inside the buffer exactly if neither sum wraps past a check.
-/
import ChuckStation.LoaderEffects
import ChuckStation.MemoryTable

namespace Loader

open Memory

/-! ## What would be read -/

/-- The file header, if the checks accept it and it has program headers. -/
def acceptedHeader (data : List Byte) : Option Ehdr :=
  match slice data 0 ehdrSize with
  | none => none
  | some bs =>
    let eh := Ehdr.ofBytes bs
    if eh.check = .Ok ∧ eh.e_phoff ≠ 0 ∧ eh.e_phnum ≠ 0 then some eh else none

/-- The end of the program headers, as a number. -/
def Ehdr.tableEnd (eh : Ehdr) : ℕ := eh.e_phoff.toNat + eh.e_phnum.toNat * phdrSize

/-- The end of a segment in the file, as a number. -/
def Phdr.fileEnd (ph : Phdr) : ℕ := ph.p_offset.toNat + ph.p_filesz.toNat

/-- The `n` program headers from position `pos` on. -/
def headersFrom (data : List Byte) : ℕ → ℕ → List Phdr
  | 0, _ => []
  | n + 1, pos =>
    Phdr.ofBytes ((data.drop pos).take phdrSize) :: headersFrom data n (pos + phdrSize)

/-- The program headers of segments to load. -/
def loadHeaders (data : List Byte) (eh : Ehdr) : List Phdr :=
  (headersFrom data eh.e_phnum.toNat eh.e_phoff.toNat).filter fun ph => ph.p_type = PT_LOAD

/-- Bytes of the segment would be read outside the buffer. -/
def Phdr.Escapes (data : List Byte) (ph : Phdr) : Prop :=
  ph.p_memsz ≠ 0 ∧ ph.p_filesz ≠ 0 ∧ data.length < ph.fileEnd

/-- Some read that the file asks for would leave the buffer. -/
def Escapes (data : List Byte) : Prop :=
  data.length < ehdrSize ∨ ∃ eh, acceptedHeader data = some eh ∧
    (data.length < eh.tableEnd ∨ ∃ ph ∈ loadHeaders data eh, ph.Escapes data)

/-- Whatever the system answers, no read leaves the buffer, and a file that asks for one
that would is rejected. -/
structure ReadsInBounds (data : List Byte) : Prop where
  inside : ∀ os s, (loadFromMemory os data s).1 ≠ .abort .outOfBounds
  rejected : Escapes data → ∀ os s, (loadFromMemory os data s).1 = .returned .InvalidElf ∨
    (loadFromMemory os data s).1 = .returned .InvalidProgramHeader

/-- A sum wraps past its check: that of the program header table, or, if all checks pass,
that of a segment whose bytes are read. -/
def EndWraps (data : List Byte) : Prop :=
  ∃ eh, acceptedHeader data = some eh ∧
    (data.length < eh.tableEnd ∧ eh.tableEnd % 2 ^ 64 ≤ data.length ∨
      eh.tableEnd ≤ data.length ∧
        (∀ ph ∈ loadHeaders data eh, ph.fileEnd % 2 ^ 64 ≤ data.length) ∧
        ∃ ph ∈ loadHeaders data eh, ph.Escapes data)

/-! ## The program header loop -/

section Parse

variable {data : List Byte} {eh : Ehdr} {n pos : ℕ}

theorem toNat_tableEnd (eh : Ehdr) :
    (eh.e_phoff + eh.e_phnum.setWidth 64 * 56).toNat = eh.tableEnd % 2 ^ 64 := by
  have hnum := eh.e_phnum.isLt
  have h56 : (56 : U64).toNat = phdrSize := rfl
  rw [BitVec.toNat_add, BitVec.toNat_mul, BitVec.toNat_setWidth, Ehdr.tableEnd, h56,
    Nat.mod_eq_of_lt (by omega : eh.e_phnum.toNat < 2 ^ 64), Nat.add_mod_mod]

theorem toNat_fileEnd (ph : Phdr) : (ph.p_offset + ph.p_filesz).toNat = ph.fileEnd % 2 ^ 64 :=
  BitVec.toNat_add _ _

/-- The first header lies outside the buffer. -/
theorem readPhdrs_outside (h : data.length < pos + phdrSize) :
    readPhdrs data (n + 1) pos = .error (.abort .outOfBounds) := by
  rw [readPhdrs, slice_of_lt h]

/-- A table whose end wraps starts past the end of the buffer. -/
theorem readPhdrs_wrapped (hsize : data.length < 2 ^ 63) (hout : data.length < eh.tableEnd)
    (hwrap : eh.tableEnd % 2 ^ 64 ≤ data.length) :
    readPhdrs data eh.e_phnum.toNat eh.e_phoff.toNat = .error (.abort .outOfBounds) := by
  have hnum := eh.e_phnum.isLt
  have hsz : phdrSize = 56 := rfl
  rw [Ehdr.tableEnd, hsz] at hout hwrap
  obtain ⟨n, hn⟩ : ∃ n, eh.e_phnum.toNat = n + 1 := Nat.exists_eq_succ_of_ne_zero (by omega)
  rw [hn, readPhdrs_outside (by omega)]

/-- All headers lie inside the buffer. -/
theorem readPhdrs_inside (h : pos + n * phdrSize ≤ data.length) :
    readPhdrs data n pos =
      if ∀ ph ∈ (headersFrom data n pos).filter fun ph => ph.p_type = PT_LOAD,
          ph.fileEnd % 2 ^ 64 ≤ data.length then
        .ok (((headersFrom data n pos).filter fun ph => ph.p_type = PT_LOAD).map Phdr.segment)
      else .error (.returned .InvalidProgramHeader) := by
  induction n generalizing pos with
  | zero => simp [readPhdrs, headersFrom]
  | succ n ih =>
      have hfirst : pos + phdrSize ≤ data.length := by
        rw [Nat.succ_mul] at h
        omega
      have hrest : pos + phdrSize + n * phdrSize ≤ data.length := by
        rw [Nat.succ_mul] at h
        omega
      rw [readPhdrs, slice_of_le hfirst, headersFrom]
      dsimp only
      rw [toNat_fileEnd, ih hrest]
      generalize Phdr.ofBytes ((data.drop pos).take phdrSize) = ph
      by_cases htype : ph.p_type = PT_LOAD
      · rw [if_neg (not_not.mpr htype), List.filter_cons_of_pos (by simpa using htype)]
        by_cases hend : data.length < ph.fileEnd % 2 ^ 64
        · have hbad : ¬ ph.fileEnd % 2 ^ 64 ≤ data.length := Nat.not_le.mpr hend
          simp only [hend, if_true, List.forall_mem_cons, hbad, false_and, if_false]
        · simp only [hend, if_false, List.forall_mem_cons, Nat.not_lt.mp hend, true_and,
            List.map_cons]
          split_ifs <;> rfl
      · rw [if_pos htype, List.filter_cons_of_neg (by simpa using htype)]

theorem parseMemory_of_short (h : data.length < ehdrSize) :
    parseMemory data = .error (.returned .InvalidElf) := by
  rw [parseMemory, slice_of_lt (by omega)]

theorem parseMemory_of_rejected (h : acceptedHeader data = none) :
    ∃ r, parseMemory data = .error (.returned r) := by
  rw [acceptedHeader] at h
  rw [parseMemory]
  cases hbs : slice data 0 ehdrSize with
  | none => exact ⟨.InvalidElf, rfl⟩
  | some bs =>
      rw [hbs] at h
      dsimp only at h ⊢
      by_cases hcheck : (Ehdr.ofBytes bs).check = .Ok
      · rw [if_neg (not_not.mpr hcheck)]
        split_ifs at h with hok
        rw [if_pos]
        · exact ⟨.InvalidProgramHeader, rfl⟩
        · by_contra hno
          push Not at hno
          exact hok ⟨hcheck, hno.1, hno.2.1⟩
      · rw [if_pos hcheck]
        exact ⟨_, rfl⟩

theorem parseMemory_of_accepted (h : acceptedHeader data = some eh) :
    parseMemory data =
      if data.length < eh.tableEnd % 2 ^ 64 then .error (.returned .InvalidProgramHeader)
      else match readPhdrs data eh.e_phnum.toNat eh.e_phoff.toNat with
        | .error e => .error e
        | .ok [] => .error (.returned .InvalidProgramHeader)
        | .ok segments => .ok (ExecutableInfo.withRange
            { entryPoint := eh.e_entry, isPic := eh.isPic, segments := segments }) := by
  rw [acceptedHeader] at h
  cases hbs : slice data 0 ehdrSize with
  | none =>
      rw [hbs] at h
      cases h
  | some bs =>
      rw [hbs] at h
      dsimp only at h
      split_ifs at h with hok
      cases h
      rw [parseMemory, hbs]
      dsimp only
      rw [if_neg (not_not.mpr hok.1), toNat_tableEnd]
      refine if_congr ?_ rfl rfl
      simp only [hok.2.1, hok.2.2, false_or]

/-- The headers of a table inside the buffer. -/
theorem parseMemory_inside (h : acceptedHeader data = some eh)
    (htable : eh.tableEnd ≤ data.length) :
    (¬ (∀ ph ∈ loadHeaders data eh, ph.fileEnd % 2 ^ 64 ≤ data.length) →
        parseMemory data = .error (.returned .InvalidProgramHeader)) ∧
      ((∀ ph ∈ loadHeaders data eh, ph.fileEnd % 2 ^ 64 ≤ data.length) →
        parseMemory data =
          if loadHeaders data eh = [] then .error (.returned .InvalidProgramHeader)
          else .ok (ExecutableInfo.withRange
            { entryPoint := eh.e_entry, isPic := eh.isPic
              segments := (loadHeaders data eh).map Phdr.segment })) := by
  have hwrap : ¬ data.length < eh.tableEnd % 2 ^ 64 :=
    Nat.not_lt.mpr ((Nat.mod_le _ _).trans htable)
  rw [parseMemory_of_accepted h, if_neg hwrap, readPhdrs_inside htable]
  refine ⟨fun hbad => ?_, fun hgood => ?_⟩
  · rw [loadHeaders] at hbad
    rw [if_neg hbad]
  · rw [loadHeaders] at hgood ⊢
    rw [if_pos hgood]
    cases List.filter (fun ph => decide (ph.p_type = PT_LOAD))
        (headersFrom data eh.e_phnum.toNat eh.e_phoff.toNat) with
    | nil => rfl
    | cons ph phs => rfl

end Parse

/-! ## Both directions -/

section Bounds

variable {data : List Byte} {eh : Ehdr} {os : Os} {s : State}

theorem loadFromMemory_of_error {e : Exit} (h : parseMemory data = .error e) :
    loadFromMemory os data s = (e, s) := by
  rw [loadFromMemory, h]

/-- A segment that is mapped at all ends the loop if nothing is granted. -/
theorem mapLoop_refusing {isPic : Bool} {tag : List Byte} {fetch : Fetch} {segs : List Segment}
    {st : MapState} (h : ∃ seg ∈ segs, seg.memsz ≠ 0) :
    (mapLoop refusingOs isPic tag fetch segs st).1 = some (.returned .MemoryError) := by
  induction segs generalizing st with
  | nil =>
      obtain ⟨seg, hseg, -⟩ := h
      cases hseg
  | cons seg segs ih =>
      by_cases hmemsz : seg.memsz = 0
      · rw [mapLoop_cons (mapSegment_of_memsz hmemsz)]
        obtain ⟨seg', hseg', hne⟩ := h
        rcases List.mem_cons.mp hseg' with rfl | hseg'
        · exact absurd hmemsz hne
        · exact ih ⟨seg', hseg', hne⟩
      · have hrefused : refusingOs.mmap st.mem.host (st.loadBias + seg.aVa)
            (alignUp seg.mapSz PAGE_SIZE) (protToMmap Prot.RW) false = none := rfl
        have hstep := mapSegment_of_map isPic fetch hmemsz
          (map_of_none seg.allocType tag hrefused)
        rw [if_pos rfl] at hstep
        rw [mapLoop_cons_exit hstep]

/-- Accepted segments lie in the buffer if no end wraps. -/
theorem mapLoop_inside (os : Os) (isPic : Bool) (tag : List Byte) {phs : List Phdr} (st : MapState)
    (h : ¬ ∃ ph ∈ phs, ph.Escapes data) :
    (mapLoop os isPic tag (fetchMemory data) (phs.map Phdr.segment) st).1 ≠
      some (.abort .outOfBounds) := by
  intro hexit
  obtain ⟨seg, hseg, hmemsz, hway⟩ := mapLoop_exit hexit
  obtain ⟨ph, hph, rfl⟩ := List.mem_map.mp hseg
  rcases hway with hway | hway | ⟨hfilesz, k, hfetch⟩
  · cases hway
  · cases hway
  · exact h ⟨ph, hph, hmemsz, hfilesz, (fetchMemory_eq_error hfetch).2⟩

theorem readsInBounds_of_not_wraps (h : ¬ EndWraps data) : ReadsInBounds data := by
  -- The table of an accepted header is rejected, or it lies in the buffer.
  have htable : ∀ eh, acceptedHeader data = some eh →
      parseMemory data = .error (.returned .InvalidProgramHeader) ∨ eh.tableEnd ≤ data.length := by
    intro eh heh
    by_cases hin : eh.tableEnd ≤ data.length
    · exact .inr hin
    · left
      rw [parseMemory_of_accepted heh, if_pos]
      by_contra hwrap
      exact h ⟨eh, heh, .inl ⟨Nat.not_le.mp hin, Nat.not_lt.mp hwrap⟩⟩
  constructor
  · intro os s
    cases heh : acceptedHeader data with
    | none =>
        obtain ⟨r, hr⟩ := parseMemory_of_rejected heh
        rw [loadFromMemory_of_error hr]
        exact fun hexit => by cases hexit
    | some eh =>
        rcases htable eh heh with hrej | hin
        · rw [loadFromMemory_of_error hrej]
          exact fun hexit => by cases hexit
        · obtain ⟨hbad, hgood⟩ := parseMemory_inside heh hin
          by_cases hchecks : ∀ ph ∈ loadHeaders data eh, ph.fileEnd % 2 ^ 64 ≤ data.length
          · have hparse := hgood hchecks
            split_ifs at hparse with hnil
            · rw [loadFromMemory_of_error hparse]
              exact fun hexit => by cases hexit
            · have hloop := mapLoop_inside os eh.isPic memoryElf { mem := s.mem }
                fun hesc => h ⟨eh, heh, .inr ⟨hin, hchecks, hesc⟩⟩
              rw [loadFromMemory, hparse]
              simp only [ExecutableInfo.withRange]
              split
              · rename_i hstop
                intro hexit
                exact hloop ((congrArg Prod.fst hstop).trans (congrArg some hexit))
              · exact fun hexit => by cases hexit
          · rw [loadFromMemory_of_error (hbad hchecks)]
            exact fun hexit => by cases hexit
  · rintro (hshort | ⟨eh, heh, hesc⟩) os s
    · rw [loadFromMemory_of_error (parseMemory_of_short hshort)]
      exact .inl rfl
    · rcases htable eh heh with hrej | hin
      · rw [loadFromMemory_of_error hrej]
        exact .inr rfl
      · rcases hesc with hout | hesc
        · exact absurd hout (Nat.not_lt.mpr hin)
        · rw [loadFromMemory_of_error ((parseMemory_inside heh hin).1 fun hchecks =>
            h ⟨eh, heh, .inr ⟨hin, hchecks, hesc⟩⟩)]
          exact .inr rfl

theorem not_wraps_of_readsInBounds (hsize : data.length < 2 ^ 63) (h : ReadsInBounds data) :
    ¬ EndWraps data := by
  rintro ⟨eh, heh, ⟨hout, hwrap⟩ | ⟨hin, hchecks, ph, hph, hesc⟩⟩
  · -- The table starts past the end of the buffer, and its first header is read.
    refine h.inside refusingOs ⟨{}, emptyProcess⟩ ?_
    rw [loadFromMemory, parseMemory_of_accepted heh, if_neg (Nat.not_lt.mpr hwrap),
      readPhdrs_wrapped hsize hout hwrap]
  · -- The checks pass, so the file gets as far as a refused mapping.
    have hrej := h.rejected (.inr ⟨eh, heh, .inr ⟨ph, hph, hesc⟩⟩) refusingOs ⟨{}, emptyProcess⟩
    have hparse := (parseMemory_inside heh hin).2 hchecks
    rw [if_neg (List.ne_nil_of_mem hph)] at hparse
    have hloop : (mapLoop refusingOs eh.isPic memoryElf (fetchMemory data)
        ((loadHeaders data eh).map Phdr.segment) { mem := emptyProcess }).1 =
          some (.returned .MemoryError) :=
      mapLoop_refusing ⟨ph.segment, List.mem_map_of_mem hph, hesc.1⟩
    rw [loadFromMemory, hparse] at hrej
    simp only [ExecutableInfo.withRange] at hrej
    split at hrej
    · rename_i hstop
      rw [hstop] at hloop
      obtain rfl := Option.some.inj hloop
      rcases hrej with hrej | hrej <;> cases hrej
    · rename_i hstop
      rw [hstop] at hloop
      cases hloop

end Bounds

/-- A file header alone, with one program header 56 bytes before the end of the address
space. -/
def wrappingHeader : List Byte :=
  [0x7F, 0x45, 0x4C, 0x46, 2, 1, 1, 0, 0, 0, 0, 0, 0, 0, 0, 0, 2, 0, 62, 0, 1, 0, 0, 0,
    0, 0, 0, 0, 0, 0, 0, 0, 0xC8, 0xFF, 0xFF, 0xFF, 0xFF, 0xFF, 0xFF, 0xFF,
    0, 0, 0, 0, 0, 0, 0, 0, 0, 0, 0, 0, 64, 0, 56, 0, 1, 0, 64, 0, 0, 0, 0, 0]

end Loader
