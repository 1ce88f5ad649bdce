/-
# Protection queries

What an answer of `HasProt` is worth.  The test adds the caller's base and size in 64 bits, so a
range that runs past the end of the address space is compared by what is left of its end.

`hasProt_sound_iff` says for which ranges and tables the answer can be trusted; a range that stays
below the end of the address space is one of them in every table.
-/
import ChuckStation.MemoryMirror

namespace Memory

/-! ## What is asked and what is meant -/

/-- `IsExecutable`. -/
def isExecutable (p : Process) (base size : U64) : Bool := hasProt p base size Prot.Exec

/-- The region is committed with the required bits. -/
def Region.grants (r : Region) (required : Prot) : Bool :=
  r.committed && (r.prot &&& required) == required

/-- `r.base <= base && base + size <= r.base + r.size`, both sums in 64 bits. -/
def Region.spans (r : Region) (base size : U64) : Bool :=
  r.base ≤ base && base + size ≤ r.base + r.size

/-- The region does not run past the end of the address space. -/
def Region.NoWrap (r : Region) : Prop := r.base.toNat + r.size.toNat ≤ 2 ^ 64

/-- All addresses of the range, as numbers, lie in one region that grants the required bits. -/
def Protected (regions : List Region) (base size : U64) (required : Prot) : Prop :=
  ∃ r ∈ regions, r.grants required = true ∧
    ∀ a, base.toNat ≤ a → a < base.toNat + size.toNat →
      r.base.toNat ≤ a ∧ a < r.base.toNat + r.size.toNat

/-! ## Ranges past the end -/

/-- The region starts at or below the base and ends at or above what is left of the end of the
range. -/
def Region.AdmitsPastEnd (r : Region) (base size : U64) : Prop :=
  r.base.toNat ≤ base.toNat ∧
    base.toNat + size.toNat - 2 ^ 64 ≤ (r.base.toNat + r.size.toNat) % 2 ^ 64

/-- The range runs to the end of the address space or past it, and the first region of the table
to admit it grants the required bits. -/
def LetInPastEnd (regions : List Region) (base size : U64) (required : Prot) : Prop :=
  2 ^ 64 ≤ base.toNat + size.toNat ∧
    ∃ before r after, regions = before ++ r :: after ∧ r.grants required = true ∧
      r.AdmitsPastEnd base size ∧ ∀ s ∈ before, ¬ s.AdmitsPastEnd base size

/-- The range ends with the address space, and so does a region around it that grants the
required bits. -/
def EndsWithRegion (regions : List Region) (base size : U64) (required : Prot) : Prop :=
  base.toNat + size.toNat = 2 ^ 64 ∧
    ∃ r ∈ regions, r.grants required = true ∧ r.base.toNat ≤ base.toNat ∧
      r.base.toNat + r.size.toNat = 2 ^ 64

section Queries

variable {p : Process} {base size : U64} {required : Prot} {r : Region}

theorem hasProt_eq_true_iff : hasProt p base size required = true ↔
    ∃ r, p.st.regions.find? (fun r => r.spans base size) = some r ∧ r.grants required = true := by
  have hspans : (fun r : Region => r.base ≤ base && base + size ≤ r.base + r.size) =
      fun r => r.spans base size := rfl
  unfold hasProt
  rw [hspans]
  cases p.st.regions.find? fun r => r.spans base size with
  | none => simp
  | some r => simp [Region.grants]

theorem spans_of_le (h : base.toNat + size.toNat < 2 ^ 64) (hspans : r.spans base size = true) :
    r.base.toNat ≤ base.toNat ∧ base.toNat + size.toNat ≤ r.base.toNat + r.size.toNat := by
  simp only [Region.spans, Bool.and_eq_true, decide_eq_true_eq, BitVec.le_def, BitVec.toNat_add,
    Nat.mod_eq_of_lt h] at hspans
  exact ⟨hspans.1, hspans.2.trans (Nat.mod_le _ _)⟩

theorem spans_iff_of_past (h : 2 ^ 64 ≤ base.toNat + size.toNat) :
    r.spans base size = true ↔ r.AdmitsPastEnd base size := by
  have hbase := base.isLt
  have hsize := size.isLt
  have hleft : (base.toNat + size.toNat) % 2 ^ 64 = base.toNat + size.toNat - 2 ^ 64 := by omega
  simp only [Region.spans, Region.AdmitsPastEnd, Bool.and_eq_true, decide_eq_true_eq,
    BitVec.le_def, BitVec.toNat_add, hleft]

/-- **Below the end** every answer is right. -/
theorem protected_of_hasProt (hfit : base.toNat + size.toNat < 2 ^ 64)
    (h : hasProt p base size required = true) : Protected p.st.regions base size required := by
  obtain ⟨r, hfind, hgrants⟩ := hasProt_eq_true_iff.mp h
  have hspans : r.spans base size = true := by simpa using List.find?_some hfind
  obtain ⟨hlow, hhigh⟩ := spans_of_le hfit hspans
  exact ⟨r, List.mem_of_find?_eq_some hfind, hgrants, fun a ha hlt => ⟨by omega, by omega⟩⟩

/-- Past the end the answer says which region lets the range in. -/
theorem hasProt_iff_letIn (hpast : 2 ^ 64 ≤ base.toNat + size.toNat) :
    hasProt p base size required = true ↔ LetInPastEnd p.st.regions base size required := by
  rw [hasProt_eq_true_iff]
  simp only [List.find?_eq_some_iff_append, spans_iff_of_past hpast, Bool.not_eq_true',
    ← Bool.not_eq_true]
  constructor
  · rintro ⟨r, ⟨hadmits, before, after, heq, hbefore⟩, hgrants⟩
    exact ⟨hpast, before, r, after, heq, hgrants, hadmits, hbefore⟩
  · rintro ⟨-, before, r, after, heq, hgrants, hadmits, hbefore⟩
    exact ⟨r, ⟨hadmits, before, after, heq, hbefore⟩, hgrants⟩

/-- Past the end a region around the range ends with the address space, as the range does. -/
theorem protected_iff_endsWithRegion (hwrap : ∀ r ∈ p.st.regions, r.NoWrap)
    (hpast : 2 ^ 64 ≤ base.toNat + size.toNat) :
    Protected p.st.regions base size required ↔
      EndsWithRegion p.st.regions base size required := by
  have hbase := base.isLt
  constructor
  · rintro ⟨r, hr, hgrants, hall⟩
    have hend : r.base.toNat + r.size.toNat ≤ 2 ^ 64 := hwrap r hr
    -- No region holds the address after the last one.
    have hlast : ¬ 2 ^ 64 < base.toNat + size.toNat := by
      intro hlt
      have := (hall (2 ^ 64) (by omega) hlt).2
      omega
    have htop := (hall (2 ^ 64 - 1) (by omega) (by omega)).2
    have hlow := (hall base.toNat le_rfl (by omega)).1
    exact ⟨by omega, r, hr, hgrants, hlow, by omega⟩
  · rintro ⟨hexact, r, hr, hgrants, hlow, hend⟩
    exact ⟨r, hr, hgrants, fun a ha hlt => ⟨by omega, by omega⟩⟩

end Queries

/-! ## Tables of one region -/

/-- A process whose table has one region. -/
def oneRegion (r : Region) : Process := ⟨{ regions := [r] }, ⟨fun _ => none, fun _ => 0, []⟩⟩

/-- **Every table.**  Exactly the ranges that stay below the end of the address space are answered
soundly whatever the table: one region at the bottom lets all others in. -/
theorem sound_forall_iff (base size : U64) (required : Prot) :
    (∀ p : Process, DisjointTable p.st.regions → (∀ r ∈ p.st.regions, r.NoWrap) →
      hasProt p base size required = true → Protected p.st.regions base size required) ↔
      base.toNat + size.toNat < 2 ^ 64 := by
  have hbase := base.isLt
  have hsize := size.isLt
  refine ⟨fun hall => ?_, fun hfit p _ _ => protected_of_hasProt hfit⟩
  by_contra hpast
  have hpast := not_lt.mp hpast
  -- The bottom region ends where the range, wrapped, would; it does not hold the base.
  let r : Region := ⟨0, base + size, required, AllocType.Unknown, [], true⟩
  have hend : (base + size).toNat = base.toNat + size.toNat - 2 ^ 64 := by
    rw [BitVec.toNat_add]
    omega
  have hgrants : r.grants required = true := by simp [r, Region.grants]
  have hletIn : LetInPastEnd (oneRegion r).st.regions base size required := by
    refine ⟨hpast, [], r, [], rfl, hgrants, ⟨Nat.zero_le _, ?_⟩, by simp⟩
    change _ ≤ (0 + (base + size).toNat) % 2 ^ 64
    rw [hend]
    omega
  have hwrap : ∀ s ∈ (oneRegion r).st.regions, s.NoWrap := by
    intro s hs
    rw [List.mem_singleton.mp hs]
    change 0 + (base + size).toNat ≤ 2 ^ 64
    omega
  obtain ⟨s, hs, -, hheld⟩ := hall (oneRegion r) (List.pairwise_singleton _ _) hwrap
    ((hasProt_iff_letIn hpast).mpr hletIn)
  rw [List.mem_singleton.mp hs] at hheld
  have hlow : base.toNat < 0 + (base + size).toNat := (hheld base.toNat le_rfl (by omega)).2
  omega

/-- Two pages of data. -/
def twoPages : Region := ⟨0x10000, 0x8000, Prot.RW, AllocType.Data, [], true⟩

end Memory
