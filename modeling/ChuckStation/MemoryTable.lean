/-
# The region table over whole runs

What every region of the table satisfies, whatever calls were made: it has an address and
a size, the size is a whole number of pages, and its last address is below the end of the
address space.
-/
import ChuckStation.MemoryManager

namespace Memory

/-! ## Sound regions -/

theorem alignUp_pageSize (v : U64) : alignUp v PAGE_SIZE = Alignment.alignUp v 14 := by
  have hmask : PAGE_SIZE - 1 = BitVec.ofNat 64 (2 ^ 14 - 1) := by decide
  rw [alignUp, Alignment.alignUp, Alignment.alignDown, add_sub_assoc, hmask]

theorem alignUp_idem (v : U64) : alignUp (alignUp v PAGE_SIZE) PAGE_SIZE = alignUp v PAGE_SIZE := by
  simp only [alignUp_pageSize]
  exact Alignment.alignUp_alignUp (by norm_num) v

/-- A region that `mmap` can have granted. -/
structure Region.Sound (r : Region) : Prop where
  base_ne : r.base ≠ 0
  size_ne : r.size ≠ 0
  aligned : alignUp r.size PAGE_SIZE = r.size
  noWrap : r.base.toNat + r.size.toNat < 2 ^ 64

/-- Every region of the table is sound. -/
def SoundTable (regions : List Region) : Prop := ∀ r ∈ regions, r.Sound

theorem Region.Sound.size_pos {r : Region} (h : r.Sound) : 0 < r.size := by
  rw [BitVec.lt_def]
  exact Nat.pos_of_ne_zero fun hzero => h.size_ne (BitVec.eq_of_toNat_eq hzero)

/-- A sound region covers its own base. -/
theorem Region.Sound.covers_base {r : Region} (h : r.Sound) : r.covers r.base = true := by
  have hsize : 0 < r.size.toNat := h.size_pos
  have hlt : r.base < r.base + r.size := by
    rw [BitVec.lt_def, BitVec.toNat_add, Nat.mod_eq_of_lt h.noWrap]
    omega
  simp [Region.covers, hlt]

/-- A region `mmap` granted is sound. -/
theorem sound_of_mmap {os : Os} (hos : os.Conforms) {h : Host} {hint size : U64} {prot : Prot}
    {fixed : Bool} {base : U64}
    (hmap : os.mmap h hint (alignUp size PAGE_SIZE) prot fixed = some base) {r : Region}
    (hbase : r.base = base) (hsize : r.size = alignUp size PAGE_SIZE) : r.Sound where
  base_ne := by
    rw [hbase]
    exact hos.nonnull _ _ _ _ _ _ hmap
  size_ne := by
    rw [hsize]
    exact hos.nonempty _ _ _ _ _ _ hmap
  aligned := by rw [hsize, alignUp_idem]
  noWrap := by
    rw [hbase, hsize]
    exact hos.noWrap _ _ _ _ _ _ hmap

theorem SoundTable.append {regions : List Region} {r : Region} (h : SoundTable regions)
    (hr : r.Sound) : SoundTable (regions ++ [r]) := by
  intro r' hr'
  rcases List.mem_append.mp hr' with hr' | hr'
  · exact h r' hr'
  · rwa [List.mem_singleton.mp hr']

/-- A region of the changed table is one of the old table or the change of one. -/
theorem mem_modifyRegion {regions : List Region} {base : U64} {f : Region → Region} {r : Region}
    (h : r ∈ modifyRegion base f regions) : r ∈ regions ∨ ∃ r' ∈ regions, r = f r' := by
  induction regions with
  | nil => exact .inl h
  | cons r' rs ih =>
      rw [modifyRegion] at h
      split_ifs at h with hbase
      · rcases List.mem_cons.mp h with rfl | h
        · exact .inr ⟨r', List.mem_cons_self, rfl⟩
        · exact .inl (List.mem_cons_of_mem r' h)
      · rcases List.mem_cons.mp h with rfl | h
        · exact .inl List.mem_cons_self
        · rcases ih h with hold | ⟨r₀, hr₀, rfl⟩
          · exact .inl (List.mem_cons_of_mem r' hold)
          · exact .inr ⟨r₀, List.mem_cons_of_mem r' hr₀, rfl⟩

theorem modifyRegion_of_find_none {regions : List Region} {base : U64} {f : Region → Region}
    (h : regions.find? (fun r => r.base == base) = none) :
    modifyRegion base f regions = regions := by
  induction regions with
  | nil => rfl
  | cons r rs ih =>
      rw [List.find?_cons] at h
      cases hbase : r.base == base with
      | true =>
          rw [hbase] at h
          cases h
      | false =>
          rw [hbase] at h
          rw [modifyRegion, hbase, if_neg Bool.false_ne_true, ih h]

theorem SoundTable.modifyRegion {regions : List Region} {base : U64} {f : Region → Region}
    (h : SoundTable regions) (hf : ∀ r : Region, r.Sound → (f r).Sound) :
    SoundTable (modifyRegion base f regions) := by
  intro r hr
  rcases mem_modifyRegion hr with hold | ⟨r', hr', rfl⟩
  · exact h r hold
  · exact hf r' (h r' hr')

/-! ## Calls of the manager -/

/-- A call of the virtual memory interface. -/
inductive Call where
  | init
  | reserve (hint size : U64) (tag : List Byte)
  | commit (base size : U64) (prot : Prot)
  | map (hint size : U64) (prot : Prot) (type : AllocType) (tag : List Byte)
  | protect (base size : U64) (prot : Prot)
  | unmap (base size : U64)
  | alloc (size align : U64) (type : AllocType)
  | free (ptr : U64)
  | reset
  | shutdown
  deriving DecidableEq, Repr

/-- The process after a call. -/
def Process.call (os : Os) (p : Process) : Call → Process
  | .init => init p
  | .reserve hint size tag => (reserve os hint size tag p).2
  | .commit base size prot => (commit os base size prot p).2
  | .map hint size prot type tag => (map os hint size prot type tag p).2
  | .protect base size prot => (protect os base size prot p).2
  | .unmap base size => (unmap os base size p).2
  | .alloc size align type => (alloc os size align type p).2
  | .free ptr => free ptr p
  | .reset => reset os p
  | .shutdown => shutdown os p

section Calls

variable {os : Os} {p : Process}

theorem call_map (hint size : U64) (prot : Prot) (type : AllocType) (tag : List Byte) :
    p.call os (.map hint size prot type tag) = (map os hint size prot type tag p).2 := rfl

theorem call_protect (base size : U64) (prot : Prot) :
    p.call os (.protect base size prot) = (protect os base size prot p).2 := rfl

/-- `Reserve` is refused, or it adds an uncommitted region and the mapping behind it. -/
theorem reserve_cases (os : Os) (p : Process) (hint size : U64) (tag : List Byte) :
    ((reserve os hint size tag p).2.st = p.st ∧
        (reserve os hint size tag p).2.host.prot = p.host.prot) ∨
      ∃ h hint' fixed base, os.mmap h hint' (alignUp size PAGE_SIZE) Prot.None fixed = some base ∧
        h.prot = p.host.prot ∧
        (reserve os hint size tag p).2.st =
          addRegion p.st { base := base, size := alignUp size PAGE_SIZE, tag := tag } ∧
        (reserve os hint size tag p).2.host.prot =
          (h.mapZero base (alignUp size PAGE_SIZE).toNat Prot.None).prot := by
  cases hfirst : os.mmap p.host hint (alignUp size PAGE_SIZE) Prot.None (hint != 0) with
  | some base =>
      right
      refine ⟨p.host, hint, hint != 0, base, hfirst, rfl, ?_⟩
      simp only [reserve, sysMmap, hfirst, Option.isNone_some, Bool.false_and,
        Bool.false_eq_true, if_false, Host.record_prot, and_self]
  | none =>
      by_cases hhint : hint = 0
      · left
        subst hhint
        rw [bne_self_eq_false] at hfirst
        simp only [reserve, sysMmap, bne_self_eq_false, hfirst, Bool.and_false,
          Bool.false_eq_true, if_false, Host.record_prot, and_self]
      · -- The second attempt, without the hint.
        have hhint' : (hint != 0) = true := bne_iff_ne.mpr hhint
        rw [hhint'] at hfirst
        cases hsecond : os.mmap (p.host.record (.mmap hint (alignUp size PAGE_SIZE) Prot.None
            true none)) 0 (alignUp size PAGE_SIZE) Prot.None false with
        | none =>
            left
            simp only [reserve, sysMmap, hfirst, hhint', Option.isNone_none, Bool.and_self,
              if_true, hsecond, Host.record_prot, and_self]
        | some base =>
            right
            refine ⟨_, 0, false, base, hsecond, rfl, ?_⟩
            simp only [reserve, sysMmap, hfirst, hhint', Option.isNone_none, Bool.and_self,
              if_true, hsecond, Host.record_prot, and_self]

/-- **One call** keeps every region sound. -/
theorem SoundTable.call (hos : os.Conforms) (h : SoundTable p.st.regions) (c : Call) :
    SoundTable (p.call os c).st.regions := by
  cases c with
  | init => simp [Process.call, init, SoundTable]
  | reset => simp [Process.call, reset, SoundTable]
  | shutdown => simp [Process.call, shutdown, SoundTable]
  | reserve hint size tag =>
      rcases reserve_cases os p hint size tag with
        ⟨hsame, -⟩ | ⟨h', hint', fixed, base, hmap, -, hadd, -⟩
      · rw [Process.call, hsame]
        exact h
      · rw [Process.call, hadd]
        -- What the system maps is sound by its manual.
        exact h.append (sound_of_mmap hos hmap rfl rfl)
  | commit base size prot =>
      -- A region that is marked keeps its place and its size.
      simp only [Process.call, commit]
      cases hans : sysMprotect os base (alignUp size PAGE_SIZE) (protToMmap prot) p.host with
      | mk ok host =>
          cases ok with
          | false => exact h
          | true => exact h.modifyRegion fun r hr => ⟨hr.base_ne, hr.size_ne, hr.aligned, hr.noWrap⟩
  | map hint size prot type tag =>
      cases hmap : os.mmap p.host hint (alignUp size PAGE_SIZE) (protToMmap prot) false with
      | none =>
          rw [Process.call, map_of_none type tag hmap]
          exact h
      | some base =>
          obtain ⟨q, hq, hregions, -⟩ := map_of_some type tag hmap
          rw [Process.call, hq, hregions]
          exact h.append (sound_of_mmap hos hmap rfl rfl)
  | protect base size prot =>
      simp only [Process.call, protect]
      cases hans : sysMprotect os base size (protToMmap prot) p.host with
      | mk ok host =>
          cases ok with
          | false => exact h
          | true => exact h.modifyRegion fun r hr => ⟨hr.base_ne, hr.size_ne, hr.aligned, hr.noWrap⟩
  | unmap base size =>
      simp only [Process.call, unmap]
      cases hans : sysMunmap os base size p.host with
      | mk ok host =>
          cases ok with
          | false => exact h
          | true =>
              simp only [removeRegion]
              split
              · exact h
              · exact fun r hr => h r (List.mem_of_mem_eraseP hr)
  | alloc size align type =>
      simp only [Process.call, alloc]
      split
      · exact h
      · exact h
  | free ptr =>
      simp only [Process.call, free]
      split_ifs
      · exact h
      · split
        · exact h
        · exact h

end Calls

/-! ## Two systems -/

/-- A system that maps nothing. -/
def refusingOs : Os where
  mmap _ _ _ _ _ := none
  mprotect _ _ _ _ := false
  munmap _ _ _ := false
  memalign _ _ _ := none
  canRead p := p != Prot.None

/-- A system that maps at the hint whenever it may, and grants everything else. -/
def obligingOs : Os where
  mmap h hint size _ _ :=
    if hint ≠ 0 ∧ size ≠ 0 ∧ hint.toNat + size.toNat < 2 ^ 64 ∧ h.Unmapped hint size.toNat then
      some hint
    else none
  mprotect _ _ _ _ := true
  munmap _ _ _ := true
  memalign _ _ _ := none
  canRead p := p != Prot.None

theorem obligingOs_mmap {h : Host} {hint size : U64} {prot : Prot} {fixed : Bool}
    (hhint : hint ≠ 0) (hsize : size ≠ 0) (hwrap : hint.toNat + size.toNat < 2 ^ 64)
    (hfresh : h.Unmapped hint size.toNat) : obligingOs.mmap h hint size prot fixed = some hint :=
  if_pos ⟨hhint, hsize, hwrap, hfresh⟩

theorem obligingOs_conforms : obligingOs.Conforms := by
  have hcond : ∀ h hint size prot fixed a, obligingOs.mmap h hint size prot fixed = some a →
      hint = a ∧ hint ≠ 0 ∧ size ≠ 0 ∧ hint.toNat + size.toNat < 2 ^ 64 ∧
        h.Unmapped hint size.toNat := by
    intro h hint size prot fixed a ha
    simp only [obligingOs, Option.ite_none_right_eq_some, Option.some.injEq] at ha
    exact ⟨ha.2, ha.1⟩
  constructor
  · intro h hint size prot fixed a ha
    exact (hcond h hint size prot fixed a ha).2.2.1
  · intro h hint size prot fixed a ha
    obtain ⟨rfl, -, -, hwrap, -⟩ := hcond h hint size prot fixed a ha
    exact hwrap
  · intro h hint size prot fixed a ha
    obtain ⟨rfl, hne, -⟩ := hcond h hint size prot fixed a ha
    exact hne
  · intro h hint size prot fixed a ha
    obtain ⟨rfl, -, -, -, hfresh⟩ := hcond h hint size prot fixed a ha
    exact hfresh

/-- A process that has mapped nothing. -/
def emptyProcess : Process := ⟨{}, ⟨fun _ => none, fun _ => 0, []⟩⟩

end Memory
