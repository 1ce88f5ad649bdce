/-
# Regions of loaded images

What a load adds to the region table, and what the table then says of the memory of the image.

* `mapLoop_regions`: every mapped segment has a committed region of its own;
* `hasProt_of_region`: in a table without overlaps the region that a range lies in decides about it.
-/
import ChuckStation.LoaderLayout
import ChuckStation.MemoryProtection

namespace Memory

/-! ## Tables over an address space -/

/-- The regions are sound, no two have an address in common, and all their addresses are mapped. -/
structure Backed (p : Process) : Prop where
  sound : SoundTable p.st.regions
  disjoint : DisjointTable p.st.regions
  mapped : ∀ r ∈ p.st.regions, ∀ a, r.covers a = true → p.host.prot a ≠ none

section Backed

variable {os : Os} {p q : Process} {r r' : Region} {a base size : U64} {required : Prot}

/-- A table that mirrors the address space. -/
theorem Mirrored.backed (h : Mirrored p) : Backed p where
  sound := h.sound
  disjoint := h.disjoint
  mapped r hr a ha := by
    rw [h.prot_eq]
    intro hnone
    rw [covers_of_mem_false hnone r hr] at ha
    cases ha

/-- An address is in one region only. -/
theorem DisjointTable.unique {regions : List Region} (h : DisjointTable regions)
    (hr : r ∈ regions) (hr' : r' ∈ regions) (ha : r.covers a = true) (ha' : r'.covers a = true) :
    r = r' := by
  by_contra hne
  have hsymm : Std.Symm fun r s : Region => ∀ a, r.covers a = true → s.covers a = false := by
    refine ⟨fun r s hrs a hs => ?_⟩
    cases hcov : r.covers a with
    | false => rfl
    | true =>
        rw [hrs a hcov] at hs
        cases hs
  have hno := List.Pairwise.forall h hr hr' hne a ha
  rw [hno] at ha'
  cases ha'

theorem Region.Sound.covers_of_le (h : r.Sound) (hlow : r.base.toNat ≤ a.toNat)
    (hhigh : a.toNat < r.base.toNat + r.size.toNat) : r.covers a = true := by
  rw [h.covers_iff, InRange, BitVec.toNat_sub_of_le (BitVec.le_def.mpr hlow)]
  omega

/-- The region that a range lies in decides about it. -/
theorem hasProt_of_region (h : Backed p) (hr : r ∈ p.st.regions)
    (hgrants : r.grants required = true) (hsize : 0 < size.toNat)
    (hlow : r.base.toNat ≤ base.toNat)
    (hhigh : base.toNat + size.toNat ≤ r.base.toNat + r.size.toNat) :
    hasProt p base size required = true := by
  have hwrap := (h.sound r hr).noWrap
  have hfit : base.toNat + size.toNat < 2 ^ 64 := by omega
  have hspans : r.spans base size = true := by
    simp only [Region.spans, Bool.and_eq_true, decide_eq_true_eq, BitVec.le_def, BitVec.toNat_add,
      Nat.mod_eq_of_lt hfit, Nat.mod_eq_of_lt hwrap]
    exact ⟨hlow, hhigh⟩
  rw [hasProt_eq_true_iff]
  cases hfind : p.st.regions.find? fun r => r.spans base size with
  | none =>
      rw [List.find?_eq_none] at hfind
      exact absurd hspans (hfind r hr)
  | some s =>
      have hs := List.mem_of_find?_eq_some hfind
      have hspans' : s.spans base size = true := by simpa using List.find?_some hfind
      obtain ⟨hslow, hshigh⟩ := spans_of_le hfit hspans'
      -- Both regions have the base of the range.
      have hsame : s = r := h.disjoint.unique hs hr
        ((h.sound s hs).covers_of_le hslow (by omega))
        ((h.sound r hr).covers_of_le hlow (by omega))
      exact ⟨s, rfl, by rw [hsame]; exact hgrants⟩

/-! ## One call -/

/-- Nothing but bytes and the log of the process changes. -/
theorem Backed.congr (h : Backed p) (hregions : q.st.regions = p.st.regions)
    (hprot : ∀ a, p.host.prot a ≠ none → q.host.prot a ≠ none) : Backed q where
  sound := by
    rw [hregions]
    exact h.sound
  disjoint := by
    rw [hregions]
    exact h.disjoint
  mapped r hr a ha := by
    rw [hregions] at hr
    exact hprot a (h.mapped r hr a ha)

/-- `Map` granted: one more region, in none of the others. -/
theorem Backed.map (hos : os.Conforms) (h : Backed p) {hint : U64} {prot : Prot}
    {type : AllocType} {tag : List Byte}
    (hmap : Memory.map os hint size prot type tag p = (base, q)) (hbase : base ≠ 0) :
    Backed q ∧ q.st.regions =
        p.st.regions ++ [⟨base, alignUp size PAGE_SIZE, prot, type, tag, true⟩] ∧
      ∀ r ∈ p.st.regions, r.covers base = false := by
  obtain ⟨hanswer, hprot, -⟩ := Loader.map_granted hmap hbase
  obtain ⟨q', hq', hregions, -⟩ := map_of_some type tag hanswer
  rw [hmap] at hq'
  obtain ⟨-, rfl⟩ := Prod.mk.inj hq'
  have hfresh := hos.fresh _ _ _ _ _ _ hanswer
  have hsound : (⟨base, alignUp size PAGE_SIZE, prot, type, tag, true⟩ : Region).Sound :=
    sound_of_mmap hos hanswer rfl rfl
  have hfree : ∀ r ∈ p.st.regions, ∀ a,
      (⟨base, alignUp size PAGE_SIZE, prot, type, tag, true⟩ : Region).covers a = true →
        r.covers a = false := by
    intro r hr a ha
    cases hcov : r.covers a with
    | false => rfl
    | true => exact absurd (hfresh.prot_eq_none (hsound.covers_iff.mp ha)) (h.mapped r hr a hcov)
  have hkeep : ∀ a, p.host.prot a ≠ none → q.host.prot a ≠ none := by
    intro a ha
    rw [hprot, Host.mapZero_prot_of_mapped hfresh ha]
    exact ha
  refine ⟨⟨?_, ?_, ?_⟩, hregions, fun r hr => hfree r hr base hsound.covers_base⟩
  · rw [hregions]
    exact h.sound.append hsound
  · rw [hregions]
    refine h.disjoint.append fun a ha => tableProt_of_forall fun r hr => hfree r hr a ha
  · intro r hr a ha
    rw [hregions] at hr
    rcases List.mem_append.mp hr with hold | hnew
    · exact hkeep a (h.mapped r hold a ha)
    · rw [List.mem_singleton.mp hnew] at ha
      rw [hprot, Host.mapZero_prot_of_lt (hsound.covers_iff.mp ha)]
      exact Option.some_ne_none _

theorem modifyRegion_append {f : Region → Region} {regions : List Region}
    (h : ∀ r ∈ regions, r.base ≠ base) (hr : r.base = base) :
    modifyRegion base f (regions ++ [r]) = regions ++ [f r] := by
  induction regions with
  | nil => exact if_pos (beq_iff_eq.mpr hr)
  | cons s regions ih =>
      obtain ⟨hs, hrest⟩ := List.forall_mem_cons.mp h
      rw [List.cons_append, modifyRegion, if_neg (by simpa using hs), ih hrest, List.cons_append]

/-- `Protect` changes the first region at the base, or none. -/
theorem protect_regions (os : Os) (base size : U64) (prot : Prot) (p : Process) :
    (protect os base size prot p).2.st.regions = p.st.regions ∨
      (protect os base size prot p).2.st.regions =
        modifyRegion base (fun r => { r with prot := prot }) p.st.regions := by
  simp only [protect]
  split
  · exact Or.inl rfl
  · exact Or.inr rfl

theorem Backed.protect (h : Backed p) (prot : Prot) :
    Backed (Memory.protect os base size prot p).2 := by
  have hkeep : ∀ a, p.host.prot a ≠ none →
      (Memory.protect os base size prot p).2.host.prot a ≠ none :=
    fun a ha => Loader.protect_mapped os base size prot ha
  rcases protect_regions os base size prot p with hsame | hchanged
  · exact h.congr hsame hkeep
  · refine ⟨?_, ?_, ?_⟩
    · rw [hchanged]
      exact h.sound.modifyRegion fun r hr => ⟨hr.base_ne, hr.size_ne, hr.aligned, hr.noWrap⟩
    · rw [hchanged]
      exact h.disjoint.modifyRegion fun _ _ => rfl
    · intro r hr a ha
      rw [hchanged] at hr
      rcases mem_modifyRegion hr with hold | ⟨s, hs, rfl⟩
      · exact hkeep a (h.mapped r hold a ha)
      · exact hkeep a (h.mapped s hs a ha)

end Backed

end Memory

namespace Loader

open Memory

/-! ## The segment loop -/

/-- The region of a mapped segment: as large as its mapping, and committed, with the rights of the
segment or, where the system refused these, with those it was filled with. -/
def Segment.IsRegion (seg : Segment) (r : Region) : Prop :=
  r.base = seg.hostBase ∧ r.size = alignUp seg.mapSz PAGE_SIZE ∧ r.committed = true ∧
    (r.prot = Prot.RW ∨ r.prot = flagsToProt seg.flags)

section Loop

variable {os : Os} {isPic : Bool} {tag : List Byte} {fetch : Fetch} {seg seg' : Segment}
  {segs segs' : List Segment} {st st' : MapState}

/-- Mapping a segment adds its region. -/
theorem mapSegment_regions (hos : os.Conforms) (hback : Backed st.mem) (hmemsz : seg.memsz ≠ 0)
    (h : mapSegment os isPic tag fetch seg st = (none, seg', st')) :
    Backed st'.mem ∧ ∃ r, seg'.IsRegion r ∧ st'.mem.st.regions = st.mem.st.regions ++ [r] := by
  rcases mapSegment_eq_none h with ⟨hzero, -⟩ | ⟨base, mem, -, hbase, hmap, rfl, hfill⟩
  · exact absurd hzero hmemsz
  obtain ⟨hback₁, hregions, hfree⟩ := hback.map hos hmap hbase
  obtain ⟨bs, filled, -, -, hfilled, hmem⟩ := fillSegment_eq_ok hfill
  have hsame : filled.st.regions = mem.st.regions := by rw [hfilled]
  have hback₂ : Backed filled := by
    refine hback₁.congr hsame fun a ha => ?_
    rw [hfilled]
    exact ha
  refine ⟨by rw [hmem]; exact hback₂.protect _, ?_⟩
  rw [hmem]
  rcases protect_regions os base seg.mapSz (flagsToProt seg.flags) filled with hkept | hchanged
  · refine ⟨_, ?_, hkept.trans (hsame.trans hregions)⟩
    exact ⟨rfl, rfl, rfl, Or.inl rfl⟩
  · have hother : ∀ r ∈ st.mem.st.regions, r.base ≠ base := by
      rintro r hr rfl
      have hcov := (hback.sound r hr).covers_base
      rw [hfree r hr] at hcov
      cases hcov
    rw [hsame, hregions, modifyRegion_append hother rfl] at hchanged
    refine ⟨_, ?_, hchanged⟩
    exact ⟨rfl, rfl, rfl, Or.inr rfl⟩

/-- **Regions of an image.**  Every mapped segment has a region of its own. -/
theorem mapLoop_regions (hos : os.Conforms) (hback : Backed st.mem)
    (h : mapLoop os isPic tag fetch segs st = (none, segs', st')) :
    Backed st'.mem ∧ (∀ r ∈ st.mem.st.regions, r ∈ st'.mem.st.regions) ∧
      ∀ seg ∈ segs', seg.memsz ≠ 0 → ∃ r ∈ st'.mem.st.regions, seg.IsRegion r := by
  induction segs generalizing segs' st with
  | nil =>
      cases h
      exact ⟨hback, fun r hr => hr, fun seg hseg => absurd hseg List.not_mem_nil⟩
  | cons seg segs ih =>
      obtain ⟨seg₁, st₁, rest, hbody, hrest, rfl⟩ := mapLoop_eq_none h
      by_cases hmemsz : seg.memsz = 0
      · rw [mapSegment_of_memsz hmemsz] at hbody
        cases hbody
        obtain ⟨hend, hkept, hsegs⟩ := ih hback hrest
        exact ⟨hend, hkept, List.forall_mem_cons.mpr ⟨fun hne => absurd hmemsz hne, hsegs⟩⟩
      · obtain ⟨hback₁, r, hr, hregions⟩ := mapSegment_regions hos hback hmemsz hbody
        obtain ⟨hend, hkept, hsegs⟩ := ih hback₁ hrest
        rw [hregions] at hkept
        refine ⟨hend, fun s hs => hkept s (List.mem_append_left _ hs), ?_⟩
        refine List.forall_mem_cons.mpr ⟨fun _ => ⟨r, ?_, hr⟩, hsegs⟩
        exact hkept r (List.mem_append_right _ (List.mem_singleton_self r))

end Loop

end Loader
