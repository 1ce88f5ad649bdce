/-
# Reference counts of the module registry

How often a module was registered and retained, against how often it was unloaded.  The ids
are handed out by a counter of 32 bits and the references are counted in 32 bits, so a run of
fewer than 2 ^ 32 calls never sees one of them come round.
-/
import ChuckStation.RegistryRuns

namespace ModuleRegistry

open Memory Loader OperationRuns

/-! ## Counting calls -/

/-- The call gave out a reference to the module: a registration that returned its id, or a
`Retain` that returned true. -/
def gains (s : Session) (op : Op) (id : ModuleId) : ℕ :=
  match op with
  | .register name path elfInfo isMain =>
      if (register name path elfInfo isMain s.registry).1 = id then 1 else 0
  | .registerDesc desc => if (registerDesc desc s.registry).1 = id then 1 else 0
  | .retain other => if other = id ∧ (retain other s.registry).1 = true then 1 else 0
  | _ => 0

/-- The call is an `Unload` of the module that returned true. -/
def losses (os : Os) (s : Session) (op : Op) (id : ModuleId) : ℕ :=
  match op with
  | .unload other =>
      if other = id ∧ (unload os other s.registry s.loader.mem).1 = true then 1 else 0
  | _ => 0

/-- The calls of a run that count for the module. -/
def tally (os : Os) (count : Session → Op → ModuleId → ℕ) (id : ModuleId) :
    Session → List Op → ℕ
  | _, [] => 0
  | s, op :: ops =>
    count s op id +
      match step os s op with
      | .error _ => 0
      | .ok t => tally os count id t ops

/-- The calls in question; a descriptor comes with an unused name, no id and one reference. -/
def Countable (s : Session) : Op → Prop
  | .register _ _ _ _ => True
  | .registerDesc desc =>
      desc.id = INVALID_MODULE ∧ desc.refCount = 1 ∧ desc.name ∉ s.registry.byName
  | .retain _ => True
  | .unload _ => True
  | _ => False

instance (s : Session) (op : Op) : Decidable (Countable s op) := by
  cases op <;> unfold Countable <;> infer_instance

/-! ## The invariant -/

/-- After `n` calls that gave out `g` references to each module and took back `l`.  Which module
is the main one plays no part. -/
structure Counted (n : ℕ) (g l : ModuleId → ℕ) (r : RegistryState) : Prop where
  consistent : Consistent { r with mainModule := INVALID_MODULE }
  handed : ∃ k ≤ n, r.nextId = BitVec.ofNat 32 (k + 1) ∧ ∀ id, 0 < g id → id.toNat ≤ k
  total : ∀ id, g id ≤ n
  present : ∀ id m, r.modules.lookup id = some m →
    1 ≤ m.refCount.toNat ∧ g id = l id + m.refCount.toNat
  absent : ∀ id, id ∉ r.modules → g id = l id

section Step

variable {n : ℕ} {g l : ModuleId → ℕ} {r : RegistryState} {id : ModuleId} {m : ModuleDesc}

theorem counted_empty : Counted 0 (fun _ => 0) (fun _ => 0) {} where
  consistent := consistent_empty 1
  handed := ⟨0, le_rfl, rfl, fun _ h => absurd h (lt_irrefl 0)⟩
  total _ := le_rfl
  present id m h := by simp at h
  absent _ _ := rfl

/-- A module that is there has been given out more often than taken back. -/
theorem Counted.lt_of_mem (h : Counted n g l r) (hid : id ∈ r.modules) : l id < g id := by
  obtain ⟨m, hm⟩ := AList.exists_lookup hid
  obtain ⟨hpos, heq⟩ := h.present id m hm
  omega

/-- A new entry, or a new count, with the other modules counted as before. -/
theorem Counted.entries_insert (h : Counted n g l r) (id : ModuleId) (m : ModuleDesc)
    (g' l' : ModuleId → ℕ)
    (hothers : ∀ other, id ≠ other → g' other = g other ∧ l' other = l other)
    (hown : 1 ≤ m.refCount.toNat ∧ g' id = l' id + m.refCount.toNat) :
    (∀ other m₁, (r.modules.insert id m).lookup other = some m₁ →
      1 ≤ m₁.refCount.toNat ∧ g' other = l' other + m₁.refCount.toNat) ∧
    ∀ other, other ∉ r.modules.insert id m → g' other = l' other := by
  constructor
  · intro other m₁ hlookup
    rw [AList.lookup_insert_ite] at hlookup
    by_cases hsame : other = id
    · rw [if_pos hsame] at hlookup
      cases hlookup
      rw [hsame]
      exact hown
    · rw [if_neg hsame] at hlookup
      obtain ⟨hg, hl⟩ := hothers other fun hback => hsame hback.symm
      rw [hg, hl]
      exact h.present other m₁ hlookup
  · intro other hother
    rw [AList.mem_insert, not_or] at hother
    obtain ⟨hg, hl⟩ := hothers other fun hback => hother.1 hback.symm
    rw [hg, hl]
    exact h.absent other hother.2

/-- One more call that does nothing. -/
theorem Counted.skip (h : Counted n g l r) : Counted (n + 1) g l r := by
  obtain ⟨k, hk, hnext, hle⟩ := h.handed
  exact ⟨h.consistent, ⟨k, by omega, hnext, hle⟩, fun id => (h.total id).trans (by omega),
    h.present, h.absent⟩

/-- One more reference to a module that is there. -/
theorem Counted.addReference (h : Counted n g l r) (hn : n + 1 < 2 ^ 32)
    (hm : r.modules.lookup id = some m) :
    Counted (n + 1) (fun other => g other + if id = other then 1 else 0) l
      { r with modules := r.modules.insert id { m with refCount := m.refCount + 1 } } := by
  obtain ⟨hpos, heq⟩ := h.present id m hm
  have hone : (1 : U32).toNat = 1 := rfl
  -- The count does not wrap: there were fewer references than calls.
  have hcount : (m.refCount + 1).toNat = m.refCount.toNat + 1 := by
    have hle := h.total id
    rw [BitVec.toNat_add, hone, Nat.mod_eq_of_lt (by omega)]
  obtain ⟨hpresent, habsent⟩ := h.entries_insert id { m with refCount := m.refCount + 1 }
    (fun other => g other + if id = other then 1 else 0) l
    (fun other hne => ⟨by rw [if_neg hne, Nat.add_zero], rfl⟩)
    ⟨by dsimp only; omega, by rw [if_pos rfl]; dsimp only; omega⟩
  refine ⟨h.consistent.update hm rfl rfl, ?_, ?_, hpresent, habsent⟩
  · obtain ⟨k, hk, hnext, hle⟩ := h.handed
    refine ⟨k, by omega, hnext, fun other hother => ?_⟩
    by_cases hsame : id = other
    · subst hsame
      exact hle id (by omega)
    · rw [if_neg hsame, Nat.add_zero] at hother
      exact hle other hother
  · intro other
    have hle := h.total other
    split_ifs <;> omega

/-- A module that no call was about so far. -/
theorem Counted.insert (h : Counted n g l r) (hn : n + 1 < 2 ^ 32) {main : ModuleId}
    (hid : m.id = r.nextId) (hcount : m.refCount = 1) (hname : m.name ∉ r.byName) :
    Counted (n + 1) (fun other => g other + if r.nextId = other then 1 else 0) l
      ⟨r.modules.insert r.nextId m, r.byName.insert m.name r.nextId, r.loadOrder ++ [r.nextId],
        r.nextId + 1, main⟩ := by
  obtain ⟨k, hk, hnext, hle⟩ := h.handed
  have hnextNat : r.nextId.toNat = k + 1 := by
    rw [hnext, BitVec.toNat_ofNat, Nat.mod_eq_of_lt (by omega)]
  -- The counter has passed every id that was given out.
  have hnever : g r.nextId = 0 := by
    by_contra hpos
    have hbound := hle r.nextId (by omega)
    omega
  have hfresh : r.nextId ∉ r.modules := fun hin => by
    have hlt := h.lt_of_mem hin
    omega
  have hlost : l r.nextId = 0 := by
    rw [← h.absent r.nextId hfresh]
    exact hnever
  obtain ⟨hpresent, habsent⟩ := h.entries_insert r.nextId m
    (fun other => g other + if r.nextId = other then 1 else 0) l
    (fun other hne => ⟨by rw [if_neg hne, Nat.add_zero], rfl⟩)
    ⟨by rw [hcount]; rfl, by rw [if_pos rfl, hcount, hnever, hlost]; rfl⟩
  refine ⟨?_, ?_, ?_, hpresent, habsent⟩
  · exact (consistent_insert_iff h.consistent r.nextId m (r.nextId + 1) INVALID_MODULE hid
      (.inl rfl)).mpr ⟨hfresh, hname⟩
  · refine ⟨k + 1, by omega, ?_, fun other hother => ?_⟩
    · dsimp only
      rw [hnext, BitVec.ofNat_add (k + 1) 1]
      rfl
    · by_cases hsame : r.nextId = other
      · rw [← hsame, hnextNat]
      · rw [if_neg hsame, Nat.add_zero] at hother
        exact (hle other hother).trans (by omega)
  · intro other
    have hbound := h.total other
    split_ifs <;> omega

/-- One reference less, of several. -/
theorem Counted.dropReference (h : Counted n g l r) (hm : r.modules.lookup id = some m)
    (hmore : 1 < m.refCount) :
    Counted (n + 1) g (fun other => l other + if id = other then 1 else 0)
      { r with modules := r.modules.insert id { m with refCount := m.refCount - 1 } } := by
  obtain ⟨hpos, heq⟩ := h.present id m hm
  have hone : (1 : U32).toNat = 1 := rfl
  have hlt : 1 < m.refCount.toNat := hmore
  have hcount : (m.refCount - 1).toNat = m.refCount.toNat - 1 := by
    have hbound := m.refCount.isLt
    rw [BitVec.toNat_sub, hone]
    omega
  obtain ⟨k, hk, hnext, hle⟩ := h.handed
  obtain ⟨hpresent, habsent⟩ := h.entries_insert id { m with refCount := m.refCount - 1 }
    g (fun other => l other + if id = other then 1 else 0)
    (fun other hne => ⟨rfl, by rw [if_neg hne, Nat.add_zero]⟩)
    ⟨by dsimp only; omega, by rw [if_pos rfl]; dsimp only; omega⟩
  exact ⟨h.consistent.update hm rfl rfl, ⟨k, by omega, hnext, hle⟩,
    fun other => (h.total other).trans (by omega), hpresent, habsent⟩

/-- The last reference. -/
theorem Counted.remove (h : Counted n g l r) (hm : r.modules.lookup id = some m)
    (hlast : ¬ 1 < m.refCount) :
    Counted (n + 1) g (fun other => l other + if id = other then 1 else 0)
      (removeModule id m r) := by
  obtain ⟨hpos, heq⟩ := h.present id m hm
  have hle : ¬ 1 < m.refCount.toNat := hlast
  obtain ⟨k, hk, hnext, hbound⟩ := h.handed
  refine ⟨?_, ⟨k, by omega, hnext, hbound⟩, fun other => (h.total other).trans (by omega), ?_, ?_⟩
  · exact (consistent_removeModule_iff h.consistent hm).mpr fun hzero => hzero.symm
  · intro other m₁ hlookup
    simp only [removeModule, AList.lookup_erase_ite] at hlookup
    split_ifs at hlookup with hsame
    rw [if_neg fun hback => hsame hback.symm]
    exact h.present other m₁ hlookup
  · intro other hother
    by_cases hsame : id = other
    · subst hsame
      rw [if_pos rfl]
      omega
    · rw [if_neg hsame]
      apply h.absent other
      intro hin
      exact hother (AList.mem_erase.mpr ⟨fun hback => hsame hback.symm, hin⟩)

end Step

/-! ## Runs -/

section Runs

variable {os : Os} {n : ℕ} {g l : ModuleId → ℕ} {s : Session}

theorem Counted.registered (h : Counted n g l s.registry) (hn : n + 1 < 2 ^ 32)
    (name path : List Byte) (elfInfo : ExecutableInfo) (isMain : Bool) :
    Counted (n + 1) (fun id => g id + gains s (.register name path elfInfo isMain) id) l
      (register name path elfInfo isMain s.registry).2 := by
  simp only [gains]
  cases hname : s.registry.byName.lookup name with
  | some id =>
      obtain ⟨m, hm⟩ := AList.exists_lookup (h.consistent.of_lookup_name hname)
      rw [register_of_some hname]
      dsimp only at hm ⊢
      rw [ModuleRegistry.addReference, hm]
      exact h.addReference hn hm
  | none =>
      rw [register_of_none hname]
      exact h.insert hn rfl rfl (AList.lookup_eq_none.mp hname)

theorem Counted.retained (h : Counted n g l s.registry) (hn : n + 1 < 2 ^ 32) (id : ModuleId) :
    Counted (n + 1) (fun other => g other + gains s (.retain id) other) l
      (retain id s.registry).2 := by
  simp only [gains]
  cases hm : s.registry.modules.lookup id with
  | none =>
      rw [retain_of_none hm]
      simpa using h.skip
  | some m =>
      rw [retain_of_some hm]
      simpa using h.addReference hn hm

theorem Counted.unloaded (h : Counted n g l s.registry) (id : ModuleId) :
    Counted (n + 1) g (fun other => l other + losses os s (.unload id) other)
      (unload os id s.registry s.loader.mem).2.1 := by
  simp only [losses]
  rcases unload_cases os id s.registry s.loader.mem with ⟨-, hun⟩ | ⟨m, hm, hway⟩
  · rw [hun]
    simpa using h.skip
  rcases hway with ⟨hmore, hun⟩ | ⟨-, -, hun⟩ | ⟨hlast, -, hun⟩
  · rw [hun]
    simpa using h.dropReference hm hmore
  · rw [hun]
    simpa using h.skip
  · rw [hun]
    simpa using h.remove hm hlast

/-- One call. -/
theorem Counted.step (h : Counted n g l s.registry) (hn : n + 1 < 2 ^ 32) {op : Op}
    (hop : Countable s op) :
    ∃ t, ModuleRegistry.step os s op = .ok t ∧
      Counted (n + 1) (fun id => g id + gains s op id) (fun id => l id + losses os s op id)
        t.registry := by
  cases op with
  | register name path elfInfo isMain => exact ⟨_, rfl, h.registered hn name path elfInfo isMain⟩
  | registerDesc desc =>
      obtain ⟨hid, hcount, hname⟩ := hop
      refine ⟨_, rfl, ?_⟩
      have hidFor : idFor desc s.registry = s.registry.nextId := if_neg fun hne => hne hid
      simp only [gains, registerDesc, hidFor, if_neg fun hne : desc.id ≠ INVALID_MODULE => hne hid]
      exact h.insert hn rfl hcount hname
  | load heap outside path inspected mapped => exact hop.elim
  | retain id => exact ⟨_, rfl, h.retained hn id⟩
  | unload id => exact ⟨_, rfl, h.unloaded id⟩
  | reset => exact hop.elim

/-- All the calls. -/
theorem counted_run (h : Counted n g l s.registry) {ops : List Op} (hn : n + ops.length < 2 ^ 32)
    (hops : AllReached (ModuleRegistry.step os) Countable s ops) :
    ∃ t, ops.foldlM (ModuleRegistry.step os) s = .ok t ∧
      Counted (n + ops.length) (fun id => g id + tally os gains id s ops)
        (fun id => l id + tally os (losses os) id s ops) t.registry := by
  induction ops generalizing n g l s with
  | nil => exact ⟨s, rfl, h⟩
  | cons op ops ih =>
      rw [List.length_cons] at hn ⊢
      obtain ⟨t, hstep, hcounted⟩ := h.step (by omega) hops.1
      obtain ⟨u, hrun, hfinal⟩ := ih hcounted (by omega) (hops.2 t hstep)
      refine ⟨u, ?_, ?_⟩
      · rw [List.foldlM_cons, hstep]
        exact hrun
      · simp only [tally, hstep]
        simp only [Nat.add_assoc] at hfinal ⊢
        rwa [Nat.add_comm 1] at hfinal

/-- What an `Unload` does to the registry: if it returns false, nothing; a module it removes is
no other module's dependency; and no other module's entry changes. -/
theorem unload_effect (os : Os) (id : ModuleId) (r : RegistryState) (mem : Process) :
    ((unload os id r mem).1 = false → (unload os id r mem).2.1 = r) ∧
    (id ∈ r.modules → id ∉ (unload os id r mem).2.1.modules →
      ∀ other m, other ≠ id → r.modules.lookup other = some m → id ∉ m.deps) ∧
    ∀ other, other ≠ id →
      (unload os id r mem).2.1.modules.lookup other = r.modules.lookup other := by
  rcases unload_cases os id r mem with ⟨-, hun⟩ | ⟨m, hm, hway⟩
  · rw [hun]
    exact ⟨fun _ => rfl, fun hin hout => absurd hin hout, fun _ _ => rfl⟩
  rcases hway with ⟨-, hun⟩ | ⟨-, -, hun⟩ | ⟨-, hdeps, hun⟩
  · rw [hun]
    refine ⟨fun hfalse => (by cases hfalse), fun _ hout => ?_, fun other hne => ?_⟩
    · exact absurd ((AList.mem_insert _).mpr (.inl rfl)) hout
    · exact AList.lookup_insert_ne hne
  · rw [hun]
    exact ⟨fun _ => rfl, fun hin hout => absurd hin hout, fun _ _ => rfl⟩
  · rw [hun]
    refine ⟨fun hfalse => (by cases hfalse), fun _ _ other m' hne hother hdep => ?_,
      fun other hne => AList.lookup_erase_ne hne⟩
    -- The scan has come across the dependent module.
    rw [hasDependents, List.any_eq_false] at hdeps
    have hentry : (⟨other, m'⟩ : Sigma fun _ : ModuleId => ModuleDesc) ∈ r.modules.entries :=
      AList.mem_lookup_iff.mp hother
    apply hdeps _ hentry
    rw [Bool.and_eq_true]
    exact ⟨bne_iff_ne.mpr hne, List.contains_iff_mem.mpr hdep⟩

end Runs

/-- All registrations and `Retain`s of the module, also those that were refused. -/
def asked (s : Session) (op : Op) (id : ModuleId) : ℕ :=
  match op with
  | .retain other => if other = id then 1 else 0
  | _ => gains s op id

end ModuleRegistry
