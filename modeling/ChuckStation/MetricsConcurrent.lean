/-
# Histograms under concurrency

`Record` is called by many threads at once.  The buckets and the count are added to atomically,
and the least and the greatest value are improved by loops around `compare_exchange_weak`; but
the sum is loaded and stored in two steps, so that another call may come in between.

* `records_kept`: when nobody is inside, the histogram holds exactly what was recorded, whatever
  the order, except that its sum is the sum of a part of it;
* `sum_kept_iff`: the sum of positive values is right too if and only if no call loads it while
  another is about to store it.
-/
import ChuckStation.Metrics
import ChuckStation.OperationRuns

namespace Metrics

open Buckets OperationRuns

/-! ## Least and greatest values -/

section Order

variable {α : Type*} [LinearOrder α] {S : Set α} {m v : α}

theorem isLeast_insert_of_le (h : IsLeast S m) (hv : m ≤ v) : IsLeast (insert v S) m := by
  refine ⟨Set.mem_insert_of_mem v h.1, fun w hw => ?_⟩
  rcases Set.mem_insert_iff.mp hw with rfl | hw
  · exact hv
  · exact h.2 hw

theorem isLeast_insert_of_lt (h : IsLeast S m) (hv : v < m) : IsLeast (insert v S) v := by
  refine ⟨Set.mem_insert v S, fun w hw => ?_⟩
  rcases Set.mem_insert_iff.mp hw with rfl | hw
  · exact le_refl w
  · exact hv.le.trans (h.2 hw)

theorem isGreatest_insert_of_le (h : IsGreatest S m) (hv : v ≤ m) : IsGreatest (insert v S) m :=
  isLeast_insert_of_le (α := αᵒᵈ) h hv

theorem isGreatest_insert_of_lt (h : IsGreatest S m) (hv : m < v) : IsGreatest (insert v S) v :=
  isLeast_insert_of_lt (α := αᵒᵈ) h hv

end Order

/-! ## Threads inside `Record` -/

/-- The next thing a call does. -/
inductive RecordPlace where
  | idle
  | bucketing (v : Double)
  | counting (v : Double)
  | loading (v : Double)
  /-- The sum has been loaded. -/
  | storing (v : Double) (loaded : ℚ)
  | readingMin (v : Double)
  | lowering (v curMin : Double)
  | readingMax (v : Double)
  | raising (v curMax : Double)
  deriving DecidableEq

/-- What a call does to the histogram. -/
inductive Stage where
  | bucket
  | count
  | sum
  | min
  | max
  deriving DecidableEq

/-- The value of a call that has not come to the stage. -/
def RecordPlace.before (k : Stage) : RecordPlace → Multiset Double
  | .idle => 0
  | .bucketing v => {v}
  | .counting v => if k = .bucket then 0 else {v}
  | .loading v | .storing v _ => if k = .bucket ∨ k = .count then 0 else {v}
  | .readingMin v | .lowering v _ => if k = .min ∨ k = .max then {v} else 0
  | .readingMax v | .raising v _ => if k = .max then {v} else 0

/-- The histogram, the calls inside, the values of all calls, and for each stage the values of
those that have passed it. -/
structure RecordRun (ι : Type*) where
  h : Histogram
  place : ι → RecordPlace := fun _ => .idle
  started : List Double := []
  passed : Stage → List Double := fun _ => []

inductive RecordEvent (ι : Type*) where
  | call (t : ι) (value : Double)
  /-- The thread goes on; `spurious` is a failure of `compare_exchange_weak` without a reason. -/
  | go (t : ι) (spurious : Bool)

section Step

variable {ι : Type*} [DecidableEq ι]

/-- The thread goes on, behind the stages in the list. -/
def RecordRun.move (s : RecordRun ι) (t : ι) (p : RecordPlace) (v : Double) (done : List Stage) :
    RecordRun ι :=
  { s with
    place := Function.update s.place t p
    passed := fun k => if k ∈ done then s.passed k ++ [v] else s.passed k }

def recordStep (s : RecordRun ι) : RecordEvent ι → RecordRun ι
  | .call t value => match s.place t with
    | .idle => { s.move t (.bucketing value) value [] with started := s.started ++ [value] }
    | _ => s
  | .go t spurious => match s.place t with
    | .idle => s
    | .bucketing v =>
      { s.move t (.counting v) v [.bucket] with
        h := { s.h with buckets := s.h.buckets.modify (bucketOf s.h.bounds v) (· + 1) } }
    | .counting v =>
      { s.move t (.loading v) v [.count] with h := { s.h with count := s.h.count + 1 } }
    | .loading v => s.move t (.storing v s.h.sum) v []
    | .storing v loaded =>
      { s.move t (.readingMin v) v [.sum] with h := { s.h with sum := loaded + v } }
    | .readingMin v => s.move t (.lowering v s.h.min) v []
    | .lowering v curMin =>
      if v < curMin then
        if s.h.min = curMin ∧ spurious = false then
          { s.move t (.readingMax v) v [.min] with h := { s.h with min := v } }
        else s.move t (.lowering v s.h.min) v []
      else s.move t (.readingMax v) v [.min]
    | .readingMax v => s.move t (.raising v s.h.max) v []
    | .raising v curMax =>
      if curMax < v then
        if s.h.max = curMax ∧ spurious = false then
          { s.move t .idle v [.max] with h := { s.h with max := v } }
        else s.move t (.raising v s.h.max) v []
      else s.move t .idle v [.max]

end Step

/-- A new histogram that nobody uses yet. -/
def newRun (ι : Type*) (bounds : List Double) : RecordRun ι := { h := Histogram.new bounds }

/-- The sum of a part of the values. -/
def PartSum (values : List Double) (x : ℚ) : Prop :=
  ∃ part ≤ (values : Multiset Double), x = (part.map Subtype.val).sum

/-! ## What holds between the stages -/

section Tally

variable {ι : Type*} {bounds : List Double} {s : RecordRun ι} {t : ι} {v : Double}

theorem partSum_nil : PartSum [] 0 := ⟨0, le_refl _, rfl⟩

theorem PartSum.concat {values : List Double} {x : ℚ} (h : PartSum values x) (v : Double) :
    PartSum (values ++ [v]) (x + v) := by
  obtain ⟨part, hle, rfl⟩ := h
  refine ⟨part + {v}, ?_, ?_⟩
  · rw [← Multiset.coe_add]
    exact add_le_add hle (le_refl _)
  · rw [Multiset.map_add, Multiset.sum_add, Multiset.map_singleton, Multiset.sum_singleton]

theorem PartSum.weaken {values : List Double} {x : ℚ} (h : PartSum values x) (v : Double) :
    PartSum (values ++ [v]) x := by
  obtain ⟨part, hle, rfl⟩ := h
  refine ⟨part, hle.trans ?_, rfl⟩
  rw [← Multiset.coe_add]
  exact Multiset.le_add_right _ _

/-- What a call has seen is not better than what is there now. -/
def PlaceTallied (h : Histogram) (summed : List Double) : RecordPlace → Prop
  | .storing _ loaded => PartSum summed loaded
  | .lowering _ curMin => h.min ≤ curMin
  | .raising _ curMax => curMax ≤ h.max
  | _ => True

/-- The histogram agrees with the values that have passed each stage. -/
structure Tallied (bounds : List Double) (s : RecordRun ι) : Prop where
  bounds_eq : s.h.bounds = bounds
  buckets_eq : s.h.buckets = counts U64 bounds (s.passed .bucket)
  count_eq : s.h.count = ((s.passed .count).length : U64)
  isLeast_min : IsLeast (insert maxDouble {v | v ∈ s.passed .min}) s.h.min
  isGreatest_max : IsGreatest (insert lowestDouble {v | v ∈ s.passed .max}) s.h.max
  sum_part : PartSum (s.passed .sum) s.h.sum
  places : ∀ t, PlaceTallied s.h (s.passed .sum) (s.place t)

theorem tallied_new (bounds : List Double) : Tallied (boundsOf bounds) (newRun ι bounds) where
  bounds_eq := rfl
  buckets_eq := counts_nil.symm
  count_eq := rfl
  isLeast_min := by simp [newRun, Histogram.new]
  isGreatest_max := by simp [newRun, Histogram.new]
  sum_part := partSum_nil
  places := fun _ => trivial

theorem insert_concat (values : List Double) (v w : Double) :
    insert w {x | x ∈ values ++ [v]} = insert v (insert w {x | x ∈ values}) := by
  ext x
  simp only [Set.mem_insert_iff, Set.mem_ofPred_eq, List.mem_append, List.mem_singleton]
  tauto

/-- Sums grow, the least value falls and the greatest rises. -/
theorem PlaceTallied.mono {h h' : Histogram} {summed summed' : List Double} {p : RecordPlace}
    (hp : PlaceTallied h summed p) (hmin : h'.min ≤ h.min) (hmax : h.max ≤ h'.max)
    (hsum : ∀ x, PartSum summed x → PartSum summed' x) : PlaceTallied h' summed' p := by
  cases p with
  | storing v loaded => exact hsum loaded hp
  | lowering v curMin => exact hmin.trans hp
  | raising v curMax => exact le_trans hp hmax
  | idle | bucketing v | counting v | loading v | readingMin v | readingMax v => trivial

variable [DecidableEq ι]

theorem places_move {h' : Histogram} {summed' : List Double} {p : RecordPlace}
    (hplaces : ∀ t, PlaceTallied s.h (s.passed .sum) (s.place t)) (hmin : h'.min ≤ s.h.min)
    (hmax : s.h.max ≤ h'.max) (hsum : ∀ x, PartSum (s.passed .sum) x → PartSum summed' x)
    (hp : PlaceTallied h' summed' p) (u : ι) :
    PlaceTallied h' summed' (Function.update s.place t p u) := by
  by_cases hu : u = t
  · rw [hu, Function.update_self]
    exact hp
  · rw [Function.update_of_ne hu]
    exact (hplaces u).mono hmin hmax hsum

/-- A call goes on without touching the histogram. -/
theorem Tallied.moves (h : Tallied bounds s) {p : RecordPlace}
    (hp : PlaceTallied s.h (s.passed .sum) p) (v : Double) : Tallied bounds (s.move t p v []) :=
  { h with places := places_move h.places (le_refl _) (le_refl _) (fun _ => id) hp }

theorem Tallied.bucketing (h : Tallied bounds s) (v : Double) :
    Tallied bounds { s.move t (.counting v) v [.bucket] with
      h := { s.h with buckets := s.h.buckets.modify (bucketOf s.h.bounds v) (· + 1) } } := by
  refine { h with buckets_eq := ?_, places := ?_ }
  · show s.h.buckets.modify (bucketOf s.h.bounds v) (· + 1) =
      counts U64 bounds (s.passed .bucket ++ [v])
    rw [counts_concat, ← h.buckets_eq, ← h.bounds_eq]
  · exact places_move h.places (le_refl _) (le_refl _) (fun _ => id) trivial

theorem Tallied.counting (h : Tallied bounds s) (v : Double) :
    Tallied bounds
      { s.move t (.loading v) v [.count] with h := { s.h with count := s.h.count + 1 } } := by
  refine { h with count_eq := ?_, places := ?_ }
  · show s.h.count + 1 = ((s.passed .count ++ [v]).length : U64)
    rw [List.length_append, List.length_singleton, Nat.cast_add, Nat.cast_one, ← h.count_eq]
  · exact places_move h.places (le_refl _) (le_refl _) (fun _ => id) trivial

theorem Tallied.storing (h : Tallied bounds s) {v : Double} {loaded : ℚ}
    (hloaded : PartSum (s.passed .sum) loaded) :
    Tallied bounds
      { s.move t (.readingMin v) v [.sum] with h := { s.h with sum := loaded + v } } :=
  { h with
    sum_part := hloaded.concat v
    places := places_move h.places (le_refl _) (le_refl _) (fun _ hx => hx.weaken v) trivial }

/-- The value is the least one now. -/
theorem Tallied.lowered (h : Tallied bounds s) {v : Double} (hlt : v < s.h.min) :
    Tallied bounds { s.move t (.readingMax v) v [.min] with h := { s.h with min := v } } := by
  refine { h with isLeast_min := ?_, places := ?_ }
  · show IsLeast (insert maxDouble {x | x ∈ s.passed .min ++ [v]}) v
    rw [insert_concat]
    exact isLeast_insert_of_lt h.isLeast_min hlt
  · exact places_move h.places hlt.le (le_refl _) (fun _ => id) trivial

/-- The value is not less than the least one. -/
theorem Tallied.keptMin (h : Tallied bounds s) {v : Double} (hle : s.h.min ≤ v) :
    Tallied bounds (s.move t (.readingMax v) v [.min]) := by
  refine { h with isLeast_min := ?_, places := ?_ }
  · show IsLeast (insert maxDouble {x | x ∈ s.passed .min ++ [v]}) s.h.min
    rw [insert_concat]
    exact isLeast_insert_of_le h.isLeast_min hle
  · exact places_move h.places (le_refl _) (le_refl _) (fun _ => id) trivial

theorem Tallied.raised (h : Tallied bounds s) {v : Double} (hlt : s.h.max < v) :
    Tallied bounds { s.move t .idle v [.max] with h := { s.h with max := v } } := by
  refine { h with isGreatest_max := ?_, places := ?_ }
  · show IsGreatest (insert lowestDouble {x | x ∈ s.passed .max ++ [v]}) v
    rw [insert_concat]
    exact isGreatest_insert_of_lt h.isGreatest_max hlt
  · exact places_move h.places (le_refl _) hlt.le (fun _ => id) trivial

theorem Tallied.keptMax (h : Tallied bounds s) {v : Double} (hle : v ≤ s.h.max) :
    Tallied bounds (s.move t .idle v [.max]) := by
  refine { h with isGreatest_max := ?_, places := ?_ }
  · show IsGreatest (insert lowestDouble {x | x ∈ s.passed .max ++ [v]}) s.h.max
    rw [insert_concat]
    exact isGreatest_insert_of_le h.isGreatest_max hle
  · exact places_move h.places (le_refl _) (le_refl _) (fun _ => id) trivial

theorem Tallied.step (h : Tallied bounds s) (e : RecordEvent ι) :
    Tallied bounds (recordStep s e) := by
  cases e with
  | call t value =>
      rw [recordStep]
      split
      · exact { h.moves (t := t) (p := .bucketing value) trivial value with }
      · exact h
  | go t spurious =>
      have hplace := h.places t
      rw [recordStep]
      cases hp : s.place t with
      | idle => exact h
      | bucketing v => exact h.bucketing v
      | counting v => exact h.counting v
      | loading v => exact h.moves (p := .storing v s.h.sum) h.sum_part v
      | storing v loaded =>
          rw [hp] at hplace
          exact h.storing hplace
      | readingMin v => exact h.moves (p := .lowering v s.h.min) (le_refl s.h.min) v
      | lowering v curMin =>
          rw [hp] at hplace
          dsimp only
          split_ifs with hlt hcas
          · exact h.lowered (by rw [hcas.1]; exact hlt)
          · exact h.moves (p := .lowering v s.h.min) (le_refl s.h.min) v
          · exact h.keptMin (le_trans hplace (not_lt.mp hlt))
      | readingMax v => exact h.moves (p := .raising v s.h.max) (le_refl s.h.max) v
      | raising v curMax =>
          rw [hp] at hplace
          dsimp only
          split_ifs with hlt hcas
          · exact h.raised (by rw [hcas.1]; exact hlt)
          · exact h.moves (p := .raising v s.h.max) (le_refl s.h.max) v
          · exact h.keptMax (le_trans (not_lt.mp hlt) hplace)

/-! ## Where the values are -/

section Flight

variable [Fintype ι] {p : RecordPlace}

/-- Every value that was started has passed the stage, or its call has not come to it. -/
def Flown (s : RecordRun ι) : Prop :=
  ∀ k, (s.started : Multiset Double) = s.passed k + ∑ t, (s.place t).before k

theorem sum_before_update (place : ι → RecordPlace) (t : ι) (p : RecordPlace) (k : Stage) :
    ∑ u, (Function.update place t p u).before k + (place t).before k =
      ∑ u, (place u).before k + p.before k := by
  have hrest : ∑ u ∈ Finset.univ.erase t, (Function.update place t p u).before k =
      ∑ u ∈ Finset.univ.erase t, (place u).before k := by
    refine Finset.sum_congr rfl fun u hu => ?_
    rw [Function.update_of_ne (Finset.ne_of_mem_erase hu)]
  rw [← Finset.add_sum_erase Finset.univ _ (Finset.mem_univ t), Function.update_self, hrest,
    ← Finset.add_sum_erase Finset.univ (fun u => (place u).before k) (Finset.mem_univ t)]
  abel

/-- A call passes some stages. -/
theorem Flown.moves (h : Flown s) {v : Double} {done : List Stage} {s' : RecordRun ι}
    (hstarted : s'.started = s.started) (hplace : s'.place = Function.update s.place t p)
    (hpassed : s'.passed = (s.move t p v done).passed)
    (hbefore : ∀ k, (s.place t).before k = (if k ∈ done then {v} else 0) + p.before k) :
    Flown s' := by
  intro k
  have hsum := sum_before_update s.place t p k
  rw [hbefore k, ← add_assoc] at hsum
  have hsum' := add_right_cancel hsum
  rw [hstarted, hplace, hpassed, h k, ← hsum']
  show _ = ((if k ∈ done then s.passed k ++ [v] else s.passed k : List Double) : Multiset Double) +
    _
  split_ifs
  · rw [← Multiset.coe_add, add_assoc]
    congr 1
    exact add_comm _ _
  · rw [add_zero]

theorem Flown.step (h : Flown s) (e : RecordEvent ι) : Flown (recordStep s e) := by
  cases e with
  | call t value =>
      rw [recordStep]
      split
      · rename_i hidle
        intro k
        have hsum := sum_before_update s.place t (.bucketing value) k
        rw [hidle, show RecordPlace.idle.before k = 0 from rfl, add_zero] at hsum
        show ((s.started ++ [value] : List Double) : Multiset Double) =
          s.passed k + ∑ u, (Function.update s.place t (.bucketing value) u).before k
        rw [hsum, ← Multiset.coe_add, h k, add_assoc]
        rfl
      · exact h
  | go t spurious =>
      rw [recordStep]
      cases hp : s.place t with
      | idle => exact h
      | bucketing v =>
          refine h.moves (t := t) (v := v) rfl rfl rfl fun k => ?_
          rw [hp]
          cases k <;> simp [RecordPlace.before]
      | counting v =>
          refine h.moves (t := t) (v := v) rfl rfl rfl fun k => ?_
          rw [hp]
          cases k <;> simp [RecordPlace.before]
      | loading v =>
          refine h.moves (t := t) (v := v) rfl rfl rfl fun k => ?_
          rw [hp]
          cases k <;> simp [RecordPlace.before]
      | storing v loaded =>
          refine h.moves (t := t) (v := v) rfl rfl rfl fun k => ?_
          rw [hp]
          cases k <;> simp [RecordPlace.before]
      | readingMin v =>
          refine h.moves (t := t) (v := v) rfl rfl rfl fun k => ?_
          rw [hp]
          cases k <;> simp [RecordPlace.before]
      | lowering v curMin =>
          dsimp only
          split_ifs
          all_goals
            refine h.moves (t := t) (v := v) rfl rfl rfl fun k => ?_
            rw [hp]
            cases k <;> simp [RecordPlace.before]
      | readingMax v =>
          refine h.moves (t := t) (v := v) rfl rfl rfl fun k => ?_
          rw [hp]
          cases k <;> simp [RecordPlace.before]
      | raising v curMax =>
          dsimp only
          split_ifs
          all_goals
            refine h.moves (t := t) (v := v) rfl rfl rfl fun k => ?_
            rw [hp]
            cases k <;> simp [RecordPlace.before]

omit [DecidableEq ι] in
theorem flown_new (bounds : List Double) : Flown (newRun ι bounds) := by
  intro k
  show (0 : Multiset Double) = 0 + ∑ _t : ι, (0 : Multiset Double)
  rw [Finset.sum_const_zero, add_zero]

omit [DecidableEq ι] in
/-- When nobody is inside, every value has passed every stage. -/
theorem Flown.perm (h : Flown s) (hidle : ∀ t, s.place t = .idle) (k : Stage) :
    (s.passed k).Perm s.started := by
  have hsum : ∑ t, (s.place t).before k = 0 := by
    refine Finset.sum_eq_zero fun t _ => ?_
    rw [hidle t]
    rfl
  have hflown := h k
  rw [hsum, add_zero] at hflown
  exact (Multiset.coe_eq_coe.mp hflown).symm

/-- When nobody is inside, the histogram holds all values; its sum is that of a part of them. -/
def KeepsRecords (bounds : List Double) (s : RecordRun ι) : Prop :=
  (∀ t, s.place t = .idle) →
    Recorded bounds s.started { s.h with sum := (s.started.map Subtype.val).sum } ∧
      PartSum s.started s.h.sum

omit [DecidableEq ι] in
theorem Tallied.keepsRecords (h : Tallied bounds s) (hflown : Flown s) : KeepsRecords bounds s := by
  intro hidle
  have hset : ∀ k, {v | v ∈ s.passed k} = {v | v ∈ s.started} := by
    intro k
    ext v
    exact (hflown.perm hidle k).mem_iff
  refine ⟨⟨h.bounds_eq, ?_, ?_, ?_, ?_, rfl⟩, ?_⟩
  · show s.h.buckets = _
    rw [h.buckets_eq, counts, counts]
    refine List.map_congr_left fun i _ => ?_
    rw [(hflown.perm hidle .bucket).countP_eq]
  · show s.h.count = _
    rw [h.count_eq, (hflown.perm hidle .count).length_eq]
  · show IsLeast _ s.h.min
    rw [← hset .min]
    exact h.isLeast_min
  · show IsGreatest _ s.h.max
    rw [← hset .max]
    exact h.isGreatest_max
  · obtain ⟨part, hle, hsum⟩ := h.sum_part
    rw [Multiset.coe_eq_coe.mpr (hflown.perm hidle .sum)] at hle
    exact ⟨part, hle, hsum⟩

end Flight

end Tally

/-! ## The sum -/

section Sum

variable {ι : Type*} {s s' : RecordRun ι} {t : ι} {v : Double}

/-- The sum of what has been stored. -/
def RecordRun.total (s : RecordRun ι) : ℚ := ((s.passed .sum).map Subtype.val).sum

/-- No call loads the sum while another one is about to store it. -/
def LoadsAlone (s : RecordRun ι) (e : RecordEvent ι) : Prop :=
  ∀ t spurious v, e = .go t spurious → s.place t = .loading v →
    ∀ u w loaded, s.place u ≠ .storing w loaded

/-- A call records a positive value. -/
def Positive : RecordEvent ι → Prop
  | .call _ value => 0 < value.1
  | .go _ _ => True

/-- What a step does to the sum. -/
inductive SumMoves [DecidableEq ι] (s : RecordRun ι) (e : RecordEvent ι) (s' : RecordRun ι) : Prop
  | stays (hsum : s'.h.sum = s.h.sum) (htotal : s'.total = s.total)
      (hplace : ∀ u w x, s'.place u = .storing w x ↔ s.place u = .storing w x)
  | loads (t : ι) (spurious : Bool) (v : Double) (hevent : e = .go t spurious)
      (hbefore : s.place t = .loading v) (hsum : s'.h.sum = s.h.sum) (htotal : s'.total = s.total)
      (hplace : s'.place = Function.update s.place t (.storing v s.h.sum))
  | stores (t : ι) (v : Double) (loaded : ℚ) (hbefore : s.place t = .storing v loaded)
      (hsum : s'.h.sum = loaded + v) (htotal : s'.total = s.total + v)
      (hplace : s'.place = Function.update s.place t (.readingMin v))

variable [DecidableEq ι]

/-- A call that is not about to store goes where it is not either. -/
theorem storing_update {p : RecordPlace} (hp : ∀ w x, p ≠ .storing w x)
    (ht : ∀ w x, s.place t ≠ .storing w x) (u : ι) (w : Double) (x : ℚ) :
    Function.update s.place t p u = .storing w x ↔ s.place u = .storing w x := by
  by_cases hu : u = t
  · rw [hu, Function.update_self]
    exact iff_of_false (hp w x) (ht w x)
  · rw [Function.update_of_ne hu]

theorem sumMoves_step (s : RecordRun ι) (e : RecordEvent ι) : SumMoves s e (recordStep s e) := by
  have hstays : ∀ {t : ι} {p : RecordPlace} {s' : RecordRun ι}, (∀ w x, p ≠ .storing w x) →
      (∀ w x, s.place t ≠ .storing w x) → s'.h.sum = s.h.sum → s'.total = s.total →
      s'.place = Function.update s.place t p → SumMoves s e s' := by
    intro t p s' hp ht hsum htotal hplace
    refine .stays hsum htotal fun u w x => ?_
    rw [hplace]
    exact storing_update hp ht u w x
  cases e with
  | call t value =>
      rw [recordStep]
      split
      · rename_i hidle
        exact hstays (by simp) (by simp [hidle]) rfl rfl rfl
      · exact .stays rfl rfl fun _ _ _ => Iff.rfl
  | go t spurious =>
      rw [recordStep]
      cases hp : s.place t with
      | idle => exact .stays rfl rfl fun _ _ _ => Iff.rfl
      | bucketing v | counting v | readingMin v | readingMax v =>
          exact hstays (by simp) (by simp [hp]) rfl rfl rfl
      | loading v => exact .loads t spurious v rfl hp rfl rfl rfl
      | storing v loaded =>
          refine .stores t v loaded hp rfl ?_ rfl
          show ((s.passed .sum ++ [v]).map Subtype.val).sum = _
          rw [List.map_append, List.sum_append, List.map_singleton, List.sum_singleton]
          rfl
      | lowering v curMin | raising v curMax =>
          dsimp only
          split_ifs
          all_goals exact hstays (by simp) (by simp [hp]) rfl rfl rfl

/-- Nothing is lost, and at most one call is about to store. -/
structure SumKept (s : RecordRun ι) : Prop where
  sum_eq : s.h.sum = s.total
  loaded_eq : ∀ t v loaded, s.place t = .storing v loaded → loaded = s.total
  alone : ∀ t v loaded u w x, s.place t = .storing v loaded → s.place u = .storing w x → t = u

theorem SumKept.step (h : SumKept s) {e : RecordEvent ι} (he : LoadsAlone s e) :
    SumKept (recordStep s e) := by
  cases sumMoves_step s e with
  | stays hsum htotal hplace =>
      refine ⟨by rw [hsum, htotal, h.sum_eq], fun t v x ht => ?_, fun t v x u w y ht hu => ?_⟩
      · rw [htotal]
        exact h.loaded_eq t v x ((hplace t v x).mp ht)
      · exact h.alone t v x u w y ((hplace t v x).mp ht) ((hplace u w y).mp hu)
  | loads t spurious v hevent hbefore hsum htotal hplace =>
      have hnone := he t spurious v hevent hbefore
      have honly : ∀ u w x, (recordStep s e).place u = .storing w x → u = t ∧ x = s.h.sum := by
        intro u w x hu
        rw [hplace] at hu
        by_cases hut : u = t
        · rw [hut, Function.update_self] at hu
          exact ⟨hut, (RecordPlace.storing.inj hu).2.symm⟩
        · rw [Function.update_of_ne hut] at hu
          exact absurd hu (hnone u w x)
      refine ⟨by rw [hsum, htotal, h.sum_eq], fun u w x hu => ?_, fun u w x u' w' x' hu hu' => ?_⟩
      · rw [(honly u w x hu).2, htotal, h.sum_eq]
      · rw [(honly u w x hu).1, (honly u' w' x' hu').1]
  | stores t v loaded hbefore hsum htotal hplace =>
      have hnone : ∀ u w x, (recordStep s e).place u ≠ .storing w x := by
        intro u w x hu
        rw [hplace] at hu
        by_cases hut : u = t
        · rw [hut, Function.update_self] at hu
          cases hu
        · rw [Function.update_of_ne hut] at hu
          exact hut (h.alone u w x t v loaded hu hbefore)
      refine ⟨?_, fun u w x hu => absurd hu (hnone u w x),
        fun u w x _ _ _ hu => absurd hu (hnone u w x)⟩
      rw [hsum, htotal, h.loaded_eq t v loaded hbefore]

/-- With positive values no sum is too large. -/
structure Behind (s : RecordRun ι) : Prop where
  sum_le : s.h.sum ≤ s.total
  loaded_le : ∀ t v loaded, s.place t = .storing v loaded → loaded ≤ s.total
  positive : ∀ t, ∀ w ∈ (s.place t).before .max, 0 < w.1

omit [DecidableEq ι] in
theorem Behind.storing_pos (h : Behind s) {loaded : ℚ} (ht : s.place t = .storing v loaded) :
    0 < v.1 := by
  have hpos := h.positive t
  rw [ht] at hpos
  exact hpos v (Multiset.mem_singleton_self v)

theorem positive_step (h : ∀ t, ∀ w ∈ (s.place t).before .max, 0 < w.1) {e : RecordEvent ι}
    (he : Positive e) : ∀ t, ∀ w ∈ ((recordStep s e).place t).before .max, 0 < w.1 := by
  have hupdate : ∀ {t : ι} {p : RecordPlace}, (∀ w ∈ p.before .max, 0 < w.1) →
      ∀ u, ∀ w ∈ (Function.update s.place t p u).before .max, 0 < w.1 := by
    intro t p hp u w hw
    by_cases hu : u = t
    · rw [hu, Function.update_self] at hw
      exact hp w hw
    · rw [Function.update_of_ne hu] at hw
      exact h u w hw
  cases e with
  | call t value =>
      rw [recordStep]
      split
      · refine hupdate fun w hw => ?_
        rw [Multiset.mem_singleton.mp hw]
        exact he
      · exact h
  | go t spurious =>
      have ht := h t
      rw [recordStep]
      cases hp : s.place t with
      | idle => exact h
      | bucketing v | counting v | loading v | storing v loaded | readingMin v | readingMax v =>
          rw [hp] at ht
          exact hupdate ht
      | lowering v curMin =>
          rw [hp] at ht
          dsimp only
          split_ifs
          all_goals exact hupdate ht
      | raising v curMax =>
          rw [hp] at ht
          dsimp only
          split_ifs
          · exact hupdate fun w hw => absurd hw (Multiset.notMem_zero w)
          · exact hupdate ht
          · exact hupdate fun w hw => absurd hw (Multiset.notMem_zero w)

theorem Behind.step (h : Behind s) {e : RecordEvent ι} (he : Positive e) :
    Behind (recordStep s e) := by
  have hpositive := positive_step h.positive he
  cases sumMoves_step s e with
  | stays hsum htotal hplace =>
      refine ⟨by rw [hsum, htotal]; exact h.sum_le, fun t v x ht => ?_, hpositive⟩
      rw [htotal]
      exact h.loaded_le t v x ((hplace t v x).mp ht)
  | loads t spurious v hevent hbefore hsum htotal hplace =>
      refine ⟨by rw [hsum, htotal]; exact h.sum_le, fun u w x hu => ?_, hpositive⟩
      rw [htotal]
      rw [hplace] at hu
      by_cases hut : u = t
      · rw [hut, Function.update_self] at hu
        rw [← (RecordPlace.storing.inj hu).2]
        exact h.sum_le
      · rw [Function.update_of_ne hut] at hu
        exact h.loaded_le u w x hu
  | stores t v loaded hbefore hsum htotal hplace =>
      have hloaded := h.loaded_le t v loaded hbefore
      have hv := h.storing_pos hbefore
      refine ⟨by rw [hsum, htotal]; linarith, fun u w x hu => ?_, hpositive⟩
      rw [htotal]
      rw [hplace] at hu
      by_cases hut : u = t
      · rw [hut, Function.update_self] at hu
        cases hu
      · rw [Function.update_of_ne hut] at hu
        have hx := h.loaded_le u w x hu
        linarith

/-- A value is lost, or will be. -/
inductive Lost (s : RecordRun ι) : Prop
  | gone (hsum : s.h.sum < s.total)
      (hloaded : ∀ t v loaded, s.place t = .storing v loaded → loaded < s.total)
  | going (t : ι) (v : Double) (loaded : ℚ) (ht : s.place t = .storing v loaded)
      (hlt : loaded < s.total)
  | racing (t : ι) (v : Double) (loaded : ℚ) (u : ι) (w : Double) (x : ℚ) (hne : t ≠ u)
      (ht : s.place t = .storing v loaded) (hu : s.place u = .storing w x)

/-- What is lost stays lost. -/
theorem Lost.step (h : Lost s) (hb : Behind s) (e : RecordEvent ι) : Lost (recordStep s e) := by
  cases sumMoves_step s e with
  | stays hsum htotal hplace =>
      cases h with
      | gone hlost hloaded =>
          refine .gone (by rw [hsum, htotal]; exact hlost) fun t v x ht => ?_
          rw [htotal]
          exact hloaded t v x ((hplace t v x).mp ht)
      | going t v x ht hlt =>
          exact .going t v x ((hplace t v x).mpr ht) (by rw [htotal]; exact hlt)
      | racing t v x u w y hne ht hu =>
          exact .racing t v x u w y hne ((hplace t v x).mpr ht) ((hplace u w y).mpr hu)
  | loads t₀ spurious v₀ hevent hbefore hsum htotal hplace =>
      have hkeeps : ∀ {t v x}, s.place t = .storing v x →
          (recordStep s e).place t = .storing v x := by
        intro t v x ht
        rw [hplace, Function.update_of_ne, ht]
        rintro rfl
        rw [hbefore] at ht
        cases ht
      cases h with
      | gone hlost hloaded =>
          refine .gone (by rw [hsum, htotal]; exact hlost) fun t v x ht => ?_
          rw [htotal]
          rw [hplace] at ht
          by_cases htt : t = t₀
          · rw [htt, Function.update_self] at ht
            rw [← (RecordPlace.storing.inj ht).2]
            exact hlost
          · rw [Function.update_of_ne htt] at ht
            exact hloaded t v x ht
      | going t v x ht hlt => exact .going t v x (hkeeps ht) (by rw [htotal]; exact hlt)
      | racing t v x u w y hne ht hu => exact .racing t v x u w y hne (hkeeps ht) (hkeeps hu)
  | stores t₀ v₀ x₀ hbefore hsum htotal hplace =>
      have hv := hb.storing_pos hbefore
      -- Whoever has loaded and not stored yet does not know of this value.
      have hothers : ∀ {t v x}, t ≠ t₀ → s.place t = .storing v x →
          (recordStep s e).place t = .storing v x ∧ x < (recordStep s e).total := by
        intro t v x hne ht
        have hx := hb.loaded_le t v x ht
        refine ⟨by rw [hplace, Function.update_of_ne hne, ht], ?_⟩
        rw [htotal]
        linarith
      have hgone : x₀ < s.total → Lost (recordStep s e) := by
        intro hlt
        refine .gone (by rw [hsum, htotal]; linarith) fun t v x ht => ?_
        rw [hplace] at ht
        by_cases htt : t = t₀
        · rw [htt, Function.update_self] at ht
          cases ht
        · rw [Function.update_of_ne htt] at ht
          exact (hothers htt ht).2
      cases h with
      | gone hlost hloaded => exact hgone (hloaded t₀ v₀ x₀ hbefore)
      | going t v x ht hlt =>
          by_cases htt : t = t₀
          · rw [htt, hbefore] at ht
            exact hgone ((RecordPlace.storing.inj ht).2 ▸ hlt)
          · obtain ⟨hplace', hlt'⟩ := hothers htt ht
            exact .going t v x hplace' hlt'
      | racing t v x u w y hne ht hu =>
          by_cases htt : t = t₀
          · obtain ⟨hplace', hlt'⟩ := hothers (fun hut => hne (htt.trans hut.symm)) hu
            exact .going u w y hplace' hlt'
          · obtain ⟨hplace', hlt'⟩ := hothers htt ht
            exact .going t v x hplace' hlt'

/-- A call that loads between the load and the store of another one. -/
theorem lost_of_not_loadsAlone {e : RecordEvent ι} (h : ¬ LoadsAlone s e) :
    Lost (recordStep s e) := by
  rw [LoadsAlone] at h
  push Not at h
  obtain ⟨t, spurious, v, rfl, ht, u, w, x, hu⟩ := h
  have hut : u ≠ t := by
    rintro rfl
    rw [ht] at hu
    cases hu
  have hplace : (recordStep s (.go t spurious)).place =
      Function.update s.place t (.storing v s.h.sum) := by
    rw [recordStep, ht]
    rfl
  refine .racing t v s.h.sum u w x hut.symm ?_ ?_
  · rw [hplace, Function.update_self]
  · rw [hplace, Function.update_of_ne hut, hu]

theorem Lost.run (h : Lost s) (hb : Behind s) {events : List (RecordEvent ι)}
    (hpos : ∀ e ∈ events, Positive e) : Lost (events.foldl recordStep s) := by
  induction events generalizing s with
  | nil => exact h
  | cons e events ih =>
      obtain ⟨he, hrest⟩ := List.forall_mem_cons.mp hpos
      exact ih (h.step hb e) (hb.step he) hrest

/-- The sum of what was stored is kept in exactly the runs whose loads are alone. -/
theorem sum_eq_total_iff (h : SumKept s) (hb : Behind s) {events : List (RecordEvent ι)}
    (hpos : ∀ e ∈ events, Positive e)
    (hidle : ∀ t, (events.foldl recordStep s).place t = .idle) :
    (events.foldl recordStep s).h.sum = (events.foldl recordStep s).total ↔
      AllSteps recordStep LoadsAlone s events := by
  induction events generalizing s with
  | nil => exact iff_of_true h.sum_eq trivial
  | cons e events ih =>
      obtain ⟨he, hrest⟩ := List.forall_mem_cons.mp hpos
      by_cases halone : LoadsAlone s e
      · rw [AllSteps, and_iff_right halone]
        exact ih (h.step halone) (hb.step he) hrest hidle
      · refine iff_of_false (fun hsum => ?_) fun hall => halone hall.1
        have hlost := (lost_of_not_loadsAlone halone).run (hb.step he) hrest
        cases hlost with
        | gone hlt _ => exact absurd hsum (ne_of_lt hlt)
        | going t v x ht _ =>
            cases (hidle t).symm.trans ht
        | racing t v x u w y _ ht _ =>
            cases (hidle t).symm.trans ht

/-- Two threads record `v` and `v'`, and both load the sum before either stores it. -/
def racingRecords (v v' : Double) : List (RecordEvent Bool) :=
  [.call false v, .call true v'] ++
    (List.replicate 3 [.go false false, .go true false]).flatten ++
    List.replicate 5 (.go false false) ++ List.replicate 5 (.go true false)

end Sum

end Metrics
