/-
# Histograms

`Metrics.cpp` counts recorded values in buckets and keeps the least and the greatest one of them; a
percentile is read off the buckets alone.  The first bucket stands for the least value and the last
one for the greatest, but each bucket between them stands for its bound.

Values are rationals no larger than the largest `double`; counters are words, as in the source.

* `recorded_foldl`: what a histogram holds after any values;
* `percentiles_iff`: when its percentiles are in order and between the least and the greatest value.
-/
import ChuckStation.Buckets
import ChuckStation.Bytes

namespace Metrics

open Buckets

/-! ## Numbers -/

/-- The largest finite `double`. -/
def doubleMax : ℚ := (2 ^ 53 - 1) * 2 ^ 971

/-- A `double` as the number that it is. -/
abbrev Double := Set.Icc (-doubleMax) doubleMax

/-- `std::numeric_limits<double>::max()`. -/
def maxDouble : Double := ⟨doubleMax, by norm_num [doubleMax], le_rfl⟩

/-- `std::numeric_limits<double>::lowest()`. -/
def lowestDouble : Double := ⟨-doubleMax, le_rfl, by norm_num [doubleMax]⟩

theorem two_pow_le_doubleMax : (2 : ℚ) ^ 53 ≤ doubleMax := by
  have hpow : (2 : ℚ) ^ 1 ≤ 2 ^ 971 := pow_le_pow_right₀ (by norm_num) (by norm_num)
  calc (2 : ℚ) ^ 53 ≤ (2 ^ 53 - 1) * 2 ^ 1 := by norm_num
    _ ≤ (2 ^ 53 - 1) * 2 ^ 971 := mul_le_mul_of_nonneg_left hpow (by norm_num)

/-- A natural number that has a `double`. -/
def double (n : ℕ) (h : n ≤ 2 ^ 53 := by norm_num) : Double :=
  have hmax : (n : ℚ) ≤ doubleMax := le_trans (by exact_mod_cast h) two_pow_le_doubleMax
  ⟨n, by linarith [n.cast_nonneg (α := ℚ)], hmax⟩

theorem le_maxDouble (v : Double) : v ≤ maxDouble := v.2.2

theorem lowestDouble_le (v : Double) : lowestDouble ≤ v := v.2.1

/-! ## Histograms -/

/-- `kDefaultBounds`. -/
def kDefaultBounds : List Double :=
  [double 1, double 2, double 5, double 10, double 20, double 50, double 100, double 250,
    double 500, double 1000, double 2500, double 5000, double 10000]

/-- `class Histogram`. -/
structure Histogram where
  bounds : List Double
  buckets : List U64
  count : U64 := 0
  min : Double := maxDouble
  max : Double := lowestDouble
  sum : ℚ := 0

/-- The bounds of a histogram that is made with some. -/
def boundsOf (bounds : List Double) : List Double :=
  if bounds.isEmpty then kDefaultBounds else bounds

/-- The constructor. -/
def Histogram.new (bounds : List Double) : Histogram :=
  { bounds := boundsOf bounds, buckets := List.replicate ((boundsOf bounds).length + 1) 0 }

/-- `Record`. -/
def record (h : Histogram) (value : Double) : Histogram :=
  { h with
    buckets := h.buckets.modify (bucketOf h.bounds value) (· + 1)
    count := h.count + 1
    sum := h.sum + value
    min := if value < h.min then value else h.min
    max := if h.max < value then value else h.max }

/-- `struct Snapshot`. -/
structure Snapshot where
  min : Double
  max : Double
  mean : ℚ
  p50 : Double
  p95 : Double
  p99 : Double
  count : U64
  sum : ℚ

/-- What a bucket stands for. -/
def valueOfBucket (h : Histogram) (i : ℕ) : Double :=
  if i = 0 then min h.min (h.bounds.headD h.max)
  else if hi : i < h.bounds.length then h.bounds[i]
  else h.max

/-- `estimatePercentile`. -/
def estimatePercentile (h : Histogram) (pct : ℚ) : Double :=
  let target : U64 := BitVec.ofNat 64 ⌈pct / 100 * h.count.toNat⌉₊
  let target := if target = 0 then 1 else target
  match firstReaching target 0 h.buckets with
  | some i => valueOfBucket h i
  | none => h.max

/-- `GetSnapshot`. -/
def getSnapshot (h : Histogram) : Snapshot :=
  let percentile := fun pct => if h.count = 0 then double 0 else estimatePercentile h pct
  { min := h.min
    max := h.max
    mean := if 0 < h.count then h.sum / h.count.toNat else 0
    p50 := percentile 50
    p95 := percentile 95
    p99 := percentile 99
    count := h.count
    sum := h.sum }

/-! ## What a histogram holds -/

section Recording

variable {bounds values : List Double} {v : Double} {h : Histogram}

/-- The histogram holds exactly these values. -/
structure Recorded (bounds values : List Double) (h : Histogram) : Prop where
  bounds_eq : h.bounds = bounds
  buckets_eq : h.buckets = counts U64 bounds values
  count_eq : h.count = (values.length : U64)
  isLeast_min : IsLeast (insert maxDouble {v | v ∈ values}) h.min
  isGreatest_max : IsGreatest (insert lowestDouble {v | v ∈ values}) h.max
  sum_eq : h.sum = (values.map Subtype.val).sum

theorem recorded_new : Recorded (boundsOf bounds) [] (Histogram.new bounds) where
  bounds_eq := rfl
  buckets_eq := counts_nil.symm
  count_eq := rfl
  isLeast_min := by simp [Histogram.new]
  isGreatest_max := by simp [Histogram.new]
  sum_eq := rfl

/-- One more value. -/
theorem recorded_record (hrec : Recorded bounds values h) (v : Double) :
    Recorded bounds (values ++ [v]) (record h v) := by
  have hvalues : {w | w ∈ values ++ [v]} = insert v {w | w ∈ values} := by
    ext w
    simp [or_comm]
  constructor
  · exact hrec.bounds_eq
  · rw [counts_concat, ← hrec.buckets_eq, ← hrec.bounds_eq]
    rfl
  · rw [List.length_append, List.length_singleton, Nat.cast_add, Nat.cast_one, ← hrec.count_eq]
    rfl
  · have hmin : (record h v).min = Min.min v h.min := (min_def_lt v h.min).symm
    rw [hvalues, Set.insert_comm, hmin]
    exact hrec.isLeast_min.insert v
  · have hmax : (record h v).max = Max.max v h.max := by
      rw [max_comm]
      exact (max_def_lt h.max v).symm
    rw [hvalues, Set.insert_comm, hmax]
    exact hrec.isGreatest_max.insert v
  · rw [List.map_append, List.sum_append, ← hrec.sum_eq]
    simp [record]

/-- **After any values** a new histogram holds them. -/
theorem recorded_foldl (bounds values : List Double) :
    Recorded (boundsOf bounds) values (values.foldl record (Histogram.new bounds)) := by
  have hrun (rest : List Double) : ∀ held h, Recorded (boundsOf bounds) held h →
      Recorded (boundsOf bounds) (held ++ rest) (rest.foldl record h) := by
    induction rest with
    | nil =>
        intro held h hrec
        rw [List.append_nil]
        exact hrec
    | cons v rest ih =>
        intro held h hrec
        have hnext := ih (held ++ [v]) (record h v) (recorded_record hrec v)
        rwa [List.append_assoc] at hnext
  exact hrun values [] _ recorded_new

end Recording

/-! ## Where a percentile is read off -/

section Percentiles

variable {bounds values : List Double} {h : Histogram} {pct : ℚ} {i j k : ℕ}

/-- The number of values, as a counter has it. -/
def counted (n : ℕ) : ℕ := n % 2 ^ 64

/-- The number of values in the first buckets, as their counters have it. -/
def countedTo (bounds values : List Double) (i : ℕ) : ℕ :=
  counted (values.countP fun v => bucketOf bounds v ≤ i)

/-- The first buckets whose values are the given part of all values. -/
def Reaching (bounds values : List Double) (pct : ℚ) : Set ℕ :=
  {i | i ≤ bounds.length ∧ ⌈pct / 100 * counted values.length⌉₊ ≤ countedTo bounds values i}

theorem toNat_natCast (n : ℕ) : (n : U64).toNat = counted n := BitVec.toNat_ofNat n 64

theorem countedTo_length : countedTo bounds values bounds.length = counted values.length := by
  rw [countedTo, List.countP_eq_length.mpr fun v _ => decide_eq_true bucketOf_le_length]

theorem target_bounds (hpos : 0 < pct) (hle : pct ≤ 100) {n : ℕ} (hn : n ≠ 0) :
    0 < ⌈pct / 100 * n⌉₊ ∧ ⌈pct / 100 * n⌉₊ ≤ n := by
  have hn' : (0 : ℚ) < n := by exact_mod_cast Nat.pos_of_ne_zero hn
  have hfrac : pct / 100 ≤ 1 := (div_le_one (by norm_num)).mpr hle
  refine ⟨Nat.ceil_pos.mpr (by positivity), Nat.ceil_le.mpr ?_⟩
  exact mul_le_of_le_one_left hn'.le hfrac

/-- Some value is in the bucket. -/
def Occupied (bounds values : List Double) (i : ℕ) : Prop := ∃ v ∈ values, bucketOf bounds v = i

/-- A bucket that a percentile is read off holds a value. -/
theorem occupied_of_isLeast (hpos : 0 < pct) (hle : pct ≤ 100) (hcount : counted values.length ≠ 0)
    (hi : IsLeast (Reaching bounds values pct) i) : Occupied bounds values i := by
  have htarget := (target_bounds hpos hle hcount).1
  by_contra hnone
  rw [Occupied] at hnone
  push Not at hnone
  have hreach := hi.1.2
  cases i with
  | zero =>
      have hzero : (values.countP fun v => bucketOf bounds v ≤ 0) = 0 := by
        rw [List.countP_eq_zero]
        intro v hv
        simpa using hnone v hv
      rw [countedTo, hzero] at hreach
      exact absurd (htarget.trans_le hreach) (by decide)
  | succ i =>
      have hzero : (values.countP fun v => bucketOf bounds v = i + 1) = 0 := by
        rw [List.countP_eq_zero]
        intro v hv
        simpa using hnone v hv
      rw [countedTo, countP_le_succ, hzero, add_zero] at hreach
      exact absurd (hi.2 ⟨(Nat.le_succ i).trans hi.1.1, hreach⟩) (by omega)

/-- **A percentile** is that of the first bucket up to which there are enough values. -/
theorem exists_estimatePercentile (hrec : Recorded bounds values h)
    (hcount : counted values.length ≠ 0) (pct : ℚ) (hpos : 0 < pct) (hle : pct ≤ 100) :
    ∃ i, IsLeast (Reaching bounds values pct) i ∧ Occupied bounds values i ∧
      estimatePercentile h pct = valueOfBucket h i := by
  have hcounted : h.count.toNat = counted values.length := by
    rw [hrec.count_eq, toNat_natCast]
  obtain ⟨htarget, hmost⟩ := target_bounds hpos hle hcount
  have hlt : counted values.length < 2 ^ 64 := Nat.mod_lt _ (by norm_num)
  set t := ⌈pct / 100 * counted values.length⌉₊ with ht
  have hword : (BitVec.ofNat 64 t).toNat = t := by
    rw [BitVec.toNat_ofNat, Nat.mod_eq_of_lt (by omega)]
  have hne : BitVec.ofNat 64 t ≠ 0 := by
    intro heq
    rw [heq] at hword
    simp at hword
    omega
  have hreach : ∃ i, IsLeast (Reaching bounds values pct) i := by
    refine ⟨sInf (Reaching bounds values pct), Nat.sInf_mem ⟨bounds.length, le_rfl, ?_⟩,
      fun _ => Nat.sInf_le⟩
    rw [countedTo_length]
    exact hmost
  obtain ⟨i, hi⟩ := hreach
  refine ⟨i, hi, occupied_of_isLeast hpos hle hcount hi, ?_⟩
  have hset : {k | k < h.buckets.length ∧
      BitVec.ofNat 64 t ≤ 0 + (h.buckets.take (k + 1)).sum} = Reaching bounds values pct := by
    ext k
    rw [hrec.buckets_eq, length_counts, Set.mem_ofPred_eq, Reaching,
      Set.mem_ofPred_eq, ← ht, Nat.lt_succ_iff]
    refine and_congr_right fun hk => ?_
    rw [zero_add, sum_take_counts hk, BitVec.le_def, hword, toNat_natCast]
    rfl
  have hfirst : firstReaching (BitVec.ofNat 64 t) 0 h.buckets = some i := by
    rw [firstReaching_eq_some_iff, hset]
    exact hi
  unfold estimatePercentile
  rw [hcounted, ← ht]
  dsimp only
  rw [if_neg hne, hfirst]

/-! ## What a bucket stands for -/

theorem isLeast_min_of_ne_nil (hrec : Recorded bounds values h) (hne : values ≠ []) :
    IsLeast {v | v ∈ values} h.min := by
  refine ⟨?_, fun v hv => hrec.isLeast_min.2 (Or.inr hv)⟩
  rcases hrec.isLeast_min.1 with hmin | hmin
  · obtain ⟨v, hv⟩ := List.exists_mem_of_ne_nil values hne
    have heq : v = h.min :=
      le_antisymm (hmin ▸ le_maxDouble v) (hrec.isLeast_min.2 (Or.inr hv))
    exact heq ▸ hv
  · exact hmin

theorem isGreatest_max_of_ne_nil (hrec : Recorded bounds values h) (hne : values ≠ []) :
    IsGreatest {v | v ∈ values} h.max := by
  refine ⟨?_, fun v hv => hrec.isGreatest_max.2 (Or.inr hv)⟩
  rcases hrec.isGreatest_max.1 with hmax | hmax
  · obtain ⟨v, hv⟩ := List.exists_mem_of_ne_nil values hne
    have heq : v = h.max :=
      le_antisymm (hrec.isGreatest_max.2 (Or.inr hv)) (hmax ▸ lowestDouble_le v)
    exact heq ▸ hv
  · exact hmax

/-- The first bucket stands for the least value, if there is one in it. -/
theorem valueOfBucket_zero (hrec : Recorded bounds values h) (hsorted : bounds.Pairwise (· < ·))
    (hocc : Occupied bounds values 0) : valueOfBucket h 0 = h.min := by
  obtain ⟨v, hv, hbucket⟩ := hocc
  rw [valueOfBucket, if_pos rfl, hrec.bounds_eq, min_eq_left_iff]
  cases bounds with
  | nil => exact (hrec.isLeast_min.2 (Or.inr hv)).trans (hrec.isGreatest_max.2 (Or.inr hv))
  | cons b bounds =>
      have hle := (bucketOf_le_iff hsorted (Nat.zero_lt_succ bounds.length)).mp hbucket.le
      exact (hrec.isLeast_min.2 (Or.inr hv)).trans hle

/-- A bucket in between stands for its bound. -/
theorem valueOfBucket_of_lt (hrec : Recorded bounds values h) (hpos : 0 < i)
    (hi : i < bounds.length) : valueOfBucket h i = bounds[i] := by
  have hbounds := hrec.bounds_eq
  subst hbounds
  rw [valueOfBucket, if_neg (by omega), dif_pos hi]

/-- The last bucket stands for the greatest value. -/
theorem valueOfBucket_length (hrec : Recorded bounds values h) (hpos : 0 < bounds.length) :
    valueOfBucket h bounds.length = h.max := by
  rw [valueOfBucket, if_neg (by omega), hrec.bounds_eq, dif_neg (lt_irrefl _)]

/-- A bucket is the first one, one in between or the last one. -/
theorem bucket_cases (hi : i ≤ bounds.length) :
    i = 0 ∨ (0 < i ∧ i < bounds.length) ∨ 0 < bounds.length ∧ i = bounds.length := by
  omega

theorem min_le_valueOfBucket (hrec : Recorded bounds values h) (hsorted : bounds.Pairwise (· < ·))
    (hocc : Occupied bounds values i) : h.min ≤ valueOfBucket h i := by
  have hvalue := hocc
  obtain ⟨v, hv, hbucket⟩ := hvalue
  have hmin : h.min ≤ v := hrec.isLeast_min.2 (Or.inr hv)
  have hlen : i ≤ bounds.length := hbucket ▸ bucketOf_le_length
  rcases bucket_cases hlen with rfl | ⟨hpos, hlt⟩ | ⟨hpos, rfl⟩
  · exact (valueOfBucket_zero hrec hsorted hocc).ge
  · rw [valueOfBucket_of_lt hrec hpos hlt]
    exact hmin.trans ((bucketOf_le_iff hsorted hlt).mp hbucket.le)
  · rw [valueOfBucket_length hrec hpos]
    exact hmin.trans (hrec.isGreatest_max.2 (Or.inr hv))

/-- Later buckets stand for no smaller values. -/
theorem valueOfBucket_mono (hrec : Recorded bounds values h) (hsorted : bounds.Pairwise (· < ·))
    (hi : Occupied bounds values i) (hj : Occupied bounds values j) (hij : i ≤ j) :
    valueOfBucket h i ≤ valueOfBucket h j := by
  have hvalue := hj
  obtain ⟨w, hw, hbucket⟩ := hvalue
  have hlen : j ≤ bounds.length := hbucket ▸ bucketOf_le_length
  rcases Nat.eq_zero_or_pos i with rfl | hpos
  · rw [valueOfBucket_zero hrec hsorted hi]
    exact min_le_valueOfBucket hrec hsorted hj
  rcases hij.eq_or_lt with rfl | hlt
  · exact le_rfl
  rw [valueOfBucket_of_lt hrec hpos (hlt.trans_le hlen)]
  rcases bucket_cases hlen with rfl | ⟨hposj, hltj⟩ | ⟨hposj, rfl⟩
  · omega
  · rw [valueOfBucket_of_lt hrec hposj hltj]
    exact (List.pairwise_iff_getElem.mp hsorted i j _ hltj hlt).le
  · -- The value behind all bounds is above this one.
    rw [valueOfBucket_length hrec hposj]
    have hbelow := bucketOf_eq_length_iff.mp hbucket bounds[i] (List.getElem_mem _)
    exact hbelow.le.trans (hrec.isGreatest_max.2 (Or.inr hw))

theorem valueOfBucket_le_max_iff (hrec : Recorded bounds values h)
    (hsorted : bounds.Pairwise (· < ·)) (hocc : Occupied bounds values i) :
    valueOfBucket h i ≤ h.max ↔
      ∀ hi : i < bounds.length, 0 < i → bounds[i] ≤ h.max := by
  have hvalue := hocc
  obtain ⟨v, hv, hbucket⟩ := hvalue
  have hlen : i ≤ bounds.length := hbucket ▸ bucketOf_le_length
  rcases bucket_cases hlen with rfl | ⟨hpos, hlt⟩ | ⟨hpos, rfl⟩
  · rw [valueOfBucket_zero hrec hsorted hocc]
    have hle : h.min ≤ h.max :=
      (hrec.isLeast_min.2 (Or.inr hv)).trans (hrec.isGreatest_max.2 (Or.inr hv))
    exact iff_of_true hle fun _ hpos => absurd hpos (lt_irrefl 0)
  · rw [valueOfBucket_of_lt hrec hpos hlt]
    exact ⟨fun hle _ _ => hle, fun hle => hle hlt hpos⟩
  · rw [valueOfBucket_length hrec hpos]
    exact iff_of_true le_rfl fun hlt => absurd hlt (lt_irrefl _)

end Percentiles

/-! ## Percentiles in order -/

section Order

variable {bounds values : List Double} {h : Histogram} {i : ℕ}

/-- The percentiles are in order, and between the least and the greatest value. -/
structure InOrder (values : List Double) (s : Snapshot) : Prop where
  isLeast : IsLeast {v | v ∈ values} s.min
  isGreatest : IsGreatest {v | v ∈ values} s.max
  min_le : s.min ≤ s.p50
  p50_le : s.p50 ≤ s.p95
  p95_le : s.p95 ≤ s.p99
  p99_le : s.p99 ≤ s.max

/-- The least value. -/
def smallest (values : List Double) : Double := values.foldr min maxDouble

/-- The greatest value. -/
def largest (values : List Double) : Double := values.foldr max lowestDouble

theorem isLeast_smallest : IsLeast (insert maxDouble {v | v ∈ values}) (smallest values) := by
  induction values with
  | nil => simp [smallest]
  | cons v values ih =>
      rw [List.setOfPred_mem_cons, Set.insert_comm]
      exact ih.insert v

theorem isGreatest_largest :
    IsGreatest (insert lowestDouble {v | v ∈ values}) (largest values) := by
  induction values with
  | nil => simp [largest]
  | cons v values ih =>
      rw [List.setOfPred_mem_cons, Set.insert_comm]
      exact ih.insert v

/-- The greatest value is in the first bucket or in the last one or is a bound itself, or enough of
the values are below it, up to some bound. -/
def GreatestReached (bounds values : List Double) : Prop :=
  (∀ b ∈ bounds, largest values ≤ b) ∨ (∀ b ∈ bounds, b < largest values) ∨
    largest values ∈ bounds ∨
    ∃ b ∈ bounds, b < largest values ∧
      ⌈99 / 100 * (counted values.length : ℚ)⌉₊ ≤ counted (values.countP fun v => v ≤ b)

/-- The greatest value is reached, or the counter of all values is back at zero and zero lies
between the values. -/
def MeetsBounds (bounds values : List Double) : Prop :=
  if counted values.length = 0 then smallest values ≤ double 0 ∧ double 0 ≤ largest values
  else GreatestReached bounds values

theorem countedTo_of_lt (hsorted : bounds.Pairwise (· < ·)) (hi : i < bounds.length) :
    countedTo bounds values i = counted (values.countP fun v => v ≤ bounds[i]) := by
  rw [countedTo]
  congr 1
  exact List.countP_congr fun v _ => by simp [bucketOf_le_iff hsorted hi]

theorem getElem_le_getElem (hsorted : bounds.Pairwise (· < ·)) {j : ℕ} (hj : j < bounds.length)
    (hij : i ≤ j) : bounds[i] ≤ bounds[j] := by
  rcases hij.eq_or_lt with rfl | hlt
  · exact le_rfl
  · exact (List.pairwise_iff_getElem.mp hsorted i j _ hj hlt).le

/-- What the bucket of the last percentile has to do with the greatest value. -/
theorem bound_le_largest_iff (hsorted : bounds.Pairwise (· < ·))
    (hocc : Occupied bounds values i) (hi : IsLeast (Reaching bounds values 99) i) :
    (∀ hlt : i < bounds.length, 0 < i → bounds[i] ≤ largest values) ↔
      GreatestReached bounds values := by
  obtain ⟨v, hv, hbucket⟩ := hocc
  have hle : v ≤ largest values := isGreatest_largest.2 (Or.inr hv)
  have hlen : i ≤ bounds.length := hbucket ▸ bucketOf_le_length
  constructor
  · intro h
    rcases hlen.lt_or_eq with hlt | hlast
    · rcases lt_or_ge bounds[i] (largest values) with habove | hwithin
      · -- The greatest value is in a later bucket: this one is reached by enough values.
        refine Or.inr (Or.inr (Or.inr ⟨bounds[i], List.getElem_mem hlt, habove, ?_⟩))
        rw [← countedTo_of_lt hsorted hlt]
        exact hi.1.2
      · rcases Nat.eq_zero_or_pos i with rfl | hpos
        · refine Or.inl fun b hb => hwithin.trans ?_
          obtain ⟨j, hj, rfl⟩ := List.getElem_of_mem hb
          exact getElem_le_getElem hsorted hj (Nat.zero_le j)
        · have heq : bounds[i] = largest values := le_antisymm (h hlt hpos) hwithin
          exact Or.inr (Or.inr (Or.inl (heq ▸ List.getElem_mem hlt)))
    · refine Or.inr (Or.inl fun b hb => ?_)
      exact (bucketOf_eq_length_iff.mp (hbucket.trans hlast) b hb).trans_le hle
  · intro h hlt hpos
    rcases h with hfirst | hlast | hbound | ⟨b, hb, hbelow, henough⟩
    · have hzero : bucketOf bounds v ≤ 0 :=
        (bucketOf_le_iff hsorted (hpos.trans hlt)).mpr (hle.trans (hfirst _ (List.getElem_mem _)))
      omega
    · exact (hlast _ (List.getElem_mem hlt)).le
    · obtain ⟨j, hj, heq⟩ := List.getElem_of_mem hbound
      have hij : bucketOf bounds v ≤ j := (bucketOf_le_iff hsorted hj).mpr (heq ▸ hle)
      exact (getElem_le_getElem hsorted hj (hbucket ▸ hij)).trans heq.le
    · obtain ⟨j, hj, rfl⟩ := List.getElem_of_mem hb
      rw [← countedTo_of_lt hsorted hj] at henough
      exact (getElem_le_getElem hsorted hj (hi.2 ⟨hj.le, henough⟩)).trans hbelow.le

theorem reaching_anti {p q : ℚ} (hpq : p ≤ q) :
    Reaching bounds values q ⊆ Reaching bounds values p := by
  rintro i ⟨hi, hreach⟩
  refine ⟨hi, le_trans (Nat.ceil_le_ceil ?_) hreach⟩
  have hcounted : (0 : ℚ) ≤ counted values.length := Nat.cast_nonneg _
  gcongr

theorem min_eq_smallest (hrec : Recorded bounds values h) : h.min = smallest values :=
  hrec.isLeast_min.unique isLeast_smallest

theorem max_eq_largest (hrec : Recorded bounds values h) : h.max = largest values :=
  hrec.isGreatest_max.unique isGreatest_largest

theorem count_eq_zero_iff (hrec : Recorded bounds values h) :
    h.count = 0 ↔ counted values.length = 0 := by
  rw [← toNat_natCast, ← hrec.count_eq]
  exact BitVec.toNat_inj.symm

/-- A counter of all values that is back at zero makes all percentiles zero. -/
theorem inOrder_of_wrapped (hrec : Recorded bounds values h) (hne : values ≠ [])
    (hcount : counted values.length = 0) :
    InOrder values (getSnapshot h) ↔ smallest values ≤ double 0 ∧ double 0 ≤ largest values := by
  have hp (pct : ℚ) : (if h.count = 0 then double 0 else estimatePercentile h pct) = double 0 :=
    if_pos ((count_eq_zero_iff hrec).mpr hcount)
  rw [← min_eq_smallest hrec, ← max_eq_largest hrec]
  constructor
  · intro horder
    have hlow := horder.min_le
    have hhigh := horder.p99_le
    simp only [getSnapshot, hp] at hlow hhigh
    exact ⟨hlow, hhigh⟩
  · rintro ⟨hlow, hhigh⟩
    constructor
    · exact isLeast_min_of_ne_nil hrec hne
    · exact isGreatest_max_of_ne_nil hrec hne
    all_goals simp only [getSnapshot, hp, le_refl]
    · exact hlow
    · exact hhigh

/-- Otherwise the buckets that the percentiles are read off are in order, and only the last
percentile may go too far. -/
theorem inOrder_of_counted (hrec : Recorded bounds values h) (hsorted : bounds.Pairwise (· < ·))
    (hne : values ≠ []) (hcount : counted values.length ≠ 0) :
    InOrder values (getSnapshot h) ↔ GreatestReached bounds values := by
  have hp (pct : ℚ) : (if h.count = 0 then double 0 else estimatePercentile h pct) =
      estimatePercentile h pct := if_neg (mt (count_eq_zero_iff hrec).mp hcount)
  obtain ⟨i, hi, hocci, hpi⟩ :=
    exists_estimatePercentile hrec hcount 50 (by norm_num) (by norm_num)
  obtain ⟨j, hj, hoccj, hpj⟩ :=
    exists_estimatePercentile hrec hcount 95 (by norm_num) (by norm_num)
  obtain ⟨k, hk, hocck, hpk⟩ :=
    exists_estimatePercentile hrec hcount 99 (by norm_num) (by norm_num)
  have hij : i ≤ j := hi.2 (reaching_anti (by norm_num) hj.1)
  have hjk : j ≤ k := hj.2 (reaching_anti (by norm_num) hk.1)
  have hlast := valueOfBucket_le_max_iff hrec hsorted hocck
  rw [← bound_le_largest_iff hsorted hocck hk, ← max_eq_largest hrec, ← hlast, ← hpk]
  constructor
  · intro horder
    have h99 := horder.p99_le
    simp only [getSnapshot, hp] at h99
    exact h99
  · intro h99
    constructor
    · exact isLeast_min_of_ne_nil hrec hne
    · exact isGreatest_max_of_ne_nil hrec hne
    all_goals simp only [getSnapshot, hp]
    · rw [hpi]
      exact min_le_valueOfBucket hrec hsorted hocci
    · rw [hpi, hpj]
      exact valueOfBucket_mono hrec hsorted hocci hoccj hij
    · rw [hpj, hpk]
      exact valueOfBucket_mono hrec hsorted hoccj hocck hjk
    · exact h99

theorem inOrder_getSnapshot_iff (hrec : Recorded bounds values h)
    (hsorted : bounds.Pairwise (· < ·)) (hne : values ≠ []) :
    InOrder values (getSnapshot h) ↔ MeetsBounds bounds values := by
  rw [MeetsBounds]
  by_cases hcount : counted values.length = 0
  · rw [if_pos hcount]
    exact inOrder_of_wrapped hrec hne hcount
  · rw [if_neg hcount]
    exact inOrder_of_counted hrec hsorted hne hcount

theorem double_lt_double {m n : ℕ} {hm : m ≤ 2 ^ 53} {hn : n ≤ 2 ^ 53} :
    double m hm < double n hn ↔ m < n :=
  Nat.cast_lt (α := ℚ)

theorem pairwise_boundsOf (hsorted : bounds.Pairwise (· < ·)) :
    (boundsOf bounds).Pairwise (· < ·) := by
  rw [boundsOf]
  split_ifs
  · simp [kDefaultBounds, double_lt_double]
  · exact hsorted

/-- **Percentiles** of recorded values are in order, and between the least and the greatest value,
exactly if the greatest value meets the bounds. -/
theorem percentiles_iff (hsorted : bounds.Pairwise (· < ·)) (hne : values ≠ []) :
    InOrder values (getSnapshot (values.foldl record (Histogram.new bounds))) ↔
      MeetsBounds (boundsOf bounds) values :=
  inOrder_getSnapshot_iff (recorded_foldl bounds values) (pairwise_boundsOf hsorted) hne

end Order

theorem pairwise_ten : [double 1, double 10].Pairwise (· < ·) := by
  simp [double_lt_double]

theorem largest_singleton (v : Double) : largest [v] = v := max_eq_left (lowestDouble_le v)

/-- One value that is a bound. -/
theorem percentiles_iff_bound :
    InOrder [double 10] (getSnapshot ([double 10].foldl record
      (Histogram.new [double 1, double 10]))) := by
  refine (percentiles_iff pairwise_ten (List.cons_ne_nil _ _)).mpr ?_
  rw [MeetsBounds, if_neg (by decide), GreatestReached, largest_singleton]
  exact Or.inr (Or.inr (Or.inl (List.mem_cons_of_mem _ List.mem_cons_self)))

/-- One value between two bounds: all its percentiles are the bound above it. -/
theorem not_percentiles_between :
    ¬ ∀ bounds values : List Double, bounds.Pairwise (· < ·) → values ≠ [] →
      InOrder values (getSnapshot (values.foldl record (Histogram.new bounds))) := by
  intro h
  have horder := h [double 1, double 10] [double 5] pairwise_ten (List.cons_ne_nil _ _)
  rw [inOrder_getSnapshot_iff (recorded_foldl _ _) (pairwise_boundsOf pairwise_ten)
    (List.cons_ne_nil _ _), MeetsBounds, if_neg (by decide), GreatestReached,
    largest_singleton] at horder
  have hone : double 1 < double 5 := double_lt_double.mpr (by norm_num)
  have hten : double 5 < double 10 := double_lt_double.mpr (by norm_num)
  have hbounds : ∀ b, b ∈ boundsOf [double 1, double 10] ↔ b = double 1 ∨ b = double 10 := by
    intro b
    show b ∈ [double 1, double 10] ↔ _
    rw [List.mem_cons, List.mem_singleton]
  rcases horder with hfirst | hlast | hbound | ⟨b, hb, hbelow, henough⟩
  · exact absurd (hfirst _ ((hbounds _).mpr (Or.inl rfl))) (not_le_of_gt hone)
  · exact absurd (hlast _ ((hbounds _).mpr (Or.inr rfl))) (lt_asymm hten)
  · rcases (hbounds _).mp hbound with heq | heq
    · exact hone.ne' heq
    · exact hten.ne heq
  · rcases (hbounds b).mp hb with rfl | rfl
    · have hnone : ([double 5].countP fun v => v ≤ double 1) = 0 :=
        List.countP_eq_zero.mpr (List.forall_mem_singleton.mpr (by simpa using hone))
      have hpos : 0 < ⌈99 / 100 * (counted [double 5].length : ℚ)⌉₊ :=
        Nat.ceil_pos.mpr (by norm_num [counted])
      rw [hnone] at henough
      exact absurd (hpos.trans_le henough) (by decide)
    · exact lt_asymm hten hbelow

end Metrics
