import Mathlib.Tactic
import Mathlib.Analysis.SpecialFunctions.Log.Basic
import Mathlib.Data.EReal.Inv
import Otelop.Lib.Distribution
import Otelop.Storage.MetricDistribution

/-!
# Quantiles of a histogram

The percentiles of `internal/storage/query_metric_distribution.go`: `histogramCDF` spreads the
mass of every bucket between its bounds, and `histogramQuantile` bisects for the point where it
reaches its share of the total.

The buckets come from many points and overlap in any way.  The arithmetic is the exact one, in
the reals with both infinities.

**Results.**
* `histogramCDF_extended`: the source's distribution function is a sum of shares.
* `histogramQuantile_extended`: its quantile is the one of bisection.
* `histogramQuantile_spec`: the quantiles are ordered, bounded and accurate.
-/

namespace Otelop
namespace Storage

open Lib

/-- The arithmetic of quantiles. -/
structure QuantileOps (V : Type) extends BucketOps V where
  mul : V → V → V
  abs : V → V
  log : V → V

/-- A bucket with the count as a `float64`. -/
structure MassBucket (V : Type) where
  low : V
  high : V
  count : V
  logarithmic : Bool

structure Percentiles (V : Type) where
  p50 : Option V
  p90 : Option V
  p95 : Option V
  p99 : Option V

section Quantile

variable {V : Type}

def DistributionBucket.mass (b : DistributionBucket V) (ops : QuantileOps V) : MassBucket V :=
  ⟨b.low, b.high, ops.ofInt b.count, b.logarithmic⟩

/-- How much of the bucket lies up to `x`. -/
def MassBucket.fraction (bucket : MassBucket V) (ops : QuantileOps V) (x : V) : V :=
  if bucket.logarithmic && ops.lt ops.zero bucket.low then
    ops.div (ops.log (ops.div x bucket.low)) (ops.log (ops.div bucket.high bucket.low))
  else if bucket.logarithmic && ops.lt bucket.high ops.zero then
    ops.div (ops.log (ops.div (ops.abs bucket.low) (ops.abs x)))
      (ops.log (ops.div (ops.abs bucket.low) (ops.abs bucket.high)))
  else ops.div (ops.sub x bucket.low) (ops.sub bucket.high bucket.low)

def histogramCDF (ops : QuantileOps V) (buckets : List (MassBucket V)) (x : V) : V :=
  buckets.foldl
    (fun result bucket =>
      if ops.lt x bucket.low then result
      else if ops.le bucket.high x || ops.le bucket.high bucket.low then
        ops.add result bucket.count
      else ops.add result (ops.mul bucket.count (bucket.fraction ops x)))
    ops.zero

/-- `math.IsInf(v, 0)` -/
def QuantileOps.isInf (ops : QuantileOps V) (v : V) : Bool := ops.isNegInf v || ops.isPosInf v

/-- `low + (high-low)/2` -/
def QuantileOps.mid (ops : QuantileOps V) (low high : V) : V :=
  ops.add low (ops.div (ops.sub high low) (ops.ofInt 2))

def histogramQuantile (ops : QuantileOps V) (buckets : List (MassBucket V)) (q : V) : Option V :=
  let total := buckets.foldl (fun total bucket => ops.add total bucket.count) ops.zero
  let low := buckets.foldl (fun low bucket => ops.min low bucket.low) ops.posInf
  let high := buckets.foldl (fun high bucket => ops.max high bucket.high) ops.negInf
  if ops.le total ops.zero || ops.isInf low || ops.isInf high then none
  else
    let target := ops.mul q total
    let interval := bisect ops.mid (fun mid => ops.lt (histogramCDF ops buckets mid) target)
      80 low high
    some (ops.mid interval.1 interval.2)

def histogramPercentiles (ops : QuantileOps V) (buckets : List (MassBucket V)) : Percentiles V :=
  let percentile (n : Int) := histogramQuantile ops buckets (ops.div (ops.ofInt n) (ops.ofInt 100))
  ⟨percentile 50, percentile 90, percentile 95, percentile 99⟩

/-- The percentiles of `stats`. -/
def DistributionAccumulator.percentiles (a : DistributionAccumulator V) (ops : QuantileOps V) :
    Option (Percentiles V) :=
  if a.totalCount = 0 || a.buckets.isEmpty then none
  else some (histogramPercentiles ops (a.buckets.map fun b => b.mass ops))

end Quantile

/-! ### Exact arithmetic -/

section Extended

/-- Exact arithmetic with both infinities. -/
noncomputable def extendedOps : QuantileOps EReal where
  zero := 0
  ofInt n := ((n : ℝ) : EReal)
  add := (· + ·)
  sub := (· - ·)
  div := (· / ·)
  lt x y := decide (x < y)
  le x y := decide (x ≤ y)
  negInf := ⊥
  posInf := ⊤
  isNegInf x := decide (x = ⊥)
  isPosInf x := decide (x = ⊤)
  min := min
  max := max
  neg x := -x
  base scale := (((2 : ℝ) ^ ((2 : ℝ) ^ (-(scale : ℝ))) : ℝ) : EReal)
  pow base index := ((base.toReal ^ index : ℝ) : EReal)
  mul := (· * ·)
  abs x := max x (-x)
  log x := (Real.log x.toReal : EReal)

/-- A bucket with finite bounds. -/
def MassBucket.extended (b : MassBucket ℝ) : MassBucket EReal :=
  ⟨b.low, b.high, b.count, b.logarithmic⟩

/-- The mass of all buckets. -/
def total (buckets : List (MassBucket ℝ)) : ℝ := (buckets.map MassBucket.count).sum

/-- How the mass of a bucket is spread. -/
noncomputable def MassBucket.scale (b : MassBucket ℝ) : ℝ → ℝ :=
  if b.logarithmic = true ∧ 0 < b.low then Real.log
  else if b.logarithmic = true ∧ b.high < 0 then fun x => -Real.log |x|
  else id

/-- The mass of a bucket up to `x`. -/
noncomputable def MassBucket.upTo (b : MassBucket ℝ) (x : ℝ) : ℝ :=
  b.count * share b.scale b.low b.high x

/-- The mass of the buckets up to `x`. -/
noncomputable def cumulative (buckets : List (MassBucket ℝ)) (x : ℝ) : ℝ :=
  (buckets.map fun b => b.upTo x).sum

theorem scale_monotoneOn (b : MassBucket ℝ) :
    MonotoneOn b.scale (Set.Icc b.low b.high) := by
  intro x hx y hy hxy
  rw [MassBucket.scale]
  split
  case isTrue hpos =>
    exact Real.log_le_log (hpos.2.trans_le hx.1) hxy
  case isFalse =>
    split
    case isTrue hneg =>
      have hy0 : y < 0 := hy.2.trans_lt hneg.2
      have habs : |y| ≤ |x| := by
        rw [abs_of_neg hy0, abs_of_neg (hxy.trans_lt hy0)]
        exact neg_le_neg hxy
      exact neg_le_neg (Real.log_le_log (abs_pos.mpr hy0.ne) habs)
    case isFalse =>
      exact hxy

theorem coe_div (x y : ℝ) : ((x / y : ℝ) : EReal) = (x : EReal) / (y : EReal) := by
  rw [div_eq_mul_inv, EReal.coe_mul, EReal.coe_inv, EReal.div_eq_inv_mul, mul_comm]

theorem extended_abs (x : ℝ) : extendedOps.abs (x : EReal) = ((|x| : ℝ) : EReal) := by
  change max (x : EReal) (-(x : EReal)) = _
  rw [← EReal.coe_neg]
  exact (EReal.coe_strictMono.monotone.map_max).symm

theorem extended_log (x : ℝ) : extendedOps.log (x : EReal) = ((Real.log x : ℝ) : EReal) := by
  change ((Real.log (x : EReal).toReal : ℝ) : EReal) = _
  rw [EReal.toReal_coe]

theorem extended_div (x y : ℝ) :
    extendedOps.div (x : EReal) (y : EReal) = ((x / y : ℝ) : EReal) :=
  (coe_div x y).symm

theorem extended_sub (x y : ℝ) :
    extendedOps.sub (x : EReal) (y : EReal) = ((x - y : ℝ) : EReal) :=
  rfl

theorem extended_lt (x y : ℝ) :
    extendedOps.lt (x : EReal) (y : EReal) = decide (x < y) :=
  decide_eq_decide.mpr EReal.coe_lt_coe_iff

theorem extended_le (x y : ℝ) :
    extendedOps.le (x : EReal) (y : EReal) = decide (x ≤ y) :=
  decide_eq_decide.mpr EReal.coe_le_coe_iff

/-- Between the bounds the source takes the share of the bucket's scale. -/
theorem fraction_extended
    (b : MassBucket ℝ) {x : ℝ} (hlow : b.low ≤ x) (hhigh : x < b.high) :
    b.extended.fraction extendedOps (x : EReal) =
      ((share b.scale b.low b.high x : ℝ) : EReal) := by
  have hlowhigh : b.low < b.high := hlow.trans_lt hhigh
  have hzero : ∀ y : ℝ, extendedOps.lt extendedOps.zero (y : EReal) = decide (0 < y) :=
    fun y => extended_lt 0 y
  have hzero' : ∀ y : ℝ, extendedOps.lt (y : EReal) extendedOps.zero = decide (y < 0) :=
    fun y => extended_lt y 0
  rw [share_of_inside b.scale hlow hhigh, MassBucket.fraction, MassBucket.scale]
  simp only [MassBucket.extended, hzero, hzero', extended_div, extended_sub, extended_log,
    extended_abs, Bool.and_eq_true, decide_eq_true_eq]
  split
  case isTrue hpos =>
    have hx : x ≠ 0 := (hpos.2.trans_le hlow).ne'
    rw [Real.log_div hx hpos.2.ne', Real.log_div (hpos.2.trans hlowhigh).ne' hpos.2.ne']
  case isFalse =>
    split
    case isTrue hneg =>
      have hb : |b.low| ≠ 0 := abs_ne_zero.mpr (hlowhigh.trans hneg.2).ne
      have hx : |x| ≠ 0 := abs_ne_zero.mpr (hhigh.trans hneg.2).ne
      have hh : |b.high| ≠ 0 := abs_ne_zero.mpr hneg.2.ne
      rw [Real.log_div hb hx, Real.log_div hb hh, neg_sub_neg, neg_sub_neg]
    case isFalse =>
      rfl

/-- The source's distribution function is a sum of shares. -/
theorem histogramCDF_extended (buckets : List (MassBucket ℝ)) (x : ℝ) :
    histogramCDF extendedOps (buckets.map MassBucket.extended) (x : EReal) =
      ((cumulative buckets x : ℝ) : EReal) := by
  rw [cumulative, List.sum_eq_foldl, List.foldl_map, histogramCDF, List.foldl_map]
  refine List.foldl_hom (fun r : ℝ => (r : EReal)) fun result b => ?_
  rw [MassBucket.upTo]
  rcases share_cases b.low b.high x with hlow | ⟨hlow, hfull⟩ | ⟨hlow, hhigh⟩
  · rw [share_of_lt b.scale hlow, mul_zero, add_zero]
    simp only [MassBucket.extended, extended_lt, hlow, decide_true, if_true]
  · rw [share_of_full b.scale hlow hfull, mul_one, EReal.coe_add]
    simp only [MassBucket.extended, extended_lt, extended_le, not_lt.mpr hlow, decide_false,
      Bool.false_eq_true, if_false, Bool.or_eq_true, decide_eq_true_eq, hfull, if_true]
    rfl
  · have hnot : ¬ (b.high ≤ x ∨ b.high ≤ b.low) := by
      rintro (h | h)
      · exact absurd h (not_le.mpr hhigh)
      · exact absurd h (not_le.mpr (hlow.trans_lt hhigh))
    rw [EReal.coe_add, EReal.coe_mul, ← fraction_extended b hlow hhigh]
    simp only [MassBucket.extended, extended_lt, extended_le, not_lt.mpr hlow, decide_false,
      Bool.false_eq_true, if_false, Bool.or_eq_true, decide_eq_true_eq, hnot]
    rfl

/-! ### The mass up to a point -/

theorem upTo_monotone (b : MassBucket ℝ) (hcount : 0 ≤ b.count) : Monotone b.upTo :=
  fun _ _ hxy =>
    mul_le_mul_of_nonneg_left (share_monotone (scale_monotoneOn b) hxy) hcount

theorem cumulative_monotone
    {buckets : List (MassBucket ℝ)} (hcounts : ∀ b ∈ buckets, 0 ≤ b.count) :
    Monotone (cumulative buckets) :=
  fun _ _ hxy => List.sum_le_sum fun b hb => upTo_monotone b (hcounts b hb) hxy

/-- Nothing lies before the lowest bound. -/
theorem cumulative_of_lt
    {buckets : List (MassBucket ℝ)} {x : ℝ} (h : ∀ b ∈ buckets, x < b.low) :
    cumulative buckets x = 0 := by
  rw [cumulative]
  refine List.sum_eq_zero fun mass hmass => ?_
  obtain ⟨b, hb, rfl⟩ := List.mem_map.mp hmass
  rw [MassBucket.upTo, share_of_lt b.scale (h b hb), mul_zero]

/-- Everything lies up to the highest bound. -/
theorem cumulative_of_le
    {buckets : List (MassBucket ℝ)} {x : ℝ} (hlow : ∀ b ∈ buckets, b.low ≤ x)
    (hhigh : ∀ b ∈ buckets, b.high ≤ x) :
    cumulative buckets x = total buckets := by
  rw [cumulative, total]
  refine congrArg List.sum (List.map_congr_left fun b hb => ?_)
  rw [MassBucket.upTo, share_of_full b.scale (hlow b hb) (Or.inl (hhigh b hb)), mul_one]

/-! ### The interval -/

/-- The least of `init` and the bounds. -/
def lowest (init : ℝ) (buckets : List (MassBucket ℝ)) : ℝ :=
  buckets.foldl (fun low bucket => min low bucket.low) init

def highest (init : ℝ) (buckets : List (MassBucket ℝ)) : ℝ :=
  buckets.foldl (fun high bucket => max high bucket.high) init

theorem lowest_isLeast (init : ℝ) (buckets : List (MassBucket ℝ)) :
    IsLeast {low | low = init ∨ ∃ b ∈ buckets, b.low = low} (lowest init buckets) := by
  induction buckets generalizing init with
  | nil =>
      exact ⟨Or.inl rfl, by rintro low (rfl | ⟨b, hb, -⟩); exacts [le_refl _, nomatch hb]⟩
  | cons b rest ih =>
      obtain ⟨hmem, hleast⟩ := ih (min init b.low)
      have hmin : lowest (min init b.low) rest ≤ min init b.low := hleast (Or.inl rfl)
      rw [lowest, List.foldl_cons]
      constructor
      · rcases hmem with heq | ⟨b', hb', heq⟩
        · rcases min_choice init b.low with hinit | hlow
          · exact Or.inl (heq.trans hinit)
          · exact Or.inr ⟨b, List.mem_cons_self, (heq.trans hlow).symm⟩
        · exact Or.inr ⟨b', List.mem_cons_of_mem b hb', heq⟩
      · rintro low (rfl | ⟨b', hb', rfl⟩)
        · exact hmin.trans (min_le_left _ _)
        · rcases List.mem_cons.mp hb' with rfl | hrest
          · exact hmin.trans (min_le_right _ _)
          · exact hleast (Or.inr ⟨b', hrest, rfl⟩)

theorem highest_isGreatest (init : ℝ) (buckets : List (MassBucket ℝ)) :
    IsGreatest {high | high = init ∨ ∃ b ∈ buckets, b.high = high} (highest init buckets) := by
  induction buckets generalizing init with
  | nil =>
      exact ⟨Or.inl rfl, by rintro high (rfl | ⟨b, hb, -⟩); exacts [le_refl _, nomatch hb]⟩
  | cons b rest ih =>
      obtain ⟨hmem, hgreatest⟩ := ih (max init b.high)
      have hmax : max init b.high ≤ highest (max init b.high) rest := hgreatest (Or.inl rfl)
      rw [highest, List.foldl_cons]
      constructor
      · rcases hmem with heq | ⟨b', hb', heq⟩
        · rcases max_choice init b.high with hinit | hhigh
          · exact Or.inl (heq.trans hinit)
          · exact Or.inr ⟨b, List.mem_cons_self, (heq.trans hhigh).symm⟩
        · exact Or.inr ⟨b', List.mem_cons_of_mem b hb', heq⟩
      · rintro high (rfl | ⟨b', hb', rfl⟩)
        · exact (le_max_left _ _).trans hmax
        · rcases List.mem_cons.mp hb' with rfl | hrest
          · exact (le_max_right _ _).trans hmax
          · exact hgreatest (Or.inr ⟨b', hrest, rfl⟩)

/-- `histogramQuantile` in the reals. -/
noncomputable def realQuantile (b : MassBucket ℝ) (rest : List (MassBucket ℝ)) (q : ℝ) : ℝ :=
  quantile (cumulative (b :: rest)) 80 (lowest b.low rest) (highest b.high rest)
    (q * total (b :: rest))

theorem mid_extended (low high : ℝ) :
    extendedOps.mid (low : EReal) (high : EReal) = ((halfway low high : ℝ) : EReal) := by
  rw [QuantileOps.mid, extended_sub]
  change (low : EReal) + extendedOps.div _ (((2 : ℤ) : ℝ) : EReal) = _
  rw [extended_div, ← EReal.coe_add, halfway, Int.cast_ofNat]

theorem total_extended (buckets : List (MassBucket ℝ)) :
    (buckets.map MassBucket.extended).foldl
        (fun total bucket => extendedOps.add total bucket.count) extendedOps.zero =
      ((total buckets : ℝ) : EReal) := by
  rw [total, List.sum_eq_foldl, List.foldl_map, List.foldl_map]
  exact List.foldl_hom (fun r : ℝ => (r : EReal)) fun total bucket =>
    (EReal.coe_add total bucket.count).symm

theorem lowest_extended (b : MassBucket ℝ) (rest : List (MassBucket ℝ)) :
    ((b :: rest).map MassBucket.extended).foldl
        (fun low bucket => extendedOps.min low bucket.low) extendedOps.posInf =
      ((lowest b.low rest : ℝ) : EReal) := by
  have hfirst : extendedOps.min extendedOps.posInf b.extended.low = ((b.low : ℝ) : EReal) :=
    min_eq_right le_top
  rw [List.foldl_map, List.foldl_cons, hfirst, lowest]
  exact List.foldl_hom (fun r : ℝ => (r : EReal)) fun low bucket =>
    (EReal.coe_strictMono.monotone.map_min (a := low) (b := bucket.low)).symm

theorem highest_extended (b : MassBucket ℝ) (rest : List (MassBucket ℝ)) :
    ((b :: rest).map MassBucket.extended).foldl
        (fun high bucket => extendedOps.max high bucket.high) extendedOps.negInf =
      ((highest b.high rest : ℝ) : EReal) := by
  have hfirst : extendedOps.max extendedOps.negInf b.extended.high = ((b.high : ℝ) : EReal) :=
    max_eq_right bot_le
  rw [List.foldl_map, List.foldl_cons, hfirst, highest]
  exact List.foldl_hom (fun r : ℝ => (r : EReal)) fun high bucket =>
    (EReal.coe_strictMono.monotone.map_max (a := high) (b := bucket.high)).symm

theorem isInf_extended (x : ℝ) : extendedOps.isInf (x : EReal) = false := by
  simp [QuantileOps.isInf, extendedOps]

theorem bisect_extended (buckets : List (MassBucket ℝ)) (target : ℝ) (n : Nat) (low high : ℝ) :
    bisect extendedOps.mid
        (fun mid => extendedOps.lt
          (histogramCDF extendedOps (buckets.map MassBucket.extended) mid) (target : EReal))
        n (low : EReal) (high : EReal) =
      (((bisect halfway (fun x => decide (cumulative buckets x < target)) n low high).1 : EReal),
        ((bisect halfway (fun x => decide (cumulative buckets x < target)) n low high).2 :
          EReal)) := by
  refine bisect_map (fun r : ℝ => (r : EReal)) mid_extended (fun x => ?_) n low high
  rw [histogramCDF_extended, extended_lt]

/-- The source's quantile is the one of bisection. -/
theorem histogramQuantile_extended
    (b : MassBucket ℝ) (rest : List (MassBucket ℝ)) (htotal : 0 < total (b :: rest)) (q : ℝ) :
    histogramQuantile extendedOps ((b :: rest).map MassBucket.extended) (q : EReal) =
      some ((realQuantile b rest q : ℝ) : EReal) := by
  have hpositive : extendedOps.le ((total (b :: rest) : ℝ) : EReal) extendedOps.zero = false :=
    (extended_le _ 0).trans (decide_eq_false (not_le.mpr htotal))
  have htarget : extendedOps.mul (q : EReal) ((total (b :: rest) : ℝ) : EReal) =
      ((q * total (b :: rest) : ℝ) : EReal) :=
    (EReal.coe_mul q _).symm
  rw [histogramQuantile]
  simp only [total_extended, lowest_extended, highest_extended, isInf_extended, hpositive,
    htarget, Bool.or_false, Bool.false_eq_true, if_false, bisect_extended, mid_extended]
  exact congrArg some rfl

/-! ### Ordered, bounded and accurate -/

theorem percent_extended (n : Int) :
    extendedOps.div (extendedOps.ofInt n) (extendedOps.ofInt 100) =
      (((n : ℝ) / 100 : ℝ) : EReal) := by
  have hhundred : extendedOps.ofInt 100 = (((100 : ℤ) : ℝ) : EReal) := rfl
  have hn : extendedOps.ofInt n = ((n : ℝ) : EReal) := rfl
  rw [hn, hhundred, extended_div, Int.cast_ofNat]

/-- The percentiles of an accumulator are quantiles of its buckets. -/
theorem percentiles_extended
    {a : DistributionAccumulator EReal} {b : MassBucket ℝ} {rest : List (MassBucket ℝ)}
    (htotal : 0 < total (b :: rest)) (hcount : a.totalCount ≠ 0)
    (hbuckets : (a.buckets.map fun b => b.mass extendedOps) =
      (b :: rest).map MassBucket.extended) :
    a.percentiles extendedOps =
      some ⟨some (realQuantile b rest (50 / 100)), some (realQuantile b rest (90 / 100)),
        some (realQuantile b rest (95 / 100)), some (realQuantile b rest (99 / 100))⟩ := by
  have hne : a.buckets.isEmpty = false := by
    cases hlist : a.buckets with
    | nil =>
        rw [hlist] at hbuckets
        exact absurd hbuckets (by simp)
    | cons _ _ =>
        rfl
  rw [DistributionAccumulator.percentiles, hbuckets, hne]
  simp only [hcount, decide_false, Bool.or_false, Bool.false_eq_true, if_false,
    histogramPercentiles, percent_extended, histogramQuantile_extended b rest htotal,
    Int.cast_ofNat]

theorem realQuantile_monotone
    {b : MassBucket ℝ} {rest : List (MassBucket ℝ)} (htotal : 0 < total (b :: rest))
    (hle : lowest b.low rest ≤ highest b.high rest) : Monotone (realQuantile b rest) :=
  fun _ _ hq => quantile_mono 80 hle (mul_le_mul_of_nonneg_right hq htotal.le)

theorem bound_lowest (b : MassBucket ℝ) (rest : List (MassBucket ℝ)) :
    IsLeast {low | ∃ b' ∈ b :: rest, b'.low = low} (lowest b.low rest) := by
  have hset : {low | ∃ b' ∈ b :: rest, b'.low = low} =
      {low | low = b.low ∨ ∃ b' ∈ rest, b'.low = low} := by
    ext low
    simp [eq_comm]
  rw [hset]
  exact lowest_isLeast b.low rest

theorem bound_highest (b : MassBucket ℝ) (rest : List (MassBucket ℝ)) :
    IsGreatest {high | ∃ b' ∈ b :: rest, b'.high = high} (highest b.high rest) := by
  have hset : {high | ∃ b' ∈ b :: rest, b'.high = high} =
      {high | high = b.high ∨ ∃ b' ∈ rest, b'.high = high} := by
    ext high
    simp [eq_comm]
  rw [hset]
  exact highest_isGreatest b.high rest

/-- The share of the total a percentile stands for is passed between the bounds. -/
theorem crosses_share
    {buckets : List (MassBucket ℝ)} {lo hi q c : ℝ}
    (hbounds : ∀ b ∈ buckets, b.low ≤ b.high) (htotal : 0 < total buckets)
    (hlo : ∀ b ∈ buckets, lo ≤ b.low) (hhi : ∀ b ∈ buckets, b.high ≤ hi)
    (hc : c ∈ Set.Icc lo hi)
    (hcross : CrossesTarget (cumulative buckets) (q * total buckets) c (Set.Icc lo hi))
    (hpos : 0 < q) (hone : q ≤ 1) :
    CrossesTarget (cumulative buckets) (q * total buckets) c Set.univ := by
  refine crosses_everywhere hc hcross (fun x hx => ?_) fun x hx => ?_
  · rw [cumulative_of_lt fun b hb => hx.trans_le (hlo b hb)]
    exact mul_pos hpos htotal
  · have hhigh : ∀ b ∈ buckets, b.high ≤ x := fun b hb => (hhi b hb).trans hx.le
    rw [cumulative_of_le (fun b hb => (hbounds b hb).trans (hhigh b hb)) hhigh]
    exact mul_le_of_le_one_left htotal.le hone

/-- The distribution function and the quantiles of buckets that overlap in any way are
monotone, the quantiles lie between the bounds, and each is close to a point where the
function crosses its share of the total. -/
theorem histogramQuantile_spec
    (buckets : List (MassBucket ℝ))
    (hbounds : ∀ b ∈ buckets, b.low ≤ b.high)
    (hcounts : ∀ b ∈ buckets, 0 ≤ b.count)
    (htotal : 0 < total buckets) :
    ∃ (cdf quantile : ℝ → ℝ) (lo hi : ℝ),
      (∀ x : ℝ, histogramCDF extendedOps (buckets.map MassBucket.extended) x = cdf x) ∧
      Monotone cdf ∧
      (∀ q : ℝ, histogramQuantile extendedOps (buckets.map MassBucket.extended) q =
        some (quantile q : EReal)) ∧
      Monotone quantile ∧
      (∀ a : DistributionAccumulator EReal, a.totalCount ≠ 0 →
        (a.buckets.map fun b => b.mass extendedOps) = buckets.map MassBucket.extended →
        ∃ p50 p90 p95 p99 : ℝ,
          a.percentiles extendedOps = some ⟨some p50, some p90, some p95, some p99⟩ ∧
          p50 ≤ p90 ∧ p90 ≤ p95 ∧ p95 ≤ p99) ∧
      IsLeast {low | ∃ b ∈ buckets, b.low = low} lo ∧
      IsGreatest {high | ∃ b ∈ buckets, b.high = high} hi ∧
      ∀ q, quantile q ∈ Set.Icc lo hi ∧
        ∃ c ∈ Set.Icc lo hi,
          |quantile q - c| ≤ (hi - lo) / 2 ^ 80 ∧
          CrossesTarget cdf (q * total buckets) c (Set.Icc lo hi) ∧
          (0 < q → q ≤ 1 → CrossesTarget cdf (q * total buckets) c Set.univ) := by
  cases buckets with
  | nil =>
      exact absurd htotal (lt_irrefl 0)
  | cons b rest =>
      have hlo := bound_lowest b rest
      have hhi := bound_highest b rest
      have hleast : ∀ b' ∈ b :: rest, lowest b.low rest ≤ b'.low :=
        fun b' hb' => hlo.2 ⟨b', hb', rfl⟩
      have hgreatest : ∀ b' ∈ b :: rest, b'.high ≤ highest b.high rest :=
        fun b' hb' => hhi.2 ⟨b', hb', rfl⟩
      have hle : lowest b.low rest ≤ highest b.high rest :=
        (hleast b List.mem_cons_self).trans
          ((hbounds b List.mem_cons_self).trans (hgreatest b List.mem_cons_self))
      have hcdf : Monotone (cumulative (b :: rest)) := cumulative_monotone hcounts
      have hquantile : Monotone (realQuantile b rest) := realQuantile_monotone htotal hle
      refine ⟨cumulative (b :: rest), realQuantile b rest, _, _,
        histogramCDF_extended (b :: rest), hcdf, histogramQuantile_extended b rest htotal,
        hquantile, fun a hcount hbuckets => ?_, hlo, hhi, fun q => ?_⟩
      · exact ⟨_, _, _, _, percentiles_extended htotal hcount hbuckets,
          hquantile (by norm_num), hquantile (by norm_num), hquantile (by norm_num)⟩
      · obtain ⟨c, hc, hclose, hcross⟩ :=
          exists_quantile_crossing hcdf 80 hle (q * total (b :: rest))
        exact ⟨bisection_mem_Icc _ 80 hle, c, hc, hclose, hcross,
          crosses_share hbounds htotal hleast hgreatest hc hcross⟩

/-- Overlapping buckets: a linear one, one of a positive and one of a negative index, and a
mass on a point. -/
def sampleBuckets : List (MassBucket ℝ) :=
  [⟨0, 2, 3, false⟩, ⟨1, 4, 2, true⟩, ⟨-8, -2, 1, true⟩, ⟨1, 1, 1, false⟩]

theorem histogramQuantile_spec_sample :
    ∃ quantile : ℝ → ℝ,
      (∀ q : ℝ, histogramQuantile extendedOps (sampleBuckets.map MassBucket.extended) q =
        some (quantile q : EReal)) ∧
      Monotone quantile := by
  obtain ⟨-, quantile, -, -, -, -, hquantile, hmono, -⟩ :=
    histogramQuantile_spec sampleBuckets
      (by simp only [sampleBuckets, List.forall_mem_cons]; norm_num)
      (by simp only [sampleBuckets, List.forall_mem_cons]; norm_num)
      (by simp only [total, sampleBuckets, List.map_cons, List.map_nil, List.sum_cons,
        List.sum_nil]; norm_num)
  exact ⟨quantile, hquantile, hmono⟩

end Extended

end Storage
end Otelop
