import Mathlib.Tactic
import Otelop.Broadcast.Metrics
import Otelop.Frontend.EventTimeWindow
import Otelop.Storage.MetricAggregate

/-!
# The chart of raw points

`bucketRawMetricPoints` of `frontend/src/lib/metric-chart-series.ts` reduces the points of a
chart line in the browser, with the semantics of `storage.MetricAggregate`: per time bucket and
series, then per time bucket.

The two differ on a distribution.  The server divides all sums by all counts, the browser skips
a point that has only one of them.

**Results.**
* `chartBuckets_eq`: what the browser shows in a bucket, from the points of the bucket.
* `aggregated_cell`: what the server shows in a cell, from the rows of the cell.
* `chartBucket_eq_iff`: when the two agree.
* `meansAgree_iff`: the same for points that have a count each.
-/

namespace Otelop
namespace Frontend

open Lib Storage Broadcast

/-- What the browser knows of a series in a time bucket. -/
structure Bucket (V : Type) where
  epochNs : Time
  valueSum : V
  sampleCount : Nat
  distributionCount : V
  distributionSum : V

/-- The times are the milliseconds of a `Date`. -/
structure MetricChartPoint (V : Type) where
  time : Int
  value : V

section Chart

variable {V : Type}

/-! ### The loop over the points -/

def bucketStart (epochNs widthNs : Int) : Int :=
  let quotient := epochNs.tdiv widthNs
  if epochNs < 0 ∧ epochNs.tmod widthNs ≠ 0 then (quotient - 1) * widthNs
  else quotient * widthNs

/-- A bucket without points. -/
def newBucket (ops : DoubleOps V) (epochNs : Time) : Bucket V :=
  ⟨epochNs, ops.zero, 0, ops.zero, ops.zero⟩

def Bucket.add (bucket : Bucket V) (ops : DoubleOps V) (point : DataPoint V) : Bucket V :=
  let bucket := { bucket with
    valueSum := ops.add bucket.valueSum point.value
    sampleCount := bucket.sampleCount + 1 }
  match point.count, point.sum with
  | some count, some sum =>
      { bucket with
        distributionCount := ops.add bucket.distributionCount count
        distributionSum := ops.add bucket.distributionSum sum }
  | _, _ => bucket

/-- The map from the start of a bucket to its series. -/
def seriesBuckets (ops : DoubleOps V) (points : List (DataPoint V)) (widthNs : Int) :
    List (Time × List (UInt64 × Bucket V)) :=
  accumulate (fun point => bucketStart point.timestamp widthNs) []
    (fun buckets point =>
      mapEntry point.seriesKey (newBucket ops (bucketStart point.timestamp widthNs))
        (fun bucket => bucket.add ops point) buckets)
    points

/-! ### The value of a bucket -/

/-- `contributors.reduce((sum, bucket) => sum + f(bucket), 0)` -/
def reduceSum (ops : DoubleOps V) (f : Bucket V → V) (contributors : List (Bucket V)) : V :=
  contributors.foldl (fun sum bucket => ops.add sum (f bucket)) ops.zero

def bucketValue (ops : DoubleOps V) (metricType : String) (contributors : List (Bucket V)) : V :=
  if metricType = "Gauge" then
    reduceSum ops (fun bucket => ops.div bucket.valueSum (ops.ofInt bucket.sampleCount))
      contributors
  else
    let distributionCount := reduceSum ops Bucket.distributionCount contributors
    if ops.lt ops.zero distributionCount then
      ops.div (reduceSum ops Bucket.distributionSum contributors) distributionCount
    else reduceSum ops Bucket.valueSum contributors

/-- The buckets in their order, with their values. -/
def chartBuckets (ops : DoubleOps V) (points : List (DataPoint V)) (metricType : String)
    (widthNs : Int) : List (Time × V) :=
  ((seriesBuckets ops points widthNs).insertionSort fun a b => a.1 ≤ b.1).map fun entry =>
    (entry.1, bucketValue ops metricType (entry.2.map Prod.snd))

/-- A bucket that starts before a fixed window is plotted at its boundary. -/
def chartTime (window : EventTimeWindow) (epochNs : Time) : Int :=
  let bucketMs := Int.tdiv epochNs 1_000_000
  match window with
  | .fixed fromTime _ _ => max bucketMs (fromTime / 1_000_000)
  | .live _ => bucketMs

def bucketRawMetricPoints (ops : DoubleOps V) (points : List (DataPoint V)) (metricType : String)
    (window : EventTimeWindow) (seconds : Int) : List (MetricChartPoint V) :=
  if points = [] then []
  else (chartBuckets ops points metricType (seconds * second)).map fun bucket =>
    ⟨chartTime window bucket.1, bucket.2⟩

/-- The start of a bucket is the floor, also before 1970. -/
theorem bucketStart_eq {widthNs : Int} (hwidth : 0 < widthNs) (epochNs : Int) :
    bucketStart epochNs widthNs = epochNs / widthNs * widthNs := by
  rw [bucketStart]
  by_cases hneg : epochNs < 0 ∧ epochNs.tmod widthNs ≠ 0
  · have hdvd : ¬ widthNs ∣ epochNs := fun h => hneg.2 (Int.tmod_eq_zero_of_dvd h)
    have hdiv : epochNs / widthNs = epochNs.tdiv widthNs - 1 := by
      have hbelow : ¬ (0 ≤ epochNs ∨ widthNs ∣ epochNs) :=
        not_or.mpr ⟨not_le.mpr hneg.1, hdvd⟩
      rw [Int.ediv_eq_tdiv, if_neg hbelow, Int.sign_eq_one_of_pos hwidth]
    rw [if_pos hneg, hdiv]
  · have hdiv : epochNs / widthNs = epochNs.tdiv widthNs := by
      rcases not_and_or.mp hneg with hpos | hzero
      · exact (Int.tdiv_eq_ediv_of_nonneg (not_lt.mp hpos)).symm
      · have hdvd : widthNs ∣ epochNs := Int.dvd_of_tmod_eq_zero (not_not.mp hzero)
        exact (Int.tdiv_eq_ediv_of_dvd hdvd).symm
    rw [if_neg hneg, hdiv]

/-- The points of a bucket. -/
def bucketPoints (points : List (DataPoint V)) (widthNs : Int) (epochNs : Time) :
    List (DataPoint V) :=
  points.filter fun point => bucketStart point.timestamp widthNs = epochNs

/-- The series of a bucket have seen the points of the bucket. -/
theorem seriesBuckets_eq (ops : DoubleOps V) (points : List (DataPoint V)) (widthNs : Int) :
    seriesBuckets ops points widthNs =
      (firstKeys (fun point => bucketStart point.timestamp widthNs) points).map fun epochNs =>
        (epochNs, accumulate DataPoint.seriesKey (newBucket ops epochNs)
          (fun bucket point => bucket.add ops point) (bucketPoints points widthNs epochNs)) := by
  rw [seriesBuckets, accumulate_eq]
  refine List.map_congr_left fun epochNs _ => congrArg (Prod.mk epochNs) ?_
  refine List.foldl_ext _ _ _ fun buckets point hpoint => ?_
  rw [of_decide_eq_true (List.mem_filter.mp hpoint).2]

/-- What the browser shows in a bucket, from the points of the bucket. -/
theorem chartBuckets_eq
    (ops : DoubleOps V) {points : List (DataPoint V)} (metricType : String) {widthNs : Int}
    {epochNs : Time} (hne : bucketPoints points widthNs epochNs ≠ []) :
    (chartBuckets ops points metricType widthNs).filter (fun bucket => bucket.1 = epochNs) =
      [(epochNs, bucketValue ops metricType
        ((accumulate DataPoint.seriesKey (newBucket ops epochNs)
          (fun bucket point => bucket.add ops point)
          (bucketPoints points widthNs epochNs)).map Prod.snd))] := by
  let start : DataPoint V → Time := fun point => bucketStart point.timestamp widthNs
  have hperm : (chartBuckets ops points metricType widthNs).Perm
      ((firstKeys start points).map fun epochNs => (epochNs, bucketValue ops metricType
        ((accumulate DataPoint.seriesKey (newBucket ops epochNs)
          (fun bucket point => bucket.add ops point)
          (bucketPoints points widthNs epochNs)).map Prod.snd))) := by
    refine ((List.perm_insertionSort _ _).map _).trans (List.Perm.of_eq ?_)
    rw [seriesBuckets_eq, List.map_map]
    rfl
  have hmem : epochNs ∈ firstKeys start points := by
    obtain ⟨point, hpoint⟩ := List.exists_mem_of_ne_nil _ hne
    obtain ⟨hpoint, hstart⟩ := List.mem_filter.mp hpoint
    exact mem_firstKeys.mpr ⟨point, hpoint, of_decide_eq_true hstart⟩
  have hkeys : ((firstKeys start points).map fun epochNs => (epochNs, bucketValue ops metricType
        ((accumulate DataPoint.seriesKey (newBucket ops epochNs)
          (fun bucket point => bucket.add ops point)
          (bucketPoints points widthNs epochNs)).map Prod.snd))).map Prod.fst =
      firstKeys start points := by
    rw [List.map_map]
    exact List.map_id _
  have hone := filter_key_eq_singleton (hkeys ▸ nodup_firstKeys points)
    (List.mem_map_of_mem hmem)
  exact List.perm_singleton.mp ((hperm.filter _).trans (List.Perm.of_eq hone))

/-! ### The cell of the server -/

/-- The value of a distribution that has a count. -/
theorem value_point_distribution
    (ops : DoubleOps V) {r : AggregatedRow V} (h : isDistributionType r.metricType = true)
    {count : V} (hcount : r.countSum = some count) :
    (r.point ops).value = if ops.le count ops.zero then some ops.zero
      else r.sumSum.map fun sum => ops.div sum count := by
  refine (if_pos h).trans ?_
  rw [hcount]

/-- The rows of the series in a cell are a group of `aggregated`. -/
theorem mem_cellGroup
    {ops : DoubleOps V} {cell : DerivedRow V → Time × List String} {rows : List (DerivedRow V)}
    {c : Time × List String} (hmem : ∃ d ∈ rows, cell d = c) :
    (c, perSeriesBucket ops cell (rows.filter fun d => cell d = c)) ∈
      groupRows SeriesBucket.cell (perSeriesBucket ops cell rows) :=
  mem_groupRows.mpr ⟨cell_perSeriesBucket.mpr hmem, (filter_perSeriesBucket c).symm⟩

/-- What the server shows in a cell, from the rows of the cell. -/
theorem aggregated_cell
    {ops : DoubleOps V} {cell : DerivedRow V → Time × List String} {rows : List (DerivedRow V)}
    {c : Time × List String} (hmem : ∃ d ∈ rows, cell d = c)
    (hhaving : (aggregatedRow ops
      (c, perSeriesBucket ops cell (rows.filter fun d => cell d = c))).having = true) :
    (aggregated ops (perSeriesBucket ops cell rows)).filter
        (fun r => (r.bucket, r.groupValues) = c) =
      [aggregatedRow ops (c, perSeriesBucket ops cell (rows.filter fun d => cell d = c))] := by
  let groups := groupRows SeriesBucket.cell (perSeriesBucket ops cell rows)
  have hgroup : (c, perSeriesBucket ops cell (rows.filter fun d => cell d = c)) ∈ groups :=
    mem_cellGroup hmem
  have hnodup : (groups.map Prod.fst).Nodup := by
    rw [map_fst_groupRows]
    exact nodup_firstKeys _
  have hone : (groups.map (aggregatedRow ops)).filter (fun r => (r.bucket, r.groupValues) = c) =
      [aggregatedRow ops (c, perSeriesBucket ops cell (rows.filter fun d => cell d = c))] := by
    rw [List.filter_map]
    exact congrArg (List.map (aggregatedRow ops)) (filter_key_eq_singleton hnodup hgroup)
  rw [aggregated, List.filter_filter, List.filter_congr fun r _ => Bool.and_comm _ _,
    ← List.filter_filter, hone, List.filter_singleton, hhaving]
  rfl

end Chart

section Exact

variable {K : Type} [Field K] [LinearOrder K]

/-! ### The browser in exact arithmetic -/

/-- What is in a column where the other is there as well. -/
def paired (column other : Option K) : K := if other.isSome then column.getD 0 else 0

def pairedCount (point : DataPoint K) : K := paired point.count point.sum

def pairedSum (point : DataPoint K) : K := paired point.sum point.count

theorem add_exact (bucket : Bucket K) (point : DataPoint K) :
    bucket.add (exactOps K) point =
      ⟨bucket.epochNs, bucket.valueSum + point.value, bucket.sampleCount + 1,
        bucket.distributionCount + pairedCount point,
        bucket.distributionSum + pairedSum point⟩ := by
  rw [Bucket.add, pairedCount, pairedSum, paired, paired]
  cases point.count with
  | none =>
      simp [exactOps]
  | some count =>
      cases point.sum with
      | none => simp [exactOps]
      | some sum => rfl

/-- What a bucket knows of the points it has seen. -/
theorem foldl_add_exact (points : List (DataPoint K)) (bucket : Bucket K) :
    points.foldl (fun bucket point => bucket.add (exactOps K) point) bucket =
      ⟨bucket.epochNs, bucket.valueSum + (points.map DataPoint.value).sum,
        bucket.sampleCount + points.length,
        bucket.distributionCount + (points.map pairedCount).sum,
        bucket.distributionSum + (points.map pairedSum).sum⟩ := by
  induction points generalizing bucket with
  | nil =>
      simp
  | cons point points ih =>
      rw [List.foldl_cons, ih, add_exact]
      simp only [List.map_cons, List.sum_cons, List.length_cons, add_assoc, Nat.add_comm 1]

theorem reduceSum_exact (f : Bucket K → K) (contributors : List (Bucket K)) :
    reduceSum (exactOps K) f contributors = (contributors.map f).sum := by
  rw [reduceSum, List.sum_eq_foldl, List.foldl_map]
  rfl

/-- The mean of a series. -/
def seriesMean (points : List (DataPoint K)) (seriesKey : UInt64) : K :=
  ((points.filter fun point => point.seriesKey = seriesKey).map DataPoint.value).sum /
    (points.filter fun point => point.seriesKey = seriesKey).length

omit [LinearOrder K] in
/-- A series without points has no mean. -/
theorem seriesMean_of_not_mem
    {points : List (DataPoint K)} {k : UInt64} (h : k ∉ firstKeys DataPoint.seriesKey points) :
    seriesMean points k = 0 := by
  have hnone : points.filter (fun point => point.seriesKey = k) = [] := by
    refine List.filter_eq_nil_iff.mpr fun p hp hk => ?_
    exact h (mem_firstKeys.mpr ⟨p, hp, of_decide_eq_true hk⟩)
  rw [seriesMean, hnone, List.map_nil, List.sum_nil, zero_div]

/-- What the browser shows of the points of a bucket. -/
def shownValue (metricType : String) (points : List (DataPoint K)) : K :=
  if metricType = "Gauge" then
    ((firstKeys DataPoint.seriesKey points).map (seriesMean points)).sum
  else if 0 < (points.map pairedCount).sum then
    (points.map pairedSum).sum / (points.map pairedCount).sum
  else (points.map DataPoint.value).sum

theorem bucketValue_exact (metricType : String) (epochNs : Time) (points : List (DataPoint K)) :
    bucketValue (exactOps K) metricType
        ((accumulate DataPoint.seriesKey (newBucket (exactOps K) epochNs)
          (fun bucket point => bucket.add (exactOps K) point) points).map Prod.snd) =
      shownValue metricType points := by
  have hsum : ∀ (f : Bucket K → K) (g : DataPoint K → K),
      (∀ l : List (DataPoint K), f (l.foldl (fun bucket point => bucket.add (exactOps K) point)
        (newBucket (exactOps K) epochNs)) = (l.map g).sum) →
      reduceSum (exactOps K) f ((accumulate DataPoint.seriesKey (newBucket (exactOps K) epochNs)
          (fun bucket point => bucket.add (exactOps K) point) points).map Prod.snd) =
        (points.map g).sum := by
    intro f g hfg
    have hkeys : (firstKeys DataPoint.seriesKey points).Nodup := nodup_firstKeys points
    rw [reduceSum_exact, accumulate_eq, List.map_map, List.map_map,
      ← sum_by_keys g hkeys fun x hx => mem_firstKeys.mpr ⟨x, hx, rfl⟩]
    exact congrArg List.sum (List.map_congr_left fun k _ => hfg _)
  have hvalue := hsum Bucket.valueSum DataPoint.value fun l => by
    rw [foldl_add_exact]
    exact zero_add _
  have hcount := hsum Bucket.distributionCount pairedCount fun l => by
    rw [foldl_add_exact]
    exact zero_add _
  have hdistribution := hsum Bucket.distributionSum pairedSum fun l => by
    rw [foldl_add_exact]
    exact zero_add _
  rw [bucketValue, shownValue]
  by_cases hgauge : metricType = "Gauge"
  · rw [if_pos hgauge, if_pos hgauge, reduceSum_exact, accumulate_eq, List.map_map, List.map_map]
    refine congrArg List.sum (List.map_congr_left fun k _ => ?_)
    rw [Function.comp_apply, Function.comp_apply, foldl_add_exact, seriesMean]
    simp [exactOps, newBucket]
  · rw [if_neg hgauge, if_neg hgauge]
    dsimp only
    have hlt : ∀ x : K, (exactOps K).lt (exactOps K).zero x = decide (0 < x) := fun _ => rfl
    rw [hvalue, hcount, hdistribution, hlt]
    by_cases hpos : 0 < (points.map pairedCount).sum
    · rw [if_pos hpos, if_pos (decide_eq_true hpos)]
      rfl
    · rw [if_neg hpos, if_neg fun h => hpos (of_decide_eq_true h)]

/-! ### The points of the rows -/

/-- What the browser gets of the rows. -/
def browserPoints (rows : List (DerivedRow K)) : List (DataPoint K) :=
  (filterDerivedPoints (rows.map (DerivedRow.point (exactOps K)))).filterMap dataPoint

/-- What it gets of a row. -/
def browserPoint (d : DerivedRow K) : Option (DataPoint K) :=
  if (d.point (exactOps K)).isDerived then dataPoint (d.point (exactOps K)) else none

theorem browserPoints_eq (rows : List (DerivedRow K)) :
    browserPoints rows = rows.filterMap browserPoint := by
  rw [browserPoints, filterDerivedPoints, List.filterMap_filter, List.filterMap_map]
  rfl

/-- A row of a distribution is shown if it has a count. -/
theorem browserPoint_distribution
    {d : DerivedRow K} (h : isDistributionType d.metricType = true) :
    (browserPoint d).map (fun p => (p.value, p.count, p.sum)) = d.countDelta.map fun c =>
      (averageValue (exactOps K) d.sumDelta (some c), some c, d.sumDelta) := by
  have hvalue : (d.point (exactOps K)).value =
      some (averageValue (exactOps K) d.sumDelta d.countDelta) := if_pos h
  have hcount : (d.point (exactOps K)).count = d.countDelta := if_pos h
  have hsum : (d.point (exactOps K)).sum = d.sumDelta := if_pos h
  have htype : (d.point (exactOps K)).type = d.metricType := rfl
  rw [browserPoint, DerivedPoint.isDerived, dataPoint, hvalue, hcount, hsum, htype, h]
  cases d.countDelta with
  | none => rfl
  | some c => rfl

/-- A row of another metric is shown if it has a value. -/
theorem browserPoint_scalar
    {d : DerivedRow K} (h : isDistributionType d.metricType = false) :
    (browserPoint d).map (fun p => (p.seriesKey, p.value, p.count, p.sum)) =
      d.scalarValue.map fun v => (d.seriesKey, v, none, none) := by
  have hfalse : ¬ isDistributionType d.metricType = true := by
    rw [h]
    exact Bool.false_ne_true
  have hvalue : (d.point (exactOps K)).value = d.scalarValue := if_neg hfalse
  have hcount : (d.point (exactOps K)).count = none := if_neg hfalse
  have hsum : (d.point (exactOps K)).sum = none := if_neg hfalse
  have hkey : (d.point (exactOps K)).seriesKey = d.seriesKey := rfl
  have htype : (d.point (exactOps K)).type = d.metricType := rfl
  rw [browserPoint, DerivedPoint.isDerived, dataPoint, hvalue, hcount, hsum, hkey, htype, h]
  cases d.scalarValue with
  | none => rfl
  | some v => rfl

/-- A sum over the points of the browser is one over the rows. -/
theorem sum_browserPoints (f : DataPoint K → K) (rows : List (DerivedRow K)) :
    ((browserPoints rows).map f).sum = (rows.map fun d => ((browserPoint d).map f).getD 0).sum := by
  rw [browserPoints_eq, sum_map_filterMap]

/-! ### Distributions -/

/-- What the rows have in a column. -/
def columnTotal (column : DerivedRow K → Option K) (rows : List (DerivedRow K)) : K :=
  (rows.filterMap column).sum

/-- The mean over the rows that have both a count and a sum is the mean over all of them. -/
def MeansAgree (rows : List (DerivedRow K)) : Prop :=
  let countPaired := columnTotal DerivedRow.countDelta (rows.filter fun d => d.sumDelta.isSome)
  let countAlone := columnTotal DerivedRow.countDelta (rows.filter fun d => d.sumDelta.isNone)
  let sumPaired := columnTotal DerivedRow.sumDelta (rows.filter fun d => d.countDelta.isSome)
  let sumAlone := columnTotal DerivedRow.sumDelta (rows.filter fun d => d.countDelta.isNone)
  countPaired + countAlone = 0 ∨
    (∃ d ∈ rows, d.sumDelta.isSome = true) ∧
      if countPaired = 0 then sumPaired + sumAlone = 0
      else sumAlone * countPaired = sumPaired * countAlone

omit [LinearOrder K] in
/-- A column splits by a condition. -/
theorem columnTotal_split
    (column : DerivedRow K → Option K) (other : DerivedRow K → Option K)
    (rows : List (DerivedRow K)) :
    columnTotal column (rows.filter fun d => (other d).isSome) +
        columnTotal column (rows.filter fun d => (other d).isNone) =
      columnTotal column rows := by
  rw [columnTotal, columnTotal, columnTotal, sum_filterMap_filter, sum_filterMap_filter,
    sum_filterMap_getD, ← List.sum_map_add]
  refine congrArg List.sum (List.map_congr_left fun d _ => ?_)
  cases other d <;> simp

omit [LinearOrder K] in
theorem columnTotal_paired
    (column : DerivedRow K → Option K) (other : DerivedRow K → Option K)
    (rows : List (DerivedRow K)) :
    columnTotal column (rows.filter fun d => (other d).isSome) =
      (rows.map fun d => paired (column d) (other d)).sum := by
  rw [columnTotal, sum_filterMap_filter]
  rfl

/-- A sum over what the browser shows of a distribution. -/
theorem sum_browserPoints_distribution
    {rows : List (DerivedRow K)} (h : ∀ d ∈ rows, isDistributionType d.metricType = true)
    {f : DataPoint K → K} {g : K × Option K × Option K → K}
    (hfg : ∀ p, f p = g (p.value, p.count, p.sum)) :
    ((browserPoints rows).map f).sum = (rows.map fun d => (d.countDelta.map fun c =>
      g (averageValue (exactOps K) d.sumDelta (some c), some c, d.sumDelta)).getD 0).sum := by
  rw [sum_browserPoints]
  refine congrArg List.sum (List.map_congr_left fun d hd => congrArg (Option.getD · 0) ?_)
  have hpoint := congrArg (Option.map g) (browserPoint_distribution (h d hd))
  rw [Option.map_map, Option.map_map] at hpoint
  exact (congrArg (Option.map · _) (funext hfg)).trans hpoint

theorem pairedCount_browserPoints
    {rows : List (DerivedRow K)} (h : ∀ d ∈ rows, isDistributionType d.metricType = true) :
    ((browserPoints rows).map pairedCount).sum =
      columnTotal DerivedRow.countDelta (rows.filter fun d => d.sumDelta.isSome) := by
  rw [columnTotal_paired, sum_browserPoints_distribution h (f := pairedCount)
    (g := fun t => paired t.2.1 t.2.2) fun _ => rfl]
  refine congrArg List.sum (List.map_congr_left fun d _ => ?_)
  cases d.countDelta with
  | none => cases d.sumDelta <;> rfl
  | some c => rfl

theorem pairedSum_browserPoints
    {rows : List (DerivedRow K)} (h : ∀ d ∈ rows, isDistributionType d.metricType = true) :
    ((browserPoints rows).map pairedSum).sum =
      columnTotal DerivedRow.sumDelta (rows.filter fun d => d.countDelta.isSome) := by
  rw [columnTotal_paired, sum_browserPoints_distribution h (f := pairedSum)
    (g := fun t => paired t.2.2 t.2.1) fun _ => rfl]
  refine congrArg List.sum (List.map_congr_left fun d _ => ?_)
  cases d.countDelta <;> rfl

/-! ### Other metrics -/

/-- What the browser gets of a metric that is no distribution. -/
theorem browserPoints_scalar
    {rows : List (DerivedRow K)} (h : ∀ d ∈ rows, isDistributionType d.metricType = false) :
    (browserPoints rows).map (fun p => (p.seriesKey, p.value, p.count, p.sum)) =
      rows.filterMap fun d => d.scalarValue.map fun v => (d.seriesKey, v, none, none) := by
  rw [browserPoints_eq, List.map_filterMap]
  exact List.filterMap_congr fun d hd => browserPoint_scalar (h d hd)

theorem value_browserPoints_scalar
    {rows : List (DerivedRow K)} (h : ∀ d ∈ rows, isDistributionType d.metricType = false) :
    (browserPoints rows).map DataPoint.value = rows.filterMap DerivedRow.scalarValue := by
  have hvalue := congrArg (List.map fun t => t.2.1) (browserPoints_scalar h)
  rw [List.map_map, List.map_filterMap] at hvalue
  refine hvalue.trans (List.filterMap_congr fun d _ => ?_)
  rw [Option.map_map]
  exact Option.map_id'

theorem pairedCount_browserPoints_scalar
    {rows : List (DerivedRow K)} (h : ∀ d ∈ rows, isDistributionType d.metricType = false) :
    ((browserPoints rows).map pairedCount).sum = 0 := by
  have hcount := congrArg (List.map fun t => paired t.2.2.1 t.2.2.2) (browserPoints_scalar h)
  rw [List.map_map, List.map_filterMap] at hcount
  refine List.sum_eq_zero fun x hx => ?_
  have hx' : x ∈ (browserPoints rows).map
      ((fun t => paired t.2.2.1 t.2.2.2) ∘ fun p => (p.seriesKey, p.value, p.count, p.sum)) := hx
  rw [hcount] at hx'
  obtain ⟨d, -, hd⟩ := List.mem_filterMap.mp hx'
  rw [Option.map_map] at hd
  obtain ⟨v, -, rfl⟩ := Option.map_eq_some_iff.mp hd
  rfl

/-- The browser sums up the values of a `Sum`. -/
theorem shownValue_sum
    {rows : List (DerivedRow K)} (htype : ∀ d ∈ rows, d.metricType = "Sum") :
    shownValue "Sum" (browserPoints rows) = columnTotal DerivedRow.scalarValue rows := by
  have hrows : ∀ d ∈ rows, isDistributionType d.metricType = false :=
    fun d hd => (htype d hd).symm ▸ isDistributionType_sum
  rw [shownValue, if_neg (by decide), pairedCount_browserPoints_scalar hrows,
    if_neg (lt_irrefl 0), value_browserPoints_scalar hrows]
  rfl

theorem filter_browserPoints (rows : List (DerivedRow K)) (key : UInt64) :
    (browserPoints rows).filter (fun p => p.seriesKey = key) =
      browserPoints (rows.filter fun d => d.seriesKey = key) := by
  rw [browserPoints_eq, browserPoints_eq, List.filter_filterMap, List.filterMap_filter]
  refine List.filterMap_congr fun d _ => ?_
  have hkey : ∀ p ∈ browserPoint d, p.seriesKey = d.seriesKey := by
    intro p hp
    rw [browserPoint] at hp
    split at hp
    · obtain ⟨v, -, rfl⟩ := Option.map_eq_some_iff.mp hp
      rfl
    · cases hp
  cases hp : browserPoint d with
  | none =>
      split <;> rfl
  | some p =>
      rw [Option.filter_some, hkey p hp]

/-- The mean of a series, from its rows. -/
def rowsMean (rows : List (DerivedRow K)) (key : UInt64) : K :=
  columnTotal DerivedRow.scalarValue (rows.filter fun d => d.seriesKey = key) /
    ((rows.filter fun d => d.seriesKey = key).filterMap DerivedRow.scalarValue).length

theorem seriesMean_browserPoints
    {rows : List (DerivedRow K)} (h : ∀ d ∈ rows, isDistributionType d.metricType = false)
    (key : UInt64) : seriesMean (browserPoints rows) key = rowsMean rows key := by
  have hfilter : ∀ d ∈ rows.filter (fun d => d.seriesKey = key),
      isDistributionType d.metricType = false := fun d hd => h d (List.mem_filter.mp hd).1
  rw [seriesMean, filter_browserPoints, rowsMean, columnTotal,
    ← value_browserPoints_scalar hfilter, List.length_map]

/-- The mean of a group of the server, where a series without values counts as nothing. -/
theorem getD_sqlAvg (rows : List (DerivedRow K)) :
    (sqlAvg (exactOps K) (rows.map DerivedRow.scalarValue)).getD 0 =
      columnTotal DerivedRow.scalarValue rows /
        (rows.filterMap DerivedRow.scalarValue).length := by
  have hlength : ((rows.map DerivedRow.scalarValue).filterMap id) =
      rows.filterMap DerivedRow.scalarValue := by
    rw [List.filterMap_map, Function.id_comp]
  rw [sqlAvg, hlength, sqlSum, columnTotal]
  by_cases h : ∃ d ∈ rows, d.scalarValue.isSome = true
  · change ((foldNull (· + ·) (rows.map DerivedRow.scalarValue)).map _).getD 0 = _
    rw [foldNull_map_eq_some h, Option.map_some, Option.getD_some]
    change _ / (((rows.filterMap DerivedRow.scalarValue).length : ℤ) : K) = _
    rw [Int.cast_natCast]
  · have hnone : rows.filterMap DerivedRow.scalarValue = [] := by
      refine List.filterMap_eq_nil_iff.mpr fun d hd => ?_
      exact Option.not_isSome_iff_eq_none.mp fun hsome => h ⟨d, hd, hsome⟩
    rw [foldNull_map_eq_none h, Option.map_none, Option.getD_none, hnone, List.sum_nil, zero_div]

/-! ### The means -/

variable [IsStrictOrderedRing K]

/-- Without a count among the points that have a sum, no point has a value. -/
theorem value_browserPoints
    {rows : List (DerivedRow K)} (h : ∀ d ∈ rows, isDistributionType d.metricType = true)
    (hcounts : ∀ d ∈ rows, ∀ c ∈ d.countDelta, 0 ≤ c)
    (hzero : columnTotal DerivedRow.countDelta (rows.filter fun d => d.sumDelta.isSome) = 0) :
    ((browserPoints rows).map DataPoint.value).sum = 0 := by
  rw [sum_browserPoints_distribution h (f := DataPoint.value) (g := fun t => t.1) fun _ => rfl]
  refine List.sum_eq_zero fun v hv => ?_
  obtain ⟨d, hd, rfl⟩ := List.mem_map.mp hv
  rw [columnTotal_paired] at hzero
  have hnonneg : ∀ x ∈ rows.map fun d => paired d.countDelta d.sumDelta, 0 ≤ x := by
    intro x hx
    obtain ⟨d, hd, rfl⟩ := List.mem_map.mp hx
    rw [paired]
    split
    · cases hc : d.countDelta with
      | none => exact le_refl 0
      | some c => exact hcounts d hd c hc
    · exact le_refl 0
  have hpaired : paired d.countDelta d.sumDelta = 0 :=
    List.all_zero_of_le_zero_le_of_sum_eq_zero hnonneg hzero (List.mem_map_of_mem hd)
  cases hc : d.countDelta with
  | none => rfl
  | some c =>
      cases hs : d.sumDelta with
      | none => rfl
      | some sum =>
          have hle : c ≤ 0 := by
            rw [hc, hs] at hpaired
            exact le_of_eq hpaired
          exact if_pos (decide_eq_true hle)

/-- Where the server's mean over everything is the browser's over the pairs. -/
theorem mean_eq_iff
    {paired alone sumPaired sumAlone : K} (hpaired : 0 ≤ paired) (halone : 0 ≤ alone)
    {sum : Option K} (hsum : ∀ total ∈ sum, total = sumPaired + sumAlone) :
    (if paired + alone ≤ 0 then some 0 else sum.map fun total => total / (paired + alone)) =
        some (if 0 < paired then sumPaired / paired else 0) ↔
      (paired + alone = 0 ∨ sum.isSome = true ∧
        if paired = 0 then sumPaired + sumAlone = 0
        else sumAlone * paired = sumPaired * alone) := by
  rcases (add_nonneg hpaired halone).eq_or_lt with hzero | hpos
  · have hnone : ¬ 0 < paired := not_lt.mpr (by linarith)
    rw [if_pos hzero.symm.le, if_neg hnone]
    exact ⟨fun _ => Or.inl hzero.symm, fun _ => rfl⟩
  · rw [if_neg (not_le.mpr hpos)]
    cases sum with
    | none =>
        simp [hpos.ne']
    | some total =>
        rw [hsum total rfl, Option.map_some, Option.some.injEq, or_iff_right hpos.ne',
          Option.isSome_some, and_iff_right rfl]
        rcases hpaired.eq_or_lt with rfl | hlt
        · rw [if_neg (lt_irrefl _), if_pos rfl, div_eq_zero_iff, or_iff_left hpos.ne']
        · rw [if_pos hlt, if_neg hlt.ne', div_eq_div_iff hpos.ne' hlt.ne']
          constructor
          · intro h
            linarith
          · intro h
            linarith

theorem columnTotal_count_nonneg
    {rows : List (DerivedRow K)} (hcounts : ∀ d ∈ rows, ∀ c ∈ d.countDelta, 0 ≤ c) :
    0 ≤ columnTotal DerivedRow.countDelta rows := by
  refine List.sum_nonneg fun c hc => ?_
  obtain ⟨d, hd, hc⟩ := List.mem_filterMap.mp hc
  exact hcounts d hd c hc

/-- What the browser shows of a distribution. -/
theorem shownValue_distribution
    {rows : List (DerivedRow K)} {metricType : String} (htype : ∀ d ∈ rows, d.metricType = metricType)
    (hmetric : isDistributionType metricType = true)
    (hcounts : ∀ d ∈ rows, ∀ c ∈ d.countDelta, 0 ≤ c) :
    shownValue metricType (browserPoints rows) =
      let countPaired := columnTotal DerivedRow.countDelta (rows.filter fun d => d.sumDelta.isSome)
      if 0 < countPaired then
        columnTotal DerivedRow.sumDelta (rows.filter fun d => d.countDelta.isSome) / countPaired
      else 0 := by
  have hrows : ∀ d ∈ rows, isDistributionType d.metricType = true :=
    fun d hd => (htype d hd).symm ▸ hmetric
  have hgauge : metricType ≠ "Gauge" := by
    rintro rfl
    rw [isDistributionType_gauge] at hmetric
    cases hmetric
  rw [shownValue, if_neg hgauge, pairedCount_browserPoints hrows, pairedSum_browserPoints hrows]
  dsimp only
  split
  · rfl
  · rename_i hpos
    refine value_browserPoints hrows hcounts (le_antisymm (not_lt.mp hpos) ?_)
    exact columnTotal_count_nonneg fun d hd => hcounts d (List.mem_filter.mp hd).1

/-! ### One bucket -/

omit [IsStrictOrderedRing K] in
/-- The order of the points does not matter. -/
theorem shownValue_perm
    {points points' : List (DataPoint K)} (h : points.Perm points') (metricType : String) :
    shownValue metricType points = shownValue metricType points' := by
  have hkeys : (firstKeys DataPoint.seriesKey points).Perm
      (firstKeys DataPoint.seriesKey points') := by
    refine (List.perm_ext_iff_of_nodup (nodup_firstKeys _) (nodup_firstKeys _)).mpr fun k => ?_
    rw [mem_firstKeys, mem_firstKeys]
    exact exists_congr fun p => and_congr_left fun _ => h.mem_iff
  have hmean : seriesMean points = seriesMean points' := by
    funext k
    rw [seriesMean, seriesMean, ((h.filter _).map _).sum_eq, (h.filter _).length_eq]
  rw [shownValue, shownValue, (h.map pairedCount).sum_eq, (h.map pairedSum).sum_eq,
    (h.map DataPoint.value).sum_eq, hmean, (hkeys.map _).sum_eq]

section Cell

variable {cell : DerivedRow K → Time × List String} {rows : List (DerivedRow K)}
  {c : Time × List String} {metricType : String}

/-- The row of the server before `HAVING`. -/
def cellRow (cell : DerivedRow K → Time × List String) (rows : List (DerivedRow K))
    (c : Time × List String) : AggregatedRow K :=
  aggregatedRow (exactOps K)
    (c, perSeriesBucket (exactOps K) cell (rows.filter fun d => cell d = c))

omit [IsStrictOrderedRing K] in
theorem metricType_cellRow
    (htype : ∀ d ∈ rows, d.metricType = metricType) (hmem : ∃ d ∈ rows, cell d = c) :
    (cellRow cell rows c).metricType = metricType :=
  metricType_aggregatedRow htype (mem_cellGroup hmem)

omit [IsStrictOrderedRing K] in
theorem seriesKey_browserPoints
    {rows : List (DerivedRow K)} {p : DataPoint K} (hp : p ∈ browserPoints rows) :
    ∃ d ∈ rows, d.seriesKey = p.seriesKey := by
  rw [browserPoints_eq] at hp
  obtain ⟨d, hd, hp⟩ := List.mem_filterMap.mp hp
  rw [browserPoint] at hp
  split at hp
  · obtain ⟨v, -, rfl⟩ := Option.map_eq_some_iff.mp hp
    exact ⟨d, hd, rfl⟩
  · cases hp

omit [IsStrictOrderedRing K] in
/-- The server sums up the means of the series of a `Gauge`. -/
theorem scalarValueSum_gauge
    (htype : ∀ d ∈ rows, d.metricType = "Gauge")
    (hvalue : ∃ d ∈ rows.filter (fun d => cell d = c), d.scalarValue.isSome = true) :
    (cellRow cell rows c).scalarValueSum =
      some (shownValue "Gauge" (browserPoints (rows.filter fun d => cell d = c))) := by
  let rows' := rows.filter fun d => cell d = c
  let key : DerivedRow K → (Time × List String) × UInt64 := fun d => (cell d, d.seriesKey)
  have hcell : ∀ d ∈ rows', cell d = c := fun d hd => of_decide_eq_true (List.mem_filter.mp hd).2
  have hscalar : ∀ d ∈ rows', isDistributionType d.metricType = false :=
    fun d hd => (htype d (List.mem_filter.mp hd).1).symm ▸ isDistributionType_gauge
  have hgroup : ∀ k ∈ firstKeys key rows', k.1 = c ∧
      (rows'.filter fun d => key d = k) = rows'.filter fun d => d.seriesKey = k.2 := by
    intro k hk
    obtain ⟨d, hd, rfl⟩ := mem_firstKeys.mp hk
    refine ⟨hcell d hd, List.filter_congr fun d' hd' => ?_⟩
    simp [key, hcell d hd, hcell d' hd']
  have hserver : (cellRow cell rows c).scalarValueSum = foldNull (· + ·)
      ((groupRows key rows').map fun g =>
        sqlAvg (exactOps K) (g.2.map DerivedRow.scalarValue)) := by
    change foldNull (· + ·) (((groupRows key rows').map (seriesBucket (exactOps K))).map
      SeriesBucket.scalarValue) = _
    rw [List.map_map]
    refine congrArg _ (List.map_congr_left fun g hg => if_pos ?_)
    refine maxText_eq (by simpa using ne_nil_of_mem_groupRows hg) fun t ht => ?_
    obtain ⟨d, hd, rfl⟩ := List.mem_map.mp ht
    exact htype d (List.mem_filter.mp (mem_of_mem_group hg hd).1).1
  have hsome : ∃ g ∈ groupRows key rows',
      (sqlAvg (exactOps K) (g.2.map DerivedRow.scalarValue)).isSome = true := by
    obtain ⟨d, hd, hv⟩ := hvalue
    obtain ⟨g, hg, -, hdg⟩ := exists_group_of_mem key hd
    refine ⟨g, hg, ?_⟩
    change ((foldNull (· + ·) (g.2.map DerivedRow.scalarValue)).map _).isSome = true
    rw [foldNull_map_eq_some ⟨d, hdg, hv⟩]
    rfl
  have hmean : ∀ k ∈ firstKeys key rows',
      (sqlAvg (exactOps K) ((rows'.filter fun d => key d = k).map DerivedRow.scalarValue)).getD 0 =
        rowsMean rows' k.2 := by
    intro k hk
    rw [(hgroup k hk).2, getD_sqlAvg, rowsMean]
  have hkeys : ((firstKeys key rows').map Prod.snd).Nodup := by
    refine List.Nodup.map_on (fun k hk k' hk' h => ?_) (nodup_firstKeys rows')
    exact Prod.ext ((hgroup k hk).1.trans (hgroup k' hk').1.symm) h
  have hbrowser : shownValue "Gauge" (browserPoints rows') =
      (((firstKeys key rows').map Prod.snd).map (rowsMean rows')).sum := by
    rw [shownValue, if_pos rfl,
      List.map_congr_left fun k _ => seriesMean_browserPoints hscalar k]
    refine sum_keys_of_subset (nodup_firstKeys _) hkeys (fun k hk => ?_) fun k _ hnot => ?_
    · obtain ⟨p, hp, rfl⟩ := mem_firstKeys.mp hk
      obtain ⟨d, hd, hkey⟩ := seriesKey_browserPoints hp
      exact List.mem_map.mpr ⟨key d, mem_firstKeys.mpr ⟨d, hd, rfl⟩, hkey⟩
    · rw [← seriesMean_browserPoints hscalar, seriesMean_of_not_mem hnot]
  rw [hserver, foldNull_map_eq_some hsome, sum_filterMap_getD, hbrowser, groupRows_eq,
    List.map_map, List.map_map]
  exact congrArg (fun l => some (List.sum l)) (List.map_congr_left hmean)

omit [IsStrictOrderedRing K] in
/-- What the browser shows of a row, the server has as well. -/
theorem column_of_browserPoints
    (htype : ∀ d ∈ rows, d.metricType = metricType) (hne : browserPoints rows ≠ []) :
    ∃ d ∈ rows, (if isDistributionType metricType then d.countDelta
      else d.scalarValue).isSome = true := by
  obtain ⟨p, hp⟩ := List.exists_mem_of_ne_nil _ hne
  rw [browserPoints_eq] at hp
  obtain ⟨d, hd, hp⟩ := List.mem_filterMap.mp hp
  refine ⟨d, hd, ?_⟩
  by_cases h : isDistributionType metricType = true
  · have hpoint := browserPoint_distribution ((htype d hd).symm ▸ h)
    rw [if_pos h]
    cases hc : d.countDelta with
    | none =>
        rw [hp, hc] at hpoint
        cases hpoint
    | some count => rfl
  · have hpoint := browserPoint_scalar ((htype d hd).symm ▸ Bool.not_eq_true _ ▸ h)
    rw [if_neg h]
    cases hv : d.scalarValue with
    | none =>
        rw [hp, hv] at hpoint
        cases hpoint
    | some value => rfl

omit [IsStrictOrderedRing K] in
/-- The columns of a distribution. -/
theorem columns_distribution
    (htype : ∀ d ∈ rows, d.metricType = metricType)
    (hmetric : isDistributionType metricType = true) (hmem : ∃ d ∈ rows, cell d = c) :
    (cellRow cell rows c).countSum =
        foldNull (· + ·) ((rows.filter fun d => cell d = c).map DerivedRow.countDelta) ∧
      (cellRow cell rows c).sumSum =
        foldNull (· + ·) ((rows.filter fun d => cell d = c).map DerivedRow.sumDelta) := by
  have hcount : MassColumn.count.AppliesTo metricType := hmetric
  have hsum : MassColumn.sum.AppliesTo metricType := hmetric
  exact ⟨foldNull_cell htype hcount (mem_cellGroup hmem),
    foldNull_cell htype hsum (mem_cellGroup hmem)⟩

/-- When the row of the server has the value of the browser. -/
theorem value_cellRow_iff
    (htype : ∀ d ∈ rows, d.metricType = metricType)
    (hmetric : metricType = "Gauge" ∨ metricType = "Sum" ∨ isDistributionType metricType = true)
    (hcounts : ∀ d ∈ rows, ∀ count ∈ d.countDelta, 0 ≤ count)
    (hne : browserPoints (rows.filter fun d => cell d = c) ≠ []) :
    (cellRow cell rows c).having = true ∧
      (((cellRow cell rows c).point (exactOps K)).value =
          some (shownValue metricType (browserPoints (rows.filter fun d => cell d = c))) ↔
        (isDistributionType metricType = true →
          MeansAgree (rows.filter fun d => cell d = c))) := by
  let rows' := rows.filter fun d => cell d = c
  have htype' : ∀ d ∈ rows', d.metricType = metricType :=
    fun d hd => htype d (List.mem_filter.mp hd).1
  obtain ⟨d, hd, hcolumn⟩ := column_of_browserPoints htype' hne
  have hmem : ∃ d ∈ rows, cell d = c :=
    ⟨d, (List.mem_filter.mp hd).1, of_decide_eq_true (List.mem_filter.mp hd).2⟩
  have hscalar : isDistributionType metricType = false →
      (cellRow cell rows c).scalarValueSum = some (shownValue metricType (browserPoints rows')) →
      (cellRow cell rows c).having = true ∧
        (((cellRow cell rows c).point (exactOps K)).value =
            some (shownValue metricType (browserPoints rows')) ↔
          (isDistributionType metricType = true → MeansAgree rows')) := by
    intro hfalse hvalue
    have hpoint : ((cellRow cell rows c).point (exactOps K)).value =
        (cellRow cell rows c).scalarValueSum := by
      refine if_neg ?_
      rw [metricType_cellRow htype hmem, hfalse]
      exact Bool.false_ne_true
    refine ⟨?_, ?_⟩
    · rw [AggregatedRow.having, hvalue]
      rfl
    · rw [hpoint, hvalue, hfalse]
      exact iff_of_true rfl fun h => absurd h Bool.false_ne_true
  rcases hmetric with rfl | rfl | hdistribution
  · rw [isDistributionType_gauge] at hcolumn
    exact hscalar isDistributionType_gauge (scalarValueSum_gauge htype ⟨d, hd, hcolumn⟩)
  · rw [isDistributionType_sum] at hcolumn
    have happlies : MassColumn.value.AppliesTo "Sum" := rfl
    have hsum : MassColumn.value.ofAggregatedRow (cellRow cell rows c) =
        foldNull (· + ·) (rows'.map MassColumn.value.ofRow) :=
      foldNull_cell htype happlies (mem_cellGroup hmem)
    have hsome : foldNull (· + ·) (rows'.map DerivedRow.scalarValue) =
        some (columnTotal DerivedRow.scalarValue rows') :=
      foldNull_map_eq_some ⟨d, hd, hcolumn⟩
    refine hscalar isDistributionType_sum ?_
    rw [shownValue_sum htype']
    exact hsum.trans hsome
  · rw [if_pos hdistribution] at hcolumn
    obtain ⟨hcount, hsum⟩ := columns_distribution htype hdistribution hmem
    have hcounts' : ∀ d ∈ rows', ∀ count ∈ d.countDelta, 0 ≤ count :=
      fun d hd => hcounts d (List.mem_filter.mp hd).1
    have hsome : (cellRow cell rows c).countSum =
        some (columnTotal DerivedRow.countDelta rows') :=
      hcount.trans (foldNull_map_eq_some ⟨d, hd, hcolumn⟩)
    refine ⟨?_, ?_⟩
    · rw [AggregatedRow.having, hsome]
      simp
    · have hpoint : ((cellRow cell rows c).point (exactOps K)).value =
          if columnTotal DerivedRow.countDelta rows' ≤ 0 then some 0
          else (cellRow cell rows c).sumSum.map
            fun total => total / columnTotal DerivedRow.countDelta rows' := by
        refine (value_point_distribution _ ?_ hsome).trans ?_
        · rw [metricType_cellRow htype hmem, hdistribution]
        by_cases hle : columnTotal DerivedRow.countDelta rows' ≤ 0
        · exact (if_pos (decide_eq_true hle)).trans (if_pos hle).symm
        · exact (if_neg fun h => hle (of_decide_eq_true h)).trans (if_neg hle).symm
      have htotal : ∀ total ∈ (cellRow cell rows c).sumSum, total =
          columnTotal DerivedRow.sumDelta (rows'.filter fun d => d.countDelta.isSome) +
            columnTotal DerivedRow.sumDelta (rows'.filter fun d => d.countDelta.isNone) := by
        intro total hmem'
        rw [columnTotal_split]
        by_cases hany : ∃ d ∈ rows', d.sumDelta.isSome = true
        · rw [hsum, foldNull_map_eq_some hany] at hmem'
          exact (Option.some.inj hmem').symm
        · rw [hsum, foldNull_map_eq_none hany] at hmem'
          cases hmem'
      have hany : (cellRow cell rows c).sumSum.isSome = true ↔
          ∃ d ∈ rows', d.sumDelta.isSome = true := by
        by_cases hany : ∃ d ∈ rows', d.sumDelta.isSome = true
        · rw [hsum, foldNull_map_eq_some hany]
          exact iff_of_true rfl hany
        · rw [hsum, foldNull_map_eq_none hany]
          exact iff_of_false Bool.false_ne_true hany
      have hnonneg : ∀ p : DerivedRow K → Bool,
          0 ≤ columnTotal DerivedRow.countDelta (rows'.filter p) :=
        fun p => columnTotal_count_nonneg fun d hd => hcounts' d (List.mem_filter.mp hd).1
      rw [hpoint, shownValue_distribution htype' hdistribution hcounts',
        ← columnTotal_split DerivedRow.countDelta DerivedRow.sumDelta]
      refine (mean_eq_iff (hnonneg _) (hnonneg _) htotal).trans ?_
      rw [hany]
      exact ⟨fun h _ => h, fun h => h hdistribution⟩

end Cell

/-- Where every point has a count, a point without a sum must not count, or the sums must
cancel. -/
theorem meansAgree_iff
    {rows : List (DerivedRow K)}
    (hcounts : ∀ d ∈ rows, ∃ count, d.countDelta = some count ∧ 0 ≤ count) :
    MeansAgree rows ↔
      (∀ d ∈ rows, d.sumDelta = none → d.countDelta = some 0) ∨
      (∃ d ∈ rows, d.sumDelta.isSome = true) ∧ columnTotal DerivedRow.sumDelta rows = 0 := by
  have hall : rows.filter (fun d => d.countDelta.isSome) = rows := by
    refine List.filter_eq_self.mpr fun d hd => ?_
    obtain ⟨count, hcount, -⟩ := hcounts d hd
    rw [hcount]
    rfl
  have hnone : rows.filter (fun d => d.countDelta.isNone) = [] := by
    refine List.filter_eq_nil_iff.mpr fun d hd => ?_
    obtain ⟨count, hcount, -⟩ := hcounts d hd
    rw [hcount]
    exact Bool.false_ne_true
  have hnonneg : ∀ d ∈ rows, ∀ count ∈ d.countDelta, 0 ≤ count := by
    intro d hd count hmem
    obtain ⟨count', hcount, hle⟩ := hcounts d hd
    rw [hcount] at hmem
    exact Option.some.inj hmem ▸ hle
  have halone : columnTotal DerivedRow.countDelta (rows.filter fun d => d.sumDelta.isNone) = 0 ↔
      ∀ d ∈ rows, d.sumDelta = none → d.countDelta = some 0 := by
    constructor
    · intro h d hd hsum
      obtain ⟨count, hcount, -⟩ := hcounts d hd
      have hmem : count ∈ (rows.filter fun d => d.sumDelta.isNone).filterMap
          DerivedRow.countDelta :=
        List.mem_filterMap.mpr ⟨d, List.mem_filter.mpr ⟨hd, by rw [hsum]; rfl⟩, hcount⟩
      rw [hcount, List.all_zero_of_le_zero_le_of_sum_eq_zero (fun x hx => ?_) h hmem]
      obtain ⟨d', hd', hx⟩ := List.mem_filterMap.mp hx
      exact hnonneg d' (List.mem_filter.mp hd').1 x hx
    · intro h
      refine List.sum_eq_zero fun x hx => ?_
      obtain ⟨d, hd, hx⟩ := List.mem_filterMap.mp hx
      obtain ⟨hd, hsum⟩ := List.mem_filter.mp hd
      rw [h d hd (Option.isNone_iff_eq_none.mp hsum)] at hx
      exact (Option.some.inj hx).symm
  have hpaired : 0 ≤ columnTotal DerivedRow.countDelta
      (rows.filter fun d => d.sumDelta.isSome) :=
    columnTotal_count_nonneg fun d hd => hnonneg d (List.mem_filter.mp hd).1
  have halone0 : 0 ≤ columnTotal DerivedRow.countDelta
      (rows.filter fun d => d.sumDelta.isNone) :=
    columnTotal_count_nonneg fun d hd => hnonneg d (List.mem_filter.mp hd).1
  have hany : columnTotal DerivedRow.countDelta (rows.filter fun d => d.sumDelta.isSome) ≠ 0 →
      ∃ d ∈ rows, d.sumDelta.isSome = true := by
    intro hne
    by_contra hno
    refine hne ?_
    rw [List.filter_eq_nil_iff.mpr fun d hd hsum => hno ⟨d, hd, hsum⟩]
    rfl
  have hzero : columnTotal DerivedRow.sumDelta ([] : List (DerivedRow K)) = 0 := rfl
  rw [MeansAgree, hall, hnone, hzero, add_zero, zero_mul, ← halone]
  constructor
  · rintro (htotal | ⟨hsome, hmean⟩)
    · exact Or.inl ((add_eq_zero_iff_of_nonneg hpaired halone0).mp htotal).2
    · split at hmean
      · exact Or.inr ⟨hsome, hmean⟩
      · rcases mul_eq_zero.mp hmean.symm with hsum | hcount
        · exact Or.inr ⟨hsome, hsum⟩
        · exact Or.inl hcount
  · rintro (hcount | ⟨hsome, hsum⟩)
    · rw [hcount, add_zero, mul_zero]
      by_cases hne : columnTotal DerivedRow.countDelta
          (rows.filter fun d => d.sumDelta.isSome) = 0
      · exact Or.inl hne
      · exact Or.inr ⟨hany hne, by rw [if_neg hne]⟩
    · rw [hsum, zero_mul, ite_self]
      exact Or.inr ⟨hsome, rfl⟩

/-- The browser shows a value for the points of a bucket, and the server one for the rows of a
cell.  With the same points in both, the values are the same but for a distribution where the
means of what has a count and a sum and of everything differ. -/
theorem chartBucket_eq_iff
    {rows : List (DerivedRow K)} {metricType : String}
    (htype : ∀ d ∈ rows, d.metricType = metricType)
    (hmetric : metricType = "Gauge" ∨ metricType = "Sum" ∨ isDistributionType metricType = true)
    (hcounts : ∀ d ∈ rows, ∀ count ∈ d.countDelta, 0 ≤ count)
    {cell : DerivedRow K → Time × List String} {c : Time × List String}
    {points : List (DataPoint K)} {seconds : Int} {epochNs : Time}
    (hne : bucketPoints points (seconds * second) epochNs ≠ [])
    (hsame : (bucketPoints points (seconds * second) epochNs).Perm
      (browserPoints (rows.filter fun d => cell d = c))) :
    ∃ value r,
      (∀ window, ⟨chartTime window epochNs, value⟩ ∈
        bucketRawMetricPoints (exactOps K) points metricType window seconds) ∧
      (chartBuckets (exactOps K) points metricType (seconds * second)).filter
        (fun bucket => bucket.1 = epochNs) = [(epochNs, value)] ∧
      (aggregated (exactOps K) (perSeriesBucket (exactOps K) cell rows)).filter
        (fun r => (r.bucket, r.groupValues) = c) = [r] ∧
      ((r.point (exactOps K)).value = some value ↔
        (isDistributionType metricType = true →
          MeansAgree (rows.filter fun d => cell d = c))) := by
  have hne' : browserPoints (rows.filter fun d => cell d = c) ≠ [] := by
    intro hnil
    rw [hnil] at hsame
    exact hne (List.perm_nil.mp hsame)
  have htype' : ∀ d ∈ rows.filter (fun d => cell d = c), d.metricType = metricType :=
    fun d hd => htype d (List.mem_filter.mp hd).1
  obtain ⟨d, hd, -⟩ := column_of_browserPoints htype' hne'
  have hmem : ∃ d ∈ rows, cell d = c :=
    ⟨d, (List.mem_filter.mp hd).1, of_decide_eq_true (List.mem_filter.mp hd).2⟩
  obtain ⟨hhaving, hvalue⟩ := value_cellRow_iff htype hmetric hcounts hne'
  have hchart := chartBuckets_eq (exactOps K) metricType hne
  rw [bucketValue_exact, shownValue_perm hsame] at hchart
  refine ⟨_, _, fun window => ?_, hchart, aggregated_cell hmem hhaving, hvalue⟩
  have hpoints : points ≠ [] := by
    rintro rfl
    exact hne rfl
  have hbucket := List.mem_of_mem_filter (hchart ▸ List.mem_singleton_self _)
  rw [bucketRawMetricPoints, if_neg hpoints]
  exact List.mem_map.mpr ⟨_, hbucket, rfl⟩

end Exact

/-! ### A histogram with a point that lacks a sum -/

def deltaPoint (id : UUID) (ts : Time) (count : ℚ) (sum : Option ℚ) : PointRow ℚ where
  requestIndex := 0
  id := id
  seriesKey := 7
  ts := ts
  value := none
  count := some count
  sum := sum
  min := none
  max := none
  metricType := "Histogram"
  temporality := "delta"
  isMonotonic := false
  attributes := .empty

/-- Two measurements of 10 in all, and three without a sum. -/
def missingSum : List (DerivedRow ℚ) :=
  derivedRows (exactOps ℚ) [deltaPoint 1 0 2 (some 10), deltaPoint 2 1 3 none]

/-- The same with both sums. -/
def bothSums : List (DerivedRow ℚ) :=
  derivedRows (exactOps ℚ) [deltaPoint 1 0 2 (some 10), deltaPoint 2 1 3 (some 30)]

/-- The browser shows 10 / 2, the server 10 / 5. -/
theorem chartBucket_missingSum :
    chartBuckets (exactOps ℚ) (browserPoints missingSum) "Histogram" second = [(0, 5)] ∧
      (aggregated (exactOps ℚ) (perSeriesBucket (exactOps ℚ)
        (DerivedRow.cell sampleJson ["region"] 1) missingSum)).map
          (fun r => (r.bucket, (r.point (exactOps ℚ)).value)) = [(0, some 2)] := by
  decide +kernel

theorem chartBucket_eq_iff_bothSums :
    ∃ value r,
      (chartBuckets (exactOps ℚ) (browserPoints bothSums) "Histogram" (1 * second)).filter
        (fun bucket => bucket.1 = 0) = [(0, value)] ∧
      (aggregated (exactOps ℚ) (perSeriesBucket (exactOps ℚ)
        (DerivedRow.cell sampleJson ["region"] 1) bothSums)).filter
          (fun r => (r.bucket, r.groupValues) = (0, [""])) = [r] ∧
      (r.point (exactOps ℚ)).value = some value := by
  have htype : ∀ d ∈ bothSums, d.metricType = "Histogram" := by
    decide +kernel
  have hnonneg : ∀ d ∈ bothSums, ∀ count ∈ d.countDelta, 0 ≤ count := by
    decide +kernel
  have hagree : MeansAgree (bothSums.filter fun d =>
      DerivedRow.cell sampleJson ["region"] 1 d = (0, [""])) := by
    unfold MeansAgree
    decide +kernel
  have hne : bucketPoints (browserPoints bothSums) (1 * second) 0 ≠ [] := by
    decide +kernel
  have hsame : (bucketPoints (browserPoints bothSums) (1 * second) 0).Perm
      (browserPoints (bothSums.filter fun d =>
        DerivedRow.cell sampleJson ["region"] 1 d = (0, [""]))) :=
    List.Perm.of_eq rfl
  obtain ⟨value, r, -, hbrowser, hserver, hiff⟩ :=
    chartBucket_eq_iff htype (Or.inr (Or.inr (by decide))) hnonneg hne hsame
  exact ⟨value, r, hbrowser, hserver, hiff.mpr fun _ => hagree⟩

end Frontend
end Otelop
