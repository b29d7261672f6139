import Mathlib.Tactic
import Otelop.Lib.Previous
import Otelop.Storage.MetricPoints

/-!
# Statistics of a histogram

`internal/storage/query_metric_distribution.go` reads the raw points of a window
with the point before it, series after series, derives what each point adds and
sums it up per breakdown group.  The chart of the same window shows what
`metricDerivedFormula` derives from the same points.

The two disagree at a point whose bucket layout is not that of the point before
it, which the statistics leave out, and at a point the statistics take for the
start of a new run while its count went on, which they count from zero.

Counts are exact.  `ops` holds the arithmetic of a `DOUBLE`, about which nothing
is assumed but that it is exact on counts; `json` stands for the JSON functions
of DuckDB and of Go.  The percentiles are left out.

**Results.**
* `addedCount_front`: what a point adds depends on the point of its series in front of it.
* `stats_count`: the count of a breakdown group.
* `chartCount_eq`: what the chart shows of that group.
* `stats_count_iff`: when the two agree.
-/

namespace Otelop
namespace Storage

open Lib

/-- The arithmetic of the buckets. -/
structure BucketOps (V : Type) extends DoubleOps V where
  negInf : V
  posInf : V
  isNegInf : V → Bool
  isPosInf : V → Bool
  min : V → V → V
  max : V → V → V
  neg : V → V
  /-- `math.Pow(2, math.Pow(2, -scale))` -/
  base : Int → V
  /-- `math.Pow(base, index)` -/
  pow : V → Int → V

/-- Reading and writing JSON texts. -/
structure JsonFunctions where
  /-- `attrs_json::JSON->>key` -/
  text : Attributes → String → Option String
  /-- `json.Marshal` of the group values -/
  marshalValues : List String → String
  /-- `json.Marshal` of an attribute map -/
  marshalAttributes : Attributes → String

/-- A row of the `points` CTE of `metricDistributionPointsQuery`. -/
structure DistributionRow (V : Type) where
  point : StoredPoint V
  series : StoredSeries
  inWindow : Bool

structure HistogramPoint (V : Type) where
  seriesKey : UInt64
  inWindow : Bool
  temporality : String
  startTS : Option Time
  count : Option Nat
  sum : Option V
  min : Option V
  max : Option V
  layoutHash : Option UInt64
  kind : String
  bounds : List V
  scale : Option Int
  zeroThreshold : Option V
  bucketCounts : List Nat
  zeroCount : Option Nat
  positiveOffset : Option Int
  negativeOffset : Option Int
  positiveCounts : List Nat
  negativeCounts : List Nat
  groupValues : List String
  groupAttributes : Attributes

structure DistributionBucket (V : Type) where
  low : V
  high : V
  count : Nat
  logarithmic : Bool

structure DistributionAccumulator (V : Type) where
  buckets : List (DistributionBucket V)
  totalCount : Nat
  totalSum : V
  sumComplete : Bool
  minValue : Option V
  maxValue : Option V

/-- `DistributionStats` without the percentiles. -/
structure DistributionStats (V : Type) where
  count : Nat
  mean : Option V
  min : Option V
  max : Option V

structure DistributionStatsSeries (V : Type) where
  groupValues : List String
  attributes : Attributes
  stats : DistributionStats V

section Distribution

variable {V : Type}

/-! ### The query -/

/-- `metric_type IN ('Histogram', 'ExponentialHistogram')` -/
def isHistogramType (metricType : String) : Bool :=
  metricType = "Histogram" || metricType = "ExponentialHistogram"

/-- The points of `target_series`. -/
def Db.histogramRows (db : Db V) (serviceName metricName : String) : List (DistributionRow V) :=
  db.metricPoints.filterMap fun p =>
    (db.metricSeries.find? p.row.seriesKey).bind fun s =>
      if s.row.serviceName = serviceName && s.row.metricName = metricName &&
          isHistogramType s.row.metricType then
        some ⟨p, s, true⟩
      else none

def DistributionRow.seriesKey (r : DistributionRow V) : UInt64 := r.point.row.seriesKey

def DistributionRow.ts (r : DistributionRow V) : Time := r.point.row.ts

def DistributionRow.id (r : DistributionRow V) : UUID := r.point.row.id

/-- `ORDER BY p.ts, p.id` -/
def rowBefore : DistributionRow V → DistributionRow V → Bool :=
  lexBefore DistributionRow.ts DistributionRow.id

/-- `window_points` -/
def windowRows (rows : List (DistributionRow V)) (fromTs toTs : Time) :
    List (DistributionRow V) :=
  rows.filter fun r => decide (fromTs ≤ r.ts) && decide (r.ts < toTs)

/-- `predecessor_points` -/
def predecessorRows (rows : List (DistributionRow V)) (fromTs toTs : Time) :
    List (DistributionRow V) :=
  ((windowRows rows fromTs toTs).map DistributionRow.seriesKey).dedup.filterMap fun key =>
    (firstBy (fun a b => rowBefore b a)
      (rows.filter fun r => r.seriesKey = key && decide (r.ts < fromTs))).map
        fun r => { r with inWindow := false }

/-- Where a row stands in `ORDER BY p.series_key, p.ts, p.id`. -/
def DistributionRow.position (r : DistributionRow V) : ℕ ×ₗ Time ×ₗ UUID :=
  toLex (r.seriesKey.toNat, toLex (r.ts, r.id))

def orderRows (rows : List (DistributionRow V)) : List (DistributionRow V) :=
  rows.insertionSort fun a b => a.position ≤ b.position

def Db.distributionRows (db : Db V) (serviceName metricName : String) (fromTs toTs : Time) :
    List (DistributionRow V) :=
  let rows := db.histogramRows serviceName metricName
  orderRows (windowRows rows fromTs toTs ++ predecessorRows rows fromTs toTs)

/-- The columns `coalesce(attrs_json::JSON->>key, '')`. -/
def groupTexts (json : JsonFunctions) (groupBy : Option (List String)) (attributes : Attributes) :
    List String :=
  (groupBy.getD []).map fun key => (json.text attributes key).getD ""

/-- `scanHistogramPoint`, with the columns of the joined layout.  Without `groupBy` a
point is grouped by all its attributes. -/
def Db.scanHistogramPoint (db : Db V) (json : JsonFunctions) (groupBy : Option (List String))
    (r : DistributionRow V) : HistogramPoint V :=
  let layout := r.point.row.histogramLayoutHash.bind fun hash => db.histogramLayouts.find? hash
  { seriesKey := r.point.row.seriesKey
    inWindow := r.inWindow
    temporality := r.series.row.temporality
    startTS := r.point.row.startTS
    count := r.point.row.count
    sum := r.point.row.sum
    min := r.point.row.min
    max := r.point.row.max
    layoutHash := r.point.row.histogramLayoutHash
    kind := (layout.map HistogramLayoutRow.kind).getD ""
    bounds := (layout.map HistogramLayoutRow.explicitBounds).getD []
    scale := layout.bind HistogramLayoutRow.scale
    zeroThreshold := layout.bind HistogramLayoutRow.zeroThreshold
    bucketCounts := r.point.row.bucketCounts
    zeroCount := r.point.row.zeroCount
    positiveOffset := r.point.row.positiveOffset
    negativeOffset := r.point.row.negativeOffset
    positiveCounts := r.point.row.positiveBucketCounts
    negativeCounts := r.point.row.negativeBucketCounts
    groupValues := groupTexts json groupBy r.series.row.attributes
    groupAttributes := r.series.row.attributes }

/-! ### What a point adds -/

def pointCounts (p : HistogramPoint V) : List Nat :=
  if p.kind = "explicit" then p.bucketCounts
  else p.negativeCounts ++ [p.zeroCount.getD 0] ++ p.positiveCounts

def subtractCounts : List Nat → List Nat → Option (List Nat)
  | [], [] => some []
  | c :: current, p :: previous =>
      if c < p then none else (subtractCounts current previous).map ((c - p) :: ·)
  | _, _ => none

def subtractNullableUint64 (current previous : Option Nat) : Option Nat :=
  match current, previous with
  | some c, some p => if c < p then none else some (c - p)
  | _, _ => none

def subtractNullable (ops : DoubleOps V) (current previous : Option V) : Option V :=
  match current, previous with
  | some c, some p => some (ops.sub c p)
  | _, _ => none

/-- `!point.layoutHash.Valid || !previous.layoutHash.Valid ||
point.layoutHash.V != previous.layoutHash.V` -/
def layoutChanged (point previous : HistogramPoint V) : Bool :=
  point.layoutHash.isNone || previous.layoutHash.isNone ||
    decide (point.layoutHash ≠ previous.layoutHash)

/-- Both start times are known and differ. -/
def startMoved (point previous : HistogramPoint V) : Bool :=
  point.startTS.isSome && previous.startTS.isSome && decide (point.startTS ≠ previous.startTS)

/-- Both counts are known and the count went down. -/
def countFell : Option Nat → Option Nat → Bool
  | some current, some previous => decide (current < previous)
  | _, _ => false

/-- The part of `add` up to the totals: the bucket counts, the count and the sum a point
adds, or nothing where `add` returns at once. -/
def pointDelta (ops : DoubleOps V) (point : HistogramPoint V)
    (previous : Option (HistogramPoint V)) (counts : List Nat) :
    Option (List Nat × Option Nat × Option V) :=
  if point.temporality = "cumulative" then
    match previous with
    | none => none
    | some previous =>
        if previous.seriesKey ≠ point.seriesKey || layoutChanged point previous then none
        else if startMoved point previous || countFell point.count previous.count then
          some (counts, point.count, point.sum)
        else
          match subtractCounts counts (pointCounts previous) with
          | none => some (pointCounts point, point.count, point.sum)
          | some delta =>
              some (delta, subtractNullableUint64 point.count previous.count,
                subtractNullable ops point.sum previous.sum)
  else some (counts, point.count, point.sum)

/-- `minPointer` -/
def minPointer (ops : DoubleOps V) (current candidate : Option V) : Option V :=
  match current, candidate with
  | _, none => current
  | none, some v => some v
  | some c, some v => if ops.lt v c then some v else some c

/-- `maxPointer` -/
def maxPointer (ops : DoubleOps V) (current candidate : Option V) : Option V :=
  match current, candidate with
  | _, none => current
  | none, some v => some v
  | some c, some v => if ops.lt c v then some v else some c

/-- The bucket of index `i` of an explicit histogram. -/
def explicitBucket (ops : BucketOps V) (p : HistogramPoint V) (count : Nat) (i : Nat) :
    DistributionBucket V :=
  let low := if i = 0 then ops.negInf else p.bounds.getD (i - 1) ops.negInf
  let high := p.bounds.getD i ops.posInf
  let low := if ops.isNegInf low then p.min.getD (ops.min ops.zero high) else low
  let high := if ops.isPosInf high then p.max.getD (ops.max ops.zero low) else high
  ⟨low, high, count, false⟩

/-- The buckets that hold something, by their index. -/
def nonemptyBuckets (bucket : Nat → Nat → DistributionBucket V) (counts : List Nat) :
    List (DistributionBucket V) :=
  counts.zipIdx.filterMap fun c => if c.1 = 0 then none else some (bucket c.1 c.2)

def bucketsForPoint (ops : BucketOps V) (p : HistogramPoint V) (counts : List Nat) :
    List (DistributionBucket V) :=
  if p.kind = "explicit" then
    if counts.length = p.bounds.length + 1 then nonemptyBuckets (explicitBucket ops p) counts
    else []
  else if p.kind ≠ "exponential" then []
  else
    match p.scale with
    | none => []
    | some scale =>
        let negativeLen := p.negativeCounts.length
        if counts.length = negativeLen + 1 + p.positiveCounts.length then
          let base := ops.base scale
          let threshold := p.zeroThreshold.getD ops.zero
          let negative (count i : Nat) : DistributionBucket V :=
            let index := p.negativeOffset.getD 0 + i
            ⟨ops.neg (ops.pow base (index + 1)), ops.neg (ops.pow base index), count, true⟩
          let zero (count _i : Nat) : DistributionBucket V :=
            ⟨ops.neg threshold, threshold, count, false⟩
          let positive (count i : Nat) : DistributionBucket V :=
            let index := p.positiveOffset.getD 0 + i
            ⟨ops.pow base index, ops.pow base (index + 1), count, true⟩
          nonemptyBuckets negative (counts.take negativeLen) ++
            nonemptyBuckets zero ((counts.drop negativeLen).take 1) ++
            nonemptyBuckets positive (counts.drop (negativeLen + 1))
        else []

def newDistributionAccumulator (ops : BucketOps V) : DistributionAccumulator V :=
  ⟨[], 0, ops.zero, true, none, none⟩

def DistributionAccumulator.add (a : DistributionAccumulator V) (ops : BucketOps V)
    (point : HistogramPoint V) (previous : Option (HistogramPoint V)) (counts : List Nat) :
    DistributionAccumulator V :=
  match pointDelta ops.toDoubleOps point previous counts with
  | none => a
  | some (counts, count, sum) =>
      { buckets := a.buckets ++ bucketsForPoint ops point counts
        totalCount := a.totalCount + count.getD 0
        totalSum :=
          match sum with
          | some sum => ops.add a.totalSum sum
          | none => a.totalSum
        sumComplete := a.sumComplete && sum.isSome
        minValue := minPointer ops.toDoubleOps a.minValue point.min
        maxValue := maxPointer ops.toDoubleOps a.maxValue point.max }

def DistributionAccumulator.stats (a : DistributionAccumulator V) (ops : BucketOps V) :
    Option (DistributionStats V) :=
  if a.totalCount = 0 || a.buckets.isEmpty then none
  else some {
    count := a.totalCount
    mean := if a.sumComplete then some (ops.div a.totalSum (ops.ofInt a.totalCount)) else none
    min := a.minValue
    max := a.maxValue }

/-! ### Breakdown groups -/

/-- An entry of `accumulators`, `valuesByKey` and `attributesByKey`. -/
structure GroupEntry (V : Type) where
  key : String
  accumulator : DistributionAccumulator V
  groupValues : List String
  attributes : Attributes

/-- The groups, by their key. -/
abbrev Accumulators (V : Type) := KeyedTable String (GroupEntry V) GroupEntry.key

/-- `json.Marshal` of the identity of the group. -/
def groupKey (json : JsonFunctions) (groupBy : Option (List String)) (groupValues : List String)
    (attributes : Attributes) : String :=
  match groupBy with
  | none => json.marshalAttributes attributes
  | some _ => json.marshalValues groupValues

def HistogramPoint.groupKey (p : HistogramPoint V) (json : JsonFunctions)
    (groupBy : Option (List String)) : String :=
  Storage.groupKey json groupBy p.groupValues p.groupAttributes

/-- The entry of a key, made when there is none. -/
def Accumulators.entry (groups : Accumulators V) (ops : BucketOps V) (key : String)
    (point : HistogramPoint V) : GroupEntry V :=
  (groups.find? key).getD
    ⟨key, newDistributionAccumulator ops, point.groupValues, point.groupAttributes⟩

/-- One round of the loop over the rows. -/
def distributionStep (ops : BucketOps V) (json : JsonFunctions) (groupBy : Option (List String))
    (state : Option (HistogramPoint V) × Accumulators V) (point : HistogramPoint V) :
    Option (HistogramPoint V) × Accumulators V :=
  if point.inWindow then
    let entry := state.2.entry ops (point.groupKey json groupBy) point
    (some point, state.2.upsert
      { entry with accumulator := entry.accumulator.add ops point state.1 (pointCounts point) })
  else (some point, state.2)

/-- The groups that have statistics. -/
def Accumulators.result (groups : Accumulators V) (ops : BucketOps V) :
    List (DistributionStatsSeries V) :=
  groups.rows.filterMap fun g =>
    (g.accumulator.stats ops).map fun stats => ⟨g.groupValues, g.attributes, stats⟩

/-- The text the result is sorted by. -/
def DistributionStatsSeries.sortText (json : JsonFunctions) (groupBy : Option (List String))
    (s : DistributionStatsSeries V) : String :=
  match groupBy with
  | none => json.marshalAttributes s.attributes
  | some _ => "\x00".intercalate s.groupValues

def Db.metricDistributionStats (db : Db V) (ops : BucketOps V) (json : JsonFunctions)
    (serviceName metricName : String) (groupBy : Option (List String)) (fromTs toTs : Time) :
    List (DistributionStatsSeries V) :=
  let points := (db.distributionRows serviceName metricName fromTs toTs).map
    (db.scanHistogramPoint json groupBy)
  let groups := (points.foldl (distributionStep ops json groupBy) (none, .empty)).2
  (groups.result ops).insertionSort fun a b =>
    a.sortText json groupBy ≤ b.sortText json groupBy

/-! ### What a point adds, by the point before it -/

/-- What `lag` derives from two counts. -/
def derivedCount : Option Nat → Option Nat → Nat
  | some current, some previous => if current < previous then current else current - previous
  | _, _ => 0

/-- What `add` adds to the count of its group. -/
def addedCount (ops : DoubleOps V) (point : HistogramPoint V)
    (previous : Option (HistogramPoint V)) : Nat :=
  match pointDelta ops point previous (pointCounts point) with
  | none => 0
  | some delta => delta.2.1.getD 0

/-- What the chart shows for a point. -/
def chartDelta (point : HistogramPoint V) (previous : Option (HistogramPoint V)) : Nat :=
  if point.temporality = "cumulative" then
    derivedCount point.count (previous.bind HistogramPoint.count)
  else point.count.getD 0

/-- What counting from zero adds to what `lag` derives. -/
def restartedCount : Option Nat → Option Nat → Nat
  | some current, some previous => if current < previous then 0 else previous
  | some current, none => current
  | none, _ => 0

/-- The observations of a point that are left out because its layout is a new one. -/
def missedCount (point : HistogramPoint V) : Option (HistogramPoint V) → Nat
  | none => 0
  | some previous =>
      if point.temporality = "cumulative" && layoutChanged point previous then
        derivedCount point.count previous.count
      else 0

/-- The observations counted once more where the statistics start a new run and
the count went on: the start time moved, or the bucket counts cannot be subtracted. -/
def repeatedCount (point : HistogramPoint V) : Option (HistogramPoint V) → Nat
  | none => 0
  | some previous =>
      if point.temporality = "cumulative" && !layoutChanged point previous &&
          (startMoved point previous ||
            (subtractCounts (pointCounts point) (pointCounts previous)).isNone) then
        restartedCount point.count previous.count
      else 0

/-- A point of the layout of the point before it. -/
theorem addedCount_sameLayout
    (ops : DoubleOps V) {point q : HistogramPoint V}
    (hcumulative : point.temporality = "cumulative")
    (hseries : q.seriesKey = point.seriesKey)
    (hlayout : layoutChanged point q = false) :
    addedCount ops point (some q) =
      if startMoved point q || countFell point.count q.count ||
          (subtractCounts (pointCounts point) (pointCounts q)).isNone then
        point.count.getD 0
      else (subtractNullableUint64 point.count q.count).getD 0 := by
  rw [addedCount, pointDelta, if_pos hcumulative]
  simp only [hseries, hlayout, ne_eq, not_true_eq_false, decide_false, Bool.or_false,
    Bool.false_eq_true, if_false]
  cases hmoved : startMoved point q || countFell point.count q.count with
  | true =>
      simp
  | false =>
      cases subtractCounts (pointCounts point) (pointCounts q) with
      | none => simp
      | some delta => simp

/-- Counting from zero, and counting on. -/
theorem restart_or_continue
    (current previous : Option Nat) (moved regrouped : Bool) :
    (if moved || countFell current previous || regrouped then current.getD 0
      else (subtractNullableUint64 current previous).getD 0) =
    derivedCount current previous +
      if moved || regrouped then restartedCount current previous else 0 := by
  cases current with
  | none =>
      simp [derivedCount, subtractNullableUint64, restartedCount]
  | some c =>
      cases previous with
      | none =>
          simp [derivedCount, subtractNullableUint64, restartedCount, countFell]
      | some p =>
          by_cases hfell : c < p
          · simp [derivedCount, restartedCount, countFell, hfell]
          · -- The count went on, so only a new start or the buckets decide.
            simp only [derivedCount, subtractNullableUint64, restartedCount, countFell, hfell,
              if_false, decide_false, Bool.or_false, Option.getD_some]
            split <;> omega

/-- The two ways of counting differ by what is missed and what is repeated. -/
theorem addedCount_add_missedCount
    (ops : DoubleOps V) (point : HistogramPoint V) (previous : Option (HistogramPoint V))
    (hseries : ∀ q ∈ previous, q.seriesKey = point.seriesKey) :
    addedCount ops point previous + missedCount point previous =
      chartDelta point previous + repeatedCount point previous := by
  by_cases hcumulative : point.temporality = "cumulative"
  · cases previous with
    | none =>
        simp [addedCount, pointDelta, missedCount, chartDelta, repeatedCount, derivedCount,
          hcumulative]
    | some q =>
        cases hlayout : layoutChanged point q with
        | true =>
            simp [addedCount, pointDelta, missedCount, chartDelta, repeatedCount,
              hcumulative, hlayout]
        | false =>
            rw [addedCount_sameLayout ops hcumulative (hseries q rfl) hlayout, missedCount,
              chartDelta, repeatedCount, if_pos hcumulative, Option.bind_some]
            simp only [hcumulative, hlayout, decide_true, Bool.true_and, Bool.not_false,
              Bool.false_eq_true, if_false, Nat.add_zero]
            exact restart_or_continue _ _ _ _
  · cases previous with
    | none =>
        simp [addedCount, pointDelta, missedCount, chartDelta, repeatedCount, hcumulative]
    | some q =>
        simp [addedCount, pointDelta, missedCount, chartDelta, repeatedCount, hcumulative]

/-! ### The loop over the rows -/

theorem totalCount_add
    (a : DistributionAccumulator V) (ops : BucketOps V) (point : HistogramPoint V)
    (previous : Option (HistogramPoint V)) :
    (a.add ops point previous (pointCounts point)).totalCount =
      a.totalCount + addedCount ops.toDoubleOps point previous := by
  rw [DistributionAccumulator.add, addedCount]
  cases pointDelta ops.toDoubleOps point previous (pointCounts point) with
  | none => rfl
  | some delta => rfl

/-- The count summed up for a key. -/
def totalCount (groups : Accumulators V) (key : String) : Nat :=
  ((groups.find? key).map fun g => g.accumulator.totalCount).getD 0

/-- What a row adds to the count of a key. -/
def countedFor (ops : BucketOps V) (json : JsonFunctions) (groupBy : Option (List String))
    (key : String) (previous : Option (HistogramPoint V)) (point : HistogramPoint V) : Nat :=
  if point.inWindow && decide (point.groupKey json groupBy = key) then
    addedCount ops.toDoubleOps point previous
  else 0

theorem key_entry
    (groups : Accumulators V) (ops : BucketOps V) (key : String) (point : HistogramPoint V) :
    (groups.entry ops key point).key = key := by
  rw [Accumulators.entry]
  cases hfind : groups.find? key with
  | none => rfl
  | some g => exact ((groups.find?_eq_some_iff).mp hfind).2

theorem totalCount_entry
    (groups : Accumulators V) (ops : BucketOps V) (key : String) (point : HistogramPoint V) :
    (groups.entry ops key point).accumulator.totalCount = totalCount groups key := by
  rw [Accumulators.entry, totalCount]
  cases groups.find? key with
  | none => rfl
  | some g => rfl

theorem totalCount_distributionStep
    (ops : BucketOps V) (json : JsonFunctions) (groupBy : Option (List String))
    (state : Option (HistogramPoint V) × Accumulators V) (point : HistogramPoint V)
    (key : String) :
    totalCount (distributionStep ops json groupBy state point).2 key =
      totalCount state.2 key + countedFor ops json groupBy key state.1 point := by
  rw [distributionStep, countedFor]
  cases hwindow : point.inWindow with
  | false =>
      simp
  | true =>
      simp only [if_true, Bool.true_and]
      rw [totalCount, KeyedTable.find?_upsert, key_entry]
      by_cases hkey : point.groupKey json groupBy = key
      · rw [if_pos hkey, decide_eq_true hkey, if_pos rfl, Option.map_some, Option.getD_some,
          totalCount_add, totalCount_entry, hkey]
      · rw [if_neg hkey, decide_eq_false hkey, if_neg Bool.false_ne_true, Nat.add_zero, totalCount]

/-- What the loop sums up for a key, row by row with the row in front. -/
theorem totalCount_foldl
    (ops : BucketOps V) (json : JsonFunctions) (groupBy : Option (List String))
    (points : List (HistogramPoint V))
    (state : Option (HistogramPoint V) × Accumulators V) (key : String) :
    totalCount (points.foldl (distributionStep ops json groupBy) state).2 key =
      totalCount state.2 key +
        ((withPrevious state.1 points).map fun p =>
          countedFor ops json groupBy key p.1 p.2).sum := by
  induction points generalizing state with
  | nil =>
      simp [withPrevious]
  | cons point points ih =>
      have hprevious : (distributionStep ops json groupBy state point).1 = some point := by
        rw [distributionStep]
        split <;> rfl
      rw [List.foldl_cons, ih, totalCount_distributionStep, hprevious, withPrevious,
        List.map_cons, List.sum_cons, Nat.add_assoc]

/-- An entry carries the identity its key was made from. -/
def Accumulators.Labelled (groups : Accumulators V) (json : JsonFunctions)
    (groupBy : Option (List String)) : Prop :=
  ∀ g ∈ groups.rows, groupKey json groupBy g.groupValues g.attributes = g.key

theorem labelled_distributionStep
    {ops : BucketOps V} {json : JsonFunctions} {groupBy : Option (List String)}
    {state : Option (HistogramPoint V) × Accumulators V}
    (h : state.2.Labelled json groupBy) (point : HistogramPoint V) :
    (distributionStep ops json groupBy state point).2.Labelled json groupBy := by
  rw [distributionStep]
  split
  · intro g hg
    rcases KeyedTable.mem_upsert.mp hg with rfl | ⟨hg, -⟩
    · show groupKey json groupBy
          (state.2.entry ops (point.groupKey json groupBy) point).groupValues
          (state.2.entry ops (point.groupKey json groupBy) point).attributes = _
      rw [Accumulators.entry]
      cases hfind : state.2.find? (point.groupKey json groupBy) with
      | none => rfl
      | some g => exact h g ((state.2.find?_eq_some_iff).mp hfind).1
    · exact h g hg
  · exact h

theorem labelled_foldl
    {ops : BucketOps V} {json : JsonFunctions} {groupBy : Option (List String)}
    (points : List (HistogramPoint V))
    {state : Option (HistogramPoint V) × Accumulators V}
    (h : state.2.Labelled json groupBy) :
    (points.foldl (distributionStep ops json groupBy) state).2.Labelled json groupBy := by
  induction points generalizing state with
  | nil => exact h
  | cons point points ih => exact ih (labelled_distributionStep h point)

/-! ### The rows in their order -/

/-- The row of the `points` CTE of the chart for the same point. -/
def DistributionRow.pointRow (r : DistributionRow V) (ops : DoubleOps V) : PointRow V :=
  r.point.pointRow ops 0 r.series

/-- The row of a point, whichever part of the query it came from. -/
def DistributionRow.unflagged (r : DistributionRow V) : DistributionRow V :=
  { r with inWindow := true }

/-- The last row of the series before a row. -/
def previousRow (rows : List (DistributionRow V)) (r : DistributionRow V) :
    Option (DistributionRow V) :=
  firstBy (fun a b => rowBefore b a)
    (rows.filter fun q => decide (q.seriesKey = r.seriesKey) && rowBefore q r)

theorem rowBefore_strictOrder : StrictOrder (rowBefore (V := V)) :=
  lexBefore_strictOrder

theorem position_lt_iff {a b : DistributionRow V} :
    a.position < b.position ↔
      keyBefore (fun r : DistributionRow V => r.seriesKey.toNat) rowBefore a b := by
  rw [DistributionRow.position, DistributionRow.position, Prod.Lex.toLex_lt_toLex,
    Prod.Lex.toLex_lt_toLex, keyBefore, rowBefore, lexBefore_iff]

/-- Rows of distinct points are strictly ordered. -/
theorem orderRows_pairwise
    {rows : List (DistributionRow V)} (h : (rows.map DistributionRow.position).Nodup) :
    (orderRows rows).Pairwise
      (keyBefore (fun r : DistributionRow V => r.seriesKey.toNat) rowBefore) := by
  have : Std.Total fun a b : DistributionRow V => a.position ≤ b.position :=
    ⟨fun a b => le_total a.position b.position⟩
  have : IsTrans (DistributionRow V) fun a b => a.position ≤ b.position :=
    ⟨fun _ _ _ => le_trans⟩
  have hle : (orderRows rows).Pairwise fun a b => a.position ≤ b.position :=
    List.pairwise_insertionSort _ rows
  have hnodup : ((orderRows rows).map DistributionRow.position).Nodup :=
    ((List.perm_insertionSort _ rows).map _).nodup_iff.mpr h
  have hne : (orderRows rows).Pairwise fun a b => a.position ≠ b.position :=
    List.pairwise_map.mp hnodup
  exact (hle.and hne).imp fun h => position_lt_iff.mp (lt_of_le_of_ne h.1 h.2)

/-- The loop finds the last row of the series in front of a row. -/
theorem previousRow_eq_front
    {rows : List (DistributionRow V)} (h : (rows.map DistributionRow.position).Nodup)
    {p : Option (DistributionRow V) × DistributionRow V}
    (hp : p ∈ withPrevious none (orderRows rows)) :
    p.1.filter (fun q => decide (q.seriesKey = p.2.seriesKey)) =
      previousRow (orderRows rows) p.2 := by
  have hkey : ∀ q : DistributionRow V,
      decide (q.seriesKey.toNat = p.2.seriesKey.toNat) = decide (q.seriesKey = p.2.seriesKey) :=
    fun q => by simp only [UInt64.toNat_inj]
  have hfront := withPrevious_eq_firstBy rowBefore_strictOrder (orderRows_pairwise h) hp
  simp only [hkey] at hfront
  exact hfront

theorem latestBefore_pointRow
    (ops : DoubleOps V) (a b : DistributionRow V) :
    latestBefore (a.pointRow ops) (b.pointRow ops) = rowBefore b a := by
  rw [Bool.eq_iff_iff, latestBefore, rowBefore, lexBefore_iff, lexBefore_iff]
  constructor
  · rintro (h | ⟨h, hid⟩)
    · exact Or.inl h
    · exact Or.inr ⟨(congrArg OrderDual.ofDual h).symm, hid⟩
  · rintro (h | ⟨h, hid⟩)
    · exact Or.inl h
    · exact Or.inr ⟨congrArg OrderDual.toDual h.symm, hid⟩

theorem firstBy_pointRow
    (ops : DoubleOps V) (rows : List (DistributionRow V)) :
    firstBy latestBefore (rows.map fun r => r.pointRow ops) =
      (firstBy (fun a b => rowBefore b a) rows).map fun r => r.pointRow ops := by
  rw [firstBy_map]
  simp only [latestBefore_pointRow]

/-- What `lag` shows among the rows of the chart. -/
theorem lag_map_pointRow
    (ops : DoubleOps V) (rows : List (DistributionRow V)) (r : DistributionRow V) :
    lag (rows.map fun r => r.pointRow ops) (r.pointRow ops) =
      (previousRow rows r).map fun r => r.pointRow ops := by
  rw [lag, List.filter_map, firstBy_pointRow, previousRow]
  refine congrArg _ (congrArg _ (List.filter_congr fun q _ => ?_))
  have hpartition : (q.pointRow ops).samePartition (r.pointRow ops) =
      decide (q.seriesKey = r.seriesKey) := by
    rw [PointRow.samePartition]
    exact Bool.true_and _
  rw [Function.comp_apply, hpartition]
  rfl

theorem mem_histogramRows
    {db : Db V} {serviceName metricName : String} {r : DistributionRow V} :
    r ∈ db.histogramRows serviceName metricName ↔
      ∃ p ∈ db.metricPoints, ∃ s, db.metricSeries.find? p.row.seriesKey = some s ∧
        s.row.serviceName = serviceName ∧ s.row.metricName = metricName ∧
        isHistogramType s.row.metricType = true ∧ r = ⟨p, s, true⟩ := by
  rw [Db.histogramRows, List.mem_filterMap]
  constructor
  · rintro ⟨p, hp, hrow⟩
    obtain ⟨s, hs, hrow⟩ := Option.bind_eq_some_iff.mp hrow
    split at hrow
    · rename_i hgroup
      rw [Bool.and_eq_true, Bool.and_eq_true, decide_eq_true_eq, decide_eq_true_eq] at hgroup
      exact ⟨p, hp, s, hs, hgroup.1.1, hgroup.1.2, hgroup.2, (Option.some.inj hrow).symm⟩
    · cases hrow
  · rintro ⟨p, hp, s, hs, hservice, hname, htype, rfl⟩
    refine ⟨p, hp, Option.bind_eq_some_iff.mpr ⟨s, hs, ?_⟩⟩
    rw [if_pos (by simp [hservice, hname, htype])]

/-- The rows are the histogram points of the chart's group. -/
theorem map_pointRow_histogramRows
    (db : Db V) (ops : DoubleOps V) (serviceName metricName : String) :
    (db.histogramRows serviceName metricName).map (fun r => r.pointRow ops) =
      (db.groupPoints ops 0 serviceName metricName).filter fun p =>
        isHistogramType p.metricType := by
  rw [Db.histogramRows, Db.groupPoints, List.map_filterMap, List.filter_filterMap]
  refine List.filterMap_congr fun p _ => ?_
  cases db.metricSeries.find? p.row.seriesKey with
  | none =>
      rfl
  | some s =>
      rw [Option.bind_some, Option.bind_some]
      cases hgroup : s.row.serviceName = serviceName && s.row.metricName = metricName with
      | false =>
          simp
      | true =>
          have hfilter : (some (p.pointRow ops 0 s)).filter
                (fun q => isHistogramType q.metricType) =
              if isHistogramType s.row.metricType then some (p.pointRow ops 0 s) else none :=
            rfl
          rw [if_pos rfl, hfilter, Bool.true_and]
          cases isHistogramType s.row.metricType with
          | true => rfl
          | false => rfl

theorem position_pointRow
    (ops : DoubleOps V) {a b : DistributionRow V} :
    (a.pointRow ops).position = (b.pointRow ops).position ↔ a.position = b.position := by
  have hpoint : ∀ r : DistributionRow V,
      (r.pointRow ops).position = (r.seriesKey, r.ts, r.id) := fun r => rfl
  rw [hpoint, hpoint, DistributionRow.position, DistributionRow.position]
  simp [Prod.ext_iff, UInt64.toNat_inj]

theorem histogramRows_positions
    {db : Db V} (hpositions : db.pointPositions.Nodup)
    (ops : DoubleOps V) (serviceName metricName : String) :
    ((db.histogramRows serviceName metricName).map DistributionRow.position).Nodup := by
  have hpoints := groupPoints_positions hpositions ops 0 serviceName metricName
  have hrows : ((db.histogramRows serviceName metricName).map fun r =>
      (r.pointRow ops).position).Nodup := by
    have hsub : ((db.histogramRows serviceName metricName).map fun r =>
        (r.pointRow ops).position) =
      (((db.groupPoints ops 0 serviceName metricName).filter fun p =>
        isHistogramType p.metricType).map PointRow.position) := by
      rw [← map_pointRow_histogramRows db ops, List.map_map]
      rfl
    rw [hsub]
    exact hpoints.sublist (List.filter_sublist.map _)
  rw [List.Nodup, List.pairwise_map] at hrows ⊢
  exact hrows.imp fun hne heq => hne ((position_pointRow ops).mpr heq)

theorem unflagged_of_mem_histogramRows
    {db : Db V} {serviceName metricName : String} {r : DistributionRow V}
    (hr : r ∈ db.histogramRows serviceName metricName) :
    r.unflagged = r := by
  obtain ⟨p, -, s, -, -, -, -, rfl⟩ := mem_histogramRows.mp hr
  rfl

theorem mem_windowRows
    {rows : List (DistributionRow V)} {fromTs toTs : Time} {r : DistributionRow V} :
    r ∈ windowRows rows fromTs toTs ↔ r ∈ rows ∧ fromTs ≤ r.ts ∧ r.ts < toTs := by
  rw [windowRows, List.mem_filter, Bool.and_eq_true, decide_eq_true_eq, decide_eq_true_eq]

/-- A predecessor is an older row of its series, flagged. -/
theorem mem_predecessorRows
    {rows : List (DistributionRow V)} {fromTs toTs : Time} {r : DistributionRow V} :
    r ∈ predecessorRows rows fromTs toTs ↔
      ∃ w ∈ windowRows rows fromTs toTs, ∃ q,
        firstBy (fun a b => rowBefore b a)
          (rows.filter fun x => x.seriesKey = w.seriesKey && decide (x.ts < fromTs)) = some q ∧
        r = { q with inWindow := false } := by
  rw [predecessorRows, List.mem_filterMap]
  constructor
  · rintro ⟨key, hkey, hrow⟩
    obtain ⟨w, hw, rfl⟩ := List.mem_map.mp (List.mem_dedup.mp hkey)
    obtain ⟨q, hq, rfl⟩ := Option.map_eq_some_iff.mp hrow
    exact ⟨w, hw, q, hq, rfl⟩
  · rintro ⟨w, hw, q, hq, rfl⟩
    exact ⟨w.seriesKey, List.mem_dedup.mpr (List.mem_map_of_mem hw),
      Option.map_eq_some_iff.mpr ⟨q, hq, rfl⟩⟩

/-- The row a predecessor was made from. -/
theorem predecessor_source
    {rows : List (DistributionRow V)} {key : UInt64} {fromTs : Time} {q : DistributionRow V}
    (hq : firstBy (fun a b => rowBefore b a)
      (rows.filter fun x => x.seriesKey = key && decide (x.ts < fromTs)) = some q) :
    q ∈ rows ∧ q.seriesKey = key ∧ q.ts < fromTs := by
  obtain ⟨hmem, hold⟩ := List.mem_filter.mp (firstBy_mem hq)
  rw [Bool.and_eq_true, decide_eq_true_eq, decide_eq_true_eq] at hold
  exact ⟨hmem, hold⟩

/-- The rows of the query are distinct points. -/
theorem queryRows_positions
    {rows : List (DistributionRow V)} (h : (rows.map DistributionRow.position).Nodup)
    (fromTs toTs : Time) :
    ((windowRows rows fromTs toTs ++ predecessorRows rows fromTs toTs).map
      DistributionRow.position).Nodup := by
  rw [List.map_append, List.nodup_append']
  refine ⟨h.sublist (List.filter_sublist.map _), ?_, ?_⟩
  · rw [predecessorRows, List.map_filterMap]
    refine List.Nodup.filterMap ?_ (List.nodup_dedup _)
    intro key key' position hposition hposition'
    have hseries : ∀ k : UInt64, position ∈ ((firstBy (fun a b => rowBefore b a)
          (rows.filter fun r => r.seriesKey = k && decide (r.ts < fromTs))).map
            fun r => ({ r with inWindow := false } : DistributionRow V)).map
              DistributionRow.position →
        (ofLex position).1 = k.toNat := by
      intro k hk
      obtain ⟨r, hr, rfl⟩ := Option.map_eq_some_iff.mp hk
      obtain ⟨q, hq, rfl⟩ := Option.map_eq_some_iff.mp hr
      rw [← (predecessor_source hq).2.1]
      rfl
    rw [← UInt64.toNat_inj, ← hseries key hposition, hseries key' hposition']
  · intro position hwindow hold
    obtain ⟨w, hw, rfl⟩ := List.mem_map.mp hwindow
    obtain ⟨r, hr, hposition⟩ := List.mem_map.mp hold
    obtain ⟨_, _, q, hq, rfl⟩ := mem_predecessorRows.mp hr
    have hts : q.ts = w.ts :=
      congrArg (fun x => (ofLex (ofLex x).2).1) hposition
    have := (predecessor_source hq).2.2
    rw [hts] at this
    exact absurd this (not_lt.mpr (mem_windowRows.mp hw).2.1)

/-- What the query reads, in whatever order. -/
theorem distributionRows_perm
    (db : Db V) (serviceName metricName : String) (fromTs toTs : Time) :
    (db.distributionRows serviceName metricName fromTs toTs).Perm
      (windowRows (db.histogramRows serviceName metricName) fromTs toTs ++
        predecessorRows (db.histogramRows serviceName metricName) fromTs toTs) :=
  List.perm_insertionSort _ _

/-- The rows of the query hold what `lag` looks at. -/
theorem covers_distributionRows
    (db : Db V) (ops : DoubleOps V) (serviceName metricName : String) (fromTs toTs : Time) :
    Covers
      ((db.distributionRows serviceName metricName fromTs toTs).map fun r => r.pointRow ops)
      ((db.histogramRows serviceName metricName).map fun r => r.pointRow ops)
      fromTs toTs := by
  have hrows : ∀ r, r ∈ db.distributionRows serviceName metricName fromTs toTs ↔
      r ∈ windowRows (db.histogramRows serviceName metricName) fromTs toTs ∨
        r ∈ predecessorRows (db.histogramRows serviceName metricName) fromTs toTs := by
    intro r
    rw [← List.mem_append]
    exact (distributionRows_perm db serviceName metricName fromTs toTs).mem_iff
  refine ⟨?_, ?_, ?_⟩
  · intro q hq _ _ _
    obtain ⟨r, hr, rfl⟩ := List.mem_map.mp hq
    rcases (hrows r).mp hr with hr | hr
    · exact List.mem_map_of_mem (mem_windowRows.mp hr).1
    · obtain ⟨_, _, x, hx, rfl⟩ := mem_predecessorRows.mp hr
      exact List.mem_map.mpr ⟨x, (predecessor_source hx).1, rfl⟩
  · intro q hq
    obtain ⟨hmem, hwindow⟩ := mem_windowPoints.mp hq
    obtain ⟨r, hr, rfl⟩ := List.mem_map.mp hmem
    exact List.mem_map_of_mem ((hrows r).mpr (Or.inl (mem_windowRows.mpr ⟨hr, hwindow⟩)))
  · intro q hq
    obtain ⟨key, hkey, hfirst⟩ := List.mem_filterMap.mp hq
    obtain ⟨w, hw, rfl⟩ := List.mem_map.mp (List.mem_dedup.mp hkey)
    obtain ⟨hmem, hwindow⟩ := mem_windowPoints.mp (List.mem_filter.mp hw).1
    obtain ⟨r, hr, rfl⟩ := List.mem_map.mp hmem
    rw [List.filter_map, firstBy_pointRow] at hfirst
    obtain ⟨x, hx, rfl⟩ := Option.map_eq_some_iff.mp hfirst
    refine List.mem_map.mpr ⟨{ x with inWindow := false }, (hrows _).mpr (Or.inr ?_), rfl⟩
    exact mem_predecessorRows.mpr ⟨r, mem_windowRows.mpr ⟨hr, hwindow⟩, x, hx, rfl⟩

/-- Apart from the flag the query reads stored rows. -/
theorem unflagged_mem_histogramRows
    {db : Db V} {serviceName metricName : String} {fromTs toTs : Time} {r : DistributionRow V}
    (hr : r ∈ db.distributionRows serviceName metricName fromTs toTs) :
    r.unflagged ∈ db.histogramRows serviceName metricName := by
  have hrow := (distributionRows_perm db serviceName metricName fromTs toTs).mem_iff.mp hr
  rcases List.mem_append.mp hrow with hr | hr
  · have hmem := (mem_windowRows.mp hr).1
    rwa [unflagged_of_mem_histogramRows hmem]
  · obtain ⟨_, _, x, hx, rfl⟩ := mem_predecessorRows.mp hr
    have hmem := (predecessor_source hx).1
    have hx : ({ x with inWindow := false } : DistributionRow V).unflagged = x.unflagged := rfl
    rwa [hx, unflagged_of_mem_histogramRows hmem]

/-- A row of a cumulative histogram is one of those that need the row before. -/
theorem predecessorRequired_of_cumulative
    {db : Db V} {ops : DoubleOps V} {serviceName metricName : String} {r : DistributionRow V}
    (hr : r ∈ db.histogramRows serviceName metricName)
    (hcumulative : r.series.row.temporality = "cumulative") :
    (r.pointRow ops).predecessorRequired = true := by
  obtain ⟨p, -, s, -, -, -, htype, rfl⟩ := mem_histogramRows.mp hr
  have hrow : (DistributionRow.pointRow ⟨p, s, true⟩ ops).predecessorRequired =
      (decide (s.row.temporality = "cumulative") &&
        (decide (s.row.metricType = "Sum") && s.row.isMonotonic ||
          isDistributionType s.row.metricType)) := rfl
  have hdistribution : isDistributionType s.row.metricType = true := by
    rw [isHistogramType] at htype
    rw [isDistributionType, htype, Bool.true_or]
  rw [hrow, decide_eq_true hcumulative, hdistribution, Bool.or_true, Bool.and_true]

/-- The row in front of a row of the window, in the query and in the full history. -/
theorem previousRow_distributionRows
    {db : Db V} (hpositions : db.pointPositions.Nodup)
    (ops : DoubleOps V) {serviceName metricName : String} {fromTs toTs : Time}
    {r : DistributionRow V}
    (hr : r ∈ windowRows (db.histogramRows serviceName metricName) fromTs toTs)
    (hcumulative : r.series.row.temporality = "cumulative") :
    (previousRow (db.distributionRows serviceName metricName fromTs toTs) r).map
        DistributionRow.unflagged =
      previousRow (db.histogramRows serviceName metricName) r := by
  have hnodup := histogramRows_positions hpositions ops serviceName metricName
  obtain ⟨hmem, hwindow⟩ := mem_windowRows.mp hr
  have hlag : (previousRow (db.distributionRows serviceName metricName fromTs toTs) r).map
        (fun q => q.pointRow ops) =
      (previousRow (db.histogramRows serviceName metricName) r).map fun q => q.pointRow ops := by
    rw [← lag_map_pointRow, ← lag_map_pointRow]
    refine lag_eq_of_covers ?_ ?_ (covers_distributionRows db ops _ _ fromTs toTs)
      (mem_windowPoints.mpr ⟨List.mem_map_of_mem hmem, hwindow⟩)
      (predecessorRequired_of_cumulative hmem hcumulative)
    · rw [map_pointRow_histogramRows]
      exact (groupPoints_positions hpositions ops 0 serviceName metricName).sublist
        (List.filter_sublist.map _)
    · intro x hx y hy
      obtain ⟨x, -, rfl⟩ := List.mem_map.mp hx
      obtain ⟨y, -, rfl⟩ := List.mem_map.mp hy
      rfl
  cases hquery : previousRow (db.distributionRows serviceName metricName fromTs toTs) r with
  | none =>
      rw [hquery] at hlag
      exact (Option.map_eq_none_iff.mp hlag.symm).symm
  | some x =>
      rw [hquery] at hlag
      obtain ⟨y, hy, hxy⟩ := Option.map_eq_some_iff.mp hlag.symm
      have hx := unflagged_mem_histogramRows (List.mem_filter.mp (firstBy_mem hquery)).1
      have hymem := (List.mem_filter.mp (firstBy_mem hy)).1
      have hposition : y.position = x.position :=
        (position_pointRow ops).mp (congrArg PointRow.position hxy)
      rw [hy, Option.map_some,
        List.inj_on_of_nodup_map hnodup hymem hx (hposition.trans rfl)]

/-- What `lag` shows for a row of the window of the chart. -/
theorem lag_chart
    {db : Db V} (hpositions : db.pointPositions.Nodup)
    (ops : DoubleOps V) {serviceName metricName : String} {fromTs toTs : Time}
    {r : DistributionRow V}
    (hr : r ∈ windowRows (db.histogramRows serviceName metricName) fromTs toTs)
    (hcumulative : r.series.row.temporality = "cumulative") :
    lag (pointsWithPredecessors (db.groupPoints ops 0 serviceName metricName) fromTs toTs)
        (r.pointRow ops) =
      (previousRow (db.histogramRows serviceName metricName) r).map fun q => q.pointRow ops := by
  obtain ⟨hmem, hwindow⟩ := mem_windowRows.mp hr
  have hgroup : r.pointRow ops ∈ db.groupPoints ops 0 serviceName metricName := by
    have := List.mem_map_of_mem (f := fun r : DistributionRow V => r.pointRow ops) hmem
    rw [map_pointRow_histogramRows] at this
    exact (List.mem_filter.mp this).1
  rw [lag_eq_of_covers (groupPoints_positions hpositions ops 0 serviceName metricName)
      (fun x hx y hy => by
        rw [requestIndex_of_mem_groupPoints hx, requestIndex_of_mem_groupPoints hy])
      (covers_pointsWithPredecessors _ _ _) (mem_windowPoints.mpr ⟨hgroup, hwindow⟩)
      (predecessorRequired_of_cumulative hmem hcumulative),
    ← lag_map_pointRow, map_pointRow_histogramRows, lag, lag, List.filter_filter]
  refine congrArg _ (List.filter_congr fun q hq => ?_)
  cases hsame : q.samePartition (r.pointRow ops) with
  | false =>
      rw [Bool.false_and, Bool.false_and]
  | true =>
      -- Rows of one series have one type.
      obtain ⟨p, -, s, hs, -, -, rfl⟩ := mem_groupPoints.mp hq
      obtain ⟨p', -, s', hs', -, -, htype, rfl⟩ := mem_histogramRows.mp hmem
      have hkey : p.row.seriesKey = p'.row.seriesKey := seriesKey_of_samePartition hsame
      rw [hkey, hs'] at hs
      cases hs
      have hq : isHistogramType (p.pointRow ops 0 s).metricType = true := htype
      rw [hq, Bool.and_true]

/-! ### The count of a group -/

/-- The rows of the window whose series belongs to the group of `key`. -/
def Db.groupRows (db : Db V) (json : JsonFunctions) (serviceName metricName : String)
    (groupBy : Option (List String)) (fromTs toTs : Time) (key : String) :
    List (DistributionRow V) :=
  (windowRows (db.histogramRows serviceName metricName) fromTs toTs).filter fun r =>
    decide ((db.scanHistogramPoint json groupBy r).groupKey json groupBy = key)

/-- A sum over the points of a group, each with the stored point before it. -/
def Db.groupSum (db : Db V) (json : JsonFunctions) (serviceName metricName : String)
    (groupBy : Option (List String)) (fromTs toTs : Time) (key : String)
    (f : HistogramPoint V → Option (HistogramPoint V) → Nat) : Nat :=
  ((db.groupRows json serviceName metricName groupBy fromTs toTs key).map fun r =>
    f (db.scanHistogramPoint json groupBy r)
      ((previousRow (db.histogramRows serviceName metricName) r).map
        (db.scanHistogramPoint json groupBy))).sum

/-- The key of a returned group. -/
def DistributionStatsSeries.key (s : DistributionStatsSeries V) (json : JsonFunctions)
    (groupBy : Option (List String)) : String :=
  groupKey json groupBy s.groupValues s.attributes

/-- The count deltas the chart of the window shows for the series of a group; `value`
reads a `DOUBLE` as the integer it is. -/
def Db.chartCount (db : Db V) (ops : DoubleOps V) (value : V → Int) (json : JsonFunctions)
    (serviceName metricName : String) (groupBy : Option (List String)) (fromTs toTs : Time)
    (key : String) : Int :=
  (((filterDerivedPointsInWindow
      (db.metricPointsWithPredecessors ops serviceName metricName fromTs toTs) fromTs toTs).filter
    fun p => isHistogramType p.type &&
      decide (groupKey json groupBy (groupTexts json groupBy p.attributes) p.attributes = key)).map
    fun p => (p.count.map value).getD 0).sum

/-- The arithmetic of a `DOUBLE` is that of the integers on counts. -/
structure ExactCounts (ops : DoubleOps V) (value : V → Int) : Prop where
  ofInt : ∀ n : Int, value (ops.ofInt n) = n
  lt : ∀ m n : Int, ops.lt (ops.ofInt m) (ops.ofInt n) = decide (m < n)
  sub : ∀ m n : Int, value (ops.sub (ops.ofInt m) (ops.ofInt n)) = m - n

/-- Only a row of the same series in front of a row is looked at, and not where
it came from. -/
theorem addedCount_front
    (db : Db V) (ops : DoubleOps V) (json : JsonFunctions) (groupBy : Option (List String))
    (r : DistributionRow V) (front : Option (DistributionRow V)) :
    addedCount ops (db.scanHistogramPoint json groupBy r)
        (front.map (db.scanHistogramPoint json groupBy)) =
      addedCount ops (db.scanHistogramPoint json groupBy r)
        (((front.filter fun q => decide (q.seriesKey = r.seriesKey)).map
          DistributionRow.unflagged).map (db.scanHistogramPoint json groupBy)) := by
  cases front with
  | none =>
      rfl
  | some q =>
      by_cases hkey : q.seriesKey = r.seriesKey
      · have hfilter : (some q).filter (fun q => decide (q.seriesKey = r.seriesKey)) = some q :=
          Option.filter_some_pos (decide_eq_true hkey)
        rw [hfilter]
        rfl
      · have hfilter : (some q).filter (fun q => decide (q.seriesKey = r.seriesKey)) = none :=
          Option.filter_some_neg (by simpa using hkey)
        have hseries : (db.scanHistogramPoint json groupBy q).seriesKey ≠
            (db.scanHistogramPoint json groupBy r).seriesKey := hkey
        rw [hfilter]
        simp [addedCount, pointDelta, hseries]

/-- Without a cumulative total the row in front does not matter. -/
theorem addedCount_of_not_cumulative
    (ops : DoubleOps V) {point : HistogramPoint V} (h : point.temporality ≠ "cumulative")
    (previous previous' : Option (HistogramPoint V)) :
    addedCount ops point previous = addedCount ops point previous' := by
  simp only [addedCount, pointDelta, if_neg h]

theorem withPrevious_map
    {α β : Type} (f : α → β) (previous : Option α) (l : List α) :
    withPrevious (previous.map f) (l.map f) =
      (withPrevious previous l).map fun p => (p.1.map f, f p.2) := by
  induction l generalizing previous with
  | nil =>
      rfl
  | cons a l ih =>
      rw [List.map_cons, withPrevious, withPrevious, List.map_cons, ← ih]
      rfl

theorem sum_map_filter
    {α M : Type} [AddCommMonoid M] (p : α → Bool) (f : α → M) (l : List α) :
    ((l.filter p).map f).sum = (l.map fun x => if p x then f x else 0).sum := by
  induction l with
  | nil =>
      rfl
  | cons a l ih =>
      cases hp : p a with
      | true => simp [hp, ih]
      | false => simp [hp, ih]

/-- What a row of the query adds depends on the stored point before it. -/
theorem countedFor_front
    {db : Db V} (hpositions : db.pointPositions.Nodup)
    (ops : BucketOps V) (json : JsonFunctions) {serviceName metricName : String}
    (groupBy : Option (List String)) {fromTs toTs : Time} (key : String)
    {p : Option (DistributionRow V) × DistributionRow V}
    (hp : p ∈ withPrevious none (db.distributionRows serviceName metricName fromTs toTs)) :
    countedFor ops json groupBy key (p.1.map (db.scanHistogramPoint json groupBy))
        (db.scanHistogramPoint json groupBy p.2) =
      countedFor ops json groupBy key
        ((previousRow (db.histogramRows serviceName metricName) p.2).map
          (db.scanHistogramPoint json groupBy))
        (db.scanHistogramPoint json groupBy p.2) := by
  have hrows := histogramRows_positions hpositions ops.toDoubleOps serviceName metricName
  rw [countedFor, countedFor]
  split
  · rename_i hcounted
    have hwindow : p.2.inWindow = true := (Bool.and_eq_true_iff.mp hcounted).1
    have hmem : p.2 ∈ windowRows (db.histogramRows serviceName metricName) fromTs toTs := by
      have hrow : p.2 ∈ db.distributionRows serviceName metricName fromTs toTs := by
        rw [← map_snd_withPrevious none
          (db.distributionRows serviceName metricName fromTs toTs)]
        exact List.mem_map_of_mem hp
      have hparts := (distributionRows_perm db serviceName metricName fromTs toTs).mem_iff.mp hrow
      rcases List.mem_append.mp hparts with h | h
      · exact h
      · obtain ⟨_, _, q, _, hq⟩ := mem_predecessorRows.mp h
        rw [hq] at hwindow
        cases hwindow
    by_cases hcumulative : p.2.series.row.temporality = "cumulative"
    · rw [addedCount_front, previousRow_eq_front (queryRows_positions hrows fromTs toTs) hp,
        ← previousRow_distributionRows hpositions ops.toDoubleOps hmem hcumulative]
      rfl
    · exact addedCount_of_not_cumulative _ hcumulative _ _
  · rfl

/-- What the loop over the rows of the query sums up for a key. -/
theorem totalCount_distributionRows
    {db : Db V} (hpositions : db.pointPositions.Nodup)
    (ops : BucketOps V) (json : JsonFunctions) (serviceName metricName : String)
    (groupBy : Option (List String)) (fromTs toTs : Time) (key : String) :
    totalCount
        (((db.distributionRows serviceName metricName fromTs toTs).map
          (db.scanHistogramPoint json groupBy)).foldl
            (distributionStep ops json groupBy) (none, .empty)).2 key =
      db.groupSum json serviceName metricName groupBy fromTs toTs key
        (addedCount ops.toDoubleOps) := by
  let counted : DistributionRow V → Nat := fun r =>
    countedFor ops json groupBy key
      ((previousRow (db.histogramRows serviceName metricName) r).map
        (db.scanHistogramPoint json groupBy))
      (db.scanHistogramPoint json groupBy r)
  have hempty : totalCount (KeyedTable.empty : Accumulators V) key = 0 := rfl
  have hscan := withPrevious_map (db.scanHistogramPoint json groupBy) none
    (db.distributionRows serviceName metricName fromTs toTs)
  rw [Option.map_none] at hscan
  have hfront : (withPrevious none
        ((db.distributionRows serviceName metricName fromTs toTs).map
          (db.scanHistogramPoint json groupBy))).map
        (fun p => countedFor ops json groupBy key p.1 p.2) =
      (db.distributionRows serviceName metricName fromTs toTs).map counted := by
    rw [hscan, List.map_map,
      ← map_snd_withPrevious none (db.distributionRows serviceName metricName fromTs toTs),
      List.map_map, map_snd_withPrevious]
    exact List.map_congr_left fun p hp => countedFor_front hpositions ops json groupBy key hp
  rw [totalCount_foldl, hempty, Nat.zero_add, hfront]
  have hpredecessors : ((predecessorRows (db.histogramRows serviceName metricName)
      fromTs toTs).map counted).sum = 0 := by
    refine List.sum_eq_zero fun n hn => ?_
    obtain ⟨r, hr, rfl⟩ := List.mem_map.mp hn
    obtain ⟨_, _, q, _, rfl⟩ := mem_predecessorRows.mp hr
    exact if_neg (by simp [Db.scanHistogramPoint])
  have hsum : ((db.distributionRows serviceName metricName fromTs toTs).map counted).sum =
      ((windowRows (db.histogramRows serviceName metricName) fromTs toTs).map counted).sum := by
    rw [((distributionRows_perm db serviceName metricName fromTs toTs).map counted).sum_eq,
      List.map_append, List.sum_append, hpredecessors, Nat.add_zero]
  rw [hsum, Db.groupSum, Db.groupRows, sum_map_filter]
  refine congrArg _ (List.map_congr_left fun r hr => ?_)
  have hwindow : (db.scanHistogramPoint json groupBy r).inWindow = true := by
    rw [← unflagged_of_mem_histogramRows (mem_windowRows.mp hr).1]
    rfl
  simp only [counted, countedFor, hwindow, Bool.true_and]

/-- The count of a returned group. -/
theorem stats_count
    {db : Db V} (hpositions : db.pointPositions.Nodup)
    (ops : BucketOps V) (json : JsonFunctions) {serviceName metricName : String}
    {groupBy : Option (List String)} {fromTs toTs : Time} {s : DistributionStatsSeries V}
    (hs : s ∈ db.metricDistributionStats ops json serviceName metricName groupBy fromTs toTs) :
    s.stats.count =
      db.groupSum json serviceName metricName groupBy fromTs toTs (s.key json groupBy)
        (addedCount ops.toDoubleOps) := by
  have hmem := (List.perm_insertionSort _ _).mem_iff.mp hs
  obtain ⟨g, hg, hstats⟩ := List.mem_filterMap.mp hmem
  obtain ⟨stats, hstats, rfl⟩ := Option.map_eq_some_iff.mp hstats
  have hempty : Accumulators.Labelled (KeyedTable.empty : Accumulators V) json groupBy :=
    fun g hg => absurd hg List.not_mem_nil
  have hlabel : groupKey json groupBy g.groupValues g.attributes = g.key :=
    labelled_foldl _ hempty g hg
  have hcount : stats.count = g.accumulator.totalCount := by
    rw [DistributionAccumulator.stats] at hstats
    split at hstats
    · cases hstats
    · cases hstats
      rfl
  have hkey : DistributionStatsSeries.key ⟨g.groupValues, g.attributes, stats⟩ json groupBy =
      g.key := hlabel
  rw [hkey, ← totalCount_distributionRows hpositions, totalCount,
    (KeyedTable.find?_eq_some_iff _).mpr ⟨hg, rfl⟩]
  exact hcount

/-! ### The chart of the same window -/

/-- What the chart shows for a row, as an integer. -/
theorem countDelta_pointRow
    {ops : DoubleOps V} {value : V → Int} (hexact : ExactCounts ops value)
    (db : Db V) (json : JsonFunctions) (groupBy : Option (List String))
    (r : DistributionRow V) (previous : Option (DistributionRow V))
    (runningSum : (PointRow V → Option V) → Option V) :
    ((derivedRow ops (r.pointRow ops) (previous.map fun q => q.pointRow ops)
        runningSum).countDelta.map value).getD 0 =
      (chartDelta (db.scanHistogramPoint json groupBy r)
        (previous.map (db.scanHistogramPoint json groupBy)) : Int) := by
  have hcount : ∀ q : DistributionRow V,
      (q.pointRow ops).count = q.point.row.count.map fun n : Nat => ops.ofInt n := by
    intro q
    rw [DistributionRow.pointRow, StoredPoint.pointRow]
    cases q.point.row.count <;> rfl
  have hchart : chartDelta (db.scanHistogramPoint json groupBy r)
        (previous.map (db.scanHistogramPoint json groupBy)) =
      if r.series.row.temporality = "cumulative" then
        derivedCount r.point.row.count (previous.bind fun q => q.point.row.count)
      else r.point.row.count.getD 0 := by
    rw [chartDelta, Option.bind_map]
    rfl
  have hdelta : (derivedRow ops (r.pointRow ops) (previous.map fun q => q.pointRow ops)
        runningSum).countDelta =
      if r.series.row.temporality = "cumulative" then
        lagDelta ops (previous.bind fun q => (q.pointRow ops).count) (r.pointRow ops).count
      else (r.pointRow ops).count := by
    show (if r.series.row.temporality = "cumulative" then
        lagDelta ops ((previous.map fun q => q.pointRow ops).bind PointRow.count)
          (r.pointRow ops).count
      else (r.pointRow ops).count) = _
    rw [Option.bind_map]
    rfl
  rw [hchart, hdelta]
  split
  · cases previous with
    | none =>
        cases r.point.row.count <;> rfl
    | some q =>
        rw [Option.bind_some, Option.bind_some, hcount, hcount]
        cases r.point.row.count with
        | none =>
            cases q.point.row.count <;> rfl
        | some c =>
            cases q.point.row.count with
            | none =>
                rfl
            | some p =>
                rw [Option.map_some, Option.map_some, lagDelta, hexact.lt, derivedCount]
                by_cases hlt : c < p
                · simp [hlt, hexact.ofInt]
                · have hle : p ≤ c := Nat.le_of_not_lt hlt
                  simp [hlt, hexact.sub, Nat.cast_sub hle]
  · rw [hcount]
    cases r.point.row.count with
    | none => rfl
    | some c => exact hexact.ofInt c

theorem isDistributionType_pointRow
    {db : Db V} (ops : DoubleOps V) {serviceName metricName : String} {r : DistributionRow V}
    (hr : r ∈ db.histogramRows serviceName metricName) :
    isDistributionType (r.pointRow ops).metricType = true := by
  obtain ⟨p, -, s, -, -, -, htype, rfl⟩ := mem_histogramRows.mp hr
  have hrow : isDistributionType (DistributionRow.pointRow ⟨p, s, true⟩ ops).metricType =
      (isHistogramType s.row.metricType || decide (s.row.metricType = "Summary")) := rfl
  rw [hrow, htype, Bool.true_or]

/-- A point of a histogram is shown if a count is derived for it. -/
theorem isDerived_pointRow
    {db : Db V} (ops : DoubleOps V) (points : List (PointRow V))
    {serviceName metricName : String} {r : DistributionRow V}
    (hr : r ∈ db.histogramRows serviceName metricName) :
    (derivedPoint ops points (r.pointRow ops)).isDerived =
      (derivedPoint ops points (r.pointRow ops)).count.isSome := by
  have htype := isDistributionType_pointRow ops hr
  have hpoint : (derivedPoint ops points (r.pointRow ops)).type = (r.pointRow ops).metricType :=
    rfl
  have hvalue : (derivedPoint ops points (r.pointRow ops)).value.isSome = true := by
    show (if isDistributionType (r.pointRow ops).metricType then some _ else _).isSome = true
    rw [if_pos htype]
    rfl
  rw [DerivedPoint.isDerived, hvalue, hpoint, htype]
  cases (derivedPoint ops points (r.pointRow ops)).count <;> rfl

/-- What the chart shows for a row of the window. -/
theorem countDelta_derivedPoint
    {db : Db V} (hpositions : db.pointPositions.Nodup)
    {ops : DoubleOps V} {value : V → Int} (hexact : ExactCounts ops value)
    (json : JsonFunctions) {serviceName metricName : String}
    (groupBy : Option (List String)) {fromTs toTs : Time} {r : DistributionRow V}
    (hr : r ∈ windowRows (db.histogramRows serviceName metricName) fromTs toTs) :
    ((derivedPoint ops
        (pointsWithPredecessors (db.groupPoints ops 0 serviceName metricName) fromTs toTs)
        (r.pointRow ops)).count.map value).getD 0 =
      (chartDelta (db.scanHistogramPoint json groupBy r)
        ((previousRow (db.histogramRows serviceName metricName) r).map
          (db.scanHistogramPoint json groupBy)) : Int) := by
  have htype := isDistributionType_pointRow ops (mem_windowRows.mp hr).1
  rw [← countDelta_pointRow hexact db json groupBy r _ fun column => sumOver ops
    (pointsWithPredecessors (db.groupPoints ops 0 serviceName metricName) fromTs toTs)
    column (r.pointRow ops)]
  show ((if isDistributionType (r.pointRow ops).metricType then _ else none).map value).getD 0 = _
  rw [if_pos htype]
  by_cases hcumulative : r.series.row.temporality = "cumulative"
  · rw [lag_chart hpositions ops hr hcumulative]
  · have hrow : (r.pointRow ops).temporality ≠ "cumulative" := hcumulative
    simp only [derivedRow, if_neg hrow]

/-- The chart of a group, point by point. -/
theorem chartCount_eq
    {db : Db V} (hpositions : db.pointPositions.Nodup)
    {ops : DoubleOps V} {value : V → Int} (hexact : ExactCounts ops value)
    (json : JsonFunctions) (serviceName metricName : String)
    (groupBy : Option (List String)) (fromTs toTs : Time) (key : String) :
    db.chartCount ops value json serviceName metricName groupBy fromTs toTs key =
      db.groupSum json serviceName metricName groupBy fromTs toTs key chartDelta := by
  let group := db.groupPoints ops 0 serviceName metricName
  let points := pointsWithPredecessors group fromTs toTs
  let shown : PointRow V → Int := fun p =>
    if (derivedPoint ops points p).isDerived && decide (groupKey json groupBy
        (groupTexts json groupBy p.attributes) p.attributes = key) then
      ((derivedPoint ops points p).count.map value).getD 0
    else 0
  have hchart : db.chartCount ops value json serviceName metricName groupBy fromTs toTs key =
      ((windowPoints group fromTs toTs).map fun p =>
        if isHistogramType p.metricType then shown p else 0).sum := by
    have hperm := ((filterDerivedPointsInWindow_perm ops points fromTs toTs).filter fun p =>
      isHistogramType p.type && decide (groupKey json groupBy
        (groupTexts json groupBy p.attributes) p.attributes = key)).map fun p =>
          (p.count.map value).getD 0
    rw [Db.chartCount, Db.metricPointsWithPredecessors, hperm.sum_eq,
      window_pointsWithPredecessors, List.filter_filter, sum_map_filter, List.map_map]
    refine congrArg _ (List.map_congr_left fun p _ => ?_)
    have htype : (derivedPoint ops points p).type = p.metricType := rfl
    have hattributes : (derivedPoint ops points p).attributes = p.attributes := rfl
    simp only [Function.comp_apply, htype, hattributes, shown]
    cases isHistogramType p.metricType with
    | true => simp only [Bool.true_and, Bool.and_comm, if_true]
    | false => simp
  have hrows : (windowPoints group fromTs toTs).filter (fun p => isHistogramType p.metricType) =
      (windowRows (db.histogramRows serviceName metricName) fromTs toTs).map
        fun r => r.pointRow ops := by
    have hrow : (fun r : DistributionRow V => decide (fromTs ≤ r.ts) && decide (r.ts < toTs)) =
        inWindow fromTs toTs ∘ fun r => r.pointRow ops := rfl
    rw [windowRows, hrow, ← List.filter_map, map_pointRow_histogramRows, windowPoints,
      List.filter_filter, List.filter_filter]
    exact List.filter_congr fun p _ => Bool.and_comm _ _
  rw [hchart, ← sum_map_filter, hrows, List.map_map, Db.groupSum, Db.groupRows, sum_map_filter,
    Nat.cast_list_sum, List.map_map]
  refine congrArg _ (List.map_congr_left fun r hr => ?_)
  have hdelta := countDelta_derivedPoint hpositions hexact json groupBy hr
  have hcount := isDerived_pointRow ops points (mem_windowRows.mp hr).1
  have hkey : groupKey json groupBy (groupTexts json groupBy (r.pointRow ops).attributes)
      (r.pointRow ops).attributes = (db.scanHistogramPoint json groupBy r).groupKey json groupBy :=
    rfl
  simp only [Function.comp_apply, shown, hkey]
  by_cases hgroup : (db.scanHistogramPoint json groupBy r).groupKey json groupBy = key
  · rw [decide_eq_true hgroup, Bool.and_true, if_pos rfl, ← hdelta]
    cases hsome : (derivedPoint ops points (r.pointRow ops)).isDerived with
    | true =>
        rw [if_pos rfl]
    | false =>
        rw [hcount, Option.isSome_eq_false_iff, Option.isNone_iff_eq_none] at hsome
        rw [if_neg Bool.false_ne_true, hsome]
        rfl
  · rw [decide_eq_false hgroup, Bool.and_false, if_neg Bool.false_ne_true,
      if_neg Bool.false_ne_true, Nat.cast_zero]

/-- The count of a returned group is what the chart of the window shows for it exactly
when as many observations are missed as are repeated. -/
theorem stats_count_iff
    {db : Db V} (hpositions : db.pointPositions.Nodup)
    {ops : BucketOps V} {value : V → Int} (hexact : ExactCounts ops.toDoubleOps value)
    (json : JsonFunctions) {serviceName metricName : String}
    {groupBy : Option (List String)} {fromTs toTs : Time} {s : DistributionStatsSeries V}
    (hs : s ∈ db.metricDistributionStats ops json serviceName metricName groupBy fromTs toTs) :
    (s.stats.count : Int) =
        db.chartCount ops.toDoubleOps value json serviceName metricName groupBy fromTs toTs
          (s.key json groupBy) ↔
      db.groupSum json serviceName metricName groupBy fromTs toTs (s.key json groupBy)
          missedCount =
        db.groupSum json serviceName metricName groupBy fromTs toTs (s.key json groupBy)
          repeatedCount := by
  have hsum : db.groupSum json serviceName metricName groupBy fromTs toTs (s.key json groupBy)
          (addedCount ops.toDoubleOps) +
        db.groupSum json serviceName metricName groupBy fromTs toTs (s.key json groupBy)
          missedCount =
      db.groupSum json serviceName metricName groupBy fromTs toTs (s.key json groupBy)
          chartDelta +
        db.groupSum json serviceName metricName groupBy fromTs toTs (s.key json groupBy)
          repeatedCount := by
    rw [Db.groupSum, Db.groupSum, Db.groupSum, Db.groupSum, ← List.sum_map_add,
      ← List.sum_map_add]
    refine congrArg _ (List.map_congr_left fun r hr => ?_)
    refine addedCount_add_missedCount _ _ _ fun q hq => ?_
    obtain ⟨x, hx, rfl⟩ := Option.map_eq_some_iff.mp hq
    have hkey := (List.mem_filter.mp (firstBy_mem hx)).2
    exact of_decide_eq_true (Bool.and_eq_true_iff.mp hkey).1
  rw [chartCount_eq hpositions hexact, stats_count hpositions ops json hs]
  omega

end Distribution

/-! ### A histogram that gains a bucket -/

def sampleBucketOps : BucketOps Int where
  toDoubleOps := sampleOps
  negInf := -1000
  posInf := 1000
  isNegInf x := decide (x = -1000)
  isPosInf x := decide (x = 1000)
  min := min
  max := max
  neg x := -x
  base _ := 2
  pow x n := x ^ n.toNat

theorem sampleBucketOps_exact : ExactCounts sampleBucketOps.toDoubleOps fun n : Int => n where
  ofInt _ := rfl
  lt _ _ := rfl
  sub _ _ := rfl

def sampleJson : JsonFunctions where
  text attributes key :=
    match attributes.get? key with
    | some (.str s) => some s
    | _ => none
  marshalValues values := "[" ++ ",".intercalate values ++ "]"
  marshalAttributes _ := "\x7b\x7d"

def sampleHistogram : MetricSeriesRow :=
  { sampleSeries with metricName := "latency", metricType := "ExponentialHistogram" }

def sampleHistogramPoint (id : UUID) (ts : Time) (count : Nat) (positive : List Nat) :
    MetricPointRow Int :=
  { samplePoint id ts 0 with
    valueInt := none
    count := some count
    histogramLayoutHash := some 3
    zeroCount := some 0
    positiveOffset := some 0
    positiveBucketCounts := positive }

/-- The second export has one observation more, in a bucket the first did not have, and the
third three more in the same two buckets. -/
def sampleDistributions : Db Int :=
  { Db.empty Int with
    metricSeries := ⟨[⟨sampleHistogram, 0, 0⟩], by simp⟩
    histogramLayouts := ⟨[⟨3, "exponential", [], some 0, some 0⟩], by simp⟩
    metricPoints :=
      [⟨sampleHistogramPoint 1 10 1 [1], 0⟩, ⟨sampleHistogramPoint 2 20 2 [1, 1], 0⟩,
        ⟨sampleHistogramPoint 3 30 5 [3, 2], 0⟩] }

theorem sampleDistributions_positions : sampleDistributions.pointPositions.Nodup := by
  decide

/-- The statistics of the window of the second export. -/
def sampleStatistics : List (DistributionStatsSeries Int) :=
  sampleDistributions.metricDistributionStats sampleBucketOps sampleJson "checkout" "latency"
    none 15 25

theorem sampleStatistics_ne_nil : sampleStatistics ≠ [] := by
  decide +kernel

/-- The statistics of the window of the third export. -/
def thirdStatistics : List (DistributionStatsSeries Int) :=
  sampleDistributions.metricDistributionStats sampleBucketOps sampleJson "checkout" "latency"
    none 25 35

/-- In the window of the third export nothing is missed or repeated, and its three observations
are counted; in that of the second one the first observation is repeated. -/
theorem stats_count_iff_sample :
    thirdStatistics.map (fun s => s.stats.count) = [3] ∧
      (∀ s ∈ thirdStatistics,
        (s.stats.count : Int) =
          sampleDistributions.chartCount sampleBucketOps.toDoubleOps (fun n => n) sampleJson
            "checkout" "latency" none 25 35 (s.key sampleJson none)) ∧
      ((sampleStatistics.head sampleStatistics_ne_nil).stats.count : Int) ≠
        sampleDistributions.chartCount sampleBucketOps.toDoubleOps (fun n => n) sampleJson
          "checkout" "latency" none 15 25
          ((sampleStatistics.head sampleStatistics_ne_nil).key sampleJson none) := by
  refine ⟨by decide +kernel, fun s hs => ?_, fun h => ?_⟩
  · refine (stats_count_iff sampleDistributions_positions sampleBucketOps_exact sampleJson
      hs).mpr ?_
    revert s
    decide +kernel
  · exact absurd ((stats_count_iff sampleDistributions_positions sampleBucketOps_exact sampleJson
      (List.head_mem sampleStatistics_ne_nil)).mp h) (by decide +kernel)

/-- The new bucket makes the statistics count the first observation again. -/
theorem stats_count_newBucket :
    ¬ ∀ s ∈ sampleStatistics,
      (s.stats.count : Int) =
        sampleDistributions.chartCount sampleBucketOps.toDoubleOps (fun n => n) sampleJson
          "checkout" "latency" none 15 25 (s.key sampleJson none) := by
  decide +kernel

end Storage
end Otelop
