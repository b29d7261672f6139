import Mathlib.Tactic
import Mathlib.Data.String.Basic
import Otelop.Lib.Grouping
import Otelop.Storage.MetricDistribution

/-!
# The aggregate of a metric

`MetricAggregate` of `internal/storage/query_metric_aggregate.go` derives the points of a
window, reduces them per series and time bucket, then per breakdown group and time bucket,
and hands the rows out by the joined group values.

`json` stands for the JSON functions of DuckDB.  `time_bucket` with a width of no seconds
fails when there is a row to put into a bucket; the text of that error is left out.

**Results.**
* `foldNull_cell`: the two reductions are one over the rows of a cell.
* `regroup_perm`: the rows are handed out once each.
* `metricAggregate_conserves`: the aggregate has what the derived points have.
-/

namespace Otelop
namespace Storage

open Lib

/-- `AggregatePoint` -/
structure AggregatePoint (V : Type) where
  ts : Time
  value : Option V
  count : Option V
  sum : Option V
  min : Option V
  max : Option V

/-- `AggregateSeries` -/
structure AggregateSeries (V : Type) where
  groupValues : List String
  points : List (AggregatePoint V)

/-- `time.Second` -/
def second : Int := 10 ^ 9

/-- `metricAggregateTargetBuckets` -/
def metricAggregateTargetBuckets : Int := 150

/-- What `time.Time.Sub` saturates at. -/
def maxDuration : Int := 2 ^ 63 - 1

/-- 2000-01-03, from which `time_bucket` counts. -/
def bucketOrigin : Time := 946857600 * second

/-- `time_bucket(seconds * INTERVAL '1 second', ts)` -/
def timeBucket (seconds : Int) (ts : Time) : Time :=
  bucketOrigin + (ts - bucketOrigin) / (seconds * second) * (seconds * second)

/-- A row of `per_series_bucket`. -/
structure SeriesBucket (V : Type) where
  bucket : Time
  groupValues : List String
  seriesKey : UInt64
  metricType : String
  scalarValue : Option V
  countSum : Option V
  sumSum : Option V
  minMin : Option V
  maxMax : Option V

/-- A row of `aggregated`. -/
structure AggregatedRow (V : Type) where
  bucket : Time
  groupValues : List String
  metricType : String
  scalarValueSum : Option V
  countSum : Option V
  sumSum : Option V
  minMin : Option V
  maxMax : Option V

section Aggregate

variable {V : Type}

/-! ### Aggregate functions -/

/-- `sum` -/
def sqlSum (ops : DoubleOps V) (l : List (Option V)) : Option V := foldNull ops.add l

/-- `avg` -/
def sqlAvg (ops : DoubleOps V) (l : List (Option V)) : Option V :=
  (sqlSum ops l).map fun total => ops.div total (ops.ofInt (l.filterMap id).length)

/-- `min` -/
def sqlMin (ops : DoubleOps V) (l : List (Option V)) : Option V :=
  foldNull (fun m v => if ops.lt v m then v else m) l

/-- `max` -/
def sqlMax (ops : DoubleOps V) (l : List (Option V)) : Option V :=
  foldNull (fun m v => if ops.lt m v then v else m) l

/-- `max` of a column of texts. -/
def maxText (l : List String) : String := l.max?.getD ""

/-! ### The query -/

/-- The `derived` CTE. -/
def derivedRows (ops : DoubleOps V) (points : List (PointRow V)) : List (DerivedRow V) :=
  points.map fun p =>
    derivedRow ops p (lag points p) fun column => sumOver ops points column p

/-- The columns `bucket, group_1, ...` of a row. -/
def DerivedRow.cell (json : JsonFunctions) (groupBy : List String) (seconds : Int)
    (d : DerivedRow V) : Time × List String :=
  (timeBucket seconds d.ts, groupTexts json (some groupBy) d.attributes)

/-- A group of `per_series_bucket`. -/
def seriesBucket (ops : DoubleOps V)
    (g : ((Time × List String) × UInt64) × List (DerivedRow V)) : SeriesBucket V where
  bucket := g.1.1.1
  groupValues := g.1.1.2
  seriesKey := g.1.2
  metricType := maxText (g.2.map DerivedRow.metricType)
  scalarValue :=
    if maxText (g.2.map DerivedRow.metricType) = "Gauge" then
      sqlAvg ops (g.2.map DerivedRow.scalarValue)
    else sqlSum ops (g.2.map DerivedRow.scalarValue)
  countSum := sqlSum ops (g.2.map DerivedRow.countDelta)
  sumSum := sqlSum ops (g.2.map DerivedRow.sumDelta)
  minMin := sqlMin ops (g.2.map DerivedRow.min)
  maxMax := sqlMax ops (g.2.map DerivedRow.max)

def perSeriesBucket (ops : DoubleOps V) (cell : DerivedRow V → Time × List String)
    (derived : List (DerivedRow V)) : List (SeriesBucket V) :=
  (groupRows (fun d => (cell d, d.seriesKey)) derived).map (seriesBucket ops)

def SeriesBucket.cell (r : SeriesBucket V) : Time × List String := (r.bucket, r.groupValues)

/-- A group of `aggregated`, before `HAVING`. -/
def aggregatedRow (ops : DoubleOps V) (g : (Time × List String) × List (SeriesBucket V)) :
    AggregatedRow V where
  bucket := g.1.1
  groupValues := g.1.2
  metricType := maxText (g.2.map SeriesBucket.metricType)
  scalarValueSum := sqlSum ops (g.2.map SeriesBucket.scalarValue)
  countSum := sqlSum ops (g.2.map SeriesBucket.countSum)
  sumSum := sqlSum ops (g.2.map SeriesBucket.sumSum)
  minMin := sqlMin ops (g.2.map SeriesBucket.minMin)
  maxMax := sqlMax ops (g.2.map SeriesBucket.maxMax)

/-- `NOT (scalar_value_sum IS NULL AND count_sum IS NULL AND sum_sum IS NULL)` -/
def AggregatedRow.having (r : AggregatedRow V) : Bool :=
  !(r.scalarValueSum.isNone && r.countSum.isNone && r.sumSum.isNone)

def aggregated (ops : DoubleOps V) (rows : List (SeriesBucket V)) : List (AggregatedRow V) :=
  ((groupRows SeriesBucket.cell rows).map (aggregatedRow ops)).filter AggregatedRow.having

/-- The columns of the last `SELECT`. -/
def AggregatedRow.point (ops : DoubleOps V) (r : AggregatedRow V) : AggregatePoint V where
  ts := r.bucket
  value :=
    if isDistributionType r.metricType then
      match r.countSum with
      | none => some ops.zero
      | some c => if ops.le c ops.zero then some ops.zero else r.sumSum.map fun s => ops.div s c
    else r.scalarValueSum
  count := if isDistributionType r.metricType then r.countSum else none
  sum := if isDistributionType r.metricType then r.sumSum else none
  min := r.minMin
  max := r.maxMax

/-- Where a row stands in `ORDER BY group_1, ..., bucket`. -/
def AggregatedRow.position (r : AggregatedRow V) : List String ×ₗ Time :=
  toLex (r.groupValues, r.bucket)

def orderAggregated (rows : List (AggregatedRow V)) : List (AggregatedRow V) :=
  rows.insertionSort fun a b => a.position ≤ b.position

/-! ### The rows of a group -/

/-- `strings.Join(values, "\x00")` -/
def joinedKey (groupValues : List String) : String := "\x00".intercalate groupValues

/-- One round of the loop over the rows. -/
def regroupStep (ops : DoubleOps V) (series : List (String × AggregateSeries V))
    (r : AggregatedRow V) : List (String × AggregateSeries V) :=
  mapEntry (joinedKey r.groupValues) ⟨r.groupValues, []⟩
    (fun s => { s with points := s.points ++ [r.point ops] }) series

/-- `seriesByKey`, in the order of `order`. -/
def regroup (ops : DoubleOps V) (rows : List (AggregatedRow V)) : List (AggregateSeries V) :=
  (rows.foldl (regroupStep ops) []).map Prod.snd

/-! ### The call -/

/-- `metricAggregateAutoBucket` -/
def Db.metricAggregateAutoBucket (db : Db V) (ops : DoubleOps V)
    (serviceName metricName : String) (fromTs toTs : Time) : Int :=
  match (windowPoints (db.groupPoints ops 0 serviceName metricName) fromTs toTs).map
      PointRow.ts with
  | [] => second
  | t :: ts =>
      let span := min (ts.foldl max t - ts.foldl min t) maxDuration
      if second < span / metricAggregateTargetBuckets then span / metricAggregateTargetBuckets
      else second

/-- The rows of `derived` with `ts >= from`. -/
def Db.aggregateSource (db : Db V) (ops : DoubleOps V) (serviceName metricName : String)
    (fromTs toTs : Time) : List (DerivedRow V) :=
  (derivedRows ops
    (pointsWithPredecessors (db.groupPoints ops 0 serviceName metricName) fromTs toTs)).filter
      fun d => fromTs ≤ d.ts

def Db.metricAggregate (db : Db V) (ops : DoubleOps V) (json : JsonFunctions)
    (serviceName metricName : String) (groupBy : List String) (bucket : Int)
    (fromTs toTs : Time) : Except String (List (AggregateSeries V)) :=
  if groupBy = [] then
    .error "storage: MetricAggregate requires at least one groupBy attribute"
  else if bucket < 0 then
    .error "storage: MetricAggregate requires a non-negative bucket duration"
  else
    let bucket :=
      if bucket = 0 then db.metricAggregateAutoBucket ops serviceName metricName fromTs toTs
      else bucket
    let source := db.aggregateSource ops serviceName metricName fromTs toTs
    if bucket / second = 0 ∧ source ≠ [] then .error "storage: query metric aggregate"
    else .ok (regroup ops (orderAggregated (aggregated ops
      (perSeriesBucket ops (DerivedRow.cell json groupBy (bucket / second)) source))))

/-- A call without a width has one of a second or more. -/
theorem metricAggregate_auto
    (db : Db V) (ops : DoubleOps V) (json : JsonFunctions) (serviceName metricName : String)
    (groupBy : List String) (fromTs toTs : Time) :
    let bucket := db.metricAggregateAutoBucket ops serviceName metricName fromTs toTs
    second ≤ bucket ∧
      db.metricAggregate ops json serviceName metricName groupBy 0 fromTs toTs =
        db.metricAggregate ops json serviceName metricName groupBy bucket fromTs toTs := by
  intro bucket
  have hbucket : second ≤ bucket := by
    rw [show bucket = db.metricAggregateAutoBucket ops serviceName metricName fromTs toTs from rfl,
      Db.metricAggregateAutoBucket]
    split
    · exact le_rfl
    · dsimp only
      split
      · rename_i hspan
        exact le_of_lt hspan
      · exact le_rfl
  have hsecond : (0 : Int) < second := by decide
  refine ⟨hbucket, ?_⟩
  rw [Db.metricAggregate, Db.metricAggregate, if_neg (by omega : ¬ bucket < 0)]
  by_cases hgroup : groupBy = []
  · rw [if_pos hgroup, if_pos hgroup]
  · simp only [if_neg hgroup, lt_irrefl, if_false, if_true, if_neg (by omega : ¬ bucket = 0)]
    rfl

/-! ### What a cell sums up -/

/-- The columns that are sums of what was derived. -/
inductive MassColumn where
  | value
  | count
  | sum

/-- A `Sum` metric shows the first column, a distribution the others. -/
def MassColumn.AppliesTo : MassColumn → String → Prop
  | .value, metricType => metricType = "Sum"
  | .count, metricType => isDistributionType metricType = true
  | .sum, metricType => isDistributionType metricType = true

def MassColumn.ofRow : MassColumn → DerivedRow V → Option V
  | .value, d => d.scalarValue
  | .count, d => d.countDelta
  | .sum, d => d.sumDelta

def MassColumn.ofPoint : MassColumn → DerivedPoint V → Option V
  | .value, p => p.value
  | .count, p => p.count
  | .sum, p => p.sum

def MassColumn.ofAggregate : MassColumn → AggregatePoint V → Option V
  | .value, a => a.value
  | .count, a => a.count
  | .sum, a => a.sum

def MassColumn.ofAggregatedRow : MassColumn → AggregatedRow V → Option V
  | .value, r => r.scalarValueSum
  | .count, r => r.countSum
  | .sum, r => r.sumSum

/-- The cell of a point. -/
def DerivedPoint.cell (json : JsonFunctions) (groupBy : List String) (seconds : Int)
    (p : DerivedPoint V) : Time × List String :=
  (timeBucket seconds p.ts, groupTexts json (some groupBy) p.attributes)

theorem isDistributionType_sum : isDistributionType "Sum" = false := by
  decide

theorem isDistributionType_gauge : isDistributionType "Gauge" = false := by
  decide

theorem ofPoint_point
    (ops : DoubleOps V) {column : MassColumn} {d : DerivedRow V}
    (h : column.AppliesTo d.metricType) :
    column.ofPoint (d.point ops) = column.ofRow d := by
  cases column with
  | value =>
      have htype : d.metricType = "Sum" := h
      simp [MassColumn.ofPoint, MassColumn.ofRow, DerivedRow.point, htype,
        isDistributionType_sum]
  | count =>
      exact if_pos h
  | sum =>
      exact if_pos h

theorem ofAggregate_point
    (ops : DoubleOps V) {column : MassColumn} {r : AggregatedRow V}
    (h : column.AppliesTo r.metricType) :
    column.ofAggregate (r.point ops) = column.ofAggregatedRow r := by
  cases column with
  | value =>
      have htype : r.metricType = "Sum" := h
      simp [MassColumn.ofAggregate, MassColumn.ofAggregatedRow, AggregatedRow.point, htype,
        isDistributionType_sum]
  | count =>
      exact if_pos h
  | sum =>
      exact if_pos h

theorem maxText_eq {l : List String} {text : String} (hne : l ≠ [])
    (h : ∀ t ∈ l, t = text) : maxText l = text := by
  have hreplicate : l = List.replicate l.length text := List.eq_replicate_iff.mpr ⟨rfl, h⟩
  rw [maxText, hreplicate, List.max?_replicate, if_neg (mt List.length_eq_zero_iff.mp hne)]
  rfl

section Cells

variable {ops : DoubleOps V} {cell : DerivedRow V → Time × List String}
  {derived : List (DerivedRow V)} {metricType : String}

theorem cell_perSeriesBucket {c : Time × List String} :
    (∃ r ∈ perSeriesBucket ops cell derived, r.cell = c) ↔ ∃ d ∈ derived, cell d = c := by
  rw [perSeriesBucket]
  constructor
  · rintro ⟨r, hr, rfl⟩
    obtain ⟨g, hg, rfl⟩ := List.mem_map.mp hr
    obtain ⟨⟨d, hd, hkey⟩, -⟩ := mem_groupRows.mp hg
    exact ⟨d, hd, congrArg Prod.fst hkey⟩
  · rintro ⟨d, hd, rfl⟩
    obtain ⟨g, hg, hkey, -⟩ := exists_group_of_mem (fun d => (cell d, d.seriesKey)) hd
    exact ⟨_, List.mem_map_of_mem hg, congrArg Prod.fst hkey⟩

/-- The rows of the series in a cell are reduced from the groups of the cell. -/
theorem filter_perSeriesBucket (c : Time × List String) :
    (perSeriesBucket ops cell derived).filter (fun r => r.cell = c) =
      perSeriesBucket ops cell (derived.filter fun d => cell d = c) := by
  rw [perSeriesBucket, perSeriesBucket, List.filter_map,
    ← filter_groupRows (fun d => (cell d, d.seriesKey)) fun k => decide (k.1 = c)]
  rfl

theorem metricType_perSeriesBucket
    (htype : ∀ d ∈ derived, d.metricType = metricType) :
    ∀ r ∈ perSeriesBucket ops cell derived, r.metricType = metricType := by
  intro r hr
  obtain ⟨g, hg, rfl⟩ := List.mem_map.mp hr
  refine maxText_eq (by simpa using ne_nil_of_mem_groupRows hg) fun t ht => ?_
  obtain ⟨d, hd, rfl⟩ := List.mem_map.mp ht
  exact htype d (mem_of_mem_group hg hd).1

theorem metricType_aggregatedRow
    (htype : ∀ d ∈ derived, d.metricType = metricType)
    {g : (Time × List String) × List (SeriesBucket V)}
    (hg : g ∈ groupRows SeriesBucket.cell (perSeriesBucket ops cell derived)) :
    (aggregatedRow ops g).metricType = metricType := by
  refine maxText_eq (by simpa using ne_nil_of_mem_groupRows hg) fun t ht => ?_
  obtain ⟨r, hr, rfl⟩ := List.mem_map.mp ht
  exact metricType_perSeriesBucket htype r (mem_of_mem_group hg hr).1

end Cells

/-! ### Handing out the rows -/

/-- What the entries show of the rows. -/
def shownPoints (series : List (String × AggregateSeries V)) :
    List (String × AggregatePoint V) :=
  series.flatMap fun e => e.2.points.map (Prod.mk e.1)

theorem regroup_foldl (ops : DoubleOps V) (rows : List (AggregatedRow V)) :
    ((rows.foldl (regroupStep ops) []).map Prod.fst).Nodup ∧
      (∀ e ∈ rows.foldl (regroupStep ops) [], e.1 = joinedKey e.2.groupValues) ∧
      (shownPoints (rows.foldl (regroupStep ops) [])).Perm
        (rows.map fun r => (joinedKey r.groupValues, r.point ops)) := by
  induction rows using List.reverseRecOn with
  | nil =>
      exact ⟨List.nodup_nil, fun e he => absurd he List.not_mem_nil, List.Perm.refl _⟩
  | append_singleton rows r ih =>
      obtain ⟨hnodup, hkey, hperm⟩ := ih
      rw [List.foldl_append, List.foldl_cons, List.foldl_nil, regroupStep]
      refine ⟨?_, ?_, ?_⟩
      · rw [keys_mapEntry]
        exact nodup_insertKey hnodup _
      · intro e he
        rcases mem_mapEntry he with he | ⟨b, hb, rfl⟩
        · exact hkey e he
        · rcases hb with rfl | hb
          · rfl
          · exact hkey (joinedKey r.groupValues, b) hb
      · rw [List.map_append, List.map_singleton]
        refine (flatMap_mapEntry_perm [(joinedKey r.groupValues, r.point ops)]
          rfl (fun b => ?_) hnodup).trans (hperm.append_right _)
        rw [List.map_append]
        exact List.Perm.refl _

/-- Every row is one point of one series. -/
theorem regroup_perm (ops : DoubleOps V) (rows : List (AggregatedRow V)) :
    ((regroup ops rows).flatMap fun s => s.points.map (Prod.mk (joinedKey s.groupValues))).Perm
      (rows.map fun r => (joinedKey r.groupValues, r.point ops)) := by
  obtain ⟨-, hkey, hperm⟩ := regroup_foldl ops rows
  refine List.Perm.trans (List.Perm.of_eq ?_) hperm
  rw [regroup, List.flatMap_map, shownPoints]
  exact List.flatMap_congr fun e he => by rw [hkey e he]

/-! ### The points of the window -/

theorem filter_pointsWithPredecessors (group : List (PointRow V)) (fromTs toTs : Time) :
    (pointsWithPredecessors group fromTs toTs).filter (fun p => fromTs ≤ p.ts) =
      windowPoints group fromTs toTs := by
  have hwindow : (windowPoints group fromTs toTs).filter (fun p => fromTs ≤ p.ts) =
      windowPoints group fromTs toTs :=
    List.filter_eq_self.mpr fun p hp => decide_eq_true (mem_windowPoints.mp hp).2.1
  have hold : (predecessors group fromTs toTs).filter (fun p => fromTs ≤ p.ts) = [] := by
    refine List.filter_eq_nil_iff.mpr fun q hq hle => ?_
    exact absurd (predecessors_old hq).2 (not_lt.mpr (of_decide_eq_true hle))
  rw [pointsWithPredecessors, List.filter_append, hwindow, hold, List.append_nil]

/-- The aggregate reads what the list of points shows of the window. -/
theorem aggregateSource_perm
    (db : Db V) (ops : DoubleOps V) (serviceName metricName : String) (fromTs toTs : Time) :
    ((db.metricPointsWithPredecessors ops serviceName metricName fromTs toTs).filter
        fun p => decide (fromTs ≤ p.ts) && decide (p.ts < toTs)).Perm
      ((db.aggregateSource ops serviceName metricName fromTs toTs).map (DerivedRow.point ops)) := by
  refine ((derivePoints_perm _ _).filter _).trans (List.Perm.of_eq ?_)
  rw [Db.aggregateSource, derivedRows, List.filter_map, List.filter_map, List.map_map]
  refine congrArg₂ List.map rfl ?_
  refine (window_pointsWithPredecessors _ _ _).trans ?_
  exact (filter_pointsWithPredecessors _ _ _).symm

theorem metricType_aggregateSource
    {db : Db V} {ops : DoubleOps V} {serviceName metricName metricType : String}
    (htype : ∀ s ∈ db.metricSeries.rows, s.row.serviceName = serviceName →
      s.row.metricName = metricName → s.row.metricType = metricType)
    {fromTs toTs : Time} :
    ∀ d ∈ db.aggregateSource ops serviceName metricName fromTs toTs,
      d.metricType = metricType := by
  intro d hd
  rw [Db.aggregateSource, derivedRows, List.filter_map] at hd
  obtain ⟨p, hp, rfl⟩ := List.mem_map.mp hd
  change p ∈ (pointsWithPredecessors _ fromTs toTs).filter (fun p => fromTs ≤ p.ts) at hp
  have hgroup : p ∈ db.groupPoints ops 0 serviceName metricName := by
    rw [filter_pointsWithPredecessors] at hp
    exact (mem_windowPoints.mp hp).1
  obtain ⟨q, -, s, hs, hservice, hname, rfl⟩ := mem_groupPoints.mp hgroup
  exact htype s ((db.metricSeries.find?_eq_some_iff).mp hs).1 hservice hname

end Aggregate

section Exact

variable {K : Type} [Field K] [LinearOrder K]

/-- The two reductions are one over the rows of a cell. -/
theorem foldNull_cell
    {cell : DerivedRow K → Time × List String} {derived : List (DerivedRow K)}
    {metricType : String} (htype : ∀ d ∈ derived, d.metricType = metricType)
    {column : MassColumn} (hcolumn : column.AppliesTo metricType)
    {g : (Time × List String) × List (SeriesBucket K)}
    (hg : g ∈ groupRows SeriesBucket.cell (perSeriesBucket (exactOps K) cell derived)) :
    column.ofAggregatedRow (aggregatedRow (exactOps K) g) =
      foldNull (· + ·) ((derived.filter fun d => cell d = g.1).map column.ofRow) := by
  have hrows : g.2 =
      perSeriesBucket (exactOps K) cell (derived.filter fun d => cell d = g.1) := by
    rw [(mem_groupRows.mp hg).2, filter_perSeriesBucket]
  have hsource : ∀ f : SeriesBucket K → Option K, g.2.map f =
      (groupRows (fun d => (cell d, d.seriesKey)) (derived.filter fun d => cell d = g.1)).map
        fun h => f (seriesBucket (exactOps K) h) := by
    intro f
    rw [hrows, perSeriesBucket, List.map_map]
    rfl
  rw [← foldNull_groupRows (fun d => (cell d, d.seriesKey)) column.ofRow]
  cases column with
  | value =>
      have hscalar : ∀ h ∈ groupRows (fun d => (cell d, d.seriesKey))
          (derived.filter fun d => cell d = g.1),
          maxText (h.2.map DerivedRow.metricType) ≠ "Gauge" := by
        intro h hh
        have hmax : maxText (h.2.map DerivedRow.metricType) = metricType := by
          refine maxText_eq (by simpa using ne_nil_of_mem_groupRows hh) fun t ht => ?_
          obtain ⟨d, hd, rfl⟩ := List.mem_map.mp ht
          exact htype d (List.mem_filter.mp (mem_of_mem_group hh hd).1).1
        have hsum : metricType = "Sum" := hcolumn
        rw [hmax, hsum]
        decide
      refine (congrArg (sqlSum (exactOps K)) (hsource SeriesBucket.scalarValue)).trans ?_
      exact congrArg _ (List.map_congr_left fun h hh => if_neg (hscalar h hh))
  | count =>
      exact congrArg (sqlSum (exactOps K)) (hsource SeriesBucket.countSum)
  | sum =>
      exact congrArg (sqlSum (exactOps K)) (hsource SeriesBucket.sumSum)

/-- The sum of a column of an aggregate. -/
def mass (column : MassColumn) (series : List (AggregateSeries K)) : K :=
  ((series.flatMap AggregateSeries.points).filterMap column.ofAggregate).sum

/-- What the cells of a call show in a column. -/
theorem metricAggregate_cells
    (db : Db K) (json : JsonFunctions) {serviceName metricName metricType : String}
    (htype : ∀ s ∈ db.metricSeries.rows, s.row.serviceName = serviceName →
      s.row.metricName = metricName → s.row.metricType = metricType)
    {groupBy : List String} (hgroup : groupBy ≠ []) {bucket : Int} (hbucket : second ≤ bucket)
    (fromTs toTs : Time) {column : MassColumn} (hcolumn : column.AppliesTo metricType) :
    let points := (db.metricPointsWithPredecessors (exactOps K) serviceName metricName
      fromTs toTs).filter fun p => decide (fromTs ≤ p.ts) && decide (p.ts < toTs)
    ∃ series, db.metricAggregate (exactOps K) json serviceName metricName groupBy bucket
        fromTs toTs = .ok series ∧
      ∃ cells : List (Time × List String), cells.Nodup ∧
        (∀ p ∈ points, (column.ofPoint p).isSome = true →
          p.cell json groupBy (bucket / second) ∈ cells) ∧
        (series.flatMap fun s => s.points.map fun a =>
            (joinedKey s.groupValues, a.ts, column.ofAggregate a)).Perm
          (cells.map fun c => (joinedKey c.2, c.1, foldNull (· + ·)
            ((points.filter fun p => p.cell json groupBy (bucket / second) = c).map
              column.ofPoint))) := by
  intro points
  let source := db.aggregateSource (exactOps K) serviceName metricName fromTs toTs
  let cell := DerivedRow.cell (V := K) json groupBy (bucket / second)
  let rows := perSeriesBucket (exactOps K) cell source
  let groups := (groupRows SeriesBucket.cell rows).filter fun g =>
    (aggregatedRow (exactOps K) g).having
  have hsource : ∀ d ∈ source, d.metricType = metricType := metricType_aggregateSource htype
  have hpoints : points.Perm (source.map (DerivedRow.point (exactOps K))) :=
    aggregateSource_perm db (exactOps K) serviceName metricName fromTs toTs
  have hcell : ∀ d ∈ source, ∀ c, (column.ofPoint (d.point (exactOps K)) = column.ofRow d) ∧
      (((d.point (exactOps K)).cell json groupBy (bucket / second) = c) ↔ cell d = c) :=
    fun d hd c => ⟨ofPoint_point _ ((hsource d hd).symm ▸ hcolumn), Iff.rfl⟩
  have hmass : ∀ g ∈ groupRows SeriesBucket.cell rows,
      column.ofAggregatedRow (aggregatedRow (exactOps K) g) = foldNull (· + ·)
        ((points.filter fun p => p.cell json groupBy (bucket / second) = g.1).map
          column.ofPoint) := by
    intro g hg
    rw [foldNull_cell hsource hcolumn hg]
    have hperm := (hpoints.filter fun p => p.cell json groupBy (bucket / second) = g.1).map
      column.ofPoint
    rw [foldNull_perm hperm, List.filter_map, List.map_map]
    refine congrArg _ (List.map_congr_left fun d hd => ?_)
    exact (hcell d (List.mem_filter.mp hd).1 g.1).1.symm
  refine ⟨regroup (exactOps K) (orderAggregated (aggregated (exactOps K) rows)), ?_,
    groups.map Prod.fst, ?_, ?_, ?_⟩
  · have hpos : ¬ bucket < 0 ∧ bucket ≠ 0 ∧ bucket / second ≠ 0 := by
      have hone : 1 ≤ bucket / second := (Int.le_ediv_iff_mul_le (by decide)).mpr (by omega)
      have hsecond : (0 : Int) < second := by decide
      omega
    rw [Db.metricAggregate, if_neg hgroup, if_neg hpos.1]
    dsimp only
    rw [if_neg hpos.2.1, if_neg fun h => hpos.2.2 h.1]
  · refine List.Nodup.sublist (List.filter_sublist.map _) ?_
    rw [map_fst_groupRows]
    exact nodup_firstKeys rows
  · intro p hp hsome
    obtain ⟨d, hd, rfl⟩ := List.mem_map.mp (hpoints.mem_iff.mp hp)
    obtain ⟨r, hr, hrcell⟩ := cell_perSeriesBucket.mpr ⟨d, hd, rfl⟩
    obtain ⟨g, hg, hkey, -⟩ := exists_group_of_mem SeriesBucket.cell hr
    have hgcell : (d.point (exactOps K)).cell json groupBy (bucket / second) = g.1 :=
      (hrcell.symm.trans hkey.symm : cell d = g.1)
    refine List.mem_map.mpr ⟨g, List.mem_filter.mpr ⟨hg, ?_⟩, hgcell.symm⟩
    have hmassg : column.ofAggregatedRow (aggregatedRow (exactOps K) g) ≠ none := by
      rw [hmass g hg]
      intro hnone
      have hnull := foldNull_eq_none_iff.mp hnone _ (List.mem_map_of_mem
        (List.mem_filter.mpr ⟨hp, decide_eq_true hgcell⟩))
      rw [hnull] at hsome
      cases hsome
    rw [AggregatedRow.having]
    cases column <;> rw [MassColumn.ofAggregatedRow, ne_eq, ← Option.isNone_iff_eq_none] at hmassg
      <;> simp [hmassg]
  · have horder : (orderAggregated (aggregated (exactOps K) rows)).Perm
        (groups.map (aggregatedRow (exactOps K))) := by
      refine (List.perm_insertionSort _ _).trans (List.Perm.of_eq ?_)
      rw [aggregated, List.filter_map]
      rfl
    have hregroup := ((regroup_perm (exactOps K) (orderAggregated (aggregated (exactOps K) rows)))
      |>.trans (horder.map _)).map fun a => (a.1, a.2.ts, column.ofAggregate a.2)
    rw [List.map_flatMap, List.map_map, List.map_map] at hregroup
    have hflat : ∀ s : AggregateSeries K,
        (s.points.map (Prod.mk (joinedKey s.groupValues))).map
            (fun a => (a.1, a.2.ts, column.ofAggregate a.2)) =
          s.points.map fun a => (joinedKey s.groupValues, a.ts, column.ofAggregate a) :=
      fun s => List.map_map
    rw [List.flatMap_congr fun s _ => hflat s] at hregroup
    refine hregroup.trans (List.Perm.of_eq ?_)
    rw [List.map_map]
    refine List.map_congr_left fun g hg => ?_
    have hg' := (List.mem_filter.mp hg).1
    have hpoint : column.ofAggregate ((aggregatedRow (exactOps K) g).point (exactOps K)) =
        column.ofAggregatedRow (aggregatedRow (exactOps K) g) :=
      ofAggregate_point _ ((metricType_aggregatedRow hsource hg').symm ▸ hcolumn)
    rw [Function.comp_apply, Function.comp_apply, Function.comp_apply, hpoint, hmass g hg']
    rfl

omit [LinearOrder K] in
/-- Cells that have every point once add up to the points. -/
theorem mass_of_cells
    {column : MassColumn} {series : List (AggregateSeries K)} {points : List (DerivedPoint K)}
    {cell : DerivedPoint K → Time × List String} {cells : List (Time × List String)}
    (hnodup : cells.Nodup)
    (hcells : ∀ p ∈ points, (column.ofPoint p).isSome = true → cell p ∈ cells)
    (hperm : (series.flatMap fun s => s.points.map fun a =>
        (joinedKey s.groupValues, a.ts, column.ofAggregate a)).Perm
      (cells.map fun c => (joinedKey c.2, c.1, foldNull (· + ·)
        ((points.filter fun p => cell p = c).map column.ofPoint)))) :
    mass column series = (points.filterMap column.ofPoint).sum := by
  have hcolumn := hperm.map fun x => x.2.2
  rw [List.map_flatMap, List.map_map] at hcolumn
  have hshown : (series.flatMap fun s => (s.points.map fun a =>
        (joinedKey s.groupValues, a.ts, column.ofAggregate a)).map fun x => x.2.2) =
      (series.flatMap AggregateSeries.points).map column.ofAggregate := by
    rw [List.map_flatMap]
    exact List.flatMap_congr fun s _ => List.map_map
  rw [hshown] at hcolumn
  have hcellSum : ∀ c, (foldNull (· + ·)
        ((points.filter fun p => cell p = c).map column.ofPoint)).getD 0 =
      (((points.filter fun p => (column.ofPoint p).isSome).filter fun p => cell p = c).map
        fun p => (column.ofPoint p).getD 0).sum := by
    intro c
    rw [getD_foldNull, List.filterMap_map, Function.id_comp, sum_filterMap_eq,
      List.filter_filter, List.filter_filter]
    simp only [Bool.and_comm]
  have hsum : mass column series = (cells.map fun c => (foldNull (· + ·)
      ((points.filter fun p => cell p = c).map column.ofPoint)).getD 0).sum := by
    have hgetD := (hcolumn.filterMap id).sum_eq
    rw [List.filterMap_map, Function.id_comp] at hgetD
    rw [mass, hgetD, List.filterMap_map, sum_filterMap_getD]
    rfl
  rw [hsum, sum_filterMap_eq, List.map_congr_left fun c _ => hcellSum c]
  refine sum_by_keys _ hnodup fun p hp => ?_
  obtain ⟨hp, hsome⟩ := List.mem_filter.mp hp
  exact hcells p hp hsome

/-- The aggregate has what the derived points have, each point in one cell, whatever the
breakdown and the width. -/
theorem metricAggregate_conserves
    (db : Db K) (json : JsonFunctions) {serviceName metricName metricType : String}
    (htype : ∀ s ∈ db.metricSeries.rows, s.row.serviceName = serviceName →
      s.row.metricName = metricName → s.row.metricType = metricType)
    {groupBy : List String} (hgroup : groupBy ≠ []) {bucket : Int} (hbucket : second ≤ bucket)
    (fromTs toTs : Time) {column : MassColumn} (hcolumn : column.AppliesTo metricType) :
    let points := (db.metricPointsWithPredecessors (exactOps K) serviceName metricName
      fromTs toTs).filter fun p => decide (fromTs ≤ p.ts) && decide (p.ts < toTs)
    ∃ series, db.metricAggregate (exactOps K) json serviceName metricName groupBy bucket
        fromTs toTs = .ok series ∧
      mass column series = (points.filterMap column.ofPoint).sum ∧
      (∃ cells : List (Time × List String), cells.Nodup ∧
        (∀ p ∈ points, (column.ofPoint p).isSome = true →
          p.cell json groupBy (bucket / second) ∈ cells) ∧
        (series.flatMap fun s => s.points.map fun a =>
            (joinedKey s.groupValues, a.ts, column.ofAggregate a)).Perm
          (cells.map fun c => (joinedKey c.2, c.1, foldNull (· + ·)
            ((points.filter fun p => p.cell json groupBy (bucket / second) = c).map
              column.ofPoint)))) ∧
      ∀ groupBy' ≠ [], ∀ bucket' ≥ second, ∃ series',
        db.metricAggregate (exactOps K) json serviceName metricName groupBy' bucket'
          fromTs toTs = .ok series' ∧
        mass column series' = mass column series := by
  intro points
  have htotal : ∀ groupBy' ≠ [], ∀ bucket' ≥ second, ∃ series',
      db.metricAggregate (exactOps K) json serviceName metricName groupBy' bucket'
        fromTs toTs = .ok series' ∧
      mass column series' = (points.filterMap column.ofPoint).sum := by
    intro groupBy' hgroup' bucket' hbucket'
    obtain ⟨series', hcall, cells, hnodup, hcells, hperm⟩ :=
      metricAggregate_cells db json htype hgroup' hbucket' fromTs toTs hcolumn
    exact ⟨series', hcall, mass_of_cells hnodup hcells hperm⟩
  obtain ⟨series, hcall, cells, hnodup, hcells, hperm⟩ :=
    metricAggregate_cells db json htype hgroup hbucket fromTs toTs hcolumn
  have hmass : mass column series = (points.filterMap column.ofPoint).sum :=
    mass_of_cells hnodup hcells hperm
  refine ⟨series, hcall, hmass, ⟨cells, hnodup, hcells, hperm⟩, ?_⟩
  intro groupBy' hgroup' bucket' hbucket'
  obtain ⟨series', hcall', hmass'⟩ := htotal groupBy' hgroup' bucket' hbucket'
  exact ⟨series', hcall', hmass'.trans hmass.symm⟩

end Exact

/-! ### Two workers of one region -/

def sumPoint (id : UUID) (seriesKey : UInt64) (ts : Time) (value : Int) : MetricPointRow ℚ where
  id := id
  seriesKey := seriesKey
  ts := ts
  startTS := none
  flags := 0
  valueInt := some value
  valueDouble := none
  count := none
  sum := none
  min := none
  max := none
  histogramLayoutHash := none
  bucketCounts := []
  zeroCount := none
  positiveOffset := none
  positiveBucketCounts := []
  negativeOffset := none
  negativeBucketCounts := []
  summaryQuantiles := []
  summaryQuantileValues := []

def sampleWorkers : Db ℚ :=
  { Db.empty ℚ with
    metricSeries := ⟨[⟨sampleSeries, 0, 0⟩, ⟨{ sampleSeries with seriesKey := 8 }, 0, 0⟩],
      by decide⟩
    metricPoints := [sumPoint 1 7 0 100, sumPoint 2 7 60 120, sumPoint 3 7 120 5,
      sumPoint 4 8 60 50, sumPoint 5 8 120 60].map fun p => ⟨p, 0⟩ }

theorem metricAggregate_conserves_sample :
    let points := (sampleWorkers.metricPointsWithPredecessors (exactOps ℚ) "checkout" "requests"
      60 180).filter fun p => decide ((60 : Time) ≤ p.ts) && decide (p.ts < 180)
    ∃ series, sampleWorkers.metricAggregate (exactOps ℚ) sampleJson "checkout" "requests"
        ["region"] second 60 180 = .ok series ∧
      mass .value series = (points.filterMap MassColumn.value.ofPoint).sum ∧
      (∃ cells : List (Time × List String), cells.Nodup ∧
        (∀ p ∈ points, (MassColumn.value.ofPoint p).isSome = true →
          p.cell sampleJson ["region"] (second / second) ∈ cells) ∧
        (series.flatMap fun s => s.points.map fun a =>
            (joinedKey s.groupValues, a.ts, MassColumn.value.ofAggregate a)).Perm
          (cells.map fun c => (joinedKey c.2, c.1, foldNull (· + ·)
            ((points.filter fun p => p.cell sampleJson ["region"] (second / second) = c).map
              MassColumn.value.ofPoint)))) ∧
      ∀ groupBy' ≠ [], ∀ bucket' ≥ second, ∃ series',
        sampleWorkers.metricAggregate (exactOps ℚ) sampleJson "checkout" "requests" groupBy'
          bucket' 60 180 = .ok series' ∧
        mass .value series' = mass .value series :=
  metricAggregate_conserves sampleWorkers sampleJson
    (by
      intro s hs _ _
      rcases List.mem_cons.mp hs with rfl | hs
      · rfl
      · rcases List.mem_cons.mp hs with rfl | hs
        · rfl
        · cases hs)
    (by decide) le_rfl 60 180 rfl

/-- A reset and two deltas add up to 35, in one bucket. -/
example :
    ((sampleWorkers.metricAggregate (exactOps ℚ) sampleJson "checkout" "requests" ["region"]
      second 60 180).toOption.map (mass .value)) = some 35 := by
  decide +kernel

end Storage
end Otelop
