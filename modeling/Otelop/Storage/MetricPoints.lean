import Mathlib.Tactic
import Otelop.Lib.Choose
import Otelop.Storage.Rows

/-!
# Derived metric points

`internal/storage/query_metric.go` derives a delta for each point of a cumulative
series from the point before it, `lag(...) OVER w`.  A query for a window adds
the last older point of each series that needs one, so that the first point of
the window has a point before it as well.

A row of the `points` CTE carries the series columns it was joined with, and a
request index, which the query for several groups uses.  `ops` holds the
arithmetic of the type of a `DOUBLE`, about which nothing is assumed.

**Results.**
* `lag_eq_of_covers`: the point before a point of the window is the one in the
  full history.
* `derivedPoint_eq_of_covers`: so are the values derived for it, but for the running totals
  of a series of deltas.
* `windowDerivation_eq`: a window shows the points of the full history.
-/

namespace Otelop
namespace Storage

open Lib

/-- The arithmetic of a `DOUBLE`. -/
structure DoubleOps (V : Type) where
  zero : V
  ofInt : Int → V
  add : V → V → V
  sub : V → V → V
  div : V → V → V
  lt : V → V → Bool
  le : V → V → Bool

/-- Exact arithmetic. -/
def exactOps (K : Type) [Field K] [LinearOrder K] : DoubleOps K where
  zero := 0
  ofInt n := n
  add := (· + ·)
  sub := (· - ·)
  div := (· / ·)
  lt x y := decide (x < y)
  le x y := decide (x ≤ y)

/-- A row of the `points` CTE. -/
structure PointRow (V : Type) where
  requestIndex : Nat
  id : UUID
  seriesKey : UInt64
  ts : Time
  value : Option V
  count : Option V
  sum : Option V
  min : Option V
  max : Option V
  metricType : String
  temporality : String
  isMonotonic : Bool
  attributes : Attributes

/-- `DerivedPoint` -/
structure DerivedPoint (V : Type) where
  id : UUID
  seriesKey : UInt64
  ts : Time
  type : String
  value : Option V
  cumulative : Option V
  count : Option V
  countCumulative : Option V
  sum : Option V
  sumCumulative : Option V
  min : Option V
  max : Option V
  attributes : Attributes

/-- `IsDistributionType`, and `IN ('Histogram', 'ExponentialHistogram', 'Summary')` -/
def isDistributionType (metricType : String) : Bool :=
  metricType = "Histogram" || metricType = "ExponentialHistogram" || metricType = "Summary"

section Derivation

variable {V : Type}

/-- `metric_type = 'Sum' AND temporality = 'cumulative' AND is_monotonic` -/
def PointRow.isCounter (p : PointRow V) : Bool :=
  p.metricType = "Sum" && p.temporality = "cumulative" && p.isMonotonic

/-- `predecessorRequiredSQL` -/
def PointRow.predecessorRequired (p : PointRow V) : Bool :=
  p.temporality = "cumulative" &&
    (p.metricType = "Sum" && p.isMonotonic || isDistributionType p.metricType)

/-! ### The window functions -/

/-- `PARTITION BY request_index, series_key` -/
def PointRow.samePartition (p q : PointRow V) : Bool :=
  p.requestIndex = q.requestIndex && p.seriesKey = q.seriesKey

/-- The order of the points of a series. -/
def pointBefore : PointRow V → PointRow V → Bool := lexBefore PointRow.ts PointRow.id

/-- `ORDER BY ts DESC, id DESC` -/
def latestBefore : PointRow V → PointRow V → Bool :=
  lexBefore (fun p => OrderDual.toDual p.ts) (fun p => OrderDual.toDual p.id)

/-- The row whose columns `lag(...) OVER w` shows. -/
def lag (points : List (PointRow V)) (p : PointRow V) : Option (PointRow V) :=
  firstBy latestBefore (points.filter fun q => q.samePartition p && pointBefore q p)

/-- `sum(column) OVER w`: nulls are skipped, and rows with the time of the current
row count. -/
def sumOver (ops : DoubleOps V) (points : List (PointRow V)) (column : PointRow V → Option V)
    (p : PointRow V) : Option V :=
  (points.filter fun q => q.samePartition p && decide (q.ts ≤ p.ts)).foldl
    (fun total q =>
      match total, column q with
      | none, v => v
      | some t, none => some t
      | some t, some v => some (ops.add t v))
    none

/-- `CASE WHEN lag(x) OVER w IS NULL THEN NULL WHEN x < lag(x) OVER w THEN x
ELSE x - lag(x) OVER w END` -/
def lagDelta (ops : DoubleOps V) (previous current : Option V) : Option V :=
  match previous, current with
  | none, _ => none
  | some _, none => none
  | some p, some x => if ops.lt x p then some x else some (ops.sub x p)

/-- A row of the `derived` CTE. -/
structure DerivedRow (V : Type) where
  requestIndex : Nat
  id : UUID
  seriesKey : UInt64
  ts : Time
  attributes : Attributes
  metricType : String
  scalarValue : Option V
  scalarCumulative : Option V
  countDelta : Option V
  countCumulative : Option V
  sumDelta : Option V
  sumCumulative : Option V
  min : Option V
  max : Option V

/-- `metricDerivedFormula` for one row: `previous` is the row `lag` shows, `runningSum`
computes the running sum of a column. -/
def derivedRow (ops : DoubleOps V) (p : PointRow V) (previous : Option (PointRow V))
    (runningSum : (PointRow V → Option V) → Option V) : DerivedRow V where
  requestIndex := p.requestIndex
  id := p.id
  seriesKey := p.seriesKey
  ts := p.ts
  attributes := p.attributes
  metricType := p.metricType
  scalarValue :=
    if p.isCounter then lagDelta ops (previous.bind PointRow.value) p.value else p.value
  scalarCumulative :=
    if p.isCounter then p.value
    else if p.metricType = "Sum" && p.temporality = "delta" && p.isMonotonic then
      runningSum PointRow.value
    else none
  countDelta :=
    if p.temporality = "cumulative" then lagDelta ops (previous.bind PointRow.count) p.count
    else p.count
  countCumulative :=
    if p.temporality = "cumulative" then p.count
    else if p.temporality = "delta" then runningSum PointRow.count
    else none
  sumDelta :=
    if p.temporality = "cumulative" then lagDelta ops (previous.bind PointRow.sum) p.sum
    else p.sum
  sumCumulative :=
    if p.temporality = "cumulative" then p.sum
    else if p.temporality = "delta" then runningSum PointRow.sum
    else none
  min := p.min
  max := p.max

/-- The average of the observations of a distribution row. -/
def averageValue (ops : DoubleOps V) (sumDelta countDelta : Option V) : V :=
  match sumDelta, countDelta with
  | some s, some c => if ops.le c ops.zero then ops.zero else ops.div s c
  | _, _ => ops.zero

/-- The columns of `metricPointsSelect`. -/
def DerivedRow.point (ops : DoubleOps V) (d : DerivedRow V) : DerivedPoint V where
  id := d.id
  seriesKey := d.seriesKey
  ts := d.ts
  type := d.metricType
  value :=
    if isDistributionType d.metricType then some (averageValue ops d.sumDelta d.countDelta)
    else d.scalarValue
  cumulative := if isDistributionType d.metricType then none else d.scalarCumulative
  count := if isDistributionType d.metricType then d.countDelta else none
  countCumulative := if isDistributionType d.metricType then d.countCumulative else none
  sum := if isDistributionType d.metricType then d.sumDelta else none
  sumCumulative := if isDistributionType d.metricType then d.sumCumulative else none
  min := d.min
  max := d.max
  attributes := d.attributes

/-- The derived point of a row among `points`. -/
def derivedPoint (ops : DoubleOps V) (points : List (PointRow V)) (p : PointRow V) :
    DerivedPoint V :=
  (derivedRow ops p (lag points p) fun column => sumOver ops points column p).point ops

/-- `FilterDerivedPoints` keeps the point. -/
def DerivedPoint.isDerived (p : DerivedPoint V) : Bool :=
  p.value.isSome && !(isDistributionType p.type && p.count.isNone)

def filterDerivedPoints (points : List (DerivedPoint V)) : List (DerivedPoint V) :=
  points.filter DerivedPoint.isDerived

/-! ### The queries -/

/-- A point joined with its series. -/
def StoredPoint.pointRow (ops : DoubleOps V) (requestIndex : Nat) (s : StoredSeries)
    (p : StoredPoint V) : PointRow V where
  requestIndex := requestIndex
  id := p.row.id
  seriesKey := p.row.seriesKey
  ts := p.row.ts
  value := p.row.valueDouble.or (p.row.valueInt.map ops.ofInt)
  count := p.row.count.map fun n => ops.ofInt n
  sum := p.row.sum
  min := p.row.min
  max := p.row.max
  metricType := s.row.metricType
  temporality := s.row.temporality
  isMonotonic := s.row.isMonotonic
  attributes := s.row.attributes

/-- The points of every series of a group. -/
def Db.groupPoints (db : Db V) (ops : DoubleOps V) (requestIndex : Nat)
    (serviceName metricName : String) : List (PointRow V) :=
  db.metricPoints.filterMap fun p =>
    (db.metricSeries.find? p.row.seriesKey).bind fun s =>
      if s.row.serviceName = serviceName && s.row.metricName = metricName then
        some (p.pointRow ops requestIndex s)
      else none

def inWindow (fromTs toTs : Time) (p : PointRow V) : Bool :=
  decide (fromTs ≤ p.ts) && decide (p.ts < toTs)

/-- `window_points` -/
def windowPoints (group : List (PointRow V)) (fromTs toTs : Time) : List (PointRow V) :=
  group.filter (inWindow fromTs toTs)

/-- `represented_series` -/
def representedSeries (window : List (PointRow V)) : List UInt64 :=
  ((window.filter PointRow.predecessorRequired).map PointRow.seriesKey).dedup

/-- The rows of rank 1 before the window. -/
def predecessors (group : List (PointRow V)) (fromTs toTs : Time) : List (PointRow V) :=
  (representedSeries (windowPoints group fromTs toTs)).filterMap fun key =>
    firstBy latestBefore (group.filter fun p => p.seriesKey = key && decide (p.ts < fromTs))

/-- The `points` CTE of `metricPointsWithPredecessorsQuery`. -/
def pointsWithPredecessors (group : List (PointRow V)) (fromTs toTs : Time) :
    List (PointRow V) :=
  windowPoints group fromTs toTs ++ predecessors group fromTs toTs

/-- `ORDER BY ts` -/
def orderByTs (points : List (DerivedPoint V)) : List (DerivedPoint V) :=
  points.insertionSort fun p q => p.ts ≤ q.ts

/-- `metricDerivedFormula` and `metricPointsSelect` over the rows. -/
def derivePoints (ops : DoubleOps V) (points : List (PointRow V)) : List (DerivedPoint V) :=
  orderByTs (points.map (derivedPoint ops points))

def Db.metricPointsWithPredecessors (db : Db V) (ops : DoubleOps V)
    (serviceName metricName : String) (fromTs toTs : Time) : List (DerivedPoint V) :=
  derivePoints ops
    (pointsWithPredecessors (db.groupPoints ops 0 serviceName metricName) fromTs toTs)

/-- `filterDerivedPointsInWindow` -/
def filterDerivedPointsInWindow (points : List (DerivedPoint V)) (fromTs toTs : Time) :
    List (DerivedPoint V) :=
  (filterDerivedPoints points).filter fun p => decide (fromTs ≤ p.ts) && decide (p.ts < toTs)

/-! ### The point before a point of the window -/

/-- The rows a query selected contain what the window functions look at: of the
series of `group`, everything in the window, and the last older row where it is
required.  Rows of other requests may be among them. -/
structure Covers (points group : List (PointRow V)) (fromTs toTs : Time) : Prop where
  sub : ∀ q ∈ points, ∀ p ∈ group, q.samePartition p = true → q ∈ group
  window : ∀ q ∈ windowPoints group fromTs toTs, q ∈ points
  predecessor : ∀ q ∈ predecessors group fromTs toTs, q ∈ points

theorem latestBefore_strictOrder : StrictOrder (latestBefore (V := V)) :=
  lexBefore_strictOrder

/-- Where a row stands in the order of its series. -/
def PointRow.position (p : PointRow V) : UInt64 × Time × UUID := (p.seriesKey, p.ts, p.id)

/-- The rows of one series are comparable. -/
theorem latestBefore_totalOn
    {group : List (PointRow V)} (hpositions : (group.map PointRow.position).Nodup)
    {l : List (PointRow V)} {key : UInt64}
    (hl : ∀ q ∈ l, q ∈ group ∧ q.seriesKey = key) :
    TotalOn latestBefore l := by
  intro x hx y hy hne
  rw [latestBefore, lexBefore_iff, lexBefore_iff]
  rcases lt_trichotomy x.ts y.ts with h | h | h
  · exact Or.inr (Or.inl (OrderDual.toDual_lt_toDual.mpr h))
  · have hid : x.id ≠ y.id := by
      intro hid
      refine hne (List.inj_on_of_nodup_map hpositions (hl x hx).1 (hl y hy).1 ?_)
      rw [PointRow.position, PointRow.position, (hl x hx).2, (hl y hy).2, h, hid]
    rcases lt_or_gt_of_ne hid with hlt | hgt
    · exact Or.inr (Or.inr ⟨congrArg _ h.symm, OrderDual.toDual_lt_toDual.mpr hlt⟩)
    · exact Or.inl (Or.inr ⟨congrArg _ h, OrderDual.toDual_lt_toDual.mpr hgt⟩)
  · exact Or.inl (Or.inl (OrderDual.toDual_lt_toDual.mpr h))

theorem seriesKey_of_samePartition {p q : PointRow V} (h : q.samePartition p = true) :
    q.seriesKey = p.seriesKey := by
  rw [PointRow.samePartition, Bool.and_eq_true, decide_eq_true_eq, decide_eq_true_eq] at h
  exact h.2

theorem mem_lagRows {points : List (PointRow V)} {p q : PointRow V} :
    q ∈ points.filter (fun q => q.samePartition p && pointBefore q p) ↔
      q ∈ points ∧ q.samePartition p = true ∧ pointBefore q p = true := by
  rw [List.mem_filter, Bool.and_eq_true]

/-- An older row comes before every row of the window. -/
theorem pointBefore_of_lt {p q : PointRow V} (h : q.ts < p.ts) : pointBefore q p = true :=
  lexBefore_iff.mpr (Or.inl h)

theorem ts_le_of_pointBefore {p q : PointRow V} (h : pointBefore q p = true) :
    q.ts ≤ p.ts := by
  rcases lexBefore_iff.mp h with h | ⟨h, -⟩
  · exact le_of_lt h
  · exact le_of_eq h

theorem mem_windowPoints {group : List (PointRow V)} {fromTs toTs : Time} {p : PointRow V} :
    p ∈ windowPoints group fromTs toTs ↔ p ∈ group ∧ fromTs ≤ p.ts ∧ p.ts < toTs := by
  rw [windowPoints, List.mem_filter, inWindow, Bool.and_eq_true, decide_eq_true_eq,
    decide_eq_true_eq]

/-- The last older row of the series of a row of the window is selected. -/
theorem mem_predecessors
    {group : List (PointRow V)} {fromTs toTs : Time} {p q : PointRow V}
    (hp : p ∈ windowPoints group fromTs toTs) (hrequired : p.predecessorRequired = true)
    (hq : firstBy latestBefore
      (group.filter fun x => x.seriesKey = p.seriesKey && decide (x.ts < fromTs)) = some q) :
    q ∈ predecessors group fromTs toTs := by
  refine List.mem_filterMap.mpr ⟨p.seriesKey, ?_, hq⟩
  exact List.mem_dedup.mpr
    (List.mem_map_of_mem (List.mem_filter.mpr ⟨hp, hrequired⟩))

theorem lag_eq_of_covers
    {points group : List (PointRow V)} {fromTs toTs : Time}
    (hpositions : (group.map PointRow.position).Nodup)
    (hrequest : ∀ p ∈ group, ∀ q ∈ group, p.requestIndex = q.requestIndex)
    (hcovers : Covers points group fromTs toTs) {p : PointRow V}
    (hp : p ∈ windowPoints group fromTs toTs) (hrequired : p.predecessorRequired = true) :
    lag points p = lag group p := by
  obtain ⟨hgroup, hfrom, hto⟩ := mem_windowPoints.mp hp
  have hsub : ∀ q ∈ points.filter (fun q => q.samePartition p && pointBefore q p),
      q ∈ group.filter fun q => q.samePartition p && pointBefore q p := by
    intro q hq
    obtain ⟨hmem, hsame, hbefore⟩ := mem_lagRows.mp hq
    exact mem_lagRows.mpr ⟨hcovers.sub q hmem p hgroup hsame, hsame, hbefore⟩
  cases hlag : lag group p with
  | none =>
      rw [lag, firstBy_eq_none_iff] at hlag ⊢
      refine List.eq_nil_iff_forall_not_mem.mpr fun q hq => ?_
      have := hsub q hq
      rw [hlag] at this
      exact absurd this List.not_mem_nil
  | some x =>
      have hfirst : IsFirst latestBefore _ x := firstBy_isFirst latestBefore_strictOrder hlag
      obtain ⟨hx, hsame, hbefore⟩ := mem_lagRows.mp hfirst.1
      have htotal : ∀ l : List (PointRow V),
          (∀ q ∈ l, q ∈ group ∧ q.seriesKey = p.seriesKey) → TotalOn latestBefore l :=
        fun l hl => latestBefore_totalOn hpositions hl
      have hlag : ∀ q ∈ points.filter (fun q => q.samePartition p && pointBefore q p),
          q ∈ group ∧ q.seriesKey = p.seriesKey := by
        intro q hq
        obtain ⟨hqgroup, hqsame, -⟩ := mem_lagRows.mp (hsub q hq)
        exact ⟨hqgroup, seriesKey_of_samePartition hqsame⟩
      rw [lag, firstBy_eq_some_iff latestBefore_strictOrder (htotal _ hlag)]
      refine ⟨mem_lagRows.mpr ⟨?_, hsame, hbefore⟩, fun q hq => hfirst.2 q (hsub q hq)⟩
      by_cases hold : x.ts < fromTs
      · -- The last older row of the series is the last row before `p`.
        have hkey : x.seriesKey = p.seriesKey := seriesKey_of_samePartition hsame
        have hrows : ∀ q ∈ group.filter
              (fun q => q.seriesKey = p.seriesKey && decide (q.ts < fromTs)),
            q ∈ group ∧ q.seriesKey = p.seriesKey ∧ q.ts < fromTs := by
          intro q hq
          obtain ⟨hqgroup, hq⟩ := List.mem_filter.mp hq
          rw [Bool.and_eq_true, decide_eq_true_eq, decide_eq_true_eq] at hq
          exact ⟨hqgroup, hq⟩
        have hxold : x ∈ group.filter
            fun q => q.seriesKey = p.seriesKey && decide (q.ts < fromTs) :=
          List.mem_filter.mpr ⟨hx, by simp [hkey, hold]⟩
        refine hcovers.predecessor x (mem_predecessors hp hrequired ?_)
        rw [firstBy_eq_some_iff latestBefore_strictOrder
          (htotal _ fun q hq => ⟨(hrows q hq).1, (hrows q hq).2.1⟩)]
        refine ⟨hxold, fun q hq => hfirst.2 q ?_⟩
        obtain ⟨hqgroup, hqkey, hqts⟩ := hrows q hq
        refine mem_lagRows.mpr ⟨hqgroup, ?_, pointBefore_of_lt (lt_of_lt_of_le hqts hfrom)⟩
        rw [PointRow.samePartition, hrequest q hqgroup p hgroup, hqkey]
        simp
      · refine hcovers.window x (mem_windowPoints.mpr ⟨hx, not_lt.mp hold, ?_⟩)
        exact lt_of_le_of_lt (ts_le_of_pointBefore hbefore) hto

/-! ### The values of a point of the window -/

/-- Only the rows that require a predecessor show what `lag` gives. -/
theorem point_of_not_required
    (ops : DoubleOps V) {p : PointRow V} (h : p.predecessorRequired = false)
    (previous previous' : Option (PointRow V)) (runningSum : (PointRow V → Option V) → Option V) :
    (derivedRow ops p previous runningSum).point ops =
      (derivedRow ops p previous' runningSum).point ops := by
  by_cases hcumulative : p.temporality = "cumulative"
  · have hparts : (p.metricType = "Sum" && p.isMonotonic) = false ∧
        isDistributionType p.metricType = false := by
      rw [PointRow.predecessorRequired, decide_eq_true hcumulative, Bool.true_and,
        Bool.or_eq_false_iff] at h
      exact h
    have hcounter : p.isCounter = false := by
      rw [PointRow.isCounter, Bool.and_assoc, Bool.and_comm (decide (p.temporality = _)),
        ← Bool.and_assoc, hparts.1, Bool.false_and]
    simp [derivedRow, DerivedRow.point, hcounter, hparts.2]
  · have hcounter : p.isCounter = false := by
      simp [PointRow.isCounter, hcumulative]
    simp [derivedRow, DerivedRow.point, hcounter, hcumulative]

/-- A point without the running totals. -/
def DerivedPoint.withoutTotals (p : DerivedPoint V) : DerivedPoint V :=
  { p with cumulative := none, countCumulative := none, sumCumulative := none }

/-- The derived point of a row, without the running totals of a series of
deltas, which start with the window. -/
def dropDeltaTotals (temporality : String) (p : DerivedPoint V) : DerivedPoint V :=
  if temporality = "delta" then p.withoutTotals else p

theorem point_of_runningSum
    (ops : DoubleOps V) (p : PointRow V) (previous : Option (PointRow V))
    (runningSum runningSum' : (PointRow V → Option V) → Option V) :
    dropDeltaTotals p.temporality ((derivedRow ops p previous runningSum).point ops) =
      dropDeltaTotals p.temporality ((derivedRow ops p previous runningSum').point ops) := by
  by_cases hdelta : p.temporality = "delta"
  · simp [dropDeltaTotals, hdelta, derivedRow, DerivedRow.point, DerivedPoint.withoutTotals]
  · have hcumulative : (p.metricType = "Sum" && p.temporality = "delta" && p.isMonotonic) =
        false := by
      simp [hdelta]
    simp [dropDeltaTotals, hdelta, derivedRow, DerivedRow.point]

/-- A point of the window gets the values the full history gives it. -/
theorem derivedPoint_eq_of_covers
    (ops : DoubleOps V) {points group : List (PointRow V)} {fromTs toTs : Time}
    (hpositions : (group.map PointRow.position).Nodup)
    (hrequest : ∀ p ∈ group, ∀ q ∈ group, p.requestIndex = q.requestIndex)
    (hcovers : Covers points group fromTs toTs) {p : PointRow V}
    (hp : p ∈ windowPoints group fromTs toTs) :
    dropDeltaTotals p.temporality (derivedPoint ops points p) =
      dropDeltaTotals p.temporality (derivedPoint ops group p) := by
  have hprevious : (derivedRow ops p (lag points p)
        fun column => sumOver ops points column p).point ops =
      (derivedRow ops p (lag group p) fun column => sumOver ops points column p).point ops := by
    cases hrequired : p.predecessorRequired with
    | true => rw [lag_eq_of_covers hpositions hrequest hcovers hp hrequired]
    | false => exact point_of_not_required ops hrequired _ _ _
  rw [derivedPoint, derivedPoint, hprevious]
  exact point_of_runningSum ops p _ _ _

/-- The running totals do not decide whether a point is shown. -/
theorem isDerived_dropDeltaTotals (temporality : String) (p : DerivedPoint V) :
    (dropDeltaTotals temporality p).isDerived = p.isDerived := by
  rw [dropDeltaTotals]
  split <;> rfl

/-! ### The queries -/

theorem predecessors_old
    {group : List (PointRow V)} {fromTs toTs : Time} {q : PointRow V}
    (hq : q ∈ predecessors group fromTs toTs) :
    q ∈ group ∧ q.ts < fromTs := by
  obtain ⟨key, -, hfirst⟩ := List.mem_filterMap.mp hq
  have hmem := List.mem_filter.mp (firstBy_isFirst latestBefore_strictOrder hfirst).1
  have hold := hmem.2
  rw [Bool.and_eq_true, decide_eq_true_eq, decide_eq_true_eq] at hold
  exact ⟨hmem.1, hold.2⟩

theorem covers_pointsWithPredecessors (group : List (PointRow V)) (fromTs toTs : Time) :
    Covers (pointsWithPredecessors group fromTs toTs) group fromTs toTs where
  sub q hq _ _ _ := by
    rcases List.mem_append.mp hq with hq | hq
    · exact (mem_windowPoints.mp hq).1
    · exact (predecessors_old hq).1
  window q hq := List.mem_append_left _ hq
  predecessor q hq := List.mem_append_right _ hq

theorem derivePoints_perm (ops : DoubleOps V) (points : List (PointRow V)) :
    (derivePoints ops points).Perm (points.map (derivedPoint ops points)) :=
  List.perm_insertionSort _ _

/-- Deriving a list of rows and looking at the window, in whatever order. -/
theorem filterDerivedPointsInWindow_perm
    (ops : DoubleOps V) (points : List (PointRow V)) (fromTs toTs : Time) :
    (filterDerivedPointsInWindow (derivePoints ops points) fromTs toTs).Perm
      (((points.filter (inWindow fromTs toTs)).map (derivedPoint ops points)).filter
        DerivedPoint.isDerived) := by
  have hwindow : ((points.map (derivedPoint ops points)).filter fun p =>
        decide (fromTs ≤ p.ts) && decide (p.ts < toTs)) =
      (points.filter (inWindow fromTs toTs)).map (derivedPoint ops points) := by
    rw [List.filter_map]
    rfl
  rw [filterDerivedPointsInWindow, filterDerivedPoints, List.filter_filter, ← hwindow,
    List.filter_filter]
  refine ((derivePoints_perm ops points).filter _).trans (List.Perm.of_eq ?_)
  exact List.filter_congr fun p _ => Bool.and_comm _ _

/-- The rows of the window are the same for the query and for the full history. -/
theorem window_pointsWithPredecessors (group : List (PointRow V)) (fromTs toTs : Time) :
    (pointsWithPredecessors group fromTs toTs).filter (inWindow fromTs toTs) =
      windowPoints group fromTs toTs := by
  have hold : (predecessors group fromTs toTs).filter (inWindow fromTs toTs) = [] := by
    refine List.filter_eq_nil_iff.mpr fun q hq hin => ?_
    rw [inWindow, Bool.and_eq_true, decide_eq_true_eq, decide_eq_true_eq] at hin
    exact absurd (predecessors_old hq).2 (not_lt.mpr hin.1)
  rw [pointsWithPredecessors, List.filter_append, hold, List.append_nil, windowPoints,
    List.filter_filter]
  exact List.filter_congr fun p _ => Bool.and_self _

/-- A point without the running totals, where its series is one of deltas. -/
def Db.withoutDeltaTotals (db : Db V) (p : DerivedPoint V) : DerivedPoint V :=
  match db.metricSeries.find? p.seriesKey with
  | some s => dropDeltaTotals s.row.temporality p
  | none => p

theorem mem_groupPoints
    {db : Db V} {ops : DoubleOps V} {requestIndex : Nat} {serviceName metricName : String}
    {p : PointRow V} :
    p ∈ db.groupPoints ops requestIndex serviceName metricName ↔
      ∃ q ∈ db.metricPoints, ∃ s, db.metricSeries.find? q.row.seriesKey = some s ∧
        s.row.serviceName = serviceName ∧ s.row.metricName = metricName ∧
        p = q.pointRow ops requestIndex s := by
  rw [Db.groupPoints, List.mem_filterMap]
  constructor
  · rintro ⟨q, hq, hrow⟩
    obtain ⟨s, hs, hrow⟩ := Option.bind_eq_some_iff.mp hrow
    split at hrow
    · rename_i hgroup
      rw [Bool.and_eq_true, decide_eq_true_eq, decide_eq_true_eq] at hgroup
      exact ⟨q, hq, s, hs, hgroup.1, hgroup.2, (Option.some.inj hrow).symm⟩
    · cases hrow
  · rintro ⟨q, hq, s, hs, hservice, hname, rfl⟩
    refine ⟨q, hq, Option.bind_eq_some_iff.mpr ⟨s, hs, ?_⟩⟩
    rw [if_pos (by simp [hservice, hname])]

theorem requestIndex_of_mem_groupPoints
    {db : Db V} {ops : DoubleOps V} {requestIndex : Nat} {serviceName metricName : String}
    {p : PointRow V} (hp : p ∈ db.groupPoints ops requestIndex serviceName metricName) :
    p.requestIndex = requestIndex := by
  obtain ⟨q, -, s, -, -, -, rfl⟩ := mem_groupPoints.mp hp
  rfl

/-- Erasing the running totals looks at the temporality the row was joined with. -/
theorem withoutDeltaTotals_derivedPoint
    {db : Db V} {ops : DoubleOps V} {requestIndex : Nat} {serviceName metricName : String}
    {p : PointRow V} (hp : p ∈ db.groupPoints ops requestIndex serviceName metricName)
    (points : List (PointRow V)) :
    db.withoutDeltaTotals (derivedPoint ops points p) =
      dropDeltaTotals p.temporality (derivedPoint ops points p) := by
  obtain ⟨q, -, s, hs, -, -, rfl⟩ := mem_groupPoints.mp hp
  have hkey : (derivedPoint ops points (q.pointRow ops requestIndex s)).seriesKey =
      q.row.seriesKey := rfl
  rw [Db.withoutDeltaTotals, hkey, hs]
  rfl

/-- Where the points of the store stand in the order of their series. -/
def Db.pointPositions (db : Db V) : List (UInt64 × Time × UUID) :=
  db.metricPoints.map fun p => (p.row.seriesKey, p.row.ts, p.row.id)

theorem groupPoints_positions
    {db : Db V} (hpositions : db.pointPositions.Nodup)
    (ops : DoubleOps V) (requestIndex : Nat) (serviceName metricName : String) :
    ((db.groupPoints ops requestIndex serviceName metricName).map PointRow.position).Nodup := by
  have hrow : ∀ (q : StoredPoint V) (p : PointRow V),
      ((db.metricSeries.find? q.row.seriesKey).bind fun s =>
        if s.row.serviceName = serviceName && s.row.metricName = metricName then
          some (q.pointRow ops requestIndex s)
        else none) = some p →
      p.position = (q.row.seriesKey, q.row.ts, q.row.id) := by
    intro q p hp
    obtain ⟨s, -, hp⟩ := Option.bind_eq_some_iff.mp hp
    split at hp
    · cases hp
      rfl
    · cases hp
  rw [Db.groupPoints, List.map_filterMap]
  refine hpositions.sublist ?_
  rw [Db.pointPositions]
  induction db.metricPoints with
  | nil => exact List.Sublist.refl _
  | cons q l ih =>
      rw [List.filterMap_cons, List.map_cons]
      cases hq : (db.metricSeries.find? q.row.seriesKey).bind fun s =>
          if s.row.serviceName = serviceName && s.row.metricName = metricName then
            some (q.pointRow ops requestIndex s)
          else none with
      | none =>
          exact ih.cons _
      | some p =>
          simp only [Option.map_some, hrow q p hq]
          exact ih.cons_cons _

theorem map_withoutDeltaTotals_filter (db : Db V) (l : List (DerivedPoint V)) :
    (l.filter DerivedPoint.isDerived).map db.withoutDeltaTotals =
      (l.map db.withoutDeltaTotals).filter DerivedPoint.isDerived := by
  have hderived : ∀ p : DerivedPoint V,
      p.isDerived = (db.withoutDeltaTotals p).isDerived := by
    intro p
    rw [Db.withoutDeltaTotals]
    split
    · exact (isDerived_dropDeltaTotals _ p).symm
    · rfl
  rw [List.filter_map]
  exact congrArg _ (List.filter_congr fun p _ => hderived p)

/-- The points of a window, derived from any rows that cover it, are those of the full
history. -/
theorem filterDerived_of_covers
    {db : Db V} (hpositions : db.pointPositions.Nodup)
    (ops : DoubleOps V) (requestIndex : Nat) (serviceName metricName : String)
    (fromTs toTs : Time) {points : List (PointRow V)}
    (hcovers : Covers points (db.groupPoints ops requestIndex serviceName metricName)
      fromTs toTs) :
    let group := db.groupPoints ops requestIndex serviceName metricName
    ((((windowPoints group fromTs toTs).map (derivedPoint ops points)).filter
        DerivedPoint.isDerived).map db.withoutDeltaTotals) =
      ((((windowPoints group fromTs toTs).map (derivedPoint ops group)).filter
        DerivedPoint.isDerived).map db.withoutDeltaTotals) := by
  intro group
  have hpoint : ∀ p ∈ windowPoints group fromTs toTs,
      db.withoutDeltaTotals (derivedPoint ops points p) =
        db.withoutDeltaTotals (derivedPoint ops group p) := by
    intro p hp
    have hgroup : p ∈ group := (mem_windowPoints.mp hp).1
    rw [withoutDeltaTotals_derivedPoint hgroup, withoutDeltaTotals_derivedPoint hgroup]
    refine derivedPoint_eq_of_covers ops
      (groupPoints_positions hpositions ops requestIndex serviceName metricName) ?_ hcovers hp
    intro x hx y hy
    rw [requestIndex_of_mem_groupPoints hx, requestIndex_of_mem_groupPoints hy]
  rw [map_withoutDeltaTotals_filter, map_withoutDeltaTotals_filter, List.map_map,
    List.map_map]
  exact congrArg _ (List.map_congr_left hpoint)

/-- A window shows the points the full history gives, whatever the window. -/
theorem windowDerivation_eq
    {db : Db V} (hpositions : db.pointPositions.Nodup)
    (ops : DoubleOps V) (serviceName metricName : String) (fromTs toTs : Time) :
    ((filterDerivedPointsInWindow
        (db.metricPointsWithPredecessors ops serviceName metricName fromTs toTs)
        fromTs toTs).map db.withoutDeltaTotals).Perm
      ((filterDerivedPointsInWindow
        (derivePoints ops (db.groupPoints ops 0 serviceName metricName))
        fromTs toTs).map db.withoutDeltaTotals) := by
  have hquery := (filterDerivedPointsInWindow_perm ops
    (pointsWithPredecessors (db.groupPoints ops 0 serviceName metricName) fromTs toTs)
    fromTs toTs).map db.withoutDeltaTotals
  have hfull := (filterDerivedPointsInWindow_perm ops
    (db.groupPoints ops 0 serviceName metricName) fromTs toTs).map db.withoutDeltaTotals
  rw [window_pointsWithPredecessors, filterDerived_of_covers hpositions ops 0 serviceName
    metricName fromTs toTs (covers_pointsWithPredecessors _ _ _)] at hquery
  exact hquery.trans hfull.symm

/-! ### Several windows in one query -/

/-- `MetricPointWindow` -/
structure MetricPointWindow where
  serviceName : String
  metricName : String
  fromTs : Time
  toTs : Time

/-- The `points` CTE of `metricPointsWithPredecessorsBatchQuery`. -/
def Db.batchPoints (db : Db V) (ops : DoubleOps V) (windows : List MetricPointWindow) :
    List (PointRow V) :=
  (windows.zipIdx.flatMap fun w =>
    windowPoints (db.groupPoints ops w.2 w.1.serviceName w.1.metricName)
      w.1.fromTs w.1.toTs) ++
  windows.zipIdx.flatMap fun w =>
    predecessors (db.groupPoints ops w.2 w.1.serviceName w.1.metricName)
      w.1.fromTs w.1.toTs

/-- `ORDER BY request_index, ts` -/
def orderByRequest (rows : List (Nat × DerivedPoint V)) : List (Nat × DerivedPoint V) :=
  rows.insertionSort fun r r' => r.1 < r'.1 ∨ r.1 = r'.1 ∧ r.2.ts ≤ r'.2.ts

/-- The rows of the query, with their request index. -/
def Db.batchRows (db : Db V) (ops : DoubleOps V) (windows : List MetricPointWindow) :
    List (Nat × DerivedPoint V) :=
  let points := db.batchPoints ops windows
  orderByRequest (points.map fun p => (p.requestIndex, derivedPoint ops points p))

/-- The rows are handed out by their request index. -/
def Db.metricPointsWithPredecessorsBatch (db : Db V) (ops : DoubleOps V)
    (windows : List MetricPointWindow) : List (List (DerivedPoint V)) :=
  (List.range windows.length).map fun i =>
    ((db.batchRows ops windows).filter fun r => r.1 = i).map Prod.snd

/-- The rows made for an index are the rows of the element there. -/
theorem filter_flatMap_zipIdx
    {α β : Type} (f : α × Nat → List β) (index : β → Nat)
    (hf : ∀ x i, ∀ b ∈ f (x, i), index b = i) :
    ∀ (l : List α) (start i : Nat) {x : α}, l[i]? = some x →
      ((l.zipIdx start).flatMap f).filter (fun b => index b = start + i) = f (x, start + i) := by
  intro l
  induction l with
  | nil =>
      intro start i x hx
      cases hx
  | cons a l ih =>
      intro start i x hx
      rw [List.zipIdx_cons, List.flatMap_cons, List.filter_append]
      cases i with
      | zero =>
          cases hx
          have hhead : (f (a, start)).filter (fun b => index b = start + 0) = f (a, start) :=
            List.filter_eq_self.mpr fun b hb => by simp [hf a start b hb]
          have htail : ((l.zipIdx (start + 1)).flatMap f).filter
              (fun b => index b = start + 0) = [] := by
            refine List.filter_eq_nil_iff.mpr fun b hb => ?_
            obtain ⟨y, hy, hb⟩ := List.mem_flatMap.mp hb
            have hle : start + 1 ≤ y.2 := List.le_snd_of_mem_zipIdx hy
            have hindex : index b = y.2 := hf y.1 y.2 b hb
            simp only [decide_eq_true_eq]
            omega
          rw [hhead, htail, List.append_nil, Nat.add_zero]
      | succ i =>
          have hhead : (f (a, start)).filter (fun b => index b = start + (i + 1)) = [] := by
            refine List.filter_eq_nil_iff.mpr fun b hb => ?_
            simp only [decide_eq_true_eq, hf a start b hb]
            omega
          have hnext := ih (start + 1) i (by simpa using hx)
          rw [hhead, List.nil_append, ← Nat.add_assoc, Nat.add_right_comm]
          exact hnext

/-- What the query selects for the request `i`. -/
theorem filter_batchPoints
    (db : Db V) (ops : DoubleOps V) {windows : List MetricPointWindow} {i : Nat}
    {w : MetricPointWindow} (hw : windows[i]? = some w) :
    (db.batchPoints ops windows).filter (fun p => p.requestIndex = i) =
      pointsWithPredecessors (db.groupPoints ops i w.serviceName w.metricName)
        w.fromTs w.toTs := by
  have hwindow := filter_flatMap_zipIdx
    (fun w : MetricPointWindow × Nat =>
      windowPoints (db.groupPoints ops w.2 w.1.serviceName w.1.metricName) w.1.fromTs w.1.toTs)
    PointRow.requestIndex
    (fun _ _ _ hp => requestIndex_of_mem_groupPoints (mem_windowPoints.mp hp).1) windows 0 i hw
  have hold := filter_flatMap_zipIdx
    (fun w : MetricPointWindow × Nat =>
      predecessors (db.groupPoints ops w.2 w.1.serviceName w.1.metricName) w.1.fromTs w.1.toTs)
    PointRow.requestIndex
    (fun _ _ _ hp => requestIndex_of_mem_groupPoints (predecessors_old hp).1) windows 0 i hw
  rw [Nat.zero_add] at hwindow hold
  rw [Db.batchPoints, List.filter_append, hwindow, hold]
  rfl

/-- The rows of the other requests are in partitions of their own. -/
theorem covers_batchPoints
    (db : Db V) (ops : DoubleOps V) {windows : List MetricPointWindow} {i : Nat}
    {w : MetricPointWindow} (hw : windows[i]? = some w) :
    Covers (db.batchPoints ops windows)
      (db.groupPoints ops i w.serviceName w.metricName) w.fromTs w.toTs := by
  have hcovers := covers_pointsWithPredecessors
    (db.groupPoints ops i w.serviceName w.metricName) w.fromTs w.toTs
  rw [← filter_batchPoints db ops hw] at hcovers
  refine ⟨?_, ?_, ?_⟩
  · intro q hq p hp hsame
    refine hcovers.sub q (List.mem_filter.mpr ⟨hq, decide_eq_true ?_⟩) p hp hsame
    rw [PointRow.samePartition, Bool.and_eq_true, decide_eq_true_eq] at hsame
    rw [hsame.1, requestIndex_of_mem_groupPoints hp]
  · exact fun q hq => (List.mem_filter.mp (hcovers.window q hq)).1
  · exact fun q hq => (List.mem_filter.mp (hcovers.predecessor q hq)).1

/-- The points of the request `i`. -/
theorem metricPointsWithPredecessorsBatch_getElem?
    (db : Db V) (ops : DoubleOps V) {windows : List MetricPointWindow} {i : Nat}
    {w : MetricPointWindow} (hw : windows[i]? = some w) :
    ∃ points, (db.metricPointsWithPredecessorsBatch ops windows)[i]? = some points ∧
      points.Perm ((pointsWithPredecessors
          (db.groupPoints ops i w.serviceName w.metricName) w.fromTs w.toTs).map
        (derivedPoint ops (db.batchPoints ops windows))) := by
  obtain ⟨hi, -⟩ := List.getElem?_eq_some_iff.mp hw
  refine ⟨((db.batchRows ops windows).filter fun r => r.1 = i).map Prod.snd, ?_, ?_⟩
  · rw [Db.metricPointsWithPredecessorsBatch, List.getElem?_map, List.getElem?_range hi]
    rfl
  · refine (((List.perm_insertionSort _ _).filter _).map _).trans (List.Perm.of_eq ?_)
    rw [List.filter_map, List.map_map, ← filter_batchPoints db ops hw]
    rfl

/-! ### Points picked by their ids -/

/-- The row as the request `i` selects it. -/
def PointRow.forRequest (i : Nat) (p : PointRow V) : PointRow V := { p with requestIndex := i }

theorem groupPoints_forRequest
    (db : Db V) (ops : DoubleOps V) (i : Nat) (serviceName metricName : String) :
    db.groupPoints ops i serviceName metricName =
      (db.groupPoints ops 0 serviceName metricName).map (PointRow.forRequest i) := by
  rw [Db.groupPoints, Db.groupPoints, List.map_filterMap]
  refine List.filterMap_congr fun p _ => ?_
  cases db.metricSeries.find? p.row.seriesKey with
  | none => rfl
  | some s =>
      simp only [Option.bind_some]
      split <;> rfl

/-- Which request selected the rows does not matter. -/
theorem derivedPoint_forRequest
    (ops : DoubleOps V) (i : Nat) {group : List (PointRow V)}
    (hrequest : ∀ p ∈ group, ∀ q ∈ group, p.requestIndex = q.requestIndex)
    {p : PointRow V} (hp : p ∈ group) :
    dropDeltaTotals p.temporality
        (derivedPoint ops (group.map (PointRow.forRequest i)) (p.forRequest i)) =
      dropDeltaTotals p.temporality (derivedPoint ops group p) := by
  have hlag : lag (group.map (PointRow.forRequest i)) (p.forRequest i) =
      (lag group p).map (PointRow.forRequest i) := by
    rw [lag, List.filter_map, firstBy_map, lag]
    refine congrArg (fun l => (firstBy latestBefore l).map (PointRow.forRequest i)) ?_
    refine List.filter_congr fun q hq => ?_
    have hsame : (q.forRequest i).samePartition (p.forRequest i) = q.samePartition p := by
      have hindex : (q.forRequest i).requestIndex = (p.forRequest i).requestIndex := rfl
      rw [PointRow.samePartition, PointRow.samePartition, decide_eq_true hindex,
        decide_eq_true (hrequest q hq p hp)]
      rfl
    exact congrArg (fun same => same && pointBefore q p) hsame
  have hrow : ∀ (previous : Option (PointRow V)) (runningSum : (PointRow V → Option V) → Option V),
      (derivedRow ops (p.forRequest i) (previous.map (PointRow.forRequest i)) runningSum).point
          ops =
        (derivedRow ops p previous runningSum).point ops := by
    intro previous runningSum
    cases previous <;> rfl
  rw [derivedPoint, hlag, hrow]
  exact point_of_runningSum ops p _ _ _

/-- The points of a group with one of the ids, as the full history gives them. -/
def Db.pointsOfIDs (db : Db V) (ops : DoubleOps V) (serviceName metricName : String)
    (ids : List UUID) : List (DerivedPoint V) :=
  let group := db.groupPoints ops 0 serviceName metricName
  ((group.filter fun p => ids.contains p.id).map (derivedPoint ops group)).filter
    DerivedPoint.isDerived

/-- Points picked by their ids do not depend on the window, as long as it holds
them all, nor on the other requests. -/
theorem filterDerivedPoints_ids
    {db : Db V} (hpositions : db.pointPositions.Nodup) (ops : DoubleOps V)
    {windows : List MetricPointWindow} {i : Nat} {w : MetricPointWindow}
    (hw : windows[i]? = some w) {ids : List UUID}
    (hids : ∀ p ∈ db.metricPoints, p.row.id ∈ ids → w.fromTs ≤ p.row.ts ∧ p.row.ts < w.toTs)
    {points : List (DerivedPoint V)}
    (hpoints : (db.metricPointsWithPredecessorsBatch ops windows)[i]? = some points) :
    (((filterDerivedPoints points).filter fun p => ids.contains p.id).map
        db.withoutDeltaTotals).Perm
      ((db.pointsOfIDs ops w.serviceName w.metricName ids).map db.withoutDeltaTotals) := by
  obtain ⟨points', hpoints', hperm⟩ := metricPointsWithPredecessorsBatch_getElem? db ops hw
  rw [hpoints] at hpoints'
  cases hpoints'
  have hgroup : ∀ p ∈ db.groupPoints ops i w.serviceName w.metricName,
      ids.contains p.id = true → inWindow w.fromTs w.toTs p = true := by
    intro p hp hid
    obtain ⟨q, hq, s, -, -, -, rfl⟩ := mem_groupPoints.mp hp
    obtain ⟨hfrom, hto⟩ := hids q hq (List.contains_iff_mem.mp hid)
    rw [inWindow, Bool.and_eq_true, decide_eq_true_eq, decide_eq_true_eq]
    exact ⟨hfrom, hto⟩
  -- A predecessor lies before the window, so that its id is not among `ids`.
  have hselected : (pointsWithPredecessors (db.groupPoints ops i w.serviceName w.metricName)
        w.fromTs w.toTs).filter (fun p => ids.contains p.id) =
      (db.groupPoints ops i w.serviceName w.metricName).filter fun p => ids.contains p.id := by
    have hold : (predecessors (db.groupPoints ops i w.serviceName w.metricName)
        w.fromTs w.toTs).filter (fun p => ids.contains p.id) = [] := by
      refine List.filter_eq_nil_iff.mpr fun q hq hid => ?_
      obtain ⟨hmem, hlt⟩ := predecessors_old hq
      have hin := hgroup q hmem hid
      rw [inWindow, Bool.and_eq_true, decide_eq_true_eq] at hin
      exact absurd hlt (not_lt.mpr hin.1)
    rw [pointsWithPredecessors, List.filter_append, hold, List.append_nil, windowPoints,
      List.filter_filter]
    refine List.filter_congr fun p hp => ?_
    cases hid : ids.contains p.id with
    | true => rw [hgroup p hp hid, Bool.true_and]
    | false => rw [Bool.false_and]
  have hvalue : ∀ p ∈ db.groupPoints ops 0 w.serviceName w.metricName,
      ids.contains p.id = true →
      db.withoutDeltaTotals (derivedPoint ops (db.batchPoints ops windows) (p.forRequest i)) =
        db.withoutDeltaTotals
          (derivedPoint ops (db.groupPoints ops 0 w.serviceName w.metricName) p) := by
    intro p hp hid
    have hpi : p.forRequest i ∈ db.groupPoints ops i w.serviceName w.metricName := by
      rw [groupPoints_forRequest]
      exact List.mem_map_of_mem hp
    have hrequest : ∀ j, ∀ x ∈ db.groupPoints ops j w.serviceName w.metricName,
        ∀ y ∈ db.groupPoints ops j w.serviceName w.metricName,
        x.requestIndex = y.requestIndex := by
      intro j x hx y hy
      rw [requestIndex_of_mem_groupPoints hx, requestIndex_of_mem_groupPoints hy]
    have hwindow : p.forRequest i ∈ windowPoints
        (db.groupPoints ops i w.serviceName w.metricName) w.fromTs w.toTs :=
      List.mem_filter.mpr ⟨hpi, hgroup _ hpi hid⟩
    rw [withoutDeltaTotals_derivedPoint hpi, withoutDeltaTotals_derivedPoint hp,
      derivedPoint_eq_of_covers ops
        (groupPoints_positions hpositions ops i w.serviceName w.metricName) (hrequest i)
        (covers_batchPoints db ops hw) hwindow,
      groupPoints_forRequest]
    exact derivedPoint_forRequest ops i (hrequest 0) hp
  have hrows : (((pointsWithPredecessors (db.groupPoints ops i w.serviceName w.metricName)
          w.fromTs w.toTs).map (derivedPoint ops (db.batchPoints ops windows))).filter
        fun p => ids.contains p.id) =
      ((db.groupPoints ops 0 w.serviceName w.metricName).filter
        fun p => ids.contains p.id).map fun p =>
          derivedPoint ops (db.batchPoints ops windows) (p.forRequest i) := by
    rw [List.filter_map]
    have hid : ((fun p : DerivedPoint V => ids.contains p.id) ∘
        derivedPoint ops (db.batchPoints ops windows)) = fun p => ids.contains p.id := rfl
    rw [hid, hselected, groupPoints_forRequest, List.filter_map, List.map_map]
    rfl
  rw [filterDerivedPoints, List.filter_filter]
  have hcomm : (points.filter fun p => ids.contains p.id && p.isDerived) =
      (points.filter fun p => ids.contains p.id).filter DerivedPoint.isDerived := by
    rw [List.filter_filter]
    exact List.filter_congr fun p _ => Bool.and_comm _ _
  rw [hcomm, map_withoutDeltaTotals_filter, Db.pointsOfIDs, map_withoutDeltaTotals_filter,
    List.map_map]
  refine (((hperm.filter _).map _).filter _).trans (List.Perm.of_eq ?_)
  rw [hrows, List.map_map]
  refine congrArg _ (List.map_congr_left fun p hp => ?_)
  obtain ⟨hmem, hid⟩ := List.mem_filter.mp hp
  exact hvalue p hmem hid

end Derivation

/-! ### One window of a counter -/

/-- A `DOUBLE` without a fraction. -/
def sampleOps : DoubleOps Int where
  zero := 0
  ofInt n := n
  add := (· + ·)
  sub := (· - ·)
  div := (· / ·)
  lt x y := decide (x < y)
  le x y := decide (x ≤ y)

def sampleSeries : MetricSeriesRow where
  seriesKey := 7
  serviceName := "checkout"
  metricName := "requests"
  metricType := "Sum"
  numberKind := "int"
  unit := "1"
  description := ""
  temporality := "cumulative"
  isMonotonic := true
  attributes := .empty
  scopeName := ""
  scopeVersion := ""
  scopeSchemaURL := ""
  scopeDroppedAttributesCount := 0
  scopeAttributes := .empty
  resourceHash := 1

def samplePoint (id : UUID) (ts : Time) (value : Int) : MetricPointRow Int where
  id := id
  seriesKey := 7
  ts := ts
  startTS := none
  flags := 0
  valueInt := some value
  valueDouble := none
  count := none
  sum := none
  min := none
  max := none
  histogramLayoutHash := none
  bucketCounts := []
  zeroCount := none
  positiveOffset := none
  positiveBucketCounts := []
  negativeOffset := none
  negativeBucketCounts := []
  summaryQuantiles := []
  summaryQuantileValues := []

/-- Three points of a counter. -/
def samplePoints : List (MetricPointRow Int) :=
  [samplePoint 3 30 9, samplePoint 1 10 4, samplePoint 2 20 6]

def sampleMetrics : Db Int :=
  { Db.empty Int with
    metricSeries := ⟨[⟨sampleSeries, 0, 0⟩], by simp⟩
    metricPoints := samplePoints.map fun p => ⟨p, 0⟩ }

theorem sampleMetrics_positions : sampleMetrics.pointPositions.Nodup := by
  decide

theorem windowDerivation_eq_sample :
    ((filterDerivedPointsInWindow
        (sampleMetrics.metricPointsWithPredecessors sampleOps "checkout" "requests" 15 25)
        15 25).map sampleMetrics.withoutDeltaTotals).Perm
      ((filterDerivedPointsInWindow
        (derivePoints sampleOps (sampleMetrics.groupPoints sampleOps 0 "checkout" "requests"))
        15 25).map sampleMetrics.withoutDeltaTotals) :=
  windowDerivation_eq sampleMetrics_positions sampleOps "checkout" "requests" 15 25

/-- The window with the second point alone shows what it adds to the first. -/
example :
    (filterDerivedPointsInWindow
      (sampleMetrics.metricPointsWithPredecessors sampleOps "checkout" "requests" 15 25)
      15 25).map DerivedPoint.value = [some 2] := by
  decide +kernel

end Storage
end Otelop
