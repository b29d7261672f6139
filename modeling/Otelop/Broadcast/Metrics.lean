import Mathlib.Tactic
import Otelop.Storage.MetricPoints
import Otelop.Storage.Writer

/-!
# Broadcasting committed metrics

`internal/broadcast/broadcast.go` reads the points of a committed batch back
from the store and sends one message per metric group.  Several commits share
one query: the windows of a group are widened to one, and every commit picks
its own points from the result.

A Go map is a table of entries, in the order in which its keys were added.  The
time at which a message is made is not part of it.

**Results.**
* `referenceMessages_reports`: the messages of the full history, one for each group of a
  commit that has points left.
* `deliveries_reference`: a message holds the points the full history gives for
  the ids of its commit.
* `groupedDelivery_eq`: how the commits are grouped cannot be seen.
-/

namespace Otelop
namespace Broadcast

open Storage
open Lib (KeyedTable)

variable {V : Type}

/-- `metricKey` -/
structure MetricKey where
  service : String
  name : String
deriving DecidableEq

/-- `metricBroadcastGroup` -/
structure MetricBroadcastGroup where
  series : MetricSeriesRow
  pointIDs : List UUID
  fromTs : Time
  toTs : Time

/-- `metricTimeRange` -/
structure MetricTimeRange where
  fromTs : Time
  toTs : Time

/-- A map, and the order in which its keys were added. -/
abbrev OrderedMap (κ β : Type) : Type := KeyedTable κ (κ × β) Prod.fst

/-- `metricBroadcastPlan`: `groups` is in the order of the plan. -/
structure MetricBroadcastPlan where
  resourceByHash : UInt64 → Option ResourceRow
  groups : OrderedMap MetricKey MetricBroadcastGroup

/-- `DataPoint` of `wire.go`. -/
structure DataPoint (V : Type) where
  id : UUID
  seriesKey : UInt64
  timestamp : Time
  value : V
  cumulative : Option V
  count : Option V
  countCumulative : Option V
  sum : Option V
  sumCumulative : Option V
  min : Option V
  max : Option V
  attributes : Attributes

/-- `MetricData` of `wire.go`, without `ReceivedAt`. -/
structure MetricData (V : Type) where
  name : String
  description : String
  unit : String
  type : String
  serviceName : String
  resource : Option Attributes
  dataPoints : List (DataPoint V)

/-! ### One commit -/

/-- `if t.Before(from) { from = t }` -/
def lowerTo (fromTs t : Time) : Time := if t < fromTs then t else fromTs

/-- `if t.After(to) { to = t }` -/
def raiseTo (toTs t : Time) : Time := if toTs < t then t else toTs

theorem lowerTo_le (fromTs t : Time) : lowerTo fromTs t ≤ fromTs ∧ lowerTo fromTs t ≤ t := by
  rw [lowerTo]
  split
  · rename_i h
    exact ⟨le_of_lt h, le_refl t⟩
  · rename_i h
    exact ⟨le_refl fromTs, not_lt.mp h⟩

theorem le_raiseTo (toTs t : Time) : toTs ≤ raiseTo toTs t ∧ t ≤ raiseTo toTs t := by
  rw [raiseTo]
  split
  · rename_i h
    exact ⟨le_of_lt h, le_refl t⟩
  · rename_i h
    exact ⟨le_refl toTs, not_lt.mp h⟩

/-- `group.pointIDs[point.ID] = struct{}{}` and the two comparisons. -/
def MetricBroadcastGroup.addPoint (group : MetricBroadcastGroup) (point : MetricPointRow V) :
    MetricBroadcastGroup where
  series := group.series
  pointIDs := point.id :: group.pointIDs
  fromTs := lowerTo group.fromTs point.ts
  toTs := raiseTo group.toTs point.ts

/-- The series of a key: the last one of the batch. -/
def seriesInfo (batch : MetricBatch V) (seriesKey : UInt64) : Option MetricSeriesRow :=
  batch.series.reverse.find? fun s => s.seriesKey = seriesKey

def resourceByHash (batch : MetricBatch V) (hash : UInt64) : Option ResourceRow :=
  batch.resources.reverse.find? fun r => r.resourceHash = hash

/-- One round of the loop over the points; a point of an unknown series is skipped. -/
def addPoint (seriesInfo : UInt64 → Option MetricSeriesRow)
    (groups : OrderedMap MetricKey MetricBroadcastGroup) (point : MetricPointRow V) :
    OrderedMap MetricKey MetricBroadcastGroup :=
  match seriesInfo point.seriesKey with
  | none => groups
  | some series =>
      let key : MetricKey := ⟨series.serviceName, series.metricName⟩
      (groups.insertIgnore (key, ⟨series, [], point.ts, point.ts⟩)).update
        (fun e => if e.1 = key then (e.1, e.2.addPoint point) else e)
        (fun e => by split <;> rfl)

def prepareMetricBroadcast (batch : MetricBatch V) : MetricBroadcastPlan where
  resourceByHash := resourceByHash batch
  groups := batch.points.foldl (addPoint (seriesInfo batch)) .empty

/-- The wire form of a point; there is none while `Value` is nil. -/
def dataPoint (point : DerivedPoint V) : Option (DataPoint V) :=
  point.value.map fun value => {
    id := point.id
    seriesKey := point.seriesKey
    timestamp := point.ts
    value := value
    cumulative := point.cumulative
    count := point.count
    countCumulative := point.countCumulative
    sum := point.sum
    sumCumulative := point.sumCumulative
    min := point.min
    max := point.max
    attributes := point.attributes }

/-- The message of a group, unless it has no points. -/
def metricMessage (plan : MetricBroadcastPlan) (group : MetricBroadcastGroup)
    (dataPoints : List (DataPoint V)) : Option (MetricData V) :=
  if dataPoints.isEmpty then none
  else some {
    name := group.series.metricName
    description := group.series.description
    unit := group.series.unit
    type := group.series.metricType
    serviceName := group.series.serviceName
    resource := (plan.resourceByHash group.series.resourceHash).map ResourceRow.attributes
    dataPoints := dataPoints }

def broadcastMetricPlan (plan : MetricBroadcastPlan)
    (derivedByMetric : MetricKey → List (DerivedPoint V)) : List (MetricData V) :=
  plan.groups.rows.filterMap fun e =>
    metricMessage plan e.2
      (((derivedByMetric e.1).filter fun p => e.2.pointIDs.contains p.id).filterMap dataPoint)

/-! ### Several commits -/

/-- Widen the range of the group, or add it. -/
def widenRange (ranges : OrderedMap MetricKey MetricTimeRange)
    (e : MetricKey × MetricBroadcastGroup) : OrderedMap MetricKey MetricTimeRange :=
  match ranges.find? e.1 with
  | none => ranges.insertIgnore (e.1, ⟨e.2.fromTs, e.2.toTs⟩)
  | some _ =>
      ranges.update
        (fun r =>
          if r.1 = e.1 then
            (r.1, ⟨lowerTo r.2.fromTs e.2.fromTs, raiseTo r.2.toTs e.2.toTs⟩)
          else r)
        (fun r => by split <;> rfl)

/-- `ranges`, in the order of `metricOrder`. -/
def metricRanges (plans : List MetricBroadcastPlan) : OrderedMap MetricKey MetricTimeRange :=
  (plans.flatMap fun plan => plan.groups.rows).foldl widenRange .empty

def metricWindows (ranges : OrderedMap MetricKey MetricTimeRange) : List MetricPointWindow :=
  ranges.rows.map fun r => ⟨r.1.service, r.1.name, r.2.fromTs, r.2.toTs + 1⟩

def derivedByMetric (ranges : OrderedMap MetricKey MetricTimeRange)
    (pointsByMetric : List (List (DerivedPoint V))) (key : MetricKey) :
    List (DerivedPoint V) :=
  (((ranges.rows.map Prod.fst).zip pointsByMetric).lookup key).elim [] filterDerivedPoints

/-- The messages of the deliveries, when the query succeeds. -/
def broadcastMetricDeliveries (db : Db V) (ops : DoubleOps V)
    (deliveries : List (MetricBatch V)) : List (MetricData V) :=
  let plans := (deliveries.filter fun batch => !batch.points.isEmpty).map prepareMetricBroadcast
  let ranges := metricRanges plans
  if plans.isEmpty || ranges.rows.isEmpty then []
  else
    let pointsByMetric := db.metricPointsWithPredecessorsBatch ops (metricWindows ranges)
    plans.flatMap fun plan => broadcastMetricPlan plan (derivedByMetric ranges pointsByMetric)

/-- The batch callback of `NewBatch`, for deliveries of metrics. -/
def newBatch (db : Db V) (ops : DoubleOps V) (shouldBroadcast : Bool)
    (deliveries : List (MetricBatch V)) : List (MetricData V) :=
  if deliveries.isEmpty || !shouldBroadcast then []
  else broadcastMetricDeliveries db ops deliveries

/-! ### What a plan and the ranges hold -/

/-- The ids of a group are ids of points within its range. -/
def GroupCovers (points : List (MetricPointRow V)) (group : MetricBroadcastGroup) : Prop :=
  ∀ id ∈ group.pointIDs, ∃ p ∈ points, p.id = id ∧ group.fromTs ≤ p.ts ∧ p.ts ≤ group.toTs

theorem GroupCovers.addPoint
    {points : List (MetricPointRow V)} {group : MetricBroadcastGroup}
    (h : GroupCovers points group) (point : MetricPointRow V) :
    GroupCovers (points ++ [point]) (group.addPoint point) := by
  intro id hid
  simp only [MetricBroadcastGroup.addPoint, List.mem_cons] at hid ⊢
  rcases hid with rfl | hid
  · exact ⟨point, by simp, rfl, (lowerTo_le _ _).2, (le_raiseTo _ _).2⟩
  · obtain ⟨p, hp, hpid, hfrom, hto⟩ := h id hid
    exact ⟨p, List.mem_append_left _ hp, hpid, (lowerTo_le _ _).1.trans hfrom,
      hto.trans (le_raiseTo _ _).1⟩

theorem GroupCovers.append
    {points : List (MetricPointRow V)} {group : MetricBroadcastGroup}
    (h : GroupCovers points group) (point : MetricPointRow V) :
    GroupCovers (points ++ [point]) group := by
  intro id hid
  obtain ⟨p, hp, hrest⟩ := h id hid
  exact ⟨p, List.mem_append_left _ hp, hrest⟩

/-- One point keeps the ranges of the groups. -/
theorem groupCovers_addPoint
    {seriesInfo : UInt64 → Option MetricSeriesRow}
    {groups : OrderedMap MetricKey MetricBroadcastGroup} {points : List (MetricPointRow V)}
    (h : ∀ e ∈ groups.rows, GroupCovers points e.2) (point : MetricPointRow V) :
    ∀ e ∈ (addPoint seriesInfo groups point).rows, GroupCovers (points ++ [point]) e.2 := by
  intro e he
  rw [addPoint] at he
  split at he
  · exact (h e he).append point
  · obtain ⟨x, hx, rfl⟩ := KeyedTable.mem_update.mp he
    have hcovers : GroupCovers points x.2 := by
      rcases KeyedTable.mem_insertIgnore.mp hx with hx | ⟨rfl, -⟩
      · exact h x hx
      · exact fun id hid => nomatch hid
    split
    · exact hcovers.addPoint point
    · exact hcovers.append point

/-- The ids of a plan's group are ids of the commit, with their times in its range. -/
theorem groupCovers_prepareMetricBroadcast (batch : MetricBatch V) :
    ∀ e ∈ (prepareMetricBroadcast batch).groups.rows, GroupCovers batch.points e.2 := by
  have hfold : ∀ points : List (MetricPointRow V),
      ∀ e ∈ (points.foldl (addPoint (seriesInfo batch)) .empty).rows,
        GroupCovers points e.2 := by
    intro points
    induction points using List.reverseRecOn with
    | nil => exact fun e he => nomatch he
    | append_singleton points point ih =>
        rw [List.foldl_append, List.foldl_cons, List.foldl_nil]
        exact groupCovers_addPoint ih point
  exact hfold batch.points

/-- The range of the entry's key contains that of the entry. -/
def RangeCovers (ranges : OrderedMap MetricKey MetricTimeRange)
    (e : MetricKey × MetricBroadcastGroup) : Prop :=
  ∃ r, (e.1, r) ∈ ranges.rows ∧ r.fromTs ≤ e.2.fromTs ∧ e.2.toTs ≤ r.toTs

theorem rangeCovers_widenRange_self
    (ranges : OrderedMap MetricKey MetricTimeRange) (e : MetricKey × MetricBroadcastGroup) :
    RangeCovers (widenRange ranges e) e := by
  rw [widenRange]
  split
  · rename_i hnone
    refine ⟨⟨e.2.fromTs, e.2.toTs⟩, ?_, le_refl _, le_refl _⟩
    exact KeyedTable.mem_insertIgnore.mpr
      (Or.inr ⟨rfl, (KeyedTable.find?_eq_none_iff _).mp hnone⟩)
  · rename_i r hr
    obtain ⟨hmem, hkey⟩ := (KeyedTable.find?_eq_some_iff _).mp hr
    refine ⟨⟨lowerTo r.2.fromTs e.2.fromTs, raiseTo r.2.toTs e.2.toTs⟩,
      KeyedTable.mem_update.mpr ⟨r, hmem, ?_⟩, (lowerTo_le _ _).2, (le_raiseTo _ _).2⟩
    rw [if_pos hkey, hkey]

/-- A range only grows. -/
theorem RangeCovers.widenRange
    {ranges : OrderedMap MetricKey MetricTimeRange} {e : MetricKey × MetricBroadcastGroup}
    (h : RangeCovers ranges e) (e' : MetricKey × MetricBroadcastGroup) :
    RangeCovers (widenRange ranges e') e := by
  obtain ⟨r, hmem, hfrom, hto⟩ := h
  rw [Broadcast.widenRange]
  split
  · exact ⟨r, KeyedTable.mem_insertIgnore.mpr (Or.inl hmem), hfrom, hto⟩
  · by_cases hkey : e.1 = e'.1
    · exact ⟨⟨lowerTo r.fromTs e'.2.fromTs, raiseTo r.toTs e'.2.toTs⟩,
        KeyedTable.mem_update.mpr ⟨(e.1, r), hmem, if_pos hkey⟩,
        (lowerTo_le _ _).1.trans hfrom, hto.trans (le_raiseTo _ _).1⟩
    · exact ⟨r, KeyedTable.mem_update.mpr ⟨(e.1, r), hmem, if_neg hkey⟩, hfrom, hto⟩

/-- Every group of every plan lies in the range of its key. -/
theorem rangeCovers_metricRanges
    {plans : List MetricBroadcastPlan} {plan : MetricBroadcastPlan} (hplan : plan ∈ plans)
    {e : MetricKey × MetricBroadcastGroup} (he : e ∈ plan.groups.rows) :
    RangeCovers (metricRanges plans) e := by
  have hfold : ∀ entries : List (MetricKey × MetricBroadcastGroup),
      ∀ e ∈ entries, RangeCovers (entries.foldl widenRange .empty) e := by
    intro entries
    induction entries using List.reverseRecOn with
    | nil => exact fun e he => nomatch he
    | append_singleton entries last ih =>
        intro e he
        rw [List.foldl_append, List.foldl_cons, List.foldl_nil]
        rcases List.mem_append.mp he with he | he
        · exact (ih e he).widenRange last
        · rw [List.mem_singleton.mp he]
          exact rangeCovers_widenRange_self _ last
  exact hfold _ e (List.mem_flatMap.mpr ⟨plan, hplan, he⟩)

/-! ### What a message shows -/

/-- A point without the running totals, where its series is one of deltas. -/
def DataPoint.withoutDeltaTotals (db : Db V) (p : DataPoint V) : DataPoint V :=
  match db.metricSeries.find? p.seriesKey with
  | some s =>
      if s.row.temporality = "delta" then
        { p with cumulative := none, countCumulative := none, sumCumulative := none }
      else p
  | none => p

/-- The fields of a message its group decides. -/
def MetricData.withoutPoints (m : MetricData V) : MetricData V := { m with dataPoints := [] }

/-- Two messages that differ in the order of their points and in the running totals of
deltas at most. -/
structure SameMessage (db : Db V) (m m' : MetricData V) : Prop where
  group : m.withoutPoints = m'.withoutPoints
  points : (m.dataPoints.map (DataPoint.withoutDeltaTotals db)).Perm
    (m'.dataPoints.map (DataPoint.withoutDeltaTotals db))

theorem SameMessage.symm {db : Db V} {m m' : MetricData V} (h : SameMessage db m m') :
    SameMessage db m' m :=
  ⟨h.group.symm, h.points.symm⟩

theorem SameMessage.trans {db : Db V} {m m' m'' : MetricData V}
    (h : SameMessage db m m') (h' : SameMessage db m' m'') : SameMessage db m m'' :=
  ⟨h.group.trans h'.group, h.points.trans h'.points⟩

theorem dataPoint_withoutDeltaTotals (db : Db V) (p : DerivedPoint V) :
    dataPoint (db.withoutDeltaTotals p) =
      (dataPoint p).map (DataPoint.withoutDeltaTotals db) := by
  have hkey : ∀ d, dataPoint p = some d → d.seriesKey = p.seriesKey := by
    intro d hd
    obtain ⟨value, -, rfl⟩ := Option.map_eq_some_iff.mp hd
    rfl
  cases hd : dataPoint p with
  | none =>
      have hvalue : p.value = none := Option.map_eq_none_iff.mp hd
      rw [Db.withoutDeltaTotals, Option.map_none]
      split
      · rw [dropDeltaTotals]
        split <;> exact Option.map_eq_none_iff.mpr hvalue
      · exact hd
  | some d =>
      obtain ⟨value, hvalue, hfields⟩ := Option.map_eq_some_iff.mp hd
      rw [Option.map_some, DataPoint.withoutDeltaTotals, hkey d hd, Db.withoutDeltaTotals]
      cases db.metricSeries.find? p.seriesKey with
      | none => exact hd
      | some s =>
          simp only [dropDeltaTotals]
          split
          · rw [dataPoint, DerivedPoint.withoutTotals, hvalue, Option.map_some, ← hfields]
          · exact hd

/-- The wire form keeps what two lists of points have in common. -/
theorem filterMap_dataPoint_perm
    {db : Db V} {points points' : List (DerivedPoint V)}
    (h : (points.map db.withoutDeltaTotals).Perm (points'.map db.withoutDeltaTotals)) :
    ((points.filterMap dataPoint).map (DataPoint.withoutDeltaTotals db)).Perm
      ((points'.filterMap dataPoint).map (DataPoint.withoutDeltaTotals db)) := by
  have hmap : ∀ l : List (DerivedPoint V),
      (l.filterMap dataPoint).map (DataPoint.withoutDeltaTotals db) =
        (l.map db.withoutDeltaTotals).filterMap dataPoint := by
    intro l
    rw [List.map_filterMap, List.filterMap_map]
    exact List.filterMap_congr fun p _ => (dataPoint_withoutDeltaTotals db p).symm
  rw [hmap, hmap]
  exact h.filterMap _

theorem metricMessage_same
    {db : Db V} (plan : MetricBroadcastPlan) (group : MetricBroadcastGroup)
    {points points' : List (DataPoint V)}
    (h : (points.map (DataPoint.withoutDeltaTotals db)).Perm
      (points'.map (DataPoint.withoutDeltaTotals db))) :
    Option.Rel (SameMessage db) (metricMessage plan group points)
      (metricMessage plan group points') := by
  have hlength : points.length = points'.length := by
    simpa using h.length_eq
  have hempty : points.isEmpty = points'.isEmpty := by
    cases points <;> cases points' <;> first | rfl | cases hlength
  rw [metricMessage, metricMessage, hempty]
  split
  · exact Option.Rel.none
  · exact Option.Rel.some ⟨rfl, h⟩

/-- The messages of a commit, from the full history of its groups. -/
def referenceMessages (db : Db V) (ops : DoubleOps V) (batch : MetricBatch V) :
    List (MetricData V) :=
  let plan := prepareMetricBroadcast batch
  plan.groups.rows.filterMap fun e =>
    metricMessage plan e.2
      ((db.pointsOfIDs ops e.1.service e.1.name e.2.pointIDs).filterMap dataPoint)

/-- The points of the commit are identified by their ids: the store has them at no other
time. -/
def Committed (db : Db V) (batch : MetricBatch V) : Prop :=
  ∀ p ∈ batch.points, ∀ q ∈ db.metricPoints, q.row.id = p.id → q.row.ts = p.ts

theorem forall₂_filterMap
    {α β : Type} {R : β → β → Prop} {f g : α → Option β} :
    ∀ {l : List α}, (∀ x ∈ l, Option.Rel R (f x) (g x)) →
      List.Forall₂ R (l.filterMap f) (l.filterMap g)
  | [], _ => List.Forall₂.nil
  | x :: l, h => by
      have htail := forall₂_filterMap fun y hy => h y (List.mem_cons_of_mem x hy)
      have hhead := h x List.mem_cons_self
      rw [List.filterMap_cons, List.filterMap_cons]
      generalize f x = a at hhead ⊢
      generalize g x = b at hhead ⊢
      cases hhead with
      | none => exact htail
      | some hxy => exact List.Forall₂.cons hxy htail

theorem forall₂_flatMap
    {α β : Type} {R : β → β → Prop} {f g : α → List β} :
    ∀ {l : List α}, (∀ x ∈ l, List.Forall₂ R (f x) (g x)) →
      List.Forall₂ R (l.flatMap f) (l.flatMap g)
  | [], _ => List.Forall₂.nil
  | x :: l, h => by
      have htail := forall₂_flatMap fun y hy => h y (List.mem_cons_of_mem x hy)
      rw [List.flatMap_cons, List.flatMap_cons]
      exact List.rel_append (h x List.mem_cons_self) htail

/-- Two lists related to a third one. -/
theorem forall₂_common
    {α : Type} {R : α → α → Prop} (hR : ∀ {a b c}, R a c → R b c → R a b)
    {l l' l'' : List α} (h : List.Forall₂ R l l'') (h' : List.Forall₂ R l' l'') :
    List.Forall₂ R l l' := by
  induction h generalizing l' with
  | nil =>
      cases h'
      exact List.Forall₂.nil
  | cons hhead htail ih =>
      cases h' with
      | cons hhead' htail' => exact List.Forall₂.cons (hR hhead hhead') (ih htail')

theorem lookup_zip
    {α β : Type} [DecidableEq α] {a : α} {b : β} {keys : List α} (hnodup : keys.Nodup) :
    ∀ {values : List β} {i : Nat},
      keys[i]? = some a → values[i]? = some b → (keys.zip values).lookup a = some b := by
  induction keys with
  | nil => exact fun ha => nomatch ha
  | cons k keys ih =>
      obtain ⟨hnotin, hnodup⟩ := List.nodup_cons.mp hnodup
      intro values i ha hb
      cases values with
      | nil => cases hb
      | cons v values =>
          rw [List.zip_cons_cons, List.lookup_cons]
          cases i with
          | zero =>
              cases ha
              cases hb
              rw [beq_self_eq_true]
          | succ i =>
              rw [List.getElem?_cons_succ] at ha hb
              have hne : a ≠ k := fun h => hnotin (h ▸ List.mem_of_getElem? ha)
              rw [beq_false_of_ne hne]
              exact ih hnodup ha hb

/-- The points of a key are those its window was asked for. -/
theorem derivedByMetric_eq
    (db : Db V) (ops : DoubleOps V) {ranges : OrderedMap MetricKey MetricTimeRange}
    {key : MetricKey} {r : MetricTimeRange} (hr : (key, r) ∈ ranges.rows) :
    ∃ (i : Nat) (points : List (DerivedPoint V)),
      (metricWindows ranges)[i]? = some ⟨key.service, key.name, r.fromTs, r.toTs + 1⟩ ∧
      (db.metricPointsWithPredecessorsBatch ops (metricWindows ranges))[i]? = some points ∧
      derivedByMetric ranges (db.metricPointsWithPredecessorsBatch ops (metricWindows ranges))
        key = filterDerivedPoints points := by
  obtain ⟨i, hi⟩ := List.mem_iff_getElem?.mp hr
  have hw : (metricWindows ranges)[i]? =
      some ⟨key.service, key.name, r.fromTs, r.toTs + 1⟩ := by
    rw [metricWindows, List.getElem?_map, hi]
    rfl
  obtain ⟨points, hpoints, -⟩ := metricPointsWithPredecessorsBatch_getElem? db ops hw
  have hkey : (ranges.rows.map Prod.fst)[i]? = some key := by
    rw [List.getElem?_map, hi]
    rfl
  refine ⟨i, points, hw, hpoints, ?_⟩
  rw [derivedByMetric, lookup_zip ranges.keys_nodup hkey hpoints]
  rfl

/-- Within whatever windows, a plan makes the messages of the full history. -/
theorem broadcastMetricPlan_reference
    {db : Db V} (hpositions : db.pointPositions.Nodup) (ops : DoubleOps V)
    {batch : MetricBatch V} (hcommitted : Committed db batch)
    {ranges : OrderedMap MetricKey MetricTimeRange}
    (hranges : ∀ e ∈ (prepareMetricBroadcast batch).groups.rows, RangeCovers ranges e) :
    List.Forall₂ (SameMessage db)
      (broadcastMetricPlan (prepareMetricBroadcast batch)
        (derivedByMetric ranges
          (db.metricPointsWithPredecessorsBatch ops (metricWindows ranges))))
      (referenceMessages db ops batch) := by
  refine forall₂_filterMap fun e he => metricMessage_same _ _ (filterMap_dataPoint_perm ?_)
  obtain ⟨r, hr, hfrom, hto⟩ := hranges e he
  obtain ⟨i, points, hw, hpoints, hderived⟩ := derivedByMetric_eq db ops hr
  rw [hderived]
  refine filterDerivedPoints_ids hpositions ops hw ?_ hpoints
  intro q hq hid
  obtain ⟨p, hp, hpid, hpfrom, hpto⟩ := groupCovers_prepareMetricBroadcast batch e he _ hid
  rw [hcommitted p hp q hq hpid.symm]
  exact ⟨hfrom.trans hpfrom, Int.lt_add_one_iff.mpr (hpto.trans hto)⟩

/-- A commit without points has no messages. -/
theorem referenceMessages_of_points_empty
    (db : Db V) (ops : DoubleOps V) {batch : MetricBatch V}
    (h : (prepareMetricBroadcast batch).groups.rows = []) :
    referenceMessages db ops batch = [] := by
  rw [referenceMessages, h]
  rfl

theorem groups_of_isEmpty
    {batch : MetricBatch V} (h : batch.points.isEmpty = true) :
    (prepareMetricBroadcast batch).groups.rows = [] := by
  rw [prepareMetricBroadcast, List.isEmpty_iff.mp h]
  rfl

/-- The messages of a delivery are those of its commits, one after the other. -/
theorem deliveries_reference
    {db : Db V} (hpositions : db.pointPositions.Nodup) (ops : DoubleOps V)
    {deliveries : List (MetricBatch V)} (hcommitted : ∀ batch ∈ deliveries, Committed db batch) :
    List.Forall₂ (SameMessage db) (broadcastMetricDeliveries db ops deliveries)
      (deliveries.flatMap (referenceMessages db ops)) := by
  have hkept : deliveries.flatMap (referenceMessages db ops) =
      (deliveries.filter fun batch => !batch.points.isEmpty).flatMap
        (referenceMessages db ops) := by
    induction deliveries with
    | nil => rfl
    | cons batch rest ih =>
        have hrest := ih fun b hb => hcommitted b (List.mem_cons_of_mem batch hb)
        rw [List.flatMap_cons, hrest, List.filter_cons]
        cases hempty : batch.points.isEmpty with
        | true =>
            rw [referenceMessages_of_points_empty db ops (groups_of_isEmpty hempty)]
            rfl
        | false => rfl
  rw [hkept, broadcastMetricDeliveries]
  generalize hplans : deliveries.filter (fun batch => !batch.points.isEmpty) = kept
  have hcovers : ∀ batch ∈ kept, ∀ e ∈ (prepareMetricBroadcast batch).groups.rows,
      RangeCovers (metricRanges (kept.map prepareMetricBroadcast)) e := by
    intro batch hbatch e he
    exact rangeCovers_metricRanges (List.mem_map_of_mem hbatch) he
  have hmem : ∀ batch ∈ kept, Committed db batch := by
    intro batch hbatch
    rw [← hplans] at hbatch
    exact hcommitted batch (List.mem_of_mem_filter hbatch)
  simp only
  split
  · rename_i hnone
    have hnil : ∀ batch ∈ kept, referenceMessages db ops batch = [] := by
      intro batch hbatch
      refine referenceMessages_of_points_empty db ops
        (List.eq_nil_iff_forall_not_mem.mpr fun e he => ?_)
      obtain ⟨r, hr, -⟩ := hcovers batch hbatch e he
      rw [Bool.or_eq_true, List.isEmpty_iff, List.isEmpty_iff] at hnone
      rcases hnone with hnone | hnone
      · rw [List.map_eq_nil_iff.mp hnone] at hbatch
        cases hbatch
      · rw [hnone] at hr
        cases hr
    rw [List.flatMap_eq_nil_iff.mpr hnil]
    exact List.Forall₂.nil
  · rw [List.flatMap_map]
    exact forall₂_flatMap fun batch hbatch =>
      broadcastMetricPlan_reference hpositions ops (hmem batch hbatch) (hcovers batch hbatch)

/-! ### One message for each group -/

/-- The group that a point is put into. -/
def groupKey (seriesInfo : UInt64 → Option MetricSeriesRow) (p : MetricPointRow V) :
    Option MetricKey :=
  (seriesInfo p.seriesKey).map fun series => ⟨series.serviceName, series.metricName⟩

/-- The groups are those of the points, each with the ids of its points. -/
structure GroupsOf (seriesInfo : UInt64 → Option MetricSeriesRow)
    (points : List (MetricPointRow V)) (groups : OrderedMap MetricKey MetricBroadcastGroup) :
    Prop where
  named : ∀ e ∈ groups.rows,
    (⟨e.2.series.serviceName, e.2.series.metricName⟩ : MetricKey) = e.1
  ids : ∀ e ∈ groups.rows, ∀ id, id ∈ e.2.pointIDs ↔
    ∃ p ∈ points, p.id = id ∧ groupKey seriesInfo p = some e.1
  keys : ∀ p ∈ points, ∀ key, groupKey seriesInfo p = some key → ∃ e ∈ groups.rows, e.1 = key

/-- A point of an unknown series changes no group. -/
theorem GroupsOf.skip
    {seriesInfo : UInt64 → Option MetricSeriesRow} {points : List (MetricPointRow V)}
    {groups : OrderedMap MetricKey MetricBroadcastGroup} (h : GroupsOf seriesInfo points groups)
    {point : MetricPointRow V} (hnone : groupKey seriesInfo point = none) :
    GroupsOf seriesInfo (points ++ [point]) groups where
  named := h.named
  ids e he id := by
    rw [h.ids e he id]
    simp [or_and_right, exists_or, hnone]
  keys p hp key hkey := by
    rcases List.mem_append.mp hp with hp | hp
    · exact h.keys p hp key hkey
    · rw [List.mem_singleton.mp hp, hnone] at hkey
      cases hkey

/-- One round of the loop over the points. -/
theorem GroupsOf.addPoint
    {seriesInfo : UInt64 → Option MetricSeriesRow} {points : List (MetricPointRow V)}
    {groups : OrderedMap MetricKey MetricBroadcastGroup} (h : GroupsOf seriesInfo points groups)
    (point : MetricPointRow V) :
    GroupsOf seriesInfo (points ++ [point]) (Broadcast.addPoint seriesInfo groups point) := by
  cases hseries : seriesInfo point.seriesKey with
  | none =>
      have hnone : groupKey seriesInfo point = none := by rw [groupKey, hseries]; rfl
      rw [Broadcast.addPoint, hseries]
      exact h.skip hnone
  | some series =>
      have hkey : groupKey seriesInfo point = some ⟨series.serviceName, series.metricName⟩ := by
        rw [groupKey, hseries]
        rfl
      rw [Broadcast.addPoint, hseries]
      dsimp only
      set key : MetricKey := ⟨series.serviceName, series.metricName⟩ with hkeydef
      set group : MetricBroadcastGroup := ⟨series, [], point.ts, point.ts⟩
      -- the table with the group of the point
      have hinsert : GroupsOf seriesInfo points (groups.insertIgnore (key, group)) := by
        refine ⟨fun e he => ?_, fun e he id => ?_, fun p hp k hk => ?_⟩
        · rcases KeyedTable.mem_insertIgnore.mp he with he | ⟨rfl, -⟩
          · exact h.named e he
          · rfl
        · rcases KeyedTable.mem_insertIgnore.mp he with he | ⟨rfl, hnew⟩
          · exact h.ids e he id
          · constructor
            · exact fun hid => nomatch hid
            · rintro ⟨p, hp, -, hk⟩
              obtain ⟨e, he, hek⟩ := h.keys p hp key hk
              exact absurd hek (hnew e he)
        · obtain ⟨e, he, hek⟩ := h.keys p hp k hk
          exact ⟨e, KeyedTable.mem_insertIgnore.mpr (Or.inl he), hek⟩
      refine ⟨fun e he => ?_, fun e he id => ?_, fun p hp k hk => ?_⟩
      · obtain ⟨x, hx, rfl⟩ := KeyedTable.mem_update.mp he
        have hname := hinsert.named x hx
        split
        · exact hname
        · exact hname
      · obtain ⟨x, hx, rfl⟩ := KeyedTable.mem_update.mp he
        have hids := hinsert.ids x hx id
        by_cases hxk : x.1 = key
        · rw [if_pos hxk]
          simp only [MetricBroadcastGroup.addPoint, List.mem_cons, hids, List.mem_append,
            List.not_mem_nil, or_false, or_and_right, exists_or, exists_eq_left, hkey, hxk,
            and_true]
          rw [or_comm, eq_comm]
        · rw [if_neg hxk, hids]
          simp only [List.mem_append, List.mem_singleton, or_and_right, exists_or,
            exists_eq_left, hkey, Option.some.injEq, Ne.symm hxk, and_false, or_false]
      · have hrow : ∃ x ∈ (groups.insertIgnore (key, group)).rows, x.1 = k := by
          rcases List.mem_append.mp hp with hp | hp
          · exact hinsert.keys p hp k hk
          · rw [List.mem_singleton.mp hp, hkey] at hk
            cases hk
            exact KeyedTable.exists_key_insertIgnore groups (key, group)
        obtain ⟨x, hx, rfl⟩ := hrow
        refine ⟨_, KeyedTable.mem_update.mpr ⟨x, hx, rfl⟩, ?_⟩
        split <;> rfl

theorem groupsOf_prepareMetricBroadcast (batch : MetricBatch V) :
    GroupsOf (seriesInfo batch) batch.points (prepareMetricBroadcast batch).groups := by
  have hfold : ∀ points : List (MetricPointRow V), GroupsOf (seriesInfo batch) points
      (points.foldl (addPoint (seriesInfo batch)) .empty) := by
    intro points
    induction points using List.reverseRecOn with
    | nil =>
        exact ⟨fun e he => (nomatch he), fun e he => (nomatch he), fun p hp => (nomatch hp)⟩
    | append_singleton points point ih =>
        rw [List.foldl_append, List.foldl_cons, List.foldl_nil]
        exact ih.addPoint point
  exact hfold batch.points

/-- The group that a message is about. -/
def MetricData.key (m : MetricData V) : MetricKey := ⟨m.serviceName, m.name⟩

/-- The full history of the group gives a value for the point. -/
def Survives (db : Db V) (ops : DoubleOps V) (key : MetricKey) (id : UUID) : Prop :=
  let group := db.groupPoints ops 0 key.service key.name
  ∃ q ∈ group, q.id = id ∧ (derivedPoint ops group q).isDerived = true

/-- One message for each group of the commit that has surviving points, with the ids of
these. -/
structure Reports (db : Db V) (ops : DoubleOps V) (batch : MetricBatch V)
    (messages : List (MetricData V)) : Prop where
  keys_nodup : (messages.map MetricData.key).Nodup
  points_ne_nil : ∀ m ∈ messages, m.dataPoints ≠ []
  ids : ∀ key id, (∃ m ∈ messages, m.key = key ∧ ∃ d ∈ m.dataPoints, d.id = id) ↔
    (∃ p ∈ batch.points, p.id = id ∧ groupKey (seriesInfo batch) p = some key) ∧
      Survives db ops key id

theorem mem_pointsOfIDs
    {db : Db V} {ops : DoubleOps V} {key : MetricKey} {ids : List UUID} {id : UUID} :
    (∃ d ∈ (db.pointsOfIDs ops key.service key.name ids).filterMap dataPoint, d.id = id) ↔
      id ∈ ids ∧ Survives db ops key id := by
  constructor
  · rintro ⟨d, hd, rfl⟩
    obtain ⟨x, hx, hxd⟩ := List.mem_filterMap.mp hd
    obtain ⟨value, -, rfl⟩ := Option.map_eq_some_iff.mp hxd
    obtain ⟨hx, hderived⟩ := List.mem_filter.mp hx
    obtain ⟨q, hq, rfl⟩ := List.mem_map.mp hx
    obtain ⟨hq, hid⟩ := List.mem_filter.mp hq
    exact ⟨List.contains_iff_mem.mp hid, q, hq, rfl, hderived⟩
  · rintro ⟨hid, q, hq, rfl, hderived⟩
    have hvalue : (derivedPoint ops (db.groupPoints ops 0 key.service key.name) q).value.isSome =
        true := (Bool.and_eq_true_iff.mp hderived).1
    obtain ⟨value, hvalue⟩ := Option.isSome_iff_exists.mp hvalue
    have hmem : derivedPoint ops (db.groupPoints ops 0 key.service key.name) q ∈
        db.pointsOfIDs ops key.service key.name ids :=
      List.mem_filter.mpr ⟨List.mem_map_of_mem
        (List.mem_filter.mpr ⟨hq, List.contains_iff_mem.mpr hid⟩), hderived⟩
    obtain ⟨d, hd, hdid⟩ : ∃ d, dataPoint
        (derivedPoint ops (db.groupPoints ops 0 key.service key.name) q) = some d ∧ d.id = q.id := by
      rw [dataPoint, hvalue]
      exact ⟨_, rfl, rfl⟩
    exact ⟨d, List.mem_filterMap.mpr ⟨_, hmem, hd⟩, hdid⟩

theorem map_filterMap_sublist
    {α β κ : Type} {f : α → Option β} {k : β → κ} {k' : α → κ} :
    ∀ {l : List α}, (∀ a ∈ l, ∀ b, f a = some b → k b = k' a) →
      ((l.filterMap f).map k).Sublist (l.map k')
  | [], _ => .slnil
  | a :: l, h => by
      have hrest := map_filterMap_sublist fun x hx => h x (List.mem_cons_of_mem a hx)
      rw [List.filterMap_cons, List.map_cons]
      cases hfa : f a with
      | none => exact hrest.cons _
      | some b =>
          rw [List.map_cons, h a List.mem_cons_self b hfa]
          exact hrest.cons_cons _

/-- The messages of the full history. -/
theorem referenceMessages_reports (db : Db V) (ops : DoubleOps V) (batch : MetricBatch V) :
    Reports db ops batch (referenceMessages db ops batch) := by
  have hgroups := groupsOf_prepareMetricBroadcast batch
  set plan := prepareMetricBroadcast batch with hplan
  let points := fun e : MetricKey × MetricBroadcastGroup =>
    (db.pointsOfIDs ops e.1.service e.1.name e.2.pointIDs).filterMap dataPoint
  have hmessage : ∀ e ∈ plan.groups.rows, ∀ m, metricMessage plan e.2 (points e) = some m →
      m.key = e.1 ∧ m.dataPoints = points e ∧ points e ≠ [] := by
    intro e he m hm
    rw [metricMessage] at hm
    split at hm
    · cases hm
    · rename_i hne
      cases hm
      exact ⟨hgroups.named e he, rfl, fun h => hne (List.isEmpty_iff.mpr h)⟩
  have hmem : ∀ m, m ∈ referenceMessages db ops batch ↔
      ∃ e ∈ plan.groups.rows, metricMessage plan e.2 (points e) = some m :=
    fun m => List.mem_filterMap
  refine ⟨?_, fun m hm => ?_, fun key id => ?_⟩
  · exact (map_filterMap_sublist fun e he m hm => (hmessage e he m hm).1).nodup
      plan.groups.keys_nodup
  · obtain ⟨e, he, hm⟩ := (hmem m).mp hm
    obtain ⟨-, hpoints, hne⟩ := hmessage e he m hm
    rw [hpoints]
    exact hne
  · constructor
    · rintro ⟨m, hm, rfl, hid⟩
      obtain ⟨e, he, hm⟩ := (hmem m).mp hm
      obtain ⟨hkey, hpoints, -⟩ := hmessage e he m hm
      rw [hpoints] at hid
      obtain ⟨hid, hsurvives⟩ := mem_pointsOfIDs.mp hid
      rw [hkey]
      exact ⟨(hgroups.ids e he id).mp hid, hsurvives⟩
    · rintro ⟨⟨p, hp, rfl, hkey⟩, hsurvives⟩
      obtain ⟨e, he, rfl⟩ := hgroups.keys p hp key hkey
      have hid : ∃ d ∈ points e, d.id = p.id :=
        mem_pointsOfIDs.mpr ⟨(hgroups.ids e he p.id).mpr ⟨p, hp, rfl, hkey⟩, hsurvives⟩
      have hne : (points e).isEmpty = false := by
        obtain ⟨d, hd, -⟩ := hid
        rw [Bool.eq_false_iff, Ne, List.isEmpty_iff]
        exact List.ne_nil_of_mem hd
      refine ⟨_, (hmem _).mpr ⟨e, he, by rw [metricMessage, if_neg (by simp [hne])]⟩, ?_, hid⟩
      exact hgroups.named e he

/-- Related lists have related elements. -/
theorem exists_mem_forall₂
    {α β : Type} {R : α → β → Prop} {P : α → Prop} {Q : β → Prop}
    (hPQ : ∀ a b, R a b → (P a ↔ Q b)) {l : List α} {l' : List β} (h : List.Forall₂ R l l') :
    (∃ a ∈ l, P a) ↔ ∃ b ∈ l', Q b := by
  induction h with
  | nil => simp
  | cons hab _ ih => simp only [List.mem_cons, exists_eq_or_imp, hPQ _ _ hab, ih]

/-- What is reported does not depend on the totals and the order of the points. -/
theorem Reports.congr
    {db : Db V} {ops : DoubleOps V} {batch : MetricBatch V} {messages messages' : List (MetricData V)}
    (h : Reports db ops batch messages) (hsame : List.Forall₂ (SameMessage db) messages' messages) :
    Reports db ops batch messages' := by
  have hkey : ∀ {m m' : MetricData V}, SameMessage db m m' → m.key = m'.key := by
    intro m m' hs
    have hgroup : m.withoutPoints.key = m'.withoutPoints.key := by rw [hs.group]
    exact hgroup
  have hid : ∀ d : DataPoint V, (d.withoutDeltaTotals db).id = d.id := by
    intro d
    rw [DataPoint.withoutDeltaTotals]
    split
    · split <;> rfl
    · rfl
  have hids : ∀ {m m' : MetricData V}, SameMessage db m m' → ∀ id,
      (∃ d ∈ m.dataPoints, d.id = id) ↔ ∃ d ∈ m'.dataPoints, d.id = id := by
    intro m m' hs id
    have hperm := hs.points.map DataPoint.id
    rw [List.map_map, List.map_map] at hperm
    have hmap : ∀ l : List (DataPoint V),
        l.map (DataPoint.id ∘ DataPoint.withoutDeltaTotals db) = l.map DataPoint.id :=
      fun l => List.map_congr_left fun d _ => hid d
    rw [hmap, hmap] at hperm
    simpa using hperm.mem_iff (a := id)
  refine ⟨?_, fun m hm hnil => ?_, fun key id => ?_⟩
  · have hkeys : messages'.map MetricData.key = messages.map MetricData.key := by
      rw [← List.forall₂_eq_eq_eq, List.forall₂_map_left_iff, List.forall₂_map_right_iff]
      exact hsame.imp fun _ _ hs => hkey hs
    rw [hkeys]
    exact h.keys_nodup
  · have hempty : ∀ m m' : MetricData V, SameMessage db m m' →
        (m.dataPoints = [] ↔ m'.dataPoints = []) := by
      intro m m' hs
      have hlength : m.dataPoints.length = m'.dataPoints.length := by
        simpa using hs.points.length_eq
      rw [← List.length_eq_zero_iff, hlength, List.length_eq_zero_iff]
    obtain ⟨m', hm', hnil'⟩ := (exists_mem_forall₂ hempty hsame).mp ⟨m, hm, hnil⟩
    exact h.points_ne_nil m' hm' hnil'
  · rw [← h.ids]
    refine exists_mem_forall₂ (fun _ _ hs => ?_) hsame
    rw [hkey hs, hids hs id]

/-- Delivering the commits in groups sends the messages that delivering them one at a time
sends: those of the full history, commit after commit, one for each group of a commit that has
surviving points. -/
theorem groupedDelivery_eq
    {db : Db V} (hpositions : db.pointPositions.Nodup) (ops : DoubleOps V)
    (groups : List (List (MetricBatch V)))
    (hcommitted : ∀ batch ∈ groups.flatten, Committed db batch) :
    List.Forall₂ (SameMessage db)
        (groups.flatMap (newBatch db ops true))
        (groups.flatten.flatMap fun batch => newBatch db ops true [batch]) ∧
      List.Forall₂ (SameMessage db)
        (groups.flatMap (newBatch db ops true))
        (groups.flatten.flatMap (referenceMessages db ops)) ∧
      ∀ batch ∈ groups.flatten, Reports db ops batch (newBatch db ops true [batch]) := by
  have hnewBatch : ∀ deliveries : List (MetricBatch V),
      (∀ batch ∈ deliveries, Committed db batch) →
      List.Forall₂ (SameMessage db) (newBatch db ops true deliveries)
        (deliveries.flatMap (referenceMessages db ops)) := by
    intro deliveries h
    rw [newBatch]
    split
    · rename_i hempty
      rw [Bool.not_true, Bool.or_false, List.isEmpty_iff] at hempty
      rw [hempty]
      exact List.Forall₂.nil
    · exact deliveries_reference hpositions ops h
  have hgrouped : List.Forall₂ (SameMessage db) (groups.flatMap (newBatch db ops true))
      (groups.flatten.flatMap (referenceMessages db ops)) := by
    rw [← List.flatMap_id, List.flatMap_assoc]
    refine forall₂_flatMap fun deliveries hd => hnewBatch deliveries fun batch hb => ?_
    exact hcommitted batch (List.mem_flatten.mpr ⟨deliveries, hd, hb⟩)
  have hsingle : ∀ batch ∈ groups.flatten, List.Forall₂ (SameMessage db)
      (newBatch db ops true [batch]) (referenceMessages db ops batch) := by
    intro batch hbatch
    have h := hnewBatch [batch] fun b hb => by
      rw [List.mem_singleton.mp hb]
      exact hcommitted batch hbatch
    rwa [List.flatMap_singleton] at h
  refine ⟨?_, hgrouped, fun batch hbatch => ?_⟩
  · exact forall₂_common (fun h h' => h.trans h'.symm) hgrouped (forall₂_flatMap hsingle)
  · exact (referenceMessages_reports db ops batch).congr (hsingle batch hbatch)

/-! ### Two commits of one counter -/

def sampleCommit (point : MetricPointRow Int) : MetricBatch Int where
  resources := []
  series := [sampleSeries]
  histogramLayouts := []
  points := [point]
  exemplars := []

/-- The second and the third point, committed out of order. -/
def sampleCommits : List (MetricBatch Int) :=
  [sampleCommit (samplePoint 3 30 9), sampleCommit (samplePoint 2 20 6)]

theorem sampleCommits_committed : ∀ batch ∈ sampleCommits, Committed sampleMetrics batch := by
  unfold Committed
  decide

theorem groupedDelivery_eq_sample :
    List.Forall₂ (SameMessage sampleMetrics)
      ([sampleCommits].flatMap (newBatch sampleMetrics sampleOps true))
      ([sampleCommits].flatten.flatMap fun batch =>
        newBatch sampleMetrics sampleOps true [batch]) ∧
      ∀ batch ∈ sampleCommits, Reports sampleMetrics sampleOps batch
        (newBatch sampleMetrics sampleOps true [batch]) := by
  obtain ⟨hsame, -, hreports⟩ := groupedDelivery_eq sampleMetrics_positions sampleOps
    [sampleCommits] sampleCommits_committed
  exact ⟨hsame, hreports⟩

/-- Each commit sends its own point, with what it adds to the point before it. -/
example :
    ((newBatch sampleMetrics sampleOps true sampleCommits).map fun m =>
      m.dataPoints.map DataPoint.value) = [[3], [2]] := by
  decide +kernel

end Broadcast
end Otelop
