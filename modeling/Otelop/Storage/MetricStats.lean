import Mathlib.Tactic
import Otelop.Lib.Grouping
import Otelop.Storage.MetricPoints
import Otelop.Storage.Pages

/-!
# The statistics of a metrics page

`populateMetricSummaryStats` of `internal/storage/query_metric.go` fills in how many points a
group has in the window, and its latest value, with one query each for the whole page.  The
count does not derive the points: a point of a series that needs a predecessor is counted when
there is an older one.

The rows of a query come in any order, and Go keeps them by the joined names of the group.

**Results.**
* `mem_pointCountRows`: what the query counts of a group.
* `countP_recorded`: the points counted are those derived and those behind a gap.
* `pointCount_eq_iff`: when the count is the length of the list.
-/

namespace Otelop
namespace Storage

open Lib

section MetricStats

variable {V : Type}

/-! ### Reading the rows -/

/-- `serviceName+"\x00"+metricName` -/
def summaryKey (group : String × String) : String := group.1 ++ "\x00" ++ group.2

/-- The map filled by the loop over the rows. -/
def readRows {β : Type} (missing : β) (rows : List ((String × String) × β)) : String → β :=
  rows.foldl (fun values r => Function.update values (summaryKey r.1) r.2) fun _ => missing

/-- The row read last under a key. -/
def lastRow {β : Type} (rows : List ((String × String) × β)) (key : String) :
    Option ((String × String) × β) :=
  rows.reverse.find? fun r => summaryKey r.1 = key

/-! ### The count query -/

/-- `window_points`, for every selected group. -/
def Db.countPoints (db : Db V) (ops : DoubleOps V) (selected : List (String × String))
    (fromTs toTs : Time) : List ((String × String) × PointRow V) :=
  selected.flatMap fun g =>
    (windowPoints (db.groupPoints ops 0 g.1 g.2) fromTs toTs).map (Prod.mk g)

/-- `predecessor_series` -/
def Db.predecessorSeries (db : Db V) (window : List (PointRow V)) (fromTs : Time) :
    List UInt64 :=
  (representedSeries window).filter fun key =>
    db.metricPoints.any fun p => p.row.seriesKey = key && decide (p.row.ts < fromTs)

/-- `row_number() OVER (PARTITION BY series_key ORDER BY ts)` -/
def pointRank (window : List (PointRow V)) (p : PointRow V) : Nat :=
  1 + window.countP fun q => decide (q.seriesKey = p.seriesKey) && pointBefore q p

/-- The `CASE` of the count query is 1. -/
def PointRow.isCounted (p : PointRow V) (hasPredecessor : Bool) (rank : Nat) : Bool :=
  if isDistributionType p.metricType then
    p.count.isSome && (p.temporality ≠ "cumulative" || decide (1 < rank) || hasPredecessor)
  else
    p.value.isSome && (p.metricType ≠ "Sum" || p.temporality ≠ "cumulative" || !p.isMonotonic ||
      decide (1 < rank) || hasPredecessor)

/-- The rows of the count query. -/
def Db.pointCountRows (db : Db V) (ops : DoubleOps V) (selected : List (String × String))
    (fromTs toTs : Time) : List ((String × String) × Nat) :=
  let points := db.countPoints ops selected fromTs toTs
  let window := points.map Prod.snd
  let older := db.predecessorSeries window fromTs
  (Lib.groupRows Prod.fst points).map fun g =>
    (g.1, g.2.countP fun x => x.2.isCounted (older.contains x.2.seriesKey) (pointRank window x.2))

/-- What `populateMetricSummaryStats` fills in, from the rows of its two queries. -/
def summaryStats (counts : List ((String × String) × Nat))
    (latest : List ((String × String) × Option V)) (serviceName metricName : String) :
    Nat × Option V :=
  (readRows 0 counts (summaryKey (serviceName, metricName)),
    readRows none latest (summaryKey (serviceName, metricName)))

/-! ### The last row of a key -/

theorem readRows_eq {β : Type} (missing : β) (rows : List ((String × String) × β)) (key : String) :
    readRows missing rows key = ((lastRow rows key).map Prod.snd).getD missing := by
  induction rows using List.reverseRecOn with
  | nil =>
      rfl
  | append_singleton rows r ih =>
      rw [readRows, List.foldl_append, List.foldl_cons, List.foldl_nil, lastRow,
        List.reverse_append, List.reverse_singleton, List.singleton_append, List.find?_cons]
      by_cases hkey : summaryKey r.1 = key
      · rw [← hkey, Function.update_self, decide_eq_true rfl]
        rfl
      · rw [Function.update_of_ne (Ne.symm hkey), decide_eq_false hkey]
        exact ih

theorem mem_of_lastRow {β : Type} {rows : List ((String × String) × β)} {key : String}
    {r : (String × String) × β} (h : lastRow rows key = some r) :
    r ∈ rows ∧ summaryKey r.1 = key :=
  ⟨List.mem_reverse.mp (List.mem_of_find?_eq_some h), by simpa using List.find?_some h⟩

theorem lastRow_eq_none_iff {β : Type} {rows : List ((String × String) × β)} {key : String} :
    lastRow rows key = none ↔ ∀ r ∈ rows, summaryKey r.1 ≠ key := by
  rw [lastRow, List.find?_eq_none]
  simp only [List.mem_reverse, decide_eq_true_eq, ne_eq]

/-! ### The points of a group -/

/-- A series belongs to one group. -/
theorem group_of_seriesKey
    {db : Db V} {ops : DoubleOps V} {i j : Nat} {g g' : String × String} {p q : PointRow V}
    (hp : p ∈ db.groupPoints ops i g.1 g.2) (hq : q ∈ db.groupPoints ops j g'.1 g'.2)
    (h : p.seriesKey = q.seriesKey) : g = g' := by
  obtain ⟨x, -, s, hs, hservice, hname, rfl⟩ := mem_groupPoints.mp hp
  obtain ⟨y, -, t, ht, hservice', hname', rfl⟩ := mem_groupPoints.mp hq
  have hkey : x.row.seriesKey = y.row.seriesKey := h
  rw [hkey, ht] at hs
  cases hs
  exact Prod.ext (hservice.symm.trans hservice') (hname.symm.trans hname')

theorem filter_countPoints
    (db : Db V) (ops : DoubleOps V) {selected : List (String × String)}
    (hselected : selected.Nodup) {g : String × String} (hg : g ∈ selected) (fromTs toTs : Time) :
    (db.countPoints ops selected fromTs toTs).filter (fun x => x.1 = g) =
      (windowPoints (db.groupPoints ops 0 g.1 g.2) fromTs toTs).map (Prod.mk g) := by
  refine filter_flatMap_of_nodup hselected hg (fun x hx => ?_) fun g' _ hne x hx => ?_
  · obtain ⟨p, -, rfl⟩ := List.mem_map.mp hx
    exact decide_eq_true rfl
  · obtain ⟨p, -, rfl⟩ := List.mem_map.mp hx
    exact decide_eq_false hne

theorem mem_window_countPoints
    {db : Db V} {ops : DoubleOps V} {selected : List (String × String)} {fromTs toTs : Time}
    {q : PointRow V} :
    q ∈ (db.countPoints ops selected fromTs toTs).map Prod.snd ↔
      ∃ g ∈ selected, q ∈ windowPoints (db.groupPoints ops 0 g.1 g.2) fromTs toTs := by
  rw [Db.countPoints, List.map_flatMap, List.mem_flatMap]
  refine exists_congr fun g => and_congr_right fun _ => ?_
  rw [List.map_map]
  exact Iff.of_eq (congrArg (q ∈ ·) (List.map_id _))

/-! ### Older points -/

theorem exists_older_iff
    {db : Db V} {ops : DoubleOps V} {selected : List (String × String)}
    {g : String × String} (hg : g ∈ selected) {fromTs toTs : Time} {p : PointRow V}
    (hp : p ∈ windowPoints (db.groupPoints ops 0 g.1 g.2) fromTs toTs)
    (hrequired : p.predecessorRequired = true) :
    let window := (db.countPoints ops selected fromTs toTs).map Prod.snd
    (1 < pointRank window p ∨ p.seriesKey ∈ db.predecessorSeries window fromTs) ↔
      (lag (db.groupPoints ops 0 g.1 g.2) p).isSome = true := by
  intro window
  have hpgroup := (mem_windowPoints.mp hp).1
  have hlag : (lag (db.groupPoints ops 0 g.1 g.2) p).isSome = true ↔
      ∃ q ∈ db.groupPoints ops 0 g.1 g.2, q.seriesKey = p.seriesKey ∧ pointBefore q p = true := by
    rw [← Option.ne_none_iff_isSome, ne_eq, lag, firstBy_eq_none_iff,
      List.eq_nil_iff_forall_not_mem, not_forall_not]
    refine exists_congr fun q => ?_
    rw [mem_lagRows, and_congr_right_iff]
    refine fun hq => and_congr_left fun _ => ⟨seriesKey_of_samePartition, fun hkey => ?_⟩
    rw [PointRow.samePartition, requestIndex_of_mem_groupPoints hq,
      requestIndex_of_mem_groupPoints hpgroup, hkey]
    simp
  have hrank : 1 < pointRank window p ↔
      ∃ q ∈ windowPoints (db.groupPoints ops 0 g.1 g.2) fromTs toTs,
        q.seriesKey = p.seriesKey ∧ pointBefore q p = true := by
    rw [pointRank, Nat.lt_add_right_iff_pos, List.countP_pos_iff]
    constructor
    · rintro ⟨q, hq, hbefore⟩
      rw [Bool.and_eq_true, decide_eq_true_eq] at hbefore
      obtain ⟨g', -, hq⟩ := mem_window_countPoints.mp hq
      have hsame : g' = g := group_of_seriesKey (mem_windowPoints.mp hq).1 hpgroup hbefore.1
      exact ⟨q, hsame ▸ hq, hbefore⟩
    · rintro ⟨q, hq, hkey, hbefore⟩
      exact ⟨q, mem_window_countPoints.mpr ⟨g, hg, hq⟩, by simp [hkey, hbefore]⟩
  have holder : p.seriesKey ∈ db.predecessorSeries window fromTs ↔
      ∃ q ∈ db.groupPoints ops 0 g.1 g.2, q.seriesKey = p.seriesKey ∧ q.ts < fromTs := by
    have hrepresented : p.seriesKey ∈ representedSeries window :=
      List.mem_dedup.mpr (List.mem_map_of_mem (List.mem_filter.mpr
        ⟨mem_window_countPoints.mpr ⟨g, hg, hp⟩, hrequired⟩))
    rw [Db.predecessorSeries, List.mem_filter, and_iff_right hrepresented, List.any_eq_true]
    obtain ⟨x, -, s, hs, hservice, hname, rfl⟩ := mem_groupPoints.mp hpgroup
    constructor
    · rintro ⟨y, hy, hold⟩
      rw [Bool.and_eq_true, decide_eq_true_eq, decide_eq_true_eq] at hold
      have hkey : y.row.seriesKey = x.row.seriesKey := hold.1
      exact ⟨y.pointRow ops 0 s, mem_groupPoints.mpr
        ⟨y, hy, s, hkey ▸ hs, hservice, hname, rfl⟩, hkey, hold.2⟩
    · rintro ⟨q, hq, hkey, hold⟩
      obtain ⟨y, hy, t, -, -, -, rfl⟩ := mem_groupPoints.mp hq
      exact ⟨y, hy, by simpa using ⟨hkey, hold⟩⟩
  rw [hlag, hrank, holder]
  obtain ⟨-, hfrom, hto⟩ := mem_windowPoints.mp hp
  constructor
  · rintro (⟨q, hq, hkey, hbefore⟩ | ⟨q, hq, hkey, hold⟩)
    · exact ⟨q, (mem_windowPoints.mp hq).1, hkey, hbefore⟩
    · exact ⟨q, hq, hkey, pointBefore_of_lt (lt_of_lt_of_le hold hfrom)⟩
  · rintro ⟨q, hq, hkey, hbefore⟩
    by_cases hold : q.ts < fromTs
    · exact Or.inr ⟨q, hq, hkey, hold⟩
    · have hin : q.ts < toTs := lt_of_le_of_lt (ts_le_of_pointBefore hbefore) hto
      exact Or.inl ⟨q, mem_windowPoints.mpr ⟨hq, not_lt.mp hold, hin⟩, hkey, hbefore⟩

/-! ### Points behind a gap -/

/-- The column the deltas of a series are derived from. -/
def PointRow.source (metricType : String) (p : PointRow V) : Option V :=
  if isDistributionType metricType then p.count else p.value

/-- The point has a source value and, where a predecessor is needed, an older point. -/
def PointRow.isRecorded (group : List (PointRow V)) (p : PointRow V) : Bool :=
  (p.source p.metricType).isSome && (!p.predecessorRequired || (lag group p).isSome)

/-- The point has a source value and needs the one before it, which has none. -/
def PointRow.behindGap (group : List (PointRow V)) (p : PointRow V) : Bool :=
  (p.source p.metricType).isSome && p.predecessorRequired &&
    (lag group p).any fun q => (q.source p.metricType).isNone

theorem isCounted_eq (p : PointRow V) (hasPredecessor : Bool) (rank : Nat) :
    p.isCounted hasPredecessor rank =
      ((p.source p.metricType).isSome &&
        (!p.predecessorRequired || (decide (1 < rank) || hasPredecessor))) := by
  rw [PointRow.isCounted, PointRow.source, PointRow.predecessorRequired]
  cases hdist : isDistributionType p.metricType with
  | true =>
      have hsum : p.metricType ≠ "Sum" := by
        rintro htype
        rw [htype] at hdist
        revert hdist
        decide
      by_cases hcumulative : p.temporality = "cumulative" <;>
        simp [hsum, hcumulative]
  | false =>
      by_cases hsum : p.metricType = "Sum" <;>
        by_cases hcumulative : p.temporality = "cumulative" <;>
          cases p.isMonotonic <;> simp [hsum, hcumulative]

/-- A point is derived when it is recorded and not behind a gap. -/
theorem isDerived_derivedPoint
    (ops : DoubleOps V) {points group : List (PointRow V)} {p : PointRow V}
    (hlag : p.predecessorRequired = true → lag points p = lag group p) :
    (derivedPoint ops points p).isDerived = (p.isRecorded group && !p.behindGap group) := by
  have hdelta : ∀ previous current : Option V,
      (lagDelta ops previous current).isSome = (current.isSome && previous.isSome) := by
    intro previous current
    cases previous with
    | none => cases current <;> rfl
    | some y =>
        cases current with
        | none => rfl
        | some x =>
            rw [lagDelta]
            split <;> rfl
  -- What the row shows, by the row in front of it.
  have hshown : (derivedPoint ops points p).isDerived =
      ((p.source p.metricType).isSome && (!p.predecessorRequired ||
        ((lag points p).bind fun q => q.source p.metricType).isSome)) := by
    rw [derivedPoint, DerivedPoint.isDerived]
    cases hdist : isDistributionType p.metricType with
    | true =>
        by_cases hcumulative : p.temporality = "cumulative" <;>
          simp [derivedRow, DerivedRow.point, PointRow.source, PointRow.predecessorRequired, hdist,
            hcumulative, hdelta]
    | false =>
        have hcounter : p.predecessorRequired = p.isCounter := by
          rw [PointRow.predecessorRequired, PointRow.isCounter, hdist, Bool.or_false,
            Bool.and_left_comm, Bool.and_assoc]
        cases hrequired : p.isCounter <;>
          simp [derivedRow, DerivedRow.point, PointRow.source, hcounter, hdist, hrequired, hdelta]
  rw [hshown, PointRow.isRecorded, PointRow.behindGap]
  cases hrequired : p.predecessorRequired with
  | false =>
      simp
  | true =>
      rw [hlag hrequired]
      cases lag group p with
      | none => simp
      | some q =>
          cases hp : p.source p.metricType <;> cases hq : q.source p.metricType <;> simp [hq]

/-! ### What is counted -/

/-- The points the query counts of a group. -/
theorem countP_isCounted
    {db : Db V} {ops : DoubleOps V} {selected : List (String × String)}
    {g : String × String} (hg : g ∈ selected) (fromTs toTs : Time) :
    let points := db.countPoints ops selected fromTs toTs
    let window := points.map Prod.snd
    let group := db.groupPoints ops 0 g.1 g.2
    (windowPoints group fromTs toTs).countP (fun p =>
        p.isCounted ((db.predecessorSeries window fromTs).contains p.seriesKey)
          (pointRank window p)) =
      (windowPoints group fromTs toTs).countP (PointRow.isRecorded group) := by
  intro points window group
  refine List.countP_congr fun p hp => ?_
  rw [isCounted_eq, PointRow.isRecorded]
  cases hrequired : p.predecessorRequired with
  | false =>
      simp
  | true =>
      have holder := exists_older_iff hg hp hrequired
      simp only [Bool.and_eq_true, Bool.or_eq_true, Bool.not_true, Bool.false_eq_true, false_or,
        decide_eq_true_eq, List.contains_iff_mem]
      exact and_congr_right fun _ => holder

theorem mem_pointCountRows
    {db : Db V} {ops : DoubleOps V} {selected : List (String × String)}
    (hselected : selected.Nodup) {fromTs toTs : Time} {r : (String × String) × Nat} :
    r ∈ db.pointCountRows ops selected fromTs toTs ↔
      r.1 ∈ selected ∧ windowPoints (db.groupPoints ops 0 r.1.1 r.1.2) fromTs toTs ≠ [] ∧
        r.2 = (windowPoints (db.groupPoints ops 0 r.1.1 r.1.2) fromTs toTs).countP
          (PointRow.isRecorded (db.groupPoints ops 0 r.1.1 r.1.2)) := by
  have hrows : ∀ g ∈ selected, ((db.countPoints ops selected fromTs toTs).filter
      fun x => x.1 = g) =
        (windowPoints (db.groupPoints ops 0 g.1 g.2) fromTs toTs).map (Prod.mk g) :=
    fun g hg => filter_countPoints db ops hselected hg fromTs toTs
  have hkeys : ∀ g, (∃ x ∈ db.countPoints ops selected fromTs toTs, x.1 = g) ↔
      g ∈ selected ∧ windowPoints (db.groupPoints ops 0 g.1 g.2) fromTs toTs ≠ [] := by
    intro g
    constructor
    · rintro ⟨x, hx, rfl⟩
      obtain ⟨g', hg', hx⟩ := List.mem_flatMap.mp hx
      obtain ⟨p, hp, rfl⟩ := List.mem_map.mp hx
      exact ⟨hg', List.ne_nil_of_mem hp⟩
    · rintro ⟨hg, hne⟩
      obtain ⟨p, hp⟩ := List.exists_mem_of_ne_nil _ hne
      exact ⟨(g, p), List.mem_flatMap.mpr ⟨g, hg, List.mem_map_of_mem hp⟩, rfl⟩
  have hcount : ∀ g ∈ selected, ∀ counted : PointRow V → Bool,
      ((db.countPoints ops selected fromTs toTs).filter fun x => x.1 = g).countP
          (fun x => counted x.2) =
        (windowPoints (db.groupPoints ops 0 g.1 g.2) fromTs toTs).countP counted := by
    intro g hg counted
    rw [hrows g hg, List.countP_map]
    rfl
  let window := (db.countPoints ops selected fromTs toTs).map Prod.snd
  let counted : PointRow V → Bool := fun p =>
    p.isCounted ((db.predecessorSeries window fromTs).contains p.seriesKey) (pointRank window p)
  rw [Db.pointCountRows, List.mem_map]
  constructor
  · rintro ⟨g, hgroup, rfl⟩
    obtain ⟨hkey, hmembers⟩ := mem_groupRows.mp hgroup
    obtain ⟨hg, hne⟩ := (hkeys g.1).mp hkey
    refine ⟨hg, hne, ?_⟩
    rw [← countP_isCounted hg, hmembers]
    exact hcount g.1 hg counted
  · rintro ⟨hg, hne, hr⟩
    refine ⟨(r.1, (db.countPoints ops selected fromTs toTs).filter fun x => x.1 = r.1),
      mem_groupRows.mpr ⟨(hkeys r.1).mpr ⟨hg, hne⟩, rfl⟩, Prod.ext rfl ?_⟩
    rw [hr, ← countP_isCounted hg]
    exact hcount r.1 hg counted

theorem isRecorded_of_behindGap {group : List (PointRow V)} {p : PointRow V}
    (h : p.behindGap group = true) : p.isRecorded group = true := by
  rw [PointRow.behindGap, Bool.and_eq_true, Bool.and_eq_true] at h
  obtain ⟨⟨hsource, -⟩, hgap⟩ := h
  rw [PointRow.isRecorded, hsource]
  cases hlag : lag group p with
  | none =>
      rw [hlag] at hgap
      cases hgap
  | some q => simp

/-- The points recorded are those derived and those behind a gap. -/
theorem countP_recorded
    {db : Db V} (hpositions : db.pointPositions.Nodup) (ops : DoubleOps V)
    (serviceName metricName : String) (fromTs toTs : Time) :
    let group := db.groupPoints ops 0 serviceName metricName
    (windowPoints group fromTs toTs).countP (PointRow.isRecorded group) =
      (filterDerivedPointsInWindow
        (db.metricPointsWithPredecessors ops serviceName metricName fromTs toTs)
        fromTs toTs).length +
      (windowPoints group fromTs toTs).countP (PointRow.behindGap group) := by
  intro group
  let points := pointsWithPredecessors group fromTs toTs
  have hderived : (filterDerivedPointsInWindow
        (db.metricPointsWithPredecessors ops serviceName metricName fromTs toTs)
        fromTs toTs).length =
      (windowPoints group fromTs toTs).countP
        fun p => p.isRecorded group && !p.behindGap group := by
    have hperm := filterDerivedPointsInWindow_perm ops points fromTs toTs
    rw [window_pointsWithPredecessors] at hperm
    refine hperm.length_eq.trans ?_
    rw [← List.countP_eq_length_filter, List.countP_map]
    refine List.countP_congr fun p hp => Iff.of_eq (congrArg (· = true) ?_)
    refine isDerived_derivedPoint ops fun hrequired => ?_
    refine lag_eq_of_covers (groupPoints_positions hpositions ops 0 serviceName metricName) ?_
      (covers_pointsWithPredecessors group fromTs toTs) hp hrequired
    intro x hx y hy
    rw [requestIndex_of_mem_groupPoints hx, requestIndex_of_mem_groupPoints hy]
  rw [hderived]
  induction windowPoints group fromTs toTs with
  | nil =>
      rfl
  | cons p l ih =>
      rw [List.countP_cons, List.countP_cons, List.countP_cons, ih]
      cases hgap : p.behindGap group with
      | true =>
          rw [isRecorded_of_behindGap hgap]
          simp only [Bool.not_true, Bool.and_false, Bool.false_eq_true, if_true, if_false]
          omega
      | false =>
          simp only [Bool.not_false, Bool.and_true, Bool.false_eq_true, if_false]
          omega

/-- The count of a group on a page is the length of the list it counts when no point of the
window is behind a gap.  Where the row read last under the joined names is another group's, that
group has to have as many recorded points as this one has that are not behind a gap. -/
theorem pointCount_eq_iff
    {db : Db V} (hpositions : db.pointPositions.Nodup) (ops : DoubleOps V)
    {items : List (MetricSummary V)}
    (hitems : (items.map fun m => (m.serviceName, m.metricName)).Nodup)
    (fromTs toTs : Time) {counts : List ((String × String) × Nat)}
    (hcounts : counts.Perm (db.pointCountRows ops
      (items.map fun m => (m.serviceName, m.metricName)) fromTs toTs))
    (latest : List ((String × String) × Option V)) {m : MetricSummary V} (hm : m ∈ items) :
    let group := db.groupPoints ops 0 m.serviceName m.metricName
    let derived := filterDerivedPointsInWindow
      (db.metricPointsWithPredecessors ops m.serviceName m.metricName fromTs toTs) fromTs toTs
    (m.withStats (summaryStats counts latest)).pointCount = derived.length ↔
      ∀ r, lastRow counts (summaryKey (m.serviceName, m.metricName)) = some r →
        if r.1 = (m.serviceName, m.metricName) then
          ∀ p ∈ windowPoints group fromTs toTs, p.behindGap group = false
        else
          let other := db.groupPoints ops 0 r.1.1 r.1.2
          (windowPoints other fromTs toTs).countP (PointRow.isRecorded other) +
              (windowPoints group fromTs toTs).countP (PointRow.behindGap group) =
            (windowPoints group fromTs toTs).countP (PointRow.isRecorded group) := by
  intro group derived
  have hselected : (m.serviceName, m.metricName) ∈
      items.map fun m => (m.serviceName, m.metricName) := List.mem_map_of_mem hm
  have hcount : (m.withStats (summaryStats counts latest)).pointCount =
      ((lastRow counts (summaryKey (m.serviceName, m.metricName))).map Prod.snd).getD 0 :=
    readRows_eq 0 counts _
  have hsplit := countP_recorded hpositions ops m.serviceName m.metricName fromTs toTs
  rw [hcount]
  cases hlast : lastRow counts (summaryKey (m.serviceName, m.metricName)) with
  | none =>
      have hempty : windowPoints group fromTs toTs = [] := by
        by_contra hne
        have hrow : ((m.serviceName, m.metricName),
            (windowPoints group fromTs toTs).countP (PointRow.isRecorded group)) ∈
              db.pointCountRows ops (items.map fun m => (m.serviceName, m.metricName)) fromTs
                toTs :=
          (mem_pointCountRows hitems).mpr ⟨hselected, hne, rfl⟩
        exact lastRow_eq_none_iff.mp hlast _ (hcounts.mem_iff.mpr hrow) rfl
      have hzero : derived.length = 0 := by
        have hsum := hsplit.symm
        rw [show windowPoints (db.groupPoints ops 0 m.serviceName m.metricName) fromTs toTs = []
          from hempty] at hsum
        exact (Nat.add_eq_zero_iff.mp hsum).1
      exact ⟨fun _ r hr => absurd hr (by simp), fun _ => hzero.symm⟩
  | some r =>
      obtain ⟨-, -, hr⟩ := (mem_pointCountRows hitems).mp
        (hcounts.mem_iff.mp (mem_of_lastRow hlast).1)
      simp only [Option.map_some, Option.getD_some, Option.some.injEq, forall_eq']
      rw [hr]
      by_cases hown : r.1 = (m.serviceName, m.metricName)
      · rw [if_pos hown, hown, hsplit]
        have hgap : (windowPoints group fromTs toTs).countP (PointRow.behindGap group) = 0 ↔
            ∀ p ∈ windowPoints group fromTs toTs, p.behindGap group = false := by
          rw [List.countP_eq_zero]
          simp only [Bool.not_eq_true]
        rw [← hgap]
        exact Nat.add_eq_left
      · rw [if_neg hown, hsplit]
        exact Nat.add_right_cancel_iff.symm

end MetricStats

/-! ### A counter that missed an export -/

/-- Three points of a counter, the second without a value. -/
def gappedPoints : List (MetricPointRow Int) :=
  [samplePoint 1 10 4, { samplePoint 2 20 0 with valueInt := none }, samplePoint 3 30 9]

def gappedMetrics : Db Int :=
  { Db.empty Int with
    metricSeries := sampleMetrics.metricSeries
    metricPoints := gappedPoints.map fun p => ⟨p, 0⟩ }

theorem gappedMetrics_positions : gappedMetrics.pointPositions.Nodup := by
  decide

def sampleSummary : MetricSummary Int where
  serviceName := "checkout"
  metricName := "requests"
  type := "Sum"
  unit := "1"
  description := ""
  lastSeen := 0
  seriesKeys := [7]
  resource := .empty
  pointCount := 0
  latestValue := none

theorem pointCount_eq_iff_sample :
    let m := sampleSummary
    let group := gappedMetrics.groupPoints sampleOps 0 m.serviceName m.metricName
    let derived := filterDerivedPointsInWindow
      (gappedMetrics.metricPointsWithPredecessors sampleOps m.serviceName m.metricName 0 25) 0 25
    let counts := gappedMetrics.pointCountRows sampleOps
      ([m].map fun m => (m.serviceName, m.metricName)) 0 25
    (m.withStats (summaryStats counts [])).pointCount = derived.length ↔
      ∀ r, lastRow counts (summaryKey (m.serviceName, m.metricName)) = some r →
        if r.1 = (m.serviceName, m.metricName) then
          ∀ p ∈ windowPoints group 0 25, p.behindGap group = false
        else
          let other := gappedMetrics.groupPoints sampleOps 0 r.1.1 r.1.2
          (windowPoints other 0 25).countP (PointRow.isRecorded other) +
              (windowPoints group 0 25).countP (PointRow.behindGap group) =
            (windowPoints group 0 25).countP (PointRow.isRecorded group) :=
  pointCount_eq_iff gappedMetrics_positions sampleOps (by decide) 0 25 (List.Perm.refl _) []
    (List.mem_singleton_self sampleSummary)

/-- The third point is counted, and not derived from the second. -/
theorem pointCount_behindGap :
    (sampleSummary.withStats (summaryStats
      (gappedMetrics.pointCountRows sampleOps [("checkout", "requests")] 0 40)
      [])).pointCount ≠
    (filterDerivedPointsInWindow
      (gappedMetrics.metricPointsWithPredecessors sampleOps "checkout" "requests" 0 40)
      0 40).length := by
  decide +kernel

end Storage
end Otelop
