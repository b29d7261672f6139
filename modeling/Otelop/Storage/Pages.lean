import Mathlib.Tactic
import Mathlib.Data.Prod.Lex
import Mathlib.Data.String.Basic
import Otelop.Lib.Keyset
import Otelop.Storage.References

/-!
# The page queries

`TracesPage`, `LogsPage`, `LogsPageByTraceID` and `MetricsPageSearch` of
`internal/storage` list the traces, the logs and the metric groups, newest
first.  Each asks for one row more than a page has, to learn whether there is a
next page, and each has a cursor predicate of its own.

What a search accepts is a parameter: `spanMatches`, `logMatches` and
`seriesMatches` stand for the predicates `traceSearchSQL`, `logSearchSQL` and
`metricSearchSQL` build.

**Results.**
* `traceCursor_admits`, `logCursor_admits`, `metricCursor_admits`: a cursor
  admits the rows whose key lies below its own.
* `Db.tracesPage_eq`, `pageOfLogs_eq`, `Db.metricsPage_eq`: a page is the
  beginning of the list behind the cursor.
-/

namespace Otelop
namespace Storage

open Lib

variable {V : Type}

/-! ### Limits -/

/-- A limit that is not positive asks for everything. -/
def pageLimit (limit : Int) : Nat :=
  if limit ≤ 0 then 2 ^ 62 else limit.toNat

/-- `LIMIT ?`: one row more than a page has. -/
def queryLimit (limit : Int) : Nat :=
  if 0 < limit then pageLimit limit + 1 else pageLimit limit

/-- The page without its probe row, and whether there was one. -/
def cutProbe {α : Type} (limit : Int) (items : List α) : List α × Bool :=
  if 0 < limit ∧ limit < items.length then (items.take limit.toNat, true)
  else (items, false)

/-- The probing row tells whether there is another page. -/
theorem cutProbe_take
    {α : Type} {limit : Int} (hlimit : 0 < limit) (l : List α) :
    cutProbe limit (l.take (queryLimit limit)) =
      (l.take limit.toNat, decide (limit.toNat < l.length)) := by
  have hquery : queryLimit limit = limit.toNat + 1 := by
    rw [queryLimit, if_pos hlimit, pageLimit, if_neg (by omega)]
  rw [hquery, cutProbe, List.length_take]
  by_cases hlong : limit.toNat < l.length
  · rw [if_pos ⟨hlimit, by omega⟩, List.take_take]
    simp [hlong]
  · rw [if_neg (by omega), List.take_of_length_le (by omega),
      List.take_of_length_le (by omega)]
    simp [hlong]

/-! ### Traces -/

structure TraceCursor where
  startTime : Time
  firstSeen : Time
  traceID : String

def traceCursorArgs : Option TraceCursor → Bool × Time × Time × String
  | none => (true, 0, 0, "")
  | some after => (false, after.startTime, after.firstSeen, after.traceID)

/-- The cursor predicate of the two trace queries. -/
def traceCursorAdmits (after : Option TraceCursor) (t : TraceSummaryRow) : Bool :=
  let (firstPage, cursorStart, cursorSeen, cursorID) := traceCursorArgs after
  firstPage || decide (t.startTime < cursorStart) ||
    decide (t.startTime = cursorStart) && decide (t.firstSeen < cursorSeen) ||
    decide (t.startTime = cursorStart) && decide (t.firstSeen = cursorSeen) &&
      decide (t.traceID < cursorID)

/-- `start_ts, first_seen, trace_id` -/
def TraceSummaryRow.listKey (t : TraceSummaryRow) : Time ×ₗ Time ×ₗ String :=
  toLex (t.startTime, toLex (t.firstSeen, t.traceID))

/-- The condition of `tracesPageSearchQuery` on the spans of a trace, which the
query for the empty search does without. -/
def Db.traceMatches (db : Db V) (spanMatches : String → StoredSpan → ResourceRow → Bool)
    (search : String) (traceID : String) : Bool :=
  decide (search = "") || db.spans.any fun s =>
    decide (s.traceID = traceID) &&
      (db.resources.find? s.resourceHash).any fun r => spanMatches search s r

/-- The summaries of the window that match the search. -/
def Db.matchingTraces (db : Db V)
    (spanMatches : String → StoredSpan → ResourceRow → Bool)
    (fromTs toTs : Time) (search : String) : List TraceSummaryRow :=
  db.traceSummaries.rows.filter fun t =>
    decide (fromTs ≤ t.startTime) && decide (t.startTime < toTs) &&
      db.traceMatches spanMatches search t.traceID

/-- One row of `tracesPageResultQuery`, which also selects `first_seen`. -/
def Db.scanPageSummary (db : Db V) (t : TraceSummaryRow) : Option TraceSummary :=
  (db.scanTraceSummary t).map fun item => { item with firstSeen := some t.firstSeen }

def Db.tracesPage (db : Db V)
    (spanMatches : String → StoredSpan → ResourceRow → Bool)
    (fromTs toTs : Time) (after : Option TraceCursor) (limit : Int) (search : String) :
    Except String (List TraceSummary × Bool) :=
  let pageIDs :=
    (orderDesc TraceSummaryRow.listKey
      ((db.matchingTraces spanMatches fromTs toTs search).filter
        (traceCursorAdmits after))).take (queryLimit limit)
  match (orderDesc TraceSummaryRow.listKey pageIDs).mapM db.scanPageSummary with
  | none => .error "storage: scan trace summary"
  | some items => .ok (cutProbe limit items)

/-- `start_ts, first_seen, trace_id` -/
def TraceSummary.listKey (t : TraceSummary) : Time ×ₗ Time ×ₗ String :=
  toLex (t.startTime, toLex (t.firstSeen.getD Time.zero, t.traceID))

/-! ### Logs -/

/-- A log joined with its resource. -/
structure LogDetail where
  id : UUID
  ts : Time
  observedTS : Time
  traceID : String
  spanID : String
  severityNumber : Int
  severityText : String
  body : String
  attributes : Attributes
  serviceName : String
  resource : Attributes

def StoredLog.detail (l : StoredLog) (r : ResourceRow) : LogDetail where
  id := l.row.id
  ts := l.row.ts
  observedTS := l.row.observedTS
  traceID := l.row.traceID
  spanID := l.row.spanID
  severityNumber := l.row.severityNumber
  severityText := l.row.severityText
  body := l.row.body
  attributes := l.row.attributes
  serviceName := r.serviceName
  resource := r.attributes

structure LogCursor where
  ts : Time
  id : UUID

def logCursorArgs : Option LogCursor → Bool × Time × UUID
  | none => (true, 0, 0)
  | some after => (false, after.ts, after.id)

/-- The cursor predicate of the two log queries. -/
def logCursorAdmits (after : Option LogCursor) (l : LogDetail) : Bool :=
  let (firstPage, cursorTS, cursorID) := logCursorArgs after
  firstPage || decide (l.ts < cursorTS) ||
    decide (l.ts = cursorTS) && decide (l.id < cursorID)

/-- `ts, id` -/
def LogDetail.listKey (l : LogDetail) : Time ×ₗ UUID :=
  toLex (l.ts, l.id)

/-- The logs, joined with their resources, that a condition on the log and the
search accept. -/
def Db.matchingLogs (db : Db V)
    (logMatches : String → StoredLog → ResourceRow → Bool)
    (filter : LogRow → Bool) (search : String) : List LogDetail :=
  db.logs.filterMap fun l =>
    (db.resources.find? l.row.resourceHash).bind fun r =>
      if filter l.row && logMatches search l r then some (l.detail r) else none

/-- What the two log queries share. -/
def pageOfLogs (matching : List LogDetail) (after : Option LogCursor) (limit : Int) :
    List LogDetail × Bool :=
  cutProbe limit
    ((orderDesc LogDetail.listKey (matching.filter (logCursorAdmits after))).take
      (queryLimit limit))

/-- `l.ts >= ? AND l.ts < ?` -/
def logInWindow (fromTs toTs : Time) (l : LogRow) : Bool :=
  decide (fromTs ≤ l.ts) && decide (l.ts < toTs)

/-- `l.trace_id = ?` -/
def logOfTrace (traceID : String) (l : LogRow) : Bool :=
  decide (l.traceID = traceID)

def Db.logsPage (db : Db V)
    (logMatches : String → StoredLog → ResourceRow → Bool)
    (fromTs toTs : Time) (after : Option LogCursor) (limit : Int) (search : String) :
    List LogDetail × Bool :=
  pageOfLogs (db.matchingLogs logMatches (logInWindow fromTs toTs) search) after limit

def Db.logsPageByTraceID (db : Db V)
    (logMatches : String → StoredLog → ResourceRow → Bool)
    (traceID : String) (after : Option LogCursor) (limit : Int) (search : String) :
    List LogDetail × Bool :=
  pageOfLogs (db.matchingLogs logMatches (logOfTrace traceID) search) after limit

/-! ### Metrics -/

/-- One group of series with a common service and metric name. -/
structure MetricSummary (V : Type) where
  serviceName : String
  metricName : String
  type : String
  unit : String
  description : String
  lastSeen : Time
  seriesKeys : List UInt64
  resource : Attributes
  pointCount : Nat
  latestValue : Option V

structure MetricCursor where
  lastSeen : Time
  serviceName : String
  metricName : String

def metricCursorArgs : Option MetricCursor → Bool × Time × String × String
  | none => (true, 0, "", "")
  | some after => (false, after.lastSeen, after.serviceName, after.metricName)

/-- The cursor predicate in the `HAVING` clause of `metricsPageQuery`. -/
def metricCursorAdmits (after : Option MetricCursor) (m : MetricSummary V) : Bool :=
  let (firstPage, cursorSeen, cursorService, cursorName) := metricCursorArgs after
  firstPage || decide (m.lastSeen < cursorSeen) ||
    decide (m.lastSeen = cursorSeen) && decide (m.serviceName < cursorService) ||
    decide (m.lastSeen = cursorSeen) && decide (m.serviceName = cursorService) &&
      decide (m.metricName < cursorName)

/-- `last_seen, service_name, metric_name` -/
def MetricSummary.listKey (m : MetricSummary V) : Time ×ₗ String ×ₗ String :=
  toLex (m.lastSeen, toLex (m.serviceName, m.metricName))

/-- A series of the window with its resource, and whether the search accepts it. -/
structure FilteredSeries where
  series : StoredSeries
  resource : ResourceRow
  isMatch : Bool

/-- `service_name, metric_name` -/
def FilteredSeries.group (f : FilteredSeries) : String × String :=
  (f.series.row.serviceName, f.series.row.metricName)

/-- The first table of `metricsPageQuery`: the series whose lifetime meets the
window. -/
def Db.filteredSeries (db : Db V)
    (seriesMatches : String → StoredSeries → ResourceRow → Bool)
    (fromTs toTs : Time) (search : String) : List FilteredSeries :=
  db.metricSeries.rows.filterMap fun s =>
    (db.resources.find? s.row.resourceHash).bind fun r =>
      if decide (s.firstSeen < toTs) && decide (fromTs ≤ s.lastSeen) then
        some ⟨s, r, seriesMatches search s r⟩
      else none

/-- The row `arg_max(_, last_seen)` reads, for a group with the row `x`. -/
def latestSeries (x : FilteredSeries) (rows : List FilteredSeries) : FilteredSeries :=
  rows.foldl
    (fun best y => if best.series.lastSeen < y.series.lastSeen then y else best) x

/-- One row of `metricsPageQuery`; the last two fields are filled in later. -/
def groupSummary (x : FilteredSeries) (rows : List FilteredSeries) : MetricSummary V :=
  let latest := latestSeries x rows
  { serviceName := x.series.row.serviceName
    metricName := x.series.row.metricName
    type := latest.series.row.metricType
    unit := latest.series.row.unit
    description := latest.series.row.description
    lastSeen := rows.foldl (fun t y => max t y.series.lastSeen) x.series.lastSeen
    seriesKeys := rows.map fun y => y.series.row.seriesKey
    resource := latest.resource.attributes
    pointCount := 0
    latestValue := none }

/-- The groups of `filtered` that have a match. -/
def matchingGroups (filtered : List FilteredSeries) : List (MetricSummary V) :=
  (distinctBy FilteredSeries.group [] filtered).filterMap fun x =>
    let rows := filtered.filter fun y => y.group = x.group
    if rows.any FilteredSeries.isMatch then some (groupSummary x rows) else none

/-- `stats` holds what the two queries over the points of a page's groups return:
the number of points and the latest value of a group. -/
def MetricSummary.withStats (stats : String → String → Nat × Option V)
    (m : MetricSummary V) : MetricSummary V :=
  { m with
    pointCount := (stats m.serviceName m.metricName).1
    latestValue := (stats m.serviceName m.metricName).2 }

def populateMetricSummaryStats (stats : String → String → Nat × Option V)
    (items : List (MetricSummary V)) : List (MetricSummary V) :=
  items.map (MetricSummary.withStats stats)

def Db.metricsPageSearch (db : Db V)
    (seriesMatches : String → StoredSeries → ResourceRow → Bool)
    (stats : String → String → Nat × Option V)
    (fromTs toTs : Time) (after : Option MetricCursor) (limit : Int) (search : String) :
    List (MetricSummary V) × Bool :=
  let groups := matchingGroups (db.filteredSeries seriesMatches fromTs toTs search)
  let (items, hasNextPage) :=
    cutProbe limit
      ((orderDesc MetricSummary.listKey (groups.filter (metricCursorAdmits after))).take
        (queryLimit limit))
  (populateMetricSummaryStats stats items, hasNextPage)

/-! ### What a cursor admits -/

@[simp] theorem traceCursorAdmits_none :
    traceCursorAdmits none = fun _ => true := rfl

theorem traceCursorAdmits_some (c : TraceCursor) (t : TraceSummaryRow) :
    traceCursorAdmits (some c) t =
      (decide (t.startTime < c.startTime) ||
        decide (t.startTime = c.startTime) && decide (t.firstSeen < c.firstSeen) ||
        decide (t.startTime = c.startTime) && decide (t.firstSeen = c.firstSeen) &&
          decide (t.traceID < c.traceID)) := rfl

/-- The cursor of a trace admits what comes behind it. -/
theorem traceCursor_admits (x : TraceSummaryRow) :
    traceCursorAdmits (some ⟨x.startTime, x.firstSeen, x.traceID⟩) =
      fun t => decide (t.listKey < x.listKey) := by
  funext t
  rw [Bool.eq_iff_iff]
  simp only [traceCursorAdmits_some, TraceSummaryRow.listKey, Prod.Lex.toLex_lt_toLex,
    Bool.or_eq_true, Bool.and_eq_true, decide_eq_true_eq]
  tauto

@[simp] theorem logCursorAdmits_none :
    logCursorAdmits none = fun _ => true := rfl

theorem logCursorAdmits_some (c : LogCursor) (l : LogDetail) :
    logCursorAdmits (some c) l =
      (decide (l.ts < c.ts) || decide (l.ts = c.ts) && decide (l.id < c.id)) := rfl

/-- The cursor of a record admits what comes behind it. -/
theorem logCursor_admits (x : LogDetail) :
    logCursorAdmits (some ⟨x.ts, x.id⟩) = fun l => decide (l.listKey < x.listKey) := by
  funext l
  rw [Bool.eq_iff_iff]
  simp only [logCursorAdmits_some, LogDetail.listKey, Prod.Lex.toLex_lt_toLex,
    Bool.or_eq_true, Bool.and_eq_true, decide_eq_true_eq]

@[simp] theorem metricCursorAdmits_none :
    metricCursorAdmits none = fun _ : MetricSummary V => true := rfl

theorem metricCursorAdmits_some (c : MetricCursor) (m : MetricSummary V) :
    metricCursorAdmits (some c) m =
      (decide (m.lastSeen < c.lastSeen) ||
        decide (m.lastSeen = c.lastSeen) && decide (m.serviceName < c.serviceName) ||
        decide (m.lastSeen = c.lastSeen) && decide (m.serviceName = c.serviceName) &&
          decide (m.metricName < c.metricName)) := rfl

/-- The cursor of a metric admits what comes behind it. -/
theorem metricCursor_admits (x : MetricSummary V) :
    metricCursorAdmits (some ⟨x.lastSeen, x.serviceName, x.metricName⟩) =
      fun m : MetricSummary V => decide (m.listKey < x.listKey) := by
  funext m
  rw [Bool.eq_iff_iff]
  simp only [metricCursorAdmits_some, MetricSummary.listKey, Prod.Lex.toLex_lt_toLex,
    Bool.or_eq_true, Bool.and_eq_true, decide_eq_true_eq]
  tauto

/-! ### The keys of the lists -/

/-- No two traces of a list have one key. -/
theorem Db.matchingTraces_keys_nodup (db : Db V)
    (spanMatches : String → StoredSpan → ResourceRow → Bool)
    (fromTs toTs : Time) (search : String) :
    ((db.matchingTraces spanMatches fromTs toTs search).map
      TraceSummaryRow.listKey).Nodup := by
  refine nodup_keys_of (fun k => (ofLex (ofLex k).2).2) (fun _ => rfl) ?_
  exact (List.filter_sublist.map TraceSummaryRow.traceID).nodup db.traceSummaries.keys_nodup

/-- Projections of the elements that passed keep their order. -/
theorem filterMap_map_sublist
    {α β δ : Type} {f : α → Option β} {g : β → δ} {k : α → δ}
    (hf : ∀ x y, f x = some y → g y = k x) :
    ∀ l : List α, ((l.filterMap f).map g).Sublist (l.map k)
  | [] => List.Sublist.slnil
  | x :: l => by
      cases hx : f x with
      | none =>
          rw [List.filterMap_cons_none hx]
          exact (filterMap_map_sublist hf l).cons (k x)
      | some y =>
          rw [List.filterMap_cons_some hx, List.map_cons, List.map_cons, hf x y hx]
          exact (filterMap_map_sublist hf l).cons_cons (k x)

/-- No two records of a list have one key. -/
theorem Db.matchingLogs_keys_nodup
    {db : Db V} (hids : (db.logs.map fun l => l.row.id).Nodup)
    (logMatches : String → StoredLog → ResourceRow → Bool)
    (filter : LogRow → Bool) (search : String) :
    ((db.matchingLogs logMatches filter search).map LogDetail.listKey).Nodup := by
  refine nodup_keys_of (fun k => (ofLex k).2) (fun _ => rfl) ?_
  refine List.Sublist.nodup (filterMap_map_sublist ?_ db.logs) hids
  intro l d hd
  obtain ⟨r, -, hd⟩ := Option.bind_eq_some_iff.mp hd
  split at hd
  · cases hd
    rfl
  · cases hd

/-- No two metrics of a list have one key. -/
theorem matchingGroups_keys_nodup (filtered : List FilteredSeries) :
    ((matchingGroups filtered : List (MetricSummary V)).map
      MetricSummary.listKey).Nodup := by
  have hgroups : ((matchingGroups filtered : List (MetricSummary V)).map
      fun m => (m.serviceName, m.metricName)).Nodup := by
    refine List.Sublist.nodup (filterMap_map_sublist (k := FilteredSeries.group) ?_ _)
      (distinctBy_keys_nodup filtered [])
    intro x m hm
    dsimp only at hm
    split at hm
    · cases hm
      rfl
    · cases hm
  exact nodup_keys_of (fun k => ofLex (ofLex k).2) (fun _ => rfl) hgroups

/-- A listed record has the time of a stored one. -/
theorem Db.ts_of_mem_matchingLogs
    {db : Db V} {logMatches : String → StoredLog → ResourceRow → Bool}
    {filter : LogRow → Bool} {search : String} {d : LogDetail}
    (h : d ∈ db.matchingLogs logMatches filter search) :
    ∃ l ∈ db.logs, l.row.ts = d.ts := by
  obtain ⟨l, hl, hd⟩ := List.mem_filterMap.mp h
  obtain ⟨r, -, hd⟩ := Option.bind_eq_some_iff.mp hd
  split at hd
  · cases hd
    exact ⟨l, hl, rfl⟩
  · cases hd

/-- The time a group was last seen is the time one of its series was. -/
theorem foldl_max_lastSeen
    {P : Time → Prop} :
    ∀ (rows : List FilteredSeries) {t : Time}, P t →
      (∀ y ∈ rows, P y.series.lastSeen) →
      P (rows.foldl (fun t y => max t y.series.lastSeen) t)
  | [], _, ht, _ => ht
  | y :: rows, t, ht, h => by
      have hnext : P (max t y.series.lastSeen) := by
        rcases max_choice t y.series.lastSeen with hmax | hmax
        · rw [hmax]
          exact ht
        · rw [hmax]
          exact h y List.mem_cons_self
      exact foldl_max_lastSeen rows hnext fun z hz => h z (List.mem_cons_of_mem y hz)

theorem Db.lastSeen_of_mem_matchingGroups
    {db : Db V} {seriesMatches : String → StoredSeries → ResourceRow → Bool}
    {fromTs toTs : Time} {search : String} {P : Time → Prop}
    (hP : ∀ s ∈ db.metricSeries.rows, P s.lastSeen)
    {m : MetricSummary V}
    (h : m ∈ matchingGroups (db.filteredSeries seriesMatches fromTs toTs search)) :
    P m.lastSeen := by
  have hfiltered : ∀ y ∈ db.filteredSeries seriesMatches fromTs toTs search,
      P y.series.lastSeen := by
    intro y hy
    obtain ⟨s, hs, hy⟩ := List.mem_filterMap.mp hy
    obtain ⟨r, -, hy⟩ := Option.bind_eq_some_iff.mp hy
    split at hy
    · cases hy
      exact hP s hs
    · cases hy
  obtain ⟨x, hx, hm⟩ := List.mem_filterMap.mp h
  have hx := (distinctBy_sublist _ _).subset hx
  dsimp only at hm
  split at hm
  · cases hm
    exact foldl_max_lastSeen _ (hfiltered x hx) fun y hy =>
      hfiltered y (List.mem_filter.mp hy).1
  · cases hm

/-! ### What a page holds -/

/-- The first `limit` elements of a list, and whether there are more. -/
def firstPage {α : Type} (limit : Int) (l : List α) : List α × Bool :=
  (l.take limit.toNat, decide (limit.toNat < l.length))

theorem mapM_eq_some_map
    {α β : Type} {f : α → Option β} {g : α → β} :
    ∀ {l : List α}, (∀ x ∈ l, f x = some (g x)) → l.mapM f = some (l.map g)
  | [], _ => rfl
  | x :: l, h => by
      rw [List.mapM_cons, h x List.mem_cons_self,
        mapM_eq_some_map fun y hy => h y (List.mem_cons_of_mem x hy)]
      rfl

/-- A summary whose earliest span has its resource scans without error. -/
theorem Db.scanPageSummary_isSome
    {db : Db V} {t : TraceSummaryRow} (h : db.hasResource t.earliestResourceHash) :
    ∃ item, db.scanPageSummary t = some item := by
  obtain ⟨r, hr, hhash⟩ := h
  have hearliest : db.serviceName t.earliestResourceHash = some r.serviceName := by
    rw [Db.serviceName, (KeyedTable.find?_eq_some_iff _).mpr ⟨hr, hhash⟩]
    rfl
  unfold Db.scanPageSummary Db.scanTraceSummary
  rw [hearliest]
  cases t.root.bind fun x => db.serviceName x.resourceHash with
  | none => exact ⟨_, rfl⟩
  | some name => exact ⟨_, rfl⟩

/-- A scanned summary keeps what its cursor is made of. -/
theorem Db.scanPageSummary_key
    {db : Db V} {t : TraceSummaryRow} {item : TraceSummary}
    (h : db.scanPageSummary t = some item) :
    item.startTime = t.startTime ∧ item.firstSeen = some t.firstSeen ∧
      item.traceID = t.traceID := by
  obtain ⟨_, hscan, rfl⟩ := Option.map_eq_some_iff.mp h
  unfold Db.scanTraceSummary at hscan
  obtain ⟨_, -, hscan⟩ := Option.bind_eq_some_iff.mp hscan
  cases hscan
  exact ⟨rfl, rfl, rfl⟩

/-- A page of traces is the first part of what is behind its cursor. -/
theorem Db.tracesPage_eq
    {db : Db V} {item : TraceSummaryRow → TraceSummary}
    (hitem : ∀ t ∈ db.traceSummaries.rows, db.scanPageSummary t = some (item t))
    (spanMatches : String → StoredSpan → ResourceRow → Bool)
    (fromTs toTs : Time) (after : Option TraceCursor)
    {limit : Int} (hlimit : 0 < limit) (search : String) :
    db.tracesPage spanMatches fromTs toTs after limit search =
      .ok (firstPage limit
        ((orderDesc TraceSummaryRow.listKey
          ((db.matchingTraces spanMatches fromTs toTs search).filter
            (traceCursorAdmits after))).map item)) := by
  have hnd : (((db.matchingTraces spanMatches fromTs toTs search).filter
      (traceCursorAdmits after)).map TraceSummaryRow.listKey).Nodup :=
    (List.filter_sublist.map _).nodup
      (db.matchingTraces_keys_nodup spanMatches fromTs toTs search)
  unfold Db.tracesPage
  dsimp only
  rw [orderDesc_take hnd, mapM_eq_some_map (g := item)]
  · rw [List.map_take]
    exact congrArg Except.ok (cutProbe_take hlimit _)
  · intro t ht
    have ht := List.mem_filter.mp (mem_orderDesc.mp (List.mem_of_mem_take ht))
    exact hitem t (List.mem_filter.mp ht.1).1

/-- A page of records is the first part of what is behind its cursor. -/
theorem pageOfLogs_eq
    (matching : List LogDetail) (after : Option LogCursor)
    {limit : Int} (hlimit : 0 < limit) :
    pageOfLogs matching after limit =
      firstPage limit (orderDesc LogDetail.listKey (matching.filter (logCursorAdmits after))) :=
  cutProbe_take hlimit _

/-- A page of metrics is the first part of what is behind its cursor. -/
theorem Db.metricsPage_eq
    (db : Db V)
    (seriesMatches : String → StoredSeries → ResourceRow → Bool)
    (stats : String → String → Nat × Option V)
    (fromTs toTs : Time) (after : Option MetricCursor)
    {limit : Int} (hlimit : 0 < limit) (search : String) :
    db.metricsPageSearch seriesMatches stats fromTs toTs after limit search =
      firstPage limit
        (populateMetricSummaryStats stats
          (orderDesc MetricSummary.listKey
            ((matchingGroups (db.filteredSeries seriesMatches fromTs toTs search)).filter
              (metricCursorAdmits after)))) := by
  unfold Db.metricsPageSearch
  dsimp only
  rw [cutProbe_take hlimit]
  simp [firstPage, populateMetricSummaryStats, List.map_take]

/-! ### Stores that runs lead to -/

/-- The row counts the spans, and the resource it falls back on is one of theirs. -/
def EarliestStored (spans : List StoredSpan) (row : TraceSummaryRow) : Prop :=
  Counts spans row ∧ ∃ s ∈ spans, s.resourceHash = row.earliestResourceHash

theorem summarySpec_earliestStored (sub : Time → Time → Int) :
    SummarySpec sub EarliestStored where
  first := fun r t => ⟨(summarySpec_counts sub).first r t, r.stored t, by simp, rfl⟩
  more := by
    rintro spans state r t ⟨hcounts, s, hs, hhash⟩ hsome
    refine ⟨(summarySpec_counts sub).more r t hcounts hsome, ?_⟩
    have hearliest : (state.mergeSpan r t).earliest = some (r.spanID, r.resourceHash) ∨
        (state.mergeSpan r t).earliest = state.earliest :=
      ite_eq_or_eq _ _ _
    rcases hearliest with hnew | hold
    · exact ⟨r.stored t, by simp, by simp [TraceSummaryState.row, hnew, SpanRow.stored]⟩
    · exact ⟨s, by simp [hs], by simpa [TraceSummaryState.row, hold] using hhash⟩
  group := by
    intro id rows row h
    refine ⟨(summarySpec_counts sub).group h, ?_⟩
    obtain ⟨_, _, _, first, -, -, -, hfirst, rfl⟩ := aggregateGroup_eq_some_iff.mp h
    exact ⟨first, (firstBy_isFirst earliestBefore_strictOrder hfirst).1, rfl⟩
  spanCount := fun h => h.1.1
  ne_nil := fun h => h.1.2

/-- After every run of batches that contain their resources, each summary has
the resource its service name falls back on. -/
theorem Reachable.earliestResources
    {sub : Time → Time → Int} {s : Store V} (hs : Reachable sub Op.Closed s) :
    ∀ t ∈ s.db.traceSummaries.rows, s.db.hasResource t.earliestResourceHash := by
  intro t ht
  obtain ⟨-, href, -⟩ := hs.invariant refInvariant
  have htraces := ((hs.mono fun _ _ => trivial).traceInv (summarySpec_earliestStored sub)).2
  obtain ⟨-, sp, hsp, hhash⟩ := htraces.summary t ht
  rw [← hhash]
  exact href.spans sp (List.mem_filter.mp hsp).1

end Storage
end Otelop
