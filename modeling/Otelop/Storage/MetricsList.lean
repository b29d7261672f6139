import Mathlib.Tactic
import Otelop.Storage.Pages
import Otelop.Storage.SearchSQL

/-!
# The metrics list

`metricSearchSQL` of `internal/storage/metric_search.go`, and what a client reads
that follows the cursors of `MetricsPage`.

The list looks at the lifetimes of the series: a series is in a window when it
was first seen before the window's end and last seen at its start or later.  The
lifetime holds readings of the clock at ingest, and the times of the points do not
enter into it.

**Results.**
* `mem_matchingGroups_iff`: the groups of a window are those with a series whose
  lifetime meets it.
* `metricsPages_lifetimes`: paging through a window lists exactly these groups.
* `metricsPages_backfilled`: a point of the window may belong to none of them.
-/

namespace Otelop
namespace Storage

open Lib

variable {V : Type}

/-! ### The search condition -/

/-- The keys of `metricFieldColumns`. -/
def metricFields : List GoString :=
  ["name".toList, "service_name".toList, "type".toList, "unit".toList,
    "description".toList]

/-- `metricFieldColumns`, on a row of `metric_series`. -/
def metricFieldColumns (s : MetricSeriesRow) (field : GoString) : Option SqlValue :=
  if field = "name".toList then some (.text s.metricName.toList)
  else if field = "service_name".toList then some (.text s.serviceName.toList)
  else if field = "type".toList then some (.text s.metricType.toList)
  else if field = "unit".toList then some (.text s.unit.toList)
  else if field = "description".toList then some (.text s.description.toList)
  else none

/-- The clause `metricSearchSQL` adds for a term. -/
def metricTermClause (lib : SearchLibraries) (s : MetricSeriesRow) (r : ResourceRow)
    (term : LogSearchTerm) : Sql.Truth :=
  negatable term
    (signalAttributeSQL lib term s.attributes r.attributes (metricFieldColumns s) [])

def metricSearchSQL (lib : SearchLibraries) (search : GoString) (s : MetricSeriesRow)
    (r : ResourceRow) : Sql.Truth :=
  let (plain, terms) := parseSignalSearch search metricFields
  Sql.all (ilike lib (some s.metricName.toList) (likePattern plain))
    (terms.map (metricTermClause lib s r))

/-- The column `matches` of the page query. -/
def metricSeriesMatches (lib : SearchLibraries) (search : String) (s : StoredSeries)
    (r : ResourceRow) : Bool :=
  Sql.holds (metricSearchSQL lib search.toList s.row r)

/-- The empty search accepts every series. -/
theorem metricSeriesMatches_empty
    (lib : SearchLibraries) (s : StoredSeries) (r : ResourceRow) :
    metricSeriesMatches lib "" s r = true := by
  have hparse : parseSignalSearch ("" : String).toList metricFields = ([], []) := by
    decide
  have hlike : Sql.holds
      (ilike lib (some s.row.metricName.toList) (likePattern [])) = true :=
    (holds_ilike_likePattern lib [] s.row.metricName.toList).mpr List.nil_infix
  unfold metricSeriesMatches metricSearchSQL
  rw [hparse]
  exact hlike

/-! ### The groups of a window -/

theorem mem_filteredSeries_iff
    {db : Db V} {seriesMatches : String → StoredSeries → ResourceRow → Bool}
    {fromTs toTs : Time} {search : String} {f : FilteredSeries} :
    f ∈ db.filteredSeries seriesMatches fromTs toTs search ↔
      f.series ∈ db.metricSeries.rows ∧
        db.resources.find? f.series.row.resourceHash = some f.resource ∧
        f.series.firstSeen < toTs ∧ fromTs ≤ f.series.lastSeen ∧
        f.isMatch = seriesMatches search f.series f.resource := by
  unfold Db.filteredSeries
  rw [List.mem_filterMap]
  constructor
  · rintro ⟨s, hs, hf⟩
    obtain ⟨r, hr, hf⟩ := Option.bind_eq_some_iff.mp hf
    split at hf
    · rename_i hlifetime
      rw [Bool.and_eq_true, decide_eq_true_eq, decide_eq_true_eq] at hlifetime
      cases hf
      exact ⟨hs, hr, hlifetime.1, hlifetime.2, rfl⟩
    · cases hf
  · rintro ⟨hs, hr, hfirst, hlast, hmatch⟩
    refine ⟨f.series, hs, Option.bind_eq_some_iff.mpr ⟨f.resource, hr, ?_⟩⟩
    rw [if_pos (by simp [hfirst, hlast]), ← hmatch]

/-- A group is listed when one of its series was accepted. -/
theorem mem_matchingGroups_iff
    {filtered : List FilteredSeries} {service name : String} :
    (∃ m ∈ (matchingGroups filtered : List (MetricSummary V)),
        m.serviceName = service ∧ m.metricName = name) ↔
      ∃ f ∈ filtered, f.isMatch = true ∧ f.group = (service, name) := by
  unfold matchingGroups
  constructor
  · rintro ⟨m, hm, rfl, rfl⟩
    obtain ⟨x, -, hm⟩ := List.mem_filterMap.mp hm
    dsimp only at hm
    split at hm
    · rename_i hany
      obtain ⟨f, hf, hmatch⟩ := List.any_eq_true.mp hany
      obtain ⟨hf, hgroup⟩ := List.mem_filter.mp hf
      cases hm
      exact ⟨f, hf, hmatch, of_decide_eq_true hgroup⟩
    · cases hm
  · rintro ⟨f, hf, hmatch, hgroup⟩
    obtain ⟨x, hx, hxf⟩ := @exists_mem_distinctBy _ _ _ FilteredSeries.group f _ _ hf
      (List.not_mem_nil (a := f.group))
    have hany : (filtered.filter fun y => y.group = x.group).any
        FilteredSeries.isMatch = true := by
      refine List.any_eq_true.mpr ⟨f, List.mem_filter.mpr ⟨hf, ?_⟩, hmatch⟩
      exact decide_eq_true hxf.symm
    refine ⟨groupSummary x (filtered.filter fun y => y.group = x.group), ?_, ?_, ?_⟩
    · refine List.mem_filterMap.mpr ⟨x, hx, ?_⟩
      dsimp only
      rw [if_pos hany]
    · exact congrArg Prod.fst (hxf.trans hgroup)
    · exact congrArg Prod.snd (hxf.trans hgroup)

/-! ### Paging through a window -/

/-- `MetricsPage`, with the cursor of the last item of the page. -/
def Db.metricsPage (db : Db V) (lib : SearchLibraries)
    (stats : String → String → Nat × Option V)
    (fromTs toTs : Time) (limit : Int) (after : Option MetricCursor) :
    Except String (Page (MetricSummary V) MetricCursor) :=
  let (items, hasNextPage) :=
    db.metricsPageSearch (metricSeriesMatches lib) stats fromTs toTs after limit ""
  .ok ⟨items, hasNextPage,
    items.getLast?.map fun m => ⟨m.lastSeen, m.serviceName, m.metricName⟩⟩

/-- The groups a client finds that follows the cursors. -/
def listsGroup (pages : List (Page (MetricSummary V) MetricCursor))
    (service name : String) : Prop :=
  ∃ m ∈ pages.flatMap Page.items, m.serviceName = service ∧ m.metricName = name

/-- The series of the group was first seen before the end of the window and last
seen at its start or later. -/
def Db.groupLives (db : Db V) (fromTs toTs : Time) (service name : String) : Prop :=
  ∃ x ∈ db.metricSeries.rows, x.row.serviceName = service ∧ x.row.metricName = name ∧
    x.firstSeen < toTs ∧ fromTs ≤ x.lastSeen

section Paging

variable {db : Db V} {lib : SearchLibraries}
variable {stats : String → String → Nat × Option V}
variable {fromTs toTs : Time} {limit : Int}

/-- The groups of the window, as the query finds them. -/
def Db.windowGroups (db : Db V) (lib : SearchLibraries) (fromTs toTs : Time) :
    List (MetricSummary V) :=
  matchingGroups (db.filteredSeries (metricSeriesMatches lib) fromTs toTs "")

theorem Db.metricsPage_eq_page
    (hlimit : 0 < limit) (after : Option MetricCursor) :
    db.metricsPage lib stats fromTs toTs limit after =
      .ok (Page.of (fun m => ⟨m.lastSeen, m.serviceName, m.metricName⟩) limit.toNat
        ((orderDesc MetricSummary.listKey
          ((db.windowGroups lib fromTs toTs).filter (metricCursorAdmits after))).map
            (MetricSummary.withStats stats))) := by
  unfold Db.metricsPage
  rw [Db.metricsPage_eq db (metricSeriesMatches lib) stats fromTs toTs after hlimit ""]
  rfl

theorem Db.metricsPage_serves (hlimit : 0 < limit) :
    Serves (db.metricsPage lib stats fromTs toTs limit)
      (fun m => ⟨m.lastSeen, m.serviceName, m.metricName⟩) limit.toNat
      ((orderDesc MetricSummary.listKey (db.windowGroups lib fromTs toTs)).map
        (MetricSummary.withStats stats)) := by
  refine Serves.of_below (matchingGroups_keys_nodup _) ?_ ?_
  · rw [Db.metricsPage_eq_page hlimit, metricCursorAdmits_none, List.filter_true]
  · intro x _
    rw [Db.metricsPage_eq_page hlimit]
    exact congrArg
      (fun admits => Except.ok (Page.of _ limit.toNat
        ((orderDesc MetricSummary.listKey
          ((db.windowGroups lib fromTs toTs).filter admits)).map
            (MetricSummary.withStats stats))))
      (metricCursor_admits x)

/-- The groups of the window are those with a series that lives in it. -/
theorem Db.mem_windowGroups_iff
    (hresources : ∀ x ∈ db.metricSeries.rows, db.hasResource x.row.resourceHash)
    (lib : SearchLibraries) (fromTs toTs : Time) {service name : String} :
    (∃ m ∈ db.windowGroups lib fromTs toTs,
        m.serviceName = service ∧ m.metricName = name) ↔
      db.groupLives fromTs toTs service name := by
  unfold Db.windowGroups
  rw [mem_matchingGroups_iff]
  constructor
  · rintro ⟨f, hf, -, hgroup⟩
    obtain ⟨hs, -, hfirst, hlast, -⟩ := mem_filteredSeries_iff.mp hf
    exact ⟨f.series, hs, congrArg Prod.fst hgroup, congrArg Prod.snd hgroup, hfirst, hlast⟩
  · rintro ⟨x, hx, rfl, rfl, hfirst, hlast⟩
    obtain ⟨r, hr, hhash⟩ := hresources x hx
    have hfind : db.resources.find? x.row.resourceHash = some r :=
      (KeyedTable.find?_eq_some_iff _).mpr ⟨hr, hhash⟩
    refine ⟨⟨x, r, true⟩, mem_filteredSeries_iff.mpr ⟨hx, hfind, hfirst, hlast, ?_⟩, rfl, rfl⟩
    exact (metricSeriesMatches_empty lib x r).symm

end Paging

/-- In every store that a run leads to, following the cursors of the metrics list
terminates and finds exactly the groups with a series that lives in the window.
So a point of the window is found when its series lives there. -/
theorem metricsPages_lifetimes
    {sub : Time → Time → Int} {s : Store V} (hs : Reachable sub Op.Closed s)
    (lib : SearchLibraries) (stats : String → String → Nat × Option V)
    (fromTs toTs : Time) {limit : Int} (hlimit : 0 < limit) :
    ∃ pages,
      followPages (s.db.metricsPage lib stats fromTs toTs limit)
        ((s.db.windowGroups lib fromTs toTs).length + 1) none = some pages ∧
      (∀ service name,
        listsGroup pages service name ↔ s.db.groupLives fromTs toTs service name) ∧
      ∀ p ∈ s.db.metricPoints, fromTs ≤ p.row.ts → p.row.ts < toTs →
        ∃ x ∈ s.db.metricSeries.rows, x.row.seriesKey = p.row.seriesKey ∧
          (x.firstSeen < toTs → fromTs ≤ x.lastSeen →
            listsGroup pages x.row.serviceName x.row.metricName) := by
  obtain ⟨-, href, -⟩ := hs.invariant refInvariant
  have hserves : Serves (s.db.metricsPage lib stats fromTs toTs limit)
      (fun m => ⟨m.lastSeen, m.serviceName, m.metricName⟩) limit.toNat
      ((orderDesc MetricSummary.listKey (s.db.windowGroups lib fromTs toTs)).map
        (MetricSummary.withStats stats)) :=
    Db.metricsPage_serves hlimit
  obtain ⟨pages, hpages, hitems⟩ := followPages_serves hserves (by omega)
  rw [List.length_map, length_orderDesc] at hpages
  have hgroups : ∀ service name,
      listsGroup pages service name ↔ s.db.groupLives fromTs toTs service name := by
    intro service name
    rw [← Db.mem_windowGroups_iff href.series lib fromTs toTs, listsGroup, hitems]
    simp only [List.mem_map, mem_orderDesc]
    constructor
    · rintro ⟨_, ⟨m, hm, rfl⟩, hservice, hname⟩
      exact ⟨m, hm, hservice, hname⟩
    · rintro ⟨m, hm, hservice, hname⟩
      exact ⟨_, ⟨m, hm, rfl⟩, hservice, hname⟩
  refine ⟨pages, hpages, hgroups, ?_⟩
  intro p hp _ _
  obtain ⟨x, hx, hkey⟩ := href.points p hp
  refine ⟨x, hx, hkey, fun hfirst hlast => ?_⟩
  exact (hgroups _ _).mpr ⟨x, hx, rfl, rfl, hfirst, hlast⟩

/-! ### A point from before its ingest -/

/-- Libraries for data without numbers and attributes. -/
def plainLibraries : SearchLibraries where
  fold := id
  parseFloat _ := none
  double := id
  jsonNumberText _ := []
  jsonText _ := []
  eventsText _ := []
  castDouble _ := none
  doubleText _ := []

/-- A gauge with one point of the time 10, received at the time 100. -/
def backfilledBatch : MetricBatch Unit where
  resources := [⟨1, "checkout", .empty⟩]
  series :=
    [{ seriesKey := 7, serviceName := "checkout", metricName := "queue", metricType := "Gauge"
       numberKind := "int", unit := "1", description := "", temporality := ""
       isMonotonic := false, attributes := .empty, scopeName := "", scopeVersion := ""
       scopeSchemaURL := "", scopeDroppedAttributesCount := 0, scopeAttributes := .empty
       resourceHash := 1 }]
  histogramLayouts := []
  points :=
    [{ id := 1, seriesKey := 7, ts := 10, startTS := none, flags := 0, valueInt := some 4
       valueDouble := none, count := none, sum := none, min := none, max := none
       histogramLayoutHash := none, bucketCounts := [], zeroCount := none
       positiveOffset := none, positiveBucketCounts := [], negativeOffset := none
       negativeBucketCounts := [], summaryQuantiles := [], summaryQuantileValues := [] }]
  exemplars := []

def Store.backfilled : Store Unit :=
  (Store.new Unit).after Time.sub (.writeMetrics backfilledBatch 100 101) []

theorem Store.backfilled_reachable : Reachable Time.sub Op.Closed Store.backfilled := by
  refine .step _ _ .new ⟨?_, ?_, ?_, ?_⟩ fun h => by cases h
  · intro x hx
    rw [List.mem_singleton.mp hx]
    exact ⟨_, List.mem_singleton_self _, rfl⟩
  · intro p hp
    rw [List.mem_singleton.mp hp]
    exact ⟨_, List.mem_singleton_self _, rfl⟩
  · intro p hp hash hhash
    rw [List.mem_singleton.mp hp] at hhash
    cases hhash
  · exact fun e he => absurd he List.not_mem_nil

/-- In the window of the time it was received the metric is listed. -/
theorem metricsPages_lifetimes_backfilled :
    ∃ pages,
      followPages
        (Store.backfilled.db.metricsPage plainLibraries (fun _ _ => (1, none)) 90 120 1)
        ((Store.backfilled.db.windowGroups plainLibraries 90 120).length + 1) none =
          some pages ∧
      ∀ service name, listsGroup pages service name ↔
        Store.backfilled.db.groupLives 90 120 service name := by
  obtain ⟨pages, hpages, hgroups, -⟩ := metricsPages_lifetimes Store.backfilled_reachable
    plainLibraries (fun _ _ => (1, none)) 90 120 Int.one_pos
  exact ⟨pages, hpages, hgroups⟩

/-- The first page of the window `[0, 50)` is empty and the last one. -/
theorem Store.backfilled_firstPage :
    Store.backfilled.db.metricsPage plainLibraries (fun _ _ => (1, none)) 0 50 1 none =
      .ok ⟨[], false, none⟩ := by
  rfl

/-- In the window of its own time it is not: no pages of the window `[0, 50)` list
the group of every point of that window. -/
theorem metricsPages_backfilled :
    (∃ p ∈ Store.backfilled.db.metricPoints, 0 ≤ p.row.ts ∧ p.row.ts < 50) ∧
      ¬ ∃ pages fuel,
        followPages
            (Store.backfilled.db.metricsPage plainLibraries (fun _ _ => (1, none)) 0 50 1)
            fuel none = some pages ∧
          ∀ p ∈ Store.backfilled.db.metricPoints, 0 ≤ p.row.ts → p.row.ts < 50 →
            ∃ x ∈ Store.backfilled.db.metricSeries.rows,
              x.row.seriesKey = p.row.seriesKey ∧
                listsGroup pages x.row.serviceName x.row.metricName := by
  have hpoint : ∃ p ∈ Store.backfilled.db.metricPoints, 0 ≤ p.row.ts ∧ p.row.ts < 50 :=
    ⟨_, List.mem_singleton_self _, by decide, by decide⟩
  refine ⟨hpoint, ?_⟩
  rintro ⟨pages, fuel, hpages, hlisted⟩
  cases fuel with
  | zero => cases hpages
  | succ fuel =>
      rw [followPages, Store.backfilled_firstPage] at hpages
      cases hpages
      obtain ⟨p, hp, hfrom, hto⟩ := hpoint
      obtain ⟨x, -, -, m, hm, -⟩ := hlisted p hp hfrom hto
      exact absurd hm List.not_mem_nil

end Storage
end Otelop
