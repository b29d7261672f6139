import Mathlib.Tactic
import Mathlib.Logic.Encodable.Basic
import Mathlib.Logic.Equiv.List
import Otelop.GraphQL.Cursor

/-!
# The traces, logs and metrics lists

The list fields of `internal/graphql/resolver.go`: a decoded cursor, a clamped limit, a page
query and the cursor of the page's last item.

A resolver has the tables at one moment and the libraries that a search and a cursor use.
`Pageable` holds what a page relies on, namely that the ids of the logs are distinct, that
traces have their resources, and that times are in the range of the column type.  A field is a
server of pages in the sense of `Lib/Keyset.lean`:  below the key of an item lies exactly what
follows it, whatever the search and the window are.  The rest is the theorem about clients
there.

**Results.**
* `traces_serves`, `logs_serves`, `metrics_serves`: each field serves its matching items in
  descending order of their keys.
* `pagination_complete`: a client that follows the cursors reads every matching item once.
-/

namespace Otelop
namespace GraphQL

open Lib Storage

variable {V : Type}

/-- The page size of a query that gives none. -/
def graphQLListDefaultLimit : Int := 50

/-- The largest page size. -/
def graphQLListMaxLimit : Int := 1000

/-- A limit within 1 and the largest one; `zeroDefault` for one that is not positive. -/
def clampLimitTo (limit zeroDefault : Int) : Int :=
  if limit ≤ 0 then zeroDefault
  else if graphQLListMaxLimit < limit then graphQLListMaxLimit
  else limit

/-- The limit of the lists with a default page size. -/
def clampLimit (limit : Int) : Int := clampLimitTo limit graphQLListDefaultLimit

/-- The limit of the lists that used to have none. -/
def clampUnboundedLimit (limit : Int) : Int := clampLimitTo limit graphQLListMaxLimit

/-- A limit within the bounds is kept. -/
theorem clampLimitTo_of_mem
    {limit : Int} (hpos : 1 ≤ limit) (hmax : limit ≤ 1000) (zeroDefault : Int) :
    clampLimitTo limit zeroDefault = limit := by
  have hmax' : ¬ graphQLListMaxLimit < limit := by
    unfold graphQLListMaxLimit
    omega
  rw [clampLimitTo, if_neg (by omega), if_neg hmax']

/-- A missing text argument is the empty text. -/
def stringArg (s : Option String) : String := s.getD ""

/-- The arguments of `traces` and `metrics`. -/
structure ListArgs where
  limit : Int
  after : Option String
  fromTime : Option Time
  toTime : Option Time
  search : Option String

/-- The arguments of `logs`. -/
structure LogsArgs extends ListArgs where
  traceID : Option String

/-- A page of a list, as the query returns it. -/
structure Connection (α : Type) where
  items : List α
  hasNextPage : Bool
  limit : Int
  endCursor : Option String

/-- What a client that pages through a list reads of a connection. -/
def Connection.page {α : Type} (c : Connection α) : Page α String :=
  ⟨c.items, c.hasNextPage, c.endCursor⟩

/-- The resolver, over fixed store contents and at a fixed instant, which fixes
the window of a query that gives none.  The last four fields are what the page
queries leave open. -/
structure Resolver (V : Type) where
  storage : Db V
  cursors : CursorLibraries
  fullWindow : Time × Time
  spanMatches : String → StoredSpan → ResourceRow → Bool
  logMatches : String → StoredLog → ResourceRow → Bool
  seriesMatches : String → StoredSeries → ResourceRow → Bool
  stats : Time → Time → String → String → Nat × Option V

namespace Resolver

variable (r : Resolver V)

/-- The window of a query, with the default bounds where it gives none. -/
def resolveWindow (fromTime toTime : Option Time) : Time × Time :=
  (fromTime.getD r.fullWindow.1, toTime.getD r.fullWindow.2)

/-- The query `traces`. -/
def traces (args : ListArgs) : Except String (Connection TraceSummary) := do
  let (fromTs, toTs) := r.resolveWindow args.fromTime args.toTime
  let after ← decodeTraceCursor r.cursors args.after
  let limit := clampLimit args.limit
  let (items, hasNextPage) ←
    r.storage.tracesPage r.spanMatches fromTs toTs after limit (stringArg args.search)
  pure ⟨items, hasNextPage, limit, traceEndCursor r.cursors items⟩

/-- The query `metrics`. -/
def metrics (args : ListArgs) : Except String (Connection (MetricSummary V)) := do
  let (fromTs, toTs) := r.resolveWindow args.fromTime args.toTime
  let after ← decodeMetricCursor r.cursors args.after
  let limit := clampUnboundedLimit args.limit
  let (items, hasNextPage) :=
    r.storage.metricsPageSearch r.seriesMatches (r.stats fromTs toTs) fromTs toTs after limit
      (stringArg args.search)
  pure ⟨items, hasNextPage, limit, metricEndCursor r.cursors items⟩

/-- The query `logs`; with a trace id the window does not count. -/
def logs (args : LogsArgs) : Except String (Connection LogDetail) := do
  let after ← decodeLogCursor r.cursors args.after
  let limit := clampLimit args.limit
  let (items, hasNextPage) :=
    if args.traceID.getD "" ≠ "" then
      r.storage.logsPageByTraceID r.logMatches (args.traceID.getD "") after limit
        (stringArg args.search)
    else
      let (fromTs, toTs) := r.resolveWindow args.fromTime args.toTime
      r.storage.logsPage r.logMatches fromTs toTs after limit (stringArg args.search)
  pure ⟨items, hasNextPage, limit, logEndCursor r.cursors items⟩

/-! ### The full lists -/

/-- The rows of `trace_summaries` the arguments select, whatever the page. -/
def matchingTraceRows (args : ListArgs) : List TraceSummaryRow :=
  let (fromTs, toTs) := r.resolveWindow args.fromTime args.toTime
  r.storage.matchingTraces r.spanMatches fromTs toTs (stringArg args.search)

/-- The traces the arguments select, as a page shows them. -/
def matchingTraces (args : ListArgs) : List TraceSummary :=
  (r.matchingTraceRows args).filterMap r.storage.scanPageSummary

/-- The condition on a log besides the search. -/
def logCondition (args : LogsArgs) : LogRow → Bool :=
  let (fromTs, toTs) := r.resolveWindow args.fromTime args.toTime
  if args.traceID.getD "" ≠ "" then logOfTrace (args.traceID.getD "")
  else logInWindow fromTs toTs

/-- The logs the arguments select. -/
def matchingLogs (args : LogsArgs) : List LogDetail :=
  r.storage.matchingLogs r.logMatches (r.logCondition args) (stringArg args.search)

/-- The groups the arguments select, without their statistics. -/
def matchingMetricGroups (args : ListArgs) : List (MetricSummary V) :=
  let (fromTs, toTs) := r.resolveWindow args.fromTime args.toTime
  matchingGroups (r.storage.filteredSeries r.seriesMatches fromTs toTs (stringArg args.search))

/-- A group with its statistics. -/
def withStats (args : ListArgs) : MetricSummary V → MetricSummary V :=
  let (fromTs, toTs) := r.resolveWindow args.fromTime args.toTime
  MetricSummary.withStats (r.stats fromTs toTs)

/-- The metric groups the arguments select, with their statistics. -/
def matchingMetrics (args : ListArgs) : List (MetricSummary V) :=
  (r.matchingMetricGroups args).map (r.withStats args)

end Resolver

/-- What completeness of the lists asks of the store contents. -/
structure Pageable (db : Db V) : Prop where
  logIDs : (db.logs.map fun l => l.row.id).Nodup
  earliestResources : ∀ t ∈ db.traceSummaries.rows, db.hasResource t.earliestResourceHash
  traceTimes : ∀ t ∈ db.traceSummaries.rows,
    InTimestampRange t.startTime ∧ InTimestampRange t.firstSeen
  logTimes : ∀ l ∈ db.logs, InTimestampRange l.row.ts
  seriesTimes : ∀ s ∈ db.metricSeries.rows, InTimestampRange s.lastSeen

section Serves

variable {r : Resolver V}

/-! ### Traces -/

/-- Every summary row can be shown. -/
theorem Pageable.exists_item
    {db : Db V} (h : Pageable db) :
    ∃ item : TraceSummaryRow → TraceSummary,
      ∀ t ∈ db.traceSummaries.rows, db.scanPageSummary t = some (item t) := by
  have hsome : ∀ t : TraceSummaryRow, ∃ item, t ∈ db.traceSummaries.rows →
      db.scanPageSummary t = some item := by
    intro t
    by_cases ht : t ∈ db.traceSummaries.rows
    · obtain ⟨item, hitem⟩ := Db.scanPageSummary_isSome (h.earliestResources t ht)
      exact ⟨item, fun _ => hitem⟩
    · exact ⟨⟨0, "", 0, none, 0, 0, false, "", none⟩, fun hmem => absurd hmem ht⟩
  choose item hitem using hsome
  exact ⟨item, hitem⟩

/-- The answer to `traces` is a page of what is behind the cursor. -/
theorem traces_page
    {item : TraceSummaryRow → TraceSummary}
    (hdb : ∀ t ∈ r.storage.traceSummaries.rows, r.storage.scanPageSummary t = some (item t))
    (args : ListArgs) (hpos : 1 ≤ args.limit) (hmax : args.limit ≤ 1000)
    {raw : Option String} {after : Option TraceCursor}
    (hafter : decodeTraceCursor r.cursors raw = .ok after) :
    (r.traces { args with after := raw }).map Connection.page =
      .ok (Page.of (traceCursor r.cursors) args.limit.toNat
        ((orderDesc TraceSummaryRow.listKey
          ((r.matchingTraceRows args).filter (traceCursorAdmits after))).map item)) := by
  unfold Resolver.traces clampLimit
  simp only [bind, Except.bind, hafter, clampLimitTo_of_mem hpos hmax,
    Db.tracesPage_eq hdb _ _ _ _ (show 0 < args.limit by omega)]
  rfl

/-- `traces` serves the matching traces. -/
theorem traces_serves
    {item : TraceSummaryRow → TraceSummary}
    (hlib : r.cursors.RoundTrips) (hdb : Pageable r.storage)
    (hitem : ∀ t ∈ r.storage.traceSummaries.rows,
      r.storage.scanPageSummary t = some (item t))
    (args : ListArgs) (hpos : 1 ≤ args.limit) (hmax : args.limit ≤ 1000) :
    Serves (fun after => (r.traces { args with after }).map Connection.page)
      (traceCursor r.cursors) args.limit.toNat
      ((orderDesc TraceSummaryRow.listKey (r.matchingTraceRows args)).map item) := by
  refine Serves.of_below ?_ ?_ ?_
  · exact Db.matchingTraces_keys_nodup _ _ _ _ _
  · have hpage := traces_page hitem args hpos hmax
      (show decodeTraceCursor r.cursors none = .ok none from rfl)
    simpa using hpage
  · intro t ht
    have hmem := (List.mem_filter.mp ht).1
    obtain ⟨hstart, hseen, hid⟩ := Db.scanPageSummary_key (hitem t hmem)
    obtain ⟨hrange, hrange'⟩ := hdb.traceTimes t hmem
    have hcursor := decodeTraceCursor_traceCursor hlib (item t) hseen
      (hstart ▸ hrange) hrange'
    rw [hstart, hid] at hcursor
    have hpage := traces_page hitem args hpos hmax hcursor
    rwa [traceCursor_admits] at hpage

/-! ### Logs -/

/-- The answer to `logs` is a page of what is behind the cursor. -/
theorem logs_page
    (args : LogsArgs) (hpos : 1 ≤ args.limit) (hmax : args.limit ≤ 1000)
    {raw : Option String} {after : Option LogCursor}
    (hafter : decodeLogCursor r.cursors raw = .ok after) :
    (r.logs { args with after := raw }).map Connection.page =
      .ok (Page.of (logCursor r.cursors) args.limit.toNat
        (orderDesc LogDetail.listKey
          ((r.matchingLogs args).filter (logCursorAdmits after)))) := by
  have hlimit : 0 < args.limit := by omega
  unfold Resolver.logs clampLimit Resolver.matchingLogs Resolver.logCondition
  by_cases htrace : args.traceID.getD "" ≠ ""
  · simp only [bind, Except.bind, hafter, clampLimitTo_of_mem hpos hmax, if_pos htrace,
      Db.logsPageByTraceID, pageOfLogs_eq _ _ hlimit]
    rfl
  · simp only [bind, Except.bind, hafter, clampLimitTo_of_mem hpos hmax, if_neg htrace,
      Db.logsPage, pageOfLogs_eq _ _ hlimit]
    rfl

/-- `logs` serves the matching logs. -/
theorem logs_serves
    (hlib : r.cursors.RoundTrips) (hdb : Pageable r.storage)
    (args : LogsArgs) (hpos : 1 ≤ args.limit) (hmax : args.limit ≤ 1000) :
    Serves (fun after => (r.logs { args with after }).map Connection.page)
      (logCursor r.cursors) args.limit.toNat
      (orderDesc LogDetail.listKey (r.matchingLogs args)) := by
  have hserves : Serves (fun after => (r.logs { args with after }).map Connection.page)
      (logCursor r.cursors) args.limit.toNat
      ((orderDesc LogDetail.listKey (r.matchingLogs args)).map id) := by
    refine Serves.of_below (Db.matchingLogs_keys_nodup hdb.logIDs _ _ _) ?_ ?_
    · have hpage := logs_page args hpos hmax
        (show decodeLogCursor r.cursors none = .ok none from rfl)
      simpa using hpage
    · intro l hl
      obtain ⟨x, hx, hts⟩ := Db.ts_of_mem_matchingLogs hl
      have hcursor := decodeLogCursor_logCursor hlib l (hts ▸ hdb.logTimes x hx)
      have hpage := logs_page args hpos hmax hcursor
      rw [logCursor_admits] at hpage
      simpa using hpage
  simpa using hserves

/-! ### Metrics -/

/-- The answer to `metrics` is a page of what is behind the cursor. -/
theorem metrics_page
    (args : ListArgs) (hpos : 1 ≤ args.limit) (hmax : args.limit ≤ 1000)
    {raw : Option String} {after : Option MetricCursor}
    (hafter : decodeMetricCursor r.cursors raw = .ok after) :
    (r.metrics { args with after := raw }).map Connection.page =
      .ok (Page.of (metricCursor r.cursors) args.limit.toNat
        ((orderDesc MetricSummary.listKey
          ((r.matchingMetricGroups args).filter (metricCursorAdmits after))).map
            (r.withStats args))) := by
  unfold Resolver.metrics clampUnboundedLimit
  simp only [bind, Except.bind, hafter, clampLimitTo_of_mem hpos hmax,
    Db.metricsPage_eq _ _ _ _ _ _ (show 0 < args.limit by omega)]
  rfl

/-- `metrics` serves the matching groups. -/
theorem metrics_serves
    (hlib : r.cursors.RoundTrips) (hdb : Pageable r.storage)
    (args : ListArgs) (hpos : 1 ≤ args.limit) (hmax : args.limit ≤ 1000) :
    Serves (fun after => (r.metrics { args with after }).map Connection.page)
      (metricCursor r.cursors) args.limit.toNat
      ((orderDesc MetricSummary.listKey (r.matchingMetricGroups args)).map
        (r.withStats args)) := by
  refine Serves.of_below (matchingGroups_keys_nodup _) ?_ ?_
  · have hpage := metrics_page args hpos hmax
      (show decodeMetricCursor r.cursors none = .ok none from rfl)
    simpa using hpage
  · intro m hm
    have hrange : InTimestampRange m.lastSeen :=
      Db.lastSeen_of_mem_matchingGroups hdb.seriesTimes hm
    have hcursor : decodeMetricCursor r.cursors
        (some (metricCursor r.cursors (r.withStats args m))) =
          .ok (some ⟨m.lastSeen, m.serviceName, m.metricName⟩) :=
      decodeMetricCursor_metricCursor hlib (r.withStats args m) hrange
    have hpage := metrics_page args hpos hmax hcursor
    rwa [metricCursor_admits] at hpage

/-! ### Completeness -/

/-- Following the cursors of `traces` lists every matching trace once. -/
theorem traces_complete
    (hlib : r.cursors.RoundTrips) (hdb : Pageable r.storage)
    (args : ListArgs) (hpos : 1 ≤ args.limit) (hmax : args.limit ≤ 1000) :
    ∃ pages,
      followPages (fun after => (r.traces { args with after }).map Connection.page)
        ((r.matchingTraces args).length + 1) none = some pages ∧
      Listing TraceSummary.listKey (r.matchingTraces args) (pages.flatMap Page.items) := by
  obtain ⟨item, hitem⟩ := hdb.exists_item
  have hrow : ∀ t ∈ r.matchingTraceRows args, r.storage.scanPageSummary t = some (item t) :=
    fun t ht => hitem t (List.mem_filter.mp ht).1
  have hall : r.matchingTraces args = (r.matchingTraceRows args).map item := by
    unfold Resolver.matchingTraces
    rw [List.filterMap_congr hrow]
    exact congrFun List.filterMap_eq_map' _
  refine (traces_serves hlib hdb hitem args hpos hmax).listing (by omega) ?_
  rw [hall]
  refine (Listing.orderDesc (Db.matchingTraces_keys_nodup _ _ _ _ _)).map fun t ht => ?_
  obtain ⟨hstart, hseen, hid⟩ := Db.scanPageSummary_key (hrow t ht)
  simp [TraceSummary.listKey, TraceSummaryRow.listKey, hstart, hseen, hid]

/-- Following the cursors of `logs` lists every matching log once. -/
theorem logs_complete
    (hlib : r.cursors.RoundTrips) (hdb : Pageable r.storage)
    (args : LogsArgs) (hpos : 1 ≤ args.limit) (hmax : args.limit ≤ 1000) :
    ∃ pages,
      followPages (fun after => (r.logs { args with after }).map Connection.page)
        ((r.matchingLogs args).length + 1) none = some pages ∧
      Listing LogDetail.listKey (r.matchingLogs args) (pages.flatMap Page.items) :=
  (logs_serves hlib hdb args hpos hmax).listing (by omega)
    (Listing.orderDesc (Db.matchingLogs_keys_nodup hdb.logIDs _ _ _))

/-- Following the cursors of `metrics` lists every matching group once. -/
theorem metrics_complete
    (hlib : r.cursors.RoundTrips) (hdb : Pageable r.storage)
    (args : ListArgs) (hpos : 1 ≤ args.limit) (hmax : args.limit ≤ 1000) :
    ∃ pages,
      followPages (fun after => (r.metrics { args with after }).map Connection.page)
        ((r.matchingMetrics args).length + 1) none = some pages ∧
      Listing MetricSummary.listKey (r.matchingMetrics args)
        (pages.flatMap Page.items) :=
  (metrics_serves hlib hdb args hpos hmax).listing (by omega)
    ((Listing.orderDesc (matchingGroups_keys_nodup _)).map fun _ _ => rfl)

/-- Following the cursors of the three lists terminates and reads each matching
item once, in descending order; and the cursor of an item decodes to its key. -/
theorem pagination_complete
    (hlib : r.cursors.RoundTrips) (hdb : Pageable r.storage)
    (args : LogsArgs) (hpos : 1 ≤ args.limit) (hmax : args.limit ≤ 1000) :
    (∃ pages,
        followPages
          (fun after => (r.traces { args.toListArgs with after }).map Connection.page)
          ((r.matchingTraces args.toListArgs).length + 1) none = some pages ∧
        Listing TraceSummary.listKey (r.matchingTraces args.toListArgs)
          (pages.flatMap Page.items)) ∧
      (∃ pages,
        followPages (fun after => (r.logs { args with after }).map Connection.page)
          ((r.matchingLogs args).length + 1) none = some pages ∧
        Listing LogDetail.listKey (r.matchingLogs args) (pages.flatMap Page.items)) ∧
      (∃ pages,
        followPages
          (fun after => (r.metrics { args.toListArgs with after }).map Connection.page)
          ((r.matchingMetrics args.toListArgs).length + 1) none = some pages ∧
        Listing MetricSummary.listKey (r.matchingMetrics args.toListArgs)
          (pages.flatMap Page.items)) ∧
      (∀ v ∈ r.matchingTraces args.toListArgs,
        decodeTraceCursor r.cursors (traceEndCursor r.cursors [v]) =
          .ok (some ⟨v.startTime, v.firstSeen.getD Time.zero, v.traceID⟩)) ∧
      (∀ v ∈ r.matchingLogs args,
        decodeLogCursor r.cursors (logEndCursor r.cursors [v]) = .ok (some ⟨v.ts, v.id⟩)) ∧
      ∀ v ∈ r.matchingMetrics args.toListArgs,
        decodeMetricCursor r.cursors (metricEndCursor r.cursors [v]) =
          .ok (some ⟨v.lastSeen, v.serviceName, v.metricName⟩) := by
  refine ⟨traces_complete hlib hdb _ hpos hmax, logs_complete hlib hdb _ hpos hmax,
    metrics_complete hlib hdb _ hpos hmax, ?_, ?_, ?_⟩
  · intro v hv
    obtain ⟨t, ht, hscan⟩ := List.mem_filterMap.mp hv
    obtain ⟨hstart, hseen, -⟩ := Db.scanPageSummary_key hscan
    obtain ⟨hrange, hrange'⟩ := hdb.traceTimes t (List.mem_filter.mp ht).1
    rw [hseen]
    exact decodeTraceCursor_traceCursor hlib v hseen (hstart ▸ hrange) hrange'
  · intro v hv
    obtain ⟨l, hl, hts⟩ := Db.ts_of_mem_matchingLogs hv
    exact decodeLogCursor_logCursor hlib v (hts ▸ hdb.logTimes l hl)
  · intro v hv
    obtain ⟨m, hm, rfl⟩ := List.mem_map.mp hv
    have hrange : InTimestampRange m.lastSeen :=
      Db.lastSeen_of_mem_matchingGroups hdb.seriesTimes hm
    exact decodeMetricCursor_metricCursor hlib _ hrange

end Serves

/-! ### A store with two traces -/

/-- A text for one value, and a unary number for every other. -/
def tabled {α β : Type} [DecidableEq α] (code : α → List ℕ) (known : α) (text : List β)
    (mark fill : β) (a : α) : List β :=
  if a = known then text else mark :: List.replicate (Encodable.encode (code a)) fill

/-- The inverse of `tabled`: the known text, or a code behind a mark. -/
def untabled {α β : Type} [DecidableEq β] (decode : List ℕ → Option α) (known : α)
    (text : List β) (s : List β) : Option α :=
  if s = text then some known
  else if s = [] then none
  else (Encodable.decode (s.length - 1)).bind decode

/-- What was written is read back. -/
theorem untabled_tabled
    {α β : Type} [DecidableEq α] [DecidableEq β] {code : α → List ℕ}
    {decode : List ℕ → Option α} (hcode : ∀ a, decode (code a) = some a) (known : α)
    {text : List β} {mark : β} (hmark : text.head? ≠ some mark) (fill : β) (a : α) :
    untabled decode known text (tabled code known text mark fill a) = some a := by
  rw [untabled, tabled]
  by_cases ha : a = known
  · rw [if_pos ha, if_pos rfl, ha]
  · have hne : mark :: List.replicate (Encodable.encode (code a)) fill ≠ text := by
      rintro rfl
      exact hmark rfl
    rw [if_neg ha, if_neg hne, if_neg (List.cons_ne_nil _ _)]
    simp [hcode]

theorem untabled_nil
    {α β : Type} [DecidableEq β] {decode : List ℕ → Option α} {known : α} {text : List β}
    (htext : text ≠ []) : untabled decode known text [] = none := by
  rw [untabled, if_neg (Ne.symm htext), if_pos rfl]

/-- A text as the codes of its characters. -/
def stringCode (s : String) : List ℕ := s.toList.map Char.toNat

/-- The text of a list of codes. -/
def stringOfCode (code : List ℕ) : String := String.ofList (code.map Char.ofNat)

@[simp] theorem stringOfCode_stringCode (s : String) : stringOfCode (stringCode s) = s := by
  simp [stringOfCode, stringCode, Function.comp_def]

/-- A cursor as a list of codes. -/
def cursorCode (c : PageCursor) : List ℕ :=
  [c.signal, c.time, c.tie, c.id].map fun s => Encodable.encode (stringCode s)

/-- The cursor of a list of codes. -/
def cursorOfCode : List ℕ → Option PageCursor
  | [signal, time, tie, id] => do
      let signal ← Encodable.decode signal
      let time ← Encodable.decode time
      let tie ← Encodable.decode tie
      let id ← Encodable.decode id
      some ⟨stringOfCode signal, stringOfCode time, stringOfCode tie, stringOfCode id⟩
  | _ => none

theorem cursorOfCode_cursorCode (c : PageCursor) : cursorOfCode (cursorCode c) = some c := by
  simp [cursorOfCode, cursorCode]

/-- Bytes as their codes. -/
def bytesOfCode (code : List ℕ) : Option (List UInt8) := some (code.map UInt8.ofNat)

/-- The cursor of trace `b` at the epoch. -/
def sampleCursor : PageCursor :=
  ⟨"traces", "1970-01-01T00:00:00Z", "1970-01-01T00:00:00Z", "b"⟩

/-- Its JSON text. -/
def sampleJson : List UInt8 :=
  ("\x7b\"signal\":\"traces\",\"time\":\"1970-01-01T00:00:00Z\"," ++
      "\"tie\":\"1970-01-01T00:00:00Z\",\"id\":\"b\"\x7d").toList.map
    fun c => UInt8.ofNat c.toNat

/-- Its JSON text in base64. -/
def sampleBase64 : List Char :=
  ("eyJzaWduYWwiOiJ0cmFjZXMiLCJ0aW1lIjoiMTk3MC0wMS0wMVQwMDowMDowMFoiLCJ0aWUiOi" ++
      "IxOTcwLTAxLTAxVDAwOjAwOjAwWiIsImlkIjoiYiJ9").toList

/-- Libraries that write the sample cursor as the real ones do, and any other one in some way. -/
def sampleLibraries : CursorLibraries where
  marshal := tabled cursorCode sampleCursor sampleJson 0 1
  unmarshal := untabled cursorOfCode sampleCursor sampleJson
  encodeToString b :=
    String.ofList (tabled (List.map UInt8.toNat) sampleJson sampleBase64 '!' 'A' b)
  decodeString s :=
    if s = "" then some [] else untabled bytesOfCode sampleJson sampleBase64 s.toList
  formatTime t :=
    String.ofList
      (tabled (fun t => [Encodable.encode t]) 0 "1970-01-01T00:00:00Z".toList '!' 'A' t)
  parseTime s :=
    untabled (fun code => code.head?.bind Encodable.decode) 0
      "1970-01-01T00:00:00Z".toList s.toList
  formatUUID u :=
    String.ofList
      (tabled (fun u => [u.val]) 1 "00000000-0000-0000-0000-000000000001".toList '!' 'A' u)
  parseUUID s :=
    untabled (fun code => code.head?.map fun n => Fin.ofNat (2 ^ 128) n) 1
      "00000000-0000-0000-0000-000000000001".toList s.toList

theorem tabled_ne_nil
    {α β : Type} [DecidableEq α] {code : α → List ℕ} {known : α} {text : List β}
    (htext : text ≠ []) (mark fill : β) (a : α) :
    tabled code known text mark fill a ≠ [] := by
  rw [tabled]
  split
  · exact htext
  · exact List.cons_ne_nil _ _

/-- The sample libraries read back what they wrote. -/
theorem sampleLibraries_roundTrips : sampleLibraries.RoundTrips where
  json c := untabled_tabled cursorOfCode_cursorCode _ (by decide +kernel) _ _
  noJson := by
    have htext : sampleJson ≠ [] := by decide +kernel
    change untabled cursorOfCode sampleCursor sampleJson [] = none
    exact untabled_nil htext
  base64 b := by
    have hcode : ∀ b : List UInt8, bytesOfCode (b.map UInt8.toNat) = some b := by
      intro b
      simp [bytesOfCode, Function.comp_def]
    have hne : String.ofList
        (tabled (List.map UInt8.toNat) sampleJson sampleBase64 '!' 'A' b) ≠ "" := by
      rw [ne_eq, ← String.toList_inj, String.toList_ofList]
      exact tabled_ne_nil (by decide +kernel) _ _ _
    simp only [sampleLibraries, if_neg hne, String.toList_ofList]
    exact untabled_tabled hcode _ (by decide +kernel) _ _
  noBase64 := rfl
  time t _ := by
    have hcode : ∀ t : Time, ([Encodable.encode t].head?.bind Encodable.decode) = some t := by
      intro t
      exact Encodable.encodek t
    simp only [sampleLibraries, String.toList_ofList]
    exact untabled_tabled hcode _ (by decide +kernel) _ _
  uuid u := by
    have hcode : ∀ u : UUID, ([u.val].head?.map fun n => Fin.ofNat (2 ^ 128) n) = some u := by
      intro u
      exact congrArg some (Fin.ext (Nat.mod_eq_of_lt u.isLt))
    simp only [sampleLibraries, String.toList_ofList]
    exact untabled_tabled hcode _ (by decide +kernel) _ _

/-- Two traces that start at once. -/
def sampleSummary (traceID : String) : TraceSummaryRow where
  traceID := traceID
  startTime := 0
  endTime := 1
  spanCount := 1
  hasError := false
  firstSeen := 0
  root := none
  earliestSpanID := ""
  earliestResourceHash := 0
  linkCount := 0

/-- A log record of their time. -/
def listedLog (id : UUID) : LogRow where
  id := id
  ts := 0
  observedTS := 0
  traceID := ""
  spanID := ""
  severityNumber := 9
  severityText := "INFO"
  body := ""
  attributes := .empty
  resourceHash := 0

/-- A gauge seen at their time. -/
def listedGauge (seriesKey : UInt64) (metricName : String) : MetricSeriesRow where
  seriesKey := seriesKey
  serviceName := "api"
  metricName := metricName
  metricType := "Gauge"
  numberKind := "int"
  unit := "1"
  description := ""
  temporality := ""
  isMonotonic := false
  attributes := .empty
  scopeName := ""
  scopeVersion := ""
  scopeSchemaURL := ""
  scopeDroppedAttributesCount := 0
  scopeAttributes := .empty
  resourceHash := 0

/-- Two traces, two logs and two metrics. -/
def sampleResolver : Resolver ℚ where
  storage :=
    { Db.empty ℚ with
      resources := ⟨[⟨0, "api", .empty⟩], by decide⟩
      traceSummaries := ⟨[sampleSummary "a", sampleSummary "b"], by decide +kernel⟩
      logs := [⟨listedLog 1, 0⟩, ⟨listedLog 2, 0⟩]
      metricSeries := ⟨[⟨listedGauge 3 "queue", 0, 0⟩, ⟨listedGauge 4 "threads", 0, 0⟩],
        by decide⟩ }
  cursors := sampleLibraries
  fullWindow := (-1, 1)
  spanMatches _ _ _ := true
  logMatches _ _ _ := true
  seriesMatches _ _ _ := true
  stats _ _ _ _ := (0, none)

theorem inTimestampRange_zero : InTimestampRange 0 := ⟨by norm_num, by norm_num⟩

/-- The sample store can be paged through. -/
theorem sampleResolver_pageable : Pageable sampleResolver.storage where
  logIDs := by decide
  earliestResources t ht := by
    have hhash : t.earliestResourceHash = 0 := by
      rcases List.mem_pair.mp ht with rfl | rfl <;> rfl
    rw [hhash]
    exact ⟨⟨0, "api", .empty⟩, List.mem_singleton.mpr rfl, rfl⟩
  traceTimes t ht := by
    rcases List.mem_pair.mp ht with rfl | rfl <;>
      exact ⟨inTimestampRange_zero, inTimestampRange_zero⟩
  logTimes l hl := by
    rcases List.mem_pair.mp hl with rfl | rfl <;> exact inTimestampRange_zero
  seriesTimes x hx := by
    rcases List.mem_pair.mp hx with rfl | rfl <;> exact inTimestampRange_zero

/-- A query for pages of one item. -/
def sampleArgs : LogsArgs where
  limit := 1
  after := none
  fromTime := none
  toTime := none
  search := none
  traceID := none

/-- Pages of one item, over two traces, two logs and two metrics. -/
theorem pagination_complete_sample :
    ((sampleResolver.matchingTraces sampleArgs.toListArgs).length,
        (sampleResolver.matchingLogs sampleArgs).length,
        (sampleResolver.matchingMetrics sampleArgs.toListArgs).length) = (2, 2, 2) ∧
      (∃ pages,
        followPages
          (fun after =>
            (sampleResolver.traces { sampleArgs.toListArgs with after }).map Connection.page)
          ((sampleResolver.matchingTraces sampleArgs.toListArgs).length + 1) none = some pages ∧
        Listing TraceSummary.listKey (sampleResolver.matchingTraces sampleArgs.toListArgs)
          (pages.flatMap Page.items)) ∧
      (∃ pages,
        followPages
          (fun after => (sampleResolver.logs { sampleArgs with after }).map Connection.page)
          ((sampleResolver.matchingLogs sampleArgs).length + 1) none = some pages ∧
        Listing LogDetail.listKey (sampleResolver.matchingLogs sampleArgs)
          (pages.flatMap Page.items)) ∧
      ∃ pages,
        followPages
          (fun after =>
            (sampleResolver.metrics { sampleArgs.toListArgs with after }).map Connection.page)
          ((sampleResolver.matchingMetrics sampleArgs.toListArgs).length + 1) none = some pages ∧
        Listing MetricSummary.listKey (sampleResolver.matchingMetrics sampleArgs.toListArgs)
          (pages.flatMap Page.items) := by
  obtain ⟨htraces, hlogs, hmetrics, -⟩ := pagination_complete sampleLibraries_roundTrips
    sampleResolver_pageable sampleArgs (by decide) (by decide)
  exact ⟨by decide +kernel, htraces, hlogs, hmetrics⟩

end GraphQL
end Otelop
