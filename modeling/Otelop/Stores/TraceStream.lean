import Mathlib.Tactic
import Otelop.Broadcast.Traces
import Otelop.Lib.Binary64
import Otelop.Storage.Pages
import Otelop.Storage.TraceCommits

/-!
# What the server sends of its traces

The server commits batches and broadcasts each of them, and it answers the page queries of
the traces tab from the same table.  While nothing is swept, a row of `trace_summaries`
grows until its trace is dropped, and a dropped trace stays away.

A message carries a duration in nanoseconds, and a page carries one in milliseconds.  The
browser multiplies the milliseconds by a million.  Both steps round, so a page can show less
than a message about the same spans did: 249 nanoseconds come back as 248.99999999999997.

**Results.**
* `serverView_commit`: every message is covered by the table, and no message is older than
  one before it.
* `fetchPage_upToDate`: a page counts no less than the messages sent before it was read.
-/

namespace Otelop
namespace Stores

open Lib
open Storage (Commit Db Time TraceSummary TraceSummaryRow TraceBatch newTraceEvents)
open Broadcast (broadcastTraces traceSummaryToTraceData traceSearchValues)

variable {V : Type} {sub : Time → Time → Int} {iso : Time → String}

/-- The duration as the `number` the browser holds. -/
def TraceData.shownDuration (t : TraceData) : ℚ := toDouble t.duration

/-- The spans and the links, compared one by one. -/
def TraceData.counts (t : TraceData) : Int × Int := (t.spanCount, t.linkCount)

/-- How much a row shows of its trace: the spans, the links and the duration, compared one by
one. -/
def TraceData.extent (t : TraceData) : Int × Int × ℚ :=
  (t.spanCount, t.linkCount, t.shownDuration)

/-- How much a message shows of a row of the table. -/
def shownExtent (t : TraceSummaryRow) : Int × Int × ℚ :=
  (t.extent.1, t.extent.2.1, toDouble t.extent.2.2)

theorem shownExtent_le {t t' : TraceSummaryRow} (h : t.extent ≤ t'.extent) :
    shownExtent t ≤ shownExtent t' :=
  ⟨h.1, h.2.1, toDouble_monotone (Int.cast_le.mpr h.2.2)⟩

/-- The trace a message is about. -/
def WsMessage.traceId? : WsMessage → Option String
  | traces data => some data.traceId
  | traceDeletes traceId => some traceId
  | _ => none

/-- The row shows no less than a summary of its trace, and its trace is not a deleted one. -/
def UpToDate (row : TraceData) : WsMessage → Prop
  | .traces data => data.traceId = row.traceId → data.extent ≤ row.extent
  | .traceDeletes traceId => traceId ≠ row.traceId
  | _ => True

/-- The same without the duration. -/
def CountsUpToDate (row : TraceData) : WsMessage → Prop
  | .traces data => data.traceId = row.traceId → data.counts ≤ row.counts
  | .traceDeletes traceId => traceId ≠ row.traceId
  | _ => True

theorem UpToDate.counts
    {row row' : TraceData} {m : WsMessage} (h : UpToDate row m) (hid : row'.traceId = row.traceId)
    (hcounts : row'.counts = row.counts) :
    CountsUpToDate row' m := by
  cases m with
  | traces data =>
      intro hdata
      obtain ⟨hspans, hlinks, -⟩ := h (hdata.trans hid)
      exact hcounts ▸ ⟨hspans, hlinks⟩
  | traceDeletes traceId =>
      intro hdeleted
      exact h (hdeleted.trans hid)
  | metrics data => trivial
  | logs data => trivial

theorem CountsUpToDate.upToDate
    {row : TraceData} {m : WsMessage} (h : CountsUpToDate row m)
    (hduration : ∀ data, m = .traces data → data.traceId = row.traceId →
      data.shownDuration ≤ row.shownDuration) :
    UpToDate row m := by
  cases m with
  | traces data =>
      intro hdata
      obtain ⟨hspans, hlinks⟩ := h hdata
      exact ⟨hspans, hlinks, hduration data rfl hdata⟩
  | traceDeletes traceId => exact h
  | metrics data => trivial
  | logs data => trivial

/-- A row that shows more is up to date as well. -/
theorem UpToDate.mono
    {row row' : TraceData} {m : WsMessage} (h : UpToDate row m) (hid : row'.traceId = row.traceId)
    (hextent : row.extent ≤ row'.extent) :
    UpToDate row' m := by
  cases m with
  | traces data =>
      intro hdata
      exact (h (hdata.trans hid)).trans hextent
  | traceDeletes traceId =>
      intro hdeleted
      exact h (hdeleted.trans hid)
  | metrics data => trivial
  | logs data => trivial

/-- Messages about other traces do not matter. -/
theorem upToDate_of_ne
    {row : TraceData} {m : WsMessage} (h : m.traceId? ≠ some row.traceId) :
    UpToDate row m := by
  cases m with
  | traces data => exact fun hdata => absurd (congrArg some hdata) h
  | traceDeletes traceId => exact fun hdeleted => h (congrArg some hdeleted)
  | metrics data => trivial
  | logs data => trivial

/-- No summary is older than a message before it. -/
def InOrder (messages : List WsMessage) : Prop :=
  messages.Pairwise fun earlier later => ∀ data, later = .traces data → UpToDate data earlier

/-! ### The table behind the messages -/

/-- The trace of a summary was dropped, or its row shows no less; a deleted trace was
dropped. -/
def Covers (db : Db V) : WsMessage → Prop
  | .traces data => db.tombstoned data.traceId = true ∨
      ∃ t ∈ db.traceSummaries.rows, t.traceID = data.traceId ∧ data.extent ≤ shownExtent t
  | .traceDeletes traceId => db.tombstoned traceId = true
  | _ => True

/-- The record shows what a row of the table shows. -/
def Shows (db : Db V) (data : TraceData) : Prop :=
  ∃ t ∈ db.traceSummaries.rows, t.traceID = data.traceId ∧ data.extent = shownExtent t

theorem Shows.covers {db : Db V} {data : TraceData} (h : Shows db data) :
    Covers db (.traces data) := by
  obtain ⟨t, ht, hid, hextent⟩ := h
  exact Or.inr ⟨t, ht, hid, hextent.le⟩

theorem covers_commit
    {db db' : Db V} {events : List TraceBatch} (h : Storage.CommitGrows db db' events)
    {m : WsMessage} (hm : Covers db m) :
    Covers db' m := by
  cases m with
  | traces data =>
      rcases hm with hdropped | ⟨t, ht, hid, hle⟩
      · exact Or.inl (h.tombstoned _ hdropped)
      · rcases h.rows t ht with hdropped | ⟨t', ht', hid', hgrows⟩
        · exact Or.inl (hid ▸ hdropped)
        · exact Or.inr ⟨t', ht', hid'.trans hid, hle.trans (shownExtent_le hgrows.extent_le)⟩
  | traceDeletes traceId => exact h.tombstoned traceId hm
  | metrics data => trivial
  | logs data => trivial

/-- The traces that are there have no tombstone. -/
theorem upToDate_of_covers
    {server : Storage.Store V} (hserver : Storage.Reachable sub (fun _ => True) server)
    {data : TraceData} (hdata : Shows server.db data) {m : WsMessage} (hm : Covers server.db m) :
    UpToDate data m := by
  have hinv := (hserver.traceInv (Storage.summarySpec_counts sub)).2
  obtain ⟨t, ht, hid, hextent⟩ := hdata
  have hkept : server.db.tombstoned data.traceId = false := by
    obtain ⟨sp, hsp, hspid⟩ :=
      (hinv.exists_summary_iff (Storage.summarySpec_counts sub)).mp ⟨t, ht, hid⟩
    exact hspid ▸ hinv.kept sp hsp
  cases m with
  | traces data' =>
      intro hsame
      rcases hm with hdropped | ⟨t', ht', hid', hle⟩
      · rw [hsame, hkept] at hdropped
        cases hdropped
      · have heq : t' = t := by
          have hfind := (KeyedTable.find?_eq_some_iff _).mpr ⟨ht, hid⟩
          rw [(KeyedTable.find?_eq_some_iff _).mpr ⟨ht', hid'.trans hsame⟩] at hfind
          exact Option.some.inj hfind
        rw [hextent, ← heq]
        exact hle
  | traceDeletes traceId =>
      rintro rfl
      have hdropped : server.db.tombstoned data.traceId = true := hm
      rw [hkept] at hdropped
      cases hdropped
  | metrics data' => trivial
  | logs data' => trivial

theorem shows_of_scan
    (iso : Time → String) {db : Db V} {t : TraceSummaryRow} (ht : t ∈ db.traceSummaries.rows) {item : TraceSummary}
    (hscan : db.scanTraceSummary t = some item) (searchValues : List String) :
    Shows db (traceSummaryToTraceData iso item searchValues) := by
  unfold Db.scanTraceSummary at hscan
  obtain ⟨_, -, hscan⟩ := Option.bind_eq_some_iff.mp hscan
  cases hscan
  exact ⟨t, ht, rfl, rfl⟩

/-- What the broadcast of a commit consists of. -/
theorem mem_broadcast
    {db db' : Db V} {events : List TraceBatch} (h : Storage.CommitGrows db db' events)
    {m : WsMessage} (hm : m ∈ events.flatMap (broadcastTraces iso)) :
    Covers db' m ∧ ∀ data, m = .traces data → Shows db' data := by
  obtain ⟨ev, hev, hm⟩ := List.mem_flatMap.mp hm
  rcases List.mem_append.mp hm with hm | hm
  · obtain ⟨id, hid, rfl⟩ := List.mem_map.mp hm
    exact ⟨h.dropped ev hev id hid, fun data hdata => by cases hdata⟩
  · obtain ⟨item, hitem, rfl⟩ := List.mem_map.mp hm
    obtain ⟨t, ht, hscan⟩ := h.read ev hev item hitem
    have hshows := shows_of_scan iso ht hscan (traceSearchValues ev item.traceID)
    refine ⟨hshows.covers, ?_⟩
    rintro data heq
    cases heq
    exact hshows

/-- The server, and the messages it sent. -/
structure ServerView (sub : Time → Time → Int) (server : Storage.Store V)
    (sent : List WsMessage) : Prop where
  reachable : Storage.Reachable sub (fun _ => True) server
  covers : ∀ m ∈ sent, Covers server.db m
  inOrder : InOrder sent

theorem serverView_commit
    {server : Storage.Store V} {sent : List WsMessage} (h : ServerView sub server sent)
    (c : Commit) :
    ServerView sub (server.commit sub c)
      (sent ++ (newTraceEvents server (server.commit sub c)).flatMap (broadcastTraces iso)) := by
  have hgrows := Storage.commit_grows h.reachable c
  have hafter := h.reachable.commit c
  have hcovers : ∀ m ∈ sent ++
      (newTraceEvents server (server.commit sub c)).flatMap (broadcastTraces iso),
      Covers (server.commit sub c).db m := by
    intro m hm
    rcases List.mem_append.mp hm with hm | hm
    · exact covers_commit hgrows (h.covers m hm)
    · exact (mem_broadcast hgrows hm).1
  have hlater : ∀ m ∈ sent ++
      (newTraceEvents server (server.commit sub c)).flatMap (broadcastTraces iso),
      ∀ m' ∈ (newTraceEvents server (server.commit sub c)).flatMap (broadcastTraces iso),
        ∀ data, m' = .traces data → UpToDate data m := by
    intro m hm m' hm' data hdata
    exact upToDate_of_covers hafter ((mem_broadcast hgrows hm').2 data hdata) (hcovers m hm)
  refine ⟨hafter, hcovers, ?_⟩
  refine List.pairwise_append.mpr ⟨h.inOrder, ?_, ?_⟩
  · exact List.pairwise_of_forall_mem_list fun m hm => hlater m (List.mem_append_right _ hm)
  · exact fun m hm => hlater m (List.mem_append_left _ hm)

/-! ### Pages -/

/-- The arguments of the `traces` field, with the window and the cursor resolved. -/
structure PageQuery where
  fromTs : Time
  toTs : Time
  after : Option Storage.TraceCursor
  limit : Int
  search : String

/-- `durationMs` of `trace_resolver.go`, times `MS_TO_NS` in the browser. -/
def pageDuration (d : Int) : ℚ := toDouble (toDouble (toDouble d / 10 ^ 6) * 10 ^ 6)

example : pageDuration 249 < 249 := by decide +kernel

/-- `toTraceData` of `use-trace-list-page.ts` -/
def toTraceData (iso : Time → String) (item : TraceSummary) : TraceData :=
  { traceSummaryToTraceData iso item [] with
    searchValues := none
    duration := pageDuration item.duration
    rootSpan := item.root.map fun root =>
      { Broadcast.rootSpanData root with duration := pageDuration root.duration } }

/-- `fetchPage` of `useTraceListPage`, answered from the given table. -/
def fetchPage (iso : Time → String)
    (spanMatches : String → Storage.StoredSpan → Storage.ResourceRow → Bool) (db : Db V)
    (query : PageQuery) : Except String (List TraceData) :=
  (db.tracesPage spanMatches query.fromTs query.toTs query.after query.limit query.search).map
    fun page => page.1.map (toTraceData iso)

variable {spanMatches : String → Storage.StoredSpan → Storage.ResourceRow → Bool}

theorem fetchPage_shows
    {db : Db V} {query : PageQuery} {items : List TraceData}
    (h : fetchPage iso spanMatches db query = .ok items) :
    (items.map TraceData.traceId).Nodup ∧ ∀ item ∈ items, ∃ data, Shows db data ∧
      item.traceId = data.traceId ∧ item.counts = data.counts := by
  rw [fetchPage] at h
  unfold Db.tracesPage at h
  dsimp only at h
  split at h
  · cases h
  · rename_i scanned hscanned
    cases h
    have hcut : (Storage.cutProbe query.limit scanned).1.Sublist scanned := by
      rw [Storage.cutProbe]
      split
      · exact List.take_sublist _ _
      · exact List.Sublist.refl _
    refine ⟨?_, ?_⟩
    · have hids : scanned.map TraceSummary.traceID = _ :=
        Storage.map_of_mapM (k := TraceSummaryRow.traceID)
          (fun t item ht => (Storage.Db.scanPageSummary_key ht).2.2) hscanned
      have hscannedNodup : (scanned.map TraceSummary.traceID).Nodup := by
        rw [hids, ((orderDesc_perm _).map _).nodup_iff]
        refine List.Nodup.sublist ((List.take_sublist _ _).map _) ?_
        rw [((orderDesc_perm _).map _).nodup_iff]
        exact List.Nodup.sublist
          ((List.filter_sublist.trans List.filter_sublist).map _) db.traceSummaries.keys_nodup
      rw [List.map_map]
      exact hscannedNodup.sublist (hcut.map _)
    · intro item hitem
      obtain ⟨summary, hsummary, rfl⟩ := List.mem_map.mp hitem
      obtain ⟨t, ht, hscan⟩ := Storage.exists_of_mem_mapM hscanned (hcut.subset hsummary)
      have hrow : t ∈ db.traceSummaries.rows := by
        have hpage := List.mem_of_mem_take (mem_orderDesc.mp ht)
        exact (List.mem_filter.mp (List.mem_filter.mp (mem_orderDesc.mp hpage)).1).1
      obtain ⟨stored, hstored, rfl⟩ := Option.map_eq_some_iff.mp hscan
      exact ⟨_, shows_of_scan iso hrow hstored [], rfl, rfl⟩

/-- A page counts no less than the messages that were sent before it was read. -/
theorem fetchPage_upToDate
    {server : Storage.Store V} {sent : List WsMessage} (h : ServerView sub server sent)
    {query : PageQuery} {items : List TraceData}
    (hpage : fetchPage iso spanMatches server.db query = .ok items) :
    ∀ item ∈ items, ∀ m ∈ sent, CountsUpToDate item m := by
  intro item hitem m hm
  obtain ⟨data, hdata, hid, hcounts⟩ := (fetchPage_shows hpage).2 item hitem
  exact (upToDate_of_covers h.reachable hdata (h.covers m hm)).counts hid hcounts

end Stores
end Otelop
