import Mathlib.Tactic
import Otelop.Storage.TraceBatches
import Otelop.Storage.References

/-!
# No batch is refused

A statement of a write fails for two reasons only: from outside, or because the tables refuse
it.  `StoreInv` puts the invariants of the tables and of the cache together and rules the second
reason out: in particular every summary joins with a resource, whose name the scan needs.

**Results.**
* `StoreInv.after`: every operation keeps the invariants.
* `StoreInv.succeeds`: a batch as the converters build it is refused only by a fault.
* `resources_written`, `StoreInv.storedIn`: a batch that was written has rows for its resources,
  and its own rows are in the tables.
-/

namespace Otelop
namespace Storage

open Lib Stmt

variable {V : Type} {sub : Time → Time → Int}

/-- The invariants of the tables and of the cache. -/
structure StoreInv (s : Store V) : Prop where
  saved : s.saved = none
  traces : TraceInv Aggregates s.db
  references : RefInv s.db
  cache : CacheSound s

namespace StoreInv

theorem new : StoreInv (Store.new V) where
  saved := rfl
  traces := TraceInv.empty
  references := RefInv.empty
  cache := fun _ hk => by cases hk

/-- An operation keeps the invariants, if it is closed and, where it is a clear, succeeds. -/
theorem after
    (hsub : SubExact sub) {s : Store V} (h : StoreInv s) (op : Op V) (faults : List Bool)
    (hop : op.Closed) (hclear : op = .clear → s.succeeds sub op faults) :
    StoreInv (s.after sub op faults) := by
  have htraces := (traceInvariant (summarySpec_aggregates hsub)).after ⟨h.saved, h.traces⟩
    op faults trivial hclear
  have hrefs := refInvariant.after ⟨h.saved, h.references, h.cache⟩ op faults hop hclear
  exact ⟨htraces.1, htraces.2, hrefs.2.1, hrefs.2.2⟩

theorem withFaults
    {s : Store V} (h : StoreInv s) (faults : List Bool) :
    StoreInv (s.withFaults faults) :=
  ⟨h.saved, h.traces, h.references, h.cache⟩

end StoreInv

/-- A run of batches that name their own resources keeps everything in order. -/
theorem Reachable.storeInv
    (hsub : SubExact sub) {s : Store V} (hs : Reachable sub Op.Closed s) :
    StoreInv s := by
  obtain ⟨hsaved, href, hcache⟩ := hs.invariant refInvariant
  exact ⟨hsaved, ((hs.mono fun _ _ => trivial).traceInv (summarySpec_aggregates hsub)).2, href,
    hcache⟩

/-- What the converters promise of a batch: it contains the rows it refers to, and a series or
a layout occurs once. -/
def Op.Converted : Op V → Prop
  | .writeTraces batch _ _ => batch.Closed
  | .writeMetrics batch _ _ =>
      batch.Closed ∧ (batch.series.map MetricSeriesRow.seriesKey).Nodup ∧
        (batch.histogramLayouts.map HistogramLayoutRow.layoutHash).Nodup
  | .writeLogs batch _ => batch.Closed
  | _ => False

def Op.resources : Op V → List ResourceRow
  | .writeTraces batch _ _ => batch.resources
  | .writeMetrics batch _ _ => batch.resources
  | .writeLogs batch _ => batch.resources
  | _ => []

/-- What the converters build names its own rows only. -/
theorem Op.Converted.closed
    {op : Op V} (h : op.Converted) :
    op.Closed := by
  cases op with
  | writeTraces => exact h
  | writeMetrics => exact h.1
  | writeLogs => exact h
  | sweep => trivial
  | rebuildAllTraceSummaries => trivial
  | clear => trivial

theorem Op.Converted.ne_clear
    {op : Op V} (h : op.Converted) :
    op ≠ .clear := by
  rintro rfl
  exact h

/-! ### Resources, series and layouts -/

section Dimensions

variable {s : Store V}

/-- No resource is refused. -/
theorem upsertResource_succeeds (r : ResourceRow) (s : Store V) :
    Succeeds (upsertResource r) s := by
  intro hs
  have hok : s.fails = false := by rw [Session.fails, hs]; rfl
  unfold Returns
  rw [upsertResource_eq]
  rcases s.mem.resourceCache.contains r.resourceHash with ⟨hit, cache⟩
  cases hit with
  | true => exact ⟨(), _, rfl, hs⟩
  | false =>
      simp only [Bool.false_eq_true, if_false, hok]
      exact ⟨(), _, rfl, by simp [Session.tick, hs]⟩

theorem upsertResources_succeeds (rows : List ResourceRow) :
    Succeeds (upsertResources rows) s :=
  succeeds_each upsertResource_succeeds rows s

/-- Series with distinct keys are not refused. -/
theorem upsertSeries_succeeds
    {rows : List MetricSeriesRow} (h : (rows.map MetricSeriesRow.seriesKey).Nodup) (now : Time) :
    Succeeds (upsertSeries rows now) s := by
  unfold upsertSeries
  split
  · exact succeeds_pure ()
  · refine succeeds_bind (succeeds_exec _ _) fun _ t ht => ?_
    refine succeeds_bind (succeeds_exec _ _) fun _ u hu => succeeds_stmt ?_
    obtain ⟨-, rfl⟩ := returns_exec.mp ht
    obtain ⟨-, rfl⟩ := returns_exec.mp hu
    rw [Option.isSome_map]
    refine KeyedTable.isSome_merge? ?_
    simpa [Function.comp_def] using h

/-- Layouts with distinct hashes are not refused. -/
theorem upsertHistogramLayouts_succeeds
    {rows : List (HistogramLayoutRow V)}
    (h : (rows.map HistogramLayoutRow.layoutHash).Nodup) :
    Succeeds (upsertHistogramLayouts rows) s := by
  unfold upsertHistogramLayouts
  split
  · exact succeeds_pure ()
  · refine succeeds_bind (succeeds_exec _ _) fun _ t ht => ?_
    refine succeeds_bind (succeeds_exec _ _) fun _ u hu => succeeds_stmt ?_
    obtain ⟨-, rfl⟩ := returns_exec.mp ht
    obtain ⟨-, rfl⟩ := returns_exec.mp hu
    rw [Option.isSome_map]
    exact KeyedTable.isSome_merge? (by simpa using h)

/-- No metric batch is refused. -/
theorem writeMetrics_succeeds
    {batch : MetricBatch V} (hseries : (batch.series.map MetricSeriesRow.seriesKey).Nodup)
    (hlayouts : (batch.histogramLayouts.map HistogramLayoutRow.layoutHash).Nodup)
    (now ingestedAt : Time) :
    Succeeds (writeMetrics batch now ingestedAt) s := by
  have hbody : ∀ t : Store V, Succeeds (writeMetricRows batch now ingestedAt) t := by
    intro t
    refine succeeds_bind (upsertResources_succeeds _) fun _ _ _ => ?_
    refine succeeds_bind (upsertSeries_succeeds hseries now) fun _ _ _ => ?_
    refine succeeds_bind (upsertHistogramLayouts_succeeds hlayouts) fun _ _ _ => ?_
    split
    · exact succeeds_bind (succeeds_commit _) fun _ _ _ => succeeds_pure _
    · refine succeeds_bind (succeeds_exec _ _) fun _ _ _ => ?_
      refine succeeds_bind ?_ fun _ _ _ =>
        succeeds_bind (succeeds_commit _) fun _ _ _ => succeeds_pure _
      unfold appendMetricExemplars
      split
      · exact succeeds_pure ()
      · exact succeeds_exec _ _
  refine succeeds_bind (succeeds_transaction (hbody _)) fun written _ _ => ?_
  split
  · exact succeeds_modify _
  · exact succeeds_pure ()

/-- No log batch is refused. -/
theorem writeLogs_succeeds (batch : LogBatch) (now : Time) :
    Succeeds (writeLogs batch now) s := by
  refine succeeds_bind (upsertResources_succeeds _) fun _ _ _ => ?_
  split
  · exact succeeds_pure ()
  · refine succeeds_bind ?_ fun _ _ _ => succeeds_modify _
    exact succeeds_bind (succeeds_each (fun _ _ => succeeds_exec _ _) _ _)
      fun _ _ _ => succeeds_exec _ _

end Dimensions

/-! ### Traces -/

section Traces

variable {s : Store V}

/-- A summary joins with the resource of the earliest span of its trace. -/
theorem scanTraceSummary_isSome
    {db : Db V} (htraces : TraceInv Aggregates db) (hrefs : RefInv db)
    {t : TraceSummaryRow} (ht : t ∈ db.traceSummaries.rows) :
    (db.scanTraceSummary t).isSome = true := by
  obtain ⟨sp, hfirst, -, hhash⟩ := (htraces.summary t ht).earliest
  obtain ⟨r, hr, hkey⟩ := hrefs.spans sp (mem_traceRows.mp hfirst.1).1
  have hname : (db.serviceName t.earliestResourceHash).isSome = true := by
    rw [Db.serviceName, Option.isSome_map, hhash,
      (KeyedTable.find?_eq_some_iff _).mpr ⟨hr, hkey⟩]
    rfl
  obtain ⟨name, hname⟩ := Option.isSome_iff_exists.mp hname
  unfold Db.scanTraceSummary
  rw [hname]
  cases (t.root.bind fun r => db.serviceName r.resourceHash) <;> rfl

theorem mapM_isSome
    {α β : Type} {f : α → Option β} {l : List α} (h : ∀ x ∈ l, (f x).isSome = true) :
    (l.mapM f).isSome = true := by
  induction l with
  | nil => rfl
  | cons x l ih =>
      obtain ⟨y, hy⟩ := Option.isSome_iff_exists.mp (h x (by simp))
      obtain ⟨ys, hys⟩ := Option.isSome_iff_exists.mp (ih fun z hz => h z (by simp [hz]))
      rw [List.mapM_cons, hy, hys]
      rfl

/-- Every summary joins with a resource, so the scan finds a name. -/
theorem traceSummariesFromTable_succeeds
    (htraces : TraceInv Aggregates s.db) (hrefs : RefInv s.db) (traceIDs : List String) :
    Succeeds (traceSummariesFromTable traceIDs) s := by
  unfold traceSummariesFromTable
  split
  · exact succeeds_pure _
  · refine succeeds_stmt ?_
    rw [Option.isSome_map]
    exact mapM_isSome fun t ht => scanTraceSummary_isSome htraces hrefs (List.mem_filter.mp ht).1

theorem filterDroppedTraceRows_succeeds (rows : List SpanRow) (now : Time) :
    Succeeds (filterDroppedTraceRows rows now) s := by
  unfold filterDroppedTraceRows
  split
  · exact succeeds_pure _
  · refine succeeds_bind (succeeds_query _ _) fun tombstoned _ _ => ?_
    split
    · exact succeeds_pure _
    · exact succeeds_bind (succeeds_exec _ _) fun _ _ _ => succeeds_pure _

theorem traceSummaryStatesByIDs_succeeds (traceIDs : List String) :
    Succeeds (traceSummaryStatesByIDs traceIDs) s := by
  unfold traceSummaryStatesByIDs
  split
  · exact succeeds_pure _
  · exact succeeds_query _ _

theorem filterNewSpans_succeeds
    (rows : List SpanRow) (existing : String → Option TraceSummaryState) :
    Succeeds (filterNewSpans rows existing) s := by
  refine succeeds_bind (succeeds_fold (fun keys group t => ?_) _ _ _) fun _ _ _ =>
    succeeds_pure _
  exact succeeds_bind (succeeds_query _ _) fun _ _ _ => succeeds_pure _

/-- A trace can always be dropped. -/
theorem dropOversized_succeeds
    (states : String → Option TraceSummaryState) (ingestedAt : Time)
    (dropped : List String) (id : String) (s : Store V) :
    Succeeds (dropOversized states ingestedAt dropped id) s := by
  unfold dropOversized
  split
  · exact succeeds_pure _
  · split
    · exact succeeds_pure _
    · refine succeeds_bind (succeeds_exec _ _) fun _ _ _ => ?_
      refine succeeds_bind (succeeds_exec _ _) fun _ _ _ => ?_
      refine succeeds_bind (succeeds_exec _ _) fun _ _ _ => ?_
      exact succeeds_bind (succeeds_exec _ _) fun _ _ _ => succeeds_pure _

theorem upsertTraceSummaryStates_succeeds (states : List TraceSummaryState) :
    Succeeds (upsertTraceSummaryStates states) s := by
  unfold upsertTraceSummaryStates
  split
  · exact succeeds_pure _
  · exact succeeds_exec _ _

/-- The tables a transaction works on: its resources are there and the rows of tombstoned
traces are not. -/
theorem writeTraceRows_succeeds
    (hsub : SubExact sub)
    (htraces : TraceInv Aggregates s.db) (hrefs : RefInv s.db) {batch : List SpanRow}
    (hresources : ∀ r ∈ batch, s.db.hasResource r.resourceHash) (now : Time) :
    Succeeds (writeTraceRows (batch.filter fun r => !s.db.tombstoned r.traceID) now) s := by
  refine succeeds_bind (traceSummaryStatesByIDs_succeeds _) fun existing t₁ h₁ => ?_
  refine succeeds_bind (filterNewSpans_succeeds _ _) fun inserted t₂ h₂ => ?_
  split
  · exact succeeds_bind (succeeds_commit _) fun _ _ _ => succeeds_pure _
  · refine succeeds_bind (succeeds_exec _ _) fun _ t₃ h₃ => ?_
    refine succeeds_bind (succeeds_exec _ _) fun _ t₄ h₄ => ?_
    refine succeeds_bind (succeeds_fold (dropOversized_succeeds _ _) _ _ _)
      fun dropped t₅ h₅ => ?_
    refine succeeds_bind (upsertTraceSummaryStates_succeeds _) fun _ t₆ h₆ => ?_
    obtain ⟨hins, hwrote, -, -⟩ := wrote_of_returns h₁ h₂ h₃ h₄ h₅ h₆
    have htraces₆ := htraces.wroteBatch (summarySpec_aggregates hsub) hins hwrote
    have hrefs₆ := hrefs.wrote hwrote fun r hr => by
      obtain ⟨keys, -, rfl⟩ := hins
      exact hresources r (List.mem_filter.mp (mem_distinctBy.mp hr).1.mem).1
    refine succeeds_bind (traceSummariesFromTable_succeeds htraces₆ hrefs₆ _) fun _ _ _ => ?_
    exact succeeds_bind (succeeds_commit _) fun _ _ _ => succeeds_pure _

/-- No trace batch is refused. -/
theorem writeTraces_succeeds
    (hsub : SubExact sub) (h : StoreInv s) {batch : TraceBatch} (hclosed : batch.Closed)
    (refreshedAt now : Time) :
    Succeeds (writeTraces batch refreshedAt now) s := by
  refine succeeds_bind (upsertResources_succeeds _) fun _ t ht => ?_
  refine succeeds_bind (filterDroppedTraceRows_succeeds _ _) fun rows p hp => ?_
  have hgrow := (upsertResources_grow _).returns ht
  have hfilter := (filterDroppedTraceRows_prepared _ _).returns hp
  have hprep := prepared_frame.trans hgrow.prepared hfilter
  split
  · exact succeeds_pure ()
  · have hrows : rows = batch.spans.filter fun r => !p.db.tombstoned r.traceID := by
      rw [filterDroppedTraceRows_returns hp]
      refine List.filter_congr fun r _ => ?_
      rw [hfilter.tombstoned]
    subst hrows
    have hresources : ∀ r ∈ batch.spans, p.db.hasResource r.resourceHash := by
      intro r hr
      obtain ⟨x, hx, hhash⟩ := hclosed r hr
      rw [← hhash]
      exact hfilter.keep _ (upsertResources_hasResource h.cache ht x hx)
    have htraces : TraceInv Aggregates p.db := h.traces.prepared hprep
    have hrefs : RefInv p.db := h.references.prepared hprep
    refine succeeds_bind (succeeds_transaction ?_) fun _ _ _ => succeeds_modify _
    exact writeTraceRows_succeeds (s := { p.tick with saved := some p.db }) hsub
      htraces hrefs hresources now

end Traces

/-! ### Batches -/

/-- A batch as the converters build it is refused only by a fault. -/
theorem StoreInv.succeeds
    (hsub : SubExact sub) {s : Store V} (h : StoreInv s) {op : Op V} (hop : op.Converted) :
    s.succeeds sub op [] := by
  have hrun : Succeeds (op.perform sub) (s.withFaults []) := by
    cases op with
    | writeTraces batch refreshedAt now =>
        exact writeTraces_succeeds hsub (h.withFaults []) hop refreshedAt now
    | writeMetrics batch now ingestedAt =>
        exact writeMetrics_succeeds hop.2.1 hop.2.2 now ingestedAt
    | writeLogs batch now => exact writeLogs_succeeds batch now
    | sweep => exact hop.elim
    | rebuildAllTraceSummaries => exact hop.elim
    | clear => exact hop.elim
  obtain ⟨u, t, ht, -⟩ := hrun rfl
  exact congrArg Prod.fst ht

section Written

variable {s s' : Store V}

/-- A trace batch that is written has rows for its resources. -/
theorem writeTraces_resources
    (hcache : CacheSound s) {batch : TraceBatch} {refreshedAt now : Time} {u : Unit}
    (h : Returns (writeTraces batch refreshedAt now) s u s') :
    ∀ r ∈ batch.resources, s'.db.hasResource r.resourceHash := by
  obtain ⟨_, t, ht, h⟩ := returns_bind.mp h
  obtain ⟨rows, p, hp, h⟩ := returns_bind.mp h
  have hkeep := ((filterDroppedTraceRows_prepared _ _).returns hp).keep
  have hresources : ∀ r ∈ batch.resources, p.db.hasResource r.resourceHash :=
    fun r hr => hkeep _ (upsertResources_hasResource hcache ht r hr)
  split at h
  · obtain ⟨-, rfl⟩ := returns_pure.mp h
    exact hresources
  · obtain ⟨w, v, hv, h⟩ := returns_bind.mp h
    obtain rfl := returns_modify.mp h
    obtain ⟨_, q, hq, hv⟩ := returns_bind.mp hv
    obtain ⟨-, rfl⟩ := returns_begin.mp hq
    obtain ⟨⟨inserted, dropped, hc⟩, -⟩ := writeTraceRows_returns (returns_deferRollback.mp hv)
    intro r hr
    have hv : v.db.resources = p.db.resources := by rw [hc.wrote.rest]; rfl
    obtain ⟨x, hx, hk⟩ := hresources r hr
    exact ⟨x, hv ▸ hx, hk⟩

/-- A metric batch that is written has rows for its resources. -/
theorem writeMetrics_resources
    (hcache : CacheSound s) {batch : MetricBatch V} {now ingestedAt : Time} {u : Unit}
    (h : Returns (writeMetrics batch now ingestedAt) s u s') :
    ∀ r ∈ batch.resources, s'.db.hasResource r.resourceHash := by
  obtain ⟨written, v, hv, h⟩ := returns_bind.mp h
  obtain ⟨_, q, hq, hv⟩ := returns_bind.mp hv
  obtain ⟨-, rfl⟩ := returns_begin.mp hq
  have hbody := (writeMetricRows_returns (returns_deferRollback.mp hv)).2.1 hcache
  split at h
  · obtain rfl := returns_modify.mp h
    exact hbody.1
  · obtain ⟨-, rfl⟩ := returns_pure.mp h
    exact hbody.1

/-- A log batch that is written has rows for its resources. -/
theorem writeLogs_resources
    (hcache : CacheSound s) {batch : LogBatch} {now : Time} {u : Unit}
    (h : Returns (writeLogs batch now) s u s') :
    ∀ r ∈ batch.resources, s'.db.hasResource r.resourceHash := by
  obtain ⟨_, t, ht, h⟩ := returns_bind.mp h
  have hresources := upsertResources_hasResource hcache ht
  split at h
  · obtain ⟨-, rfl⟩ := returns_pure.mp h
    exact hresources
  · obtain ⟨_, v, hv, h⟩ := returns_bind.mp h
    obtain ⟨rows, -, hupdates, -⟩ := appendLogs_prefix batch.logs now t
    rw [hv] at hupdates
    obtain rfl := returns_modify.mp h
    intro r hr
    have hkept : v.db.resources = t.db.resources := by rw [hupdates.db]
    obtain ⟨x, hx, hhash⟩ := hresources r hr
    exact ⟨x, hkept ▸ hx, hhash⟩

end Written

/-- Once a batch is written its resources have rows. -/
theorem resources_written
    {s : Store V} (hcache : CacheSound s) {op : Op V} {faults : List Bool}
    (hok : s.succeeds sub op faults) :
    ∀ r ∈ op.resources, (s.after sub op faults).db.hasResource r.resourceHash := by
  have hret : Returns (op.perform sub) (s.withFaults faults) () (s.after sub op faults) :=
    Prod.ext hok rfl
  have hcache' : CacheSound (s.withFaults faults) := hcache
  cases op with
  | writeTraces => exact writeTraces_resources hcache' hret
  | writeMetrics => exact writeMetrics_resources hcache' hret
  | writeLogs => exact writeLogs_resources hcache' hret
  | sweep => exact fun r hr => absurd hr List.not_mem_nil
  | rebuildAllTraceSummaries => exact fun r hr => absurd hr List.not_mem_nil
  | clear => exact fun r hr => absurd hr List.not_mem_nil

/-! ### The rows of a written batch -/

/-- The rows of a batch are in the tables: its spans, unless their trace has a tombstone, its
series, layouts, points and exemplars, and its records. -/
def Op.StoredIn : Op V → Db V → Prop
  | .writeTraces batch _ _, db =>
      ∀ r ∈ batch.spans, db.tombstoned r.traceID = true ∨ r.key ∈ db.spans.map StoredSpan.key
  | .writeMetrics batch _ ingestedAt, db =>
      (∀ x ∈ batch.series, db.hasSeries x.seriesKey) ∧
        (∀ x ∈ batch.histogramLayouts, db.hasLayout x.layoutHash) ∧
        (∀ p ∈ batch.points, ⟨p, ingestedAt⟩ ∈ db.metricPoints) ∧
        ∀ e ∈ batch.exemplars, e ∈ db.metricExemplars
  | .writeLogs batch now, db => ∀ l ∈ batch.logs, ⟨l, now⟩ ∈ db.logs
  | _, _ => True

/-- The spans of a batch that is written are stored, unless their trace has a tombstone. -/
theorem writeTraces_storedIn
    {s : Store V} (h : StoreInv s) {batch : TraceBatch} {refreshedAt now : Time}
    {faults : List Bool} (hok : s.succeeds sub (.writeTraces batch refreshedAt now) faults) :
    (Op.writeTraces batch refreshedAt now : Op V).StoredIn
      (s.after sub (.writeTraces batch refreshedAt now) faults).db := by
  change (Op.writeTraces batch refreshedAt now : Op V).StoredIn
    (writeTraces batch refreshedAt now (s.withFaults faults)).2.db
  obtain ⟨p, hp, -, ⟨hdb, -, hnone⟩ | ⟨inserted, dropped, w, -, hc, -⟩⟩ :=
    writeTraces_cases (s := s.withFaults faults) batch refreshedAt now h.saved rfl
  · intro r hr
    left
    rw [hdb, hp.tombstoned]
    exact Bool.not_eq_false _ ▸ fun hkept => hnone hok ⟨r, hr, hkept⟩
  · have hinv : TraceInv Aggregates p.db := h.traces.prepared (s := s.withFaults faults) hp
    intro r hr
    by_cases htomb : s.db.tombstoned r.traceID = true
    · exact Or.inl ((hc.wrote.tombstoned _).mpr (Or.inl ((hp.tombstoned _).trans htomb)))
    by_cases hdropped : r.traceID ∈ dropped
    · exact Or.inl ((hc.wrote.tombstoned _).mpr (Or.inr hdropped))
    -- A span that is new is inserted under its key, and the key of any other is there.
    right
    have hstored : ∃ sp ∈ p.db.spans ++ inserted.map (fun r => r.stored now), sp.key = r.key := by
      by_cases hknown : r.key ∈ p.db.spans.map StoredSpan.key
      · obtain ⟨sp, hsp, hkey⟩ := List.mem_map.mp hknown
        exact ⟨sp, List.mem_append_left _ hsp, hkey⟩
      · obtain ⟨keys, hkeys, rfl⟩ := hc.inserted_eq
        have hrow : r ∈ batch.spans.filter fun r => !s.db.tombstoned r.traceID :=
          List.mem_filter.mpr ⟨hr, by simpa using htomb⟩
        obtain ⟨x, hx, hkey⟩ := exists_mem_distinctBy hrow
          (mt (hinv.knownKeys_iff hkeys hrow).mp hknown)
        exact ⟨x.stored now, List.mem_append_right _ (List.mem_map_of_mem hx), hkey⟩
    obtain ⟨sp, hsp, hkey⟩ := hstored
    have hid : sp.traceID = r.traceID := congrArg Prod.fst hkey
    refine List.mem_map.mpr ⟨sp, ?_, hkey⟩
    rw [hc.wrote.spans]
    exact List.mem_filter.mpr ⟨hsp, decide_eq_true (hid ▸ hdropped)⟩

/-- The rows of a metric batch that is written are in the tables. -/
theorem writeMetrics_storedIn
    {s : Store V} {batch : MetricBatch V} (hbatch : batch.Closed) {now ingestedAt : Time}
    {faults : List Bool} (hok : s.succeeds sub (.writeMetrics batch now ingestedAt) faults) :
    (Op.writeMetrics batch now ingestedAt).StoredIn
      (s.after sub (.writeMetrics batch now ingestedAt) faults).db := by
  have hret : Returns (writeMetrics batch now ingestedAt) (s.withFaults faults) ()
      (s.after sub (.writeMetrics batch now ingestedAt) faults) := Prod.ext hok rfl
  obtain ⟨written, v, hv, hret⟩ := returns_bind.mp hret
  obtain ⟨_, q, hq, hv⟩ := returns_bind.mp hv
  obtain ⟨-, rfl⟩ := returns_begin.mp hq
  have hwritten := (writeMetricRows_returns (returns_deferRollback.mp hv)).1
  have hdb : (s.after sub (.writeMetrics batch now ingestedAt) faults).db = v.db := by
    split at hret
    · rw [returns_modify.mp hret]
    · rw [(returns_pure.mp hret).2]
  rw [hdb]
  refine ⟨fun x hx => (hwritten.hasSeries _).mpr (Or.inr ⟨x, hx, rfl⟩),
    fun x hx => (hwritten.hasLayout _).mpr (Or.inr ⟨x, hx, rfl⟩), fun p hp => ?_, fun e he => ?_⟩
  · rw [hwritten.points]
    exact List.mem_append_right _ (List.mem_map_of_mem hp)
  · obtain ⟨p, hp, -⟩ := hbatch.exemplars e he
    rw [hwritten.exemplars, if_neg (by simpa using List.ne_nil_of_mem hp)]
    exact List.mem_append_right _ he

/-- The records of a log batch that is written are in the table. -/
theorem writeLogs_storedIn
    {s : Store V} {batch : LogBatch} {now : Time} {faults : List Bool}
    (hok : s.succeeds sub (.writeLogs batch now) faults) :
    (Op.writeLogs batch now : Op V).StoredIn (s.after sub (.writeLogs batch now) faults).db := by
  change (Op.writeLogs batch now : Op V).StoredIn (writeLogs batch now (s.withFaults faults)).2.db
  obtain ⟨p, rows, -, -, -, hdb, -, -, ⟨-, hnone⟩ | ⟨-, -, hall, -⟩⟩ :=
    writeLogs_cases batch now (s := s.withFaults faults) rfl
  · intro l hl
    rw [hnone hok] at hl
    cases hl
  · intro l hl
    subst hall
    rw [hdb]
    exact List.mem_append_right _ (List.mem_map_of_mem hl)

/-- Once a batch is written its rows are in the tables. -/
theorem StoreInv.storedIn
    {s : Store V} (h : StoreInv s) {op : Op V} (hop : op.Converted) {faults : List Bool}
    (hok : s.succeeds sub op faults) :
    op.StoredIn (s.after sub op faults).db := by
  cases op with
  | writeTraces => exact writeTraces_storedIn h hok
  | writeMetrics => exact writeMetrics_storedIn hop.1 hok
  | writeLogs => exact writeLogs_storedIn hok
  | sweep => trivial
  | rebuildAllTraceSummaries => trivial
  | clear => trivial

end Storage
end Otelop
