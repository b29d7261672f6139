import Mathlib.Tactic
import Otelop.Storage.Writer

/-!
# Sweeps, rebuilds and clears

`performSweep`, `deleteFactsBefore`, `pruneDimensions`, `enforceMaxSize` and `performClear` of
`internal/storage/storage.go`, and the two rebuilds of `internal/storage/trace_summary.go`.
Fact rows are deleted in one transaction; dimensions are pruned, and tables cleared, in
autocommit steps.

The size of the database is not a property of the tables, so the loop that enforces it takes the
answers of the size function as an argument.  A sweep may fail between any two of its
statements; `Between` collects what an invariant has to survive for a sweep to keep it wherever
it stops.

**Results.**
* `deleteFactRows_returns`: what a committed deletion did to every table.
* `rebuildAllRows_returns`: the same for the rebuild.
* `pruneDimensions_pruned`: which dimension rows any pruning leaves, however far it got.
* `performSweep_preserves`: what survives each step survives the sweep.
* `performClear_returns`: a successful clear leaves no row.
-/

namespace Otelop
namespace Storage

open Lib

variable {V : Type}

/-- `SELECT DISTINCT trace_id FROM spans` -/
def distinctTraceIDs (spans : List StoredSpan) : List String :=
  (spans.map StoredSpan.traceID).dedup

/-- The traces of a list of spans. -/
@[simp] theorem mem_distinctTraceIDs {spans : List StoredSpan} {id : String} :
    id ∈ distinctTraceIDs spans ↔ ∃ s ∈ spans, s.traceID = id := by
  simp [distinctTraceIDs]

section Model

variable (sub : Time → Time → Int)

def rebuildAffectedTraceSummaries : Writer V Unit := do
  Stmt.exec "storage: clear affected trace summaries" fun db =>
    { db with
      traceSummaries := db.traceSummaries.delete fun t => t.traceID ∈ db.affectedTraces }
  Stmt.stmt "storage: rebuild affected trace summaries" fun db =>
    (db.traceSummaries.insert?
      (rebuildTraceSummaries sub db.spans db.affectedTraces)).map
        fun t => ((), { db with traceSummaries := t })

/-- The body of the rebuild. -/
def rebuildAllRows : Writer V Unit := do
  Stmt.exec "storage: collect traces for summary rebuild" fun db =>
    { db with affectedTraces := distinctTraceIDs db.spans }
  Stmt.exec "storage: clear trace summaries for rebuild" fun db =>
    { db with traceSummaries := .empty }
  rebuildAffectedTraceSummaries sub
  Stmt.commit "storage: commit trace summary rebuild"

def rebuildAllTraceSummaries : Writer V Unit :=
  Stmt.transaction "storage: begin trace summary rebuild" id (rebuildAllRows sub)

/-- The spans a deletion up to `cutoff` takes. -/
def expiredSpans (cutoff : Time) (spans : List StoredSpan) : List StoredSpan :=
  spans.filter fun s => s.startTS < cutoff

/-- The body of `deleteFactsBefore`. -/
def deleteFactRows (cutoff : Time) : Writer V Nat := do
  Stmt.exec "storage: collect traces affected by sweep" fun db =>
    { db with affectedTraces := distinctTraceIDs (expiredSpans cutoff db.spans) }
  Stmt.exec "storage: sweep span links" fun db =>
    { db with
      spanLinks := db.spanLinks.filter fun l =>
        (l.sourceTraceID, l.sourceSpanID) ∉
          (expiredSpans cutoff db.spans).map StoredSpan.key }
  let spansDeleted ← Stmt.stmt "storage: sweep spans" fun db =>
    some ((expiredSpans cutoff db.spans).length,
      { db with spans := db.spans.filter fun s => ¬ s.startTS < cutoff })
  rebuildAffectedTraceSummaries sub
  Stmt.exec "storage: sweep metric_exemplars" fun db =>
    { db with
      metricExemplars := db.metricExemplars.filter fun e =>
        e.pointID ∉ (db.metricPoints.filter fun p => p.row.ts < cutoff).map
          fun p => p.row.id }
  let metricPointsDeleted ← Stmt.stmt "storage: sweep metric_points" fun db =>
    some ((db.metricPoints.filter fun p => p.row.ts < cutoff).length,
      { db with metricPoints := db.metricPoints.filter fun p => ¬ p.row.ts < cutoff })
  let logsDeleted ← Stmt.stmt "storage: sweep logs" fun db =>
    some ((db.logs.filter fun l => l.row.ts < cutoff).length,
      { db with logs := db.logs.filter fun l => ¬ l.row.ts < cutoff })
  Stmt.exec "storage: sweep dropped traces" fun db =>
    { db with droppedTraces := db.droppedTraces.delete fun d => d.lastSeen < cutoff }
  Stmt.commit "storage: commit fact deletion"
  pure (spansDeleted + metricPointsDeleted + logsDeleted)

/-- Delete every fact row before `cutoff` and every expired tombstone, and count
the deleted spans, points and logs. -/
def deleteFactsBefore (cutoff : Time) : Writer V Nat :=
  Stmt.transaction "storage: begin fact deletion" id (deleteFactRows sub cutoff)

/-- `DELETE FROM metric_series WHERE series_key NOT IN (...)` -/
def Db.pruneSeries (db : Db V) : Db V :=
  { db with
    metricSeries := db.metricSeries.delete fun x =>
      x.row.seriesKey ∉ db.metricPoints.map fun p => p.row.seriesKey }

/-- `DELETE FROM histogram_layouts WHERE layout_hash NOT IN (...)` -/
def Db.pruneLayouts (db : Db V) : Db V :=
  { db with
    histogramLayouts := db.histogramLayouts.delete fun x =>
      some x.layoutHash ∉ db.metricPoints.map fun p => p.row.histogramLayoutHash }

/-- `DELETE FROM resources WHERE resource_hash NOT IN (...) AND ...` -/
def Db.pruneResources (db : Db V) : Db V :=
  { db with
    resources := db.resources.delete fun r =>
      r.resourceHash ∉ db.spans.map StoredSpan.resourceHash ∧
      r.resourceHash ∉ db.logs.map (fun l => l.row.resourceHash) ∧
      r.resourceHash ∉ db.metricSeries.rows.map fun x => x.row.resourceHash }

/-- Delete the dimension rows nothing references, series first, then forget the
cached hashes. -/
def pruneDimensions : Writer V Unit := do
  Stmt.exec "storage: prune metric_series" Db.pruneSeries
  Stmt.exec "storage: prune histogram_layouts" Db.pruneLayouts
  Stmt.exec "storage: prune resources" Db.pruneResources
  Stmt.modify WriterMem.resetCache

/-- The writer's options a sweep reads.  `path` is empty for a database in
memory. -/
structure SweepOptions where
  path : String
  retention : Int
  maxSize : Int

def maxSizeSweepIterations : Nat := 60

/-- `24 * time.Hour` -/
def day : Int := 24 * 3_600_000_000_000

/-- The earliest timestamp of any fact row. -/
def oldestFactTimestamp : Writer V (Option Time) :=
  Stmt.query "storage: oldest fact timestamp" fun db =>
    ((db.spans.map StoredSpan.startTS) ++ (db.metricPoints.map fun p => p.row.ts) ++
      (db.logs.map fun l => l.row.ts)).min?

/-- The loop of `enforceMaxSize` with `n` iterations left; `sizeFn i` is the size
of the database file at iteration `i`. -/
def enforceMaxSizeFrom (opts : SweepOptions) (sizeFn : Nat → Except String Int) :
    Nat → Nat → Nat → Writer V (Nat × Nat)
  | 0, i, deletedRows => pure (deletedRows, i)
  | n + 1, i, deletedRows =>
      match sizeFn i with
      | .error _ => Stmt.throw "storage: stat database file"
      | .ok size =>
          if size ≤ opts.maxSize then pure (deletedRows, i)
          else do
            let oldest ← oldestFactTimestamp
            match oldest with
            | none => pure (deletedRows, i)
            | some oldest => do
                let deleted ← deleteFactsBefore sub (oldest + day)
                pruneDimensions
                Stmt.exec "storage: checkpoint" id
                enforceMaxSizeFrom opts sizeFn n (i + 1) (deletedRows + deleted)

/-- The rows deleted and the iterations performed. -/
def enforceMaxSize (opts : SweepOptions) (sizeFn : Nat → Except String Int) :
    Writer V (Nat × Nat) :=
  enforceMaxSizeFrom sub opts sizeFn maxSizeSweepIterations 0 0

/-- One retention and size pass; the result is the number of rows deleted and
the iterations of the size loop. -/
def performSweep (opts : SweepOptions) (now : Time) (sizeFn : Nat → Except String Int) :
    Writer V (Nat × Nat) := do
  let deleted ← deleteFactsBefore sub (now - opts.retention)
  pruneDimensions
  Stmt.exec "storage: checkpoint" id
  if opts.path = "" then pure (deleted, 0)
  else do
    let (maxSizeDeleted, iterations) ← enforceMaxSize sub opts sizeFn
    pure (deleted + maxSizeDeleted, iterations)

/-- Empty every table, each in a statement of its own. -/
def performClear : Writer V Unit := do
  Stmt.exec "storage: clear span_links" fun db => { db with spanLinks := [] }
  Stmt.exec "storage: clear spans" fun db => { db with spans := [] }
  Stmt.exec "storage: clear trace_summaries" fun db => { db with traceSummaries := .empty }
  Stmt.exec "storage: clear metric_exemplars" fun db => { db with metricExemplars := [] }
  Stmt.exec "storage: clear metric_points" fun db => { db with metricPoints := [] }
  Stmt.exec "storage: clear logs" fun db => { db with logs := [] }
  Stmt.exec "storage: clear metric_series" fun db => { db with metricSeries := .empty }
  Stmt.exec "storage: clear histogram_layouts" fun db =>
    { db with histogramLayouts := .empty }
  Stmt.exec "storage: clear resources" fun db => { db with resources := .empty }
  Stmt.exec "storage: clear dropped_traces" fun db => { db with droppedTraces := .empty }
  Stmt.exec "storage: checkpoint" id
  Stmt.modify WriterMem.resetCache

end Model

/-! ### What committed transactions did -/

/-- The summaries of the traces `affected` were replaced by a rebuild. -/
structure Rebuilt (sub : Time → Time → Int) (db db' : Db V) : Prop where
  mem : ∀ t, t ∈ db'.traceSummaries.rows ↔
    t ∈ db.traceSummaries.rows ∧ t.traceID ∉ db.affectedTraces ∨
      t ∈ rebuildTraceSummaries sub db.spans db.affectedTraces
  rest : db' = { db with traceSummaries := db'.traceSummaries }

/-- A committed deletion of the facts before `cutoff`. -/
structure FactsDeleted (sub : Time → Time → Int) (cutoff : Time) (db db' : Db V) :
    Prop where
  spans : db'.spans = db.spans.filter fun s => ¬ s.startTS < cutoff
  spanLinks : db'.spanLinks = db.spanLinks.filter fun l =>
    (l.sourceTraceID, l.sourceSpanID) ∉ (expiredSpans cutoff db.spans).map StoredSpan.key
  traceSummaries : ∀ t, t ∈ db'.traceSummaries.rows ↔
    t ∈ db.traceSummaries.rows ∧
        t.traceID ∉ distinctTraceIDs (expiredSpans cutoff db.spans) ∨
      t ∈ rebuildTraceSummaries sub db'.spans
        (distinctTraceIDs (expiredSpans cutoff db.spans))
  metricExemplars : db'.metricExemplars = db.metricExemplars.filter fun e =>
    e.pointID ∉ (db.metricPoints.filter fun p => p.row.ts < cutoff).map fun p => p.row.id
  metricPoints : db'.metricPoints = db.metricPoints.filter fun p => ¬ p.row.ts < cutoff
  logs : db'.logs = db.logs.filter fun l => ¬ l.row.ts < cutoff
  droppedTraces : db'.droppedTraces = db.droppedTraces.delete fun d => d.lastSeen < cutoff
  rest : db' =
    { db with
      spans := db'.spans
      spanLinks := db'.spanLinks
      traceSummaries := db'.traceSummaries
      metricExemplars := db'.metricExemplars
      metricPoints := db'.metricPoints
      logs := db'.logs
      droppedTraces := db'.droppedTraces
      affectedTraces := db'.affectedTraces }

section Returns

open Stmt Session

variable {sub : Time → Time → Int} {s s' : Session (Db V) (WriterMem V)}

/-- The rebuild of the affected summaries. -/
theorem rebuildAffectedTraceSummaries_returns
    {u : Unit} (h : Returns (rebuildAffectedTraceSummaries sub) s u s') :
    Rebuilt sub s.db s'.db ∧ TablesOnly s s' := by
  unfold rebuildAffectedTraceSummaries at h
  obtain ⟨_, t₁, h₁, h⟩ := returns_bind.mp h
  obtain ⟨-, rfl⟩ := returns_exec.mp h₁
  obtain ⟨-, db, hdb, rfl⟩ := returns_stmt.mp h
  obtain ⟨t, ht, heq⟩ := Option.map_eq_some_iff.mp hdb
  cases heq
  refine ⟨⟨?_, rfl⟩, rfl, rfl⟩
  intro row
  change row ∈ t.rows ↔ _
  rw [KeyedTable.rows_insert? ht, List.mem_append, KeyedTable.mem_delete,
    decide_eq_false_iff_not]

theorem rebuildAffectedTraceSummaries_tablesOnly :
    Stays TablesOnly (rebuildAffectedTraceSummaries (V := V) sub) :=
  stays_bind tablesOnly_frame tablesOnly_exec fun _ => tablesOnly_stmt

/-- The rebuild of all summaries. -/
theorem rebuildAllRows_returns
    {u : Unit} (h : Returns (rebuildAllRows sub) s u s') :
    (∀ t, t ∈ s'.db.traceSummaries.rows ↔
        t ∈ rebuildTraceSummaries sub s.db.spans (distinctTraceIDs s.db.spans)) ∧
      s'.db = { s.db with
        traceSummaries := s'.db.traceSummaries
        affectedTraces := s'.db.affectedTraces } ∧
      s'.saved = none ∧ s'.mem = s.mem := by
  simp only [rebuildAllRows, returns_bind] at h
  obtain ⟨_, t₁, h₁, _, t₂, h₂, _, t₃, h₃, h⟩ := h
  obtain ⟨-, rfl⟩ := returns_exec.mp h₁
  obtain ⟨-, rfl⟩ := returns_exec.mp h₂
  obtain ⟨hre, -, hmem⟩ := rebuildAffectedTraceSummaries_returns h₃
  obtain ⟨-, rfl⟩ := returns_commit.mp h
  refine ⟨?_, ?_, rfl, hmem⟩
  · intro t
    have := hre.mem t
    change t ∈ t₃.db.traceSummaries.rows ↔ _
    simpa using this
  · change t₃.db = { s.db with
      traceSummaries := t₃.db.traceSummaries
      affectedTraces := t₃.db.affectedTraces }
    rw [hre.rest]

theorem rebuildAllRows_errorStays :
    ErrorStays TablesOnly (rebuildAllRows (V := V) sub) := by
  have hF := tablesOnly_frame (D := Db V) (M := WriterMem V)
  refine errorStays_bind hF tablesOnly_exec fun _ => ?_
  refine errorStays_bind hF tablesOnly_exec fun _ => ?_
  refine errorStays_bind hF rebuildAffectedTraceSummaries_tablesOnly fun _ => ?_
  exact errorStays_commit fun _ => ⟨rfl, rfl⟩

/-- A deletion takes the facts before the cutoff, and counts them. -/
theorem deleteFactRows_returns
    {cutoff : Time} {n : Nat} (h : Returns (deleteFactRows sub cutoff) s n s') :
    FactsDeleted sub cutoff s.db s'.db ∧ s'.saved = none ∧ s'.mem = s.mem ∧
      n = (expiredSpans cutoff s.db.spans).length +
        (s.db.metricPoints.filter fun p => p.row.ts < cutoff).length +
        (s.db.logs.filter fun l => l.row.ts < cutoff).length := by
  simp only [deleteFactRows, returns_bind] at h
  obtain ⟨_, t₁, h₁, _, t₂, h₂, n₃, t₃, h₃, _, t₄, h₄, _, t₅, h₅, n₆, t₆, h₆, n₇, t₇, h₇,
    _, t₈, h₈, _, t₉, h₉, h⟩ := h
  obtain ⟨rfl, hu₃⟩ := updates_of_returns_stmt h₃
  obtain ⟨hre, -, hmem₄⟩ := rebuildAffectedTraceSummaries_returns h₄
  obtain ⟨rfl, hu₆⟩ := updates_of_returns_stmt h₆
  obtain ⟨rfl, hu₇⟩ := updates_of_returns_stmt h₇
  obtain ⟨-, rfl⟩ := returns_commit.mp h₉
  obtain ⟨rfl, rfl⟩ := returns_pure.mp h
  have hu₁ := updates_of_returns_exec h₁
  have hu₂ := updates_of_returns_exec h₂
  have hu₅ := updates_of_returns_exec h₅
  have hu₈ := updates_of_returns_exec h₈
  have hmem : t₈.mem = s.mem := by
    rw [hu₈.mem, hu₇.mem, hu₆.mem, hu₅.mem, hmem₄, hu₃.mem, hu₂.mem, hu₁.mem]
  -- the tables on both sides of the rebuild
  have hbefore : t₃.db =
      { s.db with
        affectedTraces := distinctTraceIDs (expiredSpans cutoff s.db.spans)
        spanLinks := s.db.spanLinks.filter fun l =>
          (l.sourceTraceID, l.sourceSpanID) ∉
            (expiredSpans cutoff s.db.spans).map StoredSpan.key
        spans := s.db.spans.filter fun s => ¬ s.startTS < cutoff } := by
    rw [hu₃.db, hu₂.db, hu₁.db]
  have hafter : t₈.db =
      { t₄.db with
        metricExemplars := t₄.db.metricExemplars.filter fun e =>
          e.pointID ∉ (t₄.db.metricPoints.filter fun p => p.row.ts < cutoff).map
            fun p => p.row.id
        metricPoints := t₄.db.metricPoints.filter fun p => ¬ p.row.ts < cutoff
        logs := t₄.db.logs.filter fun l => ¬ l.row.ts < cutoff
        droppedTraces := t₄.db.droppedTraces.delete fun d => d.lastSeen < cutoff } := by
    rw [hu₈.db, hu₇.db, hu₆.db, hu₅.db]
  have hspans₂ : t₂.db.spans = s.db.spans := by rw [hu₂.db, hu₁.db]
  have hmetrics : t₄.db.metricExemplars = s.db.metricExemplars ∧
      t₄.db.metricPoints = s.db.metricPoints ∧ t₄.db.logs = s.db.logs ∧
      t₄.db.droppedTraces = s.db.droppedTraces := by
    rw [hre.rest, hbefore]
    exact ⟨rfl, rfl, rfl, rfl⟩
  obtain ⟨hexemplars, hpoints, hlogs, hdropped⟩ := hmetrics
  have hspans : t₄.db.spans = s.db.spans.filter fun s => ¬ s.startTS < cutoff := by
    rw [hre.rest, hbefore]
  refine ⟨?_, rfl, hmem, ?_⟩
  · change FactsDeleted sub cutoff s.db t₈.db
    rw [hafter]
    refine ⟨hspans, ?_, ?_, ?_, ?_, ?_, ?_, ?_⟩
    · change t₄.db.spanLinks = _
      rw [hre.rest, hbefore]
    · intro t
      have := hre.mem t
      rw [hbefore] at this
      change t ∈ t₄.db.traceSummaries.rows ↔ _ ∨
        t ∈ rebuildTraceSummaries sub t₄.db.spans _
      rw [hspans]
      exact this
    · rw [← hexemplars, ← hpoints]
    · rw [← hpoints]
    · rw [← hlogs]
    · rw [← hdropped]
    · rw [hre.rest, hbefore]
  · have hpoints₅ : t₅.db.metricPoints = s.db.metricPoints := by
      rw [hu₅.db]
      exact hpoints
    have hlogs₆ : t₆.db.logs = s.db.logs := by
      rw [hu₆.db, hu₅.db]
      exact hlogs
    rw [hspans₂, hpoints₅, hlogs₆]

theorem deleteFactRows_errorStays (cutoff : Time) :
    ErrorStays TablesOnly (deleteFactRows (V := V) sub cutoff) := by
  have hF := tablesOnly_frame (D := Db V) (M := WriterMem V)
  refine errorStays_bind hF tablesOnly_exec fun _ => ?_
  refine errorStays_bind hF tablesOnly_exec fun _ => ?_
  refine errorStays_bind hF tablesOnly_stmt fun _ => ?_
  refine errorStays_bind hF rebuildAffectedTraceSummaries_tablesOnly fun _ => ?_
  refine errorStays_bind hF tablesOnly_exec fun _ => ?_
  refine errorStays_bind hF tablesOnly_stmt fun _ => ?_
  refine errorStays_bind hF tablesOnly_stmt fun _ => ?_
  refine errorStays_bind hF tablesOnly_exec fun _ => ?_
  exact errorStays_bind_pure (errorStays_commit fun _ => ⟨rfl, rfl⟩)

end Returns

/-! ### Pruning, sweeping and clearing -/

/-- Some row references the resource. -/
def Referenced (db : Db V) (hash : UInt64) : Prop :=
  (∃ s ∈ db.spans, s.resourceHash = hash) ∨
    (∃ l ∈ db.logs, l.row.resourceHash = hash) ∨
      ∃ x ∈ db.metricSeries.rows, x.row.resourceHash = hash

/-- A series stays while a point names it. -/
theorem mem_pruneSeries {db : Db V} {x : StoredSeries} :
    x ∈ db.pruneSeries.metricSeries.rows ↔ x ∈ db.metricSeries.rows ∧
      ∃ p ∈ db.metricPoints, p.row.seriesKey = x.row.seriesKey := by
  simp [Db.pruneSeries]

/-- A layout stays while a point names it. -/
theorem mem_pruneLayouts {db : Db V} {x : HistogramLayoutRow V} :
    x ∈ db.pruneLayouts.histogramLayouts.rows ↔ x ∈ db.histogramLayouts.rows ∧
      ∃ p ∈ db.metricPoints, p.row.histogramLayoutHash = some x.layoutHash := by
  simp [Db.pruneLayouts]

/-- A resource stays while a row names it. -/
theorem mem_pruneResources {db : Db V} {r : ResourceRow} :
    r ∈ db.pruneResources.resources.rows ↔
      r ∈ db.resources.rows ∧ Referenced db r.resourceHash := by
  unfold Db.pruneResources Referenced
  rw [KeyedTable.mem_delete, decide_eq_false_iff_not]
  simp only [List.mem_map, not_and_or, not_not]

/-- What a pruning leaves, however far it got: dimension rows may have gone, but
none that is referenced, and the cache was emptied when resources went. -/
structure Pruned (s s' : Session (Db V) (WriterMem V)) : Prop where
  rest : s'.db =
    { s.db with
      metricSeries := s'.db.metricSeries
      histogramLayouts := s'.db.histogramLayouts
      resources := s'.db.resources }
  series : ∀ x ∈ s'.db.metricSeries.rows, x ∈ s.db.metricSeries.rows
  usedSeries : ∀ x ∈ s.db.metricSeries.rows,
    (∃ p ∈ s.db.metricPoints, p.row.seriesKey = x.row.seriesKey) →
      x ∈ s'.db.metricSeries.rows
  usedLayouts : ∀ x ∈ s.db.histogramLayouts.rows,
    (∃ p ∈ s.db.metricPoints, p.row.histogramLayoutHash = some x.layoutHash) →
      x ∈ s'.db.histogramLayouts.rows
  usedResources : ∀ r ∈ s.db.resources.rows, Referenced s'.db r.resourceHash →
    r ∈ s'.db.resources.rows
  cache : s'.db.resources = s.db.resources ∧ s'.mem = s.mem ∨ s'.mem = s.mem.resetCache
  saved : s'.saved = s.saved

/-- However far a pruning gets, no referenced row goes. -/
theorem pruneDimensions_pruned (s : Session (Db V) (WriterMem V)) :
    Pruned s (pruneDimensions s).2 := by
  have hused₁ : ∀ x ∈ s.db.metricSeries.rows,
      (∃ p ∈ s.db.metricPoints, p.row.seriesKey = x.row.seriesKey) →
        x ∈ s.db.pruneSeries.metricSeries.rows :=
    fun x hx hp => mem_pruneSeries.mpr ⟨hx, hp⟩
  have hsub₁ : ∀ x ∈ s.db.pruneSeries.metricSeries.rows, x ∈ s.db.metricSeries.rows :=
    fun x hx => (mem_pruneSeries.mp hx).1
  have hused₂ : ∀ x ∈ s.db.histogramLayouts.rows,
      (∃ p ∈ s.db.metricPoints, p.row.histogramLayoutHash = some x.layoutHash) →
        x ∈ s.db.pruneSeries.pruneLayouts.histogramLayouts.rows :=
    fun x hx hp => mem_pruneLayouts.mpr ⟨hx, hp⟩
  unfold pruneDimensions
  rw [Stmt.bind_apply, Stmt.exec_apply]
  split_ifs
  · exact ⟨rfl, fun _ h => h, fun _ h _ => h, fun _ h _ => h, fun _ h _ => h,
      Or.inl ⟨rfl, rfl⟩, rfl⟩
  dsimp only
  rw [Stmt.bind_apply, Stmt.exec_apply]
  split_ifs
  · exact ⟨rfl, hsub₁, hused₁, fun _ h _ => h, fun _ h _ => h, Or.inl ⟨rfl, rfl⟩, rfl⟩
  dsimp only
  rw [Stmt.bind_apply, Stmt.exec_apply]
  split_ifs
  · exact ⟨rfl, hsub₁, hused₁, hused₂, fun _ h _ => h, Or.inl ⟨rfl, rfl⟩, rfl⟩
  · refine ⟨rfl, hsub₁, hused₁, hused₂, ?_, Or.inr rfl, rfl⟩
    intro r hr href
    exact mem_pruneResources.mpr ⟨hr, href⟩

/-- A pruning leaves an invariant that survives `Pruned`. -/
theorem pruneDimensions_preserves
    {I : Session (Db V) (WriterMem V) → Prop}
    (h : ∀ s s', I s → Pruned s s' → I s') :
    Stmt.Preserves I (pruneDimensions (V := V)) :=
  fun s hI => h s _ hI (pruneDimensions_pruned s)

section Preserves

open Stmt

variable {sub : Time → Time → Int} {I : Session (Db V) (WriterMem V) → Prop}

/-- The invariants below speak about the tables, the cache and the events: they
do not depend on the faults to come, and a transaction is not open. -/
structure Between (I : Session (Db V) (WriterMem V) → Prop) : Prop where
  saved : ∀ s, I s → s.saved = none
  congr : ∀ s t, I s → t.db = s.db → t.mem = s.mem → t.saved = none → I t

/-- A deletion preserves what deleting facts preserves. -/
theorem deleteFactsBefore_preserves
    (hI : Between I) (cutoff : Time)
    (h : ∀ s s', I s → FactsDeleted sub cutoff s.db s'.db → s'.saved = none →
      s'.mem = s.mem → I s') :
    Preserves I (deleteFactsBefore (V := V) sub cutoff) := by
  refine preserves_transaction (Q := fun m m' => m' = m) hI.saved
    (deleteFactRows_errorStays cutoff) ?_ ?_
  · intro s t hs hdb hsaved hmem
    refine hI.congr s t hs hdb ?_ hsaved
    rcases hmem with hmem | ⟨m, hm, hmem⟩
    · exact hmem
    · exact hmem.trans hm
  · intro s t n hs hr
    obtain ⟨hdel, hsaved, hmem, -⟩ := deleteFactRows_returns hr
    exact h s t hs hdel hsaved hmem

theorem rebuildAllTraceSummaries_preserves
    (hI : Between I)
    (h : ∀ s s', I s →
      (∀ t, t ∈ s'.db.traceSummaries.rows ↔
        t ∈ rebuildTraceSummaries sub s.db.spans (distinctTraceIDs s.db.spans)) →
      s'.db = { s.db with
        traceSummaries := s'.db.traceSummaries
        affectedTraces := s'.db.affectedTraces } →
      s'.saved = none → s'.mem = s.mem → I s') :
    Preserves I (rebuildAllTraceSummaries (V := V) sub) := by
  refine preserves_transaction (Q := fun m m' => m' = m) hI.saved
    rebuildAllRows_errorStays ?_ ?_
  · intro s t hs hdb hsaved hmem
    refine hI.congr s t hs hdb ?_ hsaved
    rcases hmem with hmem | ⟨m, hm, hmem⟩
    · exact hmem
    · exact hmem.trans hm
  · intro s t u hs hr
    obtain ⟨hmem, hrest, hsaved, hkeep⟩ := rebuildAllRows_returns hr
    exact h s t hs hmem hrest hsaved hkeep

theorem checkpoint_preserves (hI : Between I) :
    Preserves I (exec (D := Db V) (M := WriterMem V) "storage: checkpoint" id) := by
  refine stays_exec ?_ ?_
  · exact fun s hs => hI.congr s _ hs rfl rfl (hI.saved s hs)
  · exact fun s hs => hI.congr s _ hs rfl rfl (hI.saved s hs)

section Sweep

variable (hI : Between I)
  (hdelete : ∀ cutoff, Preserves I (deleteFactsBefore (V := V) sub cutoff))
  (hprune : Preserves I (pruneDimensions (V := V)))

include hI hdelete hprune

/-- The rounds of the size limit preserve what one round does. -/
theorem enforceMaxSizeFrom_preserves
    (opts : SweepOptions) (sizeFn : Nat → Except String Int) :
    ∀ n i deletedRows,
      Preserves I (enforceMaxSizeFrom (V := V) sub opts sizeFn n i deletedRows)
  | 0, _, _ => stays_pure (preserves_frame I) _
  | n + 1, i, deletedRows => by
      have hF := preserves_frame I
      unfold enforceMaxSizeFrom
      split
      · exact stays_throw hF _
      · split
        · exact stays_pure hF _
        · have holdest : Preserves I (oldestFactTimestamp (V := V)) :=
            stays_query fun s hs => hI.congr s _ hs rfl rfl (hI.saved s hs)
          refine stays_bind hF holdest fun oldest => ?_
          cases oldest with
          | none => exact stays_pure hF _
          | some t =>
              refine stays_bind hF (hdelete _) fun _ => ?_
              refine stays_bind hF hprune fun _ => ?_
              refine stays_bind hF (checkpoint_preserves hI) fun _ => ?_
              exact enforceMaxSizeFrom_preserves opts sizeFn n _ _

/-- A sweep preserves what deleting facts and pruning dimensions preserve. -/
theorem performSweep_preserves
    (opts : SweepOptions) (now : Time) (sizeFn : Nat → Except String Int) :
    Preserves I (performSweep (V := V) sub opts now sizeFn) := by
  have hF := preserves_frame I
  unfold performSweep
  refine stays_bind hF (hdelete _) fun _ => ?_
  refine stays_bind hF hprune fun _ => ?_
  refine stays_bind hF (checkpoint_preserves hI) fun _ => ?_
  split
  · exact stays_pure hF _
  · refine stays_bind hF ?_ fun _ => stays_pure hF _
    exact enforceMaxSizeFrom_preserves hI hdelete hprune opts sizeFn _ _ _

end Sweep

/-- A clear that did not fail leaves no row but the temporary ones. -/
theorem performClear_returns
    {s s' : Session (Db V) (WriterMem V)} {u : Unit}
    (h : Returns performClear s u s') :
    s'.db =
        { Db.empty V with
          affectedTraces := s.db.affectedTraces
          metricSeriesStaging := s.db.metricSeriesStaging
          histogramLayoutsStaging := s.db.histogramLayoutsStaging } ∧
      s'.saved = s.saved ∧ s'.mem = s.mem.resetCache := by
  simp only [performClear, returns_bind] at h
  obtain ⟨_, t₁, h₁, _, t₂, h₂, _, t₃, h₃, _, t₄, h₄, _, t₅, h₅, _, t₆, h₆, _, t₇, h₇,
    _, t₈, h₈, _, t₉, h₉, _, t₁₀, h₁₀, _, t₁₁, h₁₁, h⟩ := h
  obtain rfl := returns_modify.mp h
  have hfacts := ((((updates_of_returns_exec h₁).trans (updates_of_returns_exec h₂)).trans
    (updates_of_returns_exec h₃)).trans (updates_of_returns_exec h₄)).trans
    (updates_of_returns_exec h₅)
  have hrest := (((((updates_of_returns_exec h₆).trans
    (updates_of_returns_exec h₇)).trans (updates_of_returns_exec h₈)).trans
    (updates_of_returns_exec h₉)).trans (updates_of_returns_exec h₁₀)).trans
    (updates_of_returns_exec h₁₁)
  refine ⟨?_, hrest.saved.trans hfacts.saved, ?_⟩
  · change t₁₁.db = _
    rw [hrest.db, hfacts.db]
    rfl
  · change t₁₁.mem.resetCache = _
    rw [hrest.mem, hfacts.mem]

end Preserves

end Storage
end Otelop
