import Mathlib.Tactic
import Otelop.Storage.Writer

/-!
# Writing metrics and logs

`writeMetrics` and `writeLogs` of `internal/storage/storage.go`.  A metric batch
is written in one transaction, its resources included, and a rollback empties
the resource cache.  A log batch is written in autocommit steps: the appender of the logs is
closed on every path, which flushes the rows in front of one that it refused.

**Results.**
* `writeMetrics_cases`: a call leaves the tables alone, or wrote all of them.
* `writeLogs_cases`: a call adds resources and some first rows of its batch, all of them where
  it dispatches an event.
-/

namespace Otelop
namespace Storage

open Lib

variable {V : Type}

/-- `WHEN MATCHED THEN UPDATE SET description, last_seen` -/
def refreshSeries (target incoming : StoredSeries) : StoredSeries :=
  { target with
    row := { target.row with description := incoming.row.description }
    lastSeen := incoming.lastSeen }

def upsertSeries (rows : List MetricSeriesRow) (now : Time) : Writer V Unit :=
  if rows = [] then pure ()
  else do
    Stmt.exec "storage: clear metric series staging table" fun db =>
      { db with metricSeriesStaging := [] }
    Stmt.exec "storage: stage metric series" fun db =>
      { db with
        metricSeriesStaging :=
          db.metricSeriesStaging ++ rows.map fun r => ⟨r, now, now⟩ }
    Stmt.stmt "storage: merge metric series" fun db =>
      (db.metricSeries.merge? refreshSeries (fun _ _ => rfl)
        db.metricSeriesStaging).map fun t => ((), { db with metricSeries := t })

/-- The merge of layouts has no `WHEN MATCHED` branch. -/
def keepLayout (target _incoming : HistogramLayoutRow V) : HistogramLayoutRow V := target

def upsertHistogramLayouts (rows : List (HistogramLayoutRow V)) : Writer V Unit :=
  match rows with
  | [] => pure ()
  | rows => do
      Stmt.exec "storage: clear histogram layout staging table" fun db =>
        { db with histogramLayoutsStaging := [] }
      Stmt.exec "storage: stage histogram layouts" fun db =>
        { db with histogramLayoutsStaging := db.histogramLayoutsStaging ++ rows }
      Stmt.stmt "storage: merge histogram layouts" fun db =>
        (db.histogramLayouts.merge? keepLayout (fun _ _ => rfl)
          db.histogramLayoutsStaging).map fun t => ((), { db with histogramLayouts := t })

def appendMetricPoints (points : List (MetricPointRow V)) (ingestedAt : Time) :
    Writer V Unit :=
  Stmt.exec "append metric points failed" fun db =>
    { db with metricPoints := db.metricPoints ++ points.map fun p => ⟨p, ingestedAt⟩ }

def appendMetricExemplars (exemplars : List (MetricExemplarRow V)) : Writer V Unit :=
  if exemplars.isEmpty then pure ()
  else
    Stmt.exec "append metric points failed" fun db =>
      { db with metricExemplars := db.metricExemplars ++ exemplars }

/-- The body of the transaction; the result tells whether points were written. -/
def writeMetricRows (batch : MetricBatch V) (now ingestedAt : Time) : Writer V Bool := do
  upsertResources batch.resources
  upsertSeries batch.series now
  upsertHistogramLayouts batch.histogramLayouts
  if batch.points.isEmpty then do
    Stmt.commit "storage: commit metric dimensions failed"
    pure false
  else do
    appendMetricPoints batch.points ingestedAt
    appendMetricExemplars batch.exemplars
    Stmt.commit "storage: commit metric batch failed"
    pure true

/-- Write one batch: `now` and `ingestedAt` are the two readings of the clock. -/
def writeMetrics (batch : MetricBatch V) (now ingestedAt : Time) : Writer V Unit := do
  let written ← Stmt.transaction "storage: begin metrics transaction failed"
    WriterMem.resetCache (writeMetricRows batch now ingestedAt)
  if written then dispatchCommit (.metrics batch) else pure ()

/-- `AppendRow` of one log. -/
def appendLog (now : Time) (l : LogRow) : Writer V Unit :=
  Stmt.exec "append logs failed" fun db => { db with logs := db.logs ++ [⟨l, now⟩] }

/-- The rows one after the other, then `Flush`.  Where one fails the deferred `Close` has flushed
the rows in front of it; where `Close` fails as well, fewer of them are left, as if an earlier row
had failed. -/
def appendLogs (logs : List LogRow) (now : Time) : Writer V Unit := do
  Stmt.each (appendLog now) logs
  Stmt.exec "append logs failed" id

def writeLogs (batch : LogBatch) (now : Time) : Writer V Unit := do
  upsertResources batch.resources
  if batch.logs.isEmpty then pure ()
  else do
    appendLogs batch.logs now
    dispatchCommit (.logs batch)

/-! ### What a call does -/

/-- The series key has a row in `metric_series`. -/
def Db.hasSeries (db : Db V) (key : UInt64) : Prop :=
  ∃ x ∈ db.metricSeries.rows, x.row.seriesKey = key

/-- The layout hash has a row in `histogram_layouts`. -/
def Db.hasLayout (db : Db V) (hash : UInt64) : Prop :=
  ∃ x ∈ db.histogramLayouts.rows, x.layoutHash = hash

/-- `db` with the metric tables of `db'`. -/
def Db.withMetrics (db db' : Db V) : Db V :=
  { db with
    resources := db'.resources
    metricSeries := db'.metricSeries
    histogramLayouts := db'.histogramLayouts
    metricPoints := db'.metricPoints
    metricExemplars := db'.metricExemplars
    metricSeriesStaging := db'.metricSeriesStaging
    histogramLayoutsStaging := db'.histogramLayoutsStaging }

/-- A committed metric batch. -/
structure MetricsWritten (batch : MetricBatch V) (ingestedAt : Time)
    (db db' : Db V) : Prop where
  resources : ∀ hash, db.hasResource hash → db'.hasResource hash
  series : ∀ x ∈ db'.metricSeries.rows,
    (∃ y ∈ db.metricSeries.rows, y.row.resourceHash = x.row.resourceHash) ∨
      x.row ∈ batch.series
  hasSeries : ∀ key, db'.hasSeries key ↔
    db.hasSeries key ∨ ∃ r ∈ batch.series, r.seriesKey = key
  hasLayout : ∀ hash, db'.hasLayout hash ↔
    db.hasLayout hash ∨ ∃ r ∈ batch.histogramLayouts, r.layoutHash = hash
  points : db'.metricPoints =
    db.metricPoints ++ batch.points.map fun p => ⟨p, ingestedAt⟩
  exemplars : db'.metricExemplars =
    db.metricExemplars ++ if batch.points.isEmpty then [] else batch.exemplars
  rest : db' = db.withMetrics db'

section Calls

open Stmt Session

variable {s s' : Session (Db V) (WriterMem V)}

theorem upsertSeries_returns
    {rows : List MetricSeriesRow} {now : Time} {u : Unit}
    (h : Returns (upsertSeries rows now) s u s') :
    (∀ x ∈ s'.db.metricSeries.rows,
        (∃ y ∈ s.db.metricSeries.rows, y.row.resourceHash = x.row.resourceHash) ∨
          x.row ∈ rows) ∧
      (∀ key, s'.db.hasSeries key ↔
        s.db.hasSeries key ∨ ∃ r ∈ rows, r.seriesKey = key) ∧
      s'.db = { s.db with
        metricSeries := s'.db.metricSeries
        metricSeriesStaging := s'.db.metricSeriesStaging } ∧
      TablesOnly s s' := by
  unfold upsertSeries at h
  split at h
  · rename_i hnil
    obtain ⟨-, rfl⟩ := returns_pure.mp h
    refine ⟨fun x hx => Or.inl ⟨x, hx, rfl⟩, ?_, rfl, rfl, rfl⟩
    simp [hnil]
  · obtain ⟨_, t₁, h₁, h⟩ := returns_bind.mp h
    obtain ⟨_, t₂, h₂, h⟩ := returns_bind.mp h
    obtain ⟨-, rfl⟩ := returns_exec.mp h₁
    obtain ⟨-, rfl⟩ := returns_exec.mp h₂
    obtain ⟨-, db, hdb, rfl⟩ := returns_stmt.mp h
    obtain ⟨t, ht, heq⟩ := Option.map_eq_some_iff.mp hdb
    cases heq
    refine ⟨?_, ?_, rfl, rfl, rfl⟩
    · intro x hx
      rcases KeyedTable.mem_of_merge? ht hx with ⟨y, hy, rfl | ⟨i, -, rfl⟩⟩ | hx
      · exact Or.inl ⟨_, hy, rfl⟩
      · exact Or.inl ⟨y, hy, rfl⟩
      · rw [List.nil_append] at hx
        obtain ⟨r, hr, rfl⟩ := List.mem_map.mp hx
        exact Or.inr hr
    · intro key
      have := KeyedTable.exists_key_merge? ht (k := key)
      rw [List.nil_append] at this
      simpa [Db.hasSeries] using this

theorem upsertHistogramLayouts_returns
    {rows : List (HistogramLayoutRow V)} {u : Unit}
    (h : Returns (upsertHistogramLayouts rows) s u s') :
    (∀ hash, s'.db.hasLayout hash ↔
        s.db.hasLayout hash ∨ ∃ r ∈ rows, r.layoutHash = hash) ∧
      s'.db = { s.db with
        histogramLayouts := s'.db.histogramLayouts
        histogramLayoutsStaging := s'.db.histogramLayoutsStaging } ∧
      TablesOnly s s' := by
  unfold upsertHistogramLayouts at h
  split at h
  · obtain ⟨-, rfl⟩ := returns_pure.mp h
    exact ⟨by simp, rfl, rfl, rfl⟩
  · obtain ⟨_, t₁, h₁, h⟩ := returns_bind.mp h
    obtain ⟨_, t₂, h₂, h⟩ := returns_bind.mp h
    obtain ⟨-, rfl⟩ := returns_exec.mp h₁
    obtain ⟨-, rfl⟩ := returns_exec.mp h₂
    obtain ⟨-, db, hdb, rfl⟩ := returns_stmt.mp h
    obtain ⟨t, ht, heq⟩ := Option.map_eq_some_iff.mp hdb
    cases heq
    refine ⟨?_, rfl, rfl, rfl⟩
    intro hash
    have := KeyedTable.exists_key_merge? ht (k := hash)
    rwa [List.nil_append] at this

/-- What the body of the transaction may do before its commit. -/
def SameDispatched (s t : Session (Db V) (WriterMem V)) : Prop :=
  t.saved = s.saved ∧ t.mem.dispatched = s.mem.dispatched

theorem sameDispatched_frame : Frame (SameDispatched (V := V)) where
  refl := fun _ => ⟨rfl, rfl⟩
  trans := fun h h' => ⟨h'.1.trans h.1, h'.2.trans h.2⟩

theorem TablesOnly.sameDispatched
    {α : Type} {m : Writer V α} (h : Stays TablesOnly m) : Stays SameDispatched m :=
  fun s => ⟨(h s).1, congrArg WriterMem.dispatched (h s).2⟩

theorem upsertSeries_tablesOnly (rows : List MetricSeriesRow) (now : Time) :
    Stays TablesOnly (upsertSeries (V := V) rows now) := by
  have hF := tablesOnly_frame (D := Db V) (M := WriterMem V)
  unfold upsertSeries
  split
  · exact stays_pure hF _
  · exact stays_bind hF tablesOnly_exec fun _ =>
      stays_bind hF tablesOnly_exec fun _ => tablesOnly_stmt

theorem upsertHistogramLayouts_tablesOnly (rows : List (HistogramLayoutRow V)) :
    Stays TablesOnly (upsertHistogramLayouts rows) := by
  have hF := tablesOnly_frame (D := Db V) (M := WriterMem V)
  unfold upsertHistogramLayouts
  split
  · exact stays_pure hF _
  · exact stays_bind hF tablesOnly_exec fun _ =>
      stays_bind hF tablesOnly_exec fun _ => tablesOnly_stmt

theorem appendMetricExemplars_tablesOnly (exemplars : List (MetricExemplarRow V)) :
    Stays TablesOnly (appendMetricExemplars exemplars) := by
  unfold appendMetricExemplars
  split
  · exact stays_pure tablesOnly_frame _
  · exact tablesOnly_exec

theorem writeMetricRows_errorStays (batch : MetricBatch V) (now ingestedAt : Time) :
    ErrorStays SameDispatched (writeMetricRows batch now ingestedAt) := by
  have hF := sameDispatched_frame (V := V)
  have hcommit : ∀ (what : String) (b : Bool), ErrorStays SameDispatched
      (commit (D := Db V) (M := WriterMem V) what >>= fun _ => pure b) := by
    intro what b
    exact errorStays_bind_pure (errorStays_commit fun _ => ⟨rfl, rfl⟩)
  have hresources : Stays SameDispatched (upsertResources (V := V) batch.resources) :=
    fun s => ⟨(upsertResources_grow batch.resources s).saved,
      (upsertResources_grow batch.resources s).dispatched⟩
  unfold writeMetricRows
  refine errorStays_bind hF hresources fun _ => ?_
  refine errorStays_bind hF (TablesOnly.sameDispatched (upsertSeries_tablesOnly _ _))
    fun _ => ?_
  refine errorStays_bind hF
    (TablesOnly.sameDispatched (upsertHistogramLayouts_tablesOnly _)) fun _ => ?_
  split
  · exact hcommit _ _
  · refine errorStays_bind hF (TablesOnly.sameDispatched tablesOnly_exec) fun _ => ?_
    refine errorStays_bind hF
      (TablesOnly.sameDispatched (appendMetricExemplars_tablesOnly _)) fun _ => ?_
    exact hcommit _ _

/-- The rows of a batch are appended, or none of them. -/
theorem appendMetricExemplars_returns
    {exemplars : List (MetricExemplarRow V)} {u : Unit}
    (h : Returns (appendMetricExemplars exemplars) s u s') :
    s.Updates (fun db =>
      { db with metricExemplars := db.metricExemplars ++ exemplars }) s' := by
  unfold appendMetricExemplars at h
  split at h
  · rename_i hnil
    obtain ⟨-, rfl⟩ := returns_pure.mp h
    rw [List.isEmpty_iff.mp hnil]
    exact ⟨by simp, rfl, rfl⟩
  · exact updates_of_returns_exec h

/-- The three upserts in front of the points. -/
theorem metricDimensions_written
    {batch : MetricBatch V} {now : Time} (ingestedAt : Time)
    {t₁ t₂ t₃ : Session (Db V) (WriterMem V)} {u₁ u₂ u₃ : Unit}
    (h₁ : Returns (upsertResources batch.resources) s u₁ t₁)
    (h₂ : Returns (upsertSeries batch.series now) t₁ u₂ t₂)
    (h₃ : Returns (upsertHistogramLayouts batch.histogramLayouts) t₂ u₃ t₃) :
    MetricsWritten { batch with points := [], exemplars := [] } ingestedAt s.db t₃.db := by
  have hgrow := (upsertResources_grow batch.resources).returns h₁
  obtain ⟨hseries, hkeys, hrest₂, -⟩ := upsertSeries_returns h₂
  obtain ⟨hlayouts, hrest₃, -⟩ := upsertHistogramLayouts_returns h₃
  have hres : t₃.db.resources = t₁.db.resources := by rw [hrest₃, hrest₂]
  have hser₁ : t₁.db.metricSeries = s.db.metricSeries := by rw [hgrow.rest]
  have hser₃ : t₃.db.metricSeries = t₂.db.metricSeries := by rw [hrest₃]
  have hlay₂ : t₂.db.histogramLayouts = s.db.histogramLayouts := by
    rw [hrest₂, hgrow.rest]
  refine ⟨?_, ?_, ?_, ?_, ?_, ?_, ?_⟩
  · intro k hk
    obtain ⟨r, hr, hrk⟩ := hgrow.keep k hk
    exact ⟨r, hres ▸ hr, hrk⟩
  · rw [hser₃, ← hser₁]
    exact hseries
  · intro key
    have := hkeys key
    rwa [Db.hasSeries, Db.hasSeries, hser₁, ← hser₃] at this
  · intro hash
    have := hlayouts hash
    rwa [Db.hasLayout, Db.hasLayout, hlay₂] at this
  · rw [hrest₃, hrest₂, hgrow.rest]
    simp
  · rw [hrest₃, hrest₂, hgrow.rest]
    simp
  · rw [hrest₃, hrest₂, hgrow.rest]
    rfl

theorem writeMetricRows_returns
    {batch : MetricBatch V} {now ingestedAt : Time} {b : Bool}
    (h : Returns (writeMetricRows batch now ingestedAt) s b s') :
    MetricsWritten batch ingestedAt s.db s'.db ∧
      (CacheSound s →
        (∀ r ∈ batch.resources, s'.db.hasResource r.resourceHash) ∧ CacheSound s') ∧
      b = !batch.points.isEmpty ∧ s'.saved = none ∧
      s'.mem.dispatched = s.mem.dispatched := by
  unfold writeMetricRows at h
  obtain ⟨_, t₁, h₁, h⟩ := returns_bind.mp h
  obtain ⟨_, t₂, h₂, h⟩ := returns_bind.mp h
  obtain ⟨_, t₃, h₃, h⟩ := returns_bind.mp h
  have hgrow := (upsertResources_grow batch.resources).returns h₁
  have hdims := metricDimensions_written ingestedAt h₁ h₂ h₃
  obtain ⟨-, -, hrest₂, -, hmem₂⟩ := upsertSeries_returns h₂
  obtain ⟨-, hrest₃, -, hmem₃⟩ := upsertHistogramLayouts_returns h₃
  have hres : t₃.db.resources = t₁.db.resources := by rw [hrest₃, hrest₂]
  have hmem : t₃.mem = t₁.mem := hmem₃.trans hmem₂
  have hout : ∀ s'' : Session (Db V) (WriterMem V), s''.mem = t₃.mem →
      s''.db.resources = t₃.db.resources →
      (CacheSound s →
        (∀ r ∈ batch.resources, s''.db.hasResource r.resourceHash) ∧ CacheSound s'') ∧
        s''.mem.dispatched = s.mem.dispatched := by
    intro s'' hm hr
    have hhas : ∀ k, t₁.db.hasResource k → s''.db.hasResource k := by
      rintro k ⟨r, hmemr, hk⟩
      exact ⟨r, by rwa [hr, hres], hk⟩
    refine ⟨fun hs => ⟨fun r hr => hhas _ (upsertResources_hasResource hs h₁ r hr), ?_⟩, ?_⟩
    · intro k hk
      rw [hm, hmem] at hk
      exact hhas k (hgrow.cacheSound hs k hk)
    · rw [hm, hmem]
      exact hgrow.dispatched
  split at h
  · rename_i hnil
    obtain ⟨_, t₄, h₄, h⟩ := returns_bind.mp h
    obtain ⟨-, rfl⟩ := returns_commit.mp h₄
    obtain ⟨rfl, rfl⟩ := returns_pure.mp h
    obtain ⟨hc, hd⟩ := hout { t₃.tick with saved := none } rfl rfl
    refine ⟨⟨hdims.resources, hdims.series, hdims.hasSeries, hdims.hasLayout, ?_, ?_,
      hdims.rest⟩, hc, by simp [hnil], rfl, hd⟩
    · rw [List.isEmpty_iff.mp hnil]
      exact hdims.points
    · rw [if_pos hnil]
      exact hdims.exemplars
  · rename_i hnil
    obtain ⟨_, t₄, h₄, h⟩ := returns_bind.mp h
    obtain ⟨_, t₅, h₅, h⟩ := returns_bind.mp h
    obtain ⟨_, t₆, h₆, h⟩ := returns_bind.mp h
    obtain ⟨-, rfl⟩ := returns_commit.mp h₆
    obtain ⟨rfl, rfl⟩ := returns_pure.mp h
    have hu := (updates_of_returns_exec h₄).trans (appendMetricExemplars_returns h₅)
    have hdb : t₅.db =
        { t₃.db with
          metricPoints := t₃.db.metricPoints ++ batch.points.map fun p => ⟨p, ingestedAt⟩
          metricExemplars := t₃.db.metricExemplars ++ batch.exemplars } := hu.db
    obtain ⟨hc, hd⟩ := hout { t₅.tick with saved := none } hu.mem
      (by change t₅.db.resources = _; rw [hdb])
    refine ⟨?_, hc, by simp [hnil], rfl, hd⟩
    change MetricsWritten batch ingestedAt s.db t₅.db
    rw [hdb]
    refine ⟨hdims.resources, hdims.series, hdims.hasSeries, hdims.hasLayout, ?_, ?_, ?_⟩
    · rw [hdims.points]
      simp
    · rw [hdims.exemplars, if_neg hnil]
      simp
    · rw [hdims.rest]
      rfl

/-- What a call may have done: the transaction failed, which leaves the tables
alone and may empty the cache, or it committed. -/
theorem writeMetrics_cases
    (batch : MetricBatch V) (now ingestedAt : Time) {s s' : Session (Db V) (WriterMem V)}
    (hs : s.saved = none)
    (hs' : s' = (writeMetrics batch now ingestedAt s).2) :
    s'.saved = none ∧
      (s'.db = s.db ∧ s'.mem.dispatched = s.mem.dispatched ∧
          (∀ k ∈ s'.mem.resourceCache.items, k ∈ s.mem.resourceCache.items) ∨
        MetricsWritten batch ingestedAt s.db s'.db ∧
          (CacheSound s →
            (∀ r ∈ batch.resources, s'.db.hasResource r.resourceHash) ∧
              CacheSound s') ∧
          s'.mem.dispatched = s.mem.dispatched ++
            if batch.points.isEmpty then [] else [.metrics batch]) := by
  subst hs'
  unfold writeMetrics
  rw [bind_apply]
  rcases htx : transaction "storage: begin metrics transaction failed"
    WriterMem.resetCache (writeMetricRows batch now ingestedAt) s with ⟨_ | written, t⟩
  · obtain ⟨hdb, hnone, hmem⟩ := transaction_error
      (Q := fun m m' => m'.dispatched = m.dispatched)
      (writeMetricRows_errorStays batch now ingestedAt) hs htx
    refine ⟨hnone, Or.inl ⟨hdb, ?_⟩⟩
    dsimp only
    rcases hmem with hmem | ⟨m, hm, hmem⟩ <;> rw [hmem]
    · exact ⟨rfl, fun _ h => h⟩
    · exact ⟨hm, by simp⟩
  · obtain ⟨_, q, hb, hq⟩ := returns_bind.mp htx
    obtain ⟨-, rfl⟩ := returns_begin.mp hb
    obtain ⟨hw, hc, rfl, hnone, hd⟩ := writeMetricRows_returns (returns_deferRollback.mp hq)
    cases hp : batch.points.isEmpty with
    | true =>
        refine ⟨hnone, Or.inr ⟨hw, hc, ?_⟩⟩
        rw [if_pos rfl, List.append_nil]
        exact hd
    | false =>
        refine ⟨hnone, Or.inr ⟨hw, hc, ?_⟩⟩
        change t.mem.dispatched ++ _ = _
        rw [hd]
        rfl

/-- An append adds some first rows, all of them where it returns. -/
theorem appendLogs_prefix (logs : List LogRow) (now : Time) (s : Session (Db V) (WriterMem V)) :
    ∃ rows, rows <+: logs ∧
      s.Updates (fun db => { db with logs := db.logs ++ rows.map fun l => ⟨l, now⟩ })
        (appendLogs logs now s).2 ∧
      ((appendLogs logs now s).1 = .ok () → rows = logs) := by
  obtain ⟨rows, hprefix, hupdates, hall⟩ := each_exec_prefix (fun _ => "append logs failed")
    (fun l (db : Db V) => { db with logs := db.logs ++ [⟨l, now⟩] }) logs s
  have hfold : ∀ (rows : List LogRow) (db : Db V),
      rows.foldl (fun db l => { db with logs := db.logs ++ [⟨l, now⟩] }) db =
        { db with logs := db.logs ++ rows.map fun l => ⟨l, now⟩ } := by
    intro rows
    induction rows with
    | nil => simp
    | cons l rows ih =>
        intro db
        rw [List.foldl_cons, ih]
        simp
  simp only [hfold] at hupdates
  change s.Updates _ (each (appendLog now) logs s).2 at hupdates
  change (each (appendLog now) logs s).1 = .ok () → rows = logs at hall
  refine ⟨rows, hprefix, ?_⟩
  rw [appendLogs, bind_apply]
  rcases heach : each (appendLog now) logs s with ⟨_ | u, t⟩ <;> rw [heach] at hupdates hall
  · exact ⟨hupdates, nofun⟩
  · dsimp only
    rw [exec_apply]
    split
    · exact ⟨⟨hupdates.db, hupdates.saved, hupdates.mem⟩, nofun⟩
    · exact ⟨⟨hupdates.db, hupdates.saved, hupdates.mem⟩, fun _ => hall rfl⟩

/-- What a call may have done: it added resources, and then some first logs of the batch.  It
dispatches its event exactly when it returns no error and has logs to write, and then all of them
are there. -/
theorem writeLogs_cases
    (batch : LogBatch) (now : Time) {s s' : Session (Db V) (WriterMem V)}
    (hs' : s' = (writeLogs batch now s).2) :
    ∃ p rows, ResourcesGrow s p ∧ s'.saved = s.saved ∧
      s'.mem.resourceCache = p.mem.resourceCache ∧
      s'.db = { p.db with logs := p.db.logs ++ rows.map fun l => ⟨l, now⟩ } ∧
      rows <+: batch.logs ∧
      (rows ≠ [] → CacheSound s → ∀ r ∈ batch.resources, p.db.hasResource r.resourceHash) ∧
      (s'.mem.dispatched = s.mem.dispatched ∧
          ((writeLogs batch now s).1 = .ok () → batch.logs = []) ∨
        s'.mem.dispatched = s.mem.dispatched ++ [.logs batch] ∧
          (writeLogs batch now s).1 = .ok () ∧ rows = batch.logs ∧ batch.logs ≠ []) := by
  subst hs'
  unfold writeLogs
  rw [bind_apply]
  have hgrow := upsertResources_grow batch.resources s
  rcases hup : upsertResources batch.resources s with ⟨_ | _, t⟩ <;> rw [hup] at hgrow
  · exact ⟨t, [], hgrow, hgrow.saved, rfl, by simp, List.nil_prefix, fun h => absurd rfl h,
      Or.inl ⟨hgrow.dispatched, nofun⟩⟩
  · dsimp only
    split
    · rename_i hnil
      exact ⟨t, [], hgrow, hgrow.saved, rfl, by simp [pure], List.nil_prefix,
        fun h => absurd rfl h, Or.inl ⟨hgrow.dispatched, fun _ => List.isEmpty_iff.mp hnil⟩⟩
    · rename_i hlogs
      obtain ⟨rows, hprefix, hupdates, hall⟩ := appendLogs_prefix batch.logs now t
      have hresources : rows ≠ [] → CacheSound s →
          ∀ r ∈ batch.resources, t.db.hasResource r.resourceHash :=
        fun _ hsound r hr => upsertResources_hasResource hsound hup r hr
      rw [bind_apply]
      rcases happ : appendLogs batch.logs now t with ⟨_ | _, u⟩ <;> rw [happ] at hupdates hall
      · exact ⟨t, rows, hgrow, hupdates.saved.trans hgrow.saved,
          congrArg WriterMem.resourceCache hupdates.mem, hupdates.db, hprefix, hresources,
          Or.inl ⟨(congrArg WriterMem.dispatched hupdates.mem).trans hgrow.dispatched, nofun⟩⟩
      · have hmem : u.mem = t.mem := hupdates.mem
        have hcache : u.mem.resourceCache = t.mem.resourceCache := by rw [hmem]
        refine ⟨t, rows, hgrow, hupdates.saved.trans hgrow.saved, hcache, hupdates.db, hprefix,
          hresources, Or.inr ⟨?_, rfl, hall rfl, fun h => hlogs (List.isEmpty_iff.mpr h)⟩⟩
        change u.mem.dispatched ++ _ = _
        rw [hmem]
        exact congrArg (· ++ _) hgrow.dispatched

end Calls

end Storage
end Otelop
