import Mathlib.Tactic
import Otelop.Storage.TraceInvariant

/-!
# References between the tables, and the resource cache

The schema declares no foreign keys.  `RefInv` states the references the queries join over, and
`CacheSound` that a hash held by the resource cache, which suppresses inserts, has a row.

A batch has to bring the rows it refers to, and the conversions of a payload see to that
(`Closed`).  An operation keeps the references because it writes what is referred to before what
refers to it, and because pruning deletes only what nothing refers to; wherever it fails, what
it did before does no harm.  An operation that deletes resources resets the cache.

**Results.**
* `refInvariant`: every operation keeps both, if its batch contains the rows it refers to.
* `references_sound`: both hold in every reachable state.
-/

namespace Otelop
namespace Storage

open Lib

variable {V : Type}

/-- The references between facts and dimensions. -/
structure RefInv (db : Db V) : Prop where
  spans : ∀ sp ∈ db.spans, db.hasResource sp.resourceHash
  logs : ∀ l ∈ db.logs, db.hasResource l.row.resourceHash
  series : ∀ x ∈ db.metricSeries.rows, db.hasResource x.row.resourceHash
  points : ∀ p ∈ db.metricPoints, db.hasSeries p.row.seriesKey
  layouts : ∀ p ∈ db.metricPoints, ∀ hash,
    p.row.histogramLayoutHash = some hash → db.hasLayout hash
  exemplars : ∀ e ∈ db.metricExemplars, ∃ p ∈ db.metricPoints, p.row.id = e.pointID

/-- Every resource a span of the batch names is in the batch. -/
def TraceBatch.Closed (batch : TraceBatch) : Prop :=
  ∀ sp ∈ batch.spans, ∃ r ∈ batch.resources, r.resourceHash = sp.resourceHash

def LogBatch.Closed (batch : LogBatch) : Prop :=
  ∀ l ∈ batch.logs, ∃ r ∈ batch.resources, r.resourceHash = l.resourceHash

/-- Every resource, series, layout and point a row of the batch names is in the
batch. -/
structure MetricBatch.Closed (batch : MetricBatch V) : Prop where
  series : ∀ x ∈ batch.series, ∃ r ∈ batch.resources, r.resourceHash = x.resourceHash
  points : ∀ p ∈ batch.points, ∃ x ∈ batch.series, x.seriesKey = p.seriesKey
  layouts : ∀ p ∈ batch.points, ∀ hash, p.histogramLayoutHash = some hash →
    ∃ x ∈ batch.histogramLayouts, x.layoutHash = hash
  exemplars : ∀ e ∈ batch.exemplars, ∃ p ∈ batch.points, p.id = e.pointID

/-- The batch of an operation is closed under references. -/
def Op.Closed : Op V → Prop
  | .writeTraces batch _ _ => batch.Closed
  | .writeMetrics batch _ _ => batch.Closed
  | .writeLogs batch _ => batch.Closed
  | .sweep _ _ _ => True
  | .rebuildAllTraceSummaries => True
  | .clear => True

namespace RefInv

variable {db db' : Db V}

theorem empty : RefInv (Db.empty V) where
  spans := fun _ h => by cases h
  logs := fun _ h => by cases h
  series := fun _ h => by cases h
  points := fun _ h => by cases h
  layouts := fun _ h => by cases h
  exemplars := fun _ h => by cases h

/-- Facts may go and spans may come, as long as the dimensions stay. -/
theorem of_sameDimensions
    (h : RefInv db)
    (hresources : ∀ hash, db.hasResource hash → db'.hasResource hash)
    (hseries : db'.metricSeries = db.metricSeries)
    (hlayouts : db'.histogramLayouts = db.histogramLayouts)
    (hspans : ∀ sp ∈ db'.spans, sp ∈ db.spans ∨ db'.hasResource sp.resourceHash)
    (hlogs : ∀ l ∈ db'.logs, l ∈ db.logs ∨ db'.hasResource l.row.resourceHash)
    (hpoints : ∀ p ∈ db'.metricPoints, p ∈ db.metricPoints)
    (hexemplars : ∀ e ∈ db'.metricExemplars, e ∈ db.metricExemplars ∧
      ∀ p ∈ db.metricPoints, p.row.id = e.pointID → p ∈ db'.metricPoints) :
    RefInv db' where
  spans := by
    intro sp hsp
    rcases hspans sp hsp with hsp | hsp
    · exact hresources _ (h.spans sp hsp)
    · exact hsp
  logs := by
    intro l hl
    rcases hlogs l hl with hl | hl
    · exact hresources _ (h.logs l hl)
    · exact hl
  series := by
    intro x hx
    rw [hseries] at hx
    exact hresources _ (h.series x hx)
  points := by
    intro p hp
    have := h.points p (hpoints p hp)
    rwa [Db.hasSeries, ← hseries] at this
  layouts := by
    intro p hp hash hhash
    have := h.layouts p (hpoints p hp) hash hhash
    rwa [Db.hasLayout, ← hlayouts] at this
  exemplars := by
    intro e he
    obtain ⟨hold, hstay⟩ := hexemplars e he
    obtain ⟨p, hp, hid⟩ := h.exemplars e hold
    exact ⟨p, hstay p hp hid, hid⟩

/-- Only the resources and the trace tables changed. -/
theorem prepared
    {s p : Store V} (h : RefInv s.db) (hp : Prepared s p) :
    RefInv p.db := by
  refine h.of_sameDimensions hp.keep ?_ ?_ ?_ ?_ ?_ ?_ <;> rw [hp.rest]
  · exact fun _ hs => Or.inl hs
  · exact fun _ hl => Or.inl hl
  · exact fun _ hp => hp
  · exact fun e he => ⟨he, fun _ hp _ => hp⟩

theorem wrote
    (h : RefInv db)
    {inserted : List SpanRow} {dropped : List String} {now : Time}
    (hw : Wrote inserted dropped now db db')
    (hinserted : ∀ r ∈ inserted, db.hasResource r.resourceHash) :
    RefInv db' := by
  have hres : ∀ hash, db.hasResource hash → db'.hasResource hash := by
    intro hash hh
    rw [hw.rest]
    exact hh
  refine h.of_sameDimensions hres ?_ ?_ ?_ ?_ ?_ ?_
  · rw [hw.rest]
    rfl
  · rw [hw.rest]
    rfl
  · intro sp hsp
    rw [hw.spans, List.mem_filter, List.mem_append, List.mem_map] at hsp
    rcases hsp.1 with hsp | ⟨r, hr, rfl⟩
    · exact Or.inl hsp
    · exact Or.inr (hres _ (hinserted r hr))
  · rw [hw.rest]
    exact fun _ hl => Or.inl hl
  · rw [hw.rest]
    exact fun _ hp => hp
  · rw [hw.rest]
    exact fun e he => ⟨he, fun _ hp _ => hp⟩

theorem metricsWritten
    (h : RefInv db)
    {batch : MetricBatch V} (hclosed : batch.Closed) {ingestedAt : Time}
    (hw : MetricsWritten batch ingestedAt db db')
    (hresources : ∀ r ∈ batch.resources, db'.hasResource r.resourceHash) :
    RefInv db' where
  spans := by
    intro sp hsp
    rw [hw.rest] at hsp
    exact hw.resources _ (h.spans sp hsp)
  logs := by
    intro l hl
    rw [hw.rest] at hl
    exact hw.resources _ (h.logs l hl)
  series := by
    intro x hx
    rcases hw.series x hx with ⟨y, hy, hhash⟩ | hx
    · rw [← hhash]
      exact hw.resources _ (h.series y hy)
    · obtain ⟨r, hr, hhash⟩ := hclosed.series _ hx
      rw [← hhash]
      exact hresources r hr
  points := by
    intro p hp
    rw [hw.points, List.mem_append, List.mem_map] at hp
    rw [hw.hasSeries]
    rcases hp with hp | ⟨p, hp, rfl⟩
    · exact Or.inl (h.points p hp)
    · exact Or.inr (hclosed.points p hp)
  layouts := by
    intro p hp hash hhash
    rw [hw.points, List.mem_append, List.mem_map] at hp
    rw [hw.hasLayout]
    rcases hp with hp | ⟨p, hp, rfl⟩
    · exact Or.inl (h.layouts p hp hash hhash)
    · exact Or.inr (hclosed.layouts p hp hash hhash)
  exemplars := by
    intro e he
    rw [hw.exemplars, List.mem_append] at he
    rw [hw.points]
    rcases he with he | he
    · obtain ⟨p, hp, hid⟩ := h.exemplars e he
      exact ⟨p, List.mem_append_left _ hp, hid⟩
    · split at he
      · cases he
      · obtain ⟨p, hp, hid⟩ := hclosed.exemplars e he
        exact ⟨⟨p, ingestedAt⟩, List.mem_append_right _ (List.mem_map_of_mem hp), hid⟩

/-- A committed deletion takes the exemplars of the points it takes. -/
theorem factsDeleted
    (h : RefInv db)
    {sub : Time → Time → Int} {cutoff : Time} (hd : FactsDeleted sub cutoff db db') :
    RefInv db' := by
  refine h.of_sameDimensions ?_ ?_ ?_ ?_ ?_ ?_ ?_
  · intro hash hh
    rw [hd.rest]
    exact hh
  · rw [hd.rest]
  · rw [hd.rest]
  · rw [hd.spans]
    exact fun sp hsp => Or.inl (List.mem_filter.mp hsp).1
  · rw [hd.logs]
    exact fun l hl => Or.inl (List.mem_filter.mp hl).1
  · rw [hd.metricPoints]
    exact fun p hp => (List.mem_filter.mp hp).1
  · intro e he
    rw [hd.metricExemplars, List.mem_filter, decide_eq_true_eq] at he
    refine ⟨he.1, fun p hp hid => ?_⟩
    rw [hd.metricPoints, List.mem_filter, decide_eq_true_eq]
    refine ⟨hp, fun hlt => he.2 ?_⟩
    exact List.mem_map.mpr ⟨p, List.mem_filter.mpr ⟨hp, by simpa using hlt⟩, hid⟩

/-- Pruning, however far it got, takes no row that is referenced. -/
theorem pruned
    {s s' : Store V} (h : RefInv s.db) (hp : Pruned s s') :
    RefInv s'.db := by
  have hspans : s'.db.spans = s.db.spans := by rw [hp.rest]
  have hlogs : s'.db.logs = s.db.logs := by rw [hp.rest]
  have hpoints : s'.db.metricPoints = s.db.metricPoints := by rw [hp.rest]
  have hexemplars : s'.db.metricExemplars = s.db.metricExemplars := by rw [hp.rest]
  have hkeep : ∀ hash, s.db.hasResource hash → Referenced s'.db hash →
      s'.db.hasResource hash := by
    rintro hash ⟨r, hr, rfl⟩ href
    exact ⟨r, hp.usedResources r hr href, rfl⟩
  refine ⟨?_, ?_, ?_, ?_, ?_, ?_⟩
  · intro sp hsp
    exact hkeep _ (h.spans sp (hspans ▸ hsp)) (Or.inl ⟨sp, hsp, rfl⟩)
  · intro l hl
    exact hkeep _ (h.logs l (hlogs ▸ hl)) (Or.inr (Or.inl ⟨l, hl, rfl⟩))
  · intro x hx
    exact hkeep _ (h.series x (hp.series x hx)) (Or.inr (Or.inr ⟨x, hx, rfl⟩))
  · intro p hpm
    rw [hpoints] at hpm
    obtain ⟨x, hx, hk⟩ := h.points p hpm
    exact ⟨x, hp.usedSeries x hx ⟨p, hpm, hk.symm⟩, hk⟩
  · intro p hpm hash hhash
    rw [hpoints] at hpm
    obtain ⟨x, hx, rfl⟩ := h.layouts p hpm hash hhash
    exact ⟨x, hp.usedLayouts x hx ⟨p, hpm, hhash⟩, rfl⟩
  · intro e he
    rw [hpoints]
    exact h.exemplars e (hexemplars ▸ he)

end RefInv

/-- Pruning resets the cache when it took resources. -/
theorem Pruned.cacheSound
    {s s' : Store V} (h : CacheSound s) (hp : Pruned s s') :
    CacheSound s' := by
  intro hash hhash
  rcases hp.cache with ⟨hres, hmem⟩ | hmem
  · rw [hmem] at hhash
    have := h hash hhash
    rwa [Db.hasResource, ← hres] at this
  · rw [hmem] at hhash
    cases hhash

theorem Prepared.cacheSound
    {s p : Store V} (h : CacheSound s) (hp : Prepared s p) :
    CacheSound p := by
  intro hash hhash
  rcases hp.cached hash hhash with hold | hnew
  · exact hp.keep hash (h hash hold)
  · exact hnew

theorem CacheSound.congr
    {s s' : Store V} (h : CacheSound s)
    (hresources : s'.db.resources = s.db.resources)
    (hcache : ∀ k ∈ s'.mem.resourceCache.items, k ∈ s.mem.resourceCache.items) :
    CacheSound s' := by
  intro hash hhash
  have := h hash (hcache hash hhash)
  rwa [Db.hasResource, ← hresources] at this

section Runs

open Stmt

variable {sub : Time → Time → Int}

/-- Every operation keeps the references and the cache sound, whatever fails. -/
theorem refInvariant :
    Invariant sub Op.Closed
      (fun s : Store V => s.saved = none ∧ RefInv s.db ∧ CacheSound s) := by
  have hbetween : Between
      (fun s : Store V => s.saved = none ∧ RefInv s.db ∧ CacheSound s) :=
    { saved := fun s h => h.1
      congr := fun s t h hdb hmem hsaved => by
        refine ⟨hsaved, hdb ▸ h.2.1, h.2.2.congr (by rw [hdb]) ?_⟩
        rw [hmem]
        exact fun _ hk => hk }
  exact
    { between := hbetween
      new := ⟨rfl, RefInv.empty, fun _ h => by cases h⟩
      writeTraces := by
        rintro batch refreshedAt now hclosed s ⟨hsaved, h, hcache⟩
        obtain ⟨p, hp, hnone, ⟨hdb, hmem, -⟩ | ⟨inserted, dropped, w, hres, hc, -, hmem, -⟩⟩ :=
          writeTraces_cases batch refreshedAt now hsaved rfl
        · refine ⟨hnone, hdb ▸ h.prepared hp, (hp.cacheSound hcache).congr ?_ ?_⟩
          · rw [hdb]
          · rw [hmem]
            exact fun _ hk => hk
        · refine ⟨hnone, (h.prepared hp).wrote hc.wrote ?_,
            (hp.cacheSound hcache).congr ?_ ?_⟩
          · intro r hr
            obtain ⟨keys, -, rfl⟩ := hc.inserted_eq
            have hbatch := (List.mem_filter.mp (mem_distinctBy.mp hr).1.mem).1
            obtain ⟨x, hx, hhash⟩ := hclosed r hbatch
            rw [← hhash]
            exact hres hcache x hx
          · rw [hc.wrote.rest]
            rfl
          · rw [hmem]
            exact fun _ hk => hk
      writeMetrics := by
        rintro batch now ingestedAt hclosed s ⟨hsaved, h, hcache⟩
        obtain ⟨hnone, ⟨hdb, -, hitems⟩ | ⟨hw, hsound, -⟩⟩ :=
          writeMetrics_cases batch now ingestedAt hsaved rfl
        · exact ⟨hnone, hdb ▸ h, hcache.congr (by rw [hdb]) hitems⟩
        · obtain ⟨hres, hcache'⟩ := hsound hcache
          exact ⟨hnone, h.metricsWritten hclosed hw hres, hcache'⟩
      writeLogs := by
        rintro batch now hclosed s ⟨hsaved, h, hcache⟩
        obtain ⟨p, rows, hp, hnone, hitems, hdb, hwritten, hres, -⟩ :=
          writeLogs_cases batch now (s := s) rfl
        have hsound := hp.prepared.cacheSound hcache
        have hinv := h.prepared hp.prepared
        refine ⟨hnone.trans hsaved,
          hinv.of_sameDimensions ?_ ?_ ?_ ?_ ?_ ?_ ?_, hsound.congr (by rw [hdb]) ?_⟩
        · rw [hdb]
          exact fun _ hh => hh
        · rw [hdb]
        · rw [hdb]
        · rw [hdb]
          exact fun _ hs => Or.inl hs
        · rw [hdb]
          intro l hl
          rcases List.mem_append.mp hl with hl | hl
          · exact Or.inl hl
          · obtain ⟨row, hrow, rfl⟩ := List.mem_map.mp hl
            obtain ⟨r, hr, hhash⟩ := hclosed row (hwritten.mem hrow)
            exact Or.inr (hhash ▸ hres (List.ne_nil_of_mem hrow) hcache r hr)
        · rw [hdb]
          exact fun _ hp => hp
        · rw [hdb]
          exact fun e he => ⟨he, fun _ hp _ => hp⟩
        · rw [hitems]
          exact fun _ hk => hk
      deleteFacts := fun cutoff =>
        deleteFactsBefore_preserves hbetween cutoff fun s s' h hd hsaved hmem => by
          refine ⟨hsaved, h.2.1.factsDeleted hd, h.2.2.congr ?_ ?_⟩
          · rw [hd.rest]
          · rw [hmem]
            exact fun _ hk => hk
      prune :=
        pruneDimensions_preserves fun s s' h hp =>
          ⟨hp.saved.trans h.1, h.2.1.pruned hp, hp.cacheSound h.2.2⟩
      rebuildAll :=
        rebuildAllTraceSummaries_preserves hbetween fun s s' h _ hrest hsaved hmem => by
          refine ⟨hsaved, ?_, h.2.2.congr ?_ ?_⟩
          · rw [hrest]
            exact ⟨h.2.1.spans, h.2.1.logs, h.2.1.series, h.2.1.points, h.2.1.layouts,
              h.2.1.exemplars⟩
          · rw [hrest]
          · rw [hmem]
            exact fun _ hk => hk
      clear := by
        rintro s s' ⟨hsaved, -, -⟩ hr
        obtain ⟨hdb, hs', hmem⟩ := performClear_returns hr
        refine ⟨hs'.trans hsaved, ?_, ?_⟩
        · have he := RefInv.empty (V := V)
          rw [hdb]
          exact ⟨he.spans, he.logs, he.series, he.points, he.layouts, he.exemplars⟩
        · intro k hk
          rw [hmem] at hk
          cases hk }

theorem Reachable.mono
    {allowed allowed' : Op V → Prop} (h : ∀ op, allowed op → allowed' op)
    {s : Store V} (hs : Reachable sub allowed s) :
    Reachable sub allowed' s := by
  induction hs with
  | new => exact .new
  | step op faults _ hop hclear ih => exact .step op faults ih (h op hop) hclear

/-- In every state that runs with closed batches reach, every reference has its
row and so has every cached hash. -/
theorem references_sound
    {s : Store V} (hs : Reachable sub Op.Closed s) :
    (∀ sp ∈ s.db.spans, s.db.hasResource sp.resourceHash) ∧
      (∀ l ∈ s.db.logs, s.db.hasResource l.row.resourceHash) ∧
      (∀ x ∈ s.db.metricSeries.rows, s.db.hasResource x.row.resourceHash) ∧
      (∀ p ∈ s.db.metricPoints, s.db.hasSeries p.row.seriesKey) ∧
      (∀ p ∈ s.db.metricPoints, ∀ hash,
        p.row.histogramLayoutHash = some hash → s.db.hasLayout hash) ∧
      (∀ e ∈ s.db.metricExemplars, ∃ p ∈ s.db.metricPoints, p.row.id = e.pointID) ∧
      (∀ l ∈ s.db.spanLinks, ∃ sp ∈ s.db.spans,
        sp.traceID = l.sourceTraceID ∧ sp.spanID = l.sourceSpanID) ∧
      ∀ hash ∈ s.mem.resourceCache.items, s.db.hasResource hash := by
  obtain ⟨-, href, hcache⟩ := hs.invariant refInvariant
  have htraces := ((hs.mono fun _ _ => trivial).traceInv (summarySpec_counts sub)).2
  refine ⟨href.spans, href.logs, href.series, href.points, href.layouts, href.exemplars,
    ?_, hcache⟩
  intro l hl
  obtain ⟨sp, hsp, hk⟩ := htraces.links l hl
  exact ⟨sp, hsp, congrArg Prod.fst hk, congrArg Prod.snd hk⟩

/-- A span that links to another trace, and a log record. -/
def linkedBatch : TraceBatch where
  resources := [⟨0, "checkout", .empty⟩]
  spans := [{ SpanRow.bare "t" "a" "" 80 90 with links := [⟨"u", "b", "", 0, .empty, 0⟩] }]
  summaries := []
  droppedTraceIDs := []

def loggedBatch : LogBatch where
  resources := [⟨0, "checkout", .empty⟩]
  logs := [⟨4, 85, 85, "t", "a", 9, "INFO", "", .empty, 0⟩]

/-- A histogram of the resource `hash` with one point of the time `ts` and its exemplar; series
and layout have the number `key`. -/
def exemplarBatch (hash key : UInt64) (ts : Time) (point exemplar : UUID) :
    MetricBatch Unit where
  resources := [⟨hash, "checkout", .empty⟩]
  series :=
    [{ seriesKey := key, serviceName := "checkout", metricName := "latency"
       metricType := "Histogram", numberKind := "", unit := "ms", description := ""
       temporality := "Delta", isMonotonic := false, attributes := .empty, scopeName := ""
       scopeVersion := "", scopeSchemaURL := "", scopeDroppedAttributesCount := 0
       scopeAttributes := .empty, resourceHash := hash }]
  histogramLayouts := [⟨key, "explicit", [()], none, none⟩]
  points :=
    [{ id := point, seriesKey := key, ts := ts, startTS := none, flags := 0, valueInt := none
       valueDouble := none, count := some 1, sum := none, min := none, max := none
       histogramLayoutHash := some key, bucketCounts := [1, 0], zeroCount := none
       positiveOffset := none, positiveBucketCounts := [], negativeOffset := none
       negativeBucketCounts := [], summaryQuantiles := [], summaryQuantileValues := [] }]
  exemplars := [⟨exemplar, point, ts, "t", "a", .empty, some 3, none⟩]

theorem linkedBatch_closed : linkedBatch.Closed := by
  intro sp hsp
  rw [List.mem_singleton.mp hsp]
  exact ⟨_, List.mem_singleton_self _, rfl⟩

theorem loggedBatch_closed : loggedBatch.Closed := by
  intro l hl
  rw [List.mem_singleton.mp hl]
  exact ⟨_, List.mem_singleton_self _, rfl⟩

theorem exemplarBatch_closed (hash key : UInt64) (ts : Time) (point exemplar : UUID) :
    (exemplarBatch hash key ts point exemplar).Closed where
  series x hx := by
    rw [List.mem_singleton.mp hx]
    exact ⟨_, List.mem_singleton_self _, rfl⟩
  points p hp := by
    rw [List.mem_singleton.mp hp]
    exact ⟨_, List.mem_singleton_self _, rfl⟩
  layouts p hp layout hlayout := by
    rw [List.mem_singleton.mp hp] at hlayout
    exact ⟨_, List.mem_singleton_self _, Option.some.inj hlayout⟩
  exemplars e he := by
    rw [List.mem_singleton.mp he]
    exact ⟨_, List.mem_singleton_self _, rfl⟩

/-- A store that received a trace batch whose fourth statement failed, the batch again, a log
record and two histograms, the first of them before the cutoff of the sweep that follows. -/
def Store.swept : Store Unit :=
  let store := (Store.new Unit).after Time.sub (.writeTraces linkedBatch 100 101)
    [false, false, false, true]
  let store := store.after Time.sub (.writeTraces linkedBatch 100 101) []
  let store := store.after Time.sub (.writeLogs loggedBatch 100) []
  let store := store.after Time.sub (.writeMetrics (exemplarBatch 1 7 60 1 2) 100 101) []
  let store := store.after Time.sub (.writeMetrics (exemplarBatch 0 8 85 5 6) 100 101) []
  store.after Time.sub (.sweep ⟨"", 50, 0⟩ 120 fun _ => .ok 0) []

theorem Store.swept_reachable : Reachable Time.sub Op.Closed Store.swept := by
  refine .step _ _ (.step _ _ (.step _ _ (.step _ _ (.step _ _ (.step _ _ .new
    linkedBatch_closed ?_) linkedBatch_closed ?_) loggedBatch_closed ?_)
    (exemplarBatch_closed _ _ _ _ _) ?_) (exemplarBatch_closed _ _ _ _ _) ?_) trivial ?_ <;>
    exact fun h => by cases h

/-- The sweep leaves one span with its link, one record, and one of the two histograms with its
resource, series, layout and exemplar. -/
theorem references_sound_swept :
    (Store.swept.db.spanLinks.map fun l => l.sourceSpanID) = ["a"] ∧
      (Store.swept.db.metricPoints.map fun p => p.row.seriesKey) = [8] ∧
      (∀ sp ∈ Store.swept.db.spans, Store.swept.db.hasResource sp.resourceHash) ∧
      (∀ l ∈ Store.swept.db.logs, Store.swept.db.hasResource l.row.resourceHash) ∧
      (∀ x ∈ Store.swept.db.metricSeries.rows,
        Store.swept.db.hasResource x.row.resourceHash) ∧
      (∀ p ∈ Store.swept.db.metricPoints, Store.swept.db.hasSeries p.row.seriesKey) ∧
      (∀ p ∈ Store.swept.db.metricPoints, ∀ hash,
        p.row.histogramLayoutHash = some hash → Store.swept.db.hasLayout hash) ∧
      (∀ e ∈ Store.swept.db.metricExemplars,
        ∃ p ∈ Store.swept.db.metricPoints, p.row.id = e.pointID) ∧
      (∀ l ∈ Store.swept.db.spanLinks, ∃ sp ∈ Store.swept.db.spans,
        sp.traceID = l.sourceTraceID ∧ sp.spanID = l.sourceSpanID) ∧
      ∀ hash ∈ Store.swept.mem.resourceCache.items, Store.swept.db.hasResource hash :=
  ⟨rfl, rfl, references_sound Store.swept_reachable⟩

end Runs

end Storage
end Otelop
