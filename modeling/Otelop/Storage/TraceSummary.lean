import Mathlib.Tactic
import Mathlib.Data.List.Dedup
import Mathlib.Order.Bounds.Basic
import Otelop.Lib.Choose
import Otelop.Lib.KeyedList
import Otelop.Storage.Rows

/-!
# Trace summaries: the incremental merge and the SQL rebuild

Two implementations of one aggregation, from `internal/storage/trace_summary.go`.

* `TraceSummaryState.mergeSpan` folds one more span into a summary, in the order
  of the updates of the source: the earliest span is compared with the start
  time before the start time moves.
* `rebuildTraceSummaries` is the window-function query
  `rebuildTraceSummariesQuery`.  Its subtraction of two timestamps is the
  parameter `sub`.

`Aggregates spans row` states what either of them should compute, without
reference to an arrival order: the aggregation of the rows of one trace.

**Results.**
* `mergeSpan_tracks`, `mergeSpan_tracks_first`: one more span.
* `aggregateGroup_aggregates`: the query over the rows of one trace.
* `Aggregates.unique`: the aggregation determines the row.
-/

namespace Otelop
namespace Storage

open Lib

/-- Go's `time.Time.Sub`, which saturates at the range of an `int64`. -/
def Time.sub (t u : Time) : Int :=
  max (-2 ^ 63) (min (2 ^ 63 - 1) (t - u))

/-- The row `appendSpans` writes for a span. -/
def SpanRow.stored (sp : SpanRow) (ingestedAt : Time) : StoredSpan where
  traceID := sp.traceID
  spanID := sp.spanID
  parentSpanID := sp.parentSpanID
  name := sp.name
  kind := sp.kind
  startTS := sp.startTS
  endTS := sp.endTS
  statusCode := sp.statusCode
  statusMessage := sp.statusMessage
  attributes := sp.attributes
  events := sp.events
  resourceHash := sp.resourceHash
  ingestedAt := ingestedAt
  linkCount := sp.links.length
  droppedLinksCount := sp.droppedLinksCount
  flags := sp.flags
  traceState := sp.traceState

/-- A span with the given identity and times and nothing else. -/
def SpanRow.bare (traceID spanID parentSpanID : String) (startTS endTS : Time) :
    SpanRow where
  flags := 0
  traceState := ""
  links := []
  droppedLinksCount := 0
  traceID := traceID
  spanID := spanID
  parentSpanID := parentSpanID
  name := ""
  kind := "Internal"
  startTS := startTS
  endTS := endTS
  statusCode := "Unset"
  statusMessage := ""
  attributes := .empty
  events := []
  resourceHash := 0

/-- The columns a summary keeps of its root span. -/
def StoredSpan.rootSpan (s : StoredSpan) : RootSpan where
  spanID := s.spanID
  name := s.name
  kind := s.kind
  statusCode := s.statusCode
  startTime := s.startTS
  endTime := s.endTS
  resourceHash := s.resourceHash

/-- `ORDER BY (end_ts - start_ts) DESC, span_id` for the subtraction `sub`. -/
def rootBefore (sub : Time → Time → Int) : StoredSpan → StoredSpan → Bool :=
  lexBefore (fun s => OrderDual.toDual (sub s.endTS s.startTS)) StoredSpan.spanID

/-- `ORDER BY start_ts, span_id` -/
def earliestBefore : StoredSpan → StoredSpan → Bool :=
  lexBefore StoredSpan.startTS StoredSpan.spanID

/-- Roots are in a strict order: the longest first, then by span id. -/
theorem rootBefore_strictOrder (sub : Time → Time → Int) :
    StrictOrder (rootBefore sub) :=
  lexBefore_strictOrder

/-- Spans are in a strict order: by start, then by span id. -/
theorem earliestBefore_strictOrder : StrictOrder earliestBefore :=
  lexBefore_strictOrder

/-- The spans without a parent. -/
def parentless (spans : List StoredSpan) : List StoredSpan :=
  spans.filter fun s => s.parentSpanID = ""

/-- The root of a set of spans: the parentless span of longest duration, ties to
the smallest span id, or none. -/
def IsRoot (spans : List StoredSpan) : Option RootSpan → Prop
  | none => ∀ s ∈ spans, s.parentSpanID ≠ ""
  | some r =>
      ∃ s, IsFirst (rootBefore Time.sub) (parentless spans) s ∧ r = s.rootSpan

/-- The rows of `spans` with trace id `id`. -/
def traceRows (spans : List StoredSpan) (id : String) : List StoredSpan :=
  spans.filter fun s => s.traceID = id

/-- `row` is the aggregation of `spans`, the rows of one trace. -/
structure Aggregates (spans : List StoredSpan) (row : TraceSummaryRow) : Prop where
  startTime : IsLeast {t | ∃ s ∈ spans, s.startTS = t} row.startTime
  endTime : IsGreatest {t | ∃ s ∈ spans, s.endTS = t} row.endTime
  spanCount : row.spanCount = spans.length
  linkCount : row.linkCount = (spans.map StoredSpan.linkCount).sum
  hasError : row.hasError = true ↔ ∃ s ∈ spans, s.statusCode = "Error"
  firstSeen : IsLeast {t | ∃ s ∈ spans, s.ingestedAt = t} row.firstSeen
  root : IsRoot spans row.root
  earliest : ∃ s, IsFirst earliestBefore spans s ∧
    row.earliestSpanID = s.spanID ∧ row.earliestResourceHash = s.resourceHash

/-- The in-memory summary of the trace a batch adds spans to.  A root and an
earliest span are absent where `HasRoot` and `hasEarliest` are false. -/
structure TraceSummaryState where
  traceID : String := ""
  startTime : Time := 0
  endTime : Time := 0
  spanCount : Nat := 0
  linkCount : Nat := 0
  hasError : Bool := false
  firstSeen : Time := 0
  root : Option RootSpan := none
  earliest : Option (String × UInt64) := none
deriving DecidableEq

namespace TraceSummaryState

/-- A parentless span replaces the root when it lasts longer, or as long with a
smaller id. -/
def preferRoot (state : TraceSummaryState) (row : SpanRow) : Bool :=
  match state.root with
  | none => true
  | some root =>
      let duration := Time.sub row.endTS row.startTS
      let currentDuration := Time.sub root.endTime root.startTime
      decide (currentDuration < duration) ||
        decide (duration = currentDuration) && decide (row.spanID < root.spanID)

/-- A span replaces the earliest one when it starts before the trace did, or
with it and has a smaller id. -/
def preferEarliest (state : TraceSummaryState) (start : Time) (row : SpanRow) : Bool :=
  match state.earliest with
  | none => true
  | some (earliestSpanID, _) =>
      decide (row.startTS < start) ||
        decide (row.startTS = start) && decide (row.spanID < earliestSpanID)

/-- Fold one more span into the summary. -/
def mergeSpan (state : TraceSummaryState) (row : SpanRow) (ingestedAt : Time) :
    TraceSummaryState :=
  let fresh : Bool := state.spanCount = 0
  let start := if fresh then row.startTS else state.startTime
  let stop := if fresh then row.endTS else state.endTime
  let seen := if fresh then ingestedAt else state.firstSeen
  { traceID := if fresh then row.traceID else state.traceID
    startTime := if row.startTS < start then row.startTS else start
    endTime := if stop < row.endTS then row.endTS else stop
    spanCount := state.spanCount + 1
    linkCount := state.linkCount + row.links.length
    hasError := state.hasError || row.statusCode = "Error"
    firstSeen := if ingestedAt < seen then ingestedAt else seen
    root :=
      if row.parentSpanID = "" && state.preferRoot row then
        some (row.stored ingestedAt).rootSpan
      else state.root
    earliest :=
      if state.preferEarliest start row then some (row.spanID, row.resourceHash)
      else state.earliest }

/-- The row `upsertTraceSummaryStates` writes. -/
def row (state : TraceSummaryState) : TraceSummaryRow where
  traceID := state.traceID
  startTime := state.startTime
  endTime := state.endTime
  spanCount := state.spanCount
  hasError := state.hasError
  firstSeen := state.firstSeen
  root := state.root
  earliestSpanID := (state.earliest.map Prod.fst).getD ""
  earliestResourceHash := (state.earliest.map Prod.snd).getD 0
  linkCount := state.linkCount

end TraceSummaryState

/-- The state `traceSummaryStatesByIDs` scans from a stored row. -/
def TraceSummaryRow.state (r : TraceSummaryRow) : TraceSummaryState where
  traceID := r.traceID
  startTime := r.startTime
  endTime := r.endTime
  spanCount := r.spanCount
  linkCount := r.linkCount
  hasError := r.hasError
  firstSeen := r.firstSeen
  root := r.root
  earliest := some (r.earliestSpanID, r.earliestResourceHash)

/-- A row is the row of its own state. -/
@[simp] theorem TraceSummaryRow.row_state (r : TraceSummaryRow) : r.state.row = r := rfl

section Rebuild

variable (sub : Time → Time → Int)

/-- `QUALIFY row_number() OVER (PARTITION BY trace_id, span_id ORDER BY
ingested_at) = 1` -/
def dedupByIngest (rows : List StoredSpan) : List StoredSpan :=
  (rows.map fun s => (s.traceID, s.spanID)).dedup.filterMap fun k =>
    firstBy (fun a b => decide (a.ingestedAt < b.ingestedAt))
      (rows.filter fun s => (s.traceID, s.spanID) = k)

/-- The `roots` common table expression for the rows of one trace. -/
def roots (rows : List StoredSpan) : Option StoredSpan :=
  firstBy (rootBefore sub) (parentless rows)

/-- The `earliest` common table expression for the rows of one trace. -/
def earliest (rows : List StoredSpan) : Option StoredSpan :=
  firstBy earliestBefore rows

/-- One group of the query: `agg`, its left join with `roots` and its join with
`earliest`.  A group has at least one row. -/
def aggregateGroup (traceID : String) (rows : List StoredSpan) :
    Option TraceSummaryRow := do
  let startTime ← (rows.map StoredSpan.startTS).min?
  let endTime ← (rows.map StoredSpan.endTS).max?
  let firstSeen ← (rows.map StoredSpan.ingestedAt).min?
  let first ← earliest rows
  some
    { traceID, startTime, endTime, firstSeen
      spanCount := rows.length
      hasError := rows.any fun s => s.statusCode = "Error"
      root := (roots sub rows).map StoredSpan.rootSpan
      earliestSpanID := first.spanID
      earliestResourceHash := first.resourceHash
      linkCount := (rows.map StoredSpan.linkCount).sum }

/-- `rebuildTraceSummariesQuery`: the rows it inserts for the affected traces. -/
def rebuildTraceSummaries (spans : List StoredSpan) (affected : List String) :
    List TraceSummaryRow :=
  let deduped := dedupByIngest (spans.filter fun s => s.traceID ∈ affected)
  (deduped.map StoredSpan.traceID).dedup.filterMap fun id =>
    aggregateGroup sub id (traceRows deduped id)

end Rebuild

/-! ### Merging one span -/

/-- The spans that may be the root. -/
@[simp] theorem mem_parentless {spans : List StoredSpan} {s : StoredSpan} :
    s ∈ parentless spans ↔ s ∈ spans ∧ s.parentSpanID = "" := by
  simp [parentless]

namespace Aggregates

variable {spans : List StoredSpan} {row : TraceSummaryRow}

/-- No summary is about nothing. -/
theorem ne_nil (h : Aggregates spans row) : spans ≠ [] := by
  rintro rfl
  obtain ⟨s, hs, -⟩ := h.startTime.1
  cases hs

theorem spanCount_pos (h : Aggregates spans row) : 0 < row.spanCount := by
  rw [h.spanCount]
  exact List.length_pos_of_ne_nil h.ne_nil

/-- The start time of a summary is the start of its earliest span. -/
theorem startTime_eq
    (h : Aggregates spans row)
    {s : StoredSpan}
    (hs : IsFirst earliestBefore spans s) :
    row.startTime = s.startTS := by
  apply le_antisymm
  · exact h.startTime.2 ⟨s, hs.1, rfl⟩
  · obtain ⟨x, hx, hxt⟩ := h.startTime.1
    rw [← hxt]
    exact hs.key_le hx

end Aggregates

section Unique

variable {spans : List StoredSpan}

/-- Roots with distinct ids can be compared. -/
theorem rootBefore_totalOn
    (h : (spans.map StoredSpan.spanID).Nodup) (sub : Time → Time → Int) :
    TotalOn (rootBefore sub) (parentless spans) :=
  lexBefore_totalOn fun _ hx _ hy hxy =>
    List.inj_on_of_nodup_map h (mem_parentless.mp hx).1 (mem_parentless.mp hy).1 hxy

/-- Spans with distinct ids can be compared. -/
theorem earliestBefore_totalOn
    (h : (spans.map StoredSpan.spanID).Nodup) :
    TotalOn earliestBefore spans :=
  lexBefore_totalOn fun _ hx _ hy hxy => List.inj_on_of_nodup_map h hx hy hxy

/-- A trace has one root. -/
theorem IsRoot.unique
    (h : (spans.map StoredSpan.spanID).Nodup) :
    ∀ {a b : Option RootSpan}, IsRoot spans a → IsRoot spans b → a = b
  | none, none, _, _ => rfl
  | none, some _, ha, ⟨s, hs, _⟩ =>
      absurd (mem_parentless.mp hs.1).2 (ha s (mem_parentless.mp hs.1).1)
  | some _, none, ⟨s, hs, _⟩, hb =>
      absurd (mem_parentless.mp hs.1).2 (hb s (mem_parentless.mp hs.1).1)
  | some _, some _, ⟨s, hs, ha⟩, ⟨s', hs', hb⟩ => by
      rw [ha, hb, hs.unique (rootBefore_totalOn h _) hs']

/-- Spans with distinct ids have one aggregation for each trace id. -/
theorem Aggregates.unique
    (h : (spans.map StoredSpan.spanID).Nodup)
    {a b : TraceSummaryRow} (hid : a.traceID = b.traceID)
    (ha : Aggregates spans a) (hb : Aggregates spans b) :
    a = b := by
  obtain ⟨s, hs, hsid, hshash⟩ := ha.earliest
  obtain ⟨s', hs', hsid', hshash'⟩ := hb.earliest
  have hss := hs.unique (earliestBefore_totalOn h) hs'
  subst hss
  have herror : a.hasError = b.hasError := by
    rw [Bool.eq_iff_iff, ha.hasError, hb.hasError]
  have hstart := ha.startTime.unique hb.startTime
  have hend := ha.endTime.unique hb.endTime
  have hseen := ha.firstSeen.unique hb.firstSeen
  have hroot := ha.root.unique h hb.root
  have hcount := ha.spanCount.trans hb.spanCount.symm
  have hlinks := ha.linkCount.trans hb.linkCount.symm
  have hearliest := hsid.trans hsid'.symm
  have hhash := hshash.trans hshash'.symm
  cases a
  cases b
  simp_all

end Unique

/-- The order in which `preferRoot` compares a span with the current root. -/
theorem preferRoot_eq
    (state : TraceSummaryState) (row : SpanRow) (ingestedAt : Time)
    {s : StoredSpan}
    (hs : state.root = some s.rootSpan) :
    state.preferRoot row = rootBefore Time.sub (row.stored ingestedAt) s := by
  simp only [TraceSummaryState.preferRoot, hs, rootBefore, lexBefore,
    OrderDual.toDual_lt_toDual, OrderDual.toDual_inj]
  rfl

/-- The comparison of the code is the order of the spans. -/
theorem preferEarliest_eq
    (state : TraceSummaryState) (row : SpanRow) (ingestedAt : Time)
    {s : StoredSpan} {h : UInt64}
    (hs : state.earliest = some (s.spanID, h)) :
    state.preferEarliest s.startTS row =
      earliestBefore (row.stored ingestedAt) s := by
  simp only [TraceSummaryState.preferEarliest, hs, earliestBefore, lexBefore]
  rfl

section Snoc

variable {l : List StoredSpan} {f : StoredSpan → Time} {m : Time}

/-- One more span moves the least value down at most. -/
theorem isLeast_snoc
    (h : IsLeast {t | ∃ s ∈ l, f s = t} m) (a : StoredSpan) :
    IsLeast {t | ∃ s ∈ l ++ [a], f s = t} (if f a < m then f a else m) := by
  obtain ⟨⟨x, hx, hxm⟩, hmin⟩ := h
  constructor
  · split
    · exact ⟨a, by simp, rfl⟩
    · exact ⟨x, by simp [hx], hxm⟩
  · rintro t ⟨s, hs, rfl⟩
    rcases List.mem_append.mp hs with hs | hs
    · have hle : m ≤ f s := hmin ⟨s, hs, rfl⟩
      split
      · rename_i hlt
        exact hlt.le.trans hle
      · exact hle
    · rw [List.mem_singleton.mp hs]
      split
      · exact le_rfl
      · rename_i hlt
        exact not_lt.mp hlt

/-- One more span moves the greatest value up at most. -/
theorem isGreatest_snoc
    (h : IsGreatest {t | ∃ s ∈ l, f s = t} m) (a : StoredSpan) :
    IsGreatest {t | ∃ s ∈ l ++ [a], f s = t} (if m < f a then f a else m) := by
  obtain ⟨⟨x, hx, hxm⟩, hmax⟩ := h
  constructor
  · split
    · exact ⟨a, by simp, rfl⟩
    · exact ⟨x, by simp [hx], hxm⟩
  · rintro t ⟨s, hs, rfl⟩
    rcases List.mem_append.mp hs with hs | hs
    · have hle : f s ≤ m := hmax ⟨s, hs, rfl⟩
      split
      · rename_i hlt
        exact hle.trans hlt.le
      · exact hle
    · rw [List.mem_singleton.mp hs]
      split
      · exact le_rfl
      · rename_i hlt
        exact not_lt.mp hlt

theorem isLeast_singleton_span (a : StoredSpan) :
    IsLeast {t | ∃ s ∈ [a], f s = t} (f a) := by
  constructor
  · exact ⟨a, by simp, rfl⟩
  · rintro t ⟨s, hs, rfl⟩
    rw [List.mem_singleton.mp hs]

theorem isGreatest_singleton_span (a : StoredSpan) :
    IsGreatest {t | ∃ s ∈ [a], f s = t} (f a) := by
  constructor
  · exact ⟨a, by simp, rfl⟩
  · rintro t ⟨s, hs, rfl⟩
    rw [List.mem_singleton.mp hs]

end Snoc

theorem parentless_snoc (spans : List StoredSpan) (a : StoredSpan) :
    parentless (spans ++ [a]) =
      if a.parentSpanID = "" then parentless spans ++ [a] else parentless spans := by
  unfold parentless
  split <;> simp_all [List.filter_append]

/-- The root after one more span. -/
theorem mergeSpan_isRoot
    {spans : List StoredSpan} {state : TraceSummaryState}
    (h : IsRoot spans state.root)
    (row : SpanRow) (ingestedAt : Time) :
    IsRoot (spans ++ [row.stored ingestedAt])
      (state.mergeSpan row ingestedAt).root := by
  show IsRoot _ (if row.parentSpanID = "" && state.preferRoot row then
    some (row.stored ingestedAt).rootSpan else state.root)
  have hparent : (row.stored ingestedAt).parentSpanID = row.parentSpanID := rfl
  by_cases hp : row.parentSpanID = ""
  · cases hr : state.root with
    | none =>
        have hnil : parentless spans = [] := by
          rw [hr] at h
          exact List.filter_eq_nil_iff.mpr fun s hs => by simpa using h s hs
        have hpref : state.preferRoot row = true := by
          simp [TraceSummaryState.preferRoot, hr]
        simp only [hp, hpref, decide_true, Bool.and_self, if_true]
        refine ⟨row.stored ingestedAt, ?_, rfl⟩
        rw [parentless_snoc, if_pos (by rw [hparent, hp]), hnil]
        exact IsFirst.singleton (rootBefore_strictOrder _) _
    | some root =>
        rw [hr] at h
        obtain ⟨s, hs, rfl⟩ := h
        rw [preferRoot_eq state row ingestedAt hr]
        have := hs.snoc (rootBefore_strictOrder _) (row.stored ingestedAt)
        simp only [hp, decide_true, Bool.true_and]
        split
        · rename_i hb
          refine ⟨_, ?_, rfl⟩
          rw [parentless_snoc, if_pos (by rw [hparent, hp])]
          rwa [if_pos hb] at this
        · rename_i hb
          refine ⟨s, ?_, rfl⟩
          rw [parentless_snoc, if_pos (by rw [hparent, hp])]
          rwa [if_neg hb] at this
  · simp only [hp, decide_false, Bool.false_and, Bool.false_eq_true, if_false]
    cases hr : state.root with
    | none =>
        rw [hr] at h
        intro s hs
        rcases List.mem_append.mp hs with hs | hs
        · exact h s hs
        · rw [List.mem_singleton.mp hs]
          exact hp
    | some root =>
        rw [hr] at h
        obtain ⟨s, hs, rfl⟩ := h
        refine ⟨s, ?_, rfl⟩
        rw [parentless_snoc, if_neg (by rw [hparent]; exact hp)]
        exact hs

/-- `state` is the summary of `spans`, at least one of them. -/
structure Tracks (spans : List StoredSpan) (state : TraceSummaryState) : Prop where
  aggregates : Aggregates spans state.row
  earliest : state.earliest.isSome = true

theorem mergeSpan_earliest_isSome
    (state : TraceSummaryState) (row : SpanRow) (ingestedAt : Time) :
    (state.mergeSpan row ingestedAt).earliest.isSome = true := by
  unfold TraceSummaryState.mergeSpan
  dsimp only
  generalize (if decide (state.spanCount = 0) = true then row.startTS
    else state.startTime) = start
  cases he : state.earliest with
  | none => simp [TraceSummaryState.preferEarliest, he]
  | some e => split <;> rfl

/-- The first span sets the fields that later spans move. -/
theorem mergeSpan_empty_row (row : SpanRow) (ingestedAt : Time) :
    (({} : TraceSummaryState).mergeSpan row ingestedAt).row =
      { traceID := row.traceID
        startTime := row.startTS
        endTime := row.endTS
        spanCount := 1
        hasError := decide (row.statusCode = "Error")
        firstSeen := ingestedAt
        root := (({} : TraceSummaryState).mergeSpan row ingestedAt).root
        earliestSpanID := row.spanID
        earliestResourceHash := row.resourceHash
        linkCount := row.links.length } := by
  simp [TraceSummaryState.mergeSpan, TraceSummaryState.row,
    TraceSummaryState.preferEarliest]

/-- A later span moves each field on its own. -/
theorem mergeSpan_eq
    {state : TraceSummaryState} (hpos : state.spanCount ≠ 0)
    (row : SpanRow) (ingestedAt : Time) :
    state.mergeSpan row ingestedAt =
      { traceID := state.traceID
        startTime := if row.startTS < state.startTime then row.startTS else state.startTime
        endTime := if state.endTime < row.endTS then row.endTS else state.endTime
        spanCount := state.spanCount + 1
        linkCount := state.linkCount + row.links.length
        hasError := state.hasError || decide (row.statusCode = "Error")
        firstSeen := if ingestedAt < state.firstSeen then ingestedAt else state.firstSeen
        root := (state.mergeSpan row ingestedAt).root
        earliest :=
          if state.preferEarliest state.startTime row then
            some (row.spanID, row.resourceHash)
          else state.earliest } := by
  simp [TraceSummaryState.mergeSpan, hpos]

/-- The first span of a trace. -/
theorem mergeSpan_tracks_first (row : SpanRow) (ingestedAt : Time) :
    Tracks [row.stored ingestedAt]
      (({} : TraceSummaryState).mergeSpan row ingestedAt) := by
  refine ⟨?_, mergeSpan_earliest_isSome _ _ _⟩
  have hnone : IsRoot [] ({} : TraceSummaryState).root := fun s hs => by cases hs
  have hroot := mergeSpan_isRoot hnone row ingestedAt
  rw [mergeSpan_empty_row]
  constructor
  · exact isLeast_singleton_span (f := StoredSpan.startTS) (row.stored ingestedAt)
  · exact isGreatest_singleton_span (f := StoredSpan.endTS) (row.stored ingestedAt)
  · rfl
  · simp [SpanRow.stored]
  · simp [SpanRow.stored]
  · exact isLeast_singleton_span (f := StoredSpan.ingestedAt) (row.stored ingestedAt)
  · exact hroot
  · exact ⟨_, IsFirst.singleton earliestBefore_strictOrder _, rfl, rfl⟩

/-- One more span of a trace that has a summary. -/
theorem mergeSpan_tracks
    {spans : List StoredSpan} {state : TraceSummaryState}
    (h : Tracks spans state)
    (row : SpanRow) (ingestedAt : Time) :
    Tracks (spans ++ [row.stored ingestedAt]) (state.mergeSpan row ingestedAt) := by
  obtain ⟨hagg, hsome⟩ := h
  refine ⟨?_, mergeSpan_earliest_isSome _ _ _⟩
  have hpos : state.spanCount ≠ 0 := hagg.spanCount_pos.ne'
  have hroot := mergeSpan_isRoot hagg.root row ingestedAt
  rw [mergeSpan_eq hpos]
  constructor
  · exact isLeast_snoc hagg.startTime (row.stored ingestedAt)
  · exact isGreatest_snoc hagg.endTime (row.stored ingestedAt)
  · have hcount : state.spanCount = spans.length := hagg.spanCount
    simp [TraceSummaryState.row, hcount]
  · have hlinks : state.linkCount = (spans.map StoredSpan.linkCount).sum := hagg.linkCount
    simp [TraceSummaryState.row, SpanRow.stored, hlinks]
  · have herror : state.hasError = true ↔ ∃ s ∈ spans, s.statusCode = "Error" :=
      hagg.hasError
    simp only [TraceSummaryState.row, Bool.or_eq_true, herror, decide_eq_true_eq,
      List.mem_append, List.mem_singleton]
    constructor
    · rintro (⟨s, hs, he⟩ | he)
      · exact ⟨s, Or.inl hs, he⟩
      · exact ⟨_, Or.inr rfl, he⟩
    · rintro ⟨s, hs | rfl, he⟩
      · exact Or.inl ⟨s, hs, he⟩
      · exact Or.inr he
  · exact isLeast_snoc hagg.firstSeen (row.stored ingestedAt)
  · exact hroot
  · obtain ⟨s, hs, hid, hhash⟩ := hagg.earliest
    obtain ⟨⟨id, hash⟩, he⟩ := Option.isSome_iff_exists.mp hsome
    have hstart : state.startTime = s.startTS := hagg.startTime_eq hs
    simp only [TraceSummaryState.row, he, Option.map_some, Option.getD_some] at hid hhash
    have hnext := hs.snoc earliestBefore_strictOrder (row.stored ingestedAt)
    have hpref := preferEarliest_eq state row ingestedAt (s := s) (h := hash)
      (by rw [he, hid])
    simp only [TraceSummaryState.row, hstart, hpref]
    split
    · rename_i hb
      rw [if_pos hb] at hnext
      exact ⟨_, hnext, rfl, rfl⟩
    · rename_i hb
      rw [if_neg hb] at hnext
      refine ⟨s, hnext, ?_, ?_⟩
      · simp [he, hid]
      · simp [he, hhash]

/-- Merging spans keeps track of all of them. -/
theorem foldl_mergeSpan_tracks
    (ingestedAt : Time) (rows : List SpanRow)
    {spans : List StoredSpan} {state : TraceSummaryState}
    (h : Tracks spans state) :
    Tracks (spans ++ rows.map fun r => r.stored ingestedAt)
      (rows.foldl (fun st r => st.mergeSpan r ingestedAt) state) := by
  induction rows generalizing spans state with
  | nil => simpa using h
  | cons r rows ih =>
      have := ih (mergeSpan_tracks h r ingestedAt)
      simpa using this

theorem foldl_mergeSpan_traceID
    (ingestedAt : Time) (rows : List SpanRow)
    {state : TraceSummaryState} (hpos : state.spanCount ≠ 0) :
    (rows.foldl (fun st r => st.mergeSpan r ingestedAt) state).traceID =
      state.traceID := by
  induction rows generalizing state with
  | nil => rfl
  | cons r rows ih =>
      rw [List.foldl_cons, ih (by simp [TraceSummaryState.mergeSpan])]
      simp [TraceSummaryState.mergeSpan, hpos]

/-! ### The query -/

/-- The spans of a trace. -/
@[simp] theorem mem_traceRows {spans : List StoredSpan} {id : String} {s : StoredSpan} :
    s ∈ traceRows spans id ↔ s ∈ spans ∧ s.traceID = id := by
  simp [traceRows]

/-- SQL orders two differences of timestamps as Go orders the durations. -/
def SubExact (sub : Time → Time → Int) : Prop :=
  ∀ e s e' s', sub e s < sub e' s' ↔ Time.sub e s < Time.sub e' s'

/-- An exact difference orders the roots as the times do. -/
theorem rootBefore_eq
    {sub : Time → Time → Int} (h : SubExact sub) :
    rootBefore sub = rootBefore Time.sub := by
  funext a b
  have heq : sub a.endTS a.startTS = sub b.endTS b.startTS ↔
      Time.sub a.endTS a.startTS = Time.sub b.endTS b.startTS := by
    rw [le_antisymm_iff, le_antisymm_iff, ← not_lt, ← not_lt, ← not_lt, ← not_lt,
      h b.endTS, h a.endTS]
  simp only [rootBefore, lexBefore, OrderDual.toDual_lt_toDual, OrderDual.toDual_inj,
    h b.endTS, heq]

section Query

variable {sub : Time → Time → Int} {id : String} {rows : List StoredSpan}

theorem aggregateGroup_nil : aggregateGroup sub id [] = none := rfl

/-- The fields of the row a group gives. -/
theorem aggregateGroup_eq_some_iff {row : TraceSummaryRow} :
    aggregateGroup sub id rows = some row ↔
      ∃ startTime endTime firstSeen first,
        (rows.map StoredSpan.startTS).min? = some startTime ∧
        (rows.map StoredSpan.endTS).max? = some endTime ∧
        (rows.map StoredSpan.ingestedAt).min? = some firstSeen ∧
        earliest rows = some first ∧
        row =
          { traceID := id
            startTime, endTime, firstSeen
            spanCount := rows.length
            hasError := rows.any fun s => s.statusCode = "Error"
            root := (roots sub rows).map StoredSpan.rootSpan
            earliestSpanID := first.spanID
            earliestResourceHash := first.resourceHash
            linkCount := (rows.map StoredSpan.linkCount).sum } := by
  simp only [aggregateGroup, Option.bind_eq_bind, Option.bind_eq_some_iff,
    Option.some.injEq]
  constructor
  · rintro ⟨a, ha, b, hb, c, hc, d, hd, rfl⟩
    exact ⟨a, b, c, d, ha, hb, hc, hd, rfl⟩
  · rintro ⟨a, b, c, d, ha, hb, hc, hd, rfl⟩
    exact ⟨a, ha, b, hb, c, hc, d, hd, rfl⟩

theorem aggregateGroup_traceID
    {row : TraceSummaryRow} (h : aggregateGroup sub id rows = some row) :
    row.traceID = id := by
  obtain ⟨_, _, _, _, _, _, _, _, rfl⟩ := aggregateGroup_eq_some_iff.mp h
  rfl

/-- Every nonempty group gives a row. -/
theorem exists_aggregateGroup (sub : Time → Time → Int) (id : String) (hne : rows ≠ []) :
    ∃ row, aggregateGroup sub id rows = some row := by
  have hmap : ∀ f : StoredSpan → Time, rows.map f ≠ [] := by
    intro f
    simpa using hne
  obtain ⟨a, ha⟩ := Option.ne_none_iff_exists'.mp
    (mt List.min?_eq_none_iff.mp (hmap StoredSpan.startTS))
  obtain ⟨b, hb⟩ := Option.ne_none_iff_exists'.mp
    (mt List.max?_eq_none_iff.mp (hmap StoredSpan.endTS))
  obtain ⟨c, hc⟩ := Option.ne_none_iff_exists'.mp
    (mt List.min?_eq_none_iff.mp (hmap StoredSpan.ingestedAt))
  obtain ⟨d, hd⟩ := Option.ne_none_iff_exists'.mp
    (mt firstBy_eq_none_iff.mp hne : earliest rows ≠ none)
  exact ⟨_, aggregateGroup_eq_some_iff.mpr ⟨a, b, c, d, ha, hb, hc, hd, rfl⟩⟩

/-- The minimum of a column is its least value. -/
theorem isLeast_of_min?
    {f : StoredSpan → Time} {m : Time}
    (h : (rows.map f).min? = some m) :
    IsLeast {t | ∃ s ∈ rows, f s = t} m := by
  obtain ⟨hmem, hle⟩ := List.min?_eq_some_iff.mp h
  constructor
  · simpa using hmem
  · rintro t ⟨s, hs, rfl⟩
    exact hle _ (List.mem_map_of_mem hs)

/-- The maximum of a column is its greatest value. -/
theorem isGreatest_of_max?
    {f : StoredSpan → Time} {m : Time}
    (h : (rows.map f).max? = some m) :
    IsGreatest {t | ∃ s ∈ rows, f s = t} m := by
  obtain ⟨hmem, hle⟩ := List.max?_eq_some_iff.mp h
  constructor
  · simpa using hmem
  · rintro t ⟨s, hs, rfl⟩
    exact hle _ (List.mem_map_of_mem hs)

/-- The root that SQL picks is the root. -/
theorem roots_isRoot (h : SubExact sub) (rows : List StoredSpan) :
    IsRoot rows ((roots sub rows).map StoredSpan.rootSpan) := by
  unfold roots
  rw [rootBefore_eq h]
  cases hr : firstBy (rootBefore Time.sub) (parentless rows) with
  | none =>
      have hnil := firstBy_eq_none_iff.mp hr
      intro s hs hp
      have : s ∈ parentless rows := mem_parentless.mpr ⟨hs, hp⟩
      rw [hnil] at this
      cases this
  | some s => exact ⟨s, firstBy_isFirst (rootBefore_strictOrder _) hr, rfl⟩

/-- The query aggregates the rows of a group. -/
theorem aggregateGroup_aggregates
    (h : SubExact sub)
    {row : TraceSummaryRow} (hrow : aggregateGroup sub id rows = some row) :
    Aggregates rows row := by
  obtain ⟨startTime, endTime, firstSeen, first, hs, he, hf, hfirst, rfl⟩ :=
    aggregateGroup_eq_some_iff.mp hrow
  exact
    { startTime := isLeast_of_min? hs
      endTime := isGreatest_of_max? he
      spanCount := rfl
      linkCount := rfl
      hasError := by simp
      firstSeen := isLeast_of_min? hf
      root := roots_isRoot h rows
      earliest := ⟨first, firstBy_isFirst earliestBefore_strictOrder hfirst, rfl, rfl⟩ }

end Query

/-- The key of a span. -/
def StoredSpan.key (s : StoredSpan) : String × String := (s.traceID, s.spanID)

/-- Deduplication changes nothing where the keys are distinct. -/
theorem dedupByIngest_eq_self
    {rows : List StoredSpan} (h : (rows.map StoredSpan.key).Nodup) :
    dedupByIngest rows = rows := by
  unfold dedupByIngest
  change (rows.map StoredSpan.key).dedup.filterMap _ = rows
  rw [h.dedup, List.filterMap_map]
  have hone : ∀ s ∈ rows,
      ((fun k => firstBy (fun a b : StoredSpan => decide (a.ingestedAt < b.ingestedAt))
        (rows.filter fun s => (s.traceID, s.spanID) = k)) ∘ StoredSpan.key) s = some s := by
    intro s hs
    have := filter_key_eq_singleton h hs
    simp only [Function.comp_apply]
    change firstBy _ (rows.filter fun x => x.key = s.key) = _
    rw [this]
    rfl
  rw [List.filterMap_congr hone]
  exact List.filterMap_some

/-- Filtering by affected traces leaves an affected trace whole. -/
theorem traceRows_filter_mem
    {spans : List StoredSpan} {affected : List String} {id : String}
    (hid : id ∈ affected) :
    traceRows (spans.filter fun s => s.traceID ∈ affected) id = traceRows spans id := by
  unfold traceRows
  rw [List.filter_filter]
  refine List.filter_congr ?_
  intro s _
  by_cases hs : s.traceID = id <;> simp [hs, hid]

section Rebuilt

variable {sub : Time → Time → Int} {spans : List StoredSpan} {affected : List String}

/-- The rows the rebuild inserts: one for each affected trace that has spans. -/
theorem mem_rebuildTraceSummaries
    (hkeys : (spans.map StoredSpan.key).Nodup) {row : TraceSummaryRow} :
    row ∈ rebuildTraceSummaries sub spans affected ↔
      ∃ id ∈ affected, aggregateGroup sub id (traceRows spans id) = some row := by
  have hsub : ((spans.filter fun s => s.traceID ∈ affected).map StoredSpan.key).Nodup :=
    (List.filter_sublist.map _).nodup hkeys
  simp only [rebuildTraceSummaries, dedupByIngest_eq_self hsub, List.mem_filterMap,
    List.mem_dedup, List.mem_map, List.mem_filter, decide_eq_true_eq]
  constructor
  · rintro ⟨id, ⟨s, ⟨-, hs⟩, rfl⟩, hrow⟩
    rw [traceRows_filter_mem hs] at hrow
    exact ⟨s.traceID, hs, hrow⟩
  · rintro ⟨id, hid, hrow⟩
    refine ⟨id, ?_, ?_⟩
    · cases htr : traceRows spans id with
      | nil =>
          rw [htr, aggregateGroup_nil] at hrow
          cases hrow
      | cons s l =>
          have hs : s ∈ traceRows spans id := by simp [htr]
          obtain ⟨hmem, rfl⟩ := mem_traceRows.mp hs
          exact ⟨s, ⟨hmem, hid⟩, rfl⟩
    · rwa [traceRows_filter_mem hid]

end Rebuilt

end Storage
end Otelop
