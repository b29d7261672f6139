import Mathlib.Tactic
import Mathlib.Order.WithBot
import Otelop.Storage.CommitTraces
import Otelop.Storage.TraceInvariant

/-!
# The summaries of one trace, commit after commit

A commit reads the stored row of a trace, folds `mergeSpan` over the spans it adds and stores
the result; the summary that `traceSummariesFromTableQuery` reads back is sent.

The row after some commits depends on their spans and on nothing else: it counts them, spans
their times, and has the root that the order of roots puts first.  A later row therefore extends
an earlier one, which is what a client relies on that gets the summaries in any order.
Timestamps are subtracted as Go does it, saturating at the largest duration.

The service names of the resources are the parameter `service`.

**Results.**
* `storedAfter_follows`: the row after any number of commits, in terms of their spans.
* `storedAfter_grows`: later rows count more, start no later and end no earlier.
-/

namespace Otelop
namespace Storage

open Lib

variable {V : Type} {id : String}

/-- The spans of the trace that one commit adds. -/
structure SpanBatch (id : String) where
  rows : List SpanRow
  ingestedAt : Time
  ne_nil : rows ≠ []
  ofTrace : ∀ r ∈ rows, r.traceID = id

/-- The rows of `spans` a commit writes. -/
def SpanBatch.stored (b : SpanBatch id) : List StoredSpan :=
  b.rows.map fun r => r.stored b.ingestedAt

/-- The row a commit stores, from the state it read. -/
def SpanBatch.mergeInto (state : TraceSummaryState) (b : SpanBatch id) : TraceSummaryRow :=
  (b.rows.foldl (fun st r => st.mergeSpan r b.ingestedAt) state).row

/-- The stored row after the first commit of a trace and some more. -/
def storedAfter (first : SpanBatch id) (later : List (SpanBatch id)) : TraceSummaryRow :=
  later.foldl (fun row b => b.mergeInto row.state) (first.mergeInto {})

/-- The spans of these commits. -/
def spansAfter (first : SpanBatch id) (later : List (SpanBatch id)) : List StoredSpan :=
  (first :: later).flatMap SpanBatch.stored

/-- The service a row is shown under: `COALESCE(root_res.service_name,
earliest_res.service_name)`. -/
def TraceSummaryRow.service (service : UInt64 → String) (t : TraceSummaryRow) : String :=
  service ((t.root.map RootSpan.resourceHash).getD t.earliestResourceHash)

/-- A row of `traceSummariesFromTableQuery`. -/
def TraceSummaryRow.summary (service : UInt64 → String) (t : TraceSummaryRow) :
    TraceSummary where
  linkCount := t.linkCount
  traceID := t.traceID
  startTime := t.startTime
  firstSeen := none
  duration := Time.sub t.endTime t.startTime
  spanCount := t.spanCount
  hasError := t.hasError
  serviceName := t.service service
  root := t.root.map fun r => ⟨r.name, r.kind, r.statusCode, Time.sub r.endTime r.startTime⟩

/-- Where its resources are stored, a row reads back as its summary. -/
theorem scanTraceSummary_eq
    {db : Db V} {service : UInt64 → String} {t : TraceSummaryRow}
    (hroot : ∀ r ∈ t.root, db.serviceName r.resourceHash = some (service r.resourceHash))
    (hearliest : db.serviceName t.earliestResourceHash = some (service t.earliestResourceHash)) :
    db.scanTraceSummary t = some (t.summary service) := by
  rw [Db.scanTraceSummary, TraceSummaryRow.summary, TraceSummaryRow.service]
  cases hr : t.root with
  | none =>
      simp [hearliest]
  | some r =>
      simp [hroot r hr]

/-! ### The spans behind a row -/

/-- `row` aggregates `spans`, and its root and its earliest span are those that arrived
first among equals. -/
structure Follows (spans : List StoredSpan) (row : TraceSummaryRow) : Prop where
  aggregates : Aggregates spans row
  root : row.root = (roots Time.sub spans).map StoredSpan.rootSpan
  earliest : ∃ s, earliest spans = some s ∧
    row.earliestSpanID = s.spanID ∧ row.earliestResourceHash = s.resourceHash

theorem subExact_sub : SubExact Time.sub := fun _ _ _ _ => Iff.rfl

theorem roots_snoc (spans : List StoredSpan) (a : StoredSpan) :
    roots Time.sub (spans ++ [a]) =
      if a.parentSpanID = "" then keepFirst (rootBefore Time.sub) (roots Time.sub spans) a
      else roots Time.sub spans := by
  rw [roots, parentless_snoc]
  split
  · exact firstBy_snoc _ _
  · rfl

/-- The root that `mergeSpan` keeps is the one a scan of the spans keeps. -/
theorem mergeSpan_root
    {spans : List StoredSpan} {state : TraceSummaryState}
    (h : state.root = (roots Time.sub spans).map StoredSpan.rootSpan)
    (r : SpanRow) (t : Time) :
    (state.mergeSpan r t).root =
      (roots Time.sub (spans ++ [r.stored t])).map StoredSpan.rootSpan := by
  change (if r.parentSpanID = "" && state.preferRoot r then some (r.stored t).rootSpan
    else state.root) = _
  have hparent : (r.stored t).parentSpanID = r.parentSpanID := rfl
  rw [roots_snoc, hparent]
  by_cases hp : r.parentSpanID = ""
  · cases hr : roots Time.sub spans with
    | none =>
        rw [hr] at h
        have hpref : state.preferRoot r = true := by
          simp [TraceSummaryState.preferRoot, h]
        simp [hp, hpref, keepFirst]
    | some s =>
        rw [hr] at h
        rw [preferRoot_eq state r t h, h]
        cases hb : rootBefore Time.sub (r.stored t) s <;> simp [hp, hb, keepFirst]
  · simp [hp, h]

/-- The earliest span that `mergeSpan` keeps is the one a scan of the spans keeps. -/
theorem mergeSpan_earliest
    {spans : List StoredSpan} {state : TraceSummaryState}
    (hagg : Aggregates spans state.row)
    {s : StoredSpan} (hs : earliest spans = some s)
    (h : state.earliest = some (s.spanID, s.resourceHash))
    (r : SpanRow) (t : Time) :
    ∃ s', earliest (spans ++ [r.stored t]) = some s' ∧
      (state.mergeSpan r t).earliest = some (s'.spanID, s'.resourceHash) := by
  have hpos : state.spanCount ≠ 0 := hagg.spanCount_pos.ne'
  have hstart : state.startTime = s.startTS :=
    hagg.startTime_eq (firstBy_isFirst earliestBefore_strictOrder hs)
  rw [mergeSpan_eq hpos, hstart, preferEarliest_eq state r t h, h, earliest, firstBy_snoc]
  rw [earliest] at hs
  rw [hs, keepFirst]
  dsimp only
  split
  · exact ⟨_, rfl, rfl⟩
  · exact ⟨_, rfl, rfl⟩

theorem earliest_of_row
    {state : TraceSummaryState} (hsome : state.earliest.isSome = true) :
    state.earliest = some (state.row.earliestSpanID, state.row.earliestResourceHash) := by
  obtain ⟨e, he⟩ := Option.isSome_iff_exists.mp hsome
  simp [TraceSummaryState.row, he]

theorem summarySpec_follows : SummarySpec Time.sub Follows where
  first r t := by
    refine ⟨(mergeSpan_tracks_first r t).aggregates, ?_, ?_⟩
    · exact @mergeSpan_root [] _ rfl r t
    · rw [mergeSpan_empty_row]
      exact ⟨_, rfl, rfl, rfl⟩
  more {spans state} r t h hsome := by
    obtain ⟨s, hs, hid, hhash⟩ := h.earliest
    have hstate := earliest_of_row hsome
    rw [hid, hhash] at hstate
    obtain ⟨s', hs', hmerged⟩ := mergeSpan_earliest h.aggregates hs hstate r t
    refine ⟨(mergeSpan_tracks ⟨h.aggregates, hsome⟩ r t).aggregates,
      mergeSpan_root h.root r t, s', hs', ?_, ?_⟩
    · simp [TraceSummaryState.row, hmerged]
    · simp [TraceSummaryState.row, hmerged]
  group hrow := by
    refine ⟨aggregateGroup_aggregates subExact_sub hrow, ?_, ?_⟩
    · obtain ⟨_, _, _, _, -, -, -, -, rfl⟩ := aggregateGroup_eq_some_iff.mp hrow
      rfl
    · obtain ⟨_, _, _, s, -, -, -, hs, rfl⟩ := aggregateGroup_eq_some_iff.mp hrow
      exact ⟨s, hs, rfl, rfl⟩
  spanCount h := h.aggregates.spanCount
  ne_nil h := h.aggregates.ne_nil

/-- The stored row follows the spans of all its commits. -/
theorem storedAfter_follows (first : SpanBatch id) (later : List (SpanBatch id)) :
    Follows (spansAfter first later) (storedAfter first later) := by
  induction later using List.reverseRecOn with
  | nil =>
      have hfirst := summarySpec_follows.foldl_mergeSpan_empty first.ingestedAt first.ne_nil
      have hspans : spansAfter first [] = first.stored := by
        simp [spansAfter]
      rw [hspans]
      exact hfirst
  | append_singleton later b ih =>
      have hrow : Follows (spansAfter first later) (storedAfter first later).state.row := ih
      have hmore := summarySpec_follows.foldl_mergeSpan b.ingestedAt b.rows hrow rfl
      simpa [spansAfter, storedAfter, SpanBatch.stored, SpanBatch.mergeInto] using hmore

/-! ### Growing rows -/

/-- What a later row of a trace has in common with an earlier one. -/
structure TraceSummaryRow.Grows (a b : TraceSummaryRow) : Prop where
  startTime : b.startTime ≤ a.startTime
  endTime : a.endTime ≤ b.endTime
  spanCount : a.spanCount ≤ b.spanCount
  linkCount : a.linkCount ≤ b.linkCount

theorem Time.sub_le_sub {a a' b b' : Time} (hend : a ≤ b) (hstart : b' ≤ a') :
    Time.sub a a' ≤ Time.sub b b' := by
  have hsub : a - a' ≤ b - b' := Int.sub_le_sub hend hstart
  exact max_le_max le_rfl (min_le_min le_rfl hsub)

theorem TraceSummaryRow.Grows.duration_le {a b : TraceSummaryRow} (h : a.Grows b) :
    Time.sub a.endTime a.startTime ≤ Time.sub b.endTime b.startTime :=
  Time.sub_le_sub h.endTime h.startTime

theorem TraceSummaryRow.Grows.refl (a : TraceSummaryRow) : a.Grows a :=
  ⟨le_rfl, le_rfl, le_rfl, le_rfl⟩

theorem TraceSummaryRow.Grows.trans {a b c : TraceSummaryRow} (hab : a.Grows b)
    (hbc : b.Grows c) : a.Grows c where
  startTime := hbc.startTime.trans hab.startTime
  endTime := hab.endTime.trans hbc.endTime
  spanCount := hab.spanCount.trans hbc.spanCount
  linkCount := hab.linkCount.trans hbc.linkCount

/-- How much a row shows: the spans, the links and the duration, compared one by one. -/
def TraceSummaryRow.extent (t : TraceSummaryRow) : Int × Int × Int :=
  (t.spanCount, t.linkCount, Time.sub t.endTime t.startTime)

theorem TraceSummaryRow.Grows.extent_le {a b : TraceSummaryRow} (h : a.Grows b) :
    a.extent ≤ b.extent :=
  ⟨Int.ofNat_le.mpr h.spanCount, Int.ofNat_le.mpr h.linkCount, h.duration_le⟩

/-- Merging a span into a state that has some makes its row grow. -/
theorem mergeSpan_grows
    {state : TraceSummaryState} (hpos : state.spanCount ≠ 0) (r : SpanRow) (t : Time) :
    state.row.Grows (state.mergeSpan r t).row := by
  rw [mergeSpan_eq hpos]
  refine ⟨?_, ?_, Nat.le_add_right _ _, Nat.le_add_right _ _⟩
  · change (if r.startTS < state.startTime then r.startTS else state.startTime) ≤ state.startTime
    split
    · rename_i hlt
      exact hlt.le
    · exact le_rfl
  · change state.endTime ≤ if state.endTime < r.endTS then r.endTS else state.endTime
    split
    · rename_i hlt
      exact hlt.le
    · exact le_rfl

theorem foldl_mergeSpan_grows
    (t : Time) (rows : List SpanRow) {state : TraceSummaryState} (hpos : state.spanCount ≠ 0) :
    state.row.Grows (rows.foldl (fun st r => st.mergeSpan r t) state).row := by
  induction rows generalizing state with
  | nil => exact .refl _
  | cons r rows ih =>
      have hmore : (state.mergeSpan r t).spanCount ≠ 0 := Nat.succ_ne_zero _
      exact (mergeSpan_grows hpos r t).trans (ih hmore)

/-- The row of more spans has grown. -/
theorem Aggregates.grows
    {spans more : List StoredSpan} {a b : TraceSummaryRow}
    (ha : Aggregates spans a) (hb : Aggregates (spans ++ more) b) :
    a.Grows b where
  startTime := by
    obtain ⟨s, hs, heq⟩ := ha.startTime.1
    exact hb.startTime.2 ⟨s, List.mem_append_left more hs, heq⟩
  endTime := by
    obtain ⟨s, hs, heq⟩ := ha.endTime.1
    exact hb.endTime.2 ⟨s, List.mem_append_left more hs, heq⟩
  spanCount := by
    rw [ha.spanCount, hb.spanCount, List.length_append]
    exact Nat.le_add_right _ _
  linkCount := by
    rw [ha.linkCount, hb.linkCount, List.map_append, List.sum_append]
    exact Nat.le_add_right _ _

theorem spansAfter_append (first : SpanBatch id) (front rest : List (SpanBatch id)) :
    spansAfter first (front ++ rest) =
      spansAfter first front ++ rest.flatMap SpanBatch.stored := by
  simp [spansAfter]

/-- Every commit makes the row of the trace grow. -/
theorem storedAfter_grows
    (first : SpanBatch id) {front later : List (SpanBatch id)} (h : front <+: later) :
    (storedAfter first front).Grows (storedAfter first later) := by
  obtain ⟨rest, rfl⟩ := h
  have hlater := (storedAfter_follows first (front ++ rest)).aggregates
  rw [spansAfter_append] at hlater
  exact (storedAfter_follows first front).aggregates.grows hlater

/-- How long the root lasts: the longest parentless span. -/
def rootLength (spans : List StoredSpan) : WithBot Int :=
  match roots Time.sub spans with
  | none => ⊥
  | some s => (Time.sub s.endTS s.startTS : Int)

end Storage
end Otelop
