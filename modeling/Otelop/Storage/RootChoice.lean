import Mathlib.Tactic
import Otelop.Storage.CommitTraces

/-!
# Four computations of one trace summary

Besides `mergeSpan` and the rebuild query, `internal/storage/query_trace.go` summarises a trace
twice more: `summarizeSpans` with `PickRootSpan` in Go, and `traceSummaryAggregationQuery` in
SQL.  Each is modelled from its own text and brought to the same `TraceView`.

The two in Go compare durations, the two in SQL compare differences of timestamps, `sub`.  All
four choose the parentless span that lasts longest and break ties by the id, so they can only
differ where `sub` does not tell two durations apart that Go does, or the other way round.

**Results.**
* `mergedView_isView`, `summarizedView_isView`, `rebuiltView_isView`, `aggregatedView_isView`:
  each chooses the first parentless span in its order.
* `rootChoices_agree_iff`: when all four agree.
-/

namespace Otelop
namespace Storage

open Lib

/-- A span as `TraceByID` reads it, with the fields a summary uses. -/
structure SpanDetail where
  linkCount : Nat
  traceID : String
  spanID : String
  parentSpanID : String
  name : String
  kind : String
  startTS : Time
  endTS : Time
  duration : Int
  statusCode : String
  serviceName : String

/-- One row of `spanDetailsQuery`: the span joined with its resource. -/
def StoredSpan.detail (service : UInt64 → String) (s : StoredSpan) : SpanDetail where
  linkCount := s.linkCount
  traceID := s.traceID
  spanID := s.spanID
  parentSpanID := s.parentSpanID
  name := s.name
  kind := s.kind
  startTS := s.startTS
  endTS := s.endTS
  duration := Time.sub s.endTS s.startTS
  statusCode := s.statusCode
  serviceName := service s.resourceHash

/-- `sp.Duration > root.Duration || (sp.Duration == root.Duration && sp.SpanID < root.SpanID)` -/
def SpanDetail.outranks (sp root : SpanDetail) : Bool :=
  decide (root.duration < sp.duration) ||
    decide (sp.duration = root.duration) && decide (sp.spanID < root.spanID)

/-- The longest parentless span, ties to the smallest id. -/
def pickRootSpan (spans : List SpanDetail) : Option SpanDetail :=
  spans.foldl
    (fun root sp =>
      if sp.parentSpanID ≠ "" then root
      else
        match root with
        | none => some sp
        | some r => if sp.outranks r then some sp else some r)
    none

/-- The variables of the loop in `summarizeSpans`. -/
structure SummaryLoop where
  startTime : Time
  endTime : Time
  linkCount : Nat
  hasError : Bool
  root : Option SpanDetail

def SummaryLoop.step (l : SummaryLoop) (sp : SpanDetail) : SummaryLoop where
  startTime := if sp.startTS < l.startTime then sp.startTS else l.startTime
  endTime := if l.endTime < sp.endTS then sp.endTS else l.endTime
  linkCount := l.linkCount + sp.linkCount
  hasError := l.hasError || sp.statusCode = "Error"
  root :=
    if sp.parentSpanID = "" &&
        (match l.root with
          | none => true
          | some r => sp.outranks r) then some sp
    else l.root

/-- The loop of `summarizeSpans` over a nonempty list. -/
def summarizeLoop (first : SpanDetail) (spans : List SpanDetail) : SummaryLoop :=
  spans.foldl SummaryLoop.step ⟨first.startTS, first.endTS, 0, false, none⟩

/-- The rootless fallback: the span that starts first, ties to the smallest id. -/
def earliestDetail (first : SpanDetail) (spans : List SpanDetail) : SpanDetail :=
  spans.foldl
    (fun earliest sp =>
      if decide (sp.startTS < earliest.startTS) ||
          decide (sp.startTS = earliest.startTS) && decide (sp.spanID < earliest.spanID) then sp
      else earliest)
    first

def summarizeSpans (traceID : String) : List SpanDetail → TraceSummary
  | [] => ⟨0, traceID, Time.zero, none, 0, 0, false, "", none⟩
  | first :: rest =>
      let spans := first :: rest
      let l := summarizeLoop first spans
      { linkCount := l.linkCount
        traceID
        startTime := l.startTime
        firstSeen := none
        duration := Time.sub l.endTime l.startTime
        spanCount := spans.length
        hasError := l.hasError
        serviceName := (l.root.getD (earliestDetail first spans)).serviceName
        root := l.root.map fun r => ⟨r.name, r.kind, r.statusCode, r.duration⟩ }

/-- A row of `traceSummaryAggregationQuery`. -/
structure AggregatedSummary where
  traceID : String
  startTime : Time
  endTime : Time
  spanCount : Nat
  hasError : Bool
  serviceName : String
  root : Option StoredSpan
  linkCount : Nat

/-- One group of the query.  Every hash joins with a resource, so `COALESCE` takes
the service of the root where there is one. -/
def aggregateSummary (sub : Time → Time → Int) (service : UInt64 → String)
    (traceID : String) (deduped : List StoredSpan) : Option AggregatedSummary := do
  let startTime ← (deduped.map StoredSpan.startTS).min?
  let endTime ← (deduped.map StoredSpan.endTS).max?
  let first ← firstBy (lexBefore StoredSpan.startTS StoredSpan.spanID) deduped
  let root := firstBy
    (lexBefore (fun s => OrderDual.toDual (sub s.endTS s.startTS)) StoredSpan.spanID)
    (deduped.filter fun s => s.parentSpanID = "")
  some
    { traceID, startTime, endTime, root
      spanCount := deduped.length
      hasError := deduped.any fun s => s.statusCode = "Error"
      serviceName := ((root.map fun r => service r.resourceHash).or
        (some (service first.resourceHash))).getD ""
      linkCount := (deduped.map StoredSpan.linkCount).sum }

/-- `traceSummariesByIDsQuery` -/
def aggregateTraceSummariesByIDs (sub : Time → Time → Int) (service : UInt64 → String)
    (spans : List StoredSpan) (requested : List String) : List AggregatedSummary :=
  let deduped := dedupByIngest (spans.filter fun s => s.traceID ∈ requested)
  (deduped.map StoredSpan.traceID).dedup.filterMap fun id =>
    aggregateSummary sub service id (traceRows deduped id)

/-! ### One view of the four results -/

/-- The span each computation chooses as root. -/
structure RootView where
  spanID : String
  name : String
  kind : String
  statusCode : String
  startTime : Time
  endTime : Time
deriving DecidableEq

structure TraceView where
  startTime : Time
  endTime : Time
  spanCount : Nat
  hasError : Bool
  root : Option RootView
  serviceName : String
deriving DecidableEq

def RootSpan.view (r : RootSpan) : RootView :=
  ⟨r.spanID, r.name, r.kind, r.statusCode, r.startTime, r.endTime⟩

def TraceSummaryRow.view (service : UInt64 → String) (r : TraceSummaryRow) : TraceView where
  startTime := r.startTime
  endTime := r.endTime
  spanCount := r.spanCount
  hasError := r.hasError
  root := r.root.map RootSpan.view
  serviceName := service ((r.root.map RootSpan.resourceHash).getD r.earliestResourceHash)

section Views

variable (sub : Time → Time → Int) (service : UInt64 → String) (t : Time) (id : String)

/-- Folding `mergeSpan` over the spans of a new trace. -/
def mergedView (spans : List SpanRow) : Option TraceView :=
  (mergeTraceSummaryStates (fun _ => none) spans t id).map fun st => st.row.view service

/-- `TraceByID`, with the root that `PickRootSpan` picks. -/
def summarizedView (spans : List SpanRow) : Option TraceView :=
  match spans.map fun r => (r.stored t).detail service with
  | [] => none
  | first :: rest =>
      let details := first :: rest
      let summary := summarizeSpans id details
      some
        { startTime := summary.startTime
          endTime := (summarizeLoop first details).endTime
          spanCount := summary.spanCount
          hasError := summary.hasError
          root := (pickRootSpan details).map fun r =>
            ⟨r.spanID, r.name, r.kind, r.statusCode, r.startTS, r.endTS⟩
          serviceName := summary.serviceName }

/-- The row of the rebuild. -/
def rebuiltView (spans : List SpanRow) : Option TraceView :=
  (rebuildTraceSummaries sub (spans.map fun r => r.stored t) [id]).head?.map
    (TraceSummaryRow.view service)

/-- The row of the aggregation query. -/
def aggregatedView (spans : List SpanRow) : Option TraceView :=
  (aggregateTraceSummariesByIDs sub service (spans.map fun r => r.stored t) [id]).head?.map
    fun r =>
      { startTime := r.startTime
        endTime := r.endTime
        spanCount := r.spanCount
        hasError := r.hasError
        root := r.root.map fun s => s.rootSpan.view
        serviceName := r.serviceName }

/-- The four computations agree, whatever order each meets the spans in. -/
def RootChoicesAgree (spans : List SpanRow) : Prop :=
  ∀ p₁ p₂ p₃ p₄ : List SpanRow,
    p₁.Perm spans → p₂.Perm spans → p₃.Perm spans → p₄.Perm spans →
      mergedView service t id p₁ = summarizedView service t id p₂ ∧
        mergedView service t id p₁ = rebuiltView sub service t id p₃ ∧
        mergedView service t id p₁ = aggregatedView sub service t id p₄

end Views

/-! ### What each computation chooses -/

/-- `v` describes `spans`, with a root that is first among the parentless spans in
the order `before`. -/
structure IsView (before : StoredSpan → StoredSpan → Bool) (service : UInt64 → String)
    (spans : List StoredSpan) (v : TraceView) : Prop where
  startTime : IsLeast {t | ∃ s ∈ spans, s.startTS = t} v.startTime
  endTime : IsGreatest {t | ∃ s ∈ spans, s.endTS = t} v.endTime
  spanCount : v.spanCount = spans.length
  hasError : v.hasError = true ↔ ∃ s ∈ spans, s.statusCode = "Error"
  root : (∃ s, IsFirst before (parentless spans) s ∧ v.root = some s.rootSpan.view ∧
      v.serviceName = service s.resourceHash) ∨
    (parentless spans = [] ∧ v.root = none ∧
      ∃ s, IsFirst earliestBefore spans s ∧ v.serviceName = service s.resourceHash)

theorem IsView.perm
    {before : StoredSpan → StoredSpan → Bool} {service : UInt64 → String}
    {spans spans' : List StoredSpan} {v : TraceView}
    (h : IsView before service spans v) (hp : spans.Perm spans') :
    IsView before service spans' v := by
  have hmem : ∀ s, s ∈ spans ↔ s ∈ spans' := fun s => hp.mem_iff
  have hpar : (parentless spans).Perm (parentless spans') := hp.filter _
  obtain ⟨hstart, hend, hcount, herror, hroot⟩ := h
  simp only [hmem] at hstart hend herror
  refine ⟨hstart, hend, hcount.trans hp.length_eq, herror, ?_⟩
  rcases hroot with ⟨s, hs, hv⟩ | ⟨hnil, hv, s, hs, hsv⟩
  · exact Or.inl ⟨s, hs.perm hpar, hv⟩
  · rw [hnil] at hpar
    exact Or.inr ⟨hpar.symm.eq_nil, hv, s, hs.perm hp, hsv⟩

section Choices

variable (sub : Time → Time → Int) (service : UInt64 → String) (t : Time) {id : String}
  {spans : List SpanRow}

/-- The view of an aggregation. -/
theorem Aggregates.isView
    {spans : List StoredSpan} {row : TraceSummaryRow} (h : Aggregates spans row) :
    IsView (rootBefore Time.sub) service spans (row.view service) := by
  refine ⟨h.startTime, h.endTime, h.spanCount, h.hasError, ?_⟩
  obtain ⟨s, hs, -, hhash⟩ := h.earliest
  have hroot := h.root
  unfold TraceSummaryRow.view
  cases hr : row.root with
  | none =>
      rw [hr] at hroot
      refine Or.inr ⟨?_, rfl, s, hs, ?_⟩
      · exact List.filter_eq_nil_iff.mpr fun x hx => by simpa using hroot x hx
      · exact congrArg service hhash
  | some r =>
      rw [hr] at hroot
      obtain ⟨x, hx, rfl⟩ := hroot
      exact Or.inl ⟨x, hx, rfl, rfl⟩

theorem mergedView_isView
    (hne : spans ≠ []) (hid : ∀ r ∈ spans, r.traceID = id) :
    ∃ v, mergedView service t id spans = some v ∧
      IsView (rootBefore Time.sub) service (spans.map fun r => r.stored t) v := by
  obtain ⟨first, rest, rfl⟩ := List.exists_cons_of_ne_nil hne
  have hmerge : mergeTraceSummaryStates (fun _ => none) (first :: rest) t id =
      some (mergedState (Db.empty Unit) (first :: rest) t id) :=
    mergeTraceSummaryStates_eq_mergedState
      ⟨first, List.mem_cons_self, hid first List.mem_cons_self⟩ rfl
  have hall : ((first :: rest).filter fun r => r.traceID = id) = first :: rest :=
    List.filter_eq_self.mpr fun r hr => by simpa using hid r hr
  have htracks := foldl_mergeSpan_tracks t rest (mergeSpan_tracks_first first t)
  refine ⟨_, ?_, htracks.aggregates.isView service⟩
  unfold mergedView
  rw [hmerge, mergedState, hall]
  rfl

/-- The views of the two queries have the same root, start and end. -/
theorem isView_of_query
    {rows : List StoredSpan} {v : TraceView} {first : StoredSpan}
    (hstart : (rows.map StoredSpan.startTS).min? = some v.startTime)
    (hend : (rows.map StoredSpan.endTS).max? = some v.endTime)
    (hfirst : earliest rows = some first)
    (hcount : v.spanCount = rows.length)
    (herror : v.hasError = rows.any fun s => s.statusCode = "Error")
    (hroot : v.root = (roots sub rows).map fun s => s.rootSpan.view)
    (hservice : v.serviceName =
      service (((roots sub rows).map StoredSpan.resourceHash).getD first.resourceHash)) :
    IsView (rootBefore sub) service rows v := by
  refine ⟨isLeast_of_min? hstart, isGreatest_of_max? hend, hcount, ?_, ?_⟩
  · rw [herror]
    simp
  · cases hr : roots sub rows with
    | none =>
        rw [hr] at hroot hservice
        refine Or.inr ⟨firstBy_eq_none_iff.mp hr, hroot, first, ?_, hservice⟩
        exact firstBy_isFirst earliestBefore_strictOrder hfirst
    | some s =>
        rw [hr] at hroot hservice
        exact Or.inl ⟨s, firstBy_isFirst (rootBefore_strictOrder sub) hr, hroot, hservice⟩

theorem stored_keys_nodup
    (hids : (spans.map SpanRow.spanID).Nodup) :
    ((spans.map fun r => r.stored t).map StoredSpan.key).Nodup := by
  have : (spans.map SpanRow.spanID) =
      ((spans.map fun r => r.stored t).map StoredSpan.key).map Prod.snd := by
    simp only [List.map_map]
    rfl
  rw [this] at hids
  exact hids.of_map _

/-- Grouping the spans of one trace by their trace id gives one group. -/
theorem filterMap_groups
    {α : Type} (f : String → List StoredSpan → Option α)
    (hne : spans ≠ []) (hid : ∀ r ∈ spans, r.traceID = id)
    (hids : (spans.map SpanRow.spanID).Nodup)
    {deduped : List StoredSpan}
    (hdeduped : deduped = dedupByIngest
      ((spans.map fun r => r.stored t).filter fun s => s.traceID ∈ [id])) :
    (deduped.map StoredSpan.traceID).dedup.filterMap
        (fun id' => f id' (traceRows deduped id')) =
      (f id (spans.map fun r => r.stored t)).toList := by
  have hall : ∀ s ∈ spans.map fun r => r.stored t, s.traceID = id := by
    intro s hs
    obtain ⟨r, hr, rfl⟩ := List.mem_map.mp hs
    exact hid r hr
  have hfilter : ((spans.map fun r => r.stored t).filter fun s => s.traceID ∈ [id]) =
      spans.map fun r => r.stored t :=
    List.filter_eq_self.mpr fun s hs => by simpa using hall s hs
  have hgroup : (spans.map fun r => r.stored t).map StoredSpan.traceID =
      List.replicate spans.length id := by
    rw [List.eq_replicate_iff]
    refine ⟨by simp, fun x hx => ?_⟩
    obtain ⟨s, hs, rfl⟩ := List.mem_map.mp hx
    exact hall s hs
  have hrows : traceRows (spans.map fun r => r.stored t) id =
      spans.map fun r => r.stored t :=
    List.filter_eq_self.mpr fun s hs => by simpa using hall s hs
  rw [hdeduped, hfilter, dedupByIngest_eq_self (stored_keys_nodup t hids), hgroup,
    List.replicate_dedup (mt List.length_eq_zero_iff.mp hne), List.filterMap_cons, hrows,
    List.filterMap_nil]
  cases f id (spans.map fun r => r.stored t) <;> rfl

theorem rebuiltView_isView
    (hne : spans ≠ []) (hid : ∀ r ∈ spans, r.traceID = id)
    (hids : (spans.map SpanRow.spanID).Nodup) :
    ∃ v, rebuiltView sub service t id spans = some v ∧
      IsView (rootBefore sub) service (spans.map fun r => r.stored t) v := by
  have hstored : (spans.map fun r => r.stored t) ≠ [] := by simpa using hne
  obtain ⟨row, hrow⟩ := exists_aggregateGroup sub id hstored
  refine ⟨row.view service, ?_, ?_⟩
  · unfold rebuiltView rebuildTraceSummaries
    dsimp only
    rw [filterMap_groups t (aggregateGroup sub) hne hid hids rfl, hrow]
    rfl
  · obtain ⟨_, _, _, first, hstart, hend, -, hfirst, rfl⟩ :=
      aggregateGroup_eq_some_iff.mp hrow
    refine isView_of_query sub service hstart hend hfirst rfl rfl ?_ ?_ <;>
      simp only [TraceSummaryRow.view, Option.map_map] <;> rfl

theorem aggregateSummary_eq
    {rows : List StoredSpan} {startTime endTime : Time} {first : StoredSpan}
    (hstart : (rows.map StoredSpan.startTS).min? = some startTime)
    (hend : (rows.map StoredSpan.endTS).max? = some endTime)
    (hfirst : earliest rows = some first) :
    aggregateSummary sub service id rows =
      some
        { traceID := id, startTime, endTime
          root := roots sub rows
          spanCount := rows.length
          hasError := rows.any fun s => s.statusCode = "Error"
          serviceName := (((roots sub rows).map fun r => service r.resourceHash).or
            (some (service first.resourceHash))).getD ""
          linkCount := (rows.map StoredSpan.linkCount).sum } := by
  have hfirst' : firstBy (lexBefore StoredSpan.startTS StoredSpan.spanID) rows =
      some first := hfirst
  unfold aggregateSummary
  rw [hstart, hend, hfirst']
  rfl

theorem aggregatedView_isView
    (hne : spans ≠ []) (hid : ∀ r ∈ spans, r.traceID = id)
    (hids : (spans.map SpanRow.spanID).Nodup) :
    ∃ v, aggregatedView sub service t id spans = some v ∧
      IsView (rootBefore sub) service (spans.map fun r => r.stored t) v := by
  have hstored : (spans.map fun r => r.stored t) ≠ [] := by simpa using hne
  obtain ⟨row, hrow⟩ := exists_aggregateGroup sub id hstored
  obtain ⟨startTime, endTime, _, first, hstart, hend, -, hfirst, -⟩ :=
    aggregateGroup_eq_some_iff.mp hrow
  unfold aggregatedView aggregateTraceSummariesByIDs
  dsimp only
  rw [filterMap_groups t (aggregateSummary sub service) hne hid hids rfl,
    aggregateSummary_eq sub service hstart hend hfirst]
  refine ⟨_, rfl, isView_of_query sub service hstart hend hfirst rfl rfl rfl ?_⟩
  cases roots sub (spans.map fun r => r.stored t) <;> rfl

/-! ### The loops of `summarizeSpans` -/

theorem outranks_detail (a b : StoredSpan) :
    (a.detail service).outranks (b.detail service) = rootBefore Time.sub a b := by
  simp only [SpanDetail.outranks, rootBefore, lexBefore, OrderDual.toDual_lt_toDual,
    OrderDual.toDual_inj]
  rfl

theorem pickRootSpan_details (l : List StoredSpan) :
    pickRootSpan (l.map (StoredSpan.detail service)) =
      (firstBy (rootBefore Time.sub) (parentless l)).map (StoredSpan.detail service) := by
  induction l using List.reverseRecOn with
  | nil => rfl
  | append_singleton l a ih =>
      unfold pickRootSpan at ih ⊢
      rw [List.map_append, List.foldl_append, ih, parentless_snoc]
      simp only [List.map_cons, List.map_nil, List.foldl_cons, List.foldl_nil]
      have hparent : (a.detail service).parentSpanID = a.parentSpanID := rfl
      by_cases hp : a.parentSpanID = ""
      · rw [if_pos hp, firstBy_snoc, if_neg (by rw [hparent]; simpa using hp)]
        cases firstBy (rootBefore Time.sub) (parentless l) with
        | none => rfl
        | some r =>
            simp only [Option.map_some, outranks_detail service, keepFirst]
            split <;> rfl
      · rw [if_neg hp, if_pos (by rw [hparent]; exact hp)]

/-- The loop variables after a prefix of the list. -/
theorem summarizeLoop_details (first : StoredSpan) (l : List StoredSpan) :
    IsLeast {t | ∃ s ∈ first :: l, s.startTS = t}
        (summarizeLoop (first.detail service) (l.map (StoredSpan.detail service))).startTime ∧
      IsGreatest {t | ∃ s ∈ first :: l, s.endTS = t}
        (summarizeLoop (first.detail service) (l.map (StoredSpan.detail service))).endTime ∧
      ((summarizeLoop (first.detail service)
          (l.map (StoredSpan.detail service))).hasError = true ↔
        ∃ s ∈ l, s.statusCode = "Error") ∧
      (summarizeLoop (first.detail service) (l.map (StoredSpan.detail service))).root =
        pickRootSpan (l.map (StoredSpan.detail service)) := by
  induction l using List.reverseRecOn with
  | nil =>
      exact ⟨isLeast_singleton_span first, isGreatest_singleton_span first,
        by simp [summarizeLoop], rfl⟩
  | append_singleton l a ih =>
      obtain ⟨hstart, hend, herror, hroot⟩ := ih
      unfold summarizeLoop pickRootSpan at *
      rw [List.map_append, List.foldl_append, List.foldl_append]
      simp only [List.map_cons, List.map_nil, List.foldl_cons, List.foldl_nil]
      refine ⟨isLeast_snoc hstart a, isGreatest_snoc hend a, ?_, ?_⟩
      · simp only [SummaryLoop.step, Bool.or_eq_true, herror, decide_eq_true_eq,
          List.mem_append, List.mem_singleton]
        constructor
        · rintro (⟨s, hs, he⟩ | he)
          · exact ⟨s, Or.inl hs, he⟩
          · exact ⟨a, Or.inr rfl, he⟩
        · rintro ⟨s, hs | rfl, he⟩
          · exact Or.inl ⟨s, hs, he⟩
          · exact Or.inr he
      · rw [SummaryLoop.step, hroot]
        by_cases hp : (a.detail service).parentSpanID = ""
        · simp only [hp, decide_true, Bool.true_and, ne_eq, not_true_eq_false, if_false]
          split <;> simp_all
        · simp only [hp, decide_false, Bool.false_and, Bool.false_eq_true, if_false,
            ne_eq, not_false_eq_true, if_true]

theorem earliestDetail_details (first : StoredSpan) (l : List StoredSpan) :
    ∃ s, IsFirst earliestBefore (first :: l) s ∧
      earliestDetail (first.detail service) (l.map (StoredSpan.detail service)) =
        s.detail service := by
  induction l using List.reverseRecOn with
  | nil => exact ⟨first, IsFirst.singleton earliestBefore_strictOrder first, rfl⟩
  | append_singleton l a ih =>
      obtain ⟨s, hs, heq⟩ := ih
      refine ⟨_, hs.snoc earliestBefore_strictOrder a, ?_⟩
      unfold earliestDetail at heq ⊢
      rw [List.map_append, List.foldl_append, heq]
      simp only [List.map_cons, List.map_nil, List.foldl_cons, List.foldl_nil]
      change (if earliestBefore a s = true then _ else _) = _
      split <;> rfl

theorem summarizedView_isView (id : String) (hne : spans ≠ []) :
    ∃ v, summarizedView service t id spans = some v ∧
      IsView (rootBefore Time.sub) service (spans.map fun r => r.stored t) v := by
  obtain ⟨first, rest, rfl⟩ := List.exists_cons_of_ne_nil hne
  have hmap : (first :: rest).map (fun r => (r.stored t).detail service) =
      ((first :: rest).map fun r => r.stored t).map (StoredSpan.detail service) := by
    rw [List.map_map]
    rfl
  obtain ⟨hstart, hend, herror, hroot⟩ := summarizeLoop_details service
    (first.stored t) ((first :: rest).map fun r => r.stored t)
  obtain ⟨s, hs, hearliest⟩ := earliestDetail_details service
    (first.stored t) ((first :: rest).map fun r => r.stored t)
  have hpick := pickRootSpan_details service
    ((first :: rest).map fun r => r.stored t)
  -- the loops visit the first span once more
  have htwice : ∀ x, x ∈ first.stored t :: ((first :: rest).map fun r => r.stored t) ↔
      x ∈ (first :: rest).map fun r => r.stored t := by
    intro x
    simp
  simp only [htwice] at hstart hend
  have hs : IsFirst earliestBefore ((first :: rest).map fun r => r.stored t) s :=
    ⟨(htwice s).mp hs.1, fun y hy => hs.2 y ((htwice y).mpr hy)⟩
  unfold summarizedView
  rw [hmap]
  refine ⟨_, rfl, hstart, hend, by simp [summarizeSpans], herror, ?_⟩
  dsimp only [summarizeSpans]
  rw [List.map_cons, List.map_cons] at hroot hpick hearliest
  rw [hroot, hearliest, hpick]
  cases hr : firstBy (rootBefore Time.sub)
      (parentless ((first :: rest).map fun r => r.stored t)) with
  | none =>
      rw [List.map_cons] at hr
      rw [hr]
      exact Or.inr ⟨firstBy_eq_none_iff.mp hr, rfl, s, hs, rfl⟩
  | some r =>
      have hfirst := firstBy_isFirst (rootBefore_strictOrder _) hr
      rw [List.map_cons] at hr
      rw [hr]
      exact Or.inl ⟨r, hfirst, rfl, rfl⟩

/-! ### When the four agree -/

/-- `s` comes before `r` when longer ones come first and ties go to the smaller id. -/
def Outlasts (d : Time → Time → Int) (s r : SpanRow) : Prop :=
  d r.endTS r.startTS < d s.endTS s.startTS ∨
    d r.endTS r.startTS = d s.endTS s.startTS ∧ s.spanID ≤ r.spanID

/-- The parentless span that outlasts the others by its duration also does so by
the difference `sub` of its timestamps. -/
def LongestKept (sub : Time → Time → Int) (spans : List SpanRow) : Prop :=
  ∀ s ∈ spans, s.parentSpanID = "" →
    (∀ r ∈ spans, r.parentSpanID = "" → Outlasts Time.sub s r) →
      ∀ r ∈ spans, r.parentSpanID = "" → Outlasts sub s r

theorem rootBefore_stored_eq_false_iff {d : Time → Time → Int} {s r : SpanRow} :
    rootBefore d (r.stored t) (s.stored t) = false ↔ Outlasts d s r := by
  rw [← Bool.not_eq_true, rootBefore, lexBefore_iff, OrderDual.toDual_lt_toDual,
    OrderDual.toDual_inj]
  change ¬ (d s.endTS s.startTS < d r.endTS r.startTS ∨
    d r.endTS r.startTS = d s.endTS s.startTS ∧ r.spanID < s.spanID) ↔ _
  unfold Outlasts
  rcases lt_trichotomy (d r.endTS r.startTS) (d s.endTS s.startTS) with h | h | h
  · simp [h, h.le, h.ne]
  · simp only [h, lt_irrefl, false_or, true_and, not_lt]
  · simp [h, h.ne', not_lt.mpr h.le]

theorem isFirst_parentless_iff
    {d : Time → Time → Int} {x : StoredSpan} :
    IsFirst (rootBefore d) (parentless (spans.map fun r => r.stored t)) x ↔
      ∃ s ∈ spans, s.stored t = x ∧ s.parentSpanID = "" ∧
        ∀ r ∈ spans, r.parentSpanID = "" → Outlasts d s r := by
  constructor
  · rintro ⟨hx, hall⟩
    obtain ⟨hx, hp⟩ := mem_parentless.mp hx
    obtain ⟨s, hs, rfl⟩ := List.mem_map.mp hx
    refine ⟨s, hs, rfl, hp, fun r hr hrp => ?_⟩
    exact (rootBefore_stored_eq_false_iff t).mp
      (hall (r.stored t) (mem_parentless.mpr ⟨List.mem_map_of_mem hr, hrp⟩))
  · rintro ⟨s, hs, rfl, hp, hall⟩
    refine ⟨mem_parentless.mpr ⟨List.mem_map_of_mem hs, hp⟩, fun y hy => ?_⟩
    obtain ⟨hy, hyp⟩ := mem_parentless.mp hy
    obtain ⟨r, hr, rfl⟩ := List.mem_map.mp hy
    exact (rootBefore_stored_eq_false_iff t).mpr (hall r hr hyp)

/-- Two views whose orders have the same first parentless span are equal. -/
theorem IsView.eq
    {before before' : StoredSpan → StoredSpan → Bool} {spans : List StoredSpan}
    {v v' : TraceView}
    (hids : (spans.map StoredSpan.spanID).Nodup)
    (htotal : TotalOn before' (parentless spans))
    (hfirst : ∀ x, IsFirst before (parentless spans) x → IsFirst before' (parentless spans) x)
    (h : IsView before service spans v) (h' : IsView before' service spans v') :
    v = v' := by
  have hstart := h.startTime.unique h'.startTime
  have hend := h.endTime.unique h'.endTime
  have hcount := h.spanCount.trans h'.spanCount.symm
  have herror : v.hasError = v'.hasError := by
    rw [Bool.eq_iff_iff, h.hasError, h'.hasError]
  have hroot : v.root = v'.root ∧ v.serviceName = v'.serviceName := by
    rcases h.root with ⟨s, hs, hr, hsv⟩ | ⟨hnil, hr, s, hs, hsv⟩ <;>
      rcases h'.root with ⟨s', hs', hr', hsv'⟩ | ⟨hnil', hr', s', hs', hsv'⟩
    · rw [hr, hr', hsv, hsv', (hfirst s hs).unique htotal hs']
      exact ⟨rfl, rfl⟩
    · rw [hnil'] at hs
      cases hs.1
    · rw [hnil] at hs'
      cases hs'.1
    · rw [hr, hr', hsv, hsv', hs.unique (earliestBefore_totalOn hids) hs']
      exact ⟨rfl, rfl⟩
  cases v
  cases v'
  simp_all

/-- Two first parentless spans with the same times are the same span. -/
theorem isFirst_eq_of_times
    {spans : List StoredSpan} (hids : (spans.map StoredSpan.spanID).Nodup)
    {d d' : Time → Time → Int} {x y : StoredSpan}
    (hx : IsFirst (rootBefore d) (parentless spans) x)
    (hy : IsFirst (rootBefore d') (parentless spans) y)
    (hstart : x.startTS = y.startTS) (hend : x.endTS = y.endTS) :
    x = y := by
  have hyx := hx.2 y hy.1
  have hxy := hy.2 x hx.1
  simp only [rootBefore, lexBefore, hstart, hend, lt_irrefl, decide_false, decide_true,
    Bool.false_or, Bool.true_and, decide_eq_false_iff_not, not_lt] at hyx hxy
  exact List.inj_on_of_nodup_map hids (mem_parentless.mp hx.1).1 (mem_parentless.mp hy.1).1
    (le_antisymm hyx hxy)

theorem stored_spanIDs_nodup
    (hids : (spans.map SpanRow.spanID).Nodup) :
    ((spans.map fun r => r.stored t).map StoredSpan.spanID).Nodup := by
  rw [List.map_map]
  exact hids

/-- For the spans of one trace with distinct ids, the four computations agree in
every order exactly when the database's difference of timestamps keeps the
longest parentless span first. -/
theorem rootChoices_agree_iff
    (hid : ∀ r ∈ spans, r.traceID = id) (hids : (spans.map SpanRow.spanID).Nodup) :
    RootChoicesAgree sub service t id spans ↔ LongestKept sub spans := by
  have hids' := stored_spanIDs_nodup t hids
  constructor
  · intro hagree s hs hp hlongest
    have hne : spans ≠ [] := List.ne_nil_of_mem hs
    obtain ⟨v, hv, hview⟩ := mergedView_isView service t hne hid
    obtain ⟨v', hv', hview'⟩ :=
      rebuiltView_isView sub service t hne hid hids
    have heq : v = v' := by
      have := (hagree _ _ _ _ (.refl _) (.refl _) (.refl _) (.refl _)).2.1
      rw [hv, hv'] at this
      exact Option.some.inj this
    subst heq
    have hx := (isFirst_parentless_iff t).mpr ⟨s, hs, rfl, hp, hlongest⟩
    rcases hview.root with ⟨x, hx', hr, -⟩ | ⟨hnil, -⟩
    · have hxs := hx'.unique (rootBefore_totalOn hids' _) hx
      subst hxs
      rcases hview'.root with ⟨y, hy, hr', -⟩ | ⟨hnil, -⟩
      · have hrv := Option.some.inj (hr.symm.trans hr')
        have hxy := isFirst_eq_of_times hids' hx' hy
          (congrArg RootView.startTime hrv) (congrArg RootView.endTime hrv)
        subst hxy
        obtain ⟨s', hs', heq, -, hall⟩ := (isFirst_parentless_iff t).mp hy
        have : s' = s := List.inj_on_of_nodup_map hids hs' hs (congrArg StoredSpan.spanID heq)
        exact this ▸ hall
      · rw [hnil] at hx
        cases hx.1
    · rw [hnil] at hx
      cases hx.1
  · intro hkept p₁ p₂ p₃ p₄ hp₁ hp₂ hp₃ hp₄
    by_cases hne : spans = []
    · subst hne
      rw [hp₁.eq_nil, hp₂.eq_nil, hp₃.eq_nil, hp₄.eq_nil]
      exact ⟨rfl, rfl, rfl⟩
    · have hpne : ∀ {p : List SpanRow}, p.Perm spans → p ≠ [] :=
        fun hp h => hne (h ▸ hp).symm.eq_nil
      have hpid : ∀ {p : List SpanRow}, p.Perm spans → ∀ r ∈ p, r.traceID = id :=
        fun hp r hr => hid r (hp.mem_iff.mp hr)
      have hpids : ∀ {p : List SpanRow}, p.Perm spans → (p.map SpanRow.spanID).Nodup :=
        fun hp => (hp.map _).nodup_iff.mpr hids
      obtain ⟨v₁, hv₁, hw₁⟩ :=
        mergedView_isView service t (hpne hp₁) (hpid hp₁)
      obtain ⟨v₂, hv₂, hw₂⟩ :=
        summarizedView_isView service t id (hpne hp₂)
      obtain ⟨v₃, hv₃, hw₃⟩ := rebuiltView_isView sub service t
        (hpne hp₃) (hpid hp₃) (hpids hp₃)
      obtain ⟨v₄, hv₄, hw₄⟩ := aggregatedView_isView sub service t
        (hpne hp₄) (hpid hp₄) (hpids hp₄)
      have hfirst : ∀ x,
          IsFirst (rootBefore Time.sub) (parentless (spans.map fun r => r.stored t)) x →
            IsFirst (rootBefore sub) (parentless (spans.map fun r => r.stored t)) x := by
        intro x hx
        obtain ⟨s, hs, rfl, hp, hall⟩ := (isFirst_parentless_iff t).mp hx
        exact (isFirst_parentless_iff t).mpr ⟨s, hs, rfl, hp, hkept s hs hp hall⟩
      have hw₁ := hw₁.perm (hp₁.map _)
      have h₂ : v₁ = v₂ := hw₁.eq service hids' (rootBefore_totalOn hids' _) (fun _ hx => hx)
        (hw₂.perm (hp₂.map _))
      have h₃ : v₁ = v₃ := hw₁.eq service hids' (rootBefore_totalOn hids' _) hfirst
        (hw₃.perm (hp₃.map _))
      have h₄ : v₁ = v₄ := hw₁.eq service hids' (rootBefore_totalOn hids' _) hfirst
        (hw₄.perm (hp₄.map _))
      rw [hv₁, hv₂, hv₃, hv₄, ← h₂, ← h₃, ← h₄]
      exact ⟨rfl, rfl, rfl⟩

end Choices

/-- Two parentless spans whose durations differ by less than a microsecond: the
shorter one has the smaller id. -/
theorem rootChoices_disagree :
    ¬ RootChoicesAgree (fun e s => e.tdiv 1000 - s.tdiv 1000) (fun _ => "checkout") 0 "t"
      [.bare "t" "b" "" 0 1500, .bare "t" "a" "" 0 1200] := by
  intro h
  have := (h _ _ _ _ (.refl _) (.refl _) (.refl _) (.refl _)).2.1
  revert this
  decide

theorem rootChoices_agree_iff_twoRoots :
    RootChoicesAgree (fun e s => e.tdiv 1000 - s.tdiv 1000) (fun _ => "checkout") 0 "t"
        [.bare "t" "b" "" 0 3000, .bare "t" "a" "" 0 1200] ↔
      LongestKept (fun e s => e.tdiv 1000 - s.tdiv 1000)
        [.bare "t" "b" "" 0 3000, .bare "t" "a" "" 0 1200] :=
  rootChoices_agree_iff _ _ 0 (by simp [SpanRow.bare]) (by decide)

end Storage
end Otelop
