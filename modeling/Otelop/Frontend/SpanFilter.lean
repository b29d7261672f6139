import Mathlib.Tactic
import Otelop.Frontend.LogFilter
import Otelop.Frontend.SpanTree
import Otelop.Lib.ParentChain

/-!
# Filters of the waterfall

`matchingSpanIds` and `spanPath` of `frontend/src/components/traces/span-tree.ts`: the ids of
the spans that pass a filter, or of the selected one, with the ids of the spans above them.
Their loops have a number of rounds, and a run that needs more gives nothing.

A span may name itself or one of its descendants as its parent, so that climbing to the parents
comes round to a span again; the loops stop at an id they have collected.  They climb as
`Lib/ParentChain.lean` does, which proves that as many rounds as there are spans are enough.
`AtOrAbove` is the closure of the parent links, which the ids are compared with.

**Results.**
* `mem_spanPath`, `mem_matchingSpanIds`: the ids that each loop collects.
* `matchingSpanIds_exact`: both end, and the ids are just those of the spans at or above the
  ones that pass.
-/

namespace Otelop
namespace Frontend

open Lib

/-- The fields of a span that the waterfall filters by. -/
structure WaterfallSpan extends Stores.SpanData where
  name : JsString
  serviceName : JsString
  statusCode : Stores.SpanStatus
deriving DecidableEq

abbrev spanIdOf (span : WaterfallSpan) : String := span.spanId

abbrev parentIdOf (span : WaterfallSpan) : String := span.parentSpanId

/-- What the waterfall is filtered by. -/
structure SpanFilter where
  query : JsString
  errorsOnly : Bool

/-- The tests of the loop over the spans. -/
def spanPasses (lib : BrowserLibraries) (filter : SpanFilter) (span : WaterfallSpan) : Bool :=
  let lowerQuery := lib.toLowerCase (trimUnits filter.query)
  (!filter.errorsOnly || decide (span.statusCode = .error)) &&
    (lowerQuery.isEmpty ||
      decide (lowerQuery <:+: lib.toLowerCase (span.name ++ js " " ++ span.serviceName)))

/-- `matchingSpanIds`; without a filter the ids are `none`. -/
def matchingSpanIds (lib : BrowserLibraries) (rounds : Nat) (spans : List WaterfallSpan)
    (filter : SpanFilter) : Option (Option (List String)) :=
  if (trimUnits filter.query).isEmpty && !filter.errorsOnly then some none
  else
    (climbAll spanIdOf parentIdOf spans rounds (spans.filter (spanPasses lib filter))).map some

/-- `spanPath`: from the selected span upward. -/
def spanPath (rounds : Nat) (spans : List WaterfallSpan) (selectedSpanId : Option String) :
    Option (List String) :=
  let selected := selectedSpanId.bind fun id =>
    if id = "" then none else nodeById spanIdOf spans id
  climb spanIdOf parentIdOf spans rounds [] selected

/-- The parents of a span within the list, up to one of them.  The loops look an empty parent id
up like any other, so an empty id may be somebody's parent, unlike in the tree. -/
def AtOrAbove (spans : List WaterfallSpan) (span above : WaterfallSpan) : Prop :=
  Relation.ReflTransGen (HasParent spanIdOf parentIdOf spans) span above

variable {spans : List WaterfallSpan}

theorem mem_selected_iff
    (hids : (spans.map spanIdOf).Nodup) {selectedSpanId : Option String}
    {span : WaterfallSpan} :
    (span ∈ selectedSpanId.bind fun id =>
        if id = "" then none else nodeById spanIdOf spans id) ↔
      span ∈ spans ∧ selectedSpanId = some span.spanId ∧ span.spanId ≠ "" := by
  rw [Option.mem_def, Option.bind_eq_some_iff]
  constructor
  · rintro ⟨id, rfl, hfound⟩
    split_ifs at hfound with hempty
    obtain ⟨hspan, rfl⟩ := mem_of_nodeById hfound
    exact ⟨hspan, rfl, hempty⟩
  · rintro ⟨hspan, rfl, hne⟩
    refine ⟨_, rfl, ?_⟩
    rw [if_neg hne]
    exact nodeById_of_mem hids hspan

/-- The ids of the selected span and of the spans above it. -/
theorem mem_spanPath
    (hids : (spans.map spanIdOf).Nodup) {rounds : Nat}
    (hrounds : spans.length ≤ rounds) (selectedSpanId : Option String) :
    ∃ ids, spanPath rounds spans selectedSpanId = some ids ∧
      ∀ id, id ∈ ids ↔ ∃ span ∈ spans, (selectedSpanId = some span.spanId ∧ span.spanId ≠ "") ∧
        ∃ above, AtOrAbove spans span above ∧ above.spanId = id := by
  have hselected : ∀ span ∈ selectedSpanId.bind (fun id =>
      if id = "" then none else nodeById spanIdOf spans id),
      span ∈ spans := fun span hspan => ((mem_selected_iff hids).mp hspan).1
  obtain ⟨ids, hrun⟩ : ∃ ids, spanPath rounds spans selectedSpanId = some ids :=
    exists_climb_of_length_le hrounds [] hselected
  have hclimbed := climbed_climb hids hselected hrun
  have hclosed := hclimbed.closed fun _ _ hin => absurd hin List.not_mem_nil
  refine ⟨ids, hrun, fun id => ⟨fun hid => ?_, ?_⟩⟩
  · obtain ⟨span, hspan, above, hway, habove⟩ :=
      (hclimbed.above id hid).resolve_left List.not_mem_nil
    obtain ⟨hmem, hsame⟩ := (mem_selected_iff hids).mp hspan
    exact ⟨span, hmem, hsame, above, hway, habove⟩
  · rintro ⟨span, hmem, hsame, above, hway, rfl⟩
    exact hclosed.mem_of_above hmem
      (hclimbed.start span ((mem_selected_iff hids).mpr ⟨hmem, hsame⟩)) hway

/-- The ids of the spans that pass a filter and of the spans above them. -/
theorem mem_matchingSpanIds
    (lib : BrowserLibraries) (hids : (spans.map spanIdOf).Nodup) {rounds : Nat}
    (hrounds : spans.length ≤ rounds) (filter : SpanFilter) :
    ∃ result, matchingSpanIds lib rounds spans filter = some result ∧
      (result = none ↔ (trimUnits filter.query).isEmpty && !filter.errorsOnly) ∧
      ∀ ids, result = some ids →
        UpwardClosed spanIdOf parentIdOf spans ids ∧
        ∀ id, id ∈ ids ↔ ∃ span ∈ spans, spanPasses lib filter span = true ∧
          ∃ above, AtOrAbove spans span above ∧ above.spanId = id := by
  rw [matchingSpanIds]
  split_ifs with hoff
  · exact ⟨none, rfl, iff_of_true rfl hoff, fun ids hresult => by cases hresult⟩
  · have hstarts : ∀ span ∈ spans.filter (spanPasses lib filter), span ∈ spans :=
      fun span hspan => List.mem_of_mem_filter hspan
    obtain ⟨ids, hrun, hclosed, hmem⟩ :=
      @mem_climbAll _ _ _ spanIdOf parentIdOf spans hids rounds hrounds _ hstarts
    refine ⟨some ids, by rw [hrun, Option.map_some], iff_of_false (by simp) hoff, ?_⟩
    rintro ids' heq
    cases heq
    refine ⟨hclosed, fun id => (hmem id).trans ?_⟩
    simp only [List.mem_filter, and_assoc]
    exact Iff.rfl

/-- With distinct ids both loops end, whatever the parents are, with just the ids of the spans
that pass the filter, or of the selected span, and of the spans above them. -/
theorem matchingSpanIds_exact
    (lib : BrowserLibraries) (hids : (spans.map spanIdOf).Nodup) {rounds : Nat}
    (hrounds : spans.length ≤ rounds) :
    (∀ filter, ∃ result, matchingSpanIds lib rounds spans filter = some result ∧
      (result = none ↔ (trimUnits filter.query).isEmpty && !filter.errorsOnly) ∧
      ∀ ids, result = some ids →
        UpwardClosed spanIdOf parentIdOf spans ids ∧
        ∀ id, id ∈ ids ↔ ∃ span ∈ spans, spanPasses lib filter span = true ∧
          ∃ above, AtOrAbove spans span above ∧ above.spanId = id) ∧
    ∀ selectedSpanId, ∃ ids, spanPath rounds spans selectedSpanId = some ids ∧
      ∀ id, id ∈ ids ↔ ∃ span ∈ spans, (selectedSpanId = some span.spanId ∧ span.spanId ≠ "") ∧
        ∃ above, AtOrAbove spans span above ∧ above.spanId = id :=
  ⟨mem_matchingSpanIds lib hids hrounds, mem_spanPath hids hrounds⟩

/-- Two spans in a cycle, one below it and one whose parent is missing. -/
def cyclicSpans : List WaterfallSpan :=
  [⟨⟨"a", "b", 0⟩, js "GET", js "web", .unset⟩, ⟨⟨"b", "a", 1⟩, js "call", js "web", .unset⟩,
    ⟨⟨"c", "b", 2⟩, js "query", js "db", .error⟩, ⟨⟨"d", "x", 3⟩, js "job", js "worker", .ok⟩]

def waterfallBrowser : BrowserLibraries where
  foldUnit := asciiLowerUnit
  toLowerCase s := s.map asciiLowerUnit
  number _ := none
  double q := q
  numberText _ := []
  stringify _ := []

theorem matchingSpanIds_cyclic :
    (∃ result, matchingSpanIds waterfallBrowser 4 cyclicSpans ⟨js "QUERY", true⟩ = some result ∧
      (result = none ↔ (trimUnits (js "QUERY")).isEmpty && !true) ∧
      ∀ ids, result = some ids →
        UpwardClosed spanIdOf parentIdOf cyclicSpans ids ∧
        ∀ id, id ∈ ids ↔
          ∃ span ∈ cyclicSpans, spanPasses waterfallBrowser ⟨js "QUERY", true⟩ span = true ∧
            ∃ above, AtOrAbove cyclicSpans span above ∧ above.spanId = id) ∧
      ∃ ids, spanPath 4 cyclicSpans (some "c") = some ids ∧
        ∀ id, id ∈ ids ↔
          ∃ span ∈ cyclicSpans, (some "c" = some span.spanId ∧ span.spanId ≠ "") ∧
            ∃ above, AtOrAbove cyclicSpans span above ∧ above.spanId = id :=
  ⟨(matchingSpanIds_exact waterfallBrowser (by decide) (by decide)).1 ⟨js "QUERY", true⟩,
    (matchingSpanIds_exact waterfallBrowser (by decide) (by decide)).2 (some "c")⟩

example : matchingSpanIds waterfallBrowser 4 cyclicSpans ⟨js " QUERY", true⟩ =
    some (some ["c", "b", "a"]) := by decide

end Frontend
end Otelop
