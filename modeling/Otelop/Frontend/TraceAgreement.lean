import Mathlib.Tactic
import Otelop.Frontend.MatcherAgreement
import Otelop.Frontend.TraceSearch
import Otelop.Storage.TraceSearch

/-!
# The trace search of the browser and of the server

A row of the browser that has the spans of its trace is matched like the trace
on the server.  A summary row has one made-up span, with the fields of the root
span, or of none.  Where it is accepted, the root, or else the earliest span,
meets the condition of the server.

**Results.**
* `holds_traceTermClause`: a term accepts a span on both sides.
* `summary_standsFor`: a summary stands for its root, or for its earliest span.
* `traceSearch_agrees`: the two sides agree on both kinds of rows.
-/

namespace Otelop
namespace Frontend

open Lib Storage

/-- A text that is a numeral, and that no other text equals up to case. -/
def NumeralText (server : SearchLibraries) (text : GoString) : Prop :=
  ∀ s : GoString, s.map server.fold = text.map server.fold →
    Storage.isNumber s = true ∧ (server.parseFloat s).isSome = true

/-- A span on which the two sides can be compared.  `duration` is the number a
row of the browser holds for a duration in nanoseconds, and it divides to the
milliseconds the server computes from the timestamps. -/
structure SpanAgrees (server : SearchLibraries) (browser : BrowserLibraries)
    (duration : Int → ℚ) (s : StoredSpan) (r : ResourceRow) : Prop where
  traceID : IsId 32 s.traceID
  spanID : IsId 16 s.spanID
  parentSpanID : IsId 16 s.parentSpanID
  attributes : NumbersAgree server browser s.attributes
  resource : NumbersAgree server browser r.attributes
  milliseconds : browser.double (duration (Time.sub s.endTS s.startTS) / 10 ^ 6) =
    durationMs server s
  serverText : NumeralText server (server.doubleText (durationMs server s))
  browserText : ∃ text : GoString,
    browser.numberText (durationMs server s) = utf16 text ∧ NumeralText server text

/-- A span as the browser has it. -/
def spanData (browser : BrowserLibraries) (duration : Int → ℚ) (s : StoredSpan)
    (r : ResourceRow) (events : JsString) : SpanData where
  traceId := some (utf16 s.traceID.toList)
  spanId := some (utf16 s.spanID.toList)
  parentSpanId := some (utf16 s.parentSpanID.toList)
  name := some (utf16 s.name.toList)
  kind := some (utf16 s.kind.toList)
  serviceName := some (utf16 r.serviceName.toList)
  statusCode := some (utf16 s.statusCode.toList)
  statusMessage := some (utf16 s.statusMessage.toList)
  duration := some (duration (Time.sub s.endTS s.startTS))
  attributes := some (jsRecord browser s.attributes)
  resource := some (jsRecord browser r.attributes)
  events := some events

/-- A summary as the browser has it. -/
def summaryData (duration : Int → ℚ) (item : TraceSummary)
    (searchValues : Option (List JsString)) : TraceData where
  traceId := utf16 item.traceID.toList
  serviceName := utf16 item.serviceName.toList
  rootSpan := item.root.map fun root =>
    { name := utf16 root.name.toList
      kind := utf16 root.kind.toList
      statusCode := utf16 root.statusCode.toList
      duration := duration root.duration }
  spans := []
  searchValues

/-- No term looks for a wildcard in the text of a duration. -/
def NoDurationWildcard (terms : List Storage.LogSearchTerm) : Prop :=
  ∀ term ∈ terms, term.field = "duration_ms".toList →
    term.quoted = true ∨ '*' ∉ term.value

/-! ### One term on one span -/

section Agreement

variable {V : Type} {server : SearchLibraries} {browser : BrowserLibraries}
  {duration : Int → ℚ}

/-- Both sides know the same fields. -/
theorem traceFields_utf16 : traceFields = Storage.traceFields.map utf16 := rfl

theorem traceTermValue_encodeTerm
    {span : SpanData} {term : Storage.LogSearchTerm} (hfield : term.field ≠ [])
    (hduration : term.field ≠ "duration_ms".toList)
    (value : JsValue) (hvalue : span.field (utf16 term.field) = value) :
    traceTermValue browser span (encodeTerm term) =
      if (js "_id").isSuffixOf (utf16 term.field) && isZeroId value then .undefined
      else value := by
  have hne : utf16 term.field ≠ js "duration_ms" := fun h => hduration (utf16_inj.mp h)
  rw [traceTermValue, encodeTerm_field hfield]
  simp only [if_neg hne, hvalue]

/-- The browser reads the column of a built-in field. -/
theorem shows_traceField
    {s : StoredSpan} {r : ResourceRow} (hspan : SpanAgrees server browser duration s r)
    (events : JsString) {term : Storage.LogSearchTerm}
    (hfield : term.field ∈ Storage.traceFields) :
    Shows browser (fieldColumn (traceFieldColumns server s r) term.field)
        (traceTermValue browser (spanData browser duration s r events) (encodeTerm term)) ∧
      ∀ x, fieldColumn (traceFieldColumns server s r) term.field = some x →
        (x.number?.isSome = true ↔ term.field ∈ ["duration_ms".toList]) ∧
          ∀ q, x = .double q →
            term.field = "duration_ms".toList ∧ q = durationMs server s := by
  have hne : term.field ≠ [] := by
    intro h
    rw [h] at hfield
    exact absurd hfield (by decide)
  have htext : ∀ (s' field : GoString), field ∉ ["duration_ms".toList] →
      ∀ x, some (SqlValue.text s') = some x →
        (x.number?.isSome = true ↔ field ∈ ["duration_ms".toList]) ∧
          ∀ q, x = .double q → field = "duration_ms".toList ∧ q = durationMs server s := by
    rintro s' field hnumeric x hx
    cases hx
    exact ⟨iff_of_false Bool.false_ne_true hnumeric, fun _ h => nomatch h⟩
  simp only [Storage.traceFields, List.mem_cons, List.not_mem_nil, or_false] at hfield
  rcases hfield with h | h | h | h | h | h | h | h | h
  · rw [traceTermValue_encodeTerm hne (by rw [h]; decide) (.string (utf16 s.traceID.toList))
      (by rw [h]; rfl), h]
    exact ⟨shows_id hspan.traceID, fun x hx => htext s.traceID.toList _ (by decide) x
      (nullIf_eq_some (nullIf_eq_some hx))⟩
  · rw [traceTermValue_encodeTerm hne (by rw [h]; decide) (.string (utf16 s.spanID.toList))
      (by rw [h]; rfl), h]
    exact ⟨shows_id hspan.spanID, fun x hx => htext s.spanID.toList _ (by decide) x
      (nullIf_eq_some (nullIf_eq_some hx))⟩
  · rw [traceTermValue_encodeTerm hne (by rw [h]; decide)
      (.string (utf16 s.parentSpanID.toList)) (by rw [h]; rfl), h]
    exact ⟨shows_id hspan.parentSpanID, fun x hx => htext s.parentSpanID.toList _ (by decide) x
      (nullIf_eq_some (nullIf_eq_some hx))⟩
  · rw [traceTermValue_encodeTerm hne (by rw [h]; decide)
      (.string (utf16 r.serviceName.toList)) (by rw [h]; rfl), h]
    exact ⟨.text r.serviceName.toList, htext r.serviceName.toList _ (by decide)⟩
  · rw [traceTermValue_encodeTerm hne (by rw [h]; decide) (.string (utf16 s.name.toList))
      (by rw [h]; rfl), h]
    exact ⟨.text s.name.toList, htext s.name.toList _ (by decide)⟩
  · rw [traceTermValue_encodeTerm hne (by rw [h]; decide) (.string (utf16 s.kind.toList))
      (by rw [h]; rfl), h]
    exact ⟨.text s.kind.toList, htext s.kind.toList _ (by decide)⟩
  · rw [traceTermValue_encodeTerm hne (by rw [h]; decide)
      (.string (utf16 s.statusCode.toList)) (by rw [h]; rfl), h]
    exact ⟨.text s.statusCode.toList, htext s.statusCode.toList _ (by decide)⟩
  · rw [traceTermValue_encodeTerm hne (by rw [h]; decide)
      (.string (utf16 s.statusMessage.toList)) (by rw [h]; rfl), h]
    exact ⟨.text s.statusMessage.toList, htext s.statusMessage.toList _ (by decide)⟩
  · have hvalue : traceTermValue browser (spanData browser duration s r events)
        (encodeTerm term) = .number (durationMs server s) := by
      rw [traceTermValue, encodeTerm_field hne, h, ← hspan.milliseconds]
      rfl
    rw [hvalue, h]
    refine ⟨.double (durationMs server s), ?_⟩
    intro x hx
    cases hx
    exact ⟨iff_of_true rfl (by decide), fun q hq => ⟨rfl, (SqlValue.double.inj hq).symm⟩⟩

/-- A text pattern without wildcards accepts no text of a duration that is not
asked for as a number. -/
theorem holds_ilike_numeral
    {term : Storage.LogSearchTerm} {text : GoString} (htext : NumeralText server text)
    (hwild : term.quoted = true ∨ '*' ∉ term.value)
    (hnumber : Storage.isNumber term.value = true → server.parseFloat term.value = none) :
    Sql.holds (ilike server (some text) (likeValue term)) = false := by
  have hatoms : termAtoms term = term.value.map .lit := by
    refine List.map_congr_left fun c hc => if_neg ?_
    intro hstar
    simp only [Bool.and_eq_true, Bool.not_eq_true', decide_eq_true_eq] at hstar
    rcases hwild with h | h
    · rw [h] at hstar
      cases hstar.1
    · rw [hstar.2] at hc
      exact h hc
  rw [ilike, likeAtoms_likeValue, hatoms]
  by_contra hne
  have hmatch : matchAtoms (sameFold server.fold) (term.value.map .lit) text = true :=
    eq_true_of_ne_false hne
  obtain ⟨hisNumber, hsome⟩ := htext term.value (matchAtoms_lits.mp hmatch)
  rw [hnumber hisNumber] at hsome
  cases hsome

/-- A term about a span holds on both sides or on none. -/
theorem holds_traceTermClause
    (hlib : LibrariesAgree server browser) {s : StoredSpan} {r : ResourceRow}
    (hspan : SpanAgrees server browser duration s r) (events : JsString)
    {term : Storage.LogSearchTerm}
    (hterm : term.field = [] ∨ term.field ∈ Storage.traceFields)
    (hwild : term.field = "duration_ms".toList → term.quoted = true ∨ '*' ∉ term.value) :
    Sql.holds (traceTermClause server s r term) =
      createTermMatcher browser (encodeTerm term)
        (decide ((encodeTerm term).field = some (js "duration_ms")))
        (traceTermValue browser (spanData browser duration s r events) (encodeTerm term)) := by
  refine holds_negatable ?_
  by_cases hfield : term.field = []
  · have hnone : (encodeTerm term).field = none := by simp [encodeTerm, hfield]
    have hvalue : traceTermValue browser (spanData browser duration s r events)
        (encodeTerm term) =
          ownValue (jsRecord browser (if term.resource then r.attributes else s.attributes))
            (utf16 term.key) := by
      rw [traceTermValue, hnone]
      change ownValue (Option.getD (if term.resource then _ else _) []) _ = _
      cases term.resource <;> rfl
    rw [holds_attributeSQL hlib hfield hspan.attributes hspan.resource, hvalue, hnone]
    rfl
  · obtain ⟨hshows, hcolumn⟩ := shows_traceField hspan events (hterm.resolve_left hfield)
    have hnumeric : decide ((encodeTerm term).field = some (js "duration_ms")) =
        decide (term.field ∈ ["duration_ms".toList]) := by
      rw [encodeTerm_field hfield, decide_eq_decide, Option.some.injEq, js, utf16_inj,
        List.mem_singleton]
    rw [signalAttributeSQL, if_pos hfield, hnumeric]
    refine holds_signalFieldSQL hlib hshows (fun x hx => (hcolumn x hx).1) ?_
    intro q hq hnumber hstar
    obtain ⟨hduration, rfl⟩ := (hcolumn _ hq).2 q rfl
    obtain ⟨text, htext, hnumeral⟩ := hspan.browserText
    rw [holds_ilike_numeral hspan.serverText (hwild hduration) hnumber, htext,
      ← holds_ilike hlib, holds_ilike_numeral hnumeral (hwild hduration) hnumber]

/-! ### Free text -/

/-- The libraries agree on searches with free text as well. -/
structure TraceLibrariesAgree (server : SearchLibraries) (browser : BrowserLibraries) : Prop
    extends LibrariesAgree server browser where
  lower : ∀ s : GoString, browser.toLowerCase (utf16 s) = utf16 (s.map server.fold)

/-- A text contains the free text on both sides or on none. -/
theorem textIncludes_utf16
    (hlib : TraceLibrariesAgree server browser) (plain text : GoString) :
    textIncludes browser (browser.toLowerCase (utf16 plain)) (some (utf16 text)) = true ↔
      plain.map server.fold <:+: text.map server.fold := by
  rw [textIncludes, Option.any_some, decide_eq_true_eq, hlib.lower, hlib.lower, infix_utf16]

/-- Lowering leaves no text but the empty one empty. -/
theorem toLowerCase_isEmpty
    (hlib : TraceLibrariesAgree server browser) (plain : GoString) :
    (browser.toLowerCase (utf16 plain)).isEmpty = true ↔ plain = [] := by
  rw [hlib.lower, List.isEmpty_iff, utf16_eq_nil, List.map_eq_nil_iff]

theorem holds_traceSearchPredicate
    {s : StoredSpan} {r : ResourceRow} {plain text : GoString}
    (hmem : text ∈ [s.traceID.toList, s.name.toList, s.statusCode.toList,
      r.serviceName.toList])
    (h : plain.map server.fold <:+: text.map server.fold) :
    Sql.holds (traceSearchPredicate server s r (likePattern plain)) = true := by
  rw [traceSearchPredicate, Sql.holds_any, List.any_map, List.any_eq_true]
  refine ⟨text, ?_, (holds_ilike_likePattern server plain text).mpr h⟩
  exact List.mem_append_left _ hmem

/-! ### The rows of the browser -/

/-- The spans of a trace, joined with their resources. -/
def joinedSpans (db : Db V) (traceID : String) : List (StoredSpan × ResourceRow) :=
  (traceRows db.spans traceID).filterMap fun s =>
    (db.resources.find? s.resourceHash).map fun r => (s, r)

/-- The spans of a trace with their resources. -/
theorem mem_joinedSpans {db : Db V} {traceID : String} {p : StoredSpan × ResourceRow} :
    p ∈ joinedSpans db traceID ↔
      p.1 ∈ traceRows db.spans traceID ∧ db.resources.find? p.1.resourceHash = some p.2 := by
  rw [joinedSpans, List.mem_filterMap]
  constructor
  · rintro ⟨s, hs, h⟩
    obtain ⟨r, hr, rfl⟩ := Option.map_eq_some_iff.mp h
    exact ⟨hs, hr⟩
  · rintro ⟨hs, hr⟩
    exact ⟨p.1, hs, by rw [hr]; rfl⟩

/-- The page query with this search keeps the trace. -/
theorem traceMatches_iff
    {db : Db V} {search : String} (hsearch : search ≠ "") (traceID : String) :
    db.traceMatches (traceSpanMatches server) search traceID = true ↔
      ∃ p ∈ joinedSpans db traceID,
        Sql.holds (traceSearchSQL server search.toList p.1 p.2) = true := by
  rw [Db.traceMatches, decide_eq_false hsearch, Bool.false_or, List.any_eq_true]
  constructor
  · rintro ⟨s, hs, h⟩
    rw [Bool.and_eq_true, decide_eq_true_eq, Option.any_eq_true] at h
    obtain ⟨hid, r, hr, hmatch⟩ := h
    exact ⟨(s, r), mem_joinedSpans.mpr ⟨List.mem_filter.mpr ⟨hs, by simpa using hid⟩, hr⟩,
      hmatch⟩
  · rintro ⟨p, hp, hmatch⟩
    obtain ⟨hs, hr⟩ := mem_joinedSpans.mp hp
    have hrow := List.mem_filter.mp hs
    refine ⟨p.1, hrow.1, ?_⟩
    rw [Bool.and_eq_true, Option.any_eq_true]
    exact ⟨hrow.2, p.2, hr, hmatch⟩

/-- A full row is accepted when one of its spans meets every term. -/
theorem matcher_of_spans
    {search : JsString} {plain : JsString} {terms : List LogSearchTerm}
    (hparse : parseLogSearch search traceFields = (plain, terms)) (hterms : terms ≠ [])
    {trace : TraceData} (hspans : trace.spans ≠ []) :
    createTraceSearchMatcher browser search trace =
      trace.spans.any fun span =>
        spanTextMatches browser (browser.toLowerCase plain) span &&
          terms.all fun term =>
            createTermMatcher browser term (decide (term.field = some (js "duration_ms")))
              (traceTermValue browser span term) := by
  have hempty : terms.isEmpty = false := List.isEmpty_eq_false_iff.mpr hterms
  have hfull : trace.spans.isEmpty = false := List.isEmpty_eq_false_iff.mpr hspans
  rw [createTraceSearchMatcher, hparse]
  simp only [hempty, hfull, Bool.false_and, Bool.false_eq_true, if_false]
  refine congrArg trace.spans.any (funext fun span => ?_)
  rw [spanMatches, hempty, Bool.false_and, Bool.or_false]

/-- A summary row is accepted by its root and its own fields. -/
theorem matcher_of_summary
    {search : JsString} {plain : JsString} {terms : List LogSearchTerm}
    (hparse : parseLogSearch search traceFields = (plain, terms)) (hterms : terms ≠ [])
    {trace : TraceData} (hspans : trace.spans = [])
    (h : createTraceSearchMatcher browser search trace = true) :
    (∀ term ∈ terms, ∃ field ∈ summaryFields, term.field = some field) ∧
      (trace.rootSpan = none → ∀ term ∈ terms,
        term.field = some (js "trace_id") ∨ term.field = some (js "service_name")) ∧
      spanTextMatches browser (browser.toLowerCase plain) (summarySpan trace) = true ∧
      ∀ term ∈ terms,
        createTermMatcher browser term (decide (term.field = some (js "duration_ms")))
          (traceTermValue browser (summarySpan trace) term) = true := by
  have hempty : terms.isEmpty = false := List.isEmpty_eq_false_iff.mpr hterms
  have hnone : trace.spans.isEmpty = true := List.isEmpty_iff.mpr hspans
  rw [createTraceSearchMatcher, hparse] at h
  simp only [hempty, hnone, Bool.false_and, Bool.false_eq_true, if_false, Bool.true_and,
    if_true] at h
  split at h
  · cases h
  · rename_i hfields
    split at h
    · cases h
    · rename_i hroot
      rw [List.any_cons, List.any_nil, Bool.or_false, spanMatches, hempty, Bool.false_and,
        Bool.or_false, Bool.and_eq_true, List.all_eq_true] at h
      refine ⟨?_, ?_, h⟩
      · intro term hterm
        cases hfield : term.field with
        | none =>
            refine absurd (List.any_eq_true.mpr ⟨term, hterm, ?_⟩) hfields
            rw [hfield]
        | some field =>
            refine ⟨field, ?_, rfl⟩
            by_contra hout
            refine hfields (List.any_eq_true.mpr ⟨term, hterm, ?_⟩)
            rw [hfield]
            exact decide_eq_true hout
      · intro hmissing term hterm
        by_contra hout
        rw [not_or] at hout
        refine hroot ?_
        rw [hmissing, Option.isNone_none, Bool.true_and, List.any_eq_true]
        refine ⟨term, hterm, ?_⟩
        rw [Bool.and_eq_true, decide_eq_true_eq, decide_eq_true_eq]
        exact hout

/-- A summary row shows a span of the trace and the resource of that span. -/
structure StandsFor (duration : Int → ℚ) (trace : TraceData) (s : StoredSpan)
    (r : ResourceRow) : Prop where
  traceId : trace.traceId = utf16 s.traceID.toList
  serviceName : trace.serviceName = utf16 r.serviceName.toList
  rootSpan : ∀ root, trace.rootSpan = some root →
    root = ⟨utf16 s.name.toList, utf16 s.kind.toList, utf16 s.statusCode.toList,
      duration (Time.sub s.endTS s.startTS)⟩

/-- The value for a term depends on its field only. -/
theorem traceTermValue_congr
    {span span' : SpanData} {term : LogSearchTerm} {field : JsString}
    (hterm : term.field = some field) (hfield : span.field field = span'.field field)
    (hduration : field = js "duration_ms" → span.duration = span'.duration) :
    traceTermValue browser span term = traceTermValue browser span' term := by
  rw [traceTermValue, traceTermValue, hterm]
  by_cases h : field = js "duration_ms"
  · simp only [if_pos h, hduration h]
  · simp only [if_neg h, hfield]

theorem StandsFor.traceTermValue_eq
    {trace : TraceData} {s : StoredSpan} {r : ResourceRow}
    (h : StandsFor duration trace s r) (events : JsString) {term : LogSearchTerm}
    {field : JsString} (hterm : term.field = some field) (hfield : field ∈ summaryFields)
    (hroot : trace.rootSpan = none →
      field = js "trace_id" ∨ field = js "service_name") :
    traceTermValue browser (summarySpan trace) term =
      traceTermValue browser (spanData browser duration s r events) term := by
  have htrace : field = js "trace_id" → traceTermValue browser (summarySpan trace) term =
      traceTermValue browser (spanData browser duration s r events) term := by
    rintro rfl
    refine traceTermValue_congr hterm ?_ fun habs => absurd habs (by decide)
    exact congrArg JsValue.string h.traceId
  have hservice : field = js "service_name" →
      traceTermValue browser (summarySpan trace) term =
        traceTermValue browser (spanData browser duration s r events) term := by
    rintro rfl
    refine traceTermValue_congr hterm ?_ fun habs => absurd habs (by decide)
    exact congrArg JsValue.string h.serviceName
  cases hsome : trace.rootSpan with
  | none =>
      rcases hroot hsome with hcase | hcase
      · exact htrace hcase
      · exact hservice hcase
  | some root =>
      have hvalues := h.rootSpan root hsome
      simp only [summaryFields, List.mem_cons, List.not_mem_nil, or_false] at hfield
      rcases hfield with hcase | hcase | rfl | rfl | rfl | rfl
      · exact htrace hcase
      · exact hservice hcase
      · refine traceTermValue_congr hterm ?_ fun habs => absurd habs (by decide)
        change optionalString (trace.rootSpan.map TraceRootSpan.name) = _
        rw [hsome, hvalues]
        rfl
      · refine traceTermValue_congr hterm ?_ fun habs => absurd habs (by decide)
        change optionalString (trace.rootSpan.map TraceRootSpan.kind) = _
        rw [hsome, hvalues]
        rfl
      · refine traceTermValue_congr hterm ?_ fun habs => absurd habs (by decide)
        change optionalString (trace.rootSpan.map TraceRootSpan.statusCode) = _
        rw [hsome, hvalues]
        rfl
      · refine traceTermValue_congr hterm rfl fun _ => ?_
        change trace.rootSpan.map TraceRootSpan.duration = _
        rw [hsome, hvalues]
        rfl

/-- What the free text finds in a summary row, the server finds in the span. -/
theorem StandsFor.spanTextMatches
    (hlib : TraceLibrariesAgree server browser) {trace : TraceData} {s : StoredSpan}
    {r : ResourceRow} (h : StandsFor duration trace s r) {plain : GoString}
    (hne : plain ≠ [])
    (hmatch : spanTextMatches browser (browser.toLowerCase (utf16 plain))
      (summarySpan trace) = true) :
    Sql.holds (traceSearchPredicate server s r (likePattern plain)) = true := by
  have hq : (browser.toLowerCase (utf16 plain)).isEmpty = false := by
    rw [Bool.eq_false_iff]
    exact mt (toLowerCase_isEmpty hlib plain).mp hne
  rw [Frontend.spanTextMatches, hq, Bool.false_or, List.any_eq_true] at hmatch
  obtain ⟨value, hvalue, hincludes⟩ := hmatch
  have hfound : ∀ text : GoString, value = some (utf16 text) →
      text ∈ [s.traceID.toList, s.name.toList, s.statusCode.toList, r.serviceName.toList] →
      Sql.holds (traceSearchPredicate server s r (likePattern plain)) = true := by
    rintro text rfl hmem
    exact holds_traceSearchPredicate hmem ((textIncludes_utf16 hlib plain text).mp hincludes)
  have habsent : value ≠ none := by
    rintro rfl
    cases hincludes
  have hroot : ∀ f : TraceRootSpan → JsString, value = trace.rootSpan.map f →
      ∃ root, trace.rootSpan = some root ∧ value = some (f root) := by
    intro f hf
    cases hsome : trace.rootSpan with
    | none =>
        rw [hsome] at hf
        exact absurd hf habsent
    | some root =>
        rw [hsome] at hf
        exact ⟨root, rfl, hf⟩
  simp only [summarySpan, List.mem_cons, List.not_mem_nil, or_false, Option.map_none] at hvalue
  rcases hvalue with hv | hv | hv | hv | hv | hv | hv | hv | hv
  · exact hfound _ (hv.trans (congrArg some h.traceId)) (by simp)
  · exact absurd hv habsent
  · obtain ⟨root, hsome, hv⟩ := hroot _ hv
    rw [h.rootSpan root hsome] at hv
    exact hfound _ hv (by simp)
  · obtain ⟨root, hsome, hv⟩ := hroot _ hv
    rw [h.rootSpan root hsome] at hv
    exact hfound _ hv (by simp)
  · exact absurd hv habsent
  · exact hfound _ (hv.trans (congrArg some h.serviceName)) (by simp)
  · exact absurd hv habsent
  · exact absurd hv habsent
  · exact absurd hv habsent

/-- A summary derived from the spans of a trace stands for its root, or for its
earliest span. -/
theorem summary_standsFor
    (duration : Int → ℚ) {db : Db V} {t : TraceSummaryRow} {item : TraceSummary}
    (hrow : Aggregates (traceRows db.spans t.traceID) t)
    (hitem : db.scanPageSummary t = some item)
    (hresources : ∀ s ∈ traceRows db.spans t.traceID, db.hasResource s.resourceHash)
    (searchValues : Option (List JsString)) :
    ∃ p ∈ joinedSpans db t.traceID,
      StandsFor duration (summaryData duration item searchValues) p.1 p.2 := by
  obtain ⟨scanned, hscan, rfl⟩ := Option.map_eq_some_iff.mp hitem
  have hjoin : ∀ s ∈ traceRows db.spans t.traceID,
      ∃ r, db.resources.find? s.resourceHash = some r ∧
        db.serviceName s.resourceHash = some r.serviceName := by
    intro s hs
    obtain ⟨r, hr, hhash⟩ := hresources s hs
    have hfind := (db.resources.find?_eq_some_iff).mpr ⟨hr, hhash⟩
    exact ⟨r, hfind, by rw [Db.serviceName, hfind]; rfl⟩
  have hid : ∀ s ∈ traceRows db.spans t.traceID, s.traceID = t.traceID := by
    intro s hs
    simpa using (List.mem_filter.mp hs).2
  rw [Db.scanTraceSummary] at hscan
  have hroot := hrow.root
  cases hsome : t.root with
  | some root =>
      rw [hsome] at hroot hscan
      obtain ⟨s, hfirst, rfl⟩ := hroot
      have hs : s ∈ traceRows db.spans t.traceID := (List.mem_filter.mp hfirst.1).1
      obtain ⟨r, hfind, hservice⟩ := hjoin s hs
      have hrootService : db.serviceName s.rootSpan.resourceHash = some r.serviceName := hservice
      refine ⟨(s, r), mem_joinedSpans.mpr ⟨hs, hfind⟩, ?_⟩
      simp only [Option.bind_some, hrootService, Option.some_or, Option.bind_eq_bind] at hscan
      cases hscan
      refine ⟨congrArg (fun id : String => utf16 id.toList) (hid s hs).symm, rfl, ?_⟩
      rintro _ ⟨⟩
      rfl
  | none =>
      rw [hsome] at hscan
      obtain ⟨s, hfirst, -, hhash⟩ := hrow.earliest
      obtain ⟨r, hfind, hservice⟩ := hjoin s hfirst.1
      refine ⟨(s, r), mem_joinedSpans.mpr ⟨hfirst.1, hfind⟩, ?_⟩
      simp only [Option.bind_none, hhash, hservice, Option.none_or, Option.bind_eq_bind,
        Option.bind_some] at hscan
      cases hscan
      refine ⟨congrArg (fun id : String => utf16 id.toList) (hid s hfirst.1).symm, rfl, ?_⟩
      rintro _ ⟨⟩

/-! ### The whole search -/

/-- A full row is accepted when a span of the trace meets the condition of the
server, for a search without free text, and a summary row only then. -/
def TraceSearchAgrees (server : SearchLibraries) (browser : BrowserLibraries)
    (duration : Int → ℚ) (db : Db V) (traceID search : String) : Prop :=
  (∀ (row : TraceData) (events : StoredSpan → JsString),
      row.spans = (joinedSpans db traceID).map
        (fun p => spanData browser duration p.1 p.2 (events p.1)) →
      (parseSignalSearch search.toList Storage.traceFields).1 = [] →
      (createTraceSearchMatcher browser (utf16 search.toList) row = true ↔
        ∃ p ∈ joinedSpans db traceID,
          Sql.holds (traceSearchSQL server search.toList p.1 p.2) = true)) ∧
    ∀ (t : TraceSummaryRow) (item : TraceSummary) (searchValues : Option (List JsString)),
      t.traceID = traceID → Aggregates (traceRows db.spans traceID) t →
      db.scanPageSummary t = some item →
      createTraceSearchMatcher browser (utf16 search.toList)
        (summaryData duration item searchValues) = true →
      ∃ p ∈ joinedSpans db traceID,
        Sql.holds (traceSearchSQL server search.toList p.1 p.2) = true

/-- A trace with spans, each with its resource, and a search with terms. -/
structure SearchableTrace (server : SearchLibraries) (browser : BrowserLibraries)
    (duration : Int → ℚ) (db : Db V) (traceID search : String) : Prop where
  spans_ne : traceRows db.spans traceID ≠ []
  resources : ∀ s ∈ traceRows db.spans traceID, db.hasResource s.resourceHash
  spans : ∀ p ∈ joinedSpans db traceID, SpanAgrees server browser duration p.1 p.2
  terms : (parseSignalSearch search.toList Storage.traceFields).2 ≠ []
  wildcards : NoDurationWildcard (parseSignalSearch search.toList Storage.traceFields).2

/-- Both sides accept the same traces, unless a quoted value escapes a lone
surrogate. -/
theorem traceSearch_agrees
    (hlib : TraceLibrariesAgree server browser) {db : Db V} {traceID search : String}
    (htrace : SearchableTrace server browser duration db traceID search)
    (hlone : loneSurrogateFree search.toList Storage.traceFields = true) :
    TraceSearchAgrees server browser duration db traceID search := by
  obtain ⟨hne, hresources, hspans, hterms, hwild⟩ := htrace
  have hparse := parse_utf16 hlone
  rw [← traceFields_utf16] at hparse
  have hencoded : (parseSignalSearch search.toList Storage.traceFields).2.map encodeTerm ≠ [] :=
    mt List.map_eq_nil_iff.mp hterms
  have hfields : ∀ term ∈ (parseSignalSearch search.toList Storage.traceFields).2,
      term.field = [] ∨ term.field ∈ Storage.traceFields :=
    fun term hterm => parseSignalSearch_field hterm
  have hsql : ∀ p : StoredSpan × ResourceRow, Sql.holds (traceSearchSQL server search.toList p.1 p.2) =
      (Sql.holds (if (parseSignalSearch search.toList Storage.traceFields).1 ≠ [] then
          traceSearchPredicate server p.1 p.2
            (likePattern (parseSignalSearch search.toList Storage.traceFields).1)
        else some true) &&
        (parseSignalSearch search.toList Storage.traceFields).2.all fun term =>
          Sql.holds (traceTermClause server p.1 p.2 term)) := by
    intro p
    rw [traceSearchSQL, Sql.holds_all, List.all_map]
    rfl
  generalize hparsed : parseSignalSearch search.toList Storage.traceFields = parsed at *
  obtain ⟨plain, terms⟩ := parsed
  have hclauses : ∀ p ∈ joinedSpans db traceID, ∀ events : JsString,
      (terms.all fun term => Sql.holds (traceTermClause server p.1 p.2 term)) =
        (terms.map encodeTerm).all fun term =>
          createTermMatcher browser term (decide (term.field = some (js "duration_ms")))
            (traceTermValue browser (spanData browser duration p.1 p.2 events) term) := by
    intro p hp events
    rw [List.all_map, Bool.eq_iff_iff, List.all_eq_true, List.all_eq_true]
    refine forall₂_congr fun term hterm => ?_
    exact Bool.eq_iff_iff.mp (holds_traceTermClause hlib.toLibrariesAgree (hspans p hp) events
      (hfields term hterm) (hwild term hterm))
  have hjoined : ∃ p, p ∈ joinedSpans db traceID := by
    obtain ⟨s, rest, hcons⟩ := List.exists_cons_of_ne_nil hne
    have hs : s ∈ traceRows db.spans traceID := by
      rw [hcons]
      exact List.mem_cons_self
    obtain ⟨r, hr, hhash⟩ := hresources s hs
    exact ⟨(s, r), mem_joinedSpans.mpr ⟨hs, (db.resources.find?_eq_some_iff).mpr ⟨hr, hhash⟩⟩⟩
  constructor
  · intro row events hrow hplain
    have hempty : plain = [] := by rwa [hparsed] at hplain
    have hrowSpans : row.spans ≠ [] := by
      obtain ⟨p, hp⟩ := hjoined
      rw [hrow]
      exact mt List.map_eq_nil_iff.mp (List.ne_nil_of_mem hp)
    have htext : ∀ span, spanTextMatches browser (browser.toLowerCase (utf16 plain)) span =
        true := by
      intro span
      rw [spanTextMatches, (toLowerCase_isEmpty hlib plain).mpr hempty, Bool.true_or]
    rw [matcher_of_spans hparse hencoded hrowSpans, hrow, List.any_map, List.any_eq_true]
    refine exists_congr fun p => and_congr_right fun hp => ?_
    rw [Function.comp_apply, htext, Bool.true_and, ← hclauses p hp, hsql]
    simp [hempty]
  · intro t item searchValues hid hrow hitem haccept
    subst hid
    obtain ⟨p, hp, hstands⟩ := summary_standsFor duration hrow hitem hresources
      searchValues
    obtain ⟨hsummary, hrootless, htext, hall⟩ :=
      matcher_of_summary hparse hencoded rfl haccept
    refine ⟨p, hp, ?_⟩
    rw [hsql, Bool.and_eq_true, hclauses p hp [], List.all_eq_true]
    constructor
    · by_cases hplain : plain = []
      · simp [hplain]
      · rw [if_pos hplain]
        exact hstands.spanTextMatches hlib hplain htext
    · intro term hterm
      obtain ⟨field, hfield, hsome⟩ := hsummary term hterm
      rw [← hstands.traceTermValue_eq [] hsome hfield]
      · exact hall term hterm
      · intro hmissing
        have hcases := hrootless hmissing term hterm
        rwa [hsome, Option.some.injEq, Option.some.injEq] at hcases

end Agreement

/-! ### Samples -/

theorem asciiLower_eq_digit
    {c d : Char} (hd : d.toNat < 0x41) (h : asciiLower c = d) : c = d := by
  by_cases hupper : 0x41 ≤ c.toNat ∧ c.toNat ≤ 0x5A
  · rw [asciiLower, if_pos hupper] at h
    have hlower : (Char.ofNat (c.toNat + 0x20)).toNat = c.toNat + 0x20 :=
      ofNat_toNat_of_valid (Or.inl (by omega))
    rw [← h, hlower] at hd
    omega
  · rwa [asciiLower, if_neg hupper] at h

/-- A text of digits is lowered from itself only. -/
theorem map_asciiLower_eq
    {text : GoString} (hdigits : (text.all fun c => c.toNat < 0x41) = true) :
    ∀ {s : GoString}, s.map asciiLower = text.map asciiLower → s = text := by
  have hfixed : text.map asciiLower = text := by
    refine (List.map_congr_left fun c hc => ?_).trans (List.map_id text)
    have hlow : c.toNat < 0x41 := by simpa using List.all_eq_true.mp hdigits c hc
    rw [asciiLower, if_neg (by omega), id]
  intro s h
  rw [hfixed] at h
  subst h
  refine (List.map_id s).symm.trans (List.map_congr_left fun c hc => ?_)
  have hlow := List.all_eq_true.mp hdigits _ (List.mem_map_of_mem hc)
  exact asciiLower_eq_digit (by simpa using hlow) rfl

/-- The sample libraries of both sides agree. -/
theorem sampleTraceLibraries_agree : TraceLibrariesAgree sampleServer sampleBrowser where
  toLibrariesAgree := sampleLibraries_agree
  lower s := by
    change (utf16 s).map asciiLowerUnit = utf16 (s.map asciiLower)
    rw [utf16, utf16, List.map_flatMap, List.flatMap_map]
    exact List.flatMap_congr fun c _ => (units_asciiLower c).symm

/-- A span of half a second. -/
def sampleSpan (name : String) : StoredSpan :=
  { (SpanRow.bare "0123456789abcdef0123456789abcdef" "0123456789abcdef" "" 0 500000000).stored 0
    with name, resourceHash := 1 }

def sampleDb (name : String) : Db ℚ :=
  { Db.empty ℚ with
    spans := [sampleSpan name]
    resources := ⟨[sampleResource], by decide⟩ }

def sampleTraceID : String := "0123456789abcdef0123456789abcdef"

theorem joinedSpans_sample (name : String) :
    joinedSpans (sampleDb name) sampleTraceID = [(sampleSpan name, sampleResource)] := by
  rfl

/-- The sample span is the same on both sides. -/
theorem sampleSpan_agrees (name : String) :
    SpanAgrees sampleServer sampleBrowser (fun n => n) (sampleSpan name) sampleResource := by
  have hms : durationMs sampleServer (sampleSpan name) = 500 := by
    norm_num [durationMs, sampleServer, sampleSpan, SpanRow.stored, SpanRow.bare]
  have htext : NumeralText sampleServer "500".toList := by
    intro s hs
    have heq : s = "500".toList := map_asciiLower_eq (by decide) hs
    rw [heq]
    exact ⟨by decide, by decide⟩
  have hdecimal : decimal (500 : ℚ).num = "500".toList := by decide +kernel
  constructor
  · exact Or.inr (show sampleTraceID.toList.length = 32 by decide +kernel)
  · exact Or.inr (show "0123456789abcdef".toList.length = 16 by decide +kernel)
  · exact Or.inl rfl
  · exact fun _ _ hmem => absurd hmem List.not_mem_nil
  · exact fun _ _ hmem => absurd hmem List.not_mem_nil
  · rw [hms]
    norm_num [sampleBrowser, sampleSpan, SpanRow.stored, SpanRow.bare, Time.sub]
  · rw [hms]
    change NumeralText sampleServer (decimal (500 : ℚ).num)
    rwa [hdecimal]
  · refine ⟨decimal (500 : ℚ).num, ?_, by rwa [hdecimal]⟩
    rw [hms]
    rfl

theorem sampleTrace_searchable
    (name : String) {search : String}
    (hterms : (parseSignalSearch search.toList Storage.traceFields).2 ≠ [])
    (hwild : NoDurationWildcard (parseSignalSearch search.toList Storage.traceFields).2) :
    SearchableTrace sampleServer sampleBrowser (fun n => n) (sampleDb name) sampleTraceID
      search where
  spans_ne := List.cons_ne_nil _ _
  resources s hs := by
    rw [List.mem_singleton.mp hs]
    exact ⟨sampleResource, List.mem_singleton.mpr rfl, rfl⟩
  spans p hp := by
    rw [joinedSpans_sample, List.mem_singleton] at hp
    rw [hp]
    exact sampleSpan_agrees name
  terms := hterms
  wildcards := hwild

/-- A wildcard, a comparison and a negated attribute. -/
def sampleSearchText : String := "name:CHECK* duration_ms:>=500 -attributes.x:1"

/-- A trace whose two spans have a parent that is not stored, so that it has no root. -/
def rootlessSpans : List StoredSpan :=
  [{ sampleSpan "payment" with parentSpanID := "ffffffffffffffff" },
    { sampleSpan "checkout" with spanID := "fedcba9876543210", parentSpanID := "ffffffffffffffff" }]

def rootlessDb : Db ℚ :=
  { Db.empty ℚ with
    spans := rootlessSpans
    resources := ⟨[sampleResource], by decide⟩ }

theorem rootlessSpans_agree :
    ∀ s ∈ rootlessSpans, SpanAgrees sampleServer sampleBrowser (fun n => n) s sampleResource := by
  have hparent : IsId 16 "ffffffffffffffff" :=
    Or.inr (show "ffffffffffffffff".toList.length = 16 by decide +kernel)
  intro s hs
  rcases List.mem_pair.mp hs with rfl | rfl
  · exact { sampleSpan_agrees "payment" with parentSpanID := hparent }
  · exact { sampleSpan_agrees "checkout" with
      spanID := Or.inr (show "fedcba9876543210".toList.length = 16 by decide +kernel)
      parentSpanID := hparent }

theorem rootlessTrace_searchable :
    SearchableTrace sampleServer sampleBrowser (fun n => n) rootlessDb sampleTraceID
      sampleSearchText where
  spans_ne := List.cons_ne_nil _ _
  resources s hs := by
    rcases List.mem_pair.mp (show s ∈ rootlessSpans from hs) with rfl | rfl <;>
      exact ⟨sampleResource, List.mem_singleton.mpr rfl, rfl⟩
  spans p hp := by
    obtain ⟨hs, hr⟩ := mem_joinedSpans.mp hp
    have hp : p.2 = sampleResource :=
      List.mem_singleton.mp ((rootlessDb.resources.find?_eq_some_iff).mp hr).1
    rw [hp]
    exact rootlessSpans_agree p.1 hs
  terms := by decide +kernel
  wildcards := by unfold NoDurationWildcard; decide +kernel

/-- The row of the trace without a root, with both spans. -/
def rootlessRow : TraceData :=
  ⟨[], [], none, rootlessSpans.map fun s =>
    spanData sampleBrowser (fun n => n) s sampleResource [], none⟩

/-- The second span of the trace is found by both sides. -/
theorem traceSearch_agrees_sample :
    TraceSearchAgrees sampleServer sampleBrowser (fun n => n) rootlessDb sampleTraceID
        sampleSearchText ∧
      createTraceSearchMatcher sampleBrowser (utf16 sampleSearchText.toList) rootlessRow = true ∧
      ∃ p ∈ joinedSpans rootlessDb sampleTraceID,
        Sql.holds (traceSearchSQL sampleServer sampleSearchText.toList p.1 p.2) = true := by
  have hagrees := traceSearch_agrees sampleTraceLibraries_agree rootlessTrace_searchable
    (by decide +kernel)
  have haccept : createTraceSearchMatcher sampleBrowser (utf16 sampleSearchText.toList)
      rootlessRow = true := by
    decide +kernel
  exact ⟨hagrees, haccept,
    (hagrees.1 rootlessRow (fun _ => []) rfl (by decide +kernel)).mp haccept⟩

/-- A search whose quoted value escapes a lone surrogate. -/
def loneSearch : String := "name:\"\\ud800\""

theorem loneSearch_server :
    Sql.holds (traceSearchSQL sampleServer loneSearch.toList (sampleSpan "\uFFFD")
      sampleResource) = true := by
  decide +kernel

theorem loneSearch_browser :
    createTraceSearchMatcher sampleBrowser (utf16 loneSearch.toList)
      ⟨[], [], none, [spanData sampleBrowser (fun n => n) (sampleSpan "\uFFFD") sampleResource []],
        none⟩ = false := by
  decide +kernel

/-- The server reads the escape as a replacement character, the browser keeps the
surrogate, and a span can be named like the former. -/
theorem traceSearch_loneSurrogate :
    TraceLibrariesAgree sampleServer sampleBrowser ∧
      SearchableTrace sampleServer sampleBrowser (fun n => n) (sampleDb "\uFFFD")
        sampleTraceID loneSearch ∧
      ¬ TraceSearchAgrees sampleServer sampleBrowser (fun n => n) (sampleDb "\uFFFD")
        sampleTraceID loneSearch := by
  refine ⟨sampleTraceLibraries_agree, sampleTrace_searchable _ (by decide +kernel)
    (by unfold NoDurationWildcard; decide +kernel), ?_⟩
  intro h
  have haccept := (h.1
    ⟨[], [], none, [spanData sampleBrowser (fun n => n) (sampleSpan "\uFFFD") sampleResource []],
      none⟩ (fun _ => []) rfl (by decide +kernel)).mpr
    ⟨(sampleSpan "\uFFFD", sampleResource), List.mem_singleton.mpr rfl, loneSearch_server⟩
  rw [loneSearch_browser] at haccept
  cases haccept

end Frontend
end Otelop
