import Mathlib.Tactic
import Otelop.Frontend.TermMatcher

/-!
# The matcher of a trace in the browser

`createTraceSearchMatcher` and `traceTermValue` of `frontend/src/lib/trace-search.ts`.  A row
of the trace list has the spans of its trace once its detail was loaded, and is a summary
before.

A summary knows its root span, and a few fields of that (`summaryFields`).  A search with a
term on anything else selects no summary; with the spans at hand the matcher looks for one
span that passes the free text and every term.

Free text is compared with the texts of a span by `includes`, without case, and a filter of a
field as `TermMatcher` does it for logs too.  The matcher of the server is
`Storage/TraceSearch.lean`, and `TraceAgreement` says when the two select the same traces.
-/

namespace Otelop
namespace Frontend

open Lib Storage

/-- `traceFields` -/
def traceFields : List JsString :=
  [js "trace_id", js "span_id", js "parent_span_id", js "service_name", js "name",
    js "kind", js "status_code", js "status_message", js "duration_ms"]

/-- `Partial<SpanData>`.  `events` holds the JSON text of the events. -/
structure SpanData where
  traceId : Option JsString := none
  spanId : Option JsString := none
  parentSpanId : Option JsString := none
  name : Option JsString := none
  kind : Option JsString := none
  serviceName : Option JsString := none
  statusCode : Option JsString := none
  statusMessage : Option JsString := none
  duration : Option ℚ := none
  attributes : Option JsRecord := none
  resource : Option JsRecord := none
  events : Option JsString := none

structure TraceRootSpan where
  name : JsString
  kind : JsString
  statusCode : JsString
  duration : ℚ

/-- The fields of `TraceData` that a search reads. -/
structure TraceData where
  traceId : JsString
  serviceName : JsString
  rootSpan : Option TraceRootSpan
  spans : List SpanData
  searchValues : Option (List JsString)

/-- A property that may be missing. -/
def optionalString : Option JsString → JsValue
  | none => .undefined
  | some s => .string s

/-- `span[spanFields[field]]`, for a field of `spanFields`. -/
def SpanData.field (span : SpanData) (field : JsString) : JsValue :=
  if field = js "trace_id" then optionalString span.traceId
  else if field = js "span_id" then optionalString span.spanId
  else if field = js "parent_span_id" then optionalString span.parentSpanId
  else if field = js "service_name" then optionalString span.serviceName
  else if field = js "name" then optionalString span.name
  else if field = js "kind" then optionalString span.kind
  else if field = js "status_code" then optionalString span.statusCode
  else if field = js "status_message" then optionalString span.statusMessage
  else .undefined

def traceTermValue (lib : BrowserLibraries) (span : SpanData) (term : LogSearchTerm) :
    JsValue :=
  match term.field with
  | some field =>
      if field = js "duration_ms" then
        match span.duration with
        | none => .undefined
        | some duration => .number (lib.double (duration / 10 ^ 6))
      else
        let value := span.field field
        if (js "_id").isSuffixOf field && isZeroId value then .undefined else value
  | none =>
      let attrs := if term.resource then span.resource else span.attributes
      ownValue (attrs.getD []) term.key

/-- `value?.toLowerCase().includes(q)` -/
def textIncludes (lib : BrowserLibraries) (q : JsString) (value : Option JsString) : Bool :=
  value.any fun s => decide (q <:+: lib.toLowerCase s)

/-- The fields a summary row can decide. -/
def summaryFields : List JsString :=
  [js "trace_id", js "service_name", js "name", js "kind", js "status_code",
    js "duration_ms"]

/-- `{ ...trace.rootSpan, traceId: trace.traceId, serviceName: trace.serviceName }` -/
def summarySpan (trace : TraceData) : SpanData where
  traceId := some trace.traceId
  serviceName := some trace.serviceName
  name := trace.rootSpan.map TraceRootSpan.name
  kind := trace.rootSpan.map TraceRootSpan.kind
  statusCode := trace.rootSpan.map TraceRootSpan.statusCode
  duration := trace.rootSpan.map TraceRootSpan.duration

/-- `textMatches`, without the values of a search that has no terms. -/
def spanTextMatches (lib : BrowserLibraries) (q : JsString) (span : SpanData) : Bool :=
  q.isEmpty ||
    [span.traceId, span.spanId, span.name, span.statusCode, span.statusMessage,
      span.serviceName, span.attributes.map lib.stringify, span.resource.map lib.stringify,
      span.events].any (textIncludes lib q)

/-- One span passes the free text and every term. -/
def spanMatches (lib : BrowserLibraries) (q : JsString) (terms : List LogSearchTerm)
    (trace : TraceData) (span : SpanData) : Bool :=
  (spanTextMatches lib q span ||
      terms.isEmpty &&
        (trace.searchValues.getD []).any fun value => textIncludes lib q (some value)) &&
    terms.all fun term =>
      createTermMatcher lib term (decide (term.field = some (js "duration_ms")))
        (traceTermValue lib span term)

def createTraceSearchMatcher (lib : BrowserLibraries) (search : JsString)
    (trace : TraceData) : Bool :=
  let (plain, terms) := parseLogSearch search traceFields
  let q := lib.toLowerCase plain
  if terms.isEmpty &&
      (q.isEmpty ||
        ([some trace.traceId, some trace.serviceName, trace.rootSpan.map TraceRootSpan.name,
            trace.rootSpan.map TraceRootSpan.statusCode] ++
          (trace.searchValues.getD []).map some).any (textIncludes lib q)) then
    true
  else
    let spans := if trace.spans.isEmpty then [summarySpan trace] else trace.spans
    if trace.spans.isEmpty &&
        terms.any fun term =>
          match term.field with
          | none => true
          | some field => decide (field ∉ summaryFields) then
      false
    else if trace.spans.isEmpty && trace.rootSpan.isNone &&
        terms.any fun term =>
          decide (term.field ≠ some (js "trace_id")) &&
            decide (term.field ≠ some (js "service_name")) then
      false
    else spans.any (spanMatches lib q terms trace)

end Frontend
end Otelop
