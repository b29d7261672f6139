import Mathlib.Tactic
import Mathlib.Data.String.Basic
import Mathlib.Data.Rat.Defs
import Otelop.Lib.KeyedTable

/-!
# Rows and tables of the telemetry store

The row types follow `internal/storage/convert.go`, the tables follow the DDL of
`internal/storage/schema.go`.  A table with a `PRIMARY KEY` is a `KeyedTable`,
every other table is a list of rows.

A `TIMESTAMP_NS` is an integer number of nanoseconds since the epoch.  The type
of a `DOUBLE` column is the parameter `V`: nothing in the write path computes
with it.  The raw attribute encodings and the schema URL and dropped-attribute
count of a resource take part in its hash only and are left out of its row.
-/

namespace Otelop
namespace Storage

open Lib (KeyedTable)

/-- Nanoseconds since the epoch. -/
abbrev Time := Int

/-- A 128-bit identity, ordered as its big-endian bytes are. -/
abbrev UUID := Fin (2 ^ 128)

instance neZero_uuids : NeZero (2 ^ 128) := ⟨by decide⟩

instance lawfulBEq_keys : LawfulBEq (String × String) := inferInstance

/-- A value of a `JSON` column. -/
inductive Json where
  | null
  | bool (b : Bool)
  | num (q : ℚ)
  | str (s : String)
  | arr (items : List Json)
  | obj (fields : List (String × Json))

/-- An attribute map: the keys of a Go map are pairwise distinct. -/
structure Attributes where
  fields : List (String × Json)
  keys_nodup : (fields.map Prod.fst).Nodup

namespace Attributes

/-- No attributes. -/
def empty : Attributes := ⟨[], List.nodup_nil⟩

/-- The value stored under `key`. -/
def get? (a : Attributes) (key : String) : Option Json :=
  (a.fields.find? fun f => f.1 = key).map Prod.snd

end Attributes

/-- A row of `resources`. -/
structure ResourceRow where
  resourceHash : UInt64
  serviceName : String
  attributes : Attributes

/-- An event of a span, as it is stored with the span. -/
structure SpanEventRow where
  name : String
  timestamp : Time
  attributes : Attributes

/-- A link of a span before it has an ordinal. -/
structure SpanLinkRow where
  traceID : String
  spanID : String
  traceState : String
  flags : UInt32
  attributes : Attributes
  droppedAttributesCount : UInt32

/-- A span of a batch. -/
structure SpanRow where
  flags : UInt32
  traceState : String
  links : List SpanLinkRow
  droppedLinksCount : UInt32
  traceID : String
  spanID : String
  parentSpanID : String
  name : String
  kind : String
  startTS : Time
  endTS : Time
  statusCode : String
  statusMessage : String
  attributes : Attributes
  events : List SpanEventRow
  resourceHash : UInt64

/-- A series of a batch. -/
structure MetricSeriesRow where
  seriesKey : UInt64
  serviceName : String
  metricName : String
  metricType : String
  numberKind : String
  unit : String
  description : String
  temporality : String
  isMonotonic : Bool
  attributes : Attributes
  scopeName : String
  scopeVersion : String
  scopeSchemaURL : String
  scopeDroppedAttributesCount : UInt32
  scopeAttributes : Attributes
  resourceHash : UInt64

/-- A point of a batch; `V` is the type of a `DOUBLE`. -/
structure MetricPointRow (V : Type) where
  id : UUID
  seriesKey : UInt64
  ts : Time
  startTS : Option Time
  flags : UInt32
  valueInt : Option Int
  valueDouble : Option V
  count : Option Nat
  sum : Option V
  min : Option V
  max : Option V
  histogramLayoutHash : Option UInt64
  bucketCounts : List Nat
  zeroCount : Option Nat
  positiveOffset : Option Int
  positiveBucketCounts : List Nat
  negativeOffset : Option Int
  negativeBucketCounts : List Nat
  summaryQuantiles : List V
  summaryQuantileValues : List V

/-- An exemplar of a batch. -/
structure MetricExemplarRow (V : Type) where
  id : UUID
  pointID : UUID
  ts : Time
  traceID : String
  spanID : String
  filteredAttributes : Attributes
  valueInt : Option Int
  valueDouble : Option V

/-- A row of `histogram_layouts`. -/
structure HistogramLayoutRow (V : Type) where
  layoutHash : UInt64
  kind : String
  explicitBounds : List V
  scale : Option Int
  zeroThreshold : Option V

/-- A log record of a batch. -/
structure LogRow where
  id : UUID
  ts : Time
  observedTS : Time
  traceID : String
  spanID : String
  severityNumber : Int
  severityText : String
  body : String
  attributes : Attributes
  resourceHash : UInt64

/-- What one metrics payload is converted to. -/
structure MetricBatch (V : Type) where
  resources : List ResourceRow
  series : List MetricSeriesRow
  histogramLayouts : List (HistogramLayoutRow V)
  points : List (MetricPointRow V)
  exemplars : List (MetricExemplarRow V)

/-- What one logs payload is converted to. -/
structure LogBatch where
  resources : List ResourceRow
  logs : List LogRow

/-- A row of `spans`: the converted span, its ingest time and the number of its
links, which live in a table of their own. -/
structure StoredSpan where
  traceID : String
  spanID : String
  parentSpanID : String
  name : String
  kind : String
  startTS : Time
  endTS : Time
  statusCode : String
  statusMessage : String
  attributes : Attributes
  events : List SpanEventRow
  resourceHash : UInt64
  ingestedAt : Time
  linkCount : Nat
  droppedLinksCount : UInt32
  flags : UInt32
  traceState : String

/-- A row of `span_links`. -/
structure StoredSpanLink where
  sourceTraceID : String
  sourceSpanID : String
  ordinal : Nat
  link : SpanLinkRow

/-- The root columns of `trace_summaries`, null together. -/
structure RootSpan where
  spanID : String
  name : String
  kind : String
  statusCode : String
  startTime : Time
  endTime : Time
  resourceHash : UInt64
deriving DecidableEq

/-- A row of `trace_summaries`. -/
structure TraceSummaryRow where
  traceID : String
  startTime : Time
  endTime : Time
  spanCount : Nat
  hasError : Bool
  firstSeen : Time
  root : Option RootSpan
  earliestSpanID : String
  earliestResourceHash : UInt64
  linkCount : Nat
deriving DecidableEq

/-- A row of `dropped_traces`, the tombstone of an oversized trace. -/
structure DroppedTrace where
  traceID : String
  lastSeen : Time
  spanCount : Nat

/-- A row of `metric_series`. -/
structure StoredSeries where
  row : MetricSeriesRow
  firstSeen : Time
  lastSeen : Time

/-- A row of `metric_points`. -/
structure StoredPoint (V : Type) where
  row : MetricPointRow V
  ingestedAt : Time

/-- A row of `logs`. -/
structure StoredLog where
  row : LogRow
  ingestedAt : Time

/-- The database: its tables, and the temporary tables of the writer's
connection. -/
structure Db (V : Type) where
  resources : KeyedTable UInt64 ResourceRow ResourceRow.resourceHash
  metricSeries : KeyedTable UInt64 StoredSeries (fun s => s.row.seriesKey)
  histogramLayouts :
    KeyedTable UInt64 (HistogramLayoutRow V) HistogramLayoutRow.layoutHash
  spans : List StoredSpan
  spanLinks : List StoredSpanLink
  traceSummaries : KeyedTable String TraceSummaryRow TraceSummaryRow.traceID
  droppedTraces : KeyedTable String DroppedTrace DroppedTrace.traceID
  metricPoints : List (StoredPoint V)
  metricExemplars : List (MetricExemplarRow V)
  logs : List StoredLog
  affectedTraces : List String
  metricSeriesStaging : List StoredSeries
  histogramLayoutsStaging : List (HistogramLayoutRow V)

/-- The database right after its schema was created. -/
def Db.empty (V : Type) : Db V where
  resources := .empty
  metricSeries := .empty
  histogramLayouts := .empty
  spans := []
  spanLinks := []
  traceSummaries := .empty
  droppedTraces := .empty
  metricPoints := []
  metricExemplars := []
  logs := []
  affectedTraces := []
  metricSeriesStaging := []
  histogramLayoutsStaging := []

end Storage
end Otelop
