import Otelop.Lib.Registry
import Otelop.Storage.AttributeMap
import Otelop.Storage.References

/-!
# Conversion of metrics

`ConvertMetrics` of `internal/storage/convert.go`: an OTLP metrics payload becomes a batch of
points and exemplars, with the resources, series and histogram layouts they refer to registered
once each.

The conversion mints an id for each point and each exemplar, in that order.  What comes from
elsewhere is in an `Environment`: the ids, the texts of `pcommon.Value.AsString` and the JSON
column of an attribute map.  A double is given by its bits.

**Results.**
* `convertMetrics_eq`: the batch, list by list.
* `convertMetrics_conserves`: the batch holds each data point once, with what it refers to.
* `Conserves.closed`: such a batch is what the writer is promised.
-/

namespace Otelop
namespace Storage

open Lib
open Pcommon (Value)

/-! ### The payload -/

/-- A string of the payload; its length is an `int`. -/
abbrev Text := {s : String // s.utf8ByteSize < 2 ^ 63}

/-- The bytes of a text. -/
def Text.bytes (s : Text) : Bytes :=
  ⟨s.1.toByteArray.data.toList, by
    rw [Array.length_toList, ByteArray.size_data, String.size_toByteArray]
    exact s.2⟩

namespace Pmetric

/-- A `pcommon.Map` whose encoding is a byte slice. -/
structure AttributeMap where
  map : Pcommon.Map
  encodable : (encodeOTLPAttributes map.entries).length < 2 ^ 63

/-- The value of a number point or of an exemplar. -/
inductive NumberValue where
  | empty
  | int (n : Int64)
  | double (bits : UInt64)
deriving DecidableEq

/-- `pmetric.Exemplar` -/
structure Exemplar where
  timestamp : UInt64
  traceID : String
  spanID : String
  filteredAttributes : AttributeMap
  value : NumberValue

/-- `pmetric.NumberDataPoint` -/
structure NumberDataPoint where
  attributes : AttributeMap
  startTimestamp : UInt64
  timestamp : UInt64
  flags : UInt32
  value : NumberValue
  exemplars : List Exemplar

/-- `pmetric.HistogramDataPoint` -/
structure HistogramDataPoint where
  attributes : AttributeMap
  startTimestamp : UInt64
  timestamp : UInt64
  flags : UInt32
  count : UInt64
  sum : Option UInt64
  min : Option UInt64
  max : Option UInt64
  explicitBounds : {bounds : List UInt64 // bounds.length < 2 ^ 63}
  bucketCounts : List UInt64
  exemplars : List Exemplar

/-- The buckets of one sign. -/
structure Buckets where
  offset : Int32
  bucketCounts : List UInt64

/-- `pmetric.ExponentialHistogramDataPoint` -/
structure ExponentialHistogramDataPoint where
  attributes : AttributeMap
  startTimestamp : UInt64
  timestamp : UInt64
  flags : UInt32
  count : UInt64
  sum : Option UInt64
  min : Option UInt64
  max : Option UInt64
  scale : Int32
  zeroThreshold : UInt64
  zeroCount : UInt64
  positive : Buckets
  negative : Buckets
  exemplars : List Exemplar

/-- `pmetric.SummaryDataPointValueAtQuantile` -/
structure ValueAtQuantile where
  quantile : UInt64
  value : UInt64

/-- `pmetric.SummaryDataPoint` -/
structure SummaryDataPoint where
  attributes : AttributeMap
  startTimestamp : UInt64
  timestamp : UInt64
  flags : UInt32
  count : UInt64
  sum : UInt64
  quantileValues : List ValueAtQuantile

/-- `pmetric.AggregationTemporality` -/
inductive AggregationTemporality where
  | unspecified
  | delta
  | cumulative
deriving DecidableEq

/-- The data of a metric, by its type. -/
inductive Data where
  | empty
  | gauge (dataPoints : List NumberDataPoint)
  | sum (temporality : AggregationTemporality) (isMonotonic : Bool)
      (dataPoints : List NumberDataPoint)
  | histogram (temporality : AggregationTemporality) (dataPoints : List HistogramDataPoint)
  | exponentialHistogram (temporality : AggregationTemporality)
      (dataPoints : List ExponentialHistogramDataPoint)
  | summary (dataPoints : List SummaryDataPoint)

/-- `pmetric.Metric` -/
structure Metric where
  name : Text
  description : Text
  unit : Text
  data : Data

/-- `pcommon.InstrumentationScope` -/
structure Scope where
  name : Text
  version : Text
  attributes : AttributeMap
  droppedAttributesCount : UInt32

/-- `pmetric.ScopeMetrics` -/
structure ScopeMetrics where
  schemaURL : Text
  scope : Scope
  metrics : List Metric

/-- `pcommon.Resource` -/
structure Resource where
  attributes : AttributeMap
  droppedAttributesCount : UInt32

/-- `pmetric.ResourceMetrics` -/
structure ResourceMetrics where
  schemaURL : Text
  resource : Resource
  scopeMetrics : List ScopeMetrics

/-- `pmetric.Metrics` -/
abbrev Metrics := List ResourceMetrics

/-- `Metric.Type().String()` -/
def Data.type : Data → Text
  | .empty => ⟨"Empty", by decide⟩
  | .gauge _ => ⟨"Gauge", by decide⟩
  | .sum _ _ _ => ⟨"Sum", by decide⟩
  | .histogram _ _ => ⟨"Histogram", by decide⟩
  | .exponentialHistogram _ _ => ⟨"ExponentialHistogram", by decide⟩
  | .summary _ => ⟨"Summary", by decide⟩

/-- One data point of a supported type, with what its metric says of it. -/
inductive DataPoint where
  | gauge (dp : NumberDataPoint)
  | sum (temporality : AggregationTemporality) (isMonotonic : Bool) (dp : NumberDataPoint)
  | histogram (temporality : AggregationTemporality) (dp : HistogramDataPoint)
  | exponentialHistogram (temporality : AggregationTemporality)
      (dp : ExponentialHistogramDataPoint)
  | summary (dp : SummaryDataPoint)

/-- The data points a metric holds, in order. -/
def Data.dataPoints : Data → List DataPoint
  | .empty => []
  | .gauge dps => dps.map .gauge
  | .sum temporality isMonotonic dps => dps.map (.sum temporality isMonotonic)
  | .histogram temporality dps => dps.map (.histogram temporality)
  | .exponentialHistogram temporality dps => dps.map (.exponentialHistogram temporality)
  | .summary dps => dps.map .summary

end Pmetric

open Pmetric

/-! ### The conversion -/

/-- What the conversion takes from elsewhere. -/
structure Environment where
  /-- `pcommon.Value.AsString` -/
  asString : Value → String
  /-- The JSON column of a map. -/
  column : List (ByteString × HashValue) → Attributes
  /-- `newRowID`, by how many ids came before. -/
  newRowID : Nat → UUID

/-- `Timestamp.AsTime` -/
def asTime (ts : UInt64) : Time := ts.toInt64.toInt

def optionalTimestamp (ts : UInt64) : Option Time := if ts = 0 then none else some (asTime ts)

def temporalityString : AggregationTemporality → Text
  | .cumulative => ⟨"cumulative", by decide⟩
  | .delta => ⟨"delta", by decide⟩
  | .unspecified => ⟨"", by decide⟩

/-- The integer or the double of a number point, and the name of its type. -/
def numberValue : NumberValue → Option Int × Option UInt64 × Text
  | .int n => (some n.toInt, none, ⟨"int", by decide⟩)
  | .double bits => (none, some bits, ⟨"double", by decide⟩)
  | .empty => (none, none, ⟨"", by decide⟩)

/-- The integer or the double of an exemplar. -/
def exemplarValue : NumberValue → Option Int × Option UInt64
  | .int n => (some n.toInt, none)
  | .double bits => (none, some bits)
  | .empty => (none, none)

/-- The batch with what has been seen for it, and the number of ids minted. -/
structure Conversion where
  resources : Registry UInt64 ResourceRow ResourceRow.resourceHash
  series : Registry UInt64 MetricSeriesRow MetricSeriesRow.seriesKey
  histogramLayouts :
    Registry UInt64 (HistogramLayoutRow UInt64) HistogramLayoutRow.layoutHash
  points : List (MetricPointRow UInt64)
  exemplars : List (MetricExemplarRow UInt64)
  minted : Nat

/-- Nothing was converted yet. -/
def Conversion.start : Conversion := ⟨.empty, .empty, .empty, [], [], 0⟩

/-- The resource and the scope of a metric. -/
structure MetricContext where
  serviceName : String
  resourceHash : UInt64
  scopeSchemaURL : Text
  scope : Scope

/-- A histogram layout before it is hashed. -/
structure Layout where
  kind : Text
  explicitBounds : {bounds : List UInt64 // bounds.length < 2 ^ 63}
  scale : Option Int32
  zeroThreshold : Option UInt64

/-- What one branch of `convertMetric` computes of a data point. -/
structure PointConversion where
  layout : Option Layout
  attributes : AttributeMap
  numberKind : Text
  temporality : Text
  isMonotonic : Bool
  row : UUID → UInt64 → MetricPointRow UInt64
  exemplars : List Exemplar

/-- What `hashHistogramLayout` hashes. -/
def Layout.identity (layout : Layout) : HistogramLayoutIdentity :=
  ⟨layout.kind.bytes, layout.explicitBounds, layout.scale, layout.zeroThreshold⟩

/-- The row `appendHistogramLayout` registers. -/
def Layout.row (layout : Layout) : HistogramLayoutRow UInt64 where
  layoutHash := histogramLayoutHash layout.identity
  kind := layout.kind.1
  explicitBounds := layout.explicitBounds.1
  scale := layout.scale.map Int32.toInt
  zeroThreshold := layout.zeroThreshold

def Pmetric.AttributeMap.raw (attrs : AttributeMap) : Bytes :=
  ⟨encodeOTLPAttributes attrs.map.entries, attrs.encodable⟩

section Convert

variable (env : Environment)

def Pmetric.AttributeMap.column (attrs : AttributeMap) : Attributes :=
  env.column (attributesToMap attrs.map.entries)

/-- The service name of `resourceInfo`. -/
def serviceName (attrs : AttributeMap) : String :=
  match Pcommon.get attrs.map.entries "service.name".toByteArray.data.toList with
  | some value => env.asString value
  | none => ""

/-- The row `appendScalarPoint` appends. -/
def scalarPoint (dp : NumberDataPoint) (id : UUID) (seriesKey : UInt64) :
    MetricPointRow UInt64 where
  id := id
  seriesKey := seriesKey
  ts := asTime dp.timestamp
  startTS := optionalTimestamp dp.startTimestamp
  flags := dp.flags
  valueInt := (numberValue dp.value).1
  valueDouble := (numberValue dp.value).2.1
  count := none
  sum := none
  min := none
  max := none
  histogramLayoutHash := none
  bucketCounts := []
  zeroCount := none
  positiveOffset := none
  positiveBucketCounts := []
  negativeOffset := none
  negativeBucketCounts := []
  summaryQuantiles := []
  summaryQuantileValues := []

/-- The row `appendDistributionPoint` appends. -/
def distributionPoint (timestamp startTimestamp : UInt64) (flags : UInt32) (count : UInt64)
    (sum min max : Option UInt64) (id : UUID) (seriesKey : UInt64) : MetricPointRow UInt64 where
  id := id
  seriesKey := seriesKey
  ts := asTime timestamp
  startTS := optionalTimestamp startTimestamp
  flags := flags
  valueInt := none
  valueDouble := none
  count := some count.toNat
  sum := sum
  min := min
  max := max
  histogramLayoutHash := none
  bucketCounts := []
  zeroCount := none
  positiveOffset := none
  positiveBucketCounts := []
  negativeOffset := none
  negativeBucketCounts := []
  summaryQuantiles := []
  summaryQuantileValues := []

/-- The `Gauge` branch. -/
def convertGauge (dp : NumberDataPoint) : PointConversion where
  layout := none
  attributes := dp.attributes
  numberKind := (numberValue dp.value).2.2
  temporality := ⟨"", by decide⟩
  isMonotonic := false
  row := scalarPoint dp
  exemplars := dp.exemplars

/-- The `Sum` branch. -/
def convertSum (temporality : AggregationTemporality) (isMonotonic : Bool)
    (dp : NumberDataPoint) : PointConversion where
  layout := none
  attributes := dp.attributes
  numberKind := (numberValue dp.value).2.2
  temporality := temporalityString temporality
  isMonotonic := isMonotonic
  row := scalarPoint dp
  exemplars := dp.exemplars

/-- The layout of an explicit histogram. -/
def explicitLayout (dp : HistogramDataPoint) : Layout where
  kind := ⟨"explicit", by decide⟩
  explicitBounds := dp.explicitBounds
  scale := none
  zeroThreshold := none

/-- The `Histogram` branch. -/
def convertHistogram (temporality : AggregationTemporality) (dp : HistogramDataPoint) :
    PointConversion where
  layout := some (explicitLayout dp)
  attributes := dp.attributes
  numberKind := ⟨"", by decide⟩
  temporality := temporalityString temporality
  isMonotonic := false
  row := fun id seriesKey =>
    { distributionPoint dp.timestamp dp.startTimestamp dp.flags dp.count dp.sum dp.min dp.max
        id seriesKey with
      histogramLayoutHash := some (explicitLayout dp).row.layoutHash
      bucketCounts := dp.bucketCounts.map UInt64.toNat }
  exemplars := dp.exemplars

/-- The layout of an exponential histogram. -/
def exponentialLayout (dp : ExponentialHistogramDataPoint) : Layout where
  kind := ⟨"exponential", by decide⟩
  explicitBounds := ⟨[], by decide⟩
  scale := some dp.scale
  zeroThreshold := some dp.zeroThreshold

/-- The `ExponentialHistogram` branch. -/
def convertExponentialHistogram (temporality : AggregationTemporality)
    (dp : ExponentialHistogramDataPoint) : PointConversion where
  layout := some (exponentialLayout dp)
  attributes := dp.attributes
  numberKind := ⟨"", by decide⟩
  temporality := temporalityString temporality
  isMonotonic := false
  row := fun id seriesKey =>
    { distributionPoint dp.timestamp dp.startTimestamp dp.flags dp.count dp.sum dp.min dp.max
        id seriesKey with
      histogramLayoutHash := some (exponentialLayout dp).row.layoutHash
      zeroCount := some dp.zeroCount.toNat
      positiveOffset := some dp.positive.offset.toInt
      positiveBucketCounts := dp.positive.bucketCounts.map UInt64.toNat
      negativeOffset := some dp.negative.offset.toInt
      negativeBucketCounts := dp.negative.bucketCounts.map UInt64.toNat }
  exemplars := dp.exemplars

/-- The `Summary` branch, which appends no exemplars. -/
def convertSummary (dp : SummaryDataPoint) : PointConversion where
  layout := none
  attributes := dp.attributes
  numberKind := ⟨"", by decide⟩
  temporality := ⟨"cumulative", by decide⟩
  isMonotonic := false
  row := fun id seriesKey =>
    { distributionPoint dp.timestamp dp.startTimestamp dp.flags dp.count (some dp.sum) none none
        id seriesKey with
      summaryQuantiles := dp.quantileValues.map ValueAtQuantile.quantile
      summaryQuantileValues := dp.quantileValues.map ValueAtQuantile.value }
  exemplars := []

def Pmetric.DataPoint.conversion : DataPoint → PointConversion
  | .gauge dp => convertGauge dp
  | .sum temporality isMonotonic dp => convertSum temporality isMonotonic dp
  | .histogram temporality dp => convertHistogram temporality dp
  | .exponentialHistogram temporality dp => convertExponentialHistogram temporality dp
  | .summary dp => convertSummary dp

/-- What `seriesKeyFor` hashes. -/
def seriesIdentity (ctx : MetricContext) (m : Metric) (p : PointConversion) :
    MetricSeriesIdentity where
  resourceHash := ctx.resourceHash
  scope :=
    { schemaURL := ctx.scopeSchemaURL.bytes
      name := ctx.scope.name.bytes
      version := ctx.scope.version.bytes
      droppedAttributesCount := ctx.scope.droppedAttributesCount
      attributesRaw := ctx.scope.attributes.raw }
  metricName := m.name.bytes
  metricType := m.data.type.bytes
  numberKind := p.numberKind.bytes
  unit := m.unit.bytes
  temporality := p.temporality.bytes
  isMonotonic := p.isMonotonic
  attributesRaw := p.attributes.raw

/-- The row `addSeries` registers. -/
def seriesRow (ctx : MetricContext) (m : Metric) (p : PointConversion) : MetricSeriesRow where
  seriesKey := hashSeries (seriesIdentity ctx m p)
  serviceName := ctx.serviceName
  metricName := m.name.1
  metricType := m.data.type.1
  numberKind := p.numberKind.1
  unit := m.unit.1
  description := m.description.1
  temporality := p.temporality.1
  isMonotonic := p.isMonotonic
  attributes := p.attributes.column env
  scopeName := ctx.scope.name.1
  scopeVersion := ctx.scope.version.1
  scopeSchemaURL := ctx.scopeSchemaURL.1
  scopeDroppedAttributesCount := ctx.scope.droppedAttributesCount
  scopeAttributes := ctx.scope.attributes.column env
  resourceHash := ctx.resourceHash

/-- A layout is appended when its hash is new. -/
def appendHistogramLayout (st : Conversion) (layout : Layout) : Conversion :=
  { st with histogramLayouts := st.histogramLayouts.register layout.row }

/-- A series is added when its key is new. -/
def addSeries (st : Conversion) (row : MetricSeriesRow) : Conversion :=
  { st with series := st.series.register row }

/-- The row of an exemplar of a point. -/
def exemplarRow (pointID : UUID) (e : Exemplar) (id : UUID) : MetricExemplarRow UInt64 where
  id := id
  pointID := pointID
  ts := asTime e.timestamp
  traceID := e.traceID
  spanID := e.spanID
  filteredAttributes := e.filteredAttributes.column env
  valueInt := (exemplarValue e.value).1
  valueDouble := (exemplarValue e.value).2

/-- The exemplars of a point, each under a new id. -/
def appendExemplars (pointID : UUID) (st : Conversion) (exemplars : List Exemplar) :
    Conversion :=
  exemplars.foldl
    (fun st e =>
      { st with
        exemplars := st.exemplars ++ [exemplarRow env pointID e (env.newRowID st.minted)]
        minted := st.minted + 1 })
    st

/-- The loop of `convertMetric` over one data point. -/
def convertPoint (ctx : MetricContext) (m : Metric) (st : Conversion) (p : PointConversion) :
    Conversion :=
  let st := match p.layout with
    | some layout => appendHistogramLayout st layout
    | none => st
  let st := addSeries st (seriesRow env ctx m p)
  let point := p.row (env.newRowID st.minted) (seriesRow env ctx m p).seriesKey
  appendExemplars env point.id
    { st with points := st.points ++ [point], minted := st.minted + 1 } p.exemplars

/-- The points of one metric. -/
def convertMetric (ctx : MetricContext) (st : Conversion) (m : Metric) : Conversion :=
  (m.data.dataPoints.map DataPoint.conversion).foldl (convertPoint env ctx m) st

/-- `hashResource` of the resource of a `ResourceMetrics` -/
def resourceHashOf (rm : ResourceMetrics) : UInt64 :=
  hashResource ⟨rm.schemaURL.bytes, rm.resource.droppedAttributesCount, rm.resource.attributes.raw⟩

/-- The row of the resource of some metrics. -/
def resourceRow (rm : ResourceMetrics) : ResourceRow where
  resourceHash := resourceHashOf rm
  serviceName := serviceName env rm.resource.attributes
  attributes := rm.resource.attributes.column env

/-- What the metrics of one scope share. -/
def metricContext (rm : ResourceMetrics) (sm : ScopeMetrics) : MetricContext where
  serviceName := serviceName env rm.resource.attributes
  resourceHash := resourceHashOf rm
  scopeSchemaURL := sm.schemaURL
  scope := sm.scope

/-- The loop of `ConvertMetrics` over one resource. -/
def convertResourceMetrics (st : Conversion) (rm : ResourceMetrics) : Conversion :=
  rm.scopeMetrics.foldl
    (fun st sm => sm.metrics.foldl (convertMetric env (metricContext env rm sm)) st)
    { st with resources := st.resources.register (resourceRow env rm) }

def convertMetrics (md : Metrics) : MetricBatch UInt64 :=
  let st := md.foldl (convertResourceMetrics env) .start
  { resources := st.resources.table.rows
    series := st.series.table.rows
    histogramLayouts := st.histogramLayouts.table.rows
    points := st.points
    exemplars := st.exemplars }

/-! ### The data points of a payload -/

/-- A data point in its metric, its scope and its resource. -/
structure Source where
  resource : ResourceMetrics
  scope : ScopeMetrics
  metric : Metric
  point : DataPoint

/-- The data points of one resource. -/
def resourceSources (rm : ResourceMetrics) : List Source :=
  rm.scopeMetrics.flatMap fun sm => sm.metrics.flatMap fun m =>
    m.data.dataPoints.map fun dp => ⟨rm, sm, m, dp⟩

/-- Every data point of a supported type, in the order of the payload. -/
def sources (md : Metrics) : List Source := md.flatMap resourceSources

def Source.conversion (src : Source) : PointConversion := src.point.conversion

def Source.ctx (src : Source) : MetricContext := metricContext env src.resource src.scope

/-- What the key of the series is a hash of. -/
def Source.identity (src : Source) : MetricSeriesIdentity :=
  seriesIdentity (src.ctx env) src.metric src.conversion

/-- The row of the series a point belongs to. -/
def Source.seriesRow (src : Source) : MetricSeriesRow :=
  Storage.seriesRow env (src.ctx env) src.metric src.conversion

/-- One point of the payload. -/
def convertSource (st : Conversion) (src : Source) : Conversion :=
  convertPoint env (src.ctx env) src.metric st src.conversion

/-- The data points, each with the number of ids minted before it. -/
def numbered : Nat → List Source → List (Nat × Source)
  | _, [] => []
  | n, src :: srcs => (n, src) :: numbered (n + 1 + src.conversion.exemplars.length) srcs

/-- The row of a point under its number. -/
def pointRow (e : Nat × Source) : MetricPointRow UInt64 :=
  e.2.conversion.row (env.newRowID e.1) (hashSeries (e.2.identity env))

/-- The rows of exemplars, the first of which has the id after so many. -/
def exemplarRows (pointID : UUID) : Nat → List Exemplar → List (MetricExemplarRow UInt64)
  | _, [] => []
  | n, e :: exemplars =>
      exemplarRow env pointID e (env.newRowID n) :: exemplarRows pointID (n + 1) exemplars

/-- The exemplar rows of a point under its number. -/
def pointExemplars (e : Nat × Source) : List (MetricExemplarRow UInt64) :=
  exemplarRows env (pointRow env e).id (e.1 + 1) e.2.conversion.exemplars

/-- The ids that so many data points take. -/
def idCount (srcs : List Source) : Nat :=
  (srcs.map fun src => 1 + src.conversion.exemplars.length).sum

/-! ### What a loop adds -/

theorem appendExemplars_eq
    (pointID : UUID) (exemplars : List Exemplar) (st : Conversion) :
    appendExemplars env pointID st exemplars =
      { st with
        exemplars := st.exemplars ++ exemplarRows env pointID st.minted exemplars
        minted := st.minted + exemplars.length } := by
  induction exemplars generalizing st with
  | nil =>
      simp [appendExemplars, exemplarRows]
  | cons e exemplars ih =>
      refine (ih _).trans ?_
      simp only [exemplarRows, List.append_assoc, List.singleton_append, List.length_cons,
        Nat.add_assoc, Nat.add_comm 1]

/-- The series, the layouts and the points of a loop over data points do not depend on each
other. -/
theorem foldl_convertSource (srcs : List Source) (st : Conversion) :
    srcs.foldl (convertSource env) st =
      { resources := st.resources
        series := st.series.registerAll (srcs.map (Source.seriesRow env))
        histogramLayouts := st.histogramLayouts.registerAll
          (srcs.filterMap fun src => src.conversion.layout.map Layout.row)
        points := st.points ++ (numbered st.minted srcs).map (pointRow env)
        exemplars := st.exemplars ++ (numbered st.minted srcs).flatMap (pointExemplars env)
        minted := st.minted + idCount srcs } := by
  induction srcs generalizing st with
  | nil =>
      simp [numbered, idCount]
  | cons src srcs ih =>
      rw [List.foldl_cons, ih, convertSource, convertPoint, appendExemplars_eq]
      cases hlayout : src.conversion.layout with
      | none =>
          simp [numbered, idCount, hlayout, addSeries, Source.seriesRow, pointExemplars, pointRow,
            Source.identity, Storage.seriesRow, Nat.add_assoc]
      | some layout =>
          simp [numbered, idCount, hlayout, addSeries, appendHistogramLayout, Source.seriesRow,
            pointExemplars, pointRow, Source.identity, Storage.seriesRow, Nat.add_assoc]

theorem convertResourceMetrics_eq (st : Conversion) (rm : ResourceMetrics) :
    convertResourceMetrics env st rm =
      (resourceSources rm).foldl (convertSource env)
        { st with resources := st.resources.register (resourceRow env rm) } := by
  rw [convertResourceMetrics, resourceSources, List.foldl_flatMap]
  congr 1
  funext st sm
  rw [List.foldl_flatMap]
  congr 1
  funext st m
  rw [convertMetric, List.foldl_map, List.foldl_map]
  rfl

theorem foldl_convertResourceMetrics (md : Metrics) (st : Conversion) :
    md.foldl (convertResourceMetrics env) st =
      (sources md).foldl (convertSource env)
        { st with resources := st.resources.registerAll (md.map (resourceRow env)) } := by
  induction md generalizing st with
  | nil =>
      rfl
  | cons rm md ih =>
      have hsources : sources (rm :: md) = resourceSources rm ++ sources md :=
        List.flatMap_cons
      rw [List.foldl_cons, ih, convertResourceMetrics_eq, hsources, List.foldl_append]
      refine congrArg (fun st => (sources md).foldl (convertSource env) st) ?_
      simp only [foldl_convertSource, List.map_cons, Registry.registerAll_cons]

/-- The batch, list by list. -/
theorem convertMetrics_eq (md : Metrics) :
    convertMetrics env md =
      { resources := (Conversion.start.resources.registerAll
          (md.map (resourceRow env))).table.rows
        series := (Conversion.start.series.registerAll
          ((sources md).map (Source.seriesRow env))).table.rows
        histogramLayouts := (Conversion.start.histogramLayouts.registerAll
          ((sources md).filterMap fun src =>
            src.conversion.layout.map Layout.row)).table.rows
        points := (numbered 0 (sources md)).map (pointRow env)
        exemplars := (numbered 0 (sources md)).flatMap (pointExemplars env) } := by
  rw [convertMetrics, foldl_convertResourceMetrics, foldl_convertSource]
  rfl

/-! ### What a row carries -/

/-- What every point row takes from its data point. -/
def Pmetric.DataPoint.times : DataPoint → UInt64 × UInt64 × UInt32
  | .gauge dp => (dp.timestamp, dp.startTimestamp, dp.flags)
  | .sum _ _ dp => (dp.timestamp, dp.startTimestamp, dp.flags)
  | .histogram _ dp => (dp.timestamp, dp.startTimestamp, dp.flags)
  | .exponentialHistogram _ dp => (dp.timestamp, dp.startTimestamp, dp.flags)
  | .summary dp => (dp.timestamp, dp.startTimestamp, dp.flags)

def Pmetric.DataPoint.exemplars : DataPoint → List Exemplar
  | .gauge dp => dp.exemplars
  | .sum _ _ dp => dp.exemplars
  | .histogram _ dp => dp.exemplars
  | .exponentialHistogram _ dp => dp.exemplars
  | .summary _ => []

/-- A scalar row of this value, without the fields of a distribution. -/
structure IsScalar (value : NumberValue) (p : MetricPointRow UInt64) : Prop where
  int : ∀ n, value = .int n → p.valueInt = some n.toInt ∧ p.valueDouble = none
  double : ∀ bits, value = .double bits → p.valueInt = none ∧ p.valueDouble = some bits
  empty : value = .empty → p.valueInt = none ∧ p.valueDouble = none
  totals : p.count = none ∧ p.sum = none ∧ p.min = none ∧ p.max = none
  layout : p.histogramLayoutHash = none ∧ p.bucketCounts = []
  exponential : p.zeroCount = none ∧ p.positiveOffset = none ∧ p.positiveBucketCounts = [] ∧
    p.negativeOffset = none ∧ p.negativeBucketCounts = []
  summary : p.summaryQuantiles = [] ∧ p.summaryQuantileValues = []

/-- A distribution row of this count and these extremes, without a scalar value. -/
structure IsDistribution (count : UInt64) (sum min max : Option UInt64)
    (p : MetricPointRow UInt64) : Prop where
  value : p.valueInt = none ∧ p.valueDouble = none
  count : p.count = some count.toNat
  sum : p.sum = sum
  min : p.min = min
  max : p.max = max

/-- The row carries the data point. -/
def Carries : DataPoint → MetricPointRow UInt64 → Prop
  | .gauge dp, p => IsScalar dp.value p
  | .sum _ _ dp, p => IsScalar dp.value p
  | .histogram _ dp, p =>
      IsDistribution dp.count dp.sum dp.min dp.max p ∧
        p.bucketCounts = dp.bucketCounts.map UInt64.toNat ∧ p.histogramLayoutHash.isSome
  | .exponentialHistogram _ dp, p =>
      IsDistribution dp.count dp.sum dp.min dp.max p ∧
        p.positiveBucketCounts = dp.positive.bucketCounts.map UInt64.toNat ∧
        p.negativeBucketCounts = dp.negative.bucketCounts.map UInt64.toNat ∧
        p.histogramLayoutHash.isSome
  | .summary dp, p =>
      IsDistribution dp.count (some dp.sum) none none p ∧
        p.summaryQuantiles = dp.quantileValues.map ValueAtQuantile.quantile ∧
        p.summaryQuantileValues = dp.quantileValues.map ValueAtQuantile.value

/-- The row of a data point. -/
structure RowOf (src : Source) (p : MetricPointRow UInt64) : Prop where
  seriesKey : p.seriesKey = hashSeries (src.identity env)
  ts : p.ts = asTime src.point.times.1
  startTS : p.startTS = optionalTimestamp src.point.times.2.1
  flags : p.flags = src.point.times.2.2
  carries : Carries src.point p

theorem isScalar_scalarPoint (dp : NumberDataPoint) (id : UUID) (key : UInt64) :
    IsScalar dp.value (scalarPoint dp id key) where
  int n h := by simp [scalarPoint, numberValue, h]
  double bits h := by simp [scalarPoint, numberValue, h]
  empty h := by simp [scalarPoint, numberValue, h]
  totals := ⟨rfl, rfl, rfl, rfl⟩
  layout := ⟨rfl, rfl⟩
  exponential := ⟨rfl, rfl, rfl, rfl, rfl⟩
  summary := ⟨rfl, rfl⟩

/-- The row of a data point, under any key. -/
theorem carries_conversion (src : Source) (id : UUID) (key : UInt64) :
    (src.conversion.row id key).seriesKey = key ∧
      (src.conversion.row id key).ts = asTime src.point.times.1 ∧
      (src.conversion.row id key).startTS = optionalTimestamp src.point.times.2.1 ∧
      (src.conversion.row id key).flags = src.point.times.2.2 ∧
      Carries src.point (src.conversion.row id key) := by
  obtain ⟨rm, sm, metric, point⟩ := src
  cases point with
  | gauge dp => exact ⟨rfl, rfl, rfl, rfl, isScalar_scalarPoint dp _ _⟩
  | sum temporality isMonotonic dp => exact ⟨rfl, rfl, rfl, rfl, isScalar_scalarPoint dp _ _⟩
  | histogram temporality dp =>
      exact ⟨rfl, rfl, rfl, rfl, ⟨⟨rfl, rfl⟩, rfl, rfl, rfl, rfl⟩, rfl, rfl⟩
  | exponentialHistogram temporality dp =>
      exact ⟨rfl, rfl, rfl, rfl, ⟨⟨rfl, rfl⟩, rfl, rfl, rfl, rfl⟩, rfl, rfl, rfl⟩
  | summary dp =>
      exact ⟨rfl, rfl, rfl, rfl, ⟨⟨rfl, rfl⟩, rfl, rfl, rfl, rfl⟩, rfl, rfl⟩

theorem rowOf_conversion (src : Source) (id : UUID) :
    RowOf env src (src.conversion.row id (hashSeries (src.identity env))) := by
  obtain ⟨hkey, hts, hstart, hflags, hcarries⟩ :=
    carries_conversion src id (hashSeries (src.identity env))
  exact ⟨hkey, hts, hstart, hflags, hcarries⟩

theorem exemplars_conversion (src : Source) :
    src.conversion.exemplars = src.point.exemplars := by
  obtain ⟨rm, sm, metric, point⟩ := src
  cases point <;> rfl

/-- The id that a conversion is given is the id of its row. -/
theorem id_conversion (src : Source) (id : UUID) (key : UInt64) :
    (src.conversion.row id key).id = id := by
  obtain ⟨rm, sm, metric, point⟩ := src
  cases point <;> rfl

/-- The layout a row names is the one that was registered for it. -/
theorem layoutHash_conversion (src : Source) (id : UUID) (key : UInt64) :
    (src.conversion.row id key).histogramLayoutHash =
      src.conversion.layout.map fun layout => layout.row.layoutHash := by
  obtain ⟨rm, sm, metric, point⟩ := src
  cases point <;> rfl

/-- The row of an exemplar of the point. -/
structure ExemplarOf (p : MetricPointRow UInt64) (e : Exemplar)
    (row : MetricExemplarRow UInt64) : Prop where
  pointID : row.pointID = p.id
  ts : row.ts = asTime e.timestamp
  spanIDs : row.traceID = e.traceID ∧ row.spanID = e.spanID
  value : (row.valueInt, row.valueDouble) = exemplarValue e.value

theorem exemplarOf_exemplarRows
    {p : MetricPointRow UInt64} {n : Nat} (exemplars : List Exemplar) :
    List.Forall₂ (ExemplarOf p) exemplars (exemplarRows env p.id n exemplars) := by
  induction exemplars generalizing n with
  | nil =>
      exact List.Forall₂.nil
  | cons e exemplars ih =>
      exact List.Forall₂.cons ⟨rfl, rfl, ⟨rfl, rfl⟩, rfl⟩ ih

theorem map_snd_numbered (n : Nat) (srcs : List Source) :
    (numbered n srcs).map Prod.snd = srcs := by
  induction srcs generalizing n with
  | nil =>
      rfl
  | cons src srcs ih =>
      rw [numbered, List.map_cons, ih]

/-! ### The ids -/

theorem map_id_exemplarRows (pointID : UUID) (n : Nat) (exemplars : List Exemplar) :
    (exemplarRows env pointID n exemplars).map MetricExemplarRow.id =
      (List.range' n exemplars.length).map env.newRowID := by
  induction exemplars generalizing n with
  | nil =>
      rfl
  | cons e exemplars ih =>
      rw [exemplarRows, List.map_cons, ih, List.length_cons, List.range'_succ, List.map_cons]
      rfl

/-- The points and the exemplars have the ids that were minted, in another order. -/
theorem ids_numbered (n : Nat) (srcs : List Source) :
    (((numbered n srcs).map (pointRow env)).map MetricPointRow.id ++
        ((numbered n srcs).flatMap (pointExemplars env)).map MetricExemplarRow.id).Perm
      ((List.range' n (idCount srcs)).map env.newRowID) := by
  induction srcs generalizing n with
  | nil =>
      exact List.Perm.refl _
  | cons src srcs ih =>
      have hcount : idCount (src :: srcs) =
          1 + (src.conversion.exemplars.length + idCount srcs) := by
        rw [idCount, idCount, List.map_cons, List.sum_cons, Nat.add_assoc]
      have hid : (pointRow env (n, src)).id = env.newRowID n := id_conversion src _ _
      have hexemplars : (pointExemplars env (n, src)).map MetricExemplarRow.id =
          (List.range' (n + 1) src.conversion.exemplars.length).map env.newRowID :=
        map_id_exemplarRows env _ _ _
      rw [numbered, List.map_cons, List.map_cons, List.flatMap_cons, List.map_append, hid,
        hexemplars, hcount, Nat.add_comm 1, List.range'_succ, List.map_cons, List.cons_append,
        ← List.range'_append_1, List.map_append]
      refine List.Perm.cons _ ?_
      refine (List.perm_append_comm_assoc _ _ _).trans (List.Perm.append_left _ ?_)
      exact ih _

/-! ### The batch -/

/-- What `hashResource` hashes of a resource. -/
def resourceIdentity (rm : ResourceMetrics) : ResourceIdentity :=
  ⟨rm.schemaURL.bytes, rm.resource.droppedAttributesCount, rm.resource.attributes.raw⟩

/-- Distinct identities of the payload have distinct hashes. -/
structure HashesApart (md : Metrics) : Prop where
  resources : ∀ rm ∈ md, ∀ rm' ∈ md,
    resourceHashOf rm = resourceHashOf rm' → resourceIdentity rm = resourceIdentity rm'
  series : ∀ src ∈ sources md, ∀ src' ∈ sources md,
    hashSeries (src.identity env) = hashSeries (src'.identity env) →
      src.identity env = src'.identity env
  layouts : ∀ src ∈ sources md, ∀ src' ∈ sources md, ∀ layout layout',
    src.conversion.layout = some layout → src'.conversion.layout = some layout' →
      histogramLayoutHash layout.identity = histogramLayoutHash layout'.identity →
        layout.identity = layout'.identity

/-- The rows a point needs are in the batch once each, and they are its own. -/
structure Registered (md : Metrics) (batch : MetricBatch UInt64) (src : Source)
    (p : MetricPointRow UInt64) : Prop where
  series : ∃ src' ∈ sources md,
    batch.series.filter (fun x => x.seriesKey = p.seriesKey) = [src'.seriesRow env] ∧
      (HashesApart env md → src'.identity env = src.identity env)
  layout : ∀ hash, p.histogramLayoutHash = some hash →
    ∃ src' ∈ sources md, ∃ layout layout',
      src'.conversion.layout = some layout' ∧ src.conversion.layout = some layout ∧
        batch.histogramLayouts.filter (fun x => x.layoutHash = hash) = [layout'.row] ∧
          (HashesApart env md → layout'.identity = layout.identity)
  resource : ∃ rm ∈ md,
    batch.resources.filter (fun x => x.resourceHash = resourceHashOf src.resource) =
        [resourceRow env rm] ∧
      (HashesApart env md → resourceIdentity rm = resourceIdentity src.resource)

/-- The batch holds the payload. -/
structure Conserves (md : Metrics) (batch : MetricBatch UInt64) : Prop where
  points : List.Forall₂ (RowOf env) (sources md) batch.points
  registered : List.Forall₂ (Registered env md batch) (sources md) batch.points
  resources : ∀ x ∈ batch.series,
    ∃ r, batch.resources.filter (fun y => y.resourceHash = x.resourceHash) = [r]
  exemplars : ∃ groups, batch.exemplars = groups.flatten ∧
    List.Forall₂
      (fun (e : Source × MetricPointRow UInt64) group =>
        List.Forall₂ (ExemplarOf e.2) e.1.point.exemplars group)
      ((sources md).zip batch.points) groups
  ids : (batch.points.map MetricPointRow.id ++
    batch.exemplars.map MetricExemplarRow.id).Nodup

theorem seriesKey_seriesRow (src : Source) :
    (src.seriesRow env).seriesKey = hashSeries (src.identity env) := by
  rw [Source.seriesRow, Storage.seriesRow, Source.identity]

theorem layoutHash_row (layout : Layout) :
    layout.row.layoutHash = histogramLayoutHash layout.identity := by
  rw [Layout.row]

theorem mem_numbered {n : Nat} {srcs : List Source} {e : Nat × Source}
    (he : e ∈ numbered n srcs) : e.2 ∈ srcs := by
  rw [← map_snd_numbered n srcs]
  exact List.mem_map_of_mem he

theorem resource_mem_of_mem_sources {md : Metrics} {src : Source} (h : src ∈ sources md) :
    src.resource ∈ md := by
  obtain ⟨rm, hrm, hsrc⟩ := List.mem_flatMap.mp h
  obtain ⟨sm, -, hsrc⟩ := List.mem_flatMap.mp hsrc
  obtain ⟨m, -, hsrc⟩ := List.mem_flatMap.mp hsrc
  obtain ⟨dp, -, rfl⟩ := List.mem_map.mp hsrc
  exact hrm

/-- Every resource of the payload is in the batch once. -/
theorem resource_registered {md : Metrics} {rm : ResourceMetrics} (hrm : rm ∈ md) :
    ∃ rm' ∈ md, resourceHashOf rm' = resourceHashOf rm ∧
      (convertMetrics env md).resources.filter
        (fun x => x.resourceHash = resourceHashOf rm) = [resourceRow env rm'] := by
  obtain ⟨row, hrow, hkey, hfilter⟩ :=
    Registry.registerAll_unique ResourceRow.resourceHash
      (List.mem_map_of_mem (f := resourceRow env) hrm)
  obtain ⟨rm', hrm', rfl⟩ := List.mem_map.mp hrow
  refine ⟨rm', hrm', hkey, ?_⟩
  rw [convertMetrics_eq]
  exact hfilter

theorem registered_numbered {md : Metrics} {e : Nat × Source}
    (he : e ∈ numbered 0 (sources md)) :
    Registered env md (convertMetrics env md) e.2 (pointRow env e) where
  series := by
    have hsrc := mem_numbered he
    obtain ⟨row, hrow, hkey, hfilter⟩ :=
      Registry.registerAll_unique MetricSeriesRow.seriesKey
        (List.mem_map_of_mem (f := Source.seriesRow env) hsrc)
    obtain ⟨src', hsrc', rfl⟩ := List.mem_map.mp hrow
    rw [seriesKey_seriesRow, seriesKey_seriesRow] at hkey
    rw [seriesKey_seriesRow] at hfilter
    refine ⟨src', hsrc', ?_, fun hapart => hapart.series src' hsrc' e.2 hsrc hkey⟩
    rw [convertMetrics_eq, pointRow, (carries_conversion e.2 _ _).1]
    exact hfilter
  layout := by
    intro hash hhash
    have hsrc := mem_numbered he
    rw [pointRow, layoutHash_conversion, Option.map_eq_some_iff] at hhash
    obtain ⟨layout, hlayout, rfl⟩ := hhash
    have hmem : layout.row ∈ (sources md).filterMap fun src =>
        src.conversion.layout.map Layout.row :=
      List.mem_filterMap.mpr ⟨e.2, hsrc, by rw [hlayout]; rfl⟩
    obtain ⟨row, hrow, hkey, hfilter⟩ :=
      Registry.registerAll_unique HistogramLayoutRow.layoutHash hmem
    obtain ⟨src', hsrc', hrow⟩ := List.mem_filterMap.mp hrow
    obtain ⟨layout', hlayout', rfl⟩ := Option.map_eq_some_iff.mp hrow
    rw [layoutHash_row, layoutHash_row] at hkey
    refine ⟨src', hsrc', layout, layout', hlayout', hlayout, ?_,
      fun hapart => hapart.layouts src' hsrc' e.2 hsrc layout' layout hlayout' hlayout hkey⟩
    rw [convertMetrics_eq]
    exact hfilter
  resource := by
    have hrm := resource_mem_of_mem_sources (mem_numbered he)
    obtain ⟨rm, hrm', hkey, hfilter⟩ := resource_registered env hrm
    exact ⟨rm, hrm', hfilter, fun hapart => hapart.resources rm hrm' _ hrm hkey⟩

theorem resourceHash_seriesRow (src : Source) :
    (src.seriesRow env).resourceHash = resourceHashOf src.resource := by
  rw [Source.seriesRow, Storage.seriesRow, Source.ctx, metricContext]

/-- The batch holds each data point once, with the rows it refers to, and each exemplar with its
point. -/
theorem convertMetrics_conserves
    (md : Metrics)
    (hids : ∀ i < idCount (sources md), ∀ j < idCount (sources md),
      env.newRowID i = env.newRowID j → i = j) :
    Conserves env md (convertMetrics env md) := by
  have hpoints : (convertMetrics env md).points = (numbered 0 (sources md)).map (pointRow env) := by
    rw [convertMetrics_eq]
  have hforall : ∀ {R : Source → MetricPointRow UInt64 → Prop},
      (∀ e ∈ numbered 0 (sources md), R e.2 (pointRow env e)) →
        List.Forall₂ R (sources md) (convertMetrics env md).points := by
    intro R hR
    rw [hpoints, List.forall₂_map_right_iff]
    nth_rewrite 1 [← map_snd_numbered 0 (sources md)]
    rw [List.forall₂_map_left_iff, List.forall₂_same]
    exact hR
  refine ⟨hforall fun e _ => rowOf_conversion env e.2 _,
    hforall fun e he => registered_numbered env he, ?_, ?_, ?_⟩
  · intro x hx
    rw [convertMetrics_eq] at hx
    obtain ⟨src, hsrc, rfl⟩ :=
      List.mem_map.mp ((Registry.mem_of_mem_registerAll hx).resolve_left List.not_mem_nil)
    obtain ⟨rm, -, -, hfilter⟩ :=
      resource_registered env (resource_mem_of_mem_sources hsrc)
    rw [resourceHash_seriesRow]
    exact ⟨_, hfilter⟩
  · refine ⟨(numbered 0 (sources md)).map (pointExemplars env), ?_, ?_⟩
    · rw [convertMetrics_eq, List.flatMap_def]
    · rw [hpoints, List.forall₂_map_right_iff]
      nth_rewrite 1 [← map_snd_numbered 0 (sources md)]
      rw [List.zip_map', List.forall₂_map_left_iff, List.forall₂_same]
      intro e _
      rw [← exemplars_conversion]
      exact exemplarOf_exemplarRows env _
  · rw [convertMetrics_eq]
    refine (ids_numbered env 0 (sources md)).nodup_iff.mpr ?_
    refine List.Nodup.map_on ?_ List.nodup_range'
    intro i hi j hj hij
    rw [List.mem_range'_1, Nat.zero_add] at hi hj
    exact hids i hi.2 j hj.2 hij

theorem exists_left_of_forall₂
    {α β : Type} {R : α → β → Prop} {l : List α} {l' : List β} (h : List.Forall₂ R l l')
    {b : β} (hb : b ∈ l') :
    ∃ a ∈ l, R a b := by
  induction h with
  | nil =>
      cases hb
  | cons hhead htail ih =>
      rcases List.mem_cons.mp hb with rfl | hb
      · exact ⟨_, List.mem_cons_self, hhead⟩
      · obtain ⟨a, ha, hab⟩ := ih hb
        exact ⟨a, List.mem_cons_of_mem _ ha, hab⟩

/-- What the writer is promised of a batch. -/
theorem Conserves.closed
    {md : Metrics} {batch : MetricBatch UInt64} (h : Conserves env md batch) :
    batch.Closed where
  series := by
    intro x hx
    obtain ⟨r, hfilter⟩ := h.resources x hx
    exact ⟨r, mem_of_filter_eq_singleton hfilter⟩
  points := by
    intro p hp
    obtain ⟨src, -, hsrc⟩ := exists_left_of_forall₂ h.registered hp
    obtain ⟨src', -, hfilter, -⟩ := hsrc.series
    exact ⟨_, mem_of_filter_eq_singleton hfilter⟩
  layouts := by
    intro p hp hash hhash
    obtain ⟨src, -, hsrc⟩ := exists_left_of_forall₂ h.registered hp
    obtain ⟨src', -, layout, layout', -, -, hfilter, -⟩ := hsrc.layout hash hhash
    exact ⟨_, mem_of_filter_eq_singleton hfilter⟩
  exemplars := by
    intro e he
    obtain ⟨groups, hgroups, hforall⟩ := h.exemplars
    rw [hgroups] at he
    obtain ⟨group, hgroup, he⟩ := List.mem_flatten.mp he
    obtain ⟨⟨src, p⟩, hsrc, hrows⟩ := exists_left_of_forall₂ hforall hgroup
    obtain ⟨exemplar, -, hof⟩ := exists_left_of_forall₂ hrows he
    exact ⟨p, (List.of_mem_zip hsrc).2, hof.pointID.symm⟩

end Convert

/-! ### A payload with repeated identities -/

def noAttributes : AttributeMap where
  map := ⟨[], .map (by decide) (by decide) (by simp) (by simp)⟩
  encodable := by
    simp [encodeOTLPAttributes, writePcommonMap, otlpAttributesEncodingPrefix, sortKeys,
      writeBinaryLen, writeBinaryUint64, littleEndian]

def countedIDs : Environment where
  asString := fun _ => ""
  column := fun _ => .empty
  newRowID := Fin.ofNat (2 ^ 128)

def payloadExemplar : Exemplar where
  timestamp := 1
  traceID := ""
  spanID := ""
  filteredAttributes := noAttributes
  value := .int 7

def payloadNumber (timestamp : UInt64) : NumberDataPoint where
  attributes := noAttributes
  startTimestamp := 0
  timestamp := timestamp
  flags := 0
  value := .int 7
  exemplars := [payloadExemplar]

def payloadHistogram : HistogramDataPoint where
  attributes := noAttributes
  startTimestamp := 0
  timestamp := 1
  flags := 0
  count := 3
  sum := none
  min := none
  max := none
  explicitBounds := ⟨[], by decide⟩
  bucketCounts := [3]
  exemplars := [payloadExemplar, payloadExemplar]

/-- One resource twice, with a gauge of two points and a histogram of two. -/
def samplePayload : Metrics :=
  let empty : Text := ⟨"", by decide⟩
  let rm : ResourceMetrics :=
    ⟨empty, ⟨noAttributes, 0⟩,
      [⟨empty, ⟨empty, empty, noAttributes, 0⟩,
        [⟨⟨"g", by decide⟩, empty, empty, .gauge [payloadNumber 1, payloadNumber 2]⟩,
          ⟨⟨"h", by decide⟩, empty, empty,
            .histogram .cumulative [payloadHistogram, payloadHistogram]⟩]⟩]⟩
  [rm, rm]

theorem convertMetrics_conserves_sample :
    Conserves countedIDs samplePayload
      (convertMetrics countedIDs samplePayload) :=
  convertMetrics_conserves countedIDs samplePayload (by decide)

end Storage
end Otelop
