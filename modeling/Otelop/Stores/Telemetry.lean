import Mathlib.Tactic
import Otelop.Lib.KeyedList
import Otelop.Frontend.EventTimeWindow

/-!
# The telemetry store of the browser

`frontend/src/stores/telemetry.ts`: the buffers of traces, metrics and logs, the
counters of the header badges, and the write atoms that change them.  An atom is a
function on the store.

A `bigint` is an integer.  A duration is a rational number of nanoseconds: the integer of a
message, or what a page makes of its milliseconds.  Any other `number` is only copied, and is
given by its 64 bits.
`replaceEqualDeep` keeps the identity of equal parts and gives the value of its
second argument.
-/

namespace Otelop
namespace Stores

open Lib
open Frontend (EventTimeWindow)

/-- A `number` that is only copied. -/
abbrev Number := UInt64

/-- A status code as the wire has it; the text of a code without a name is empty. -/
inductive SpanStatus where
  | unset
  | ok
  | error
  | unnamed
deriving DecidableEq

/-- The fields of `SpanData` that the store and the span tree read. -/
structure SpanData where
  spanId : String
  parentSpanId : String
  startEpochNs : Int
deriving DecidableEq

structure TraceRootSpan where
  name : String
  kind : String
  statusCode : SpanStatus
  duration : ℚ
deriving DecidableEq

structure TraceData where
  traceId : String
  rootSpan : Option TraceRootSpan
  linkCount : Int
  serviceName : String
  searchValues : Option (List String)
  spanCount : Int
  startTime : String
  duration : ℚ
  spans : List SpanData
  startEpochNs : Int
deriving DecidableEq

structure DataPoint where
  id : String
  timestamp : String
  value : Number
deriving DecidableEq

structure MetricData where
  name : String
  serviceName : String
  dataPoints : List DataPoint
  pointCount : Int
  latestValue : Option Number
  receivedAt : String
deriving DecidableEq

structure LogData where
  id : String
  timestamp : String
  traceId : String
  spanId : String
  severityText : String
  body : String
  serviceName : String
deriving DecidableEq

structure BufferCaps where
  traceCap : Nat
  metricCap : Nat
  logCap : Nat
  maxDataPoints : Nat
deriving DecidableEq

structure SignalTotals where
  traceCount : Nat
  metricCount : Nat
  logCount : Nat
deriving DecidableEq

/-- The atoms. -/
structure Store where
  caps : BufferCaps
  traces : List TraceData
  metrics : List MetricData
  logs : List LogData
  liveTraceBatch : List TraceData
  totals : SignalTotals
  newTraceCount : Nat
  removedTraceCount : Nat
  newMetricCount : Nat
  newLogCount : Nat
  serverMatchedTraceIds : Finset String
  serverMatchedLogIds : Finset String
  loadedOlderTraceIds : Finset String
  loadedOlderLogIds : Finset String
  traceListWindow : EventTimeWindow
  logListWindow : EventTimeWindow

/-- `DEFAULT_CONFIG` -/
def defaultConfig : BufferCaps where
  traceCap := 1000
  metricCap := 3000
  logCap := 5000
  maxDataPoints := 1000

/-- The atoms before anything was written, with the given caps. -/
def initialStore (caps : BufferCaps) : Store where
  caps := caps
  traces := []
  metrics := []
  logs := []
  liveTraceBatch := []
  totals := ⟨0, 0, 0⟩
  newTraceCount := 0
  removedTraceCount := 0
  newMetricCount := 0
  newLogCount := 0
  serverMatchedTraceIds := ∅
  serverMatchedLogIds := ∅
  loadedOlderTraceIds := ∅
  loadedOlderLogIds := ∅
  traceListWindow := .live .hour
  logListWindow := .live .hour

/-! ### Merging two summaries of a trace -/

/-- `mergeSpans` -/
def mergeSpans (existing incoming : List SpanData) : List SpanData :=
  existing ++ incoming.filter fun s => s.spanId ∉ existing.map SpanData.spanId

/-- `mergeSearchValues` -/
def mergeSearchValues (existing incoming : Option (List String)) : Option (List String) :=
  match existing, incoming with
  | none, _ => incoming
  | some [], _ => incoming
  | some _, none => existing
  | some _, some [] => existing
  | some xs, some ys => some (xs ++ ys).eraseDups

/-- `isBetterRoot` -/
def isBetterRoot : Option TraceRootSpan → Option TraceRootSpan → Bool
  | _, none => false
  | none, some _ => true
  | some current, some candidate => decide (current.duration < candidate.duration)

/-- Nothing of a summary goes beyond what is there. -/
def nothingNew (existing incoming : TraceData) : Bool :=
  (mergeSpans existing.spans incoming.spans).length = existing.spans.length &&
    !isBetterRoot existing.rootSpan incoming.rootSpan &&
    decide (incoming.spanCount ≤ existing.spanCount) &&
    decide (incoming.linkCount ≤ existing.linkCount) &&
    decide (incoming.duration ≤ existing.duration) &&
    decide (existing.startEpochNs ≤ incoming.startEpochNs)

/-- The row `mergeTrace` makes when something is new. -/
def mergedTrace (existing incoming : TraceData) : TraceData :=
  let rootChanged := isBetterRoot existing.rootSpan incoming.rootSpan
  let startsEarlier := decide (incoming.startEpochNs < existing.startEpochNs)
  { existing with
    spans := mergeSpans existing.spans incoming.spans
    searchValues := mergeSearchValues existing.searchValues incoming.searchValues
    spanCount := max existing.spanCount incoming.spanCount
    linkCount := max existing.linkCount incoming.linkCount
    rootSpan := if rootChanged then incoming.rootSpan else existing.rootSpan
    serviceName := if rootChanged then incoming.serviceName else existing.serviceName
    startTime := if startsEarlier then incoming.startTime else existing.startTime
    startEpochNs := if startsEarlier then incoming.startEpochNs else existing.startEpochNs
    duration := max existing.duration incoming.duration }

def mergeTrace (existing incoming : TraceData) : Option TraceData :=
  if nothingNew existing incoming then none else some (mergedTrace existing incoming)

/-! ### Traces -/

/-- `toSorted` is stable, and so is `insertionSort`. -/
def newestTraceStartFirst (traces : List TraceData) : List TraceData :=
  traces.insertionSort fun a b => b.startEpochNs ≤ a.startEpochNs

/-- The local variables of the loop of `addTracesAtom`. -/
structure TraceLoop where
  working : List TraceData
  indexById : String → Option Nat
  addedCount : Nat
  changed : Bool

def addTracesRound (loop : TraceLoop) (newTrace : TraceData) : TraceLoop :=
  match (loop.indexById newTrace.traceId).bind fun idx =>
      (loop.working[idx]?).map fun existing => (idx, existing) with
  | some (idx, existing) =>
      match mergeTrace existing newTrace with
      | none => loop
      | some merged => { loop with working := loop.working.set idx merged, changed := true }
  | none =>
      { working := loop.working ++ [newTrace]
        indexById :=
          Function.update loop.indexById newTrace.traceId (some loop.working.length)
        addedCount := loop.addedCount + 1
        changed := true }

def addTracesLoop (current newTraces : List TraceData) : TraceLoop :=
  newTraces.foldl addTracesRound ⟨current, indexRows TraceData.traceId current, 0, false⟩

/-- `addTracesAtom` -/
def addTraces (s : Store) (newTraces : List TraceData) : Store :=
  if newTraces.isEmpty then s
  else
    let s := { s with liveTraceBatch := newTraces }
    let loop := addTracesLoop s.traces newTraces
    if loop.changed then
      { s with
        newTraceCount := s.newTraceCount + loop.addedCount
        traces := (newestTraceStartFirst loop.working).take s.caps.traceCap }
    else s

/-- `cacheTraceAtom` -/
def cacheTrace (s : Store) (trace : TraceData) : Store :=
  match s.traces.findIdx? fun item => item.traceId = trace.traceId with
  | some idx =>
      match (s.traces[idx]?).bind fun existing => mergeTrace existing trace with
      | none => s
      | some merged => { s with traces := newestTraceStartFirst (s.traces.set idx merged) }
  | none =>
      let next := newestTraceStartFirst (s.traces ++ [trace])
      let cap := s.caps.traceCap
      if next.length ≤ cap then { s with traces := next }
      else
        let withoutTrace := next.filter fun item => item.traceId ≠ trace.traceId
        { s with traces := newestTraceStartFirst (withoutTrace.take (cap - 1) ++ [trace]) }

/-- `replaceTraceSpansAtom` -/
def replaceTraceSpans (s : Store) (traceId : String) (spans : List SpanData) : Store :=
  match s.traces.findIdx? fun trace => trace.traceId = traceId with
  | none => s
  | some index =>
      { s with traces := s.traces.modify index fun trace => { trace with spans := spans } }

/-- `removeTraceAtom` -/
def removeTrace (s : Store) (traceId : String) : Store :=
  { s with
    traces := s.traces.filter fun trace => trace.traceId ≠ traceId
    removedTraceCount := s.removedTraceCount + 1 }

/-! ### Metrics -/

/-- `metricKeyToString` is `JSON.stringify` of this pair. -/
def MetricData.key (m : MetricData) : String × String := (m.serviceName, m.name)

/-- One loop of `mergeDataPoints`, with the points merged so far. -/
def pushUnseen (merged : List DataPoint) (dp : DataPoint) : List DataPoint :=
  if dp.id ∈ merged.map DataPoint.id then merged else merged ++ [dp]

def mergeDataPoints (existing incoming : List DataPoint) : List DataPoint :=
  incoming.foldl pushUnseen (existing.foldl pushUnseen [])

/-- `values.slice(-n)`; zero has no sign. -/
def sliceFromEnd {T : Type} (n : Nat) (values : List T) : List T :=
  if n = 0 then values else values.drop (values.length - n)

/-- The row of a group after a delivery. -/
def mergedMetric (maxDataPoints : Nat) (existing newMetric : MetricData) : MetricData :=
  let merged := mergeDataPoints existing.dataPoints newMetric.dataPoints
  let addedCount : Int := merged.length - existing.dataPoints.length
  { existing with
    dataPoints := sliceFromEnd maxDataPoints merged
    pointCount := existing.pointCount + addedCount
    latestValue :=
      if 0 < addedCount then merged.getLast?.map DataPoint.value else existing.latestValue
    receivedAt := newMetric.receivedAt }

/-- The row of a new group. -/
def newGroup (newMetric : MetricData) : MetricData :=
  { newMetric with
    pointCount := newMetric.dataPoints.length
    latestValue := newMetric.dataPoints.getLast?.map DataPoint.value }

/-- `MetricLocation` -/
inductive MetricLocation where
  | working (idx : Nat)
  | new (idx : Nat)
deriving DecidableEq

/-- The local variables of the loop of `addMetricsAtom`. -/
structure MetricLoop where
  working : List MetricData
  newGroups : List MetricData
  locationByKey : String × String → Option MetricLocation
  addedGroupCount : Nat

def addMetricsRound (maxDataPoints : Nat) (loop : MetricLoop) (newMetric : MetricData) :
    MetricLoop :=
  match loop.locationByKey newMetric.key with
  | some (.working idx) =>
      { loop with
        working := loop.working.modify idx fun existing =>
          mergedMetric maxDataPoints existing newMetric }
  | some (.new idx) =>
      { loop with
        newGroups := loop.newGroups.modify idx fun existing =>
          mergedMetric maxDataPoints existing newMetric }
  | none =>
      { loop with
        newGroups := loop.newGroups ++ [newGroup newMetric]
        locationByKey := Function.update loop.locationByKey newMetric.key
          (some (.new loop.newGroups.length))
        addedGroupCount := loop.addedGroupCount + 1 }

def addMetricsLoop (maxDataPoints : Nat) (current newMetrics : List MetricData) : MetricLoop :=
  newMetrics.foldl (addMetricsRound maxDataPoints)
    ⟨current, [], fun key => (indexRows MetricData.key current key).map .working, 0⟩

/-- `addMetricsAtom` -/
def addMetrics (s : Store) (newMetrics : List MetricData) : Store :=
  if newMetrics.isEmpty then s
  else
    let loop := addMetricsLoop s.caps.maxDataPoints s.metrics newMetrics
    { s with
      newMetricCount := s.newMetricCount + loop.addedGroupCount
      metrics := (loop.newGroups.reverse ++ loop.working).take s.caps.metricCap }

/-- `setMetricsAtom` -/
def setMetrics (s : Store) (metrics : List MetricData) : Store := { s with metrics := metrics }

/-! ### Logs -/

/-- `addLogsAtom` -/
def addLogs (s : Store) (newLogs : List LogData) : Store :=
  if newLogs.isEmpty then s
  else
    { s with
      newLogCount := s.newLogCount + newLogs.length
      logs := (newLogs.reverse ++ s.logs).take s.caps.logCap }

/-! ### Counters -/

/-- `setTotalCountsAtom` -/
def setTotalCounts (s : Store) (totals : SignalTotals) : Store :=
  { s with totals := totals, removedTraceCount := 0 }

/-- `traceCountAtom`; the subtraction of naturals is the `Math.max` with zero. -/
def Store.traceCount (s : Store) : Nat :=
  s.totals.traceCount + s.newTraceCount - s.removedTraceCount

/-- `metricCountAtom` -/
def Store.metricCount (s : Store) : Nat := s.totals.metricCount + s.newMetricCount

/-- `logCountAtom` -/
def Store.logCount (s : Store) : Nat := s.totals.logCount + s.newLogCount

/-! ### Paginated lists -/

section PaginatedList

variable {T : Type}

/-- The list `replacePage` of `createPaginatedListAtoms` writes. -/
def replacedPage (getId : T → String) (cap : Nat) (orderItems : List T → List T)
    (current items : List T) (idsBeforeRequest : Finset String) : List T :=
  let liveItems := current.filter fun item => getId item ∉ idsBeforeRequest
  let merged := liveItems ++ items.filter fun item => getId item ∉ liveItems.map getId
  (orderItems merged).take cap

/-- The list `append` of `createPaginatedListAtoms` writes. -/
def appendedPage (getId : T → String) (cap : Nat) (orderItems : List T → List T)
    (current olderItems : List T) : List T :=
  let deduped := olderItems.filter fun item => getId item ∉ current.map getId
  if deduped.isEmpty then current else (orderItems (current ++ deduped)).take cap

end PaginatedList

/-- The row of a fetched page, with the detail the list has of its trace. -/
def pageRow (current : List TraceData) (incoming : TraceData) : TraceData :=
  match current.find? fun trace => trace.traceId = incoming.traceId with
  | none => incoming
  | some existing =>
      { incoming with
        spans := if incoming.spans.isEmpty then existing.spans else incoming.spans
        searchValues := existing.searchValues }

/-- `replaceTracePageAtom` -/
def replaceTracePage (s : Store) (items : List TraceData) (idsBeforeRequest : Finset String)
    (window : EventTimeWindow) : Store :=
  let items := items.map (pageRow s.traces)
  { s with
    loadedOlderTraceIds := ∅
    traces := replacedPage TraceData.traceId s.caps.traceCap newestTraceStartFirst s.traces items
      idsBeforeRequest
    serverMatchedTraceIds := (items.map TraceData.traceId).toFinset
    traceListWindow := window }

/-- `appendTraceSearchResultsAtom` -/
def appendTraceSearchResults (s : Store) (traces : List TraceData) : Store :=
  { s with
    serverMatchedTraceIds :=
      s.serverMatchedTraceIds ∪ (traces.map TraceData.traceId).toFinset
    traces := appendedPage TraceData.traceId s.caps.traceCap newestTraceStartFirst s.traces
      traces }

/-- `appendTracesAtom` -/
def appendTraces (s : Store) (traces : List TraceData) : Store :=
  appendTraceSearchResults
    { s with
      loadedOlderTraceIds := s.loadedOlderTraceIds ∪ (traces.map TraceData.traceId).toFinset }
    traces

/-- `replaceLogPageAtom` -/
def replaceLogPage (s : Store) (items : List LogData) (idsBeforeRequest : Finset String)
    (window : EventTimeWindow) : Store :=
  { s with
    loadedOlderLogIds := ∅
    logs := replacedPage LogData.id s.caps.logCap id s.logs items idsBeforeRequest
    serverMatchedLogIds := (items.map LogData.id).toFinset
    logListWindow := window }

/-- `appendLogSearchResultsAtom` -/
def appendLogSearchResults (s : Store) (logs : List LogData) : Store :=
  { s with
    serverMatchedLogIds := s.serverMatchedLogIds ∪ (logs.map LogData.id).toFinset
    logs := appendedPage LogData.id s.caps.logCap id s.logs logs }

/-- `appendLogsAtom` -/
def appendLogs (s : Store) (logs : List LogData) : Store :=
  appendLogSearchResults
    { s with loadedOlderLogIds := s.loadedOlderLogIds ∪ (logs.map LogData.id).toFinset } logs

end Stores
end Otelop
