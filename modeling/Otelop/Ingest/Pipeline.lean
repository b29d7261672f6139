import Mathlib.Tactic
import Otelop.Broadcast.Metrics
import Otelop.Broadcast.Traces
import Otelop.Storage.CommitQueue
import Otelop.Storage.ConvertSpans
import Otelop.Storage.WriteMetrics
import Otelop.Storage.Runs
import Otelop.Storage.WriteQueue
import Otelop.Websocket.Hub

/-!
# The pipeline from a payload to the hub

A payload goes through three queues: `pushTraces` of `internal/exporter`, `AddTraces`, `run` and
`runCommits` of `internal/storage/storage.go`, `NewBatch` of `internal/broadcast` and
`BroadcastContext` and `dispatch` of `internal/websocket/hub.go`.  With `--debug` otelop sends
the spans of its own work to its own receiver; the work on such a payload must not start spans,
so the context of the payload carries a mark through every queue.

A goroutine does one channel operation in a step.  The SDK exports spans that were started, in
payloads of its own resource.  The origin of a context, the spans started so far, the messages
that the hub received and whether one was dropped are history.  `Sync`, which only tests call,
and `Close` are left out.
-/

namespace Otelop
namespace Ingest

open Lib Storage
open Broadcast (MetricBroadcastPlan prepareMetricBroadcast metricRanges metricWindows
  derivedByMetric broadcastMetricPlan broadcastTraces)
open Websocket (broadcastQueueSize)

/-! ### Payloads of the SDK -/

/-- `telemetry.InternalResourceAttribute`, as bytes. -/
def internalResourceAttribute : ByteString :=
  "otelop.telemetry.internal".toByteArray.data.toList

/-- `ok && value.Bool()`, where `Bool` is false for a value of another type. -/
def resourceIsInternal (resource : Pmetric.Resource) : Bool :=
  match Pcommon.get resource.attributes.map.entries internalResourceAttribute with
  | some (.bool b) => b
  | _ => false

/-- The loop over the resources of a payload. -/
def areInternal (resources : List Pmetric.Resource) : Bool :=
  !resources.isEmpty && resources.all resourceIsInternal

/-- The payload has resources, and each is that of otelop itself. -/
def tracesAreInternal (td : Ptrace.Traces) : Bool :=
  areInternal (td.map Ptrace.ResourceSpans.resource)

def metricsAreInternal (md : Pmetric.Metrics) : Bool :=
  areInternal (md.map Pmetric.ResourceMetrics.resource)

def logsAreInternal (ld : Plog.Logs) : Bool :=
  areInternal (ld.map Plog.ResourceLogs.resource)

/-- What the receiver hands to the exporter. -/
inductive Payload where
  | traces (td : Ptrace.Traces)
  | metrics (md : Pmetric.Metrics)
  | logs (ld : Plog.Logs)

/-- A payload that otelop exported about itself. -/
def Payload.isInternal : Payload → Bool
  | .traces td => tracesAreInternal td
  | .metrics md => metricsAreInternal md
  | .logs ld => logsAreInternal ld

/-! ### Contexts and spans -/

/-- What a context was made for: a payload, or a call of `Sweep` or `Clear`. -/
inductive Origin where
  | payload (p : Payload)
  | request

/-- What was done on behalf of such a payload. -/
def Origin.isInternal : Origin → Bool
  | .payload p => p.isInternal
  | .request => false

/-- A context: whether tracing is suppressed in it, and what it was made for. -/
structure Context where
  suppressed : Bool
  origin : Origin

/-- The context in which no span is started. -/
def suppressTracing (ctx : Context) : Context := { ctx with suppressed := true }

structure StartedSpan where
  name : String
  origin : Origin

/-- `startExporterSpan`, `startStorageSpan`, `startBroadcastSpan`, `startWebSocketSpan` -/
def startSpan (ctx : Context) (name : String) : List StartedSpan :=
  if ctx.suppressed then [] else [⟨name, ctx.origin⟩]

/-- The spans that are started under these names, unless tracing is suppressed. -/
def startSpans (ctx : Context) (names : List String) : List StartedSpan :=
  names.flatMap (startSpan ctx)

/-! ### The exporter and the storage -/

/-- A message of the write queue with its context, which `context.WithoutCancel` keeps. -/
abbrev Queued : Type := Context × WriterMsg UInt64

/-- `AddTraces` and its siblings, up to the call of `enqueue`. -/
def addBatch (internal : Bool) (names : List String) (msg : WriterMsg UInt64) (empty : Bool)
    (ctx : Context) : List StartedSpan × Option Queued :=
  let ctx := if internal then suppressTracing ctx else ctx
  (startSpans ctx names, if empty then none else some (ctx, msg))

def addTraces (env : TraceEnvironment) (td : Ptrace.Traces) :
    Context → List StartedSpan × Option Queued :=
  let batch := convertTraces env td
  addBatch (tracesAreInternal td) ["storage.AddTraces", "storage.ConvertTraces"]
    (.traces batch) (batch.resources.isEmpty && batch.spans.isEmpty)

def addMetrics (env : TraceEnvironment) (md : Pmetric.Metrics) :
    Context → List StartedSpan × Option Queued :=
  let batch := convertMetrics env.toEnvironment md
  addBatch (metricsAreInternal md) ["storage.AddMetrics", "storage.ConvertMetrics"]
    (.metrics batch) (batch.series.isEmpty && batch.points.isEmpty)

def addLogs (env : TraceEnvironment) (ld : Plog.Logs) :
    Context → List StartedSpan × Option Queued :=
  let batch := convertLogs env ld
  addBatch (logsAreInternal ld) ["storage.AddLogs", "storage.ConvertLogs"]
    (.logs batch) (batch.resources.isEmpty && batch.logs.isEmpty)

/-- `pushTraces` and its siblings. -/
def pushSignal (internal : Bool) (name : String) (add : Context → List StartedSpan × Option Queued)
    (ctx : Context) : List StartedSpan × Option Queued :=
  let ctx := if internal then suppressTracing ctx else ctx
  (startSpan ctx name ++ (add ctx).1, (add ctx).2)

def pushTraces (env : TraceEnvironment) (td : Ptrace.Traces) :
    Context → List StartedSpan × Option Queued :=
  pushSignal (tracesAreInternal td) "exporter.pushTraces" (addTraces env td)

def pushMetrics (env : TraceEnvironment) (md : Pmetric.Metrics) :
    Context → List StartedSpan × Option Queued :=
  pushSignal (metricsAreInternal md) "exporter.pushMetrics" (addMetrics env md)

def pushLogs (env : TraceEnvironment) (ld : Plog.Logs) :
    Context → List StartedSpan × Option Queued :=
  pushSignal (logsAreInternal ld) "exporter.pushLogs" (addLogs env ld)

def Payload.push (env : TraceEnvironment) (p : Payload) : List StartedSpan × Option Queued :=
  let ctx : Context := ⟨false, .payload p⟩
  match p with
  | .traces td => pushTraces env td ctx
  | .metrics md => pushMetrics env md ctx
  | .logs ld => pushLogs env ld ctx

/-! ### The writer -/

/-- What the writer meets while it performs a message: the readings of its clock, the options and
file sizes of a sweep, and the statements that fail. -/
structure Conditions where
  first : Time
  second : Time
  opts : SweepOptions
  sizeFn : Nat → Except String Int
  faults : List Bool

def operation (c : Conditions) : WriterMsg UInt64 → Option (Op UInt64)
  | .traces batch => some (.writeTraces batch c.first c.second)
  | .metrics batch => some (.writeMetrics batch c.first c.second)
  | .logs batch => some (.writeLogs batch c.first)
  | .sweep => some (.sweep c.opts c.first c.sizeFn)
  | .clear => some .clear
  | .sync => none

/-- The spans that the writer starts for a message, in order; it may end before the last. -/
def writeSpans : WriterMsg UInt64 → List String
  | .traces _ => ["storage.writeTraces", "storage.upsertResources", "storage.persistTraceBatch",
      "storage.deduplicateSpans", "storage.appendSpans"]
  | .metrics _ => ["storage.writeMetrics", "storage.upsertResources", "storage.upsertSeries",
      "storage.appendMetricPoints"]
  | .logs _ => ["storage.writeLogs", "storage.upsertResources", "storage.appendLogs"]
  | .sweep => ["storage.performSweep", "storage.deleteFactsBefore", "storage.pruneDimensions",
      "storage.enforceMaxSize"] ++ (List.replicate maxSizeSweepIterations
        ["storage.deleteFactsBefore", "storage.pruneDimensions"]).flatten
  | .clear => ["storage.performClear"]
  | .sync => []

/-- `storage.queue.wait` -/
def waitSpan (x : Queued) : List StartedSpan :=
  if x.2.isControl then [] else startSpan x.1 "storage.queue.wait"

/-! ### Delivering and broadcasting -/

/-- `commitJob` -/
abbrev Job : Type := Context × CommitEvent UInt64

inductive Message where
  | trace (msg : Stores.WsMessage)
  | metric (data : Broadcast.MetricData UInt64)
  | log (row : LogRow) (resource : Option ResourceRow)

/-- A call of `onAdd`. -/
abbrev Call : Type := Context × Message

/-- One message for each row of a batch, with the resource of the row. -/
def broadcastLogs (batch : LogBatch) : List Message :=
  batch.logs.map fun l =>
    .log l (batch.resources.reverse.find? fun r => r.resourceHash = l.resourceHash)

/-- What the broadcaster takes from elsewhere: the subtraction of timestamps of the database, the
text of a time, and the arithmetic of doubles. -/
structure Platform where
  sub : Time → Time → Int
  iso : Time → String
  ops : DoubleOps UInt64

section Broadcaster

variable (P : Platform)

/-- `plans`, each with its context. -/
def metricPlans (jobs : List Job) : List (Context × MetricBroadcastPlan) :=
  jobs.filterMap fun job =>
    match job.2 with
    | .metrics batch =>
        if batch.points.isEmpty then none else some (job.1, prepareMetricBroadcast batch)
    | _ => none

/-- `broadcastMetricPlan`, with its span. -/
def planCalls (derived : Broadcast.MetricKey → List (DerivedPoint UInt64))
    (plan : Context × MetricBroadcastPlan) : List Call :=
  (broadcastMetricPlan plan.2 derived).map fun data => (plan.1, .metric data)

/-- `broadcastMetricDeliveries`; the query for the points fails, or it does not. -/
def deliverMetrics (db : Db UInt64) (queryOk : Bool) (jobs : List Job) :
    List StartedSpan × List Call :=
  let plans := metricPlans jobs
  let ranges := metricRanges (plans.map Prod.snd)
  match plans with
  | [] => ([], [])
  | first :: _ =>
      if ranges.rows.isEmpty then ([], [])
      else
        let derive := startSpans first.1
          ["broadcast.deriveMetricBatch", "storage.MetricPointsWithPredecessorsBatch"]
        if queryOk then
          let points := db.metricPointsWithPredecessorsBatch P.ops (metricWindows ranges)
          (derive ++ plans.flatMap fun plan => startSpan plan.1 "broadcast.broadcastMetrics",
            plans.flatMap (planCalls (derivedByMetric ranges points)))
        else (derive, [])

/-- `New`: `broadcastTraces`, `broadcastMetrics` and `broadcastLogs`, with their spans. -/
def deliverJob (db : Db UInt64) (queryOk : Bool) (job : Job) : List StartedSpan × List Call :=
  match job.2 with
  | .traces batch =>
      (startSpan job.1 "broadcast.broadcastTraces",
        (broadcastTraces P.iso batch).map fun msg => (job.1, .trace msg))
  | .logs batch =>
      (startSpan job.1 "broadcast.broadcastLogs",
        (broadcastLogs batch).map fun msg => (job.1, msg))
  | .metrics _ => deliverMetrics P db queryOk [job]

/-- `NewBatch`; `connected` is `shouldBroadcast()`. -/
def newBatch (db : Db UInt64) (connected queryOk : Bool) (jobs : List Job) :
    List StartedSpan × List Call :=
  match jobs with
  | [] => ([], [])
  | first :: _ =>
      if !connected then ([], [])
      else if first.2.isMetrics then deliverMetrics P db queryOk jobs
      else
        let delivered := jobs.map (deliverJob P db queryOk)
        (delivered.flatMap Prod.fst, delivered.flatMap Prod.snd)

/-- The span of `deliverCommitBatch`. -/
def deliverSpan : List Job → List StartedSpan
  | [] => []
  | first :: _ => startSpan first.1 "storage.deliverCommitBatch"

end Broadcaster

/-- Where `runCommits` stands: at the top of its loop, in the loop that drains metrics, before the
call of the listener, or in it, with the calls of `onAdd` to come. -/
inductive Delivery where
  | top (pending : Option Job)
  | draining (jobs : List Job)
  | calling (jobs : List Job) (pending : Option Job)
  | sending (calls : List Call) (pending : Option Job)

/-- A job that was received. -/
def takeJob (job : Job) : Delivery :=
  if job.2.isMetrics then .draining [job] else .calling [job] none

/-! ### The machine -/

structure Pipeline where
  queue : Channel Queued writeQueueSize
  writer : Option Queued
  store : Store UInt64
  commitCh : Channel Job commitQueueSize
  delivery : Delivery
  broadcast : Channel Call broadcastQueueSize
  spans : List StartedSpan
  exported : Nat
  received : List Message
  /-- A queue was full, or no client was connected. -/
  lost : Bool

/-- A payload arrives, from outside or from the SDK, or a sweep or a clear is asked for; the rest
are the steps of the SDK, the writer, `runCommits` and the hub. -/
inductive PipelineAction where
  | push (p : Payload) (env : TraceEnvironment)
  | sweep
  | clear
  | exportSpans (td : Ptrace.Traces) (env : TraceEnvironment)
  | run
  | write (conditions : Conditions) (started : Nat)
  | runCommits (connected queryOk : Bool)
  | dispatch

section Steps

variable (P : Platform)

/-- A payload that arrives from outside. -/
def Pipeline.push (s : Pipeline) (p : Payload) (env : TraceEnvironment) : Pipeline :=
  { s with
    queue := match (p.push env).2 with
      | some x => s.queue.offer x
      | none => s.queue
    spans := s.spans ++ (p.push env).1 }

/-- `enqueueBlocking` with the background context. -/
def Pipeline.request (s : Pipeline) (msg : WriterMsg UInt64) : Option Pipeline :=
  (s.queue.send (⟨false, .request⟩, msg)).map fun queue => { s with queue := queue }

/-- The SDK exports some of the spans that it has. -/
def Pipeline.exportSpans (s : Pipeline) (td : Ptrace.Traces) (env : TraceEnvironment) :
    Option Pipeline :=
  let count := (spanSources td).length
  if tracesAreInternal td ∧ 0 < count ∧ s.exported + count ≤ s.spans.length then
    some { s.push (.traces td) env with exported := s.exported + count }
  else none

/-- The writer goroutine receives a message. -/
def Pipeline.run (s : Pipeline) : Option Pipeline :=
  match s.writer, s.queue.recv with
  | none, .item x queue =>
      some { s with queue := queue, writer := some x, spans := s.spans ++ waitSpan x }
  | _, _ => none

/-- The events an operation dispatched. -/
def newEvents (s t : Store UInt64) : List (CommitEvent UInt64) :=
  t.mem.dispatched.drop s.mem.dispatched.length

/-- The message is performed; `started` of its spans are started. -/
def Pipeline.write (s : Pipeline) (c : Conditions) (started : Nat) : Option Pipeline :=
  match s.writer with
  | none => none
  | some x =>
      match operation c x.2 with
      | none => some { s with writer := none }
      | some op =>
          let store := s.store.after P.sub op c.faults
          some { s with
            writer := none
            store := store
            commitCh := (newEvents s.store store).foldl (fun ch ev => ch.offer (x.1, ev)) s.commitCh
            spans := s.spans ++ startSpans x.1 ((writeSpans x.2).take started)
            lost := s.lost || decide
              (commitQueueSize < s.commitCh.buffer.length + (newEvents s.store store).length) }

/-- One step of `runCommits`, and of the listener that it calls. -/
def Pipeline.runCommits (s : Pipeline) (connected queryOk : Bool) : Option Pipeline :=
  match s.delivery with
  | .top (some job) => some { s with delivery := takeJob job }
  | .top none =>
      match s.commitCh.recv with
      | .item job ch => some { s with commitCh := ch, delivery := takeJob job }
      | _ => none
  | .draining jobs =>
      if jobs.length < metricCommitBatchSize then
        match s.commitCh.recv with
        | .item job ch =>
            some { s with
              commitCh := ch
              delivery :=
                if job.2.isMetrics then .draining (jobs ++ [job]) else .calling jobs (some job) }
        | _ => some { s with delivery := .calling jobs none }
      else some { s with delivery := .calling jobs none }
  | .calling jobs pending =>
      let r := newBatch P s.store.db connected queryOk jobs
      some { s with
        delivery := .sending r.2 pending
        spans := s.spans ++ (deliverSpan jobs ++ r.1)
        lost := s.lost || !connected }
  | .sending [] pending => some { s with delivery := .top pending }
  | .sending (call :: calls) pending =>
      -- `BroadcastContext`
      some { s with
        delivery := .sending calls pending
        broadcast := if connected then s.broadcast.offer call else s.broadcast
        spans := s.spans ++ startSpan call.1 "websocket.Broadcast"
        lost := s.lost || !connected || decide (s.broadcast.buffer.length = broadcastQueueSize) }

def Pipeline.dispatch (s : Pipeline) : Option Pipeline :=
  match s.broadcast.recv with
  | .item call broadcast =>
      some { s with
        broadcast := broadcast
        spans := s.spans ++ startSpan call.1 "websocket.dispatch"
        received := s.received ++ [call.2] }
  | _ => none

/-- The step of one action, where it is possible. -/
def Pipeline.step (s : Pipeline) : PipelineAction → Option Pipeline
  | .push p env => some (s.push p env)
  | .sweep => s.request .sweep
  | .clear => s.request .clear
  | .exportSpans td env => s.exportSpans td env
  | .run => s.run
  | .write c started => s.write P c started
  | .runCommits connected queryOk => s.runCommits P connected queryOk
  | .dispatch => s.dispatch

/-- The machine of the whole way of a payload, from the receiver to the hub. -/
def pipeline : Machine Pipeline PipelineAction where
  init :=
    { queue := .empty
      writer := none
      store := .new UInt64
      commitCh := .empty
      delivery := .top none
      broadcast := .empty
      spans := []
      exported := 0
      received := []
      lost := false }
  step := Pipeline.step P

end Steps

end Ingest
end Otelop
