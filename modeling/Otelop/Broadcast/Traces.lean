import Mathlib.Tactic
import Otelop.Storage.Writer
import Otelop.Stores.WebSocket

/-!
# Broadcasting committed traces

`broadcastTraces` of `internal/broadcast/broadcast.go` sends a committed batch of traces: first
the traces it dropped, then the summary of every trace it added spans to.

A message carries the record that `normalizeTrace` makes of the JSON: `iso` writes a time, and
reading it back gives the same time.  The link targets of a message, which the store does not
read, are left out.

A client that starts from the traces there were, and follows the messages, has the traces there
are: `tracked` is what it does with the ids of one message.

**Results.**
* `foldl_tracked_deletes`, `foldl_tracked_traces`: the two halves of the messages.
* `tracked_broadcastTraces`: the traces there are after these messages.
-/

namespace Otelop
namespace Broadcast

open Storage
open Stores (TraceData TraceRootSpan SpanStatus WsMessage)

/-- The wire text of a `ptrace.StatusCode`. -/
def spanStatus (statusCode : String) : SpanStatus :=
  if statusCode = "Ok" then .ok
  else if statusCode = "Error" then .error
  else if statusCode = "Unset" then .unset
  else .unnamed

/-- `TraceRootSpanData` -/
def rootSpanData (root : TraceSummaryRoot) : TraceRootSpan :=
  ⟨root.name, root.kind, spanStatus root.statusCode, root.duration⟩

def traceSummaryToTraceData (iso : Time → String) (s : TraceSummary)
    (searchValues : List String) : TraceData where
  traceId := s.traceID
  rootSpan := s.root.map rootSpanData
  linkCount := s.linkCount
  serviceName := s.serviceName
  searchValues := some searchValues
  spanCount := s.spanCount
  startTime := iso s.startTime
  duration := s.duration
  spans := []
  startEpochNs := s.startTime

/-- The map `serviceByHash`; a key that is absent reads as the empty string. -/
def serviceByHash (resources : List ResourceRow) : UInt64 → String :=
  resources.foldl (fun table r => Function.update table r.resourceHash r.serviceName) fun _ => ""

/-- The entry of a trace in the map of `traceSearchValues`. -/
def traceSearchValues (batch : TraceBatch) (traceID : String) : List String :=
  (batch.spans.filter fun span => span.traceID = traceID).flatMap fun span =>
    [span.name, span.statusCode, serviceByHash batch.resources span.resourceHash]

def broadcastTraces (iso : Time → String) (batch : TraceBatch) : List WsMessage :=
  batch.droppedTraceIDs.map WsMessage.traceDeletes ++
    batch.summaries.map fun s =>
      .traces (traceSummaryToTraceData iso s (traceSearchValues batch s.traceID))

/-- The traces there are, as a message tells. -/
def tracked (ids : Finset String) : WsMessage → Finset String
  | .traces data => insert data.traceId ids
  | .traceDeletes traceId => ids.erase traceId
  | _ => ids

theorem foldl_tracked_deletes (deletes : List String) (ids : Finset String) :
    (deletes.map WsMessage.traceDeletes).foldl tracked ids = ids \ deletes.toFinset := by
  induction deletes generalizing ids with
  | nil => simp
  | cons id deletes ih =>
      rw [List.map_cons, List.foldl_cons, ih, tracked, List.toFinset_cons]
      ext x
      simp only [Finset.mem_sdiff, Finset.mem_erase, Finset.mem_insert]
      tauto

theorem foldl_tracked_traces (rows : List TraceData) (ids : Finset String) :
    (rows.map WsMessage.traces).foldl tracked ids =
      ids ∪ (rows.map TraceData.traceId).toFinset := by
  induction rows generalizing ids with
  | nil => simp
  | cons row rows ih =>
      rw [List.map_cons, List.foldl_cons, ih, tracked, List.map_cons, List.toFinset_cons,
        Finset.insert_union, Finset.union_insert]

/-- After the messages of a batch the dropped traces are gone and those with a summary are
there. -/
theorem tracked_broadcastTraces
    (iso : Time → String) (batch : TraceBatch) (ids : Finset String) :
    (broadcastTraces iso batch).foldl tracked ids =
      (ids \ batch.droppedTraceIDs.toFinset) ∪
        (batch.summaries.map TraceSummary.traceID).toFinset := by
  have hrows : (batch.summaries.map fun s => WsMessage.traces
      (traceSummaryToTraceData iso s (traceSearchValues batch s.traceID))) =
      (batch.summaries.map fun s =>
        traceSummaryToTraceData iso s (traceSearchValues batch s.traceID)).map
          WsMessage.traces := by
    rw [List.map_map]
    rfl
  rw [broadcastTraces, List.foldl_append, foldl_tracked_deletes, hrows, foldl_tracked_traces,
    List.map_map]
  rfl

/-- The text of an instant in the first ten nanoseconds of 1970. -/
def sampleIso (t : Time) : String :=
  if t = 0 then "1970-01-01T00:00:00Z"
  else "1970-01-01T00:00:00.00000000" ++ toString t ++ "Z"

end Broadcast
end Otelop
