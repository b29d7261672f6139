import Mathlib.Tactic
import Otelop.Stores.TraceBuffer
import Otelop.Stores.MetricBuffer

/-!
# Batched deliveries

`frontend/src/hooks/use-websocket.ts` applies the first message after a pause at
once and queues what follows until the next tick, when the queue is applied run by
run: contiguous messages of one type are one write.

Applying a run in one write is applying its messages one by one, as long as no row
is cut off in between.  The messages carry the normalized records.

**Results.**
* `traceSimulation_runs`, `metricSimulation_runs`, `logSimulation_runs`: a run against its
  messages one by one.
* `dispatchQueue_eq`: so for a queue.
* `batching_unobservable`: what the hook has applied, at every moment of a run.
-/

namespace Otelop
namespace Stores

open Lib

/-- The type of a message, by which runs are formed. -/
inductive MessageType where
  | traces
  | traceDeletes
  | metrics
  | logs
deriving DecidableEq

/-- A message from the server, normalized. -/
inductive WsMessage where
  | traces (data : TraceData)
  | traceDeletes (traceId : String)
  | metrics (data : MetricData)
  | logs (data : LogData)
deriving DecidableEq

namespace WsMessage

def type : WsMessage → MessageType
  | traces _ => .traces
  | traceDeletes _ => .traceDeletes
  | metrics _ => .metrics
  | logs _ => .logs

/-- The row of a summary. -/
def trace? : WsMessage → Option TraceData
  | traces data => some data
  | _ => none

/-- The id of a trace that was deleted. -/
def deleted? : WsMessage → Option String
  | traceDeletes traceId => some traceId
  | _ => none

/-- The group of a metrics message. -/
def metric? : WsMessage → Option MetricData
  | metrics data => some data
  | _ => none

/-- The row of a log message. -/
def log? : WsMessage → Option LogData
  | logs data => some data
  | _ => none

end WsMessage

/-- `dispatchRun` -/
def dispatchRun (s : Store) (type : MessageType) (run : List WsMessage) : Store :=
  match type with
  | .traces => addTraces s (run.filterMap WsMessage.trace?)
  | .traceDeletes => (run.filterMap WsMessage.deleted?).foldl removeTrace s
  | .metrics => addMetrics s (run.filterMap WsMessage.metric?)
  | .logs => addLogs s (run.filterMap WsMessage.log?)

/-- `dispatchQueue` -/
def dispatchQueue (s : Store) : List WsMessage → Store
  | [] => s
  | m :: queue =>
      dispatchQueue
        (dispatchRun s m.type (m :: queue.takeWhile fun m' => m'.type = m.type))
        (queue.dropWhile fun m' => m'.type = m.type)
termination_by queue => queue.length
decreasing_by
  exact Nat.lt_succ_of_le (List.dropWhile_sublist _).length_le

/-- The store and the refs of the hook; the timer is armed while the window is open. -/
structure WsHook where
  store : Store
  queue : List WsMessage
  windowOpen : Bool

/-- What happens to the hook: a message, or a tick of its timer. -/
inductive WsEvent where
  | message (m : WsMessage)
  | tick

/-- `onMessage` and `tick`; a tick needs an armed timer. -/
def WsHook.step (h : WsHook) : WsEvent → WsHook
  | .message m =>
      if h.windowOpen then { h with queue := h.queue ++ [m] }
      else { h with store := dispatchRun h.store m.type [m], windowOpen := true }
  | .tick =>
      if !h.windowOpen then h
      else if h.queue.isEmpty then { h with windowOpen := false }
      else { h with store := dispatchQueue h.store h.queue, queue := [] }

/-- The hook right after it was mounted. -/
def WsHook.mount (s : Store) : WsHook := ⟨s, [], false⟩

/-- The messages that arrived. -/
def arrived (events : List WsEvent) : List WsMessage :=
  events.filterMap fun
    | .message m => some m
    | .tick => none

/-- One message, applied on its own. -/
def applyMessage (s : Store) (m : WsMessage) : Store := dispatchRun s m.type [m]

/-- Every message on its own, in order. -/
def applyEach (s : Store) (messages : List WsMessage) : Store := messages.foldl applyMessage s

/-! ### What must fit -/

/-- The traces there are, whether the buffer has room for them or not. -/
def residentTraces (ids : List String) : WsMessage → List String
  | .traces data => insertKey ids data.traceId
  | .traceDeletes traceId => ids.filter fun id => id ≠ traceId
  | _ => ids

/-- The metric groups there are. -/
def residentMetrics (keys : List (String × String)) : WsMessage → List (String × String)
  | .metrics data => consKey keys data.key
  | _ => keys

/-- While the messages come in, the number of distinct traces stays within the cap. -/
def TracesFit (s : Store) (messages : List WsMessage) : Prop :=
  ∀ front, front <+: messages →
    (front.foldl residentTraces (s.traces.map TraceData.traceId)).length ≤ s.caps.traceCap

/-- While the messages come in, the number of distinct groups stays within the cap. -/
def MetricsFit (s : Store) (messages : List WsMessage) : Prop :=
  ∀ front, front <+: messages →
    (front.foldl residentMetrics (s.metrics.map MetricData.key)).length ≤ s.caps.metricCap

/-! ### Equal up to the order of traces with equal start -/

/-- The traces and their counters agree; traces with equal start may be in another order. -/
structure SameTraces (a b : Store) : Prop where
  traces : a.traces.Perm b.traces
  sorted : NewestFirst a.traces
  sorted' : NewestFirst b.traces
  newTraceCount : a.newTraceCount = b.newTraceCount
  removedTraceCount : a.removedTraceCount = b.removedTraceCount

/-- The same groups and the same count. -/
structure SameMetrics (a b : Store) : Prop where
  metrics : a.metrics = b.metrics
  newMetricCount : a.newMetricCount = b.newMetricCount

/-- The same rows and the same count. -/
structure SameLogs (a b : Store) : Prop where
  logs : a.logs = b.logs
  newLogCount : a.newLogCount = b.newLogCount

/-- What no message changes. -/
structure SameSettings (a b : Store) : Prop where
  caps : a.caps = b.caps
  totals : a.totals = b.totals

/-! ### What a run leaves alone -/

theorem addTraces_frame (s : Store) (newTraces : List TraceData) :
    ∃ traces batch count,
      addTraces s newTraces =
        { s with traces := traces, liveTraceBatch := batch, newTraceCount := count } := by
  rw [addTraces]
  split
  · exact ⟨_, _, _, rfl⟩
  · dsimp only
    split
    · exact ⟨_, _, _, rfl⟩
    · exact ⟨_, _, _, rfl⟩

theorem addMetrics_frame (s : Store) (newMetrics : List MetricData) :
    ∃ metrics count,
      addMetrics s newMetrics = { s with metrics := metrics, newMetricCount := count } := by
  rw [addMetrics]
  split
  · exact ⟨_, _, rfl⟩
  · exact ⟨_, _, rfl⟩

theorem addLogs_frame (s : Store) (newLogs : List LogData) :
    ∃ logs count, addLogs s newLogs = { s with logs := logs, newLogCount := count } := by
  rw [addLogs]
  split
  · exact ⟨_, _, rfl⟩
  · exact ⟨_, _, rfl⟩

theorem removeTraces_frame (s : Store) (ids : List String) :
    ∃ traces count,
      ids.foldl removeTrace s = { s with traces := traces, removedTraceCount := count } := by
  induction ids generalizing s with
  | nil =>
      exact ⟨_, _, rfl⟩
  | cons id ids ih =>
      obtain ⟨traces, count, h⟩ := ih (removeTrace s id)
      exact ⟨traces, count, h⟩

/-- What the buffer of traces and its counters are. -/
def Store.traceFields (s : Store) : List TraceData × Nat × Nat :=
  (s.traces, s.newTraceCount, s.removedTraceCount)

def Store.metricFields (s : Store) : List MetricData × Nat := (s.metrics, s.newMetricCount)

def Store.logFields (s : Store) : List LogData × Nat := (s.logs, s.newLogCount)

def Store.settings (s : Store) : BufferCaps × SignalTotals := (s.caps, s.totals)

/-- A write of one type changes the fields of its signal only. -/
theorem dispatchRun_frame (s : Store) (type : MessageType) (run : List WsMessage) :
    (dispatchRun s type run).settings = s.settings ∧
      (type = .metrics ∨ type = .logs → (dispatchRun s type run).traceFields = s.traceFields) ∧
      (type ≠ .metrics → (dispatchRun s type run).metricFields = s.metricFields) ∧
      (type ≠ .logs → (dispatchRun s type run).logFields = s.logFields) := by
  cases type with
  | traces =>
      obtain ⟨traces, batch, count, h⟩ := addTraces_frame s (run.filterMap WsMessage.trace?)
      rw [dispatchRun, h]
      exact ⟨rfl, by simp, fun _ => rfl, fun _ => rfl⟩
  | traceDeletes =>
      obtain ⟨traces, count, h⟩ := removeTraces_frame s (run.filterMap WsMessage.deleted?)
      rw [dispatchRun, h]
      exact ⟨rfl, by simp, fun _ => rfl, fun _ => rfl⟩
  | metrics =>
      obtain ⟨metrics, count, h⟩ := addMetrics_frame s (run.filterMap WsMessage.metric?)
      rw [dispatchRun, h]
      exact ⟨rfl, fun _ => rfl, fun h => absurd rfl h, fun _ => rfl⟩
  | logs =>
      obtain ⟨logs, count, h⟩ := addLogs_frame s (run.filterMap WsMessage.log?)
      rw [dispatchRun, h]
      exact ⟨rfl, fun _ => rfl, fun _ => rfl, fun h => absurd rfl h⟩

/-- What every message of a list leaves alone the list leaves alone. -/
theorem applyEach_frame
    {T : Type} (field : Store → T) {messages : List WsMessage}
    (h : ∀ m ∈ messages, ∀ s, field (applyMessage s m) = field s) (s : Store) :
    field (applyEach s messages) = field s := by
  induction messages generalizing s with
  | nil =>
      rfl
  | cons m messages ih =>
      rw [applyEach, List.foldl_cons]
      exact (ih (fun m' hm' => h m' (List.mem_cons_of_mem m hm')) (applyMessage s m)).trans
        (h m List.mem_cons_self s)

/-! ### A run of summaries -/

/-- The rows and the counter after summaries of traces, when nothing was cut off. -/
def TracesAdded (s s' : Store) (newTraces : List TraceData) : Prop :=
  ∃ traces batch,
    s' = { s with
      traces := traces
      liveTraceBatch := batch
      newTraceCount :=
        s.newTraceCount + ((mergeBatch s.traces newTraces).length - s.traces.length) } ∧
    traces.Perm (mergeBatch s.traces newTraces) ∧ NewestFirst traces

theorem mergeBatch_append (rows xs ys : List TraceData) :
    mergeBatch rows (xs ++ ys) = mergeBatch (mergeBatch rows xs) ys := by
  rw [mergeBatch, List.foldl_append]
  rfl

theorem length_le_mergeBatch (rows xs : List TraceData) :
    rows.length ≤ (mergeBatch rows xs).length := by
  have hkeys := congrArg List.length (keys_foldl_upsert mergeTrace_keepsKey rows xs)
  have hle := length_le_foldl_insertKey (xs.map TraceData.traceId) (rows.map TraceData.traceId)
  rw [← hkeys, List.length_map, List.length_map] at hle
  exact hle

/-- One write of a batch. -/
theorem tracesAdded_addTraces
    {s : Store} (hnodup : (s.traces.map TraceData.traceId).Nodup) (hsorted : NewestFirst s.traces)
    {newTraces : List TraceData}
    (hfits : (mergeBatch s.traces newTraces).length ≤ s.caps.traceCap) :
    TracesAdded s (addTraces s newTraces) newTraces := by
  obtain ⟨traces, batch, hstore, hcut | ⟨hsame, hnone⟩⟩ := addTraces_spec hnodup newTraces
  · have hperm := newestTraceStartFirst_perm (mergeBatch s.traces newTraces)
    have hall : (newestTraceStartFirst (mergeBatch s.traces newTraces)).take s.caps.traceCap =
        newestTraceStartFirst (mergeBatch s.traces newTraces) :=
      List.take_of_length_le (by rwa [hperm.length_eq])
    rw [hall] at hcut
    refine ⟨traces, batch, hstore, ?_, ?_⟩
    · rw [hcut]
      exact hperm
    · rw [hcut]
      exact newestFirst_newestTraceStartFirst _
  · refine ⟨traces, batch, hstore, ?_, ?_⟩
    · rw [hsame, hnone]
    · rw [hsame]
      exact hsorted

theorem TracesAdded.trans
    {s s' s'' : Store} {xs ys : List TraceData}
    (h : TracesAdded s s' xs) (h' : TracesAdded s' s'' ys) :
    TracesAdded s s'' (xs ++ ys) := by
  obtain ⟨traces, batch, rfl, hperm, -⟩ := h
  obtain ⟨traces', batch', rfl, hperm', hsorted'⟩ := h'
  have hbatch : (mergeBatch traces ys).Perm (mergeBatch s.traces (xs ++ ys)) := by
    rw [mergeBatch_append]
    exact foldl_upsert_perm hperm ys
  refine ⟨traces', batch', ?_, hperm'.trans hbatch, hsorted'⟩
  have hlength := hbatch.length_eq
  have htraces := hperm.length_eq
  have hle := length_le_mergeBatch s.traces xs
  have hle' := length_le_mergeBatch traces ys
  simp only [Store.mk.injEq, true_and, and_true]
  omega

/-- One write a summary. -/
theorem tracesAdded_each
    {s : Store} (hnodup : (s.traces.map TraceData.traceId).Nodup) (hsorted : NewestFirst s.traces)
    {newTraces : List TraceData}
    (hfits : (mergeBatch s.traces newTraces).length ≤ s.caps.traceCap) :
    TracesAdded s (newTraces.foldl (fun s t => addTraces s [t]) s) newTraces := by
  induction newTraces using List.reverseRecOn with
  | nil =>
      refine ⟨s.traces, s.liveTraceBatch, ?_, List.Perm.refl _, hsorted⟩
      have hnone : (mergeBatch s.traces []).length - s.traces.length = 0 := Nat.sub_self _
      rw [hnone]
      rfl
  | append_singleton xs x ih =>
      rw [mergeBatch_append] at hfits
      have hxs := ih (le_trans (length_le_mergeBatch _ [x]) hfits)
      obtain ⟨traces, batch, hstore, hperm, hsorted'⟩ := id hxs
      rw [List.foldl_append, List.foldl_cons, List.foldl_nil]
      refine hxs.trans (tracesAdded_addTraces ?_ ?_ ?_)
      · rw [hstore]
        exact (hperm.map _).nodup_iff.mpr (nodup_foldl_upsert mergeTrace_keepsKey hnodup xs)
      · rw [hstore]
        exact hsorted'
      · rw [hstore]
        exact le_trans (foldl_upsert_perm hperm [x]).length_eq.le hfits

/-- Summaries added to buffers that agree. -/
theorem sameTraces_tracesAdded
    {a b a' b' : Store} {newTraces : List TraceData} (h : SameTraces a b)
    (ha : TracesAdded a a' newTraces) (hb : TracesAdded b b' newTraces) :
    SameTraces a' b' := by
  obtain ⟨traces, batch, rfl, hperm, hsorted⟩ := ha
  obtain ⟨traces', batch', rfl, hperm', hsorted'⟩ := hb
  have hbatch : (mergeBatch a.traces newTraces).Perm (mergeBatch b.traces newTraces) :=
    foldl_upsert_perm h.traces newTraces
  refine ⟨hperm.trans (hbatch.trans hperm'.symm), hsorted, hsorted', ?_, h.removedTraceCount⟩
  rw [h.newTraceCount, hbatch.length_eq, h.traces.length_eq]

theorem sameTraces_removeTrace
    {a b : Store} (h : SameTraces a b) (traceId : String) :
    SameTraces (removeTrace a traceId) (removeTrace b traceId) where
  traces := h.traces.filter _
  sorted := h.sorted.sublist List.filter_sublist
  sorted' := h.sorted'.sublist List.filter_sublist
  newTraceCount := h.newTraceCount
  removedTraceCount := congrArg (· + 1) h.removedTraceCount

/-! ### Runs of metrics and logs -/

theorem mergeMetrics_append (n : Nat) (groups xs ys : List MetricData) :
    mergeMetrics n groups (xs ++ ys) = mergeMetrics n (mergeMetrics n groups xs) ys := by
  rw [mergeMetrics, List.foldl_append]
  rfl

theorem length_le_mergeMetrics (n : Nat) (groups newMetrics : List MetricData) :
    groups.length ≤ (mergeMetrics n groups newMetrics).length := by
  induction newMetrics generalizing groups with
  | nil =>
      exact le_rfl
  | cons m ms ih =>
      refine le_trans ?_ (ih (mergeMetric n groups m))
      rw [mergeMetric]
      split
      · rw [List.length_map]
      · exact Nat.le_succ _

/-- One write a delivery and one write for all, when nothing is cut off. -/
theorem addMetrics_each
    {s : Store} (hnodup : (s.metrics.map MetricData.key).Nodup) {newMetrics : List MetricData}
    (hfits : (mergeMetrics s.caps.maxDataPoints s.metrics newMetrics).length ≤ s.caps.metricCap) :
    newMetrics.foldl (fun s m => addMetrics s [m]) s = addMetrics s newMetrics := by
  induction newMetrics using List.reverseRecOn with
  | nil =>
      rfl
  | append_singleton xs x ih =>
      rw [mergeMetrics_append] at hfits
      have hxs : (mergeMetrics s.caps.maxDataPoints s.metrics xs).length ≤ s.caps.metricCap :=
        le_trans (length_le_mergeMetrics _ _ [x]) hfits
      rw [List.foldl_append, List.foldl_cons, List.foldl_nil, ih hxs]
      cases xs with
      | nil =>
          rfl
      | cons y ys =>
          have hlength := length_le_mergeMetrics s.caps.maxDataPoints s.metrics (y :: ys)
          have hlength' := length_le_mergeMetrics s.caps.maxDataPoints
            (mergeMetrics s.caps.maxDataPoints s.metrics (y :: ys)) [x]
          rw [addMetrics_spec hnodup (List.cons_ne_nil y ys),
            List.take_of_length_le hxs, addMetrics_spec ?_ (List.cons_ne_nil x []),
            addMetrics_spec hnodup (List.append_ne_nil_of_left_ne_nil (List.cons_ne_nil y ys) [x])]
          · simp only [mergeMetrics_append, Store.mk.injEq, true_and, and_true]
            omega
          · exact nodup_mergeMetrics hnodup _

/-- One write a log and one write for all; cutting early or late keeps the same logs. -/
theorem addLogs_each (s : Store) (newLogs : List LogData) :
    newLogs.foldl (fun s l => addLogs s [l]) s = addLogs s newLogs := by
  induction newLogs using List.reverseRecOn with
  | nil =>
      rfl
  | append_singleton xs x ih =>
      rw [List.foldl_append, List.foldl_cons, List.foldl_nil, ih]
      cases xs with
      | nil =>
          rfl
      | cons y ys =>
          have hcut : (x :: ((y :: ys).reverse ++ s.logs).take s.caps.logCap).take s.caps.logCap =
              (x :: ((y :: ys).reverse ++ s.logs)).take s.caps.logCap := by
            cases s.caps.logCap with
            | zero =>
                rfl
            | succ n =>
                rw [List.take_succ_cons, List.take_succ_cons, List.take_take,
                  Nat.min_eq_left (Nat.le_succ n)]
          rw [addLogs, addLogs, addLogs]
          simp only [List.isEmpty_cons, List.cons_append, Bool.false_eq_true, if_false,
            List.length_append, List.length_cons, List.length_nil, List.reverse_append,
            List.reverse_cons, List.reverse_nil, List.nil_append, List.append_assoc]
          simp only [List.reverse_cons, List.append_assoc, List.cons_append, List.nil_append]
            at hcut
          rw [hcut]
          simp only [Store.mk.injEq, true_and, and_true]
          omega

/-! ### Runs against single messages -/

/-- A relation between the store of the hook and the messages one by one, that a run keeps
while what has come in fits. -/
structure RunRelation (fits : List WsMessage → Prop)
    (R : List WsMessage → Store → Store → Prop) : Prop where
  front : ∀ xs ys, fits (xs ++ ys) → fits xs
  run : ∀ {done a b} type run, R done a b → (∀ m ∈ run, m.type = type) → fits (done ++ run) →
    R (done ++ run) (dispatchRun a type run) (applyEach b run)

theorem applyEach_append (s : Store) (xs ys : List WsMessage) :
    applyEach s (xs ++ ys) = applyEach (applyEach s xs) ys := by
  rw [applyEach, List.foldl_append]
  rfl

/-- A queue, run by run. -/
theorem dispatchQueue_eq
    {fits : List WsMessage → Prop} {R : List WsMessage → Store → Store → Prop}
    (hR : RunRelation fits R) {a b : Store} {done queue : List WsMessage} (h : R done a b)
    (hfits : fits (done ++ queue)) :
    R (done ++ queue) (dispatchQueue a queue) (applyEach b queue) := by
  fun_induction dispatchQueue a queue generalizing done b with
  | case1 a =>
      rw [List.append_nil]
      exact h
  | case2 a m queue ih =>
      have hsplit : m :: queue =
          (m :: queue.takeWhile fun m' => decide (m'.type = m.type)) ++
            queue.dropWhile fun m' => decide (m'.type = m.type) := by
        rw [List.cons_append, List.takeWhile_append_dropWhile]
      rw [hsplit, ← List.append_assoc] at hfits
      have htype : ∀ m' ∈ m :: queue.takeWhile (fun m' => decide (m'.type = m.type)),
          m'.type = m.type := by
        intro m' hm'
        rcases List.mem_cons.mp hm' with rfl | hm'
        · rfl
        · exact of_decide_eq_true (List.all_eq_true.mp List.all_takeWhile m' hm')
      have hrest := ih (hR.run m.type _ h htype (hR.front _ _ hfits)) hfits
      rw [List.append_assoc, ← hsplit, ← applyEach_append, ← hsplit] at hrest
      exact hrest

/-- A run of one type is made of records. -/
theorem exists_records
    {T : Type} {type : MessageType} (make : T → WsMessage) (get : WsMessage → Option T)
    (hmake : ∀ m : WsMessage, m.type = type → ∃ data, m = make data)
    (hget : ∀ data, get (make data) = some data)
    {run : List WsMessage} (hrun : ∀ m ∈ run, m.type = type) :
    ∃ xs : List T, run = xs.map make ∧ run.filterMap get = xs := by
  induction run with
  | nil =>
      exact ⟨[], rfl, rfl⟩
  | cons m run ih =>
      obtain ⟨data, rfl⟩ := hmake m (hrun m List.mem_cons_self)
      obtain ⟨xs, rfl, hxs⟩ := ih fun m' hm' => hrun m' (List.mem_cons_of_mem _ hm')
      exact ⟨data :: xs, rfl, by rw [List.filterMap_cons, hget, hxs]⟩

/-! ### Traces -/

/-- The traces of the hook are those of the messages one by one, which are the resident
ones. -/
structure TraceSimulation (s : Store) (done : List WsMessage) (a b : Store) : Prop where
  same : SameTraces a b
  nodup : (b.traces.map TraceData.traceId).Nodup
  ids : (b.traces.map TraceData.traceId).Perm
    (done.foldl residentTraces (s.traces.map TraceData.traceId))
  caps : a.caps = s.caps
  caps' : b.caps = s.caps

theorem insertKey_perm
    {ids ids' : List String} (h : ids.Perm ids') (id : String) :
    (insertKey ids id).Perm (insertKey ids' id) := by
  rw [insertKey, insertKey]
  by_cases hid : id ∈ ids
  · rw [if_pos hid, if_pos (h.mem_iff.mp hid)]
    exact h
  · rw [if_neg hid, if_neg (mt h.mem_iff.mpr hid)]
    exact h.append_right _

theorem foldl_insertKey_perm
    {ids ids' : List String} (h : ids.Perm ids') (xs : List String) :
    (xs.foldl insertKey ids).Perm (xs.foldl insertKey ids') := by
  induction xs generalizing ids ids' with
  | nil => exact h
  | cons x xs ih => exact ih (insertKey_perm h x)

theorem residentTraces_traces (ids : List String) (xs : List TraceData) :
    (xs.map WsMessage.traces).foldl residentTraces ids =
      (xs.map TraceData.traceId).foldl insertKey ids := by
  rw [List.foldl_map, List.foldl_map]
  rfl

theorem simulation_traces
    {s a b : Store} {done : List WsMessage} (h : TraceSimulation s done a b)
    {xs : List TraceData} (hfits : TracesFit s (done ++ xs.map WsMessage.traces)) :
    TraceSimulation s (done ++ xs.map WsMessage.traces) (addTraces a xs)
      (applyEach b (xs.map WsMessage.traces)) := by
  have hkeys : ((mergeBatch b.traces xs).map TraceData.traceId).Perm
      ((done ++ xs.map WsMessage.traces).foldl residentTraces
        (s.traces.map TraceData.traceId)) := by
    rw [mergeBatch, keys_foldl_upsert mergeTrace_keepsKey, List.foldl_append,
      residentTraces_traces]
    exact foldl_insertKey_perm h.ids _
  have hb : (mergeBatch b.traces xs).length ≤ b.caps.traceCap := by
    rw [h.caps', ← List.length_map (f := TraceData.traceId), hkeys.length_eq]
    exact hfits _ (List.prefix_refl _)
  have ha : (mergeBatch a.traces xs).length ≤ a.caps.traceCap := by
    rw [h.caps, ← h.caps']
    exact le_trans (foldl_upsert_perm h.same.traces xs).length_eq.le hb
  have hanodup : (a.traces.map TraceData.traceId).Nodup :=
    (h.same.traces.map _).nodup_iff.mpr h.nodup
  have heach : applyEach b (xs.map WsMessage.traces) =
      xs.foldl (fun s t => addTraces s [t]) b := by
    rw [applyEach, List.foldl_map]
    rfl
  have hadded := tracesAdded_each h.nodup h.same.sorted' hb
  rw [← heach] at hadded
  have hbatch := tracesAdded_addTraces hanodup h.same.sorted ha
  have hsame := sameTraces_tracesAdded h.same hbatch hadded
  obtain ⟨_, _, hstore, -, -⟩ := hbatch
  obtain ⟨traces, batch, hstore', hperm, -⟩ := hadded
  have hids : ((applyEach b (xs.map WsMessage.traces)).traces.map TraceData.traceId).Perm
      ((mergeBatch b.traces xs).map TraceData.traceId) := by
    rw [hstore']
    exact hperm.map _
  refine ⟨hsame, ?_, hids.trans hkeys, ?_, ?_⟩
  · exact hids.nodup_iff.mpr (nodup_foldl_upsert mergeTrace_keepsKey h.nodup xs)
  · rw [hstore]
    exact h.caps
  · rw [hstore']
    exact h.caps'

theorem simulation_traceDeletes
    {s a b : Store} {done : List WsMessage} (h : TraceSimulation s done a b)
    (ids : List String) :
    TraceSimulation s (done ++ ids.map WsMessage.traceDeletes) (ids.foldl removeTrace a)
      (applyEach b (ids.map WsMessage.traceDeletes)) := by
  induction ids generalizing done a b with
  | nil =>
      rw [List.map_nil, List.append_nil]
      exact h
  | cons id ids ih =>
      have hstep : TraceSimulation s (done ++ [.traceDeletes id]) (removeTrace a id)
          (removeTrace b id) := by
        refine ⟨sameTraces_removeTrace h.same id, ?_, ?_, h.caps, h.caps'⟩
        · exact h.nodup.sublist (List.filter_sublist.map _)
        · have hmap : (removeTrace b id).traces.map TraceData.traceId =
              (b.traces.map TraceData.traceId).filter fun k => decide (k ≠ id) := by
            rw [List.filter_map]
            rfl
          rw [List.foldl_append, hmap]
          exact h.ids.filter _
      have hrest := ih hstep
      rw [List.append_assoc] at hrest
      exact hrest

/-- Steps that change nothing. -/
theorem foldl_of_fixed
    {T U : Type} {f : U → T → U} {l : List T} (h : ∀ x ∈ l, ∀ u, f u x = u) (u : U) :
    l.foldl f u = u := by
  induction l with
  | nil =>
      rfl
  | cons x l ih =>
      rw [List.foldl_cons, h x List.mem_cons_self]
      exact ih fun y hy => h y (List.mem_cons_of_mem x hy)

/-- A run of another signal. -/
theorem simulation_other
    {s a b : Store} {done run : List WsMessage} (h : TraceSimulation s done a b)
    {type : MessageType} (htype : type = .metrics ∨ type = .logs)
    (hrun : ∀ m ∈ run, m.type = type) :
    TraceSimulation s (done ++ run) (dispatchRun a type run) (applyEach b run) := by
  obtain ⟨hsettings, hfields, -, -⟩ := dispatchRun_frame a type run
  have hfields := hfields htype
  have hfields' : (applyEach b run).traceFields = b.traceFields := by
    refine applyEach_frame _ (fun m hm s => ?_) b
    exact (dispatchRun_frame s m.type [m]).2.1 (by rwa [hrun m hm])
  have hsettings' : (applyEach b run).settings = b.settings :=
    applyEach_frame _ (fun m _ s => (dispatchRun_frame s m.type [m]).1) b
  have hids : run.foldl residentTraces (done.foldl residentTraces
      (s.traces.map TraceData.traceId)) =
        done.foldl residentTraces (s.traces.map TraceData.traceId) := by
    refine foldl_of_fixed (fun m hm ids => ?_) _
    have hm := hrun m hm
    cases m with
    | metrics data => rfl
    | logs data => rfl
    | traces data =>
        rw [← hm] at htype
        rcases htype with h | h <;> cases h
    | traceDeletes traceId =>
        rw [← hm] at htype
        rcases htype with h | h <;> cases h
  have htraces : (dispatchRun a type run).traces = a.traces := congrArg Prod.fst hfields
  have hcounts := congrArg Prod.snd hfields
  have htraces' : (applyEach b run).traces = b.traces := congrArg Prod.fst hfields'
  have hcounts' := congrArg Prod.snd hfields'
  have hcaps : (dispatchRun a type run).caps = a.caps := congrArg Prod.fst hsettings
  have hcaps' : (applyEach b run).caps = b.caps := congrArg Prod.fst hsettings'
  refine ⟨⟨?_, ?_, ?_, ?_, ?_⟩, ?_, ?_, ?_, ?_⟩
  · rw [htraces, htraces']
    exact h.same.traces
  · rw [htraces]
    exact h.same.sorted
  · rw [htraces']
    exact h.same.sorted'
  · exact (congrArg Prod.fst hcounts).trans
      (h.same.newTraceCount.trans (congrArg Prod.fst hcounts').symm)
  · exact (congrArg Prod.snd hcounts).trans
      (h.same.removedTraceCount.trans (congrArg Prod.snd hcounts').symm)
  · rw [htraces']
    exact h.nodup
  · rw [htraces', List.foldl_append, hids]
    exact h.ids
  · rw [hcaps]
    exact h.caps
  · rw [hcaps']
    exact h.caps'

theorem TracesFit.front
    {s : Store} {xs ys : List WsMessage} (h : TracesFit s (xs ++ ys)) : TracesFit s xs :=
  fun front hfront => h front (hfront.trans (List.prefix_append xs ys))

/-- Runs keep the traces in step. -/
theorem traceSimulation_runs (s : Store) :
    RunRelation (TracesFit s) (TraceSimulation s) where
  front _ _ h := h.front
  run type run h hrun hfits := by
    cases type with
    | traces =>
        obtain ⟨xs, rfl, hxs⟩ := exists_records WsMessage.traces WsMessage.trace?
          (fun m hm => by
            cases m with
            | traces data => exact ⟨data, rfl⟩
            | _ => cases hm)
          (fun _ => rfl) hrun
        rw [dispatchRun, hxs]
        exact simulation_traces h hfits
    | traceDeletes =>
        obtain ⟨ids, rfl, hids⟩ := exists_records WsMessage.traceDeletes WsMessage.deleted?
          (fun m hm => by
            cases m with
            | traceDeletes traceId => exact ⟨traceId, rfl⟩
            | _ => cases hm)
          (fun _ => rfl) hrun
        rw [dispatchRun, hids]
        exact simulation_traceDeletes h ids
    | metrics => exact simulation_other h (Or.inl rfl) hrun
    | logs => exact simulation_other h (Or.inr rfl) hrun

/-! ### Metrics -/

/-- The metrics of the hook are those of the messages one by one, which are the resident
ones. -/
structure MetricSimulation (s : Store) (done : List WsMessage) (a b : Store) : Prop where
  same : SameMetrics a b
  nodup : (b.metrics.map MetricData.key).Nodup
  keys : b.metrics.map MetricData.key =
    done.foldl residentMetrics (s.metrics.map MetricData.key)
  caps : a.caps = s.caps
  caps' : b.caps = s.caps

theorem simulation_metrics
    {s a b : Store} {done : List WsMessage} (h : MetricSimulation s done a b)
    {xs : List MetricData} (hfits : MetricsFit s (done ++ xs.map WsMessage.metrics)) :
    MetricSimulation s (done ++ xs.map WsMessage.metrics) (addMetrics a xs)
      (applyEach b (xs.map WsMessage.metrics)) := by
  have hkeys : (mergeMetrics b.caps.maxDataPoints b.metrics xs).map MetricData.key =
      (done ++ xs.map WsMessage.metrics).foldl residentMetrics
        (s.metrics.map MetricData.key) := by
    rw [keys_mergeMetrics, List.foldl_append, ← h.keys, List.foldl_map, List.foldl_map]
    rfl
  have hlength : (mergeMetrics b.caps.maxDataPoints b.metrics xs).length ≤ b.caps.metricCap := by
    rw [← List.length_map (f := MetricData.key), hkeys, h.caps']
    exact hfits _ (List.prefix_refl _)
  have heach : applyEach b (xs.map WsMessage.metrics) = addMetrics b xs := by
    rw [applyEach, List.foldl_map, ← addMetrics_each h.nodup hlength]
    rfl
  cases xs with
  | nil =>
      rw [List.map_nil, List.append_nil]
      exact h
  | cons x xs =>
      have hanodup : (a.metrics.map MetricData.key).Nodup := by
        rw [h.same.metrics]
        exact h.nodup
      have hcaps : a.caps = b.caps := h.caps.trans h.caps'.symm
      have ha := addMetrics_spec hanodup (List.cons_ne_nil x xs)
      have hb := addMetrics_spec h.nodup (List.cons_ne_nil x xs)
      rw [hcaps, h.same.metrics] at ha
      rw [List.take_of_length_le hlength] at ha hb
      rw [heach, ha, hb]
      refine ⟨⟨rfl, ?_⟩, nodup_mergeMetrics h.nodup (x :: xs), hkeys, h.caps', h.caps'⟩
      rw [h.same.newMetricCount]

theorem MetricsFit.front
    {s : Store} {xs ys : List WsMessage} (h : MetricsFit s (xs ++ ys)) : MetricsFit s xs :=
  fun front hfront => h front (hfront.trans (List.prefix_append xs ys))

/-- Runs keep the metrics in step. -/
theorem metricSimulation_runs (s : Store) :
    RunRelation (MetricsFit s) (MetricSimulation s) where
  front _ _ h := h.front
  run {done a b} type run h hrun hfits := by
    by_cases htype : type = .metrics
    · subst htype
      obtain ⟨xs, rfl, hxs⟩ := exists_records WsMessage.metrics WsMessage.metric?
        (fun m hm => by
          cases m with
          | metrics data => exact ⟨data, rfl⟩
          | _ => cases hm)
        (fun _ => rfl) hrun
      rw [dispatchRun, hxs]
      exact simulation_metrics h hfits
    · obtain ⟨hsettings, -, hfields, -⟩ := dispatchRun_frame a type run
      have hfields := hfields htype
      have hfields' : (applyEach b run).metricFields = b.metricFields := by
        refine applyEach_frame _ (fun m hm s => ?_) b
        exact (dispatchRun_frame s m.type [m]).2.2.1 (by rwa [hrun m hm])
      have hsettings' : (applyEach b run).settings = b.settings :=
        applyEach_frame _ (fun m _ s => (dispatchRun_frame s m.type [m]).1) b
      have hkeys : ∀ keys, run.foldl residentMetrics keys = keys := by
        refine foldl_of_fixed fun m hm keys => ?_
        have hm := hrun m hm
        cases m with
        | metrics data => exact absurd hm.symm htype
        | _ => rfl
      have hmetrics : (dispatchRun a type run).metrics = a.metrics := congrArg Prod.fst hfields
      have hmetrics' : (applyEach b run).metrics = b.metrics := congrArg Prod.fst hfields'
      refine ⟨⟨?_, ?_⟩, ?_, ?_, ?_, ?_⟩
      · rw [hmetrics, hmetrics']
        exact h.same.metrics
      · exact (congrArg Prod.snd hfields).trans
          (h.same.newMetricCount.trans (congrArg Prod.snd hfields').symm)
      · rw [hmetrics']
        exact h.nodup
      · rw [hmetrics', List.foldl_append, hkeys]
        exact h.keys
      · exact (congrArg Prod.fst hsettings).trans h.caps
      · exact (congrArg Prod.fst hsettings').trans h.caps'

/-! ### Logs -/

/-- The logs and what no message changes. -/
structure LogSimulation (a b : Store) : Prop where
  same : SameLogs a b
  settings : SameSettings a b

theorem logSimulation_refl (s : Store) : LogSimulation s s := ⟨⟨rfl, rfl⟩, ⟨rfl, rfl⟩⟩

/-- Runs keep the logs in step, whatever is cut off. -/
theorem logSimulation_runs :
    RunRelation (fun _ => True) (fun _ => LogSimulation) where
  front _ _ _ := trivial
  run {done a b} type run h hrun _ := by
    have hsettings := (dispatchRun_frame a type run).1
    have hsettings' : (applyEach b run).settings = b.settings :=
      applyEach_frame _ (fun m _ s => (dispatchRun_frame s m.type [m]).1) b
    refine ⟨?_, ⟨?_, ?_⟩⟩
    · by_cases htype : type = .logs
      · subst htype
        obtain ⟨xs, rfl, hxs⟩ := exists_records WsMessage.logs WsMessage.log?
          (fun m hm => by
            cases m with
            | logs data => exact ⟨data, rfl⟩
            | _ => cases hm)
          (fun _ => rfl) hrun
        have heach : applyEach b (xs.map WsMessage.logs) = addLogs b xs := by
          rw [applyEach, List.foldl_map, ← addLogs_each]
          rfl
        rw [dispatchRun, hxs, heach, addLogs, addLogs]
        split
        · exact h.same
        · rw [h.same.logs, h.same.newLogCount, h.settings.caps]
          exact ⟨rfl, rfl⟩
      · have hfields := (dispatchRun_frame a type run).2.2.2 htype
        have hfields' : (applyEach b run).logFields = b.logFields := by
          refine applyEach_frame _ (fun m hm s => ?_) b
          exact (dispatchRun_frame s m.type [m]).2.2.2 (by rwa [hrun m hm])
        exact ⟨(congrArg Prod.fst hfields).trans
            (h.same.logs.trans (congrArg Prod.fst hfields').symm),
          (congrArg Prod.snd hfields).trans
            (h.same.newLogCount.trans (congrArg Prod.snd hfields').symm)⟩
    · exact (congrArg Prod.fst hsettings).trans
        (h.settings.caps.trans (congrArg Prod.fst hsettings').symm)
    · exact (congrArg Prod.snd hsettings).trans
        (h.settings.totals.trans (congrArg Prod.snd hsettings').symm)

/-! ### The hook -/

/-- What the hook has dispatched, what is queued, and that a closed window has no queue. -/
structure Dispatched (R : List WsMessage → Store → Store → Prop) (s : Store)
    (events : List WsEvent) (done : List WsMessage) (h : WsHook) : Prop where
  arrived : done ++ h.queue = arrived events
  related : R done h.store (applyEach s done)
  closed : h.windowOpen = false → h.queue = []

theorem dispatched_step
    {fits : List WsMessage → Prop} {R : List WsMessage → Store → Store → Prop}
    (hR : RunRelation fits R) {s : Store} {events : List WsEvent} {done : List WsMessage}
    {h : WsHook} (hd : Dispatched R s events done h) (e : WsEvent)
    (hfits : fits (arrived (events ++ [e]))) :
    ∃ done', Dispatched R s (events ++ [e]) done' (h.step e) := by
  have harrived : arrived (events ++ [e]) = arrived events ++ arrived [e] :=
    List.filterMap_append
  cases e with
  | message m =>
      have hmessage : arrived [.message m] = [m] := rfl
      rw [hmessage, ← hd.arrived] at harrived
      rw [WsHook.step]
      cases hopen : h.windowOpen with
      | true =>
          refine ⟨done, ?_, hd.related, fun hclosed => ?_⟩
          · rw [harrived, List.append_assoc]
            rfl
          · cases hclosed
      | false =>
          rw [hd.closed hopen, List.append_nil] at harrived
          rw [harrived] at hfits
          have hrun := hR.run m.type [m] hd.related
            (fun m' hm' => by rw [List.mem_singleton.mp hm']) hfits
          rw [← applyEach_append] at hrun
          refine ⟨done ++ [m], ?_, hrun, fun _ => hd.closed hopen⟩
          rw [harrived]
          simp [hd.closed hopen]
  | tick =>
      have htick : arrived [WsEvent.tick] = [] := rfl
      rw [htick, List.append_nil] at harrived
      rw [WsHook.step]
      cases hopen : h.windowOpen with
      | false =>
          exact ⟨done, hd.arrived.trans harrived.symm, hd.related, hd.closed⟩
      | true =>
          cases hqueue : h.queue with
          | nil =>
              refine ⟨done, ?_, hd.related, fun _ => rfl⟩
              rw [harrived, ← hd.arrived, hqueue]
              rfl
          | cons m queue =>
              have hall := hd.arrived
              rw [harrived, ← hall, hqueue] at hfits
              have hrun := dispatchQueue_eq hR hd.related hfits
              rw [← applyEach_append] at hrun
              refine ⟨done ++ m :: queue, ?_, hrun, fun hclosed => by cases hclosed⟩
              rw [harrived, ← hall, hqueue]
              exact List.append_nil _

/-- The hook over a whole run of messages and ticks. -/
theorem dispatched_run
    {fits : List WsMessage → Prop} {R : List WsMessage → Store → Store → Prop}
    (hR : RunRelation fits R) {s : Store} (h : R [] s s) (events : List WsEvent)
    (hfits : fits (arrived events)) :
    ∃ done, Dispatched R s events done (events.foldl WsHook.step (WsHook.mount s)) := by
  induction events using List.reverseRecOn with
  | nil =>
      exact ⟨[], rfl, h, fun _ => rfl⟩
  | append_singleton events e ih =>
      have hfront : fits (arrived events) := by
        have harrived : arrived (events ++ [e]) = arrived events ++ arrived [e] :=
          List.filterMap_append
        rw [harrived] at hfits
        exact hR.front _ _ hfits
      obtain ⟨done, hd⟩ := ih hfront
      rw [List.foldl_append]
      exact dispatched_step hR hd e hfits

/-- A tick leaves no queue. -/
theorem queue_tick {h : WsHook} (hclosed : h.windowOpen = false → h.queue = []) :
    (h.step .tick).queue = [] := by
  rw [WsHook.step]
  cases hopen : h.windowOpen with
  | false =>
      exact hclosed hopen
  | true =>
      cases hqueue : h.queue with
      | nil => rfl
      | cons m queue => rfl

/-- The store `a` has what `done` leaves message by message: the traces if the traces of
`messages` fit, the metrics if their groups fit, and the logs in any case. -/
structure Agrees (s : Store) (messages done : List WsMessage) (a : Store) : Prop where
  traces : (s.traces.map TraceData.traceId).Nodup → NewestFirst s.traces →
    TracesFit s messages → SameTraces a (applyEach s done)
  metrics : (s.metrics.map MetricData.key).Nodup → MetricsFit s messages →
    SameMetrics a (applyEach s done)
  logs : SameLogs a (applyEach s done)
  settings : SameSettings a (applyEach s done)

theorem agrees_run
    (s : Store) (events : List WsEvent) {done : List WsMessage}
    (hdone : done ++ (events.foldl WsHook.step (WsHook.mount s)).queue = arrived events) :
    Agrees s (arrived events) done (events.foldl WsHook.step (WsHook.mount s)).store := by
  have hsame : ∀ done', done' ++ (events.foldl WsHook.step (WsHook.mount s)).queue =
      arrived events → done' = done :=
    fun done' h => List.append_cancel_right (h.trans hdone.symm)
  refine ⟨fun hnodup hsorted hfits => ?_, fun hnodup hfits => ?_, ?_, ?_⟩
  · have hstart : TraceSimulation s [] s s :=
      ⟨⟨List.Perm.refl _, hsorted, hsorted, rfl, rfl⟩, hnodup, List.Perm.refl _, rfl, rfl⟩
    obtain ⟨done', hd⟩ := dispatched_run (traceSimulation_runs s) hstart events hfits
    rw [← hsame done' hd.arrived]
    exact hd.related.same
  · have hstart : MetricSimulation s [] s s := ⟨⟨rfl, rfl⟩, hnodup, rfl, rfl, rfl⟩
    obtain ⟨done', hd⟩ := dispatched_run (metricSimulation_runs s) hstart events hfits
    rw [← hsame done' hd.arrived]
    exact hd.related.same
  · obtain ⟨done', hd⟩ := dispatched_run logSimulation_runs (logSimulation_refl s) events trivial
    rw [← hsame done' hd.arrived]
    exact hd.related.same
  · obtain ⟨done', hd⟩ := dispatched_run logSimulation_runs (logSimulation_refl s) events trivial
    rw [← hsame done' hd.arrived]
    exact hd.related.settings

/-- At every moment the store has what the dispatched messages leave one by one, and after
the next tick every message that arrived is dispatched. -/
theorem batching_unobservable (s : Store) (events : List WsEvent) :
    let hook := events.foldl WsHook.step (WsHook.mount s)
    (∃ done, done ++ hook.queue = arrived events ∧
        Agrees s (arrived events) done hook.store) ∧
      Agrees s (arrived events) (arrived events) (hook.step .tick).store := by
  intro hook
  obtain ⟨done, hd⟩ := dispatched_run logSimulation_runs (logSimulation_refl s) events trivial
  refine ⟨⟨done, hd.arrived, agrees_run s events hd.arrived⟩, ?_⟩
  have hqueue : (hook.step .tick).queue = [] := queue_tick hd.closed
  have harrived : arrived (events ++ [WsEvent.tick]) = arrived events := by
    have htick : arrived [WsEvent.tick] = [] := rfl
    have happend :
        arrived (events ++ [WsEvent.tick]) = arrived events ++ arrived [WsEvent.tick] :=
      List.filterMap_append
    rw [happend, htick, List.append_nil]
  have hstep : (events ++ [WsEvent.tick]).foldl WsHook.step (WsHook.mount s) = hook.step .tick := by
    rw [List.foldl_append]
    rfl
  have hall : arrived events ++
      ((events ++ [WsEvent.tick]).foldl WsHook.step (WsHook.mount s)).queue =
        arrived (events ++ [WsEvent.tick]) := by
    rw [hstep, hqueue, List.append_nil, harrived]
  have hlast := agrees_run s (events ++ [WsEvent.tick]) hall
  rw [harrived, hstep] at hlast
  exact hlast

/-! ### A burst -/

/-- The first summary is applied at once, the others and the deletion wait for the tick. -/
def sampleBurst : List WsEvent :=
  [.message (.traces (sampleTrace "a" "2024-01-01T00:10:00Z" 1)),
    .message (.traces (sampleTrace "b" "2024-01-01T00:10:00Z" 1)),
    .message (.traces (sampleTrace "a" "2024-01-01T00:10:00Z" 2)),
    .message (.traceDeletes "b"),
    .tick]

theorem sampleBurst_fits :
    TracesFit (initialStore ⟨2, 10, 10, 10⟩) (arrived sampleBurst) := by
  have hall : ∀ front ∈ (arrived sampleBurst).inits,
      (front.foldl residentTraces []).length ≤ 2 := by
    decide
  exact fun front hfront => hall front ((List.mem_inits front _).mpr hfront)

theorem batching_unobservable_sample :
    SameTraces ((sampleBurst.foldl WsHook.step (WsHook.mount (initialStore ⟨2, 10, 10, 10⟩))).step
        .tick).store
      (applyEach (initialStore ⟨2, 10, 10, 10⟩) (arrived sampleBurst)) :=
  (batching_unobservable (initialStore ⟨2, 10, 10, 10⟩) sampleBurst).2.traces List.nodup_nil
    List.Pairwise.nil sampleBurst_fits

end Stores
end Otelop
