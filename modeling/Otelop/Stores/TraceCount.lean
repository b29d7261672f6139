import Mathlib.Tactic
import Otelop.Broadcast.Traces
import Otelop.Lib.Along
import Otelop.Storage.TraceCommits

/-!
# The trace counter

`traceCountAtom` is the total the server reported at the initial load, plus the traces
`addTracesAtom` found no row for, less the deletions.  The list has a part of the traces
only, so whether a summary is that of a new trace cannot be seen from it.

The server commits batches, its messages are applied in order, and pages are loaded at
any moment.  `CountState.counted` is a ghost: the traces of the server's table, as far as
the messages that were applied tell.

**Results.**
* `count_apply`: one application of messages.
* `traceCount_tracks`: the counter along a run.
-/

namespace Otelop
namespace Stores

open Lib
open Storage (Commit Time newTraceEvents)
open Broadcast (broadcastTraces sampleIso tracked)

variable {V : Type}

/-- The operation writes what was fetched, not what was delivered. -/
def TraceOperation.IsLoad : TraceOperation → Prop
  | addTraces _ => False
  | removeTrace _ => False
  | op => op.isPage = true → (op.rows.map TraceData.traceId).Nodup

/-- The server, the messages that were not applied yet, on the wire or in the queue of the
hook, and the client. -/
structure CountState (V : Type) where
  server : Storage.Store V
  inFlight : List WsMessage
  client : Store
  counted : Finset String

/-- `apply` writes the next message and, if it is a summary, up to `more` summaries that
follow it; the deletions of a run are written one by one. -/
inductive CountEvent where
  | commit (c : Commit)
  | apply (more : Nat)
  | load (op : TraceOperation) (hload : op.IsLoad)

/-- The messages that are written together. -/
def nextRun (more : Nat) : List WsMessage → List WsMessage
  | [] => []
  | m :: rest =>
      m :: if m.type = .traces then (rest.takeWhile fun m' => m'.type = .traces).take more else []

def CountState.step (sub : Time → Time → Int) (iso : Time → String) (s : CountState V) :
    CountEvent → CountState V
  | .commit c =>
      let server := s.server.commit sub c
      { s with
        server := server
        inFlight := s.inFlight ++ (newTraceEvents s.server server).flatMap (broadcastTraces iso) }
  | .apply more =>
      match s.inFlight with
      | [] => s
      | m :: _ =>
          let run := nextRun more s.inFlight
          { s with
            inFlight := s.inFlight.drop run.length
            client := dispatchRun s.client m.type run
            counted := run.foldl tracked s.counted }
  | .load op _ => { s with client := op.apply s.client }

/-- The page right after the initial load: nothing is in flight, and nothing was counted
before. -/
def CountState.start (server : Storage.Store V) (client : Store) (totals : SignalTotals) :
    CountState V where
  server := server
  inFlight := []
  client := setTotalCounts client totals
  counted := server.db.traceIDs

/-- When every message was applied, the counter is the number of rows of
`trace_summaries`. -/
def CountsTraces (s : CountState V) : Prop :=
  s.inFlight = [] → s.client.traceCount = s.server.db.traceSummaries.rows.length

/-- The list has the trace of a summary exactly if the trace was counted before, and a trace
that is deleted was counted before. -/
def MessageRight (client : Store) (counted : Finset String) : WsMessage → Prop
  | .traces data => data.traceId ∈ client.traces.map TraceData.traceId ↔ data.traceId ∈ counted
  | .traceDeletes traceId => traceId ∈ counted
  | _ => True

instance (client : Store) (counted : Finset String) :
    DecidablePred (MessageRight client counted)
  | .traces _ => inferInstanceAs (Decidable (_ ↔ _))
  | .traceDeletes _ => inferInstanceAs (Decidable (_ ∈ _))
  | .metrics _ => inferInstanceAs (Decidable True)
  | .logs _ => inferInstanceAs (Decidable True)

/-- So for the messages that are written. -/
def CountedRight (s : CountState V) : CountEvent → Prop
  | .apply more => ∀ m ∈ nextRun more s.inFlight, MessageRight s.client s.counted m
  | _ => True

/-! ### Loads -/

theorem nodup_load
    {s : Store} (h : (s.traces.map TraceData.traceId).Nodup) {op : TraceOperation}
    (hload : op.IsLoad) :
    ((op.apply s).traces.map TraceData.traceId).Nodup := by
  cases op with
  | addTraces newTraces => exact nodup_addTraces h newTraces
  | cacheTrace trace => exact nodup_cacheTrace h trace
  | replaceTracePage items ids window => exact nodup_replaceTracePage h (hload rfl) ids window
  | appendTraces traces => exact nodup_append h (hload rfl)
  | appendTraceSearchResults traces => exact nodup_append h (hload rfl)
  | removeTrace traceId => exact h.sublist (List.filter_sublist.map _)
  | replaceTraceSpans traceId spans =>
      change ((replaceTraceSpans s traceId spans).traces.map TraceData.traceId).Nodup
      rw [ids_replaceTraceSpans]
      exact h

/-- The totals and the counters of a store. -/
def Store.traceCounters (s : Store) : SignalTotals × Nat × Nat :=
  (s.totals, s.newTraceCount, s.removedTraceCount)

/-- A load counts nothing. -/
theorem traceCounters_load (s : Store) {op : TraceOperation} (hload : op.IsLoad) :
    (op.apply s).traceCounters = s.traceCounters := by
  cases op with
  | addTraces newTraces => exact hload.elim
  | cacheTrace trace =>
      rw [TraceOperation.apply, cacheTrace]
      split
      · split <;> rfl
      · dsimp only
        split <;> rfl
  | replaceTracePage items ids window => rfl
  | appendTraces traces => rfl
  | appendTraceSearchResults traces => rfl
  | removeTrace traceId => exact hload.elim
  | replaceTraceSpans traceId spans =>
      rw [TraceOperation.apply, replaceTraceSpans]
      split <;> rfl

/-! ### Messages -/

/-- Where a key is there exactly if it was counted, the new keys are those not counted. -/
theorem length_foldl_insertKey
    {ks keys : List String} {counted : Finset String} (h : ∀ k ∈ ks, k ∈ keys ↔ k ∈ counted) :
    (ks.foldl insertKey keys).length + counted.card =
      keys.length + (counted ∪ ks.toFinset).card := by
  induction ks generalizing keys counted with
  | nil => simp
  | cons k ks ih =>
      have hk := h k List.mem_cons_self
      have hrest : ∀ k' ∈ ks, k' ∈ insertKey keys k ↔ k' ∈ insert k counted := by
        intro k' hk'
        rw [mem_insertKey, Finset.mem_insert, h k' (List.mem_cons_of_mem k hk'), or_comm]
      have hunion : insert k counted ∪ ks.toFinset = counted ∪ (k :: ks).toFinset := by
        rw [List.toFinset_cons, Finset.insert_union, Finset.union_insert]
      have hcount := ih hrest
      rw [hunion] at hcount
      rw [List.foldl_cons]
      by_cases hmem : k ∈ keys
      · rw [Finset.insert_eq_of_mem (hk.mp hmem)] at hcount
        rw [hcount, insertKey, if_pos hmem]
      · rw [Finset.card_insert_of_notMem (mt hk.mpr hmem), insertKey, if_neg hmem,
          List.length_append, List.length_singleton] at hcount
        rw [insertKey, if_neg hmem]
        omega

/-- What a run keeps of the counters. -/
def CountersRight (client : Store) (counted : Finset String) : Prop :=
  client.totals.traceCount + client.newTraceCount = counted.card + client.removedTraceCount

theorem countersRight_addTraces
    {client : Store} (hnodup : (client.traces.map TraceData.traceId).Nodup)
    {counted : Finset String} (h : CountersRight client counted) {rows : List TraceData}
    (hright : ∀ row ∈ rows,
      row.traceId ∈ client.traces.map TraceData.traceId ↔ row.traceId ∈ counted) :
    CountersRight (addTraces client rows)
      ((rows.map WsMessage.traces).foldl tracked counted) := by
  obtain ⟨traces, batch, hstore, -⟩ := addTraces_spec hnodup rows
  have hkeys : ∀ k ∈ rows.map TraceData.traceId,
      k ∈ client.traces.map TraceData.traceId ↔ k ∈ counted := by
    intro k hk
    obtain ⟨row, hrow, rfl⟩ := List.mem_map.mp hk
    exact hright row hrow
  have hcount := length_foldl_insertKey hkeys
  have hle := length_le_mergeBatch client.traces rows
  rw [← keys_foldl_upsert mergeTrace_keepsKey, List.length_map, List.length_map] at hcount
  change (mergeBatch client.traces rows).length + _ = _ at hcount
  rw [CountersRight] at h
  rw [CountersRight, hstore, Broadcast.foldl_tracked_traces]
  dsimp only
  omega

theorem countersRight_removeTrace
    {client : Store} {counted : Finset String} (h : CountersRight client counted)
    {traceId : String} (hcounted : traceId ∈ counted) :
    CountersRight (removeTrace client traceId) (counted.erase traceId) := by
  have hcard := Finset.card_erase_add_one hcounted
  rw [CountersRight] at h
  rw [CountersRight, removeTrace]
  dsimp only
  omega

/-! ### Runs -/

/-- What a run keeps. -/
structure CountInvariant (sub : Time → Time → Int) (s : CountState V) : Prop where
  reachable : Storage.Reachable sub (fun _ => True) s.server
  nodup : (s.client.traces.map TraceData.traceId).Nodup
  counters : CountersRight s.client s.counted
  ahead : s.inFlight.foldl tracked s.counted = s.server.db.traceIDs

variable {sub : Time → Time → Int} {iso : Time → String}

theorem countInvariant_commit
    {s : CountState V} (h : CountInvariant sub s) (c : Commit) :
    CountInvariant sub (s.step sub iso (.commit c)) where
  reachable := h.reachable.commit c
  nodup := h.nodup
  counters := h.counters
  ahead := by
    change (s.inFlight ++ (newTraceEvents s.server (s.server.commit sub c)).flatMap
      (broadcastTraces iso)).foldl tracked s.counted = (s.server.commit sub c).db.traceIDs
    rw [List.foldl_append, h.ahead]
    rcases Storage.commit_traceIDs h.reachable c with ⟨hnone, hsame⟩ | ⟨ev, hevent, hids⟩
    · rw [hnone, hsame]
      rfl
    · rw [hevent, hids, List.flatMap_singleton, Broadcast.tracked_broadcastTraces]

theorem prefix_nextRun (more : Nat) (messages : List WsMessage) :
    nextRun more messages <+: messages := by
  cases messages with
  | nil => exact List.prefix_rfl
  | cons m rest =>
      rw [nextRun, List.cons_prefix_cons]
      refine ⟨rfl, ?_⟩
      split
      · exact (List.take_prefix _ _).trans (List.takeWhile_prefix _)
      · exact List.nil_prefix

/-- A run that starts with a summary has nothing else. -/
theorem nextRun_traces (more : Nat) (data : TraceData) (rest : List WsMessage) :
    ∃ rows : List TraceData, nextRun more (.traces data :: rest) = rows.map WsMessage.traces ∧
      (nextRun more (.traces data :: rest)).filterMap WsMessage.trace? = rows := by
  have hrecord : ∀ m : WsMessage, m.type = .traces → ∃ data, m = .traces data := by
    intro m hm
    cases m with
    | traces data => exact ⟨data, rfl⟩
    | traceDeletes traceId => cases hm
    | metrics data => cases hm
    | logs data => cases hm
  refine exists_records WsMessage.traces WsMessage.trace? hrecord (fun _ => rfl) ?_
  intro m hm
  rw [nextRun] at hm
  rcases List.mem_cons.mp hm with rfl | hm
  · rfl
  · have hdata : (WsMessage.traces data).type = .traces := rfl
    rw [if_pos hdata] at hm
    exact of_decide_eq_true (List.all_eq_true.mp List.all_takeWhile m (List.mem_of_mem_take hm))

/-- What one application does to the client and to the ghost. -/
theorem count_apply
    {client : Store} (hnodup : (client.traces.map TraceData.traceId).Nodup)
    {counted : Finset String} (h : CountersRight client counted)
    {more : Nat} {m : WsMessage} {rest : List WsMessage}
    (hright : ∀ m' ∈ nextRun more (m :: rest), MessageRight client counted m') :
    let run := nextRun more (m :: rest)
    ((dispatchRun client m.type run).traces.map TraceData.traceId).Nodup ∧
      CountersRight (dispatchRun client m.type run) (run.foldl tracked counted) := by
  intro run
  cases m with
  | traces data =>
      obtain ⟨rows, hrun, hrows⟩ := nextRun_traces more data rest
      change run = _ at hrun
      change run.filterMap _ = _ at hrows
      change ((addTraces client (run.filterMap _)).traces.map _).Nodup ∧
        CountersRight (addTraces client (run.filterMap _)) _
      rw [hrows, hrun]
      refine ⟨nodup_addTraces hnodup rows, countersRight_addTraces hnodup h ?_⟩
      intro row hrow
      have hmem : WsMessage.traces row ∈ run := by
        rw [hrun]
        exact List.mem_map_of_mem hrow
      exact hright _ hmem
  | traceDeletes traceId =>
      exact ⟨hnodup.sublist (List.filter_sublist.map _),
        countersRight_removeTrace h (hright _ List.mem_cons_self)⟩
  | metrics data =>
      obtain ⟨metrics, count, hstore⟩ := addMetrics_frame client (run.filterMap WsMessage.metric?)
      change ((addMetrics client (run.filterMap _)).traces.map _).Nodup ∧
        CountersRight (addMetrics client (run.filterMap _)) counted
      rw [hstore]
      exact ⟨hnodup, h⟩
  | logs data =>
      obtain ⟨logs, count, hstore⟩ := addLogs_frame client (run.filterMap WsMessage.log?)
      change ((addLogs client (run.filterMap _)).traces.map _).Nodup ∧
        CountersRight (addLogs client (run.filterMap _)) counted
      rw [hstore]
      exact ⟨hnodup, h⟩

theorem countInvariant_apply
    {s : CountState V} (h : CountInvariant sub s) (more : Nat)
    (hright : CountedRight s (.apply more)) :
    CountInvariant sub (s.step sub iso (.apply more)) := by
  rw [CountState.step]
  rw [CountedRight] at hright
  cases hflight : s.inFlight with
  | nil => exact h
  | cons m rest =>
      rw [hflight] at hright
      obtain ⟨hnodup, hcounters⟩ := count_apply h.nodup h.counters hright
      refine ⟨h.reachable, hnodup, hcounters, ?_⟩
      have hsplit : nextRun more (m :: rest) ++
          (m :: rest).drop (nextRun more (m :: rest)).length = m :: rest :=
        List.prefix_iff_eq_append.mp (prefix_nextRun more (m :: rest))
      have hahead := h.ahead
      rwa [hflight, ← hsplit, List.foldl_append] at hahead

theorem countInvariant_load
    {s : CountState V} (h : CountInvariant sub s) {op : TraceOperation} (hload : op.IsLoad) :
    CountInvariant sub (s.step sub iso (.load op hload)) where
  reachable := h.reachable
  nodup := nodup_load h.nodup hload
  counters := by
    have hsame := traceCounters_load s.client hload
    simp only [Store.traceCounters, Prod.mk.injEq] at hsame
    obtain ⟨htotals, hnew, hremoved⟩ := hsame
    change CountersRight (op.apply s.client) s.counted
    rw [CountersRight, htotals, hnew, hremoved]
    exact h.counters
  ahead := h.ahead

theorem CountInvariant.countsTraces
    {s : CountState V} (h : CountInvariant sub s) : CountsTraces s := by
  intro hflight
  have hahead := h.ahead
  rw [hflight, List.foldl_nil] at hahead
  have hcounters := h.counters
  rw [CountersRight, hahead, Storage.card_traceIDs] at hcounters
  rw [Store.traceCount]
  omega

/-- Along a run after the initial load, in which the list has the trace of each summary
exactly if the trace was counted, and only counted traces are deleted, the counter is the
number of traces of the server whenever every message was applied. -/
theorem traceCount_tracks
    {server : Storage.Store V} (hserver : Storage.Reachable sub (fun _ => True) server)
    {client : Store} (hclient : (client.traces.map TraceData.traceId).Nodup)
    (hnew : client.newTraceCount = 0) {totals : SignalTotals}
    (htotals : totals.traceCount = server.db.traceSummaries.rows.length)
    {events : List CountEvent}
    (hright : EveryStep (CountState.step sub iso) (.start server client totals) events
      CountedRight) :
    Along (CountState.step sub iso) (.start server client totals) events CountsTraces := by
  have hstart : CountInvariant sub (CountState.start server client totals) := by
    refine ⟨hserver, hclient, ?_, rfl⟩
    change totals.traceCount + client.newTraceCount = server.db.traceIDs.card + 0
    rw [hnew, htotals, Storage.card_traceIDs]
  have hinv : Along (CountState.step sub iso) (.start server client totals) events
      (CountInvariant sub) := by
    refine Along.of_everyStep hstart ?_ hright
    intro s e _ h hok
    cases e with
    | commit c => exact countInvariant_commit h c
    | apply more => exact countInvariant_apply h more hok
    | load op hload => exact countInvariant_load h hload
  exact hinv.imp fun s h => h.countsTraces

/-- A span of the trace of `Store.oneTrace`, and one of another trace. -/
def sampleCommit : Commit where
  batch :=
    { resources := [⟨0, "checkout", .empty⟩]
      spans := [.bare "t" "c" "a" 6 8, .bare "u" "a" "" 1 2]
      summaries := []
      droppedTraceIDs := [] }
  refreshedAt := 200
  now := 201
  faults := []

/-- The page with the trace of the server was not loaded, so the summary of the trace is
counted again. -/
theorem traceCount_drifts :
    ¬ Along (CountState.step Time.sub sampleIso)
      (.start Storage.Store.oneTrace (initialStore defaultConfig) ⟨1, 0, 0⟩)
      [.commit sampleCommit, .apply 1] CountsTraces := by
  intro h
  have htwo := h _ List.prefix_rfl (by decide +kernel)
  revert htwo
  decide +kernel

/-- The page of a server without traces. -/
def sampleStart : CountState Unit :=
  .start (Storage.Store.new Unit) (initialStore defaultConfig) ⟨0, 0, 0⟩

theorem traceCount_tracks_sample :
    Along (CountState.step Time.sub sampleIso) sampleStart
      [.commit sampleCommit, .apply 0, .apply 0, .commit sampleCommit] CountsTraces := by
  refine traceCount_tracks .new (by exact List.nodup_nil) rfl rfl ?_
  let step := CountState.step (V := Unit) Time.sub sampleIso
  have hfirst : CountedRight (step sampleStart (.commit sampleCommit)) (.apply 0) := by
    rw [CountedRight]
    decide +kernel
  have hsecond : CountedRight (step (step sampleStart (.commit sampleCommit)) (.apply 0))
      (.apply 0) := by
    rw [CountedRight]
    decide +kernel
  exact everyStep_cons.mpr ⟨trivial, everyStep_cons.mpr ⟨hfirst, everyStep_cons.mpr ⟨hsecond,
    everyStep_cons.mpr ⟨trivial, everyStep_nil⟩⟩⟩⟩

end Stores
end Otelop
