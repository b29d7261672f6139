import Mathlib.Tactic
import Otelop.Ingest.LiveMessages

/-!
# What the messages tell of the tables

The traces and the logs that a client knows from the messages, beside those that have rows.  Rows
disappear from the tables when a sweep or a clear deletes them, which no message tells, and an
append of logs that fails half way leaves rows that no message tells either.

**Results.**
* `live_tables`: once the messages are received, each trace with spans was told of, and the rows
  of the logs too while no statement fails; nothing else was told of while nothing is deleted.
-/

namespace Otelop
namespace Ingest

open Lib Stmt Storage
open Broadcast (tracked tracked_broadcastTraces)

variable {P : Platform}

/-! ### What the messages tell -/

/-- The traces there are, as a message tells. -/
def Message.track (ids : Finset String) : Message → Finset String
  | .trace msg => tracked ids msg
  | _ => ids

/-- The traces the messages leave. -/
def toldTraces (messages : List Message) : Finset String := messages.foldl Message.track ∅

def Message.logRow? : Message → Option LogRow
  | .log row _ => some row
  | _ => none

/-- The log rows the messages brought. -/
def toldLogs (messages : List Message) : List LogRow := messages.filterMap Message.logRow?

theorem toldTraces_news (messages : List Message) :
    toldTraces (news messages) = toldTraces messages := by
  induction messages using List.reverseRecOn with
  | nil => rfl
  | append_singleton messages m ih =>
      rw [news_append, toldTraces, List.foldl_append]
      change List.foldl Message.track (toldTraces (news messages)) (news [m]) = _
      rw [ih, toldTraces, toldTraces, List.foldl_append]
      cases m <;> rfl

theorem toldLogs_news (messages : List Message) : toldLogs (news messages) = toldLogs messages := by
  induction messages with
  | nil => rfl
  | cons m messages ih =>
      cases m with
      | metric data => exact ih
      | trace msg => exact ih
      | log row resource => exact congrArg (List.cons row) ih

theorem toldLogs_append (messages messages' : List Message) :
    toldLogs (messages ++ messages') = toldLogs messages ++ toldLogs messages' :=
  List.filterMap_append

/-- What a batch of traces adds to them and takes away. -/
theorem toldTraces_traces (messages : List Message) (batch : TraceBatch) :
    toldTraces (messages ++ eventNews P (.traces batch)) =
      (toldTraces messages \ batch.droppedTraceIDs.toFinset) ∪
        (batch.summaries.map TraceSummary.traceID).toFinset := by
  rw [toldTraces, List.foldl_append, eventNews, List.foldl_map]
  exact tracked_broadcastTraces P.iso batch _

theorem toldLogs_traces (batch : TraceBatch) : toldLogs (eventNews P (.traces batch)) = [] := by
  simp [toldLogs, eventNews, Message.logRow?, List.filterMap_eq_nil_iff]

theorem toldTraces_logs (messages : List Message) (batch : LogBatch) :
    toldTraces (messages ++ eventNews P (.logs batch)) = toldTraces messages := by
  have hlogs : ∀ (rows : List LogRow) (resource : LogRow → Option ResourceRow) ids,
      (rows.map fun l => Message.log l (resource l)).foldl Message.track ids = ids := by
    intro rows resource ids
    induction rows with
    | nil => rfl
    | cons row rows ih => exact ih
  rw [toldTraces, List.foldl_append]
  exact hlogs _ _ _

/-- A batch of logs brings all its rows. -/
theorem toldLogs_logs (batch : LogBatch) : toldLogs (eventNews P (.logs batch)) = batch.logs := by
  simp [toldLogs, eventNews, broadcastLogs, Message.logRow?, List.filterMap_map, Function.comp_def]

/-! ### The tables -/

/-- The messages tell of the traces of the tables, and of the logs if no statement fails
(`sound`); they tell of no others if nothing is deleted (`exact`). -/
structure Reported (P : Platform) (sound exact : Prop) (s : Store UInt64) : Prop where
  saved : s.saved = none
  traces : ∀ sp ∈ s.db.spans, sp.traceID ∈ toldTraces (announced P s)
  logs : sound → (s.db.logs.map StoredLog.row).Sublist (toldLogs (announced P s))
  onlyTraces : exact → ∀ id ∈ toldTraces (announced P s), ∃ sp ∈ s.db.spans, sp.traceID = id
  onlyLogs : exact → (toldLogs (announced P s)).Sublist (s.db.logs.map StoredLog.row)

variable {sound exact : Prop} {s t : Store UInt64}

theorem announced_congr (h : t.mem.dispatched = s.mem.dispatched) :
    announced P t = announced P s := by
  rw [announced, h, announced]

/-- One more event was announced. -/
theorem announced_append {ev : CommitEvent UInt64}
    (h : t.mem.dispatched = s.mem.dispatched ++ [ev]) :
    announced P t = announced P s ++ eventNews P ev := by
  rw [announced, h, List.flatMap_append, List.flatMap_singleton]
  rfl

/-- Neither the facts nor the events change. -/
theorem Reported.keep (h : Reported P sound exact s) (hsaved : t.saved = none)
    (hspans : t.db.spans = s.db.spans) (hlogs : t.db.logs = s.db.logs)
    (hnews : announced P t = announced P s) : Reported P sound exact t := by
  refine ⟨hsaved, ?_, ?_, ?_, ?_⟩ <;> rw [hnews]
  · exact hspans ▸ h.traces
  · exact hlogs ▸ h.logs
  · exact hspans ▸ h.onlyTraces
  · exact hlogs ▸ h.onlyLogs

theorem Reported.shrink (h : Reported P sound exact s) (hexact : ¬ exact) (hs : Shrinks s t) :
    Reported P sound exact t := by
  have hnews : announced P t = announced P s := announced_congr hs.dispatched
  refine ⟨hs.saved, ?_, ?_, fun h => absurd h hexact, fun h => absurd h hexact⟩ <;> rw [hnews]
  · exact fun sp hsp => h.traces sp (hs.spans hsp)
  · exact fun hsound => (hs.logs.map _).trans (h.logs hsound)

/-- A write of traces announces what it changes. -/
theorem Reported.writeTraces (h : Reported P sound exact s) {batch : TraceBatch}
    {refreshedAt now : Time} {faults : List Bool}
    (ht : t = (Storage.writeTraces batch refreshedAt now (s.withFaults faults)).2) :
    Reported P sound exact t := by
  obtain ⟨p, hp, hsaved, hcases⟩ :=
    writeTraces_cases (s := s.withFaults faults) batch refreshedAt now h.saved ht
  have hspans : p.db.spans = s.db.spans := by rw [hp.rest]; rfl
  have hlogs : p.db.logs = s.db.logs := by rw [hp.rest]; rfl
  rcases hcases with ⟨hdb, hmem, -⟩ | ⟨inserted, dropped, w, -, hc, -, hmem, -⟩
  · refine h.keep hsaved (hdb ▸ hspans) (hdb ▸ hlogs) (announced_congr ?_)
    rw [hmem]
    exact hp.dispatched
  · replace hlogs : t.db.logs = s.db.logs := by rw [hc.wrote.rest]; exact hlogs
    have hnews : announced P t = announced P s ++ eventNews P (.traces (w.event batch)) := by
      refine announced_append ?_
      rw [hmem]
      exact congrArg (· ++ _) hp.dispatched
    have htraces : ∀ id, id ∈ toldTraces (announced P s ++ eventNews P (.traces (w.event batch))) ↔
        (id ∈ toldTraces (announced P s) ∧ id ∉ dropped) ∨
          ∃ r ∈ inserted, r.traceID ∉ dropped ∧ r.traceID = id := by
      intro id
      have hdropped : id ∈ w.droppedTraceIDs ↔ id ∈ dropped := by
        rw [hc.droppedTraceIDs, mem_sortStrings]
      have hsummaries : id ∈ w.summaries.map TraceSummary.traceID ↔
          ∃ r ∈ inserted, r.traceID ∉ dropped ∧ r.traceID = id := by
        rw [hc.mem_summaries, hc.retained]
        simp only [List.mem_filter, decide_eq_true_eq, and_assoc]
      rw [toldTraces_traces, Finset.mem_union, Finset.mem_sdiff, List.mem_toFinset,
        List.mem_toFinset]
      exact or_congr (and_congr_right fun _ => not_congr hdropped) hsummaries
    have hstored : ∀ sp, sp ∈ t.db.spans ↔
        (sp ∈ s.db.spans ∨ ∃ r ∈ inserted, r.stored now = sp) ∧ sp.traceID ∉ dropped := by
      intro sp
      rw [hc.wrote.spans, List.mem_filter, List.mem_append, List.mem_map, decide_eq_true_eq,
        hspans]
    refine ⟨hsaved, ?_, ?_, ?_, ?_⟩ <;> rw [hnews]
    · intro sp hsp
      rw [htraces]
      obtain ⟨hsp | ⟨r, hr, rfl⟩, hkept⟩ := (hstored sp).mp hsp
      · exact Or.inl ⟨h.traces sp hsp, hkept⟩
      · exact Or.inr ⟨r, hr, hkept, rfl⟩
    · rw [hlogs, toldLogs_append, toldLogs_traces, List.append_nil]
      exact h.logs
    · intro hexact id hid
      rcases (htraces id).mp hid with ⟨hid, hkept⟩ | ⟨r, hr, hkept, rfl⟩
      · obtain ⟨sp, hsp, rfl⟩ := h.onlyTraces hexact id hid
        exact ⟨sp, (hstored sp).mpr ⟨Or.inl hsp, hkept⟩, rfl⟩
      · exact ⟨r.stored now, (hstored _).mpr ⟨Or.inr ⟨r, hr, rfl⟩, hkept⟩, rfl⟩
    · intro hexact
      rw [hlogs, toldLogs_append, toldLogs_traces, List.append_nil]
      exact h.onlyLogs hexact

theorem Reported.writeMetrics (h : Reported P sound exact s) {batch : MetricBatch UInt64}
    {now ingestedAt : Time} {faults : List Bool}
    (ht : t = (Storage.writeMetrics batch now ingestedAt (s.withFaults faults)).2) :
    Reported P sound exact t := by
  obtain ⟨hsaved, ⟨hdb, hmem, -⟩ | ⟨hwritten, -, hmem⟩⟩ :=
    writeMetrics_cases (s := s.withFaults faults) batch now ingestedAt h.saved ht
  · exact h.keep hsaved (congrArg Db.spans hdb) (congrArg Db.logs hdb) (announced_congr hmem)
  · refine h.keep hsaved (by rw [hwritten.rest]; rfl) (by rw [hwritten.rest]; rfl) ?_
    split at hmem
    · exact announced_congr (hmem.trans (List.append_nil _))
    · exact (announced_append hmem).trans (List.append_nil _)

/-- Rows that a failed append leaves are stored and not told of. -/
theorem Reported.writeLogs (h : Reported P sound exact s) {batch : LogBatch} {now : Time}
    {faults : List Bool} (hsound : sound → faults = [])
    (ht : t = (Storage.writeLogs batch now (s.withFaults faults)).2) :
    Reported P sound exact t := by
  obtain ⟨p, rows, hp, hsaved, -, hdb, hprefix, -, hcases⟩ :=
    writeLogs_cases (s := s.withFaults faults) batch now ht
  have hspans : t.db.spans = s.db.spans := by rw [hdb, hp.rest]; rfl
  have hlogs : t.db.logs.map StoredLog.row = s.db.logs.map StoredLog.row ++ rows := by
    rw [hdb, List.map_append, List.map_map, hp.rest]
    exact congrArg (_ ++ ·) (List.map_id rows)
  rcases hcases with ⟨hmem, hfailed⟩ | ⟨hmem, -, rfl, -⟩
  · have hnews : announced P t = announced P s := announced_congr hmem
    refine ⟨hsaved.trans h.saved, ?_, ?_, ?_, ?_⟩ <;> rw [hnews]
    · exact hspans ▸ h.traces
    · intro hs
      have hfaults : (s.withFaults faults).faults = [] := hsound hs
      obtain ⟨_, _, hret, -⟩ := writeLogs_succeeds batch now hfaults
      have hnil : rows = [] := by
        rw [hfailed (congrArg Prod.fst hret)] at hprefix
        exact List.prefix_nil.mp hprefix
      rw [hlogs, hnil, List.append_nil]
      exact h.logs hs
    · exact hspans ▸ h.onlyTraces
    · intro hexact
      rw [hlogs]
      exact (h.onlyLogs hexact).trans (List.sublist_append_left _ _)
  · have hnews : announced P t = announced P s ++ eventNews P (.logs batch) := announced_append hmem
    refine ⟨hsaved.trans h.saved, ?_, ?_, ?_, ?_⟩ <;> rw [hnews]
    · rw [toldTraces_logs, hspans]
      exact h.traces
    · intro hs
      rw [toldLogs_append, toldLogs_logs, hlogs]
      exact (h.logs hs).append (.refl _)
    · rw [toldTraces_logs, hspans]
      exact h.onlyTraces
    · intro hexact
      rw [toldLogs_append, toldLogs_logs, hlogs]
      exact (h.onlyLogs hexact).append (.refl _)

/-! ### Runs -/

/-- The message deletes facts. -/
def deletes : WriterMsg UInt64 → Bool
  | .sweep | .clear => true
  | _ => false

theorem Reported.after (h : Reported P sound exact s) {c : Conditions} {msg : WriterMsg UInt64}
    {op : Op UInt64} (hop : operation c msg = some op) (hsound : sound → c.faults = [])
    (hexact : exact → deletes msg = false) :
    Reported P sound exact (s.after P.sub op c.faults) := by
  cases msg with
  | traces batch =>
      cases hop
      exact h.writeTraces rfl
  | metrics batch =>
      cases hop
      exact h.writeMetrics rfl
  | logs batch =>
      cases hop
      exact h.writeLogs hsound rfl
  | sync => cases hop
  | sweep =>
      cases hop
      exact h.shrink (fun he => by cases hexact he) (sweep_shrinks P.sub h.saved c)
  | clear =>
      cases hop
      exact h.shrink (fun he => by cases hexact he) (clear_shrinks P.sub h.saved c.faults)

/-- The step asks for a deletion of facts. -/
def PipelineAction.deletes : PipelineAction → Bool
  | .sweep | .clear => true
  | _ => false

/-- The step does not meet a statement that fails. -/
def PipelineAction.faultless : PipelineAction → Bool
  | .write c _ => c.faults.isEmpty
  | _ => true

/-- The store, and no deletion in the queue of the writer if `exact`. -/
structure Pipeline.Tells (P : Platform) (sound exact : Prop) (s : Pipeline) : Prop where
  store : Reported P sound exact s.store
  messages : exact → ∀ x ∈ s.queue.buffer ++ s.writer.toList, deletes x.2 = false

theorem Pipeline.Tells.push {s : Pipeline} (h : s.Tells P sound exact) (p : Payload)
    (env : TraceEnvironment) : (s.push p env).Tells P sound exact := by
  refine ⟨h.store, fun hexact x hx => ?_⟩
  rcases List.mem_append.mp hx with hx | hx
  · unfold Pipeline.push at hx
    dsimp only at hx
    split at hx
    · next y hy =>
        rcases mem_offer hx with hx | rfl
        · exact h.messages hexact x (List.mem_append_left _ hx)
        · rw [(push_spec env p).2 x hy]
          cases p <;> rfl
    · exact h.messages hexact x (List.mem_append_left _ hx)
  · exact h.messages hexact x (List.mem_append_right _ hx)

theorem Pipeline.Tells.request {s t : Pipeline} (h : s.Tells P sound exact) {msg : WriterMsg UInt64}
    (hmsg : ¬ exact) (hstep : s.request msg = some t) : t.Tells P sound exact := by
  obtain ⟨queue, -, rfl⟩ := Option.map_eq_some_iff.mp hstep
  exact ⟨h.store, fun hexact => absurd hexact hmsg⟩

theorem Pipeline.Tells.run {s t : Pipeline} (h : s.Tells P sound exact) (hstep : s.run = some t) :
    t.Tells P sound exact := by
  unfold Pipeline.run at hstep
  split at hstep
  · next x queue hwriter hrecv =>
      cases hstep
      obtain ⟨hbuffer, -⟩ := Channel.recv_eq_item hrecv
      refine ⟨h.store, fun hexact y hy => h.messages hexact y ?_⟩
      rw [hbuffer]
      simp only [Option.toList_some, List.mem_append, List.mem_cons] at hy ⊢
      tauto
  · cases hstep

/-- The writer keeps the messages in step with the tables. -/
theorem Pipeline.Tells.write {s t : Pipeline} (h : s.Tells P sound exact) {c : Conditions}
    {started : Nat} (hsound : sound → c.faults = []) (hstep : s.write P c started = some t) :
    t.Tells P sound exact := by
  have hqueue : exact → ∀ x ∈ s.queue.buffer ++ (none : Option Queued).toList,
      deletes x.2 = false := by
    intro hexact x hx
    exact h.messages hexact x (List.mem_append_left _ (by simpa using hx))
  unfold Pipeline.write at hstep
  split at hstep
  · cases hstep
  · next x hx =>
      split at hstep
      · cases hstep
        exact ⟨h.store, hqueue⟩
      · next op hop =>
          cases hstep
          refine ⟨h.store.after hop hsound fun hexact => h.messages hexact x ?_, hqueue⟩
          simp [hx]

/-- `runCommits` leaves the writer alone. -/
theorem Pipeline.runCommits_frame {s t : Pipeline} {connected queryOk : Bool}
    (hstep : s.runCommits P connected queryOk = some t) :
    t.store = s.store ∧ t.queue = s.queue ∧ t.writer = s.writer := by
  unfold Pipeline.runCommits at hstep
  split at hstep
  · cases hstep
    exact ⟨rfl, rfl, rfl⟩
  · split at hstep <;> cases hstep
    exact ⟨rfl, rfl, rfl⟩
  · split at hstep
    · split at hstep <;> cases hstep <;> exact ⟨rfl, rfl, rfl⟩
    · cases hstep
      exact ⟨rfl, rfl, rfl⟩
  all_goals
    cases hstep
    exact ⟨rfl, rfl, rfl⟩

/-- So does every step. -/
theorem Pipeline.Tells.step {s t : Pipeline} (h : s.Tells P sound exact) {a : PipelineAction}
    (hsound : sound → a.faultless = true) (hexact : exact → a.deletes = false)
    (hstep : s.step P a = some t) : t.Tells P sound exact := by
  cases a with
  | push p env =>
      cases hstep
      exact h.push p env
  | sweep | clear => exact h.request (fun he => by cases hexact he) hstep
  | exportSpans td env =>
      obtain ⟨-, heq⟩ := Option.ite_none_right_eq_some.mp hstep
      cases heq
      exact ⟨(h.push (.traces td) env).store, (h.push (.traces td) env).messages⟩
  | run => exact h.run hstep
  | write c started => exact h.write (fun hs => List.isEmpty_iff.mp (hsound hs)) hstep
  | runCommits connected queryOk =>
      obtain ⟨hstore, hqueue, hwriter⟩ := Pipeline.runCommits_frame hstep
      exact ⟨hstore ▸ h.store, by rw [hqueue, hwriter]; exact h.messages⟩
  | dispatch =>
      replace hstep : s.dispatch = some t := hstep
      unfold Pipeline.dispatch at hstep
      split at hstep
      · cases hstep
        exact ⟨h.store, h.messages⟩
      · cases hstep

/-- In every run the messages and those under way tell of the tables. -/
theorem pipeline_tells {actions : List PipelineAction} {s : Pipeline}
    (hs : (pipeline P).run actions = some s)
    (hsound : sound → ∀ a ∈ actions, a.faultless = true)
    (hexact : exact → ∀ a ∈ actions, a.deletes = false) : s.Tells P sound exact := by
  refine Machine.run_induction (m := pipeline P)
    (I := fun actions s => (sound → ∀ a ∈ actions, a.faultless = true) →
      (exact → ∀ a ∈ actions, a.deletes = false) → s.Tells P sound exact)
    ?_ ?_ hs hsound hexact
  · intro _ _
    refine ⟨⟨rfl, fun sp hsp => ?_, fun _ => .refl _, fun _ id hid => ?_, fun _ => .refl _⟩,
      fun _ x hx => ?_⟩
    · cases hsp
    · cases hid
    · cases hx
  · intro actions s a t ih hstep hfaultless hdeletes
    have hbefore : ∀ b ∈ actions, b ∈ actions ++ [a] := fun b => List.mem_append_left _
    have hlast : a ∈ actions ++ [a] := List.mem_append_right _ (List.mem_singleton_self a)
    exact (ih (fun hs b hb => hfaultless hs b (hbefore b hb))
      fun he b hb => hdeletes he b (hbefore b hb)).step
        (fun hs => hfaultless hs a hlast) (fun he => hdeletes he a hlast) hstep

/-- When nothing was lost and nothing is under way, each trace with spans was told of, and while
no statement fails each row of the logs was, the rows in their order.  While no sweep and no clear
is asked for, no other trace was told of and no row that is not stored, in the order of the
table. -/
theorem live_tables {actions : List PipelineAction} {s : Pipeline}
    (hs : (pipeline P).run actions = some s) (hlost : s.lost = false)
    (hdone : s.underWay P = []) :
    (∀ sp ∈ s.store.db.spans, sp.traceID ∈ toldTraces s.received) ∧
      ((∀ a ∈ actions, a.faultless = true) →
        (s.store.db.logs.map StoredLog.row).Sublist (toldLogs s.received)) ∧
      ((∀ a ∈ actions, a.deletes = false) →
        (∀ id ∈ toldTraces s.received, ∃ sp ∈ s.store.db.spans, sp.traceID = id) ∧
          (toldLogs s.received).Sublist (s.store.db.logs.map StoredLog.row)) := by
  have hnews : announced P s.store = news s.received := by
    have hall := (pipeline_flows hs).carries.2 hlost
    rw [hdone, List.append_nil] at hall
    exact hall.symm
  have htells : s.Tells P (∀ a ∈ actions, a.faultless = true)
      (∀ a ∈ actions, a.deletes = false) := pipeline_tells hs id id
  obtain ⟨-, htraces, hlogs, honlyTraces, honlyLogs⟩ := htells.store
  rw [hnews, toldTraces_news] at htraces honlyTraces
  rw [hnews, toldLogs_news] at hlogs honlyLogs
  exact ⟨htraces, hlogs, fun hquiet => ⟨honlyTraces hquiet, honlyLogs hquiet⟩⟩

theorem live_tables_sample :
    ∃ s, (pipeline samplePlatform).run sampleDelivery = some s ∧ s.store.db.spans.length = 1 ∧
      ∀ sp ∈ s.store.db.spans, sp.traceID ∈ toldTraces s.received := by
  have hrun : ((pipeline samplePlatform).run sampleDelivery).map
      (fun s => (s.store.db.spans.length, s.lost, (s.underWay samplePlatform).isEmpty)) =
        some (1, false, true) := by decide +kernel
  obtain ⟨s, hs, hfinal⟩ := Option.map_eq_some_iff.mp hrun
  simp only [Prod.mk.injEq, List.isEmpty_iff] at hfinal
  exact ⟨s, hs, hfinal.1, (live_tables hs hfinal.2.1 hfinal.2.2).1⟩

end Ingest
end Otelop
