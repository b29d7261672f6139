import Mathlib.Algebra.Order.Monoid.Prod
import Mathlib.Tactic
import Otelop.Ingest.Pipeline
import Otelop.Storage.FailedClear

/-!
# The work that is left in the pipeline

How many steps and spans the payloads, events and messages in the queues still give rise to.  A
write dispatches one event at most, a delivery makes no more calls than its events have rows, and
none of them starts a span where tracing is suppressed.

**Results.**
* `operation_dispatches`: what the writer hands on.
* `newBatch_work`: what a delivery costs.
* `Advances`: what a step of the writer, of `runCommits` and of the hub does.
-/

namespace Otelop
namespace Ingest

open Lib Stmt Storage
open Broadcast (prepareMetricBroadcast broadcastMetricPlan broadcastTraces)

/-! ### What a write dispatches -/

/-- The rows of a message. -/
def messageRows : WriterMsg UInt64 → Nat
  | .traces batch => batch.spans.length
  | .metrics batch => batch.points.length
  | .logs batch => batch.logs.length
  | .sync | .sweep | .clear => 0

/-- A bound on the messages that an event gives rise to. -/
def eventMessages : CommitEvent UInt64 → Nat
  | .traces batch => batch.droppedTraceIDs.length + batch.summaries.length
  | .metrics batch => batch.points.length
  | .logs batch => batch.logs.length

/-- Each trace that the batch added spans to is dropped or has a summary. -/
theorem messages_le_rows
    {rows inserted : List SpanRow} {now : Time} {dropped : List String} {db db' : Db UInt64}
    {w : WrittenTraces} (h : CommittedTraces rows now inserted dropped db db' w) :
    w.droppedTraceIDs.length + w.summaries.length ≤ rows.length := by
  have hdropped : w.droppedTraceIDs.length = dropped.length := by
    rw [h.droppedTraceIDs, sortStrings, List.length_insertionSort]
  have hnodup : (dropped ++ w.summaries.map TraceSummary.traceID).Nodup := by
    refine List.nodup_append'.mpr ⟨h.dropped_nodup, h.summaries_nodup, ?_⟩
    intro id hid hid'
    obtain ⟨r, hr, rfl⟩ := (h.mem_summaries id).mp hid'
    rw [h.retained, List.mem_filter] at hr
    exact of_decide_eq_true hr.2 hid
  have hsub : dropped ++ w.summaries.map TraceSummary.traceID ⊆ inserted.map SpanRow.traceID := by
    intro id hid
    rcases List.mem_append.mp hid with hid | hid
    · obtain ⟨r, hr, rfl⟩ := ((h.wrote.dropped_iff id).mp hid).1
      exact List.mem_map_of_mem hr
    · obtain ⟨r, hr, rfl⟩ := (h.mem_summaries id).mp hid
      rw [h.retained] at hr
      exact List.mem_map_of_mem (List.mem_of_mem_filter hr)
  have hle := (hnodup.subperm hsub).length_le
  obtain ⟨keys, -, rfl⟩ := h.inserted_eq
  have hins : (distinctBy SpanRow.key keys rows).length ≤ rows.length :=
    (distinctBy_sublist rows keys).length_le
  rw [List.length_append, List.length_map, List.length_map] at hle
  omega

/-- Facts are deleted, and nothing else of interest happens. -/
structure Shrinks (s t : Store UInt64) : Prop where
  saved : t.saved = none
  dispatched : t.mem.dispatched = s.mem.dispatched
  spans : t.db.spans ⊆ s.db.spans
  logs : t.db.logs.Sublist s.db.logs

/-- A sweep only deletes facts. -/
theorem performSweep_shrinks (sub : Time → Time → Int) (s : Store UInt64) (opts : SweepOptions)
    (now : Time) (sizeFn : Nat → Except String Int) :
    Preserves (Shrinks s) (performSweep sub opts now sizeFn) := by
  have hbetween : Between (Shrinks s) :=
    { saved := fun _ h => h.saved
      congr := fun _ _ h hdb hmem hsaved =>
        ⟨hsaved, hmem ▸ h.dispatched, hdb ▸ h.spans, hdb ▸ h.logs⟩ }
  refine performSweep_preserves hbetween (fun cutoff => ?_) ?_ opts now sizeFn
  · refine deleteFactsBefore_preserves hbetween cutoff fun t t' h hd hsaved hmem => ?_
    refine ⟨hsaved, hmem ▸ h.dispatched, fun sp hsp => ?_, ?_⟩
    · rw [hd.spans] at hsp
      exact h.spans (List.mem_of_mem_filter hsp)
    · rw [hd.logs]
      exact List.filter_sublist.trans h.logs
  · refine pruneDimensions_preserves fun t t' h hp => ⟨hp.saved.trans h.saved, ?_, ?_, ?_⟩
    · rcases hp.cache with ⟨-, hmem⟩ | hmem <;> rw [hmem]
      · exact h.dispatched
      · exact h.dispatched
    · exact (congrArg Db.spans hp.rest) ▸ h.spans
    · exact (congrArg Db.logs hp.rest) ▸ h.logs

theorem clearSteps_shrink : ∀ step ∈ clearSteps (V := UInt64), ∀ db,
    (step.2 db).spans ⊆ db.spans ∧ (step.2 db).logs.Sublist db.logs := by
  simp [clearSteps]

/-- A clear only deletes facts. -/
theorem performClear_shrinks (s : Store UInt64) : Preserves (Shrinks s) performClear := by
  have hF := preserves_frame (Shrinks s)
  have heach : ∀ steps : List (String × (Db UInt64 → Db UInt64)),
      (∀ step ∈ steps, ∀ db, (step.2 db).spans ⊆ db.spans ∧ (step.2 db).logs.Sublist db.logs) →
      Preserves (Shrinks s) (each (fun step => exec step.1 step.2) steps) := by
    intro steps
    induction steps with
    | nil => exact fun _ => stays_pure hF ()
    | cons step steps ih =>
        intro hsteps
        refine stays_bind hF (stays_exec (fun t h => ⟨h.1, h.2, h.3, h.4⟩) fun t h => ?_)
          fun _ => ih fun step hstep => hsteps step (List.mem_cons_of_mem _ hstep)
        obtain ⟨hspans, hlogs⟩ := hsteps step (List.mem_cons_self ..) t.db
        exact ⟨h.saved, h.dispatched, fun sp hsp => h.spans (hspans hsp), hlogs.trans h.logs⟩
  rw [performClear_eq]
  refine stays_bind hF (heach _ clearSteps_shrink) fun _ => ?_
  exact fun t h => ⟨h.saved, h.dispatched, h.spans, h.logs⟩

theorem sweep_shrinks (sub : Time → Time → Int) {s : Store UInt64} (hs : s.saved = none)
    (c : Conditions) : Shrinks s (s.after sub (.sweep c.opts c.first c.sizeFn) c.faults) := by
  have hF := preserves_frame (Shrinks s)
  exact stays_bind hF (performSweep_shrinks sub s c.opts c.first c.sizeFn)
    (fun _ => stays_pure hF ()) (s.withFaults c.faults) ⟨hs, rfl, fun _ h => h, .refl _⟩

theorem clear_shrinks (sub : Time → Time → Int) {s : Store UInt64} (hs : s.saved = none)
    (faults : List Bool) : Shrinks s (s.after sub .clear faults) :=
  performClear_shrinks s (s.withFaults faults) ⟨hs, rfl, fun _ h => h, .refl _⟩

/-- The events of a step are those that came behind the ones from before. -/
theorem newEvents_append {s t : Store UInt64} {events : List (CommitEvent UInt64)}
    (h : t.mem.dispatched = s.mem.dispatched ++ events) : newEvents s t = events := by
  rw [newEvents, h, List.drop_left]

/-- An operation of the writer dispatches no event, or one, which has no more messages than the
message of the writer has rows. -/
theorem operation_dispatches (sub : Time → Time → Int) {c : Conditions} {msg : WriterMsg UInt64}
    {op : Op UInt64} (hop : operation c msg = some op) {s : Store UInt64} (hs : s.saved = none) :
    (s.after sub op c.faults).saved = none ∧
      ∃ events, (s.after sub op c.faults).mem.dispatched = s.mem.dispatched ++ events ∧
        events.length ≤ 1 ∧ ∀ ev ∈ events, eventMessages ev ≤ messageRows msg := by
  have hone : ∀ {t : Store UInt64} {ev : CommitEvent UInt64},
      t.mem.dispatched = s.mem.dispatched ++ [ev] → eventMessages ev ≤ messageRows msg →
      ∃ events, t.mem.dispatched = s.mem.dispatched ++ events ∧ events.length ≤ 1 ∧
        ∀ ev ∈ events, eventMessages ev ≤ messageRows msg := by
    intro t ev ht hle
    exact ⟨[ev], ht, le_rfl, fun _ h => List.mem_singleton.mp h ▸ hle⟩
  have hnone : ∀ {t : Store UInt64}, t.mem.dispatched = s.mem.dispatched →
      ∃ events, t.mem.dispatched = s.mem.dispatched ++ events ∧ events.length ≤ 1 ∧
        ∀ ev ∈ events, eventMessages ev ≤ messageRows msg := by
    intro t ht
    exact ⟨[], ht.trans (List.append_nil _).symm, Nat.zero_le _,
      fun _ h => absurd h List.not_mem_nil⟩
  cases msg with
  | traces batch =>
      cases hop
      obtain ⟨p, hp, hsaved, ⟨-, hmem, -⟩ | ⟨inserted, dropped, w, -, hc, -, hmem, -⟩⟩ :=
        writeTraces_cases (s := s.withFaults c.faults) batch c.first c.second hs rfl
      · exact ⟨hsaved, hnone ((congrArg WriterMem.dispatched hmem).trans hp.dispatched)⟩
      · refine ⟨hsaved, @hone _ (.traces (w.event batch)) ?_ ?_⟩
        · rw [Store.after, Op.perform, hmem]
          exact congrArg (· ++ _) hp.dispatched
        · exact (messages_le_rows hc).trans (List.length_filter_le _ _)
  | metrics batch =>
      cases hop
      obtain ⟨hsaved, ⟨-, hmem, -⟩ | ⟨-, -, hmem⟩⟩ :=
        writeMetrics_cases (s := s.withFaults c.faults) batch c.first c.second hs rfl
      · exact ⟨hsaved, hnone hmem⟩
      · refine ⟨hsaved, ?_⟩
        split at hmem
        · exact hnone (hmem.trans (List.append_nil _))
        · exact hone hmem le_rfl
  | logs batch =>
      cases hop
      obtain ⟨p, rows, -, hsaved, -, -, -, -, ⟨hmem, -⟩ | ⟨hmem, -⟩⟩ :=
        writeLogs_cases (s := s.withFaults c.faults) batch c.first rfl
      · exact ⟨hsaved.trans hs, hnone hmem⟩
      · exact ⟨hsaved.trans hs, hone hmem le_rfl⟩
  | sync => cases hop
  | sweep =>
      cases hop
      have hsweep := sweep_shrinks sub hs c
      exact ⟨hsweep.saved, hnone hsweep.dispatched⟩
  | clear =>
      cases hop
      have hclear := clear_shrinks sub hs c.faults
      exact ⟨hclear.saved, hnone hclear.dispatched⟩

/-! ### What a delivery gives rise to -/

theorem rows_insertIgnore_length_le {κ ρ : Type} [DecidableEq κ] {key : ρ → κ}
    (t : KeyedTable κ ρ key) (r : ρ) :
    (t.insertIgnore r).rows.length ≤ t.rows.length + 1 := by
  unfold KeyedTable.insertIgnore
  split
  · omega
  · rw [List.length_append, List.length_singleton]

/-- A batch has at most as many groups as points. -/
theorem groups_length_le (batch : MetricBatch UInt64) :
    (prepareMetricBroadcast batch).groups.rows.length ≤ batch.points.length := by
  have hfold : ∀ (points : List (MetricPointRow UInt64)) groups,
      (points.foldl (Broadcast.addPoint (Broadcast.seriesInfo batch)) groups).rows.length ≤
        groups.rows.length + points.length := by
    intro points
    induction points with
    | nil => exact fun _ => le_rfl
    | cons point points ih =>
        intro groups
        refine (ih _).trans ?_
        have hone : (Broadcast.addPoint (Broadcast.seriesInfo batch) groups point).rows.length ≤
            groups.rows.length + 1 := by
          unfold Broadcast.addPoint
          split
          · omega
          · rw [KeyedTable.update, List.length_map]
            exact rows_insertIgnore_length_le _ _
        rw [List.length_cons]
        omega
  have h := hfold batch.points .empty
  rwa [show (KeyedTable.empty : Broadcast.OrderedMap Broadcast.MetricKey
    Broadcast.MetricBroadcastGroup).rows.length = 0 from rfl, Nat.zero_add] at h

/-- A batch makes at most as many calls as it has points. -/
theorem planCalls_length_le (derived : Broadcast.MetricKey → List (DerivedPoint UInt64))
    (ctx : Context) (batch : MetricBatch UInt64) :
    (planCalls derived (ctx, prepareMetricBroadcast batch)).length ≤ batch.points.length := by
  rw [planCalls, List.length_map]
  exact (List.length_filterMap_le _ _).trans (groups_length_le batch)

/-! ### The work that is left -/

/-- Steps and spans to come, of which there are none while tracing is suppressed. -/
def charge (ctx : Context) (steps spans : Nat) : Nat × Nat :=
  (steps, if ctx.suppressed then 0 else spans)

def dispatchWork (call : Call) : Nat × Nat := charge call.1 1 1

def callWork (call : Call) : Nat × Nat := charge call.1 2 2

/-- A job that is held, with the calls that it gives rise to. -/
def heldWork (job : Job) : Nat × Nat :=
  charge job.1 (2 * eventMessages job.2) (4 + 2 * eventMessages job.2)

def jobWork (job : Job) : Nat × Nat :=
  charge job.1 (4 + 2 * eventMessages job.2) (4 + 2 * eventMessages job.2)

def writeWork (x : Queued) : Nat × Nat :=
  charge x.1 (5 + 2 * messageRows x.2) (4 + (writeSpans x.2).length + 2 * messageRows x.2)

def queuedWork (x : Queued) : Nat × Nat :=
  charge x.1 (6 + 2 * messageRows x.2) (5 + (writeSpans x.2).length + 2 * messageRows x.2)

def total {α : Type} (work : α → Nat × Nat) (l : List α) : Nat × Nat := (l.map work).sum

def Delivery.work : Delivery → Nat × Nat
  | .top pending => total jobWork pending.toList
  | .draining jobs => (3, 0) + total heldWork jobs
  | .calling jobs pending => (2, 0) + total heldWork jobs + total jobWork pending.toList
  | .sending calls pending => (1, 0) + total callWork calls + total jobWork pending.toList

/-- A bound on the steps and on the spans that the work in the queues gives rise to. -/
def Pipeline.work (s : Pipeline) : Nat × Nat :=
  total queuedWork s.queue.buffer + total writeWork s.writer.toList +
    total jobWork s.commitCh.buffer + s.delivery.work + total dispatchWork s.broadcast.buffer

section Total

variable {α β : Type} {work : α → Nat × Nat}

@[simp] theorem total_nil : total work [] = 0 := rfl

@[simp] theorem total_cons (x : α) (l : List α) : total work (x :: l) = work x + total work l := by
  rw [total, List.map_cons, List.sum_cons, total]

@[simp] theorem total_append (l l' : List α) :
    total work (l ++ l') = total work l + total work l' := by
  rw [total, List.map_append, List.sum_append, total, total]

/-- A bound on every part bounds the whole. -/
theorem total_flatMap_le {bound : β → Nat × Nat} {f : β → List α}
    (h : ∀ y, total work (f y) ≤ bound y) (l : List β) :
    total work (l.flatMap f) ≤ total bound l := by
  induction l with
  | nil => exact le_rfl
  | cons y l ih =>
      rw [List.flatMap_cons, total_append, total_cons]
      exact add_le_add (h y) ih

/-- A bound on what is kept bounds the whole. -/
theorem total_filterMap_le {bound : β → Nat × Nat} {f : β → Option α}
    (h : ∀ y x, f y = some x → work x ≤ bound y) (l : List β) :
    total work (l.filterMap f) ≤ total bound l := by
  induction l with
  | nil => exact le_rfl
  | cons y l ih =>
      rw [total_cons]
      cases hf : f y with
      | none =>
          rw [List.filterMap_cons_none hf]
          exact le_add_left ih
      | some x =>
          rw [List.filterMap_cons_some hf, total_cons]
          exact add_le_add (h y x hf) ih

end Total

/-- A started span. -/
def spanWork (_ : StartedSpan) : Nat × Nat := (0, 1)

/-- Spans that are started count one each. -/
theorem total_spanWork (spans : List StartedSpan) : total spanWork spans = (0, spans.length) := by
  induction spans with
  | nil => rfl
  | cons sp spans ih =>
      rw [total_cons, ih, List.length_cons, Nat.add_comm]
      rfl

/-- A charge grows with its steps and its spans. -/
theorem charge_le {ctx : Context} {steps steps' spans spans' : Nat} (hsteps : steps ≤ steps')
    (hspans : spans ≤ spans') : charge ctx steps spans ≤ charge ctx steps' spans' := by
  refine Prod.mk_le_mk.mpr ⟨hsteps, ?_⟩
  split
  · exact le_rfl
  · exact hspans

theorem charge_add (ctx : Context) (steps steps' spans spans' : Nat) :
    charge ctx steps spans + charge ctx steps' spans' =
      charge ctx (steps + steps') (spans + spans') := by
  unfold charge
  cases ctx.suppressed <;> rfl

theorem total_startSpans (ctx : Context) (names : List String) :
    total spanWork (startSpans ctx names) = charge ctx 0 names.length := by
  rw [total_spanWork]
  unfold startSpans startSpan charge
  cases ctx.suppressed with
  | true => simp
  | false => simp

theorem total_startSpan (ctx : Context) (name : String) :
    total spanWork (startSpan ctx name) = charge ctx 0 1 := by
  have h := total_startSpans ctx [name]
  rwa [startSpans, List.flatMap_singleton] at h

/-- The work of one call for every element. -/
theorem total_callWork {α : Type} (ctx : Context) (message : α → Message) (l : List α) :
    total callWork (l.map fun x => (ctx, message x)) =
      charge ctx (2 * l.length) (2 * l.length) := by
  induction l with
  | nil =>
      unfold charge
      cases ctx.suppressed <;> rfl
  | cons x l ih =>
      rw [List.map_cons, total_cons, ih, callWork, charge_add, List.length_cons, Nat.mul_add,
        Nat.add_comm]

theorem total_add {α : Type} (f g : α → Nat × Nat) (l : List α) :
    total (fun x => f x + g x) l = total f l + total g l := List.sum_map_add

theorem total_mono {α : Type} {f g : α → Nat × Nat} (h : ∀ x, f x ≤ g x) (l : List α) :
    total f l ≤ total g l := List.sum_le_sum fun x _ => h x

/-- The part of `heldWork` that is left to the listener. -/
def deliveredWork (job : Job) : Nat × Nat :=
  charge job.1 (2 * eventMessages job.2) (3 + 2 * eventMessages job.2)

/-- What `deliverMetrics` makes of one plan. -/
def planWork (derived : Broadcast.MetricKey → List (DerivedPoint UInt64))
    (plan : Context × Broadcast.MetricBroadcastPlan) : Nat × Nat :=
  charge plan.1 (2 * (planCalls derived plan).length) (1 + 2 * (planCalls derived plan).length)

theorem total_planCalls (derived : Broadcast.MetricKey → List (DerivedPoint UInt64))
    (plans : List (Context × Broadcast.MetricBroadcastPlan)) (name : String) :
    total spanWork (plans.flatMap fun plan => startSpan plan.1 name) +
        total callWork (plans.flatMap (planCalls derived)) ≤
      total (planWork derived) plans := by
  have hsplit : total (planWork derived) plans = total (fun plan => charge plan.1 0 1) plans +
      total (fun plan => charge plan.1 (2 * (planCalls derived plan).length)
        (2 * (planCalls derived plan).length)) plans := by
    rw [← total_add]
    refine congrArg (total · plans) (funext fun plan => ?_)
    rw [charge_add, planWork, Nat.zero_add]
  rw [hsplit]
  refine add_le_add (total_flatMap_le (fun plan => ?_) plans)
    (total_flatMap_le (fun plan => ?_) plans)
  · exact (total_startSpan plan.1 name).le
  · rw [planCalls, total_callWork, List.length_map]

/-- The plans of some jobs cost no more than the jobs. -/
theorem total_planWork_le (derived : Broadcast.MetricKey → List (DerivedPoint UInt64))
    (jobs : List Job) :
    total (planWork derived) (metricPlans jobs) ≤
      total (fun job => charge job.1 (2 * eventMessages job.2) (1 + 2 * eventMessages job.2))
        jobs := by
  refine total_filterMap_le (fun job plan hplan => ?_) jobs
  obtain ⟨ctx, ev⟩ := job
  cases ev with
  | traces batch | logs batch => cases hplan
  | metrics batch =>
      dsimp only at hplan
      split at hplan
      · cases hplan
      · cases hplan
        have hle := planCalls_length_le derived ctx batch
        exact charge_le (Nat.mul_le_mul_left 2 hle)
          (Nat.add_le_add_left (Nat.mul_le_mul_left 2 hle) 1)

theorem first_plan_le {plan : Context × Broadcast.MetricBroadcastPlan}
    {plans : List (Context × Broadcast.MetricBroadcastPlan)} {jobs : List Job}
    (h : metricPlans jobs = plan :: plans) (n : Nat) :
    charge plan.1 0 n ≤ total (fun job => charge job.1 0 n) jobs := by
  have hle : total (fun plan => charge plan.1 0 n) (metricPlans jobs) ≤
      total (fun job => charge job.1 0 n) jobs := by
    refine total_filterMap_le (fun job plan hplan => ?_) jobs
    obtain ⟨ctx, ev⟩ := job
    cases ev with
    | traces batch | logs batch => cases hplan
    | metrics batch =>
        dsimp only at hplan
        split at hplan
        · cases hplan
        · cases hplan
          exact le_rfl
  rw [h, total_cons] at hle
  exact le_of_add_le_of_nonneg_left hle (zero_le)

/-- The delivery of metrics costs no more than what was charged for its jobs. -/
theorem deliverMetrics_work (P : Platform) (db : Db UInt64) (queryOk : Bool) (jobs : List Job) :
    total spanWork (deliverMetrics P db queryOk jobs).1 +
        total callWork (deliverMetrics P db queryOk jobs).2 ≤
      total deliveredWork jobs := by
  have hsplit : total deliveredWork jobs = total (fun job => charge job.1 0 2) jobs +
      total (fun job => charge job.1 (2 * eventMessages job.2) (1 + 2 * eventMessages job.2))
        jobs := by
    rw [← total_add]
    refine congrArg (total · jobs) (funext fun job => ?_)
    rw [charge_add, deliveredWork]
    congr 1 <;> omega
  unfold deliverMetrics
  dsimp only
  split
  · exact zero_le
  · next first rest hplans =>
      have hfirst := first_plan_le hplans 2
      split
      · exact zero_le
      · split
        · rw [total_append, total_startSpans, hsplit, add_assoc]
          refine add_le_add hfirst ?_
          exact (total_planCalls _ _ _).trans (total_planWork_le _ jobs)
        · rw [total_startSpans, hsplit]
          exact le_add_right hfirst

/-- The delivery of one job costs no more than what was charged for it. -/
theorem deliverJob_work (P : Platform) (db : Db UInt64) (queryOk : Bool) (job : Job) :
    total spanWork (deliverJob P db queryOk job).1 +
        total callWork (deliverJob P db queryOk job).2 ≤
      deliveredWork job := by
  obtain ⟨ctx, ev⟩ := job
  cases ev with
  | traces batch =>
      rw [deliverJob, total_startSpan, total_callWork, charge_add]
      have hlength : (broadcastTraces P.iso batch).length =
          eventMessages (.traces batch) := by
        rw [broadcastTraces, List.length_append, List.length_map, List.length_map]
        rfl
      rw [hlength]
      exact charge_le (by dsimp only; omega) (by dsimp only; omega)
  | logs batch =>
      change total spanWork (startSpan ctx _) +
        total callWork ((broadcastLogs batch).map fun msg => (ctx, id msg)) ≤ _
      rw [total_startSpan, total_callWork, charge_add]
      have hlength : (broadcastLogs batch).length = eventMessages (.logs batch) :=
        List.length_map _
      rw [hlength]
      exact charge_le (by dsimp only; omega) (by dsimp only; omega)
  | metrics batch =>
      have h := deliverMetrics_work P db queryOk [(ctx, .metrics batch)]
      rwa [total_cons, total_nil, add_zero] at h

/-- A delivery pays for its spans and its calls with the work of its jobs. -/
theorem newBatch_work (P : Platform) (db : Db UInt64) (connected queryOk : Bool)
    (jobs : List Job) :
    total spanWork (deliverSpan jobs ++ (newBatch P db connected queryOk jobs).1) +
        total callWork (newBatch P db connected queryOk jobs).2 ≤
      total heldWork jobs := by
  cases jobs with
  | nil => exact zero_le
  | cons first rest =>
      have hsplit : total heldWork (first :: rest) =
          total (fun job => charge job.1 0 1) (first :: rest) +
            total deliveredWork (first :: rest) := by
        rw [← total_add]
        refine congrArg (total · (first :: rest)) (funext fun job => ?_)
        rw [deliveredWork, charge_add, heldWork]
        congr 1 <;> omega
      have hspan : total spanWork (deliverSpan (first :: rest)) ≤
          total (fun job => charge job.1 0 1) (first :: rest) := by
        rw [deliverSpan, total_startSpan, total_cons]
        exact le_add_right le_rfl
      rw [total_append, hsplit, add_assoc]
      refine add_le_add hspan ?_
      unfold newBatch
      dsimp only
      split
      · exact zero_le
      · split
        · exact deliverMetrics_work P db queryOk _
        · rw [List.flatMap_map, List.flatMap_map]
          refine le_trans (add_le_add (total_flatMap_le (fun job => le_refl
            (total spanWork (deliverJob P db queryOk job).1)) _) (total_flatMap_le (fun job => le_refl
              (total callWork (deliverJob P db queryOk job).2)) _)) ?_
          rw [← total_add]
          exact total_mono (fun job => deliverJob_work P db queryOk job) _

/-! ### One step -/

def Delivery.contexts : Delivery → List Context
  | .top pending => pending.toList.map Prod.fst
  | .draining jobs => jobs.map Prod.fst
  | .calling jobs pending => jobs.map Prod.fst ++ pending.toList.map Prod.fst
  | .sending calls pending => calls.map Prod.fst ++ pending.toList.map Prod.fst

/-- The contexts of the work in the queues. -/
def Pipeline.contexts (s : Pipeline) : List Context :=
  s.queue.buffer.map Prod.fst ++ s.writer.toList.map Prod.fst ++ s.commitCh.buffer.map Prod.fst ++
    s.delivery.contexts ++ s.broadcast.buffer.map Prod.fst

/-- The span was started in one of the contexts. -/
def StartedIn (contexts : List Context) (sp : StartedSpan) : Prop :=
  ∃ ctx ∈ contexts, ctx.suppressed = false ∧ ctx.origin = sp.origin

theorem StartedIn.mono {contexts contexts' : List Context} (h : contexts ⊆ contexts')
    {sp : StartedSpan} : StartedIn contexts sp → StartedIn contexts' sp := by
  rintro ⟨ctx, hctx, hsp⟩
  exact ⟨ctx, h hctx, hsp⟩

/-- Spans are started in the context at hand. -/
theorem startedIn_startSpans {ctx : Context} {contexts : List Context} (hctx : ctx ∈ contexts)
    {names : List String} {sp : StartedSpan} (h : sp ∈ startSpans ctx names) :
    StartedIn contexts sp := by
  obtain ⟨name, -, hsp⟩ := List.mem_flatMap.mp h
  unfold startSpan at hsp
  split at hsp
  · cases hsp
  · next hnot =>
      rw [List.mem_singleton.mp hsp]
      exact ⟨ctx, hctx, eq_false_of_ne_true hnot, rfl⟩

theorem startedIn_startSpan {ctx : Context} {contexts : List Context} (hctx : ctx ∈ contexts)
    {name : String} {sp : StartedSpan} (h : sp ∈ startSpan ctx name) : StartedIn contexts sp :=
  startedIn_startSpans hctx (List.mem_flatMap.mpr ⟨name, List.mem_singleton_self name, h⟩)

theorem metricPlans_contexts {jobs : List Job} {plan : Context × Broadcast.MetricBroadcastPlan}
    (h : plan ∈ metricPlans jobs) : plan.1 ∈ jobs.map Prod.fst := by
  obtain ⟨⟨ctx, ev⟩, hjob, hplan⟩ := List.mem_filterMap.mp h
  cases ev with
  | traces batch | logs batch => cases hplan
  | metrics batch =>
      dsimp only at hplan
      split at hplan
      · cases hplan
      · cases hplan
        exact List.mem_map_of_mem hjob

/-- The spans of a delivery are started, and its calls made, in contexts of its jobs. -/
def DeliveredIn (contexts : List Context) (r : List StartedSpan × List Call) : Prop :=
  (∀ sp ∈ r.1, StartedIn contexts sp) ∧ ∀ call ∈ r.2, call.1 ∈ contexts

theorem deliveredIn_nil (contexts : List Context) : DeliveredIn contexts ([], []) :=
  ⟨fun _ h => absurd h List.not_mem_nil, fun _ h => absurd h List.not_mem_nil⟩

/-- The delivery of metrics starts spans in the contexts of its jobs. -/
theorem deliverMetrics_contexts (P : Platform) (db : Db UInt64) (queryOk : Bool)
    (jobs : List Job) : DeliveredIn (jobs.map Prod.fst) (deliverMetrics P db queryOk jobs) := by
  unfold deliverMetrics
  dsimp only
  split
  · exact deliveredIn_nil _
  · next first rest hplans =>
      have hfirst : first.1 ∈ jobs.map Prod.fst :=
        metricPlans_contexts (hplans ▸ List.mem_cons_self)
      split
      · exact deliveredIn_nil _
      · split
        · constructor
          · intro sp hsp
            rw [List.mem_append, List.mem_flatMap] at hsp
            rcases hsp with hsp | ⟨plan, hplan, hsp⟩
            · exact startedIn_startSpans hfirst hsp
            · exact startedIn_startSpan (metricPlans_contexts hplan) hsp
          · intro call hcall
            dsimp only at hcall
            obtain ⟨plan, hplan, hcall⟩ := List.mem_flatMap.mp hcall
            obtain ⟨data, -, rfl⟩ := List.mem_map.mp hcall
            exact metricPlans_contexts hplan
        · exact ⟨fun sp hsp => startedIn_startSpans hfirst hsp,
            fun _ h => absurd h List.not_mem_nil⟩

/-- The delivery of one job starts spans in its context. -/
theorem deliverJob_contexts (P : Platform) (db : Db UInt64) (queryOk : Bool) (job : Job) :
    DeliveredIn [job.1] (deliverJob P db queryOk job) := by
  obtain ⟨ctx, ev⟩ := job
  have hctx : ctx ∈ [ctx] := List.mem_singleton_self ctx
  cases ev with
  | traces batch =>
      refine ⟨fun sp hsp => startedIn_startSpan hctx hsp, fun call hcall => ?_⟩
      obtain ⟨msg, -, rfl⟩ := List.mem_map.mp hcall
      exact hctx
  | logs batch =>
      refine ⟨fun sp hsp => startedIn_startSpan hctx hsp, fun call hcall => ?_⟩
      obtain ⟨msg, -, rfl⟩ := List.mem_map.mp hcall
      exact hctx
  | metrics batch => exact deliverMetrics_contexts P db queryOk [(ctx, .metrics batch)]

/-- A batch starts spans in the contexts of its jobs. -/
theorem newBatch_contexts (P : Platform) (db : Db UInt64) (connected queryOk : Bool)
    (jobs : List Job) :
    DeliveredIn (jobs.map Prod.fst)
      (deliverSpan jobs ++ (newBatch P db connected queryOk jobs).1,
        (newBatch P db connected queryOk jobs).2) := by
  cases jobs with
  | nil => exact deliveredIn_nil _
  | cons first rest =>
      have hfirst : first.1 ∈ (first :: rest).map Prod.fst := List.mem_cons_self
      have hbatch : DeliveredIn ((first :: rest).map Prod.fst)
          (newBatch P db connected queryOk (first :: rest)) := by
        unfold newBatch
        dsimp only
        split
        · exact deliveredIn_nil _
        · split
          · exact deliverMetrics_contexts P db queryOk _
          · have hsub : ∀ job ∈ first :: rest, [job.1] ⊆ (first :: rest).map Prod.fst := by
              intro job hjob ctx hctx
              rw [List.mem_singleton.mp hctx]
              exact List.mem_map_of_mem hjob
            rw [List.flatMap_map, List.flatMap_map]
            constructor
            · intro sp hsp
              obtain ⟨job, hjob, hsp⟩ := List.mem_flatMap.mp hsp
              exact ((deliverJob_contexts P db queryOk job).1 sp hsp).mono (hsub job hjob)
            · intro call hcall
              obtain ⟨job, hjob, hcall⟩ := List.mem_flatMap.mp hcall
              exact hsub job hjob ((deliverJob_contexts P db queryOk job).2 call hcall)
      refine ⟨fun sp hsp => ?_, hbatch.2⟩
      rw [List.mem_append] at hsp
      rcases hsp with hsp | hsp
      · exact startedIn_startSpan hfirst hsp
      · exact hbatch.1 sp hsp

section Offer

variable {α : Type} {cap : Nat}

/-- What is in a channel after an offer was there or was offered. -/
theorem mem_offer {c : Channel α cap} {x y : α} (h : y ∈ (c.offer x).buffer) :
    y ∈ c.buffer ∨ y = x := by
  rw [Channel.buffer_offer] at h
  split at h
  · simpa using h
  · simpa using Or.inl h

/-- An offer adds the work of its item at most. -/
theorem total_offer_le (work : α → Nat × Nat) (c : Channel α cap) (x : α) :
    total work (c.offer x).buffer ≤ total work c.buffer + work x := by
  rw [Channel.buffer_offer, total_append]
  refine add_le_add_right ?_ _
  split
  · rw [total_cons, total_nil, add_zero]
  · exact zero_le

end Offer

/-- What a step of the pipeline itself does: it starts spans in the contexts that there are, and
what is left to do gets less by that step and those spans. -/
structure Advances (s t : Pipeline) : Prop where
  contexts : t.contexts ⊆ s.contexts
  spans : ∃ new, t.spans = s.spans ++ new ∧ (∀ sp ∈ new, StartedIn s.contexts sp) ∧
    t.work + (1, 0) + total spanWork new ≤ s.work
  saved : s.store.saved = none → t.store.saved = none
  exported : t.exported = s.exported

/-- Receiving a message costs a step and its span. -/
theorem queuedWork_pays (x : Queued) :
    writeWork x + (1, 0) + total spanWork (waitSpan x) ≤ queuedWork x := by
  have hspan : total spanWork (waitSpan x) ≤ charge x.1 0 1 := by
    unfold waitSpan
    split
    · exact zero_le
    · exact (total_startSpan _ _).le
  refine (add_le_add_right hspan _).trans ?_
  unfold writeWork queuedWork charge
  refine Prod.mk_le_mk.mpr ⟨?_, ?_⟩
  · simp only [Prod.mk_add_mk]
    omega
  · split <;> simp only [Prod.mk_add_mk] <;> omega

theorem Pipeline.run_advances {s t : Pipeline} (h : s.run = some t) : Advances s t := by
  unfold Pipeline.run at h
  split at h
  · next x queue hwriter hrecv =>
      cases h
      obtain ⟨hbuffer, -⟩ := Channel.recv_eq_item hrecv
      have hx : x.1 ∈ s.contexts := by simp [Pipeline.contexts, hbuffer]
      refine ⟨?_, ⟨waitSpan x, rfl, fun sp hsp => ?_, ?_⟩, id, rfl⟩
      · intro ctx
        simp only [Pipeline.contexts, hbuffer, hwriter, List.mem_append, List.map_cons,
          List.mem_cons, Option.toList_some, Option.toList_none, List.map_nil, List.not_mem_nil]
        tauto
      · unfold waitSpan at hsp
        split at hsp
        · cases hsp
        · exact startedIn_startSpan hx hsp
      · have hpays := Prod.le_def.mp (queuedWork_pays x)
        refine Prod.le_def.mpr ⟨?_, ?_⟩ <;>
          simp only [Pipeline.work, hbuffer, hwriter, total_cons, total_nil, Option.toList_some,
            Option.toList_none, Prod.fst_add, Prod.snd_add, Prod.fst_zero, Prod.snd_zero]
              at hpays ⊢ <;>
          omega
  · cases h

/-- The calls of `dispatchCommit` with one context. -/
def offerEvents (ctx : Context) (ch : Channel Job commitQueueSize)
    (events : List (CommitEvent UInt64)) : Channel Job commitQueueSize :=
  events.foldl (fun ch ev => ch.offer (ctx, ev)) ch

/-- A job that is queued was there or is in the context of the events. -/
theorem mem_offerEvents {ctx : Context} {ch : Channel Job commitQueueSize}
    {events : List (CommitEvent UInt64)} {job : Job}
    (h : job ∈ (offerEvents ctx ch events).buffer) : job ∈ ch.buffer ∨ job.1 = ctx := by
  induction events generalizing ch with
  | nil => exact Or.inl h
  | cons ev events ih =>
      rcases ih h with hmem | hctx
      · rcases mem_offer hmem with hmem | rfl
        · exact Or.inl hmem
        · exact Or.inr rfl
      · exact Or.inr hctx

/-- The events of a write add their work at most. -/
theorem total_offerEvents_le (ctx : Context) (ch : Channel Job commitQueueSize)
    (events : List (CommitEvent UInt64)) :
    total jobWork (offerEvents ctx ch events).buffer ≤
      total jobWork ch.buffer + total (fun ev => jobWork (ctx, ev)) events := by
  induction events generalizing ch with
  | nil => exact le_add_right le_rfl
  | cons ev events ih =>
      refine (ih _).trans ?_
      rw [total_cons, ← add_assoc]
      exact add_le_add_left (total_offer_le jobWork ch (ctx, ev)) _

/-- Performing a message costs a step, its spans and the delivery of its event. -/
theorem writeWork_pays (x : Queued) (started : Nat) {events : List (CommitEvent UInt64)}
    (hone : events.length ≤ 1) (hle : ∀ ev ∈ events, eventMessages ev ≤ messageRows x.2) :
    total (fun ev => jobWork (x.1, ev)) events + (1, 0) +
        total spanWork (startSpans x.1 ((writeSpans x.2).take started)) ≤
      writeWork x := by
  have hevents : total (fun ev => jobWork (x.1, ev)) events ≤
      charge x.1 (4 + 2 * messageRows x.2) (4 + 2 * messageRows x.2) := by
    match events, hone with
    | [], _ => exact zero_le
    | [ev], _ =>
        have hev := hle ev (List.mem_singleton_self ev)
        rw [total_cons, total_nil, add_zero]
        exact charge_le (by dsimp only; omega) (by dsimp only; omega)
  have htake : ((writeSpans x.2).take started).length ≤ (writeSpans x.2).length :=
    List.length_take_le' _ _
  rw [total_startSpans]
  refine (add_le_add (add_le_add_left hevents _) (charge_le le_rfl htake)).trans ?_
  unfold writeWork charge
  refine Prod.mk_le_mk.mpr ⟨?_, ?_⟩
  · simp only [Prod.mk_add_mk]
    omega
  · split <;> simp only [Prod.mk_add_mk] <;> omega

/-- A write pays for what it starts. -/
theorem Pipeline.write_advances {P : Platform} {s t : Pipeline} {c : Conditions} {started : Nat}
    (hs : s.store.saved = none) (h : s.write P c started = some t) : Advances s t := by
  unfold Pipeline.write at h
  split at h
  · cases h
  · next x hwriter =>
      have hx : x.1 ∈ s.contexts := by simp [Pipeline.contexts, hwriter]
      split at h
      · cases h
        refine ⟨?_, ⟨[], (List.append_nil _).symm, fun _ h => absurd h List.not_mem_nil, ?_⟩,
          id, rfl⟩
        · intro ctx
          simp only [Pipeline.contexts, hwriter, List.mem_append, Option.toList_none,
            List.map_nil, List.not_mem_nil]
          tauto
        · have hone : (1 : Nat) ≤ (writeWork x).1 := by
            simp only [writeWork, charge]
            omega
          refine Prod.le_def.mpr ⟨?_, ?_⟩ <;>
            simp only [Pipeline.work, hwriter, total_cons, total_nil, Option.toList_some,
              Option.toList_none, Prod.fst_add, Prod.snd_add, Prod.fst_zero, Prod.snd_zero] <;>
            omega
      · next op hop =>
          cases h
          obtain ⟨hsaved, events, hnew, hone, hle⟩ := operation_dispatches P.sub hop hs
          rw [newEvents_append hnew]
          refine ⟨?_, ⟨_, rfl, fun sp hsp => startedIn_startSpans hx hsp, ?_⟩,
            fun _ => hsaved, rfl⟩
          · intro ctx
            have hjobs : ctx ∈ (offerEvents x.1 s.commitCh events).buffer.map Prod.fst →
                ctx ∈ s.commitCh.buffer.map Prod.fst ∨ ctx = x.1 := by
              intro hctx
              obtain ⟨job, hjob, rfl⟩ := List.mem_map.mp hctx
              exact (mem_offerEvents hjob).imp_left List.mem_map_of_mem
            rw [offerEvents] at hjobs
            simp only [Pipeline.contexts, hwriter, List.mem_append, List.map_cons,
              List.mem_cons, Option.toList_some, Option.toList_none, List.map_nil,
              List.not_mem_nil]
            tauto
          · have hpays := Prod.le_def.mp (writeWork_pays x started hone hle)
            have hoffer := Prod.le_def.mp (total_offerEvents_le x.1 s.commitCh events)
            rw [offerEvents] at hoffer
            refine Prod.le_def.mpr ⟨?_, ?_⟩ <;>
              simp only [Pipeline.work, hwriter, total_cons, total_nil, Option.toList_some,
                Option.toList_none, Prod.fst_add, Prod.snd_add, Prod.fst_zero, Prod.snd_zero]
                  at hpays hoffer ⊢ <;>
              omega

/-- A dispatch pays for what it starts. -/
theorem Pipeline.dispatch_advances {s t : Pipeline} (h : s.dispatch = some t) : Advances s t := by
  unfold Pipeline.dispatch at h
  split at h
  · next call broadcast hrecv =>
      cases h
      obtain ⟨hbuffer, -⟩ := Channel.recv_eq_item hrecv
      have hcall : call.1 ∈ s.contexts := by simp [Pipeline.contexts, hbuffer]
      refine ⟨?_, ⟨_, rfl, fun sp hsp => startedIn_startSpan hcall hsp, ?_⟩, id, rfl⟩
      · intro ctx
        simp only [Pipeline.contexts, hbuffer, List.mem_append, List.map_cons, List.mem_cons]
        tauto
      · have hpays : (1, 0) + total spanWork (startSpan call.1 "websocket.dispatch") ≤
            dispatchWork call := by
          rw [total_startSpan]
          exact Prod.mk_le_mk.mpr ⟨le_rfl, (Nat.zero_add _).le⟩
        have hpays := Prod.le_def.mp hpays
        refine Prod.le_def.mpr ⟨?_, ?_⟩ <;>
          simp only [Pipeline.work, hbuffer, total_cons, Prod.fst_add, Prod.snd_add]
            at hpays ⊢ <;>
          omega
  · cases h

/-- Taking a job costs a step. -/
theorem takeJob_pays (job : Job) : (takeJob job).work + (1, 0) ≤ jobWork job := by
  have hheld : (3, 0) + heldWork job + (1, 0) ≤ jobWork job := by
    unfold heldWork jobWork charge
    refine Prod.mk_le_mk.mpr ⟨?_, ?_⟩
    · simp only [Prod.mk_add_mk]
      omega
    · split <;> simp only [Prod.mk_add_mk] <;> omega
  unfold takeJob
  split
  · rw [Delivery.work, total_cons, total_nil, add_zero]
    exact hheld
  · rw [Delivery.work, total_cons, total_nil, add_zero, Option.toList_none, total_nil, add_zero]
    refine le_trans (add_le_add_left (add_le_add_left ?_ _) _) hheld
    exact Prod.mk_le_mk.mpr ⟨by omega, le_rfl⟩

@[simp] theorem takeJob_contexts (job : Job) : (takeJob job).contexts = [job.1] := by
  unfold takeJob
  split <;> rfl

/-- A step of `runCommits` that starts no span. -/
theorem advances_of_delivery {s : Pipeline} {c : Channel Job commitQueueSize}
    {delivery : Delivery}
    (hcontexts : ∀ ctx ∈ delivery.contexts ++ c.buffer.map Prod.fst,
      ctx ∈ s.delivery.contexts ++ s.commitCh.buffer.map Prod.fst)
    (hwork : delivery.work + total jobWork c.buffer + (1, 0) ≤
      s.delivery.work + total jobWork s.commitCh.buffer) :
    Advances s { s with commitCh := c, delivery := delivery } := by
  refine ⟨?_, ⟨[], (List.append_nil _).symm, fun _ h => absurd h List.not_mem_nil, ?_⟩, id, rfl⟩
  · intro ctx
    have h := hcontexts ctx
    simp only [Pipeline.contexts, List.mem_append] at h ⊢
    tauto
  · have hpays := Prod.le_def.mp hwork
    refine Prod.le_def.mpr ⟨?_, ?_⟩ <;>
      simp only [Pipeline.work, total_nil, Prod.fst_add, Prod.snd_add, Prod.fst_zero,
        Prod.snd_zero] at hpays ⊢ <;>
      omega

/-- The drained jobs go to the listener. -/
theorem calls_advances {s : Pipeline} {jobs : List Job} (hd : s.delivery = .draining jobs) :
    Advances s { s with delivery := .calling jobs none } := by
  refine advances_of_delivery (c := s.commitCh) ?_ ?_
  · intro ctx hctx
    rw [hd]
    simpa [Delivery.contexts] using hctx
  · rw [hd]
    refine Prod.le_def.mpr ⟨?_, ?_⟩ <;>
      simp only [Delivery.work, Option.toList_none, total_nil, Prod.fst_add, Prod.snd_add,
        Prod.fst_zero, Prod.snd_zero] <;>
      omega

/-- One more job of metrics, or the job after them. -/
theorem drains_advances {s : Pipeline} {jobs : List Job} {job : Job}
    {ch : Channel Job commitQueueSize} (hd : s.delivery = .draining jobs)
    (hbuffer : s.commitCh.buffer = job :: ch.buffer) :
    Advances s { s with
      commitCh := ch
      delivery :=
        if job.2.isMetrics then .draining (jobs ++ [job]) else .calling jobs (some job) } := by
  refine advances_of_delivery ?_ ?_
  · intro ctx hctx
    rw [hd, hbuffer]
    split at hctx
    · simpa [Delivery.contexts, or_assoc] using hctx
    · simpa [Delivery.contexts, or_assoc] using hctx
  · have hheld : heldWork job + (1, 0) ≤ jobWork job := by
      unfold heldWork jobWork charge
      refine Prod.mk_le_mk.mpr ⟨?_, le_rfl⟩
      omega
    have hpays := Prod.le_def.mp hheld
    rw [hd, hbuffer]
    split
    · refine Prod.le_def.mpr ⟨?_, ?_⟩ <;>
        simp only [Delivery.work, total_append, total_cons, total_nil, Prod.fst_add,
          Prod.snd_add, Prod.fst_zero, Prod.snd_zero] at hpays ⊢ <;>
        omega
    · refine Prod.le_def.mpr ⟨?_, ?_⟩ <;>
        simp only [Delivery.work, Option.toList_some, total_cons, total_nil,
          Prod.fst_add, Prod.snd_add, Prod.fst_zero, Prod.snd_zero] <;>
        omega

/-- The listener is called. -/
theorem calling_advances {P : Platform} {s : Pipeline} {jobs : List Job} {pending : Option Job}
    (connected queryOk lost : Bool) (hd : s.delivery = .calling jobs pending) :
    Advances s { s with
      delivery := .sending (newBatch P s.store.db connected queryOk jobs).2 pending
      spans := s.spans ++ (deliverSpan jobs ++ (newBatch P s.store.db connected queryOk jobs).1)
      lost := lost } := by
  obtain ⟨hspans, hcalls⟩ := newBatch_contexts P s.store.db connected queryOk jobs
  have hsub : jobs.map Prod.fst ⊆ s.contexts := by
    intro ctx hctx
    simp only [Pipeline.contexts, hd, Delivery.contexts, List.mem_append]
    tauto
  refine ⟨?_, ⟨_, rfl, fun sp hsp => (hspans sp hsp).mono hsub, ?_⟩, id, rfl⟩
  · intro ctx
    have hmap : ctx ∈ (newBatch P s.store.db connected queryOk jobs).2.map Prod.fst →
        ctx ∈ jobs.map Prod.fst := by
      intro hctx
      obtain ⟨call, hcall, rfl⟩ := List.mem_map.mp hctx
      exact hcalls call hcall
    simp only [Pipeline.contexts, hd, Delivery.contexts, List.mem_append]
    tauto
  · have hpays := Prod.le_def.mp (newBatch_work P s.store.db connected queryOk jobs)
    refine Prod.le_def.mpr ⟨?_, ?_⟩ <;>
      simp only [Pipeline.work, hd, Delivery.work, Prod.fst_add, Prod.snd_add] at hpays ⊢ <;>
      omega

/-- `BroadcastContext` -/
theorem sending_advances {s : Pipeline} {call : Call} {calls : List Call} {pending : Option Job}
    (connected lost : Bool) (hd : s.delivery = .sending (call :: calls) pending) :
    Advances s { s with
      delivery := .sending calls pending
      broadcast := if connected then s.broadcast.offer call else s.broadcast
      spans := s.spans ++ startSpan call.1 "websocket.Broadcast"
      lost := lost } := by
  have hcall : call.1 ∈ s.contexts := by simp [Pipeline.contexts, hd, Delivery.contexts]
  refine ⟨?_, ⟨_, rfl, fun sp hsp => startedIn_startSpan hcall hsp, ?_⟩, id, rfl⟩
  · intro ctx
    have hmap : ctx ∈ (if connected then s.broadcast.offer call else s.broadcast).buffer.map
        Prod.fst → ctx ∈ s.broadcast.buffer.map Prod.fst ∨ ctx = call.1 := by
      intro hctx
      split at hctx
      · obtain ⟨x, hx, rfl⟩ := List.mem_map.mp hctx
        rcases mem_offer hx with hx | rfl
        · exact Or.inl (List.mem_map_of_mem hx)
        · exact Or.inr rfl
      · exact Or.inl hctx
    simp only [Pipeline.contexts, hd, Delivery.contexts, List.mem_append, List.map_cons,
      List.mem_cons]
    tauto
  · have hoffer : total dispatchWork
        (if connected then s.broadcast.offer call else s.broadcast).buffer ≤
          total dispatchWork s.broadcast.buffer + dispatchWork call := by
      split
      · exact total_offer_le dispatchWork s.broadcast call
      · exact le_add_right le_rfl
    have hpays : dispatchWork call + (1, 0) +
        total spanWork (startSpan call.1 "websocket.Broadcast") ≤ callWork call := by
      rw [total_startSpan]
      unfold dispatchWork callWork charge
      refine Prod.mk_le_mk.mpr ⟨le_rfl, ?_⟩
      split <;> exact le_rfl
    have hoffer := Prod.le_def.mp hoffer
    have hpays := Prod.le_def.mp hpays
    refine Prod.le_def.mpr ⟨?_, ?_⟩ <;>
      simp only [Pipeline.work, hd, Delivery.work, total_cons, Prod.fst_add, Prod.snd_add]
        at hoffer hpays ⊢ <;>
      omega

/-- A step of the commit queue pays for what it starts. -/
theorem Pipeline.runCommits_advances {P : Platform} {s t : Pipeline} {connected queryOk : Bool}
    (h : s.runCommits P connected queryOk = some t) : Advances s t := by
  unfold Pipeline.runCommits at h
  split at h
  · next job hd =>
      cases h
      refine advances_of_delivery (c := s.commitCh) ?_ ?_
      · intro ctx hctx
        rw [takeJob_contexts] at hctx
        rw [hd]
        simpa [Delivery.contexts] using hctx
      · rw [hd, Delivery.work, Option.toList_some, total_cons, total_nil, add_zero, add_right_comm]
        exact add_le_add_left (takeJob_pays job) _
  · next hd =>
      split at h
      · next job ch hrecv =>
          cases h
          obtain ⟨hbuffer, -⟩ := Channel.recv_eq_item hrecv
          refine advances_of_delivery ?_ ?_
          · intro ctx hctx
            rw [takeJob_contexts] at hctx
            rw [hd, hbuffer]
            simpa [Delivery.contexts] using hctx
          · rw [hd, hbuffer, Delivery.work, Option.toList_none, total_nil, zero_add, total_cons,
              add_right_comm]
            exact add_le_add_left (takeJob_pays job) _
      · cases h
  · next jobs hd =>
      split at h
      · split at h
        · next job ch hrecv =>
            cases h
            exact drains_advances hd (Channel.recv_eq_item hrecv).1
        · cases h
          exact calls_advances hd
      · cases h
        exact calls_advances hd
  · next jobs pending hd =>
      cases h
      exact calling_advances connected queryOk _ hd
  · next pending hd =>
      cases h
      refine advances_of_delivery (c := s.commitCh) ?_ ?_
      · intro ctx hctx
        rw [hd]
        simpa [Delivery.contexts] using hctx
      · rw [hd]
        refine Prod.le_def.mpr ⟨?_, ?_⟩ <;>
          simp only [Delivery.work, total_nil, Prod.fst_add, Prod.snd_add, Prod.fst_zero,
            Prod.snd_zero] <;>
          omega
  · next call calls pending hd =>
      cases h
      exact sending_advances connected _ hd

end Ingest
end Otelop
