import Mathlib.Tactic
import Otelop.Ingest.Feedback

/-!
# The messages of the committed batches

A committed batch of traces or of logs becomes messages, which the hub receives one after
another.  The messages of metrics depend on the points there are when they are made, and are
left out.

On its way a message is in one of several places: in the events that the writer announced, in
the channel of jobs, in the goroutine that delivers them, in the calls under way, or with the
hub.  `Flows` says that the places in a row hold the messages announced, in order, except for
those lost to a full queue or for lack of a client; every step moves messages on from one place
to the next.

**Results.**
* `pipeline_flows`: where the messages are, in every run.
* `live_messages`: the hub receives the messages of the committed batches in their order, each
  at most once, and each of them as long as no queue is full and a client is connected.
-/

namespace Otelop
namespace Ingest

open Lib Stmt Storage
open Broadcast (broadcastTraces)
open Websocket (broadcastQueueSize)

/-! ### Messages under way -/

def Message.isMetric : Message → Bool
  | .metric _ => true
  | _ => false

/-- The messages about traces and logs. -/
def news (messages : List Message) : List Message := messages.filter fun m => !m.isMetric

theorem news_append (messages messages' : List Message) :
    news (messages ++ messages') = news messages ++ news messages' := List.filter_append ..

/-- The messages of calls that are not about metrics. -/
def callNews (calls : List Call) : List Message := news (calls.map Prod.snd)

@[simp] theorem callNews_nil : callNews [] = [] := rfl

theorem callNews_append (calls calls' : List Call) :
    callNews (calls ++ calls') = callNews calls ++ callNews calls' := by
  rw [callNews, List.map_append, news_append]
  rfl

theorem callNews_cons (call : Call) (calls : List Call) :
    callNews (call :: calls) = news [call.2] ++ callNews calls := callNews_append [call] calls

section Flow

variable (P : Platform)

/-- What the clients are to be told of an event. -/
def eventNews : CommitEvent UInt64 → List Message
  | .traces batch => (broadcastTraces P.iso batch).map .trace
  | .logs batch => broadcastLogs batch
  | .metrics _ => []

/-- The messages that a job will become. -/
def jobNews (job : Job) : List Message := eventNews P job.2

/-- The messages that the goroutine still holds. -/
def Delivery.news : Delivery → List Message
  | .top pending => pending.toList.flatMap (jobNews P)
  | .draining jobs => jobs.flatMap (jobNews P)
  | .calling jobs pending => jobs.flatMap (jobNews P) ++ pending.toList.flatMap (jobNews P)
  | .sending calls pending => callNews calls ++ pending.toList.flatMap (jobNews P)

/-- The news in the queues after the writer, oldest first. -/
def Pipeline.underWay (s : Pipeline) : List Message :=
  callNews s.broadcast.buffer ++ (s.delivery.news P ++ s.commitCh.buffer.flatMap (jobNews P))

/-- The news of what was committed. -/
def announced (s : Store UInt64) : List Message := s.mem.dispatched.flatMap (eventNews P)

/-- The jobs that are drained, or given to the listener at once. -/
def Delivery.Batched : Delivery → Prop
  | .draining jobs => ∀ job ∈ jobs, job.2.isMetrics = true
  | .calling jobs _ => (∀ job ∈ jobs, job.2.isMetrics = true) ∨ ∃ job, jobs = [job]
  | .top _ | .sending _ _ => True

/-- `xs` is a part of `ys`, and the whole unless something was lost. -/
def Carries (lost : Bool) (xs ys : List Message) : Prop :=
  xs.Sublist ys ∧ (lost = false → xs = ys)

/-- The places a message goes through hold what was announced, in order. -/
structure Pipeline.Flows (s : Pipeline) : Prop where
  saved : s.store.saved = none
  batched : s.delivery.Batched
  carries : Carries s.lost (news s.received ++ s.underWay P) (announced P s.store)

variable {P} {s t : Pipeline} {lost lost' : Bool} {xs xs' ys zs : List Message}

theorem Carries.refl (lost : Bool) (xs : List Message) : Carries lost xs xs :=
  ⟨.refl _, fun _ => rfl⟩

theorem Carries.trans (h : Carries lost xs ys) (h' : Carries lost' xs' xs)
    (hlost : lost' = false → lost = false) : Carries lost' xs' ys :=
  ⟨h'.1.trans h.1, fun hl => (h'.2 hl).trans (h.2 (hlost hl))⟩

theorem Carries.weaken (h : Carries lost xs ys) (hlost : lost' = false → lost = false) :
    Carries lost' xs ys :=
  ⟨h.1, fun hl => h.2 (hlost hl)⟩

theorem Carries.append (h : Carries lost xs ys) (h' : Carries lost xs' zs) :
    Carries lost (xs ++ xs') (ys ++ zs) :=
  ⟨h.1.append h'.1, fun hl => by rw [h.2 hl, h'.2 hl]⟩

/-- A step that commits nothing. -/
theorem Pipeline.Flows.move (h : s.Flows P) (hstore : t.store = s.store)
    (hbatched : t.delivery.Batched) (hlost : t.lost = false → s.lost = false)
    (hmove : Carries t.lost (news t.received ++ t.underWay P) (news s.received ++ s.underWay P)) :
    t.Flows P where
  saved := by rw [hstore]; exact h.saved
  batched := hbatched
  carries := by rw [hstore]; exact h.carries.trans hmove hlost

theorem jobNews_of_isMetrics {job : Job} (h : job.2.isMetrics = true) : jobNews P job = [] := by
  obtain ⟨ctx, ev⟩ := job
  cases ev with
  | traces batch | logs batch => cases h
  | metrics batch => rfl

theorem flatMap_jobNews_of_isMetrics {jobs : List Job} (h : ∀ job ∈ jobs, job.2.isMetrics = true) :
    jobs.flatMap (jobNews P) = [] :=
  List.flatMap_eq_nil_iff.mpr fun job hjob => jobNews_of_isMetrics (h job hjob)

theorem takeJob_news (job : Job) : (takeJob job).news P = jobNews P job := by
  unfold takeJob
  split <;> simp [Delivery.news]

theorem takeJob_batched (job : Job) : (takeJob job).Batched := by
  unfold takeJob
  split
  · next hmetrics =>
      intro job' hjob
      exact List.mem_singleton.mp hjob ▸ hmetrics
  · exact Or.inr ⟨job, rfl⟩

/-! ### One step -/

theorem news_deliverMetrics (db : Db UInt64) (queryOk : Bool) (jobs : List Job) :
    callNews (deliverMetrics P db queryOk jobs).2 = [] := by
  have hplan : ∀ derived plan, callNews (planCalls derived plan) = [] := by
    intro derived plan
    simp [callNews, news, planCalls, Message.isMetric, List.filter_eq_nil_iff]
  have hplans : ∀ derived (plans : List (Context × Broadcast.MetricBroadcastPlan)),
      callNews (plans.flatMap (planCalls derived)) = [] := by
    intro derived plans
    induction plans with
    | nil => rfl
    | cons plan plans ih => rw [List.flatMap_cons, callNews_append, hplan, ih, List.append_nil]
  unfold deliverMetrics
  dsimp only
  split
  · rfl
  · split
    · rfl
    · split
      · exact hplans _ _
      · rfl

theorem news_deliverJob (db : Db UInt64) (queryOk : Bool) (job : Job) :
    callNews (deliverJob P db queryOk job).2 = jobNews P job := by
  obtain ⟨ctx, ev⟩ := job
  cases ev with
  | traces batch =>
      simp [deliverJob, callNews, news, jobNews, eventNews, Message.isMetric, Function.comp_def]
  | logs batch =>
      simp [deliverJob, callNews, news, jobNews, eventNews, broadcastLogs, Message.isMetric,
        Function.comp_def]
  | metrics batch => exact news_deliverMetrics db queryOk _

/-- The listener makes calls for all that it is given, when a client is connected. -/
theorem news_newBatch (db : Db UInt64) (connected queryOk : Bool) {jobs : List Job}
    (h : (∀ job ∈ jobs, job.2.isMetrics = true) ∨ ∃ job, jobs = [job]) :
    Carries (!connected) (callNews (newBatch P db connected queryOk jobs).2)
      (jobs.flatMap (jobNews P)) := by
  cases jobs with
  | nil => exact .refl _ _
  | cons first rest =>
      unfold newBatch
      dsimp only
      split
      · next hconnected => exact ⟨List.nil_sublist _, fun h => by simp [h] at hconnected⟩
      · split
        · next hmetrics =>
            rw [news_deliverMetrics, flatMap_jobNews_of_isMetrics]
            · exact .refl _ _
            · rcases h with h | ⟨job, hjob⟩
              · exact h
              · cases hjob
                exact List.forall_mem_singleton.mpr hmetrics
        · next hmetrics =>
            obtain ⟨job, hjob⟩ := h.resolve_left fun h => hmetrics (h first (List.mem_cons_self ..))
            cases hjob
            simp only [List.map_cons, List.map_nil, List.flatMap_cons, List.flatMap_nil,
              List.append_nil, news_deliverJob]
            exact .refl _ _

/-- `BroadcastContext` -/
theorem carries_broadcast (call : Call) (connected : Bool) :
    Carries (s.lost || !connected || decide (s.broadcast.buffer.length = broadcastQueueSize))
      (callNews (if connected then s.broadcast.offer call else s.broadcast).buffer)
      (callNews s.broadcast.buffer ++ news [call.2]) := by
  have hbounded := s.broadcast.bounded
  cases connected with
  | false => exact ⟨List.sublist_append_left .., fun hlost => by simp at hlost⟩
  | true =>
      by_cases hfull : s.broadcast.buffer.length = broadcastQueueSize
      · rw [if_pos rfl, Channel.buffer_offer, if_neg (by omega), List.append_nil]
        exact ⟨List.sublist_append_left .., fun hlost => by simp [hfull] at hlost⟩
      · rw [if_pos rfl, Channel.buffer_offer, if_pos (by omega), callNews_append]
        exact .refl _ _

/-- `dispatchCommit` -/
theorem carries_offerEvents (ch : Channel Job commitQueueSize) (ctx : Context)
    {events : List (CommitEvent UInt64)} (hone : events.length ≤ 1) :
    Carries (decide (commitQueueSize < ch.buffer.length + events.length))
      ((offerEvents ctx ch events).buffer.flatMap (jobNews P))
      (ch.buffer.flatMap (jobNews P) ++ events.flatMap (eventNews P)) := by
  rcases events with - | ⟨ev, - | ⟨ev', events⟩⟩
  · simpa [offerEvents] using Carries.refl _ _
  · rw [offerEvents, List.foldl_cons, List.foldl_nil, Channel.buffer_offer, List.length_singleton]
    split
    · next hroom =>
        rw [List.flatMap_append, List.flatMap_singleton, List.flatMap_singleton]
        exact .refl _ _
    · next hfull =>
        rw [List.append_nil]
        refine ⟨List.sublist_append_left .., fun hlost => ?_⟩
        have := of_decide_eq_false hlost
        omega
  · simp at hone

/-- Jobs go from the channel to where `runCommits` stands. -/
theorem Pipeline.Flows.handOn (h : s.Flows P) {c : Channel Job commitQueueSize}
    {delivery : Delivery} (hbatched : delivery.Batched)
    (hnews : delivery.news P ++ c.buffer.flatMap (jobNews P) =
      s.delivery.news P ++ s.commitCh.buffer.flatMap (jobNews P)) :
    ({ s with commitCh := c, delivery := delivery } : Pipeline).Flows P := by
  refine h.move rfl hbatched id ?_
  rw [Pipeline.underWay, Pipeline.underWay, hnews]
  exact .refl _ _

/-- The listener is called. -/
theorem Pipeline.Flows.call (h : s.Flows P) {jobs : List Job} {pending : Option Job}
    (connected queryOk : Bool) (hd : s.delivery = .calling jobs pending) :
    ({ s with
        delivery := .sending (newBatch P s.store.db connected queryOk jobs).2 pending
        spans := s.spans ++ (deliverSpan jobs ++ (newBatch P s.store.db connected queryOk jobs).1)
        lost := s.lost || !connected } : Pipeline).Flows P := by
  have hbatched := h.batched
  rw [hd] at hbatched
  refine h.move rfl trivial (fun hlost => (Bool.or_eq_false_iff.mp hlost).1) ?_
  have hcalls : Carries (s.lost || !connected)
      (callNews (newBatch P s.store.db connected queryOk jobs).2) (jobs.flatMap (jobNews P)) :=
    (news_newBatch s.store.db connected queryOk hbatched).weaken
      fun hlost => (Bool.or_eq_false_iff.mp hlost).2
  simp only [Pipeline.underWay, hd, Delivery.news]
  exact (Carries.refl _ _).append ((Carries.refl _ _).append
    ((hcalls.append (.refl _ _)).append (.refl _ _)))

/-- The listener makes one of its calls. -/
theorem Pipeline.Flows.send (h : s.Flows P) {call : Call} {calls : List Call}
    {pending : Option Job} (connected : Bool) (hd : s.delivery = .sending (call :: calls) pending) :
    ({ s with
        delivery := .sending calls pending
        broadcast := if connected then s.broadcast.offer call else s.broadcast
        spans := s.spans ++ startSpan call.1 "websocket.Broadcast"
        lost := s.lost || !connected || decide (s.broadcast.buffer.length = broadcastQueueSize) } :
      Pipeline).Flows P := by
  refine h.move rfl trivial
    (fun hlost => (Bool.or_eq_false_iff.mp (Bool.or_eq_false_iff.mp hlost).1).1) ?_
  simp only [Pipeline.underWay, hd, Delivery.news, callNews_cons call calls]
  refine (Carries.refl _ _).append ?_
  have hcall : ∀ rest rest', callNews s.broadcast.buffer ++
      ((news [call.2] ++ callNews calls ++ rest) ++ rest') =
        (callNews s.broadcast.buffer ++ news [call.2]) ++ ((callNews calls ++ rest) ++ rest') := by
    intro rest rest'
    simp only [List.append_assoc]
  rw [hcall]
  exact (carries_broadcast call connected).append (.refl _ _)

theorem Pipeline.Flows.runCommits (h : s.Flows P) {connected queryOk : Bool}
    (hstep : s.runCommits P connected queryOk = some t) : t.Flows P := by
  have hbatched := h.batched
  unfold Pipeline.runCommits at hstep
  split at hstep
  · next job hd =>
      cases hstep
      refine h.handOn (takeJob_batched job) ?_
      rw [takeJob_news, hd]
      simp [Delivery.news]
  · next hd =>
      split at hstep
      · next job ch hrecv =>
          cases hstep
          obtain ⟨hbuffer, -⟩ := Channel.recv_eq_item hrecv
          refine h.handOn (takeJob_batched job) ?_
          rw [takeJob_news, hd, hbuffer]
          simp [Delivery.news]
      · cases hstep
  · next jobs hd =>
      rw [hd] at hbatched
      have hcalled : ({ s with delivery := .calling jobs none } : Pipeline).Flows P := by
        refine h.handOn (c := s.commitCh) (Or.inl hbatched) ?_
        simp [hd, Delivery.news]
      split at hstep
      · split at hstep
        · next job ch hrecv =>
            cases hstep
            obtain ⟨hbuffer, -⟩ := Channel.recv_eq_item hrecv
            split
            · next hmetrics =>
                refine h.handOn (fun job' hjob => ?_) ?_
                · rcases List.mem_append.mp hjob with hjob | hjob
                  · exact hbatched job' hjob
                  · exact List.mem_singleton.mp hjob ▸ hmetrics
                · simp [hd, hbuffer, Delivery.news]
            · refine h.handOn (Or.inl hbatched) ?_
              simp [hd, hbuffer, Delivery.news]
        · cases hstep
          exact hcalled
      · cases hstep
        exact hcalled
  · next jobs pending hd =>
      cases hstep
      exact h.call connected queryOk hd
  · next pending hd =>
      cases hstep
      refine h.handOn (c := s.commitCh) trivial ?_
      simp [hd, Delivery.news]
  · next call calls pending hd =>
      cases hstep
      exact h.send connected hd

/-- A step that commits nothing and moves no message. -/
theorem Pipeline.Flows.stay (h : s.Flows P) (hstore : t.store = s.store)
    (hch : t.commitCh = s.commitCh) (hdelivery : t.delivery = s.delivery)
    (hbroadcast : t.broadcast = s.broadcast) (hreceived : t.received = s.received)
    (hlost : t.lost = s.lost) : t.Flows P := by
  refine h.move hstore (hdelivery ▸ h.batched) (fun hl => hlost ▸ hl) ?_
  rw [hreceived, Pipeline.underWay, hch, hdelivery, hbroadcast]
  exact .refl _ _

theorem Pipeline.Flows.write (h : s.Flows P) {c : Conditions} {started : Nat}
    (hstep : s.write P c started = some t) : t.Flows P := by
  unfold Pipeline.write at hstep
  split at hstep
  · cases hstep
  · next x hx =>
      split at hstep
      · cases hstep
        exact h.stay rfl rfl rfl rfl rfl rfl
      · next op hop =>
          cases hstep
          obtain ⟨hsaved, events, hnew, hone, -⟩ := operation_dispatches P.sub hop h.saved
          refine ⟨hsaved, h.batched, ?_⟩
          rw [newEvents_append hnew, announced, hnew, List.flatMap_append]
          have hsent : Carries (s.lost || decide
              (commitQueueSize < s.commitCh.buffer.length + events.length)) _ _ :=
            (carries_offerEvents (P := P) s.commitCh x.1 hone).weaken
              fun hlost => (Bool.or_eq_false_iff.mp hlost).2
          have hbefore := (h.carries.weaken fun hlost => (Bool.or_eq_false_iff.mp hlost).1).append
            (.refl (s.lost || decide (commitQueueSize < s.commitCh.buffer.length + events.length))
              (events.flatMap (eventNews P)))
          refine hbefore.trans ?_ id
          simp only [Pipeline.underWay, List.append_assoc]
          exact (Carries.refl _ _).append ((Carries.refl _ _).append
            ((Carries.refl _ _).append hsent))

theorem Pipeline.Flows.dispatch (h : s.Flows P) (hstep : s.dispatch = some t) : t.Flows P := by
  unfold Pipeline.dispatch at hstep
  split at hstep
  · next call broadcast hrecv =>
      cases hstep
      obtain ⟨hbuffer, -⟩ := Channel.recv_eq_item hrecv
      refine h.move rfl h.batched id ?_
      simp only [Pipeline.underWay, hbuffer, callNews_cons, news_append, List.append_assoc]
      exact .refl _ _
  · cases hstep

theorem Pipeline.Flows.step (h : s.Flows P) {a : PipelineAction}
    (hstep : s.step P a = some t) : t.Flows P := by
  cases a with
  | push p env =>
      cases hstep
      exact h.stay rfl rfl rfl rfl rfl rfl
  | sweep | clear =>
      obtain ⟨queue, -, rfl⟩ := Option.map_eq_some_iff.mp hstep
      exact h.stay rfl rfl rfl rfl rfl rfl
  | exportSpans td env =>
      obtain ⟨-, heq⟩ := Option.ite_none_right_eq_some.mp hstep
      cases heq
      exact h.stay rfl rfl rfl rfl rfl rfl
  | run =>
      replace hstep : s.run = some t := hstep
      unfold Pipeline.run at hstep
      split at hstep
      · cases hstep
        exact h.stay rfl rfl rfl rfl rfl rfl
      · cases hstep
  | write c started => exact h.write hstep
  | runCommits connected queryOk => exact h.runCommits hstep
  | dispatch => exact h.dispatch hstep

theorem pipeline_flows {actions : List PipelineAction} (hs : (pipeline P).run actions = some s) :
    s.Flows P := by
  refine Machine.run_invariant (m := pipeline P) (I := Pipeline.Flows P) ?_
    (fun s a t h hstep => h.step hstep) hs
  exact ⟨rfl, trivial, .refl _ _⟩

/-- In every run the hub receives the messages of the committed batches in their order, each at
most once; those it did not receive yet are under way, unless a queue was full or no client was
connected. -/
theorem live_messages {actions : List PipelineAction} (hs : (pipeline P).run actions = some s) :
    (news s.received ++ s.underWay P).Sublist (announced P s.store) ∧
      (s.lost = false → news s.received ++ s.underWay P = announced P s.store) :=
  (pipeline_flows hs).carries

end Flow

/-- A trace from its payload to the hub. -/
def sampleDelivery : List PipelineAction :=
  [.push (.traces sampleSpans) internalEnvironment, .run,
    .write ⟨0, 0, ⟨"", 0, 0⟩, fun _ => .ok 0, []⟩ 5, .runCommits true true, .runCommits true true,
    .runCommits true true, .runCommits true true, .dispatch]

theorem live_messages_sample :
    ∃ s, (pipeline samplePlatform).run sampleDelivery = some s ∧ s.received.length = 1 ∧
      news s.received ++ s.underWay samplePlatform = announced samplePlatform s.store := by
  have hrun : ((pipeline samplePlatform).run sampleDelivery).map
      (fun s => (s.received.length, s.lost)) = some (1, false) := by decide +kernel
  obtain ⟨s, hs, hfinal⟩ := Option.map_eq_some_iff.mp hrun
  obtain ⟨hreceived, hlost⟩ := Prod.mk.inj hfinal
  exact ⟨s, hs, hreceived, (live_messages hs).2 hlost⟩

end Ingest
end Otelop
