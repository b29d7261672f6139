import Mathlib.Tactic
import Otelop.Lib.Channel
import Otelop.Lib.Machine
import Otelop.Storage.Writer

/-!
# Delivering commit events

The writer hands events to `runCommits` through the bounded channel `commitCh` of
`internal/storage/storage.go`.  The goroutine delivers them to the listener, and
joins adjacent metric events when the listener takes batches.  To end a batch it
has to receive one job too many, which waits in `pending`.

The parties are the writer goroutine, `Close`, and `runCommits`; a run is any
interleaving of their channel operations.  A barrier is a fresh channel, here a
fresh number.  The context of a job is used for tracing only and left out.

**Results.**
* `commitQueue_inv`: what was delivered, what the goroutine holds and what is in
  the channel, one after the other, is what was enqueued.
* `commitDelivery`: order, batches, barriers and completeness in every run.
-/

namespace Otelop
namespace Storage

open Lib

def commitQueueSize : Nat := 256

def metricCommitBatchSize : Nat := 16

/-- `ev.Kind == KindMetrics` -/
def CommitEvent.isMetrics {V : Type} : CommitEvent V → Bool
  | .metrics _ => true
  | _ => false

/-- `commitJob`: an event, or a barrier. -/
inductive CommitJob (V : Type) where
  | event (ev : CommitEvent V)
  | barrier (b : Nat)

/-- Where `runCommits` stands: at the top of its loop, in the loop that drains metrics,
in a call of the listener, or done.  `last` tells that it returns after the call. -/
inductive CommitLoop (V : Type) where
  | top (pending : Option (CommitJob V))
  | draining (jobs : List (CommitEvent V))
  | delivering (jobs : List (CommitEvent V)) (pending : Option (CommitJob V)) (last : Bool)
  | returned

/-- What the listener or a waiting writer can observe. -/
inductive CommitOutput (V : Type) where
  | onCommit (ev : CommitEvent V)
  | onCommitBatch (deliveries : List (CommitEvent V))
  | released (b : Nat)

/-- Where the writer goroutine stands: between two operations on the channel, waiting for a
barrier, or done. -/
inductive CommitWriter where
  | running
  | awaiting (b : Nat)
  | exited
deriving DecidableEq

/-- The channel, its parties, and what went in and came out. -/
structure CommitQueue (V : Type) where
  commitCh : Channel (CommitJob V) commitQueueSize
  loop : CommitLoop V
  writer : CommitWriter
  nextBarrier : Nat
  enqueued : List (CommitJob V)
  outputs : List (CommitOutput V)

inductive CommitAction (V : Type) where
  | dispatchCommit (ev : CommitEvent V)
  | awaitCommitDrain
  | drained
  | writerExits
  | closeCommitCh
  | runCommits

section Model

variable {V : Type}

/-- The barriers that have been closed. -/
def CommitOutput.barrier? : CommitOutput V → Option Nat
  | .released b => some b
  | _ => none

/-- The job at hand, once it is known not to be the end of the channel. -/
def takeJob (batched : Bool) : CommitJob V → CommitLoop V × List (CommitOutput V)
  | .barrier b => (.top none, [.released b])
  | .event ev =>
      if batched && ev.isMetrics then (.draining [ev], [])
      else (.delivering [ev] none false, [])

/-- `deliverCommitBatch`, or the call of `OnCommit`. -/
def deliver (batched : Bool) (jobs : List (CommitEvent V)) : List (CommitOutput V) :=
  if batched then [.onCommitBatch jobs] else jobs.map .onCommit

/-- One step of `runCommits`; there is none while it is blocked. -/
def runCommits (batched : Bool) (ch : Channel (CommitJob V) commitQueueSize) :
    CommitLoop V →
      Option (CommitLoop V × Channel (CommitJob V) commitQueueSize × List (CommitOutput V))
  | .top (some job) => some ((takeJob batched job).1, ch, (takeJob batched job).2)
  | .top none =>
      match ch.recv with
      | .blocked => none
      | .closed => some (.returned, ch, [])
      | .item job ch' => some ((takeJob batched job).1, ch', (takeJob batched job).2)
  | .draining jobs =>
      if jobs.length < metricCommitBatchSize then
        match ch.recv with
        | .blocked => some (.delivering jobs none false, ch, [])
        | .closed => some (.delivering jobs none true, ch, [])
        | .item (.barrier b) ch' => some (.delivering jobs (some (.barrier b)) false, ch', [])
        | .item (.event ev) ch' =>
            if ev.isMetrics then some (.draining (jobs ++ [ev]), ch', [])
            else some (.delivering jobs (some (.event ev)) false, ch', [])
      else some (.delivering jobs none false, ch, [])
  | .delivering jobs pending last =>
      some (if last then .returned else .top pending, ch, deliver batched jobs)
  | .returned => none

/-- One step of a party.  The channel is closed after the writer has exited. -/
def CommitQueue.step (batched : Bool) (s : CommitQueue V) :
    CommitAction V → Option (CommitQueue V)
  | .dispatchCommit ev =>
      if s.writer = .running then
        match s.commitCh.send (.event ev) with
        | some ch => some { s with commitCh := ch, enqueued := s.enqueued ++ [.event ev] }
        | none => some s
      else none
  | .awaitCommitDrain =>
      if s.writer = .running then
        (s.commitCh.send (.barrier s.nextBarrier)).map fun ch =>
          { s with
            commitCh := ch
            writer := .awaiting s.nextBarrier
            nextBarrier := s.nextBarrier + 1
            enqueued := s.enqueued ++ [.barrier s.nextBarrier] }
      else none
  | .drained =>
      match s.writer with
      | .awaiting b =>
          if (s.outputs.filterMap CommitOutput.barrier?).contains b then
            some { s with writer := .running }
          else none
      | _ => none
  | .writerExits =>
      if s.writer = .running then some { s with writer := .exited } else none
  | .closeCommitCh =>
      if s.writer = .exited && !s.commitCh.closed then
        some { s with commitCh := s.commitCh.close }
      else none
  | .runCommits =>
      (runCommits batched s.commitCh s.loop).map fun r =>
        { s with loop := r.1, commitCh := r.2.1, outputs := s.outputs ++ r.2.2 }

/-- The channel and its parties, from `Open` on. -/
def commitQueue (V : Type) (batched : Bool) : Machine (CommitQueue V) (CommitAction V) where
  init := ⟨.empty, .top none, .running, 0, [], []⟩
  step := CommitQueue.step batched

/-! ### What the goroutine holds and what it has done -/

/-- The events of jobs, without the barriers. -/
def CommitJob.event? : CommitJob V → Option (CommitEvent V)
  | .event ev => some ev
  | .barrier _ => none

def CommitJob.barrier? : CommitJob V → Option Nat
  | .event _ => none
  | .barrier b => some b

/-- The jobs an output was made from. -/
def CommitOutput.jobs : CommitOutput V → List (CommitJob V)
  | .onCommit ev => [.event ev]
  | .onCommitBatch deliveries => deliveries.map .event
  | .released b => [.barrier b]

/-- The jobs the goroutine has received and not yet dealt with. -/
def CommitLoop.jobs : CommitLoop V → List (CommitJob V)
  | .top pending => pending.toList
  | .draining jobs => jobs.map .event
  | .delivering jobs pending _ => jobs.map .event ++ pending.toList
  | .returned => []

/-- The jobs that have been dealt with, in order. -/
def CommitQueue.done (s : CommitQueue V) : List (CommitJob V) :=
  s.outputs.flatMap CommitOutput.jobs

/-- What may go into one call of the listener. -/
structure BatchOk (jobs : List (CommitEvent V)) : Prop where
  nonempty : jobs ≠ []
  bounded : jobs.length ≤ metricCommitBatchSize
  single : jobs.length = 1 ∨ ∀ ev ∈ jobs, ev.isMetrics = true

def CommitOutput.Ok : CommitOutput V → Prop
  | .onCommitBatch deliveries => BatchOk deliveries
  | _ => True

/-- What holds wherever the goroutine stands. -/
def CommitLoop.Ok (batched : Bool) (ch : Channel (CommitJob V) commitQueueSize) :
    CommitLoop V → Prop
  | .top _ => True
  | .draining jobs => batched = true ∧ BatchOk jobs ∧ ∀ ev ∈ jobs, ev.isMetrics = true
  | .delivering jobs pending last =>
      BatchOk jobs ∧ (batched = false → jobs.length = 1) ∧
        (last = true → pending = none ∧ ch.buffer = [] ∧ ch.closed = true)
  | .returned => ch.buffer = [] ∧ ch.closed = true

theorem batchOk_singleton (ev : CommitEvent V) : BatchOk [ev] :=
  ⟨List.cons_ne_nil _ _, Nat.le_add_left 1 15, Or.inl rfl⟩

/-- What a step of the goroutine did: `loop`, `ch` and `outs` take over the jobs. -/
structure StepOk (batched : Bool) (loop : CommitLoop V)
    (ch : Channel (CommitJob V) commitQueueSize) (loop' : CommitLoop V)
    (ch' : Channel (CommitJob V) commitQueueSize) (outs : List (CommitOutput V)) : Prop where
  flow : outs.flatMap CommitOutput.jobs ++ loop'.jobs ++ ch'.buffer = loop.jobs ++ ch.buffer
  closed : ch'.closed = ch.closed
  loopOk : loop'.Ok batched ch'
  outputsOk : ∀ o ∈ outs, o.Ok

theorem takeJob_stepOk
    (batched : Bool) (job : CommitJob V) (ch : Channel (CommitJob V) commitQueueSize) :
    StepOk batched (.top (some job)) ch (takeJob batched job).1 ch (takeJob batched job).2 := by
  cases job with
  | barrier b =>
      refine ⟨rfl, rfl, trivial, ?_⟩
      intro o ho
      rw [List.mem_singleton.mp ho]
      trivial
  | event ev =>
      rw [takeJob]
      split
      · rename_i hmetrics
        rw [Bool.and_eq_true] at hmetrics
        refine ⟨rfl, rfl, ⟨hmetrics.1, batchOk_singleton ev, ?_⟩, fun _ h => nomatch h⟩
        intro x hx
        rw [List.mem_singleton.mp hx]
        exact hmetrics.2
      · exact ⟨rfl, rfl, ⟨batchOk_singleton ev, fun _ => rfl, fun h => nomatch h⟩,
          fun _ h => nomatch h⟩

/-- Receiving a job at the top of the loop is having it pending. -/
theorem StepOk.of_recv
    {batched : Bool} {job : CommitJob V} {ch ch' : Channel (CommitJob V) commitQueueSize}
    {loop : CommitLoop V} {outs : List (CommitOutput V)} (hrecv : ch.recv = .item job ch')
    (h : StepOk batched (.top (some job)) ch' loop ch' outs) :
    StepOk batched (.top none) ch loop ch' outs := by
  obtain ⟨hbuffer, hclosed⟩ := Channel.recv_eq_item hrecv
  refine ⟨?_, hclosed, h.loopOk, h.outputsOk⟩
  rw [h.flow, hbuffer]
  rfl

theorem flatMap_jobs_deliver (batched : Bool) (jobs : List (CommitEvent V)) :
    (deliver batched jobs).flatMap CommitOutput.jobs = jobs.map .event := by
  rw [deliver]
  split
  · exact List.flatMap_singleton _ _
  · induction jobs with
    | nil => rfl
    | cons ev jobs ih =>
        rw [List.map_cons, List.flatMap_cons, ih]
        rfl

theorem deliver_outputsOk
    {batched : Bool} {jobs : List (CommitEvent V)} (h : BatchOk jobs) :
    ∀ o ∈ deliver batched jobs, o.Ok := by
  intro o ho
  rw [deliver] at ho
  split at ho
  · rw [List.mem_singleton.mp ho]
    exact h
  · obtain ⟨ev, -, rfl⟩ := List.mem_map.mp ho
    trivial

/-- One more metric event fits into a batch that is not full. -/
theorem BatchOk.snoc
    {jobs : List (CommitEvent V)} {ev : CommitEvent V} (hroom : jobs.length < metricCommitBatchSize)
    (hjobs : ∀ x ∈ jobs, x.isMetrics = true) (hev : ev.isMetrics = true) :
    BatchOk (jobs ++ [ev]) ∧ ∀ x ∈ jobs ++ [ev], x.isMetrics = true := by
  have hall : ∀ x ∈ jobs ++ [ev], x.isMetrics = true := by
    intro x hx
    rcases List.mem_append.mp hx with hx | hx
    · exact hjobs x hx
    · rw [List.mem_singleton.mp hx]
      exact hev
  refine ⟨⟨by simp, ?_, Or.inr hall⟩, hall⟩
  rw [List.length_append]
  exact hroom

/-- Everything a step of the goroutine can do. -/
theorem runCommits_stepOk
    {batched : Bool} {loop loop' : CommitLoop V}
    {ch ch' : Channel (CommitJob V) commitQueueSize} {outs : List (CommitOutput V)}
    (hloop : loop.Ok batched ch) (h : runCommits batched ch loop = some (loop', ch', outs)) :
    StepOk batched loop ch loop' ch' outs := by
  cases loop with
  | top pending =>
      cases pending with
      | some job =>
          cases h
          exact takeJob_stepOk batched job ch
      | none =>
          rw [runCommits] at h
          cases hrecv : ch.recv with
          | blocked =>
              rw [hrecv] at h
              cases h
          | closed =>
              rw [hrecv] at h
              cases h
              exact ⟨rfl, rfl, Channel.recv_eq_closed hrecv, fun _ ho => nomatch ho⟩
          | item job c =>
              rw [hrecv] at h
              cases h
              exact (takeJob_stepOk batched job _).of_recv hrecv
  | draining jobs =>
      obtain ⟨hbatched, hjobs, hmetrics⟩ := hloop
      -- The call that ends the batch, with the job that was one too many.
      have hcall : ∀ (pending : Option (CommitJob V)) (c : Channel (CommitJob V) commitQueueSize),
          pending.toList ++ c.buffer = ch.buffer → c.closed = ch.closed →
          StepOk batched (.draining jobs) ch (.delivering jobs pending false) c [] := by
        intro pending c hflow hclosed
        refine ⟨?_, hclosed, ⟨hjobs, fun hb => ?_, fun hlast => nomatch hlast⟩,
          fun _ ho => nomatch ho⟩
        · simp only [CommitLoop.jobs, List.flatMap_nil, List.nil_append, List.append_assoc, hflow]
        · rw [hbatched] at hb
          cases hb
      rw [runCommits] at h
      split at h
      · rename_i hroom
        cases hrecv : ch.recv with
        | blocked =>
            rw [hrecv] at h
            cases h
            exact hcall none ch rfl rfl
        | closed =>
            rw [hrecv] at h
            cases h
            obtain ⟨hbuffer, hclosed⟩ := Channel.recv_eq_closed hrecv
            refine ⟨?_, rfl, ⟨hjobs, fun hb => ?_, fun _ => ⟨rfl, hbuffer, hclosed⟩⟩,
              fun _ ho => nomatch ho⟩
            · simp [CommitLoop.jobs]
            · rw [hbatched] at hb
              cases hb
        | item job c =>
            rw [hrecv] at h
            obtain ⟨hbuffer, hclosed⟩ := Channel.recv_eq_item hrecv
            cases job with
            | barrier b =>
                cases h
                exact hcall (some (.barrier b)) _ hbuffer.symm hclosed
            | event ev =>
                simp only at h
                split at h
                · rename_i hev
                  cases h
                  obtain ⟨hsnoc, hall⟩ := BatchOk.snoc hroom hmetrics hev
                  refine ⟨?_, hclosed, ⟨hbatched, hsnoc, hall⟩, fun _ ho => nomatch ho⟩
                  simp [CommitLoop.jobs, hbuffer]
                · cases h
                  exact hcall (some (.event ev)) _ hbuffer.symm hclosed
      · cases h
        exact hcall none ch rfl rfl
  | delivering jobs pending last =>
      obtain ⟨hjobs, -, hlast⟩ := hloop
      cases h
      cases last with
      | true =>
          obtain ⟨rfl, hend⟩ := hlast rfl
          refine ⟨?_, rfl, hend, deliver_outputsOk hjobs⟩
          simp [flatMap_jobs_deliver, CommitLoop.jobs]
      | false =>
          refine ⟨?_, rfl, trivial, deliver_outputsOk hjobs⟩
          simp [flatMap_jobs_deliver, CommitLoop.jobs]
  | returned => cases h

/-! ### The invariant of the channel -/

/-- What holds in every run. -/
structure CommitQueue.Inv (batched : Bool) (s : CommitQueue V) : Prop where
  flow : s.done ++ s.loop.jobs ++ s.commitCh.buffer = s.enqueued
  loopOk : s.loop.Ok batched s.commitCh
  outputsOk : ∀ o ∈ s.outputs, o.Ok
  barriers : (s.enqueued.filterMap CommitJob.barrier?).Nodup
  barriers_lt : ∀ b ∈ s.enqueued.filterMap CommitJob.barrier?, b < s.nextBarrier
  exited : s.commitCh.closed = true → s.writer = .exited

/-- While the channel is open, nothing the goroutine knows depends on its contents. -/
theorem CommitLoop.Ok.of_open
    {batched : Bool} {loop : CommitLoop V} {ch : Channel (CommitJob V) commitQueueSize}
    (h : loop.Ok batched ch) (hopen : ch.closed = false)
    (ch' : Channel (CommitJob V) commitQueueSize) :
    loop.Ok batched ch' := by
  cases loop with
  | top pending => trivial
  | draining jobs => exact h
  | delivering jobs pending last =>
      refine ⟨h.1, h.2.1, fun hlast => ?_⟩
      rw [(h.2.2 hlast).2.2] at hopen
      cases hopen
  | returned =>
      rw [h.2] at hopen
      cases hopen

/-- Closing the channel leaves the goroutine where it stands. -/
theorem CommitLoop.Ok.close
    {batched : Bool} {loop : CommitLoop V} {ch : Channel (CommitJob V) commitQueueSize}
    (h : loop.Ok batched ch) : loop.Ok batched ch.close := by
  cases loop with
  | top pending => trivial
  | draining jobs => exact h
  | delivering jobs pending last =>
      exact ⟨h.1, h.2.1, fun hlast => ⟨(h.2.2 hlast).1, (h.2.2 hlast).2.1, rfl⟩⟩
  | returned => exact ⟨h.1, rfl⟩

theorem commitQueue_init_inv (batched : Bool) : (commitQueue V batched).init.Inv batched where
  flow := rfl
  loopOk := trivial
  outputsOk := fun _ h => nomatch h
  barriers := List.nodup_nil
  barriers_lt := fun _ h => nomatch h
  exited := fun h => nomatch h

/-- A job goes in at the end of the channel. -/
theorem CommitQueue.Inv.enqueue
    {batched : Bool} {s : CommitQueue V} (h : s.Inv batched) (hwriter : s.writer = .running)
    {job : CommitJob V} {ch : Channel (CommitJob V) commitQueueSize}
    (hsend : s.commitCh.send job = some ch) {writer : CommitWriter} {nextBarrier : Nat}
    (hle : s.nextBarrier ≤ nextBarrier)
    (hjob : ∀ b, job.barrier? = some b → s.nextBarrier ≤ b ∧ b < nextBarrier) :
    ({ s with
        commitCh := ch
        writer := writer
        nextBarrier := nextBarrier
        enqueued := s.enqueued ++ [job] } : CommitQueue V).Inv batched := by
  obtain ⟨hbuffer, hclosed⟩ := Channel.send_eq_some hsend
  have hopen : s.commitCh.closed = false := by
    rw [← Bool.not_eq_true]
    intro hc
    rw [h.exited hc] at hwriter
    cases hwriter
  refine ⟨?_, h.loopOk.of_open hopen ch, h.outputsOk, ?_, ?_, ?_⟩
  · show s.done ++ s.loop.jobs ++ ch.buffer = s.enqueued ++ [job]
    rw [hbuffer, ← List.append_assoc, h.flow]
  · show ((s.enqueued ++ [job]).filterMap CommitJob.barrier?).Nodup
    rw [List.filterMap_append]
    refine List.nodup_append'.mpr ⟨h.barriers, ?_, ?_⟩
    · cases job with
      | event ev => exact List.nodup_nil
      | barrier b => exact List.nodup_singleton b
    · intro b hb hb'
      have hlt := h.barriers_lt b hb
      obtain ⟨x, hx, hxb⟩ := List.mem_filterMap.mp hb'
      rw [List.mem_singleton.mp hx] at hxb
      exact absurd hlt (not_lt.mpr (hjob b hxb).1)
  · intro b hb
    rw [List.filterMap_append] at hb
    rcases List.mem_append.mp hb with hb | hb
    · exact lt_of_lt_of_le (h.barriers_lt b hb) hle
    · obtain ⟨x, hx, hxb⟩ := List.mem_filterMap.mp hb
      rw [List.mem_singleton.mp hx] at hxb
      exact (hjob b hxb).2
  · intro hc
    rw [show ch.closed = s.commitCh.closed from hclosed, hopen] at hc
    cases hc

theorem CommitQueue.Inv.step
    {batched : Bool} {s s' : CommitQueue V} {a : CommitAction V} (h : s.Inv batched)
    (hstep : (commitQueue V batched).step s a = some s') :
    s'.Inv batched := by
  cases a with
  | dispatchCommit ev =>
      simp only [commitQueue, CommitQueue.step] at hstep
      split at hstep
      · rename_i hwriter
        cases hsend : s.commitCh.send (.event ev) with
        | none =>
            rw [hsend] at hstep
            cases hstep
            exact h
        | some ch =>
            rw [hsend] at hstep
            cases hstep
            exact h.enqueue hwriter hsend le_rfl fun b hb => nomatch hb
      · cases hstep
  | awaitCommitDrain =>
      simp only [commitQueue, CommitQueue.step] at hstep
      split at hstep
      · rename_i hwriter
        obtain ⟨ch, hsend, rfl⟩ := Option.map_eq_some_iff.mp hstep
        refine h.enqueue hwriter hsend (Nat.le_succ _) fun b hb => ?_
        cases hb
        exact ⟨le_rfl, Nat.lt_succ_self _⟩
      · cases hstep
  | drained =>
      simp only [commitQueue, CommitQueue.step] at hstep
      split at hstep
      · rename_i b hwriter
        split at hstep
        · cases hstep
          refine ⟨h.flow, h.loopOk, h.outputsOk, h.barriers, h.barriers_lt, fun hc => ?_⟩
          rw [h.exited hc] at hwriter
          cases hwriter
        · cases hstep
      · cases hstep
  | writerExits =>
      simp only [commitQueue, CommitQueue.step] at hstep
      split at hstep
      · cases hstep
        exact ⟨h.flow, h.loopOk, h.outputsOk, h.barriers, h.barriers_lt, fun _ => rfl⟩
      · cases hstep
  | closeCommitCh =>
      simp only [commitQueue, CommitQueue.step] at hstep
      split at hstep
      · rename_i hexited
        rw [Bool.and_eq_true, decide_eq_true_eq] at hexited
        cases hstep
        exact ⟨h.flow, h.loopOk.close, h.outputsOk, h.barriers, h.barriers_lt,
          fun _ => hexited.1⟩
      · cases hstep
  | runCommits =>
      obtain ⟨⟨loop, ch, outs⟩, hrun, rfl⟩ := Option.map_eq_some_iff.mp hstep
      have hok := runCommits_stepOk h.loopOk hrun
      refine ⟨?_, hok.loopOk, ?_, h.barriers, h.barriers_lt, ?_⟩
      · show (s.outputs ++ outs).flatMap CommitOutput.jobs ++ loop.jobs ++ ch.buffer = s.enqueued
        rw [List.flatMap_append, List.append_assoc, List.append_assoc,
          ← List.append_assoc (outs.flatMap _), hok.flow, ← List.append_assoc]
        exact h.flow
      · intro o ho
        rcases List.mem_append.mp ho with ho | ho
        · exact h.outputsOk o ho
        · exact hok.outputsOk o ho
      · intro hc
        exact h.exited (hok.closed ▸ hc)

/-- In every run: what was delivered, what the goroutine holds and what is in the
channel is what went in. -/
theorem commitQueue_inv
    {batched : Bool} {actions : List (CommitAction V)} {s : CommitQueue V}
    (hs : (commitQueue V batched).run actions = some s) :
    s.Inv batched :=
  Machine.run_invariant (commitQueue_init_inv batched)
    (fun _ _ _ h hstep => h.step hstep) hs

/-! ### Every run makes progress -/

def CommitAction.isRunCommits : CommitAction V → Bool
  | .runCommits => true
  | _ => false

/-- How many steps the goroutine may have taken since its last output. -/
def CommitLoop.phase : CommitLoop V → Nat
  | .top _ => 0
  | .draining jobs => jobs.length
  | .delivering _ _ _ => metricCommitBatchSize + 1
  | .returned => 1

theorem takeJob_phase (batched : Bool) (job : CommitJob V) :
    1 ≤ (metricCommitBatchSize + 2) * (takeJob batched job).2.length +
      (takeJob batched job).1.phase := by
  cases job with
  | barrier b => exact Nat.le_add_left 1 17
  | event ev =>
      rw [takeJob]
      split
      · exact le_refl 1
      · exact Nat.le_add_left 1 16

/-- A step without an output advances the phase. -/
theorem runCommits_phase
    {batched : Bool} {loop loop' : CommitLoop V}
    {ch ch' : Channel (CommitJob V) commitQueueSize} {outs : List (CommitOutput V)}
    (hloop : loop.Ok batched ch) (h : runCommits batched ch loop = some (loop', ch', outs)) :
    loop.phase + 1 ≤ (metricCommitBatchSize + 2) * outs.length + loop'.phase := by
  cases loop with
  | top pending =>
      cases pending with
      | some job =>
          cases h
          exact takeJob_phase batched job
      | none =>
          rw [runCommits] at h
          cases hrecv : ch.recv with
          | blocked =>
              rw [hrecv] at h
              cases h
          | closed =>
              rw [hrecv] at h
              cases h
              exact le_refl 1
          | item job c =>
              rw [hrecv] at h
              cases h
              exact takeJob_phase batched job
  | draining jobs =>
      have hcall : jobs.length + 1 ≤ metricCommitBatchSize + 1 :=
        Nat.succ_le_succ hloop.2.1.bounded
      rw [runCommits] at h
      split at h
      · cases hrecv : ch.recv with
        | blocked =>
            rw [hrecv] at h
            cases h
            simpa [CommitLoop.phase] using hcall
        | closed =>
            rw [hrecv] at h
            cases h
            simpa [CommitLoop.phase] using hcall
        | item job c =>
            rw [hrecv] at h
            cases job with
            | barrier b =>
                cases h
                simpa [CommitLoop.phase] using hcall
            | event ev =>
                simp only at h
                split at h
                · cases h
                  simp [CommitLoop.phase]
                · cases h
                  simpa [CommitLoop.phase] using hcall
      · cases h
        simpa [CommitLoop.phase] using hcall
  | delivering jobs pending last =>
      have houtput : 1 ≤ (deliver batched jobs).length := by
        rw [deliver]
        split
        · exact le_refl 1
        · rw [List.length_map]
          exact List.length_pos_of_ne_nil hloop.1.nonempty
      cases h
      simp only [CommitLoop.phase, metricCommitBatchSize]
      omega
  | returned => cases h

/-- Every output deals with a job. -/
theorem length_le_done
    {outputs : List (CommitOutput V)} (h : ∀ o ∈ outputs, o.Ok) :
    outputs.length ≤ (outputs.flatMap CommitOutput.jobs).length := by
  induction outputs with
  | nil => exact le_refl 0
  | cons o outputs ih =>
      have hjobs : 1 ≤ o.jobs.length := by
        cases o with
        | onCommit ev => exact le_refl 1
        | onCommitBatch deliveries =>
            have hok : BatchOk deliveries := h _ List.mem_cons_self
            rw [CommitOutput.jobs, List.length_map]
            exact List.length_pos_of_ne_nil hok.nonempty
        | released b => exact le_refl 1
      have hrest := ih fun o ho => h o (List.mem_cons_of_mem _ ho)
      rw [List.flatMap_cons, List.length_append, List.length_cons]
      omega

/-- The other parties do not touch what the goroutine holds and has done. -/
theorem CommitQueue.step_other
    {batched : Bool} {s s' : CommitQueue V} {a : CommitAction V}
    (ha : a.isRunCommits = false) (hstep : s.step batched a = some s') :
    s'.loop = s.loop ∧ s'.outputs = s.outputs := by
  cases a with
  | runCommits => cases ha
  | dispatchCommit ev =>
      simp only [CommitQueue.step] at hstep
      split at hstep
      · split at hstep <;> cases hstep <;> exact ⟨rfl, rfl⟩
      · cases hstep
  | awaitCommitDrain =>
      simp only [CommitQueue.step] at hstep
      split at hstep
      · obtain ⟨ch, -, rfl⟩ := Option.map_eq_some_iff.mp hstep
        exact ⟨rfl, rfl⟩
      · cases hstep
  | drained =>
      simp only [CommitQueue.step] at hstep
      split at hstep
      · split at hstep <;> cases hstep
        exact ⟨rfl, rfl⟩
      · cases hstep
  | writerExits =>
      simp only [CommitQueue.step] at hstep
      split at hstep <;> cases hstep
      exact ⟨rfl, rfl⟩
  | closeCommitCh =>
      simp only [CommitQueue.step] at hstep
      split at hstep <;> cases hstep
      exact ⟨rfl, rfl⟩

/-- The goroutine deals with a job at least every eighteen of its steps. -/
theorem commitQueue_keepsUp
    {batched : Bool} {actions : List (CommitAction V)} {s : CommitQueue V}
    (hs : (commitQueue V batched).run actions = some s) :
    actions.countP CommitAction.isRunCommits ≤
      (metricCommitBatchSize + 2) * s.done.length + (metricCommitBatchSize + 1) := by
  have hsteps : s.Inv batched ∧ actions.countP CommitAction.isRunCommits ≤
      (metricCommitBatchSize + 2) * s.outputs.length + s.loop.phase := by
    refine Machine.run_induction (m := commitQueue V batched)
      (I := fun actions s => s.Inv batched ∧ actions.countP CommitAction.isRunCommits ≤
        (metricCommitBatchSize + 2) * s.outputs.length + s.loop.phase)
      ⟨commitQueue_init_inv batched, le_refl 0⟩ ?_ hs
    rintro actions s a s' ⟨hinv, hcount⟩ hstep
    refine ⟨hinv.step hstep, ?_⟩
    rw [List.countP_append, List.countP_singleton]
    cases hruns : a.isRunCommits with
    | false =>
        obtain ⟨hloop, houtputs⟩ := CommitQueue.step_other hruns hstep
        rw [hloop, houtputs]
        exact hcount
    | true =>
        cases a with
        | runCommits =>
            obtain ⟨⟨loop, ch, outs⟩, hrun, rfl⟩ := Option.map_eq_some_iff.mp hstep
            have hphase := runCommits_phase hinv.loopOk hrun
            show _ + 1 ≤ (metricCommitBatchSize + 2) * (s.outputs ++ outs).length + loop.phase
            rw [List.length_append, Nat.mul_add]
            omega
        | _ => cases hruns
  have hphase : s.loop.phase ≤ metricCommitBatchSize + 1 := by
    have hok := hsteps.1.loopOk
    cases hloop : s.loop with
    | top pending => exact Nat.zero_le _
    | draining jobs =>
        rw [hloop] at hok
        exact Nat.le_succ_of_le hok.2.1.bounded
    | delivering jobs pending last => exact le_refl _
    | returned => exact Nat.le_add_left 1 16
  have hlength := length_le_done hsteps.1.outputsOk
  have hmul := Nat.mul_le_mul_left (metricCommitBatchSize + 2) hlength
  rw [CommitQueue.done]
  omega

/-! ### What the listener sees -/

/-- The events an output hands to the listener. -/
def CommitOutput.events : CommitOutput V → List (CommitEvent V)
  | .onCommit ev => [ev]
  | .onCommitBatch deliveries => deliveries
  | .released _ => []

/-- The events delivered so far. -/
def CommitQueue.delivered (s : CommitQueue V) : List (CommitEvent V) :=
  s.outputs.flatMap CommitOutput.events

/-- The events that entered the channel. -/
def CommitQueue.accepted (s : CommitQueue V) : List (CommitEvent V) :=
  s.enqueued.filterMap CommitJob.event?

theorem filterMap_event?_map (evs : List (CommitEvent V)) :
    (evs.map CommitJob.event).filterMap CommitJob.event? = evs := by
  rw [List.filterMap_map]
  exact List.filterMap_some

theorem filterMap_event?_jobs (outputs : List (CommitOutput V)) :
    (outputs.flatMap CommitOutput.jobs).filterMap CommitJob.event? =
      outputs.flatMap CommitOutput.events := by
  rw [List.filterMap_flatMap]
  refine List.flatMap_congr fun o _ => ?_
  cases o with
  | onCommit ev => rfl
  | onCommitBatch deliveries => exact filterMap_event?_map deliveries
  | released b => rfl

/-- A barrier at the head does not occur again. -/
theorem not_mem_of_barrier_cons
    {jobs : List (CommitJob V)} {b : Nat}
    (hnodup : ((CommitJob.barrier b :: jobs).filterMap CommitJob.barrier?).Nodup) :
    CommitJob.barrier b ∉ jobs := by
  intro hmem
  rw [List.filterMap_cons_some (show (CommitJob.barrier b : CommitJob V).barrier? = some b from rfl)]
    at hnodup
  exact (List.nodup_cons.mp hnodup).1 (List.mem_filterMap.mpr ⟨_, hmem, rfl⟩)

/-- There is one way to split the jobs at a barrier. -/
theorem barrier_split_unique
    {jobs : List (CommitJob V)} (hnodup : (jobs.filterMap CommitJob.barrier?).Nodup) {b : Nat}
    {pre pre' post post' : List (CommitJob V)} (h : jobs = pre ++ .barrier b :: post)
    (h' : jobs = pre' ++ .barrier b :: post') :
    pre = pre' := by
  induction pre generalizing jobs pre' with
  | nil =>
      cases pre' with
      | nil => rfl
      | cons x rest =>
          rw [h] at hnodup
          rw [h] at h'
          injection h' with _ hpost
          exact absurd (hpost ▸ List.mem_append_right rest List.mem_cons_self)
            (not_mem_of_barrier_cons hnodup)
  | cons y pre ih =>
      cases pre' with
      | nil =>
          rw [h'] at hnodup
          rw [h'] at h
          injection h with _ hpost
          exact absurd (hpost ▸ List.mem_append_right pre List.mem_cons_self)
            (not_mem_of_barrier_cons hnodup)
      | cons x rest =>
          rw [h] at h' hnodup
          injection h' with hhead htail
          rw [List.cons_append] at hnodup
          have hrest : ((pre ++ .barrier b :: post).filterMap CommitJob.barrier?).Nodup :=
            hnodup.sublist ((List.sublist_cons_self y _).filterMap _)
          rw [hhead, ih hrest rfl htail]

/-- The goroutine is blocked or done only when nothing is left. -/
theorem CommitLoop.Ok.nothing_left
    {batched : Bool} {loop : CommitLoop V} {ch : Channel (CommitJob V) commitQueueSize}
    (h : loop.Ok batched ch) (hblocked : runCommits batched ch loop = none) :
    loop.jobs ++ ch.buffer = [] := by
  cases loop with
  | top pending =>
      cases pending with
      | some job => cases hblocked
      | none =>
          rw [runCommits] at hblocked
          cases hrecv : ch.recv with
          | blocked => exact (Channel.recv_eq_blocked hrecv).1
          | closed =>
              rw [hrecv] at hblocked
              cases hblocked
          | item job c =>
              rw [hrecv] at hblocked
              cases hblocked
  | draining jobs =>
      rw [runCommits] at hblocked
      split at hblocked
      · split at hblocked
        · cases hblocked
        · cases hblocked
        · cases hblocked
        · split at hblocked <;> cases hblocked
      · cases hblocked
  | delivering jobs pending last => cases hblocked
  | returned => exact h.1

/-- Delivery is ordered and loses nothing. -/
structure CommitQueue.Delivers (batched : Bool) (s : CommitQueue V) : Prop where
  /-- What was delivered is a prefix of what entered the channel. -/
  inOrder : s.delivered <+: s.accepted
  /-- The goroutine waits or has returned only when everything was delivered. -/
  complete : runCommits batched s.commitCh s.loop = none → s.delivered = s.accepted
  /-- A batch is a run of jobs that were enqueued one after the other. -/
  batches : ∀ before deliveries after,
    s.outputs = before ++ .onCommitBatch deliveries :: after →
    BatchOk deliveries ∧
      ∃ rest, s.enqueued = before.flatMap CommitOutput.jobs ++ deliveries.map .event ++ rest
  /-- When a barrier is released, the events before it have been delivered. -/
  barriers : ∀ before b after, s.outputs = before ++ .released b :: after →
    ∃ pre post, s.enqueued = pre ++ .barrier b :: post ∧
      (∀ pre' post', s.enqueued = pre' ++ .barrier b :: post' → pre' = pre) ∧
      before.flatMap CommitOutput.events = pre.filterMap CommitJob.event?

theorem commitDelivery
    {batched : Bool} {actions : List (CommitAction V)} {s : CommitQueue V}
    (hs : (commitQueue V batched).run actions = some s) :
    s.Delivers batched ∧
      actions.countP CommitAction.isRunCommits ≤
        (metricCommitBatchSize + 2) * s.done.length + (metricCommitBatchSize + 1) := by
  have hinv := commitQueue_inv hs
  have hflow : s.outputs.flatMap CommitOutput.jobs ++ (s.loop.jobs ++ s.commitCh.buffer) =
      s.enqueued := by
    rw [← List.append_assoc]
    exact hinv.flow
  have haccepted : s.delivered ++
      (s.loop.jobs ++ s.commitCh.buffer).filterMap CommitJob.event? = s.accepted := by
    rw [CommitQueue.delivered, ← filterMap_event?_jobs, ← List.filterMap_append, hflow]
    rfl
  refine ⟨⟨⟨_, haccepted⟩, ?_, ?_, ?_⟩, commitQueue_keepsUp hs⟩
  · intro hblocked
    rw [← haccepted, hinv.loopOk.nothing_left hblocked]
    exact (List.append_nil _).symm
  · intro before deliveries after houtputs
    have hmem : CommitOutput.onCommitBatch deliveries ∈ s.outputs := by
      rw [houtputs]
      exact List.mem_append_right _ List.mem_cons_self
    refine ⟨hinv.outputsOk _ hmem,
      after.flatMap CommitOutput.jobs ++ (s.loop.jobs ++ s.commitCh.buffer), ?_⟩
    rw [← hflow, houtputs, List.flatMap_append, List.flatMap_cons]
    simp only [CommitOutput.jobs, List.append_assoc]
  · intro before b after houtputs
    have henqueued : s.enqueued = before.flatMap CommitOutput.jobs ++
        .barrier b :: (after.flatMap CommitOutput.jobs ++ (s.loop.jobs ++ s.commitCh.buffer)) := by
      rw [← hflow, houtputs, List.flatMap_append, List.flatMap_cons]
      simp only [CommitOutput.jobs, List.append_assoc, List.cons_append, List.nil_append]
    refine ⟨_, _, henqueued, ?_, (filterMap_event?_jobs before).symm⟩
    intro pre' post' h'
    exact barrier_split_unique hinv.barriers h' henqueued

end Model

/-! ### One run -/

def sampleMetricsEvent : CommitEvent ℚ := .metrics ⟨[], [], [], [], []⟩

def sampleLogsEvent : CommitEvent ℚ := .logs ⟨[], []⟩

/-- Two metric events and a log event, a barrier, and the end. -/
def sampleCommitRun : List (CommitAction ℚ) :=
  [.dispatchCommit sampleMetricsEvent, .dispatchCommit sampleMetricsEvent,
    .dispatchCommit sampleLogsEvent, .awaitCommitDrain,
    .runCommits, .runCommits, .runCommits, .runCommits, .runCommits, .runCommits, .runCommits,
    .drained, .writerExits, .closeCommitCh, .runCommits]

/-- The metric events share a call, the job that ended their batch comes next. -/
theorem commitDelivery_sample :
    ∃ s, (commitQueue ℚ true).run sampleCommitRun = some s ∧
      s.outputs = [.onCommitBatch [sampleMetricsEvent, sampleMetricsEvent],
        .onCommitBatch [sampleLogsEvent], .released 0] ∧
      s.Delivers true ∧
      sampleCommitRun.countP CommitAction.isRunCommits ≤
        (metricCommitBatchSize + 2) * s.done.length + (metricCommitBatchSize + 1) :=
  ⟨_, rfl, rfl, commitDelivery rfl⟩

end Storage
end Otelop
