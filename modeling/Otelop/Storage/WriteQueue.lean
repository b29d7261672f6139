import Mathlib.Tactic
import Otelop.Lib.Channel
import Otelop.Lib.Machine
import Otelop.Lib.RWMutex
import Otelop.Storage.Writer

/-!
# The write queue

`enqueue`, `enqueueBlocking`, `Close` and the loop `run` of
`internal/storage/storage.go`, with every operation on the lock and on a channel
as a step of its own.  Any number of callers is under way at once; caller `0` is
the goroutine `sweepLoop`, which `Close` waits for together with the writer.

A caller's place is the operation it performs next.  A message is offered under a
number of its own, and what happened to it is kept in the history fields of the
state.  Processing a message is one step; what it does to the store is described
in `Runs`.

**Results.**
* `writeQueue_inv`: the lock, the flag and the channel agree in every run.
* `writeQueue_promises`: order, refusal and completion around `Close`.
-/

namespace Otelop
namespace Storage

open Lib

def writeQueueSize : Nat := 1024

/-- `writerMsg` -/
inductive WriterMsg (V : Type) where
  | traces (batch : TraceBatch)
  | metrics (batch : MetricBatch V)
  | logs (batch : LogBatch)
  | sync
  | sweep
  | clear

/-- The messages `enqueueBlocking` submits. -/
def WriterMsg.isControl {V : Type} : WriterMsg V → Bool
  | .sync | .sweep | .clear => true
  | _ => false

/-- `ctx.Done()` is a case of the wait for this message. -/
def WriterMsg.canGiveUp {V : Type} : WriterMsg V → Bool
  | .sweep | .clear => true
  | _ => false

def WriterMsg.isSweep {V : Type} : WriterMsg V → Bool
  | .sweep => true
  | _ => false

/-- An offered message, with its number. -/
structure Offer (V : Type) where
  id : Nat
  msg : WriterMsg V

/-- The operation a caller performs next. -/
inductive Caller (V : Type) where
  | idle
  -- `enqueue` and `enqueueBlocking`
  | rLock (offer : Offer V)
  | checkClosed (offer : Offer V)
  | send (offer : Offer V)
  | rUnlock (wait : Option (Offer V))
  | await (offer : Offer V)
  -- `Close`
  | lock
  | setClosed
  | unlockAgain
  | closeQueue
  | unlock
  | stopSweeps
  | waitGroup
  | closeCommits

/-- Where `run` stands. -/
inductive RunLoop (V : Type) where
  | receiving
  | processing (offer : Offer V)
  | exited

/-- What became of an offered message. -/
inductive Outcome where
  | accepted
  | dropped
  | refused
deriving DecidableEq

structure WriteQueue (V : Type) where
  mu : RWMutex Nat
  closed : Bool
  queue : Channel (Offer V) writeQueueSize
  writer : RunLoop V
  callers : Nat → Caller V
  sweepStop : Bool
  sweepLoopExited : Bool
  commitChClosed : Bool
  /-- A send on a closed channel, or a channel closed twice. -/
  fault : Bool
  nextID : Nat
  settled : List (Offer V × Outcome)
  processed : List (Offer V)
  /-- The messages whose call began when the queue was closed. -/
  late : List Nat
  /-- The `Close` that closed the queue has returned. -/
  closeReturned : Bool

inductive QueueAction (V : Type) where
  | call (c : Nat) (msg : WriterMsg V)
  | callClose (c : Nat)
  | proceed (c : Nat)
  | giveUp (c : Nat)
  | run
  | sweepLoopExits

/-- The caller that `sweepLoop` is. -/
def sweepLoop : Nat := 0

section Model

variable {V : Type}

/-- The caller goes on to `next`. -/
def WriteQueue.goto (s : WriteQueue V) (c : Nat) (next : Caller V) : WriteQueue V :=
  { s with callers := Function.update s.callers c next }

/-- The accepted messages, in the order of their sends. -/
def WriteQueue.accepted (s : WriteQueue V) : List (Offer V) :=
  s.settled.filterMap fun x => if x.2 = .accepted then some x.1 else none

/-- What `run` has received and not yet processed. -/
def RunLoop.held : RunLoop V → List (Offer V)
  | .processing offer => [offer]
  | _ => []

def RunLoop.hasExited : RunLoop V → Bool
  | .exited => true
  | _ => false

/-- The select of `enqueue`, or the send of `enqueueBlocking`. -/
def WriteQueue.sendMsg (s : WriteQueue V) (c : Nat) (offer : Offer V) : Option (WriteQueue V) :=
  if s.queue.closed then some { s.goto c .idle with fault := true }
  else
    match s.queue.send offer with
    | some queue =>
        some { s.goto c (.rUnlock (if offer.msg.isControl then some offer else none)) with
          queue := queue
          settled := s.settled ++ [(offer, .accepted)] }
    | none =>
        if offer.msg.isControl then none
        else some { s.goto c (.rUnlock none) with settled := s.settled ++ [(offer, .dropped)] }

/-- The next step of a caller; there is none while it is blocked. -/
def WriteQueue.proceed (s : WriteQueue V) (c : Nat) : Option (WriteQueue V) :=
  match s.callers c with
  | .idle => none
  | .rLock offer =>
      (s.mu.rLock c).map fun mu => { s.goto c (.checkClosed offer) with mu := mu }
  | .checkClosed offer =>
      if s.closed then
        some { s.goto c (.rUnlock none) with settled := s.settled ++ [(offer, .refused)] }
      else some (s.goto c (.send offer))
  | .send offer => s.sendMsg c offer
  | .rUnlock wait =>
      some { s.goto c (wait.elim .idle .await) with mu := s.mu.rUnlock c }
  | .await offer =>
      if (s.processed.map Offer.id).contains offer.id then some (s.goto c .idle) else none
  | .lock => (s.mu.lock c).map fun mu => { s.goto c .setClosed with mu := mu }
  | .setClosed =>
      if s.closed then some (s.goto c .unlockAgain)
      else some { s.goto c .closeQueue with closed := true }
  | .unlockAgain => some { s.goto c .idle with mu := s.mu.unlock }
  | .closeQueue =>
      if s.queue.closed then some { s.goto c .idle with fault := true }
      else some { s.goto c .unlock with queue := s.queue.close }
  | .unlock => some { s.goto c .stopSweeps with mu := s.mu.unlock }
  | .stopSweeps => some { s.goto c .waitGroup with sweepStop := true }
  | .waitGroup =>
      if s.writer.hasExited && s.sweepLoopExited then some (s.goto c .closeCommits) else none
  | .closeCommits =>
      some { s.goto c .idle with commitChClosed := true, closeReturned := true }

/-- One round of `for msg := range s.queue`, in two steps. -/
def WriteQueue.run (s : WriteQueue V) : Option (WriteQueue V) :=
  match s.writer with
  | .receiving =>
      match s.queue.recv with
      | .blocked => none
      | .closed => some { s with writer := .exited }
      | .item offer queue => some { s with writer := .processing offer, queue := queue }
  | .processing offer =>
      some { s with writer := .receiving, processed := s.processed ++ [offer] }
  | .exited => none

/-- A call begins.  `sweepLoop` calls `Sweep` only. -/
def WriteQueue.call (s : WriteQueue V) (c : Nat) (msg : WriterMsg V) : Option (WriteQueue V) :=
  match s.callers c with
  | .idle =>
      if c = sweepLoop && (s.sweepLoopExited || !msg.isSweep) then none
      else
        some { s.goto c (.rLock ⟨s.nextID, msg⟩) with
          nextID := s.nextID + 1
          late := if s.queue.closed then s.late ++ [s.nextID] else s.late }
  | _ => none

def WriteQueue.callClose (s : WriteQueue V) (c : Nat) : Option (WriteQueue V) :=
  match s.callers c with
  | .idle => if c = sweepLoop then none else some (s.goto c .lock)
  | _ => none

/-- `case <-ctx.Done()` -/
def WriteQueue.giveUp (s : WriteQueue V) (c : Nat) : Option (WriteQueue V) :=
  match s.callers c with
  | .await offer =>
      if offer.msg.canGiveUp && !decide (c = sweepLoop) then some (s.goto c .idle) else none
  | _ => none

/-- `case <-s.sweepStop` -/
def WriteQueue.exitSweepLoop (s : WriteQueue V) : Option (WriteQueue V) :=
  match s.callers sweepLoop with
  | .idle =>
      if s.sweepStop && !s.sweepLoopExited then some { s with sweepLoopExited := true } else none
  | _ => none

def WriteQueue.step (s : WriteQueue V) : QueueAction V → Option (WriteQueue V)
  | .call c msg => s.call c msg
  | .callClose c => s.callClose c
  | .proceed c => s.proceed c
  | .giveUp c => s.giveUp c
  | .run => s.run
  | .sweepLoopExits => s.exitSweepLoop

/-- The queue and its parties, from `Open` on. -/
def writeQueue (V : Type) : Machine (WriteQueue V) (QueueAction V) where
  init :=
    { mu := .free
      closed := false
      queue := .empty
      writer := .receiving
      callers := fun _ => .idle
      sweepStop := false
      sweepLoopExited := false
      commitChClosed := false
      fault := false
      nextID := 0
      settled := []
      processed := []
      late := []
      closeReturned := false }
  step := WriteQueue.step

/-! ### The numbers of the messages -/

/-- The message a caller is about to send. -/
def Caller.offer? : Caller V → Option (Offer V)
  | .rLock offer | .checkClosed offer | .send offer => some offer
  | _ => none

/-- Every number belongs to one message, which is pending at one caller or settled once;
a late message is refused. -/
structure Numbered (pending : Nat → Option (Offer V)) (settled : List (Offer V × Outcome))
    (nextID : Nat) (late : List Nat) (queueClosed : Bool) : Prop where
  pending_lt : ∀ c o, pending c = some o → o.id < nextID
  pending_inj : ∀ c c' o o', pending c = some o → pending c' = some o' → o.id = o'.id → c = c'
  pending_new : ∀ c o, pending c = some o → o.id ∉ settled.map fun x => x.1.id
  settled_nodup : (settled.map fun x => x.1.id).Nodup
  settled_lt : ∀ x ∈ settled, x.1.id < nextID
  late_closed : late ≠ [] → queueClosed = true
  late_refused : ∀ id ∈ late,
    (∃ o, o.id = id ∧ (o, Outcome.refused) ∈ settled) ∨ ∃ c o, pending c = some o ∧ o.id = id

section Numbered

variable {pending : Nat → Option (Offer V)} {settled : List (Offer V × Outcome)} {nextID : Nat}
  {late : List Nat} {queueClosed : Bool}

/-- A call begins with a number of its own. -/
theorem Numbered.call
    (h : Numbered pending settled nextID late queueClosed) {c : Nat} (hc : pending c = none)
    (msg : WriterMsg V) :
    Numbered (Function.update pending c (some ⟨nextID, msg⟩)) settled (nextID + 1)
      (if queueClosed then late ++ [nextID] else late) queueClosed := by
  have hother : ∀ {x o}, Function.update pending c (some ⟨nextID, msg⟩) x = some o →
      x = c ∧ o.id = nextID ∨ x ≠ c ∧ pending x = some o := by
    intro x o hx
    by_cases hxc : x = c
    · rw [hxc, Function.update_self] at hx
      cases hx
      exact Or.inl ⟨hxc, rfl⟩
    · rw [Function.update_of_ne hxc] at hx
      exact Or.inr ⟨hxc, hx⟩
  have hlate : ∀ id ∈ late, (∃ o, o.id = id ∧ (o, Outcome.refused) ∈ settled) ∨
      ∃ x o, Function.update pending c (some ⟨nextID, msg⟩) x = some o ∧ o.id = id := by
    intro id hid
    rcases h.late_refused id hid with hrefused | ⟨x, o, hx, hoid⟩
    · exact Or.inl hrefused
    · have hxc : x ≠ c := by
        rintro rfl
        rw [hc] at hx
        cases hx
      exact Or.inr ⟨x, o, by rw [Function.update_of_ne hxc, hx], hoid⟩
  refine ⟨?_, ?_, ?_, h.settled_nodup, fun x hx => Nat.lt_succ_of_lt (h.settled_lt x hx),
    ?_, ?_⟩
  · intro x o hx
    rcases hother hx with ⟨-, hid⟩ | ⟨-, hx⟩
    · omega
    · exact Nat.lt_succ_of_lt (h.pending_lt x o hx)
  · intro x x' o o' hx hx' hid
    rcases hother hx with ⟨hxc, ho⟩ | ⟨-, hold⟩ <;>
      rcases hother hx' with ⟨hxc', ho'⟩ | ⟨-, hold'⟩
    · rw [hxc, hxc']
    · have := h.pending_lt x' o' hold'
      omega
    · have := h.pending_lt x o hold
      omega
    · exact h.pending_inj x x' o o' hold hold' hid
  · intro x o hx
    rcases hother hx with ⟨-, hid⟩ | ⟨-, hx⟩
    · intro hmem
      obtain ⟨y, hy, hyid⟩ := List.mem_map.mp hmem
      have := h.settled_lt y hy
      omega
    · exact h.pending_new x o hx
  · intro hne
    split at hne
    · assumption
    · exact h.late_closed hne
  · intro id hid
    split at hid
    · rcases List.mem_append.mp hid with hid | hid
      · exact hlate id hid
      · rw [List.mem_singleton.mp hid]
        exact Or.inr ⟨c, ⟨nextID, msg⟩, Function.update_self .., rfl⟩
    · exact hlate id hid

/-- A pending message is settled. -/
theorem Numbered.settle
    (h : Numbered pending settled nextID late queueClosed) {c : Nat} {offer : Offer V}
    (hc : pending c = some offer) {outcome : Outcome}
    (houtcome : queueClosed = true → outcome = .refused) :
    Numbered (Function.update pending c none) (settled ++ [(offer, outcome)]) nextID late
      queueClosed := by
  have hother : ∀ {x o}, Function.update pending c none x = some o →
      x ≠ c ∧ pending x = some o := by
    intro x o hx
    by_cases hxc : x = c
    · rw [hxc, Function.update_self] at hx
      cases hx
    · rw [Function.update_of_ne hxc] at hx
      exact ⟨hxc, hx⟩
  have hids : (settled ++ [(offer, outcome)]).map (fun x => x.1.id) =
      settled.map (fun x => x.1.id) ++ [offer.id] := by
    rw [List.map_append, List.map_singleton]
  refine ⟨fun x o hx => h.pending_lt x o (hother hx).2, ?_, ?_, ?_, ?_, h.late_closed, ?_⟩
  · intro x x' o o' hx hx' hid
    exact h.pending_inj x x' o o' (hother hx).2 (hother hx').2 hid
  · intro x o hx hmem
    obtain ⟨hxc, hx⟩ := hother hx
    rw [hids] at hmem
    rcases List.mem_append.mp hmem with hmem | hmem
    · exact h.pending_new x o hx hmem
    · exact hxc (h.pending_inj x c o offer hx hc (List.mem_singleton.mp hmem))
  · rw [hids]
    refine List.nodup_append'.mpr ⟨h.settled_nodup, List.nodup_singleton _, ?_⟩
    intro id hid hid'
    rw [List.mem_singleton.mp hid'] at hid
    exact h.pending_new c offer hc hid
  · intro x hx
    rcases List.mem_append.mp hx with hx | hx
    · exact h.settled_lt x hx
    · rw [List.mem_singleton.mp hx]
      exact h.pending_lt c offer hc
  · intro id hid
    rcases h.late_refused id hid with ⟨o, ho, hmem⟩ | ⟨x, o, hx, hoid⟩
    · exact Or.inl ⟨o, ho, List.mem_append_left _ hmem⟩
    · by_cases hxc : x = c
      · rw [hxc, hc] at hx
        cases hx
        have hclosed := h.late_closed (List.ne_nil_of_mem hid)
        refine Or.inl ⟨offer, hoid, List.mem_append_right _ ?_⟩
        rw [houtcome hclosed]
        exact List.mem_singleton.mpr rfl
      · exact Or.inr ⟨x, o, by rw [Function.update_of_ne hxc, hx], hoid⟩

end Numbered

/-! ### The invariant of the queue -/

/-- The caller holds the lock as a reader. -/
def Caller.reads : Caller V → Bool
  | .checkClosed _ | .send _ | .rUnlock _ => true
  | _ => false

/-- The caller holds the lock as the writer. -/
def Caller.writes : Caller V → Bool
  | .setClosed | .unlockAgain | .closeQueue | .unlock => true
  | _ => false

/-- What a caller can rely on where it stands. -/
def Caller.Ok (closed queueClosed exited : Bool) : Caller V → Prop
  | .send _ => closed = false
  | .closeQueue => closed = true ∧ queueClosed = false
  | .unlock | .stopSweeps | .waitGroup => queueClosed = true
  | .closeCommits => queueClosed = true ∧ exited = true
  | _ => True

/-- What holds in every run. -/
structure WriteQueue.Inv (s : WriteQueue V) : Prop where
  lock : s.mu.Agrees Caller.reads Caller.writes s.callers
  callers : ∀ c, (s.callers c).Ok s.closed s.queue.closed s.writer.hasExited
  closed : s.queue.closed = true → s.closed = true
  flow : s.processed ++ s.writer.held ++ s.queue.buffer = s.accepted
  exited : s.writer.hasExited = true → s.queue.closed = true ∧ s.queue.buffer = []
  noFault : s.fault = false
  returned : s.closeReturned = true → s.writer.hasExited = true
  commits : s.commitChClosed = true → s.writer.hasExited = true
  numbered : Numbered (fun c => (s.callers c).offer?) s.settled s.nextID s.late s.queue.closed

/-- A property of every caller, after one of them has moved. -/
theorem forall_update
    {P : Caller V → Prop} {callers : Nat → Caller V} {c : Nat} {next : Caller V}
    (h : ∀ x, x ≠ c → P (callers x)) (hnext : P next) :
    ∀ x, P (Function.update callers c next x) := by
  intro x
  by_cases hx : x = c
  · rw [hx, Function.update_self]
    exact hnext
  · rw [Function.update_of_ne hx]
    exact h x hx

theorem offer?_update (callers : Nat → Caller V) (c : Nat) (next : Caller V) :
    (fun x => (Function.update callers c next x).offer?) =
      Function.update (fun x => (callers x).offer?) c next.offer? := by
  funext x
  by_cases hx : x = c
  · rw [hx, Function.update_self, Function.update_self]
  · rw [Function.update_of_ne hx, Function.update_of_ne hx]

/-- A caller that moves on with what it was about to send. -/
theorem Numbered.move
    {callers : Nat → Caller V} {settled : List (Offer V × Outcome)} {nextID : Nat}
    {late : List Nat} {queueClosed : Bool} {c : Nat} {next : Caller V}
    (h : Numbered (fun x => (callers x).offer?) settled nextID late queueClosed)
    (hnext : next.offer? = (callers c).offer?) :
    Numbered (fun x => (Function.update callers c next x).offer?) settled nextID late
      queueClosed := by
  rw [offer?_update, hnext, Function.update_eq_self c fun x => (callers x).offer?]
  exact h

theorem writeQueue_init_inv : (writeQueue V).init.Inv where
  lock := ⟨fun i => by simp [writeQueue, RWMutex.free, Caller.reads],
    fun i => by simp [writeQueue, RWMutex.free, Caller.writes]⟩
  callers _ := trivial
  closed h := nomatch h
  flow := rfl
  exited h := nomatch h
  noFault := rfl
  returned h := nomatch h
  commits h := nomatch h
  numbered :=
    { pending_lt := fun _ _ h => nomatch h
      pending_inj := fun _ _ _ _ h => nomatch h
      pending_new := fun _ _ h => nomatch h
      settled_nodup := List.nodup_nil
      settled_lt := fun _ h => nomatch h
      late_closed := fun h => absurd rfl h
      late_refused := fun _ h => nomatch h }

/-- A caller moves on, and takes or leaves the lock with it. -/
theorem WriteQueue.Inv.goto
    {s : WriteQueue V} (h : s.Inv) {c : Nat} {next : Caller V} {mu : RWMutex Nat}
    (hlock : mu.Agrees Caller.reads Caller.writes (Function.update s.callers c next))
    (hnext : next.Ok s.closed s.queue.closed s.writer.hasExited)
    (hoffer : next.offer? = (s.callers c).offer?) :
    ({ s.goto c next with mu := mu } : WriteQueue V).Inv where
  lock := hlock
  callers := forall_update (fun x _ => h.callers x) hnext
  closed := h.closed
  flow := h.flow
  exited := h.exited
  noFault := h.noFault
  returned := h.returned
  commits := h.commits
  numbered := h.numbered.move hoffer

theorem accepted_snoc (settled : List (Offer V × Outcome)) (offer : Offer V)
    (outcome : Outcome) :
    (settled ++ [(offer, outcome)]).filterMap
        (fun x => if x.2 = .accepted then some x.1 else none) =
      settled.filterMap (fun x => if x.2 = .accepted then some x.1 else none) ++
        if outcome = .accepted then [offer] else [] := by
  rw [List.filterMap_append]
  cases outcome <;> rfl

/-! ### One step -/

/-- Nobody who reads is there when the flag is set. -/
theorem Caller.Ok.setClosed
    {caller : Caller V} {queueClosed exited : Bool} (h : caller.Ok false queueClosed exited)
    (hreads : caller.reads = false) : caller.Ok true queueClosed exited := by
  cases caller with
  | send offer => cases hreads
  | closeQueue => exact ⟨rfl, h.2⟩
  | _ => exact h

/-- Nobody else is about to close the channel when it is closed. -/
theorem Caller.Ok.closeQueue
    {caller : Caller V} {closed exited : Bool} (h : caller.Ok closed false exited)
    (hwrites : caller.writes = false) : caller.Ok closed true exited := by
  cases caller with
  | closeQueue => cases hwrites
  | unlock => cases hwrites
  | stopSweeps => rfl
  | waitGroup => rfl
  | closeCommits => exact ⟨rfl, h.2⟩
  | _ => exact h

theorem Caller.Ok.exit
    {caller : Caller V} {closed queueClosed : Bool} (h : caller.Ok closed queueClosed false) :
    caller.Ok closed queueClosed true := by
  cases caller with
  | closeCommits => exact ⟨h.1, rfl⟩
  | _ => exact h

/-- A message is settled without entering the channel. -/
theorem WriteQueue.Inv.settle
    {s : WriteQueue V} (h : s.Inv) {c : Nat} {offer : Offer V}
    (hoffer : (s.callers c).offer? = some offer) (hreads : (s.callers c).reads = true)
    {outcome : Outcome} (hnot : outcome ≠ .accepted)
    (houtcome : s.queue.closed = true → outcome = .refused) :
    ({ s.goto c (.rUnlock none) with settled := s.settled ++ [(offer, outcome)] } :
      WriteQueue V).Inv where
  lock := by
    refine h.lock.move hreads.symm ?_
    cases hwrites : (s.callers c).writes with
    | false => rfl
    | true =>
        rw [h.lock.not_reads_of_writes hwrites c] at hreads
        cases hreads
  callers := forall_update (fun x _ => h.callers x) trivial
  closed := h.closed
  flow := by
    show _ = List.filterMap _ (s.settled ++ [(offer, outcome)])
    rw [accepted_snoc, if_neg hnot, List.append_nil]
    exact h.flow
  exited := h.exited
  noFault := h.noFault
  returned := h.returned
  commits := h.commits
  numbered := by
    show Numbered (fun x => (Function.update s.callers c (.rUnlock none) x).offer?) _ _ _ _
    rw [offer?_update]
    exact h.numbered.settle hoffer houtcome

theorem WriteQueue.Inv.sendMsg
    {s s' : WriteQueue V} (h : s.Inv) {c : Nat} {offer : Offer V}
    (hc : s.callers c = .send offer) (hstep : s.sendMsg c offer = some s') : s'.Inv := by
  have hok := h.callers c
  rw [hc] at hok
  have hopen : s.queue.closed = false := by
    rw [← Bool.not_eq_true]
    intro hclosed
    rw [h.closed hclosed] at hok
    cases hok
  have hoffer : (s.callers c).offer? = some offer := by rw [hc]; rfl
  rw [WriteQueue.sendMsg, hopen] at hstep
  simp only [Bool.false_eq_true, if_false] at hstep
  cases hsend : s.queue.send offer with
  | none =>
      rw [hsend] at hstep
      simp only at hstep
      split at hstep
      · cases hstep
      · cases hstep
        refine h.settle hoffer (by rw [hc]; rfl) (by decide) fun hclosed => ?_
        rw [hopen] at hclosed
        cases hclosed
  | some queue =>
      rw [hsend] at hstep
      cases hstep
      obtain ⟨hbuffer, hclosed⟩ := Channel.send_eq_some hsend
      have hqueue : queue.closed = false := hclosed.trans hopen
      have hrunning : s.writer.hasExited ≠ true := by
        intro hexited
        rw [(h.exited hexited).1] at hopen
        cases hopen
      refine ⟨?_, ?_, ?_, ?_, fun hexited => absurd hexited hrunning, h.noFault,
        fun hr => absurd (h.returned hr) hrunning, fun hr => absurd (h.commits hr) hrunning, ?_⟩
      · exact h.lock.move (by rw [hc]; rfl) (by rw [hc]; rfl)
      · refine forall_update (fun x _ => ?_) trivial
        show (s.callers x).Ok s.closed queue.closed s.writer.hasExited
        rw [hqueue, ← hopen]
        exact h.callers x
      · intro hq
        rw [show queue.closed = false from hqueue] at hq
        cases hq
      · show s.processed ++ s.writer.held ++ queue.buffer =
          List.filterMap _ (s.settled ++ [(offer, .accepted)])
        rw [accepted_snoc, if_pos rfl, hbuffer, ← List.append_assoc, h.flow]
        rfl
      · show Numbered (fun x => (Function.update s.callers c _ x).offer?) _ _ _ queue.closed
        rw [offer?_update, hqueue, ← hopen]
        refine h.numbered.settle hoffer fun hq => ?_
        rw [hopen] at hq
        cases hq

/-- The flag is set by the one caller that writes. -/
theorem WriteQueue.Inv.setClosed
    {s : WriteQueue V} (h : s.Inv) {c : Nat} (hc : s.callers c = .setClosed)
    (hopen : s.closed = false) :
    ({ s.goto c .closeQueue with closed := true } : WriteQueue V).Inv where
  lock := h.lock.move (by rw [hc]; rfl) (by rw [hc]; rfl)
  callers := by
    refine forall_update (fun x _ => ?_) ⟨rfl, ?_⟩
    · have hx := h.callers x
      rw [hopen] at hx
      exact hx.setClosed (h.lock.not_reads_of_writes (by rw [hc]; rfl) x)
    · cases hqueue : s.queue.closed with
      | false => exact hqueue
      | true =>
          rw [h.closed hqueue] at hopen
          cases hopen
  closed _ := rfl
  flow := h.flow
  exited := h.exited
  noFault := h.noFault
  returned := h.returned
  commits := h.commits
  numbered := h.numbered.move (by rw [hc]; rfl)

/-- The channel is closed once. -/
theorem WriteQueue.Inv.closeQueue
    {s : WriteQueue V} (h : s.Inv) {c : Nat} (hc : s.callers c = .closeQueue) :
    s.queue.closed = false ∧
      ({ s.goto c .unlock with queue := s.queue.close } : WriteQueue V).Inv := by
  have hok := h.callers c
  rw [hc] at hok
  obtain ⟨hclosed, hqueue⟩ := hok
  have hrunning : s.writer.hasExited ≠ true := by
    intro hexited
    rw [(h.exited hexited).1] at hqueue
    cases hqueue
  refine ⟨hqueue, ?_, ?_, fun _ => hclosed, h.flow, fun hexited => absurd hexited hrunning,
    h.noFault, h.returned, h.commits, ?_⟩
  · exact h.lock.move (by rw [hc]; rfl) (by rw [hc]; rfl)
  · refine forall_update (fun x hx => ?_) rfl
    have hothers := h.callers x
    rw [hqueue] at hothers
    refine hothers.closeQueue ?_
    rw [← Bool.not_eq_true]
    exact fun hw => hx (h.lock.writes_unique hw (by rw [hc]; rfl))
  · have hmoved : Numbered (fun x => (Function.update s.callers c .unlock x).offer?)
        s.settled s.nextID s.late s.queue.closed := h.numbered.move (by rw [hc]; rfl)
    exact { hmoved with late_closed := fun _ => rfl }

theorem WriteQueue.Inv.proceed
    {s s' : WriteQueue V} (h : s.Inv) {c : Nat} (hstep : s.proceed c = some s') : s'.Inv := by
  have hok := h.callers c
  rw [WriteQueue.proceed] at hstep
  cases hc : s.callers c with
  | idle =>
      rw [hc] at hstep
      cases hstep
  | rLock offer =>
      rw [hc] at hstep
      obtain ⟨mu, hmu, rfl⟩ := Option.map_eq_some_iff.mp hstep
      exact h.goto (h.lock.rLock hmu rfl rfl) trivial (by rw [hc]; rfl)
  | checkClosed offer =>
      rw [hc] at hstep
      simp only at hstep
      split at hstep
      · cases hstep
        exact h.settle (by rw [hc]; rfl) (by rw [hc]; rfl) (by decide) fun _ => rfl
      · rename_i hopen
        cases hstep
        exact h.goto (h.lock.move (by rw [hc]; rfl) (by rw [hc]; rfl))
          (Bool.eq_false_iff.mpr hopen) (by rw [hc]; rfl)
  | send offer =>
      rw [hc] at hstep
      exact h.sendMsg hc hstep
  | rUnlock wait =>
      rw [hc] at hstep
      cases hstep
      exact h.goto
        (h.lock.rUnlock (by rw [hc]; rfl) (by cases wait <;> rfl) (by cases wait <;> rfl))
        (by cases wait <;> trivial) (by rw [hc]; cases wait <;> rfl)
  | await offer =>
      rw [hc] at hstep
      simp only at hstep
      split at hstep <;> cases hstep
      exact h.goto (h.lock.move (by rw [hc]; rfl) (by rw [hc]; rfl)) trivial (by rw [hc]; rfl)
  | lock =>
      rw [hc] at hstep
      obtain ⟨mu, hmu, rfl⟩ := Option.map_eq_some_iff.mp hstep
      exact h.goto (h.lock.lock hmu rfl rfl) trivial (by rw [hc]; rfl)
  | setClosed =>
      rw [hc] at hstep
      simp only at hstep
      split at hstep
      · cases hstep
        exact h.goto (h.lock.move (by rw [hc]; rfl) (by rw [hc]; rfl)) trivial (by rw [hc]; rfl)
      · rename_i hopen
        cases hstep
        exact h.setClosed hc (Bool.eq_false_iff.mpr hopen)
  | unlockAgain =>
      rw [hc] at hstep
      cases hstep
      exact h.goto (h.lock.unlock (by rw [hc]; rfl) rfl rfl) trivial (by rw [hc]; rfl)
  | closeQueue =>
      obtain ⟨hqueue, hinv⟩ := h.closeQueue hc
      rw [hc] at hstep
      simp only [hqueue, Bool.false_eq_true, if_false] at hstep
      cases hstep
      exact hinv
  | unlock =>
      rw [hc] at hstep hok
      cases hstep
      exact h.goto (h.lock.unlock (by rw [hc]; rfl) rfl rfl) hok (by rw [hc]; rfl)
  | stopSweeps =>
      rw [hc] at hstep hok
      cases hstep
      have hmoved : (s.goto c .waitGroup).Inv := h.goto
        (h.lock.move (by rw [hc]; rfl) (by rw [hc]; rfl)) hok (by rw [hc]; rfl)
      exact { hmoved with }
  | waitGroup =>
      rw [hc] at hstep hok
      simp only at hstep
      split at hstep <;> cases hstep
      rename_i hwait
      rw [Bool.and_eq_true] at hwait
      exact h.goto (h.lock.move (by rw [hc]; rfl) (by rw [hc]; rfl)) ⟨hok, hwait.1⟩
        (by rw [hc]; rfl)
  | closeCommits =>
      rw [hc] at hstep hok
      cases hstep
      have hmoved : (s.goto c .idle).Inv := h.goto
        (h.lock.move (by rw [hc]; rfl) (by rw [hc]; rfl)) trivial (by rw [hc]; rfl)
      exact { hmoved with returned := fun _ => hok.2, commits := fun _ => hok.2 }

theorem WriteQueue.Inv.run
    {s s' : WriteQueue V} (h : s.Inv) (hstep : s.run = some s') : s'.Inv := by
  have hflow := h.flow
  have hcallers := h.callers
  rw [WriteQueue.run] at hstep
  cases hw : s.writer with
  | receiving =>
      rw [hw] at hstep hflow hcallers
      simp only at hstep
      have hrunning : s.writer.hasExited ≠ true := by
        rw [hw]
        exact fun hexited => nomatch hexited
      cases hrecv : s.queue.recv with
      | blocked =>
          rw [hrecv] at hstep
          cases hstep
      | closed =>
          rw [hrecv] at hstep
          cases hstep
          obtain ⟨hbuffer, hclosed⟩ := Channel.recv_eq_closed hrecv
          exact ⟨h.lock, fun c => (hcallers c).exit, h.closed, hflow,
            fun _ => ⟨hclosed, hbuffer⟩, h.noFault, fun _ => rfl, fun _ => rfl, h.numbered⟩
      | item offer queue =>
          rw [hrecv] at hstep
          cases hstep
          obtain ⟨hbuffer, hclosed⟩ := Channel.recv_eq_item hrecv
          refine ⟨h.lock, ?_, ?_, ?_, (fun hexited => nomatch hexited), h.noFault,
            fun hr => absurd (h.returned hr) hrunning,
            fun hr => absurd (h.commits hr) hrunning, ?_⟩
          · intro c
            show (s.callers c).Ok s.closed queue.closed false
            rw [hclosed]
            exact hcallers c
          · exact fun hq => h.closed (hclosed ▸ hq)
          · rw [hbuffer] at hflow
            show s.processed ++ [offer] ++ queue.buffer = s.accepted
            rw [List.append_assoc]
            exact (congrArg (· ++ offer :: queue.buffer) (List.append_nil _)).symm.trans hflow
          · show Numbered _ _ _ _ queue.closed
            rw [hclosed]
            exact h.numbered
  | processing offer =>
      rw [hw] at hstep hflow hcallers
      cases hstep
      have hrunning : s.writer.hasExited ≠ true := by
        rw [hw]
        exact fun hexited => nomatch hexited
      refine ⟨h.lock, hcallers, h.closed, ?_, (fun hexited => nomatch hexited), h.noFault,
        fun hr => absurd (h.returned hr) hrunning, fun hr => absurd (h.commits hr) hrunning,
        h.numbered⟩
      show s.processed ++ [offer] ++ [] ++ s.queue.buffer = s.accepted
      rw [List.append_nil]
      exact hflow
  | exited =>
      rw [hw] at hstep
      cases hstep

theorem WriteQueue.Inv.call
    {s s' : WriteQueue V} (h : s.Inv) {c : Nat} {msg : WriterMsg V}
    (hstep : s.call c msg = some s') : s'.Inv := by
  rw [WriteQueue.call] at hstep
  split at hstep
  · rename_i hc
    split at hstep
    · cases hstep
    · cases hstep
      refine ⟨h.lock.move (by rw [hc]; rfl) (by rw [hc]; rfl),
        forall_update (fun x _ => h.callers x) trivial, h.closed, h.flow, h.exited, h.noFault,
        h.returned, h.commits, ?_⟩
      show Numbered (fun x => (Function.update s.callers c (.rLock ⟨s.nextID, msg⟩) x).offer?)
        _ _ _ _
      rw [offer?_update]
      exact h.numbered.call (by rw [hc]; rfl) msg
  · cases hstep

/-- What holds initially is kept by every step. -/
theorem WriteQueue.Inv.step
    {s s' : WriteQueue V} {a : QueueAction V} (h : s.Inv) (hstep : s.step a = some s') :
    s'.Inv := by
  cases a with
  | call c msg => exact h.call hstep
  | callClose c =>
      rw [WriteQueue.step, WriteQueue.callClose] at hstep
      split at hstep
      · rename_i hc
        split at hstep <;> cases hstep
        exact h.goto (h.lock.move (by rw [hc]; rfl) (by rw [hc]; rfl)) trivial (by rw [hc]; rfl)
      · cases hstep
  | proceed c => exact h.proceed hstep
  | giveUp c =>
      rw [WriteQueue.step, WriteQueue.giveUp] at hstep
      split at hstep
      · rename_i offer hc
        split at hstep <;> cases hstep
        exact h.goto (h.lock.move (by rw [hc]; rfl) (by rw [hc]; rfl)) trivial (by rw [hc]; rfl)
      · cases hstep
  | run => exact h.run hstep
  | sweepLoopExits =>
      rw [WriteQueue.step, WriteQueue.exitSweepLoop] at hstep
      split at hstep
      · split at hstep <;> cases hstep
        exact { h with }
      · cases hstep

/-- The lock, the flag and the channel agree in every run. -/
theorem writeQueue_inv
    {actions : List (QueueAction V)} {s : WriteQueue V}
    (hs : (writeQueue V).run actions = some s) : s.Inv :=
  Machine.run_invariant writeQueue_init_inv (fun _ _ _ h hstep => h.step hstep) hs

/-! ### The closed queue -/

/-- Once the channel is closed, what is accepted stays as it is. -/
theorem WriteQueue.Inv.proceed_closed
    {s s' : WriteQueue V} (h : s.Inv) (hclosed : s.queue.closed = true) {c : Nat}
    (hstep : s.proceed c = some s') :
    s'.queue.closed = true ∧ s'.accepted = s.accepted := by
  have hok := h.callers c
  rw [WriteQueue.proceed] at hstep
  cases hc : s.callers c with
  | send offer =>
      rw [hc, h.closed hclosed] at hok
      cases hok
  | closeQueue =>
      rw [hc, hclosed] at hok
      cases hok.2
  | checkClosed offer =>
      rw [hc] at hstep
      simp only at hstep
      split at hstep <;> cases hstep
      · refine ⟨hclosed, ?_⟩
        show List.filterMap _ (s.settled ++ [(offer, .refused)]) = s.accepted
        rw [accepted_snoc, if_neg (by decide), List.append_nil]
        rfl
      · exact ⟨hclosed, rfl⟩
  | rLock offer =>
      rw [hc] at hstep
      obtain ⟨mu, -, rfl⟩ := Option.map_eq_some_iff.mp hstep
      exact ⟨hclosed, rfl⟩
  | lock =>
      rw [hc] at hstep
      obtain ⟨mu, -, rfl⟩ := Option.map_eq_some_iff.mp hstep
      exact ⟨hclosed, rfl⟩
  | await offer =>
      rw [hc] at hstep
      simp only at hstep
      split at hstep <;> cases hstep
      exact ⟨hclosed, rfl⟩
  | setClosed =>
      rw [hc] at hstep
      simp only at hstep
      split at hstep <;> cases hstep <;> exact ⟨hclosed, rfl⟩
  | waitGroup =>
      rw [hc] at hstep
      simp only at hstep
      split at hstep <;> cases hstep
      exact ⟨hclosed, rfl⟩
  | idle =>
      rw [hc] at hstep
      cases hstep
  | _ =>
      rw [hc] at hstep
      cases hstep
      exact ⟨hclosed, rfl⟩

theorem WriteQueue.run_closed
    {s s' : WriteQueue V} (hclosed : s.queue.closed = true) (hstep : s.run = some s') :
    s'.queue.closed = true ∧ s'.accepted = s.accepted := by
  rw [WriteQueue.run] at hstep
  split at hstep
  · split at hstep
    · cases hstep
    · cases hstep
      exact ⟨hclosed, rfl⟩
    · rename_i offer queue hrecv
      cases hstep
      exact ⟨(Channel.recv_eq_item hrecv).2.trans hclosed, rfl⟩
  · cases hstep
    exact ⟨hclosed, rfl⟩
  · cases hstep

theorem WriteQueue.Inv.step_closed
    {s s' : WriteQueue V} (h : s.Inv) (hclosed : s.queue.closed = true) {a : QueueAction V}
    (hstep : s.step a = some s') :
    s'.queue.closed = true ∧ s'.accepted = s.accepted := by
  cases a with
  | proceed c => exact h.proceed_closed hclosed hstep
  | run => exact WriteQueue.run_closed hclosed hstep
  | call c msg =>
      rw [WriteQueue.step, WriteQueue.call] at hstep
      split at hstep
      · split at hstep <;> cases hstep
        exact ⟨hclosed, rfl⟩
      · cases hstep
  | callClose c =>
      rw [WriteQueue.step, WriteQueue.callClose] at hstep
      split at hstep
      · split at hstep <;> cases hstep
        exact ⟨hclosed, rfl⟩
      · cases hstep
  | giveUp c =>
      rw [WriteQueue.step, WriteQueue.giveUp] at hstep
      split at hstep
      · split at hstep <;> cases hstep
        exact ⟨hclosed, rfl⟩
      · cases hstep
  | sweepLoopExits =>
      rw [WriteQueue.step, WriteQueue.exitSweepLoop] at hstep
      split at hstep
      · split at hstep <;> cases hstep
        exact ⟨hclosed, rfl⟩
      · cases hstep

/-- Nothing is accepted after the channel was closed. -/
theorem WriteQueue.Inv.accepted_of_closed
    {s : WriteQueue V} (h : s.Inv) (hclosed : s.queue.closed = true)
    {actions : List (QueueAction V)} {s' : WriteQueue V}
    (hs' : (writeQueue V).runFrom s actions = some s') : s'.accepted = s.accepted := by
  have hrun : s'.Inv ∧ s'.queue.closed = true ∧ s'.accepted = s.accepted := by
    refine Machine.runFrom_induction (m := writeQueue V)
      (I := fun _ t => t.Inv ∧ t.queue.closed = true ∧ t.accepted = s.accepted)
      ⟨h, hclosed, rfl⟩ ?_ hs'
    rintro - t a t' ⟨hinv, htclosed, haccepted⟩ hstep
    obtain ⟨hclosed', haccepted'⟩ := hinv.step_closed htclosed hstep
    exact ⟨hinv.step hstep, hclosed', haccepted'.trans haccepted⟩
  exact hrun.2.2

/-- How many steps `run` has left on a closed channel. -/
def WriteQueue.stepsLeft (s : WriteQueue V) : Nat :=
  match s.writer with
  | .receiving => 2 * s.queue.buffer.length + 1
  | .processing _ => 2 * s.queue.buffer.length + 2
  | .exited => 0

/-- On a closed channel `run` is never blocked. -/
theorem WriteQueue.run_closed_some
    {s : WriteQueue V} (hclosed : s.queue.closed = true) (hrunning : s.writer.hasExited = false) :
    ∃ s', s.run = some s' ∧ s'.stepsLeft < s.stepsLeft := by
  rw [WriteQueue.run]
  cases hw : s.writer with
  | receiving =>
      cases hrecv : s.queue.recv with
      | blocked =>
          rw [(Channel.recv_eq_blocked hrecv).2] at hclosed
          cases hclosed
      | closed =>
          refine ⟨_, rfl, ?_⟩
          rw [WriteQueue.stepsLeft, WriteQueue.stepsLeft, hw]
          exact Nat.succ_pos _
      | item offer queue =>
          refine ⟨_, rfl, ?_⟩
          obtain ⟨hbuffer, -⟩ := Channel.recv_eq_item hrecv
          rw [WriteQueue.stepsLeft, WriteQueue.stepsLeft, hw, hbuffer, List.length_cons]
          exact Nat.lt_succ_self _
  | processing offer =>
      refine ⟨_, rfl, ?_⟩
      rw [WriteQueue.stepsLeft, WriteQueue.stepsLeft, hw]
      exact Nat.lt_succ_self _
  | exited =>
      rw [hw] at hrunning
      cases hrunning

/-- After the channel was closed, the steps of `run` alone process what was accepted. -/
theorem WriteQueue.Inv.drains
    {s : WriteQueue V} (h : s.Inv) (hclosed : s.queue.closed = true) :
    ∃ n s', (writeQueue V).runFrom s (List.replicate n .run) = some s' ∧
      s'.writer.hasExited = true ∧ s'.processed = s.accepted := by
  induction hleft : s.stepsLeft using Nat.strong_induction_on generalizing s with
  | _ left ih =>
      cases hw : s.writer.hasExited with
      | true =>
          refine ⟨0, s, rfl, hw, ?_⟩
          have hheld : s.writer.held = [] := by
            cases hwriter : s.writer with
            | processing offer =>
                rw [hwriter] at hw
                cases hw
            | _ => rfl
          rw [← h.flow, hheld, (h.exited hw).2, List.append_nil, List.append_nil]
      | false =>
          obtain ⟨t, ht, hlt⟩ := WriteQueue.run_closed_some hclosed hw
          obtain ⟨htclosed, haccepted⟩ := WriteQueue.run_closed hclosed ht
          obtain ⟨n, s', hs', hexited, hprocessed⟩ :=
            ih t.stepsLeft (hleft ▸ hlt) (h.run ht) htclosed rfl
          refine ⟨n + 1, s', ?_, hexited, hprocessed.trans haccepted⟩
          rw [List.replicate_succ, Machine.runFrom_cons]
          exact Option.bind_eq_some_iff.mpr ⟨t, ht, hs'⟩

/-! ### What callers can rely on -/

/-- The promises of the write queue. -/
structure WriteQueue.Promises (s : WriteQueue V) : Prop where
  /-- No message was sent on the closed channel, and it was closed once. -/
  noFault : s.fault = false
  /-- Accepted messages are different messages. -/
  once : (s.accepted.map Offer.id).Nodup
  /-- Messages are processed in the order in which they were accepted. -/
  inOrder : s.processed <+: s.accepted
  /-- When the `Close` that closed the channel has returned, every accepted message was
  processed; a later `Close` only finds the flag set. -/
  drained : s.closeReturned = true → s.processed = s.accepted
  /-- A message is processed after every message accepted before it. -/
  afterEarlier : ∀ before offer after, s.accepted = before ++ offer :: after →
    offer ∈ s.processed → before ++ [offer] <+: s.processed
  /-- A message offered after the channel was closed can only be refused. -/
  late : ∀ id ∈ s.late, id ∉ s.accepted.map Offer.id ∧
    ((∃ o, o.id = id ∧ (o, Outcome.refused) ∈ s.settled) ∨
      ∃ c o, (s.callers c).offer? = some o ∧ o.id = id)
  /-- A refused message is not among the processed ones. -/
  refused : ∀ o, (o, Outcome.refused) ∈ s.settled → o.id ∉ s.processed.map Offer.id
  /-- Nothing is accepted after the channel was closed. -/
  closedForGood : s.queue.closed = true → ∀ actions s',
    (writeQueue V).runFrom s actions = some s' → s'.accepted = s.accepted
  /-- The writer gets through the closed channel on its own. -/
  drains : s.queue.closed = true → ∃ n s',
    (writeQueue V).runFrom s (List.replicate n .run) = some s' ∧
      s'.writer.hasExited = true ∧ s'.processed = s.accepted

theorem mem_accepted {s : WriteQueue V} {o : Offer V} :
    o ∈ s.accepted ↔ (o, Outcome.accepted) ∈ s.settled := by
  rw [WriteQueue.accepted, List.mem_filterMap]
  constructor
  · rintro ⟨⟨x, outcome⟩, hx, ho⟩
    split at ho
    · rename_i houtcome
      cases ho
      rw [← houtcome]
      exact hx
    · cases ho
  · exact fun h => ⟨_, h, rfl⟩

/-- The numbers of the accepted messages are among those of the settled ones. -/
theorem accepted_ids_sublist (s : WriteQueue V) :
    (s.accepted.map Offer.id).Sublist (s.settled.map fun x => x.1.id) := by
  rw [WriteQueue.accepted]
  induction s.settled with
  | nil => exact List.Sublist.refl _
  | cons x rest ih =>
      rw [List.filterMap_cons, List.map_cons]
      split
      · exact ih.cons _
      · rename_i o ho
        split at ho <;> cases ho
        exact ih.cons_cons _

/-- A prefix that reaches an element contains everything up to it. -/
theorem prefix_through_mem
    {α : Type} {l p before after : List α} {x : α} (hnodup : l.Nodup) (hp : p <+: l)
    (hl : l = before ++ x :: after) (hx : x ∈ p) : before ++ [x] <+: p := by
  have hbefore : before ++ [x] <+: l := ⟨after, by rw [hl, List.append_assoc]; rfl⟩
  rcases List.prefix_or_prefix_of_prefix hbefore hp with h | h
  · exact h
  · rcases List.prefix_concat_iff.mp h with rfl | h
    · exact List.prefix_refl _
    · rw [hl] at hnodup
      have hdisjoint := (List.nodup_append'.mp hnodup).2.2
      exact absurd List.mem_cons_self (hdisjoint (h.subset hx))

theorem writeQueue_promises
    {actions : List (QueueAction V)} {s : WriteQueue V}
    (hs : (writeQueue V).run actions = some s) : s.Promises := by
  have h := writeQueue_inv hs
  have honce : (s.accepted.map Offer.id).Nodup :=
    h.numbered.settled_nodup.sublist (accepted_ids_sublist s)
  have hbeginning : s.processed <+: s.accepted := by
    rw [← h.flow, List.append_assoc]
    exact List.prefix_append _ _
  have hrefused : ∀ o, (o, Outcome.refused) ∈ s.settled → o.id ∉ s.accepted.map Offer.id := by
    intro o ho hmem
    obtain ⟨x, hx, hid⟩ := List.mem_map.mp hmem
    have heq := List.inj_on_of_nodup_map h.numbered.settled_nodup (mem_accepted.mp hx) ho hid
    cases heq
  refine ⟨h.noFault, honce, hbeginning, ?_, ?_, ?_, ?_, ?_, ?_⟩
  · intro hreturned
    have hexited := h.returned hreturned
    obtain ⟨hclosed, hbuffer⟩ := h.exited hexited
    have hheld : s.writer.held = [] := by
      cases hwriter : s.writer with
      | processing offer =>
          rw [hwriter] at hexited
          cases hexited
      | _ => rfl
    rw [← h.flow, hheld, hbuffer, List.append_nil, List.append_nil]
  · intro before offer after haccepted hmem
    exact prefix_through_mem (honce.of_map _) hbeginning haccepted hmem
  · intro id hid
    have hstate := h.numbered.late_refused id hid
    refine ⟨?_, hstate⟩
    rcases hstate with ⟨o, rfl, ho⟩ | ⟨c, o, hc, rfl⟩
    · exact hrefused o ho
    · exact fun hmem => h.numbered.pending_new c o hc
        ((accepted_ids_sublist s).subset hmem)
  · intro o ho hmem
    exact hrefused o ho ((hbeginning.sublist.map Offer.id).subset hmem)
  · exact fun hclosed actions' s' hs' => h.accepted_of_closed hclosed hs'
  · exact fun hclosed => h.drains hclosed

end Model

/-! ### One run -/

/-- Two messages are accepted, the queue is closed and drained, a third is refused. -/
def sampleQueueRun : List (QueueAction ℚ) :=
  [.call 1 (.logs ⟨[], []⟩), .proceed 1, .proceed 1, .proceed 1, .proceed 1,
    .call 2 .sync, .proceed 2, .proceed 2, .proceed 2, .proceed 2,
    .run, .callClose 1, .proceed 1, .proceed 1, .proceed 1, .proceed 1, .proceed 1,
    .call 3 .clear, .proceed 3, .proceed 3, .proceed 3,
    .run, .run, .run, .run, .sweepLoopExits, .proceed 1, .proceed 1, .proceed 2]

theorem writeQueue_promises_sample :
    ∃ s, (writeQueue ℚ).run sampleQueueRun = some s ∧
      s.processed.map Offer.id = [0, 1] ∧ s.late = [2] ∧ s.closeReturned = true ∧
      s.Promises :=
  ⟨_, rfl, rfl, rfl, rfl, @writeQueue_promises ℚ sampleQueueRun _ rfl⟩

end Storage
end Otelop
