import Mathlib.Tactic
import Mathlib.Data.Finset.Card
import Otelop.Lib.Channel
import Otelop.Lib.Machine

/-!
# The hub of the WebSocket connections

`Hub.Run`, `Hub.BroadcastContext`, the pumps of a `Client` and `handleWebSocket`
(`internal/websocket`, `internal/server/handler_ws.go`), with every operation on a channel and on
the counter as a step of its own.  The goroutine of the hub owns the map of clients; any number
of connections and of broadcasting callers is under way at once.

A connection is under a number of its own.  `marshal` is `json.Marshal`, which may fail.  What a
client was offered, received and wrote is kept in history fields.

**Results.**
* `hub_inv`: the map, the channels and the counter agree in every run.
* `hub_safe`: no channel is closed twice or sent on after it was closed.
* `hub_delivers`: what a connection is sent, in every run.
-/

namespace Otelop
namespace Websocket

open Lib

universe u v

def broadcastQueueSize : Nat := 1024

def sendBufferSize : Nat := 256

/-- Where `handleWebSocket`, and then the goroutine of `ReadPump`, stands. -/
inductive Reader where
  | absent
  | registering
  | reading
  | unregistering
  | cancelling
  | gone
deriving DecidableEq

/-- Where `WritePump` stands. -/
inductive Pump where
  | notStarted
  | running
  | stopped
deriving DecidableEq

/-- A `Client`, whose messages are the bytes `β`. -/
structure Client (β : Type u) where
  reader : Reader
  writer : Pump
  send : Channel β sendBufferSize
  /-- How many jobs the hub had received when it registered the client. -/
  joined : Nat
  /-- What `dispatch` offered, and how many messages were waiting. -/
  offered : List (β × Nat)
  received : List β
  written : List β

/-- A connection that was not made yet. -/
def Client.absent {β : Type u} : Client β where
  reader := .absent
  writer := .notStarted
  send := .empty
  joined := 0
  offered := []
  received := []
  written := []

/-- Where `Run` stands; `storing` is before `h.count.Store(int64(len(h.clients)))`. -/
inductive HubLoop (β : Type u) where
  | selecting
  | storing
  | dispatching (data : β) (rest : Finset Nat)
  | closing
  | returned

structure Hub (α : Type v) (β : Type u) where
  loop : HubLoop β
  clients : Finset Nat
  broadcast : Channel α broadcastQueueSize
  count : Nat
  cancelled : Bool
  connections : Nat → Client β
  /-- The callers of `BroadcastContext` that found a client. -/
  callers : List α
  /-- A send on a closed channel, or a channel closed twice. -/
  fault : Bool
  queued : List α
  received : List α

/-- From `accept` to `stopWriting` the steps of a connection, then `load` and `enqueue` of a caller
of `BroadcastContext`, and the steps of the hub. -/
inductive HubAction (α : Type v) where
  | accept (c : Nat)
  | readError (c : Nat)
  | cancel (c : Nat)
  | write (c : Nat) (ok : Bool)
  | stopWriting (c : Nat)
  | load (m : α)
  | enqueue (i : Nat)
  | cancelHub
  | register (c : Nat)
  | unregister (c : Nat)
  | store
  | take
  | deliver (c : Nat)
  | done
  | close (c : Nat)
  | finish

section Model

variable {α : Type v} {β : Type u}

/-- The connection becomes `client`. -/
def Hub.put (s : Hub α β) (c : Nat) (client : Client β) : Hub α β :=
  { s with connections := Function.update s.connections c client }

/-- `close(client.send)` -/
def Hub.closeSend (s : Hub α β) (c : Nat) : Hub α β :=
  let client := s.connections c
  { s.put c { client with send := client.send.close } with fault := s.fault || client.send.closed }

def Hub.accept (s : Hub α β) (c : Nat) : Option (Hub α β) :=
  match (s.connections c).reader with
  | .absent => some (s.put c { s.connections c with reader := .registering })
  | _ => none

/-- `h.register <- c` is received; then the two pumps start. -/
def Hub.register (s : Hub α β) (c : Nat) : Option (Hub α β) :=
  match s.loop, (s.connections c).reader with
  | .selecting, .registering =>
      some { s.put c { s.connections c with
          reader := .reading, writer := .running, joined := s.received.length } with
        clients := insert c s.clients
        loop := .storing }
  | _, _ => none

def Hub.readError (s : Hub α β) (c : Nat) : Option (Hub α β) :=
  match (s.connections c).reader with
  | .reading => some (s.put c { s.connections c with reader := .unregistering })
  | _ => none

/-- `h.unregister <- c` is received. -/
def Hub.unregister (s : Hub α β) (c : Nat) : Option (Hub α β) :=
  match s.loop, (s.connections c).reader with
  | .selecting, .unregistering =>
      let left := s.put c { s.connections c with reader := .cancelling }
      if c ∈ s.clients then
        some { left.closeSend c with clients := s.clients.erase c, loop := .storing }
      else some left
  | _, _ => none

def Hub.cancel (s : Hub α β) (c : Nat) : Option (Hub α β) :=
  match (s.connections c).reader with
  | .cancelling => some (s.put c { s.connections c with reader := .gone })
  | _ => none

/-- A message, or the end of the channel, reaches `WritePump`; `ok` tells whether the connection
takes the message. -/
def Hub.write (s : Hub α β) (c : Nat) (ok : Bool) : Option (Hub α β) :=
  let client := s.connections c
  match client.writer with
  | .running =>
      match client.send.recv with
      | .blocked => none
      | .closed => some (s.put c { client with writer := .stopped })
      | .item data send =>
          let client := { client with send := send, received := client.received ++ [data] }
          some (s.put c (if ok then { client with written := client.written ++ [data] }
            else { client with writer := .stopped }))
  | _ => none

/-- `WritePump` ends with its context, or because a ping fails. -/
def Hub.stopWriting (s : Hub α β) (c : Nat) : Option (Hub α β) :=
  match (s.connections c).writer with
  | .running => some (s.put c { s.connections c with writer := .stopped })
  | _ => none

/-- `if h.count.Load() == 0 { return }` -/
def Hub.load (s : Hub α β) (m : α) : Option (Hub α β) :=
  if s.count = 0 then some s else some { s with callers := m :: s.callers }

/-- The job enters the queue, or is dropped. -/
def Hub.enqueue (s : Hub α β) (i : Nat) : Option (Hub α β) :=
  s.callers[i]?.map fun m =>
    let left := { s with callers := s.callers.eraseIdx i }
    match s.broadcast.send m with
    | some queue => { left with broadcast := queue, queued := s.queued ++ [m] }
    | none => left

/-- A job is received; `dispatch` marshals its message when there is a client. -/
def Hub.take (marshal : α → Option β) (s : Hub α β) : Option (Hub α β) :=
  match s.loop, s.broadcast.recv with
  | .selecting, .item m queue =>
      let left := { s with broadcast := queue, received := s.received ++ [m] }
      if s.clients = ∅ then some left
      else
        match marshal m with
        | none => some left
        | some data => some { left with loop := .dispatching data s.clients }
  | _, _ => none

/-- The non-blocking send to a client of the loop in `dispatch`. -/
def Hub.deliver (s : Hub α β) (c : Nat) : Option (Hub α β) :=
  match s.loop with
  | .dispatching data rest =>
      if c ∈ rest then
        let client := s.connections c
        some { s.put c { client with
            send := client.send.offer data
            offered := client.offered ++ [(data, client.send.buffer.length)] } with
          loop := .dispatching data (rest.erase c)
          fault := s.fault || client.send.closed }
      else none
  | _ => none

/-- The loop in `dispatch` is through. -/
def Hub.done (s : Hub α β) : Option (Hub α β) :=
  match s.loop with
  | .dispatching _ rest => if rest = ∅ then some { s with loop := .selecting } else none
  | _ => none

/-- `h.count.Store(int64(len(h.clients)))` -/
def Hub.store (s : Hub α β) : Option (Hub α β) :=
  match s.loop with
  | .storing => some { s with count := s.clients.card, loop := .selecting }
  | _ => none

/-- A client of the loop after `ctx.Done()`, which the first one starts. -/
def Hub.close (s : Hub α β) (c : Nat) : Option (Hub α β) :=
  let closed := { s.closeSend c with clients := s.clients.erase c, loop := .closing }
  match s.loop with
  | .selecting => if s.cancelled && decide (c ∈ s.clients) then some closed else none
  | .closing => if c ∈ s.clients then some closed else none
  | _ => none

/-- `h.count.Store(0)`, and the hub returns. -/
def Hub.finish (s : Hub α β) : Option (Hub α β) :=
  let finished := { s with count := 0, loop := .returned }
  match s.loop with
  | .selecting => if s.cancelled && decide (s.clients = ∅) then some finished else none
  | .closing => if s.clients = ∅ then some finished else none
  | _ => none

def Hub.step (marshal : α → Option β) (s : Hub α β) : HubAction α → Option (Hub α β)
  | .accept c => s.accept c
  | .readError c => s.readError c
  | .cancel c => s.cancel c
  | .write c ok => s.write c ok
  | .stopWriting c => s.stopWriting c
  | .load m => s.load m
  | .enqueue i => s.enqueue i
  | .cancelHub => some { s with cancelled := true }
  | .register c => s.register c
  | .unregister c => s.unregister c
  | .store => s.store
  | .take => s.take marshal
  | .deliver c => s.deliver c
  | .done => s.done
  | .close c => s.close c
  | .finish => s.finish

/-- The hub and its parties, from `NewHub` on. -/
def hub (marshal : α → Option β) : Machine (Hub α β) (HubAction α) where
  init :=
    { loop := .selecting
      clients := ∅
      broadcast := .empty
      count := 0
      cancelled := false
      connections := fun _ => .absent
      callers := []
      fault := false
      queued := []
      received := [] }
  step := Hub.step marshal

/-! ### The parties agree -/

/-- The hub registered the client. -/
def Client.isRegistered (client : Client β) : Bool :=
  match client.reader with
  | .absent | .registering => false
  | _ => true

/-- What the client was offered while there was room. -/
def Client.accepted (client : Client β) : List β :=
  (client.offered.filter fun o => o.2 < sendBufferSize).map Prod.fst

/-- What the loop in `dispatch` has yet to offer to a client. -/
def HubLoop.owed (loop : HubLoop β) (c : Nat) : List β :=
  match loop with
  | .dispatching data rest => if c ∈ rest then [data] else []
  | _ => []

/-- The loop has changed the map, and not yet the counter. -/
def HubLoop.changesClients (loop : HubLoop β) : Bool :=
  match loop with
  | .storing | .closing => true
  | _ => false

/-- A connection, where `jobs` were received, the map has the client or not, and `owed` is yet
to be offered to it. -/
structure Client.Ok (marshal : α → Option β) (jobs : List α) (member : Prop) (owed : List β)
    (client : Client β) : Prop where
  member_reader : member → client.reader = .reading ∨ client.reader = .unregistering
  closed_iff : client.send.closed = true ↔ client.isRegistered = true ∧ ¬ member
  fresh : client.isRegistered = false → client.offered = []
  flow : client.received ++ client.send.buffer = client.accepted
  written : client.received = client.written ∨
    client.writer = .stopped ∧ ∃ data, client.received = client.written ++ [data]
  joined_le : client.joined ≤ jobs.length
  offered : client.offered.map Prod.fst <+: (jobs.drop client.joined).filterMap marshal
  owed_eq : member → client.offered.map Prod.fst ++ owed =
    (jobs.drop client.joined).filterMap marshal

structure Hub.Inv (marshal : α → Option β) (s : Hub α β) : Prop where
  connections : ∀ c, (s.connections c).Ok marshal s.received (c ∈ s.clients) (s.loop.owed c)
  rest : ∀ data rest, s.loop = .dispatching data rest → rest ⊆ s.clients
  count : s.count = s.clients.card ∨ s.loop = .storing ∨ s.loop = .closing
  returned : s.loop = .returned → s.clients = ∅
  flow : s.received ++ s.broadcast.buffer = s.queued
  noFault : s.fault = false

variable {marshal : α → Option β} {s s' : Hub α β} {jobs : List α} {member : Prop}
  {owed : List β} {client : Client β}

theorem Client.Ok.not_closed
    (h : client.Ok marshal jobs member owed) (hmember : member) :
    client.send.closed = false := by
  rw [← Bool.not_eq_true, h.closed_iff]
  exact fun hclosed => hclosed.2 hmember

theorem Client.Ok.registered
    (h : client.Ok marshal jobs member owed) (hmember : member) :
    client.isRegistered = true := by
  rcases h.member_reader hmember with hreader | hreader <;> rw [Client.isRegistered, hreader]

theorem Client.absent_ok : (Client.absent : Client β).Ok marshal [] False [] where
  member_reader h := h.elim
  closed_iff := by simp [Client.absent, Client.isRegistered]
  fresh _ := rfl
  flow := rfl
  written := Or.inl rfl
  joined_le := Nat.le_refl 0
  offered := List.nil_prefix
  owed_eq h := h.elim

/-- A connection that goes on, where neither what it was offered nor its channel changes. -/
theorem Client.Ok.goto
    (h : client.Ok marshal jobs member owed) {reader : Reader}
    (hreader : member → reader = .reading ∨ reader = .unregistering)
    (hregistered : ({ client with reader := reader } : Client β).isRegistered =
      client.isRegistered) :
    ({ client with reader := reader } : Client β).Ok marshal jobs member owed where
  member_reader := hreader
  closed_iff := by rw [hregistered]; exact h.closed_iff
  fresh hfresh := h.fresh (hregistered ▸ hfresh)
  flow := h.flow
  written := h.written
  joined_le := h.joined_le
  offered := h.offered
  owed_eq := h.owed_eq

/-- The hub registers the client. -/
theorem Client.Ok.register
    (h : client.Ok marshal jobs member owed) (hreader : client.reader = .registering) :
    ({ client with reader := .reading, writer := .running, joined := jobs.length } :
      Client β).Ok marshal jobs True [] := by
  have hfresh : client.isRegistered = false := by rw [Client.isRegistered, hreader]
  have hoffered := h.fresh hfresh
  have hreceived : client.received = [] := by
    have hflow := h.flow
    rw [Client.accepted, hoffered] at hflow
    exact (List.append_eq_nil_iff.mp hflow).1
  refine ⟨fun _ => Or.inl rfl, ?_, (nomatch ·), h.flow, Or.inl ?_, Nat.le_refl _, ?_,
    fun _ => ?_⟩
  · rw [h.closed_iff, hfresh]
    simp
  · rcases h.written with hwritten | ⟨-, data, hwritten⟩
    · exact hwritten
    · rw [hreceived] at hwritten
      exact absurd hwritten.symm (List.append_ne_nil_of_right_ne_nil _ (List.cons_ne_nil _ _))
  · rw [hoffered]
    exact List.nil_prefix
  · rw [hoffered, List.drop_length]
    rfl

/-- The channel is closed, and the client leaves the map. -/
theorem Client.Ok.close
    (h : client.Ok marshal jobs member owed) {reader : Reader}
    (hreader : ({ client with reader := reader } : Client β).isRegistered = true) :
    ({ client with reader := reader, send := client.send.close } :
      Client β).Ok marshal jobs False [] where
  member_reader hfalse := hfalse.elim
  closed_iff := ⟨fun _ => ⟨hreader, not_false⟩, fun _ => rfl⟩
  fresh hfresh := absurd hreader (Bool.eq_false_iff.mp hfresh)
  flow := h.flow
  written := h.written
  joined_le := h.joined_le
  offered := h.offered
  owed_eq hfalse := hfalse.elim

/-- The hub receives a job. -/
theorem Client.Ok.take
    (h : client.Ok marshal jobs member []) (m : α) {owed : List β}
    (howed : member → owed = (marshal m).toList) :
    client.Ok marshal (jobs ++ [m]) member owed := by
  have hjobs : ((jobs ++ [m]).drop client.joined).filterMap marshal =
      (jobs.drop client.joined).filterMap marshal ++ (marshal m).toList := by
    rw [List.drop_append_of_le_length h.joined_le, List.filterMap_append]
    cases hm : marshal m <;> simp [hm]
  refine ⟨h.member_reader, h.closed_iff, h.fresh, h.flow, h.written, ?_, ?_, fun hmember => ?_⟩
  · rw [List.length_append]
    exact Nat.le_add_right_of_le h.joined_le
  · rw [hjobs]
    exact h.offered.trans (List.prefix_append _ _)
  · rw [hjobs, howed hmember, ← h.owed_eq hmember, List.append_nil]

/-- `dispatch` offers a message. -/
theorem Client.Ok.offer
    {data : β} (h : client.Ok marshal jobs member [data]) (hmember : member) :
    ({ client with
      send := client.send.offer data,
      offered := client.offered ++ [(data, client.send.buffer.length)] } :
        Client β).Ok marshal jobs member [] := by
  have hall : (client.offered ++ [(data, client.send.buffer.length)]).map Prod.fst =
      (jobs.drop client.joined).filterMap marshal := by
    rw [← h.owed_eq hmember, List.map_append]
    rfl
  refine ⟨h.member_reader, ?_, fun hfresh => ?_, ?_, h.written, h.joined_le, ?_, fun _ => ?_⟩
  · rw [Channel.closed_offer]
    exact h.closed_iff
  · exact absurd (h.registered hmember) (Bool.eq_false_iff.mp hfresh)
  · rw [Channel.buffer_offer, ← List.append_assoc, h.flow, Client.accepted, Client.accepted,
      List.filter_append, List.map_append]
    by_cases hroom : client.send.buffer.length < sendBufferSize <;> simp [hroom]
  · exact hall ▸ List.prefix_rfl
  · rw [List.append_nil]
    exact hall

/-- `WritePump` receives a message. -/
theorem Client.Ok.receive
    (h : client.Ok marshal jobs member owed) (hwriter : client.writer = .running) {data : β}
    {send : Channel β sendBufferSize} (hbuffer : client.send.buffer = data :: send.buffer)
    (hclosed : send.closed = client.send.closed) {writer : Pump} {written : List β}
    (hwritten : written = client.written ++ [data] ∨
      writer = .stopped ∧ written = client.written) :
    ({ client with
      writer := writer, send := send, received := client.received ++ [data],
      written := written } : Client β).Ok marshal jobs member owed := by
  have hreceived : client.received = client.written := by
    rcases h.written with hreceived | ⟨hstopped, -⟩
    · exact hreceived
    · rw [hwriter] at hstopped
      cases hstopped
  refine ⟨h.member_reader, ?_, h.fresh, ?_, ?_, h.joined_le, h.offered, h.owed_eq⟩
  · rw [hclosed]
    exact h.closed_iff
  · rw [List.append_assoc, List.singleton_append, ← hbuffer]
    exact h.flow
  · rcases hwritten with hwritten | ⟨hstopped, hwritten⟩
    · exact Or.inl (by rw [hwritten, hreceived])
    · exact Or.inr ⟨hstopped, data, by rw [hwritten, hreceived]⟩

/-- `WritePump` ends. -/
theorem Client.Ok.stop
    (h : client.Ok marshal jobs member owed) :
    ({ client with writer := .stopped } : Client β).Ok marshal jobs member owed where
  member_reader := h.member_reader
  closed_iff := h.closed_iff
  fresh := h.fresh
  flow := h.flow
  written := h.written.imp_right fun hlast => ⟨rfl, hlast.2⟩
  joined_le := h.joined_le
  offered := h.offered
  owed_eq := h.owed_eq

theorem Client.Ok.of_iff
    {member' : Prop} (h : client.Ok marshal jobs member owed) (hiff : member' ↔ member) :
    client.Ok marshal jobs member' owed := by
  rwa [propext hiff]

/-- One connection goes on, and the hub does not. -/
theorem Hub.Inv.put
    (h : s.Inv marshal) {c : Nat} {client : Client β}
    (hok : client.Ok marshal s.received (c ∈ s.clients) (s.loop.owed c)) :
    (s.put c client).Inv marshal where
  connections := (Function.forall_update_iff s.connections fun x client =>
    client.Ok marshal s.received (x ∈ s.clients) (s.loop.owed x)).mpr
      ⟨hok, fun x _ => h.connections x⟩
  rest := h.rest
  count := h.count
  returned := h.returned
  flow := h.flow
  noFault := h.noFault

theorem Hub.Inv.count_eq
    (h : s.Inv marshal) (hloop : s.loop.changesClients = false) :
    s.count = s.clients.card := by
  rcases h.count with hcount | hstoring | hclosing
  · exact hcount
  · rw [hstoring] at hloop
    cases hloop
  · rw [hclosing] at hloop
    cases hloop

theorem Hub.Inv.register
    (h : s.Inv marshal) {c : Nat} (hstep : s.register c = some s') : s'.Inv marshal := by
  rw [Hub.register] at hstep
  split at hstep
  · rename_i hloop hreader
    cases hstep
    have hconnections := h.connections
    rw [hloop] at hconnections
    refine ⟨(Function.forall_update_iff s.connections fun x client =>
      client.Ok marshal s.received (x ∈ insert c s.clients) []).mpr ⟨?_, fun x hx => ?_⟩,
      nofun, Or.inr (Or.inl rfl), nofun, h.flow, h.noFault⟩
    · exact ((hconnections c).register hreader).of_iff (by simp)
    · exact (hconnections x).of_iff (by simp [hx])
  · cases hstep

/-- The channel of a client is closed while the hub does not dispatch. -/
theorem Hub.Inv.closeSend
    (h : s.Inv marshal) {c : Nat} (hc : c ∈ s.clients) (howed : ∀ x, s.loop.owed x = [])
    (reader : Reader)
    (hreader : ({ s.connections c with reader := reader } : Client β).isRegistered = true)
    {loop : HubLoop β} (hloop : loop = .storing ∨ loop = .closing) :
    ({ (s.put c { s.connections c with reader := reader }).closeSend c with
      clients := s.clients.erase c, loop := loop } : Hub α β).Inv marshal := by
  have howed' : ∀ x, loop.owed x = [] := by
    intro x
    rcases hloop with rfl | rfl <;> rfl
  have hnot : (s.connections c).send.closed = false := (h.connections c).not_closed hc
  refine ⟨fun x => ?_, fun data rest hdispatching => ?_, Or.inr hloop, fun hreturned => ?_,
    h.flow, ?_⟩
  · rw [howed' x]
    by_cases hx : x = c
    · subst hx
      have hok := (h.connections x).close hreader
      simpa [Hub.closeSend, Hub.put] using hok
    · have hok := h.connections x
      rw [howed x] at hok
      simpa [Hub.closeSend, Hub.put, hx] using hok
  · rcases hloop with rfl | rfl <;> cases hdispatching
  · rcases hloop with rfl | rfl <;> cases hreturned
  · simp [Hub.closeSend, Hub.put, hnot, h.noFault]

theorem Hub.Inv.unregister
    (h : s.Inv marshal) {c : Nat} (hstep : s.unregister c = some s') : s'.Inv marshal := by
  rw [Hub.unregister] at hstep
  split at hstep
  · rename_i hloop hreader
    simp only at hstep
    split at hstep <;> cases hstep
    · rename_i hc
      exact h.closeSend hc (fun x => by rw [hloop]; rfl) .cancelling rfl (Or.inl rfl)
    · rename_i hc
      refine h.put ((h.connections c).goto (fun hmember => absurd hmember hc) ?_)
      rw [Client.isRegistered, Client.isRegistered, hreader]
  · cases hstep

theorem Hub.Inv.close
    (h : s.Inv marshal) {c : Nat} (hstep : s.close c = some s') : s'.Inv marshal := by
  have hself : s.put c { s.connections c with reader := (s.connections c).reader } = s := by
    rw [Hub.put, Function.update_eq_self]
  have hclosed : c ∈ s.clients → (∀ x, s.loop.owed x = []) →
      ({ s.closeSend c with clients := s.clients.erase c, loop := .closing } :
        Hub α β).Inv marshal := by
    intro hc howed
    have hinv := h.closeSend hc howed (s.connections c).reader
      ((h.connections c).registered hc) (Or.inr rfl)
    rwa [hself] at hinv
  rw [Hub.close] at hstep
  simp only at hstep
  split at hstep
  · rename_i hloop
    split at hstep <;> cases hstep
    rename_i hready
    rw [Bool.and_eq_true, decide_eq_true_eq] at hready
    exact hclosed hready.2 fun x => by rw [hloop]; rfl
  · rename_i hloop
    split at hstep <;> cases hstep
    rename_i hc
    exact hclosed hc fun x => by rw [hloop]; rfl
  · cases hstep

theorem Hub.Inv.take
    (h : s.Inv marshal) (hstep : s.take marshal = some s') : s'.Inv marshal := by
  rw [Hub.take] at hstep
  split at hstep
  · rename_i m queue hloop hrecv
    have hflow : s.received ++ [m] ++ queue.buffer = s.queued := by
      rw [List.append_assoc, List.singleton_append, ← (Channel.recv_eq_item hrecv).1]
      exact h.flow
    have hconnections := h.connections
    rw [hloop] at hconnections
    have hcount : s.count = s.clients.card := h.count_eq (by rw [hloop]; rfl)
    simp only at hstep
    split at hstep
    · rename_i hempty
      cases hstep
      refine ⟨fun x => ?_, h.rest, h.count, h.returned, hflow, h.noFault⟩
      rw [hloop]
      exact (hconnections x).take m fun hx => by simp [hempty] at hx
    · split at hstep <;> cases hstep
      · rename_i hmarshal
        refine ⟨fun x => ?_, h.rest, h.count, h.returned, hflow, h.noFault⟩
        rw [hloop]
        exact (hconnections x).take m fun _ => by rw [hmarshal]; rfl
      · rename_i data hmarshal
        refine ⟨fun x => (hconnections x).take m fun hx => ?_, ?_, Or.inl hcount, nofun, hflow,
          h.noFault⟩
        · rw [hmarshal, HubLoop.owed, if_pos hx]
          rfl
        · intro _ _ hdispatching
          cases hdispatching
          exact Finset.Subset.refl _
  · cases hstep

theorem Hub.Inv.deliver
    (h : s.Inv marshal) {c : Nat} (hstep : s.deliver c = some s') : s'.Inv marshal := by
  rw [Hub.deliver] at hstep
  split at hstep
  · rename_i data rest hloop
    split at hstep
    · rename_i hc
      have hmember : c ∈ s.clients := h.rest data rest hloop hc
      have hok := h.connections c
      rw [hloop, HubLoop.owed, if_pos hc] at hok
      have hnot := hok.not_closed hmember
      cases hstep
      refine ⟨(Function.forall_update_iff s.connections fun x client =>
        client.Ok marshal s.received (x ∈ s.clients)
          (HubLoop.owed (.dispatching data (rest.erase c)) x)).mpr ⟨?_, fun x hx => ?_⟩,
        fun _ _ hdispatching => ?_, ?_, nofun, h.flow, ?_⟩
      · rw [HubLoop.owed, if_neg (Finset.notMem_erase c rest)]
        exact hok.offer hmember
      · have hother := h.connections x
        rw [hloop, HubLoop.owed] at hother
        simpa [HubLoop.owed, hx] using hother
      · cases hdispatching
        exact (Finset.erase_subset c rest).trans (h.rest data rest hloop)
      · exact Or.inl (h.count_eq (by rw [hloop]; rfl))
      · simp [hnot, h.noFault]
    · cases hstep
  · cases hstep

theorem Hub.Inv.write
    (h : s.Inv marshal) {c : Nat} {ok : Bool} (hstep : s.write c ok = some s') :
    s'.Inv marshal := by
  rw [Hub.write] at hstep
  simp only at hstep
  split at hstep
  · rename_i hwriter
    split at hstep
    · cases hstep
    · cases hstep
      exact h.put (h.connections c).stop
    · rename_i data send hrecv
      cases hstep
      obtain ⟨hbuffer, hclosed⟩ := Channel.recv_eq_item hrecv
      refine h.put ?_
      cases ok with
      | true => exact (h.connections c).receive hwriter hbuffer hclosed (Or.inl rfl)
      | false => exact (h.connections c).receive hwriter hbuffer hclosed (Or.inr ⟨rfl, rfl⟩)
  · cases hstep

theorem Hub.Inv.step
    (h : s.Inv marshal) {a : HubAction α} (hstep : s.step marshal a = some s') :
    s'.Inv marshal := by
  cases a with
  | accept c =>
      rw [Hub.step, Hub.accept] at hstep
      split at hstep <;> cases hstep
      rename_i hreader
      have hok := h.connections c
      have hfresh : (s.connections c).isRegistered = false := by
        rw [Client.isRegistered, hreader]
      refine h.put (hok.goto (fun hmember => ?_) hfresh.symm)
      rw [hok.registered hmember] at hfresh
      cases hfresh
  | readError c =>
      rw [Hub.step, Hub.readError] at hstep
      split at hstep <;> cases hstep
      rename_i hreader
      refine h.put ((h.connections c).goto (fun _ => Or.inr rfl) ?_)
      rw [Client.isRegistered, Client.isRegistered, hreader]
  | cancel c =>
      rw [Hub.step, Hub.cancel] at hstep
      split at hstep <;> cases hstep
      rename_i hreader
      have hok := h.connections c
      refine h.put (hok.goto (fun hmember => ?_) ?_)
      · rcases hok.member_reader hmember with hreading | hreading <;>
          rw [hreader] at hreading <;> cases hreading
      · rw [Client.isRegistered, Client.isRegistered, hreader]
  | write c ok => exact h.write hstep
  | stopWriting c =>
      rw [Hub.step, Hub.stopWriting] at hstep
      split at hstep <;> cases hstep
      exact h.put (h.connections c).stop
  | load m =>
      rw [Hub.step, Hub.load] at hstep
      split at hstep <;> cases hstep
      · exact h
      · exact { h with }
  | enqueue i =>
      obtain ⟨m, -, rfl⟩ := Option.map_eq_some_iff.mp hstep
      cases hsend : s.broadcast.send m with
      | none => exact { h with }
      | some queue =>
          refine { h with flow := ?_ }
          rw [(Channel.send_eq_some hsend).1, ← List.append_assoc, h.flow]
  | cancelHub =>
      cases hstep
      exact { h with }
  | register c => exact h.register hstep
  | unregister c => exact h.unregister hstep
  | store =>
      rw [Hub.step, Hub.store] at hstep
      split at hstep <;> cases hstep
      rename_i hloop
      refine ⟨fun c => ?_, nofun, Or.inl rfl, nofun, h.flow, h.noFault⟩
      have hok := h.connections c
      rwa [hloop] at hok
  | take => exact h.take hstep
  | deliver c => exact h.deliver hstep
  | done =>
      rw [Hub.step, Hub.done] at hstep
      split at hstep
      · rename_i data rest hloop
        split at hstep <;> cases hstep
        rename_i hempty
        refine ⟨fun c => ?_, nofun, Or.inl (h.count_eq (by rw [hloop]; rfl)), nofun, h.flow,
          h.noFault⟩
        have hok := h.connections c
        rwa [hloop, HubLoop.owed, hempty, if_neg (Finset.notMem_empty c)] at hok
      · cases hstep
  | close c => exact h.close hstep
  | finish =>
      have hfinished : s.clients = ∅ → (∀ c, s.loop.owed c = []) →
          ({ s with count := 0, loop := .returned } : Hub α β).Inv marshal := by
        intro hempty howed
        refine ⟨fun c => ?_, nofun, Or.inl (by rw [hempty]; rfl), fun _ => hempty, h.flow,
          h.noFault⟩
        have hok := h.connections c
        rwa [howed c] at hok
      rw [Hub.step, Hub.finish] at hstep
      split at hstep
      · rename_i hloop
        split at hstep <;> cases hstep
        rename_i hready
        rw [Bool.and_eq_true, decide_eq_true_eq] at hready
        exact hfinished hready.2 fun c => by rw [hloop]; rfl
      · rename_i hloop
        split at hstep <;> cases hstep
        rename_i hempty
        exact hfinished hempty fun c => by rw [hloop]; rfl
      · cases hstep

theorem hub_inv
    {actions : List (HubAction α)} (hrun : (hub marshal).run actions = some s) :
    s.Inv marshal := by
  refine Machine.run_invariant ⟨fun c => ?_, nofun, Or.inl rfl, nofun, rfl, rfl⟩
    (fun s a s' hinv hstep => hinv.step hstep) hrun
  exact Client.absent_ok.of_iff (by simp [hub])

/-! ### What holds in every run -/

/-- In every run no channel is closed twice or sent on after it was closed: the channel of a
connection is open until the hub takes the client from its map.  The counter is the size of the
map, except between a change of the map and the store; after the end of the hub no connection
is left open. -/
theorem hub_safe
    {actions : List (HubAction α)} (hrun : (hub marshal).run actions = some s) :
    s.fault = false ∧
      (∀ c, (s.connections c).send.closed = true ↔
        (s.connections c).isRegistered = true ∧ c ∉ s.clients) ∧
      (s.loop.changesClients = false → s.count = s.clients.card) ∧
      (s.loop = .returned → s.count = 0 ∧
        ∀ c, (s.connections c).isRegistered = true → (s.connections c).send.closed = true) := by
  have h := hub_inv hrun
  refine ⟨h.noFault, fun c => (h.connections c).closed_iff, h.count_eq, fun hreturned => ?_⟩
  have hempty := h.returned hreturned
  refine ⟨?_, fun c hregistered => ?_⟩
  · rw [h.count_eq (by rw [hreturned]; rfl), hempty]
    rfl
  · exact (h.connections c).closed_iff.mpr ⟨hregistered, by simp [hempty]⟩

/-- In every run a connection is offered the messages of the jobs that the hub received since it
registered the client, in their order and all of them up to the one it is at, until the client
leaves.  It gets those for which there was room, in that order: what it wrote is the beginning
of what it received, of which it lost the last one at most, and the rest waits. -/
theorem hub_delivers
    {actions : List (HubAction α)} (hrun : (hub marshal).run actions = some s) (c : Nat) :
    let client := s.connections c
    let sent := (s.received.drop client.joined).filterMap marshal
    s.received ++ s.broadcast.buffer = s.queued ∧
      client.offered.map Prod.fst <+: sent ∧
      (c ∈ s.clients → client.offered.map Prod.fst ++ s.loop.owed c = sent) ∧
      client.received ++ client.send.buffer = client.accepted ∧
      (client.received = client.written ∨
        client.writer = .stopped ∧ ∃ data, client.received = client.written ++ [data]) ∧
      ((∀ o ∈ client.offered, o.2 < sendBufferSize) → c ∈ s.clients →
        client.received ++ client.send.buffer ++ s.loop.owed c = sent) := by
  intro client sent
  have h := hub_inv hrun
  have hok := h.connections c
  refine ⟨h.flow, hok.offered, hok.owed_eq, hok.flow, hok.written, fun hroom hmember => ?_⟩
  have haccepted : client.accepted = client.offered.map Prod.fst := by
    rw [Client.accepted, List.filter_eq_self.mpr fun o ho => decide_eq_true (hroom o ho)]
  rw [hok.flow, haccepted]
  exact hok.owed_eq hmember

end Model

/-! ### One run -/

/-- Two clients are served; one leaves, and the hub ends. -/
def sampleHubRun : List (HubAction Nat) :=
  [.accept 1, .register 1, .store, .load 7, .enqueue 0, .accept 2, .register 2, .store, .take,
    .deliver 2, .deliver 1, .done, .write 1 true, .readError 1, .unregister 1, .store,
    .cancelHub, .close 2, .finish, .write 2 true, .write 2 true, .write 1 true]

theorem hub_safe_sample :
    ∃ s, (hub some).run sampleHubRun = some s ∧ s.fault = false ∧ s.count = 0 ∧
      (s.connections 2).send.closed = true := by
  have h := @hub_safe Nat Nat some _ sampleHubRun rfl
  exact ⟨_, rfl, h.1, rfl, (h.2.1 2).mpr ⟨rfl, by decide⟩⟩

theorem hub_delivers_sample :
    ∃ s, (hub some).run (sampleHubRun.take 12) = some s ∧ 2 ∈ s.clients ∧
      (s.connections 2).received ++ (s.connections 2).send.buffer ++ s.loop.owed 2 = [7] := by
  refine ⟨_, rfl, by decide, ?_⟩
  exact (@hub_delivers Nat Nat some _ (sampleHubRun.take 12) rfl 2).2.2.2.2.2
    (by decide) (by decide)

end Websocket
end Otelop
