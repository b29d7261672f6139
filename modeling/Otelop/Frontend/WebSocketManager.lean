import Otelop.Lib.KeyedList

/-!
# The WebSocket manager

`frontend/src/lib/websocket-manager.ts`: one socket shared by the subscribers, a
deferred teardown after the last one left, and reconnection with a growing delay.

The browser is part of the state: the sockets that were created, with their ready
state and whether their handlers are attached, and the timers that are pending.  An
event is a call of a subscriber, an event of any socket, current or superseded, or
the firing of a pending timer.  A step gives the callbacks it makes.

**Results.**
* `step_coherent`: what one event keeps, unless the current socket closes while a
  reconnect timer is pending.
* `wsManager_run_iff`: the connection invariant holds along a run exactly when that
  never happens.
-/

namespace Otelop
namespace Frontend

open Lib

universe u v

/-- What the subscribers are told of the connection. -/
inductive WsStatus where
  | connecting
  | connected
  | disconnected
deriving DecidableEq

/-- `WebSocket.CONNECTING`, `OPEN`, `CLOSING`, `CLOSED` -/
inductive ReadyState where
  | connecting
  | opened
  | closing
  | closed
deriving DecidableEq

/-- A socket; `handlers` says whether its four handlers are attached. -/
structure Socket where
  readyState : ReadyState
  handlers : Bool
deriving DecidableEq

def Socket.live (k : Socket) : Bool := k.readyState = .connecting ∨ k.readyState = .opened

/-- A socket whose handlers are detached, and which is closed unless it already closes. -/
def Socket.release (k : Socket) : Socket where
  readyState := if k.live then .closing else k.readyState
  handlers := false

/-- The ready state after an open event, which is late when the socket is closed. -/
def ReadyState.afterOpen : ReadyState → ReadyState
  | .connecting => .opened
  | state => state

/-- The callback of a pending timer: of `scheduleReconnect` with its delay, or of an
unsubscription. -/
inductive TimerCallback where
  | reconnect (delay : Nat)
  | teardown
deriving DecidableEq

/-- A timer that is set. -/
structure Timer where
  id : Nat
  callback : TimerCallback
deriving DecidableEq

def Timer.isReconnect (t : Timer) : Bool :=
  match t.callback with
  | .reconnect _ => true
  | .teardown => false

/-- A callback of a subscriber. -/
inductive SubscriberCall (σ : Type u) (μ : Type v) where
  | onStatus (subscriber : σ) (status : WsStatus)
  | onMessage (subscriber : σ) (msg : μ)

/-- The manager, and the sockets and timers of the browser. -/
structure WsManager (σ : Type u) where
  initialReconnectDelay : Nat
  maxReconnectDelay : Nat
  ws : Option Nat
  subscribers : List σ
  status : WsStatus
  reconnectDelay : Nat
  reconnectTimer : Option Nat
  disconnectTimer : Option Nat
  sockets : List Socket
  timers : List Timer
  nextTimer : Nat
deriving DecidableEq

/-- The data of a `message` is what `JSON.parse` makes of it, if it can. -/
inductive ManagerEvent (σ : Type u) (μ : Type v) where
  | subscribe (subscriber : σ)
  | unsubscribe (subscriber : σ)
  | opened (socket : Nat)
  | message (socket : Nat) (data : Option μ)
  | closed (socket : Nat)
  | error (socket : Nat)
  | timer (id : Nat)

namespace WsManager

variable {σ : Type u} {μ : Type v}

/-- The constructor. -/
def new (initialReconnectDelay maxReconnectDelay : Nat) : WsManager σ where
  initialReconnectDelay := initialReconnectDelay
  maxReconnectDelay := maxReconnectDelay
  ws := none
  subscribers := []
  status := .disconnected
  reconnectDelay := initialReconnectDelay
  reconnectTimer := none
  disconnectTimer := none
  sockets := []
  timers := []
  nextTimer := 0

/-- The state after `setTimeout(callback)`, whose result is `m.nextTimer`. -/
def setTimeout (m : WsManager σ) (callback : TimerCallback) : WsManager σ :=
  { m with timers := m.timers ++ [⟨m.nextTimer, callback⟩], nextTimer := m.nextTimer + 1 }

/-- A timer that fired or was cleared is gone. -/
def clearTimeout (m : WsManager σ) (id : Nat) : WsManager σ :=
  { m with timers := m.timers.filter fun t => t.id ≠ id }

/-- A new status is told to all subscribers. -/
def setStatus (m : WsManager σ) (status : WsStatus) : WsManager σ × List (SubscriberCall σ μ) :=
  ({ m with status := status }, m.subscribers.map fun s => .onStatus s status)

def connect (m : WsManager σ) : WsManager σ × List (SubscriberCall σ μ) :=
  let (m, calls) := m.setStatus .connecting
  ({ m with ws := some m.sockets.length, sockets := m.sockets ++ [⟨.connecting, true⟩] }, calls)

def scheduleReconnect (m : WsManager σ) : WsManager σ :=
  { m.setTimeout (.reconnect m.reconnectDelay) with reconnectTimer := some m.nextTimer }

/-- The reconnect timer is cleared. -/
def clearReconnect (m : WsManager σ) : WsManager σ :=
  match m.reconnectTimer with
  | some id => { m.clearTimeout id with reconnectTimer := none }
  | none => m

/-- The handlers of the current socket are taken off and it is closed. -/
def releaseSocket (m : WsManager σ) : WsManager σ :=
  match m.ws with
  | some i => { m with ws := none, sockets := m.sockets.modify i Socket.release }
  | none => m

def disconnect (m : WsManager σ) : WsManager σ × List (SubscriberCall σ μ) :=
  let (m, calls) := m.clearReconnect.releaseSocket.setStatus .disconnected
  ({ m with reconnectDelay := m.initialReconnectDelay }, calls)

/-- The teardown timer is cleared. -/
def clearDisconnect (m : WsManager σ) : WsManager σ :=
  match m.disconnectTimer with
  | some id => { m.clearTimeout id with disconnectTimer := none }
  | none => m

/-- `this.ws !== ws` does not hold in a handler of the socket `i`. -/
def handles (m : WsManager σ) (i : Nat) : Bool :=
  (m.sockets[i]?).any Socket.handlers ∧ m.ws = some i

def setReadyState (m : WsManager σ) (i : Nat) (f : ReadyState → ReadyState) : WsManager σ :=
  { m with sockets := m.sockets.modify i fun k => { k with readyState := f k.readyState } }

def onopen (m : WsManager σ) (i : Nat) : WsManager σ × List (SubscriberCall σ μ) :=
  let m := m.setReadyState i ReadyState.afterOpen
  if m.handles i then
    let (m, calls) := m.setStatus .connected
    ({ m with reconnectDelay := m.initialReconnectDelay }, calls)
  else (m, [])

def onmessage (m : WsManager σ) (i : Nat) (data : Option μ) :
    WsManager σ × List (SubscriberCall σ μ) :=
  if m.handles i then
    match data with
    | some msg => (m, m.subscribers.map fun s => .onMessage s msg)
    | none => (m, [])
  else (m, [])

def onclose (m : WsManager σ) (i : Nat) : WsManager σ × List (SubscriberCall σ μ) :=
  let m := m.setReadyState i fun _ => .closed
  if m.handles i then
    let (m, calls) := { m with ws := none }.setStatus .disconnected
    (if m.subscribers.length > 0 then m.scheduleReconnect else m, calls)
  else (m, [])

def onReconnectTimer (m : WsManager σ) (delay : Nat) : WsManager σ × List (SubscriberCall σ μ) :=
  let m := { m with
    reconnectTimer := none
    reconnectDelay := min (delay * 2) m.maxReconnectDelay }
  if m.subscribers.length > 0 ∧ m.ws = none then m.connect else (m, [])

/-- The manager is torn down unless somebody has subscribed again. -/
def onDisconnectTimer (m : WsManager σ) : WsManager σ × List (SubscriberCall σ μ) :=
  let m := { m with disconnectTimer := none }
  if m.subscribers.length = 0 then m.disconnect else (m, [])

/-- A timer fires, if it is set. -/
def onTimer (m : WsManager σ) (id : Nat) : WsManager σ × List (SubscriberCall σ μ) :=
  match m.timers.find? fun t => t.id = id with
  | some ⟨_, .reconnect delay⟩ => (m.clearTimeout id).onReconnectTimer delay
  | some ⟨_, .teardown⟩ => (m.clearTimeout id).onDisconnectTimer
  | none => (m, [])

variable [DecidableEq σ]

def subscribe (m : WsManager σ) (s : σ) : WsManager σ × List (SubscriberCall σ μ) :=
  let m := m.clearDisconnect
  let m := { m with subscribers := insertKey m.subscribers s }
  let seed : List (SubscriberCall σ μ) := [.onStatus s m.status]
  if m.subscribers.length = 1 ∧ m.ws = none then
    let (m, calls) := m.connect
    (m, seed ++ calls)
  else (m, seed)

/-- The function that `subscribe` returned. -/
def unsubscribe (m : WsManager σ) (s : σ) : WsManager σ × List (SubscriberCall σ μ) :=
  let m := { m with subscribers := m.subscribers.filter fun t => t ≠ s }
  if m.subscribers.length = 0 then
    ({ m.setTimeout .teardown with disconnectTimer := some m.nextTimer }, [])
  else (m, [])

/-- What an event does. -/
def step (m : WsManager σ) : ManagerEvent σ μ → WsManager σ × List (SubscriberCall σ μ)
  | .subscribe s => m.subscribe s
  | .unsubscribe s => m.unsubscribe s
  | .opened i => m.onopen i
  | .message i data => m.onmessage i data
  | .closed i => m.onclose i
  | .error _ => (m, [])
  | .timer id => m.onTimer id

/-- The manager after some events. -/
def after (initialReconnectDelay maxReconnectDelay : Nat) (events : List (ManagerEvent σ μ)) :
    WsManager σ :=
  events.foldl (fun m e => (m.step e).1) (new initialReconnectDelay maxReconnectDelay)

end WsManager

variable {σ : Type u} {μ : Type v}

/-! ### The sockets -/

/-- The live socket is the current one. -/
structure SocketsCoherent (ws : Option Nat) (sockets : List Socket) : Prop where
  current_of_live : ∀ i k, sockets[i]? = some k → k.live → ws = some i
  live_of_current : ∀ i, ws = some i → ∃ k, sockets[i]? = some k ∧ k.live ∧ k.handlers

namespace SocketsCoherent

variable {ws : Option Nat} {sockets : List Socket}

theorem push
    (h : SocketsCoherent none sockets) :
    SocketsCoherent (some sockets.length) (sockets ++ [⟨.connecting, true⟩]) := by
  constructor
  · intro i k hi hlive
    rcases Nat.lt_or_ge i sockets.length with hlt | hge
    · rw [List.getElem?_append_left hlt] at hi
      cases h.current_of_live i k hi hlive
    · obtain ⟨hlt, -⟩ := List.getElem?_eq_some_iff.mp hi
      rw [List.length_append, List.length_singleton] at hlt
      have heq : sockets.length = i := by omega
      rw [heq]
  · intro i hi
    cases hi
    exact ⟨⟨.connecting, true⟩, by simp, rfl, rfl⟩

/-- A change of the ready state that keeps which sockets are live. -/
theorem setReadyState
    (h : SocketsCoherent ws sockets) (i : Nat) {f : ReadyState → ReadyState}
    (hlive : ∀ k : Socket, Socket.live { k with readyState := f k.readyState } = k.live) :
    SocketsCoherent ws (sockets.modify i fun k => { k with readyState := f k.readyState }) := by
  constructor
  · intro j k hj hk
    rw [List.getElem?_modify] at hj
    obtain ⟨l, hl, rfl⟩ := Option.map_eq_some_iff.mp hj
    refine h.current_of_live j l hl ?_
    split at hk
    · rwa [hlive] at hk
    · exact hk
  · intro j hj
    obtain ⟨k, hk, hkl, hkh⟩ := h.live_of_current j hj
    rw [List.getElem?_modify, hk]
    refine ⟨_, rfl, ?_⟩
    split
    · exact ⟨(hlive k).trans hkl, hkh⟩
    · exact ⟨hkl, hkh⟩

/-- A change after which the socket `i` is not live. -/
theorem modify_dead
    (h : SocketsCoherent ws sockets) (i : Nat) {f : Socket → Socket}
    (hdead : ∀ k, (f k).live = false) :
    SocketsCoherent (if ws = some i then none else ws) (sockets.modify i f) := by
  constructor
  · intro j k hj hk
    rw [List.getElem?_modify] at hj
    obtain ⟨l, hl, rfl⟩ := Option.map_eq_some_iff.mp hj
    by_cases hij : i = j
    · rw [if_pos hij, hdead] at hk
      cases hk
    · rw [if_neg hij] at hk
      have hws : ws = some j := h.current_of_live j l hl hk
      rw [if_neg (by rw [hws]; exact fun heq => hij (Option.some.inj heq).symm), hws]
  · intro j hj
    split at hj
    · cases hj
    · rename_i hne
      obtain ⟨k, hk, hkl, hkh⟩ := h.live_of_current j hj
      have hij : i ≠ j := fun heq => hne (heq ▸ hj)
      refine ⟨k, ?_, hkl, hkh⟩
      rw [List.getElem?_modify_ne f sockets hij, hk]

end SocketsCoherent

/-! ### The timers -/

/-- The handle of the reconnect timer is that of the only one that is pending, and the
handle of the teardown is of no reconnect timer. -/
structure TimersCoherent (timers : List Timer) (next : Nat) (reconnectTimer : Option Nat)
    (disconnectTimer : Option Nat) : Prop where
  reconnect : (timers.filter Timer.isReconnect).map Timer.id = reconnectTimer.toList
  nodup : (timers.map Timer.id).Nodup
  fresh : ∀ t ∈ timers, t.id < next
  teardown : ∀ d, disconnectTimer = some d →
    d < next ∧ ∀ t ∈ timers, t.id = d → t.isReconnect = false

namespace TimersCoherent

variable {timers : List Timer} {next : Nat} {reconnectTimer disconnectTimer : Option Nat}

/-- A reconnect timer that is pending is the one of the handle. -/
theorem handle_eq
    (h : TimersCoherent timers next reconnectTimer disconnectTimer) {t : Timer}
    (ht : t ∈ timers) (hrec : t.isReconnect) :
    reconnectTimer = some t.id := by
  have hmem : t.id ∈ reconnectTimer.toList := by
    rw [← h.reconnect]
    exact List.mem_map_of_mem (List.mem_filter.mpr ⟨ht, hrec⟩)
  exact Option.mem_toList.mp hmem

/-- The handle of the reconnect timer is a timer that is set. -/
theorem pending_of_handle
    (h : TimersCoherent timers next reconnectTimer disconnectTimer) {id : Nat}
    (hid : reconnectTimer = some id) :
    ∃ t ∈ timers, t.isReconnect ∧ t.id = id := by
  have hmem : id ∈ (timers.filter Timer.isReconnect).map Timer.id := by
    rw [h.reconnect, hid]
    exact List.mem_singleton_self id
  obtain ⟨t, ht, heq⟩ := List.mem_map.mp hmem
  exact ⟨t, (List.mem_filter.mp ht).1, (List.mem_filter.mp ht).2, heq⟩

theorem push
    (h : TimersCoherent timers next reconnectTimer disconnectTimer) (callback : TimerCallback)
    {handle : Option Nat}
    (hhandle : reconnectTimer.toList ++ (([⟨next, callback⟩] : List Timer).filter
      Timer.isReconnect).map Timer.id = handle.toList) :
    TimersCoherent (timers ++ [⟨next, callback⟩]) (next + 1) handle disconnectTimer := by
  refine ⟨?_, ?_, ?_, ?_⟩
  · rw [List.filter_append, List.map_append, h.reconnect, hhandle]
  · rw [List.map_append, List.nodup_append]
    refine ⟨h.nodup, List.nodup_singleton _, fun x hx y hy heq => ?_⟩
    obtain ⟨t, ht, rfl⟩ := List.mem_map.mp hx
    cases List.mem_singleton.mp hy
    exact absurd heq (Nat.ne_of_lt (h.fresh t ht))
  · intro t ht
    rcases List.mem_append.mp ht with ht | ht
    · exact Nat.lt_succ_of_lt (h.fresh t ht)
    · cases List.mem_singleton.mp ht
      exact Nat.lt_succ_self next
  · intro d hd
    obtain ⟨hlt, hkind⟩ := h.teardown d hd
    refine ⟨Nat.lt_succ_of_lt hlt, fun t ht heq => ?_⟩
    rcases List.mem_append.mp ht with ht | ht
    · exact hkind t ht heq
    · cases List.mem_singleton.mp ht
      exact absurd heq (Nat.ne_of_gt hlt)

theorem scheduleReconnect
    (h : TimersCoherent timers next none disconnectTimer) (delay : Nat) :
    TimersCoherent (timers ++ [⟨next, .reconnect delay⟩]) (next + 1) (some next)
      disconnectTimer :=
  h.push _ rfl

/-- A teardown timer is set. -/
theorem scheduleTeardown
    (h : TimersCoherent timers next reconnectTimer disconnectTimer) :
    TimersCoherent (timers ++ [⟨next, .teardown⟩]) (next + 1) reconnectTimer (some next) := by
  have hkeep : reconnectTimer.toList ++ (([⟨next, .teardown⟩] : List Timer).filter
      Timer.isReconnect).map Timer.id = reconnectTimer.toList :=
    List.append_nil _
  have hpush := h.push .teardown hkeep
  refine ⟨hpush.reconnect, hpush.nodup, hpush.fresh, fun d hd => ?_⟩
  cases hd
  refine ⟨Nat.lt_succ_self next, fun t ht heq => ?_⟩
  rcases List.mem_append.mp ht with ht | ht
  · exact absurd heq (Nat.ne_of_lt (h.fresh t ht))
  · cases List.mem_singleton.mp ht
    rfl

/-- Clearing or firing a timer. -/
theorem clear
    (h : TimersCoherent timers next reconnectTimer disconnectTimer) (id : Nat) :
    TimersCoherent (timers.filter fun t => t.id ≠ id) next
      (reconnectTimer.filter fun r => r ≠ id) disconnectTimer := by
  refine ⟨?_, h.nodup.sublist (List.filter_sublist.map _),
    fun t ht => h.fresh t (List.mem_of_mem_filter ht), fun d hd => ?_⟩
  · have hswap : (timers.filter fun t => t.id ≠ id).filter Timer.isReconnect =
        (timers.filter Timer.isReconnect).filter fun t => t.id ≠ id := by
      rw [List.filter_filter, List.filter_filter]
      exact List.filter_congr fun t _ => Bool.and_comm _ _
    have hmap : ((timers.filter Timer.isReconnect).filter fun t => t.id ≠ id).map Timer.id =
        ((timers.filter Timer.isReconnect).map Timer.id).filter fun r => r ≠ id := by
      rw [List.filter_map]
      rfl
    rw [hswap, hmap, h.reconnect]
    cases reconnectTimer with
    | none => rfl
    | some r =>
        by_cases hr : r = id <;> simp [hr, Option.filter]
  · obtain ⟨hlt, hkind⟩ := h.teardown d hd
    exact ⟨hlt, fun t ht => hkind t (List.mem_of_mem_filter ht)⟩

/-- The reconnect timer is cleared. -/
theorem clear_reconnect
    {id : Nat} (h : TimersCoherent timers next (some id) disconnectTimer) :
    TimersCoherent (timers.filter fun t => t.id ≠ id) next none disconnectTimer := by
  have hclear := h.clear id
  rwa [Option.filter_some_neg (by simp)] at hclear

/-- Another timer is cleared. -/
theorem clear_other
    (h : TimersCoherent timers next reconnectTimer disconnectTimer) {id : Nat}
    (hid : reconnectTimer ≠ some id) :
    TimersCoherent (timers.filter fun t => t.id ≠ id) next reconnectTimer disconnectTimer := by
  have hclear := h.clear id
  cases hr : reconnectTimer with
  | none => rwa [hr] at hclear
  | some r =>
      rw [hr] at hid hclear
      rwa [Option.filter_some_pos (by simpa using hid)] at hclear

theorem forget_teardown
    (h : TimersCoherent timers next reconnectTimer disconnectTimer) :
    TimersCoherent timers next reconnectTimer none :=
  ⟨h.reconnect, h.nodup, h.fresh, fun _ hd => by cases hd⟩

/-- No reconnect timer is pending when there is no handle. -/
theorem reconnect_none
    (h : TimersCoherent timers next none disconnectTimer) :
    timers.filter Timer.isReconnect = [] :=
  List.map_eq_nil_iff.mp h.reconnect

end TimersCoherent

/-! ### The invariant -/

/-- What the manager keeps as long as its reconnect handle is right. -/
structure Coherent (m : WsManager σ) : Prop where
  sockets : SocketsCoherent m.ws m.sockets
  timers : TimersCoherent m.timers m.nextTimer m.reconnectTimer m.disconnectTimer
  waiting : m.subscribers ≠ [] → m.ws = none → m.reconnectTimer ≠ none
  leaving : m.subscribers = [] → (∃ t ∈ m.timers, t.isReconnect = false) ∨
    (m.ws = none ∧ m.reconnectTimer = none)

/-- The current socket closes while somebody is subscribed and a reconnect timer is pending. -/
def ClosesWhileReconnecting (m : WsManager σ) (e : ManagerEvent σ μ) : Prop :=
  ∃ i, e = .closed i ∧ m.ws = some i ∧ m.subscribers ≠ [] ∧ ∃ t ∈ m.timers, t.isReconnect

/-- What a manager promises its subscribers: one live socket, one reconnect timer, which is pending while
somebody is subscribed and no socket is live, and nothing is left after a teardown. -/
structure ConnectionInvariant (m : WsManager σ) : Prop where
  oneSocket : ∀ (i j : Nat) (k l : Socket), m.sockets[i]? = some k → k.live →
    m.sockets[j]? = some l → l.live → i = j
  oneReconnect : (m.timers.filter Timer.isReconnect).length ≤ 1
  waiting : m.subscribers ≠ [] → (∀ k ∈ m.sockets, k.live = false) →
    ∃ t ∈ m.timers, t.isReconnect
  tornDown : m.subscribers = [] → (∀ t ∈ m.timers, t.isReconnect) →
    (∀ k ∈ m.sockets, k.live = false) ∧ m.timers = []

/-- Messages come from the current socket and go to current subscribers. -/
def DeliversToSubscribers (m : WsManager σ) (e : ManagerEvent σ μ)
    (calls : List (SubscriberCall σ μ)) : Prop :=
  ∀ s msg, .onMessage s msg ∈ calls →
    ∃ i, e = .message i (some msg) ∧ m.ws = some i ∧ s ∈ m.subscribers

/-- A coherent manager keeps what it promises. -/
theorem Coherent.connectionInvariant
    {m : WsManager σ} (h : Coherent m) :
    ConnectionInvariant m := by
  have hdead : m.ws = none → ∀ k ∈ m.sockets, k.live = false := by
    intro hws k hk
    obtain ⟨i, hi⟩ := List.mem_iff_getElem?.mp hk
    cases hlive : k.live with
    | false => rfl
    | true =>
        have hcur := h.sockets.current_of_live i k hi hlive
        rw [hws] at hcur
        cases hcur
  refine ⟨fun i j k l hi hk hj hl => ?_, ?_, fun hsub hnone => ?_, fun hsub htimers => ?_⟩
  · have hwi := h.sockets.current_of_live i k hi hk
    have hwj := h.sockets.current_of_live j l hj hl
    exact Option.some.inj (hwi.symm.trans hwj)
  · rw [← List.length_map Timer.id, h.timers.reconnect]
    cases m.reconnectTimer <;> simp
  · have hws : m.ws = none := by
      cases hcur : m.ws with
      | none => rfl
      | some i =>
          obtain ⟨k, hk, hlive, -⟩ := h.sockets.live_of_current i hcur
          rw [hnone k (List.mem_of_getElem? hk)] at hlive
          cases hlive
    obtain ⟨id, hid⟩ := Option.ne_none_iff_exists'.mp (h.waiting hsub hws)
    obtain ⟨t, ht, hrec, -⟩ := h.timers.pending_of_handle hid
    exact ⟨t, ht, hrec⟩
  · rcases h.leaving hsub with ⟨t, ht, hkind⟩ | ⟨hws, hhandle⟩
    · rw [htimers t ht] at hkind
      cases hkind
    · have htimersCoherent := h.timers
      rw [hhandle] at htimersCoherent
      refine ⟨hdead hws, ?_⟩
      rw [← List.filter_eq_self.mpr htimers]
      exact htimersCoherent.reconnect_none

namespace WsManager

/-- A new manager is coherent. -/
theorem coherent_new
    (initialReconnectDelay maxReconnectDelay : Nat) :
    Coherent (new initialReconnectDelay maxReconnectDelay : WsManager σ) where
  sockets := ⟨by simp [new], by simp [new]⟩
  timers := ⟨rfl, List.nodup_nil, by simp [new], by simp [new]⟩
  waiting := fun h => absurd rfl h
  leaving := fun _ => Or.inr ⟨rfl, rfl⟩

/-- A socket is made when there is none. -/
theorem coherent_connect
    {m : WsManager σ} (hws : m.ws = none) (hsockets : SocketsCoherent m.ws m.sockets)
    (htimers : TimersCoherent m.timers m.nextTimer m.reconnectTimer m.disconnectTimer)
    (hsub : m.subscribers ≠ []) :
    Coherent (m.connect (μ := μ)).1 where
  sockets := (hws ▸ hsockets).push
  timers := htimers
  waiting := fun _ h => by cases h
  leaving := fun h => absurd h hsub

theorem coherent_clearDisconnect
    {m : WsManager σ} (h : Coherent m) :
    SocketsCoherent m.clearDisconnect.ws m.clearDisconnect.sockets ∧
      TimersCoherent m.clearDisconnect.timers m.clearDisconnect.nextTimer
        m.clearDisconnect.reconnectTimer m.clearDisconnect.disconnectTimer := by
  rw [clearDisconnect]
  cases hd : m.disconnectTimer with
  | none => exact ⟨h.sockets, h.timers⟩
  | some d =>
      have hother : m.reconnectTimer ≠ some d := by
        intro hr
        obtain ⟨t, ht, hrec, hid⟩ := h.timers.pending_of_handle hr
        rw [(h.timers.teardown d hd).2 t ht hid] at hrec
        cases hrec
      exact ⟨h.sockets, (h.timers.clear_other hother).forget_teardown⟩

/-- A subscription keeps the manager coherent. -/
theorem coherent_subscribe
    [DecidableEq σ] {m : WsManager σ} (h : Coherent m) (s : σ) :
    Coherent (m.subscribe (μ := μ) s).1 := by
  obtain ⟨hsockets, htimers⟩ := coherent_clearDisconnect h
  have hsub : insertKey m.clearDisconnect.subscribers s ≠ [] := by
    rw [insertKey]
    split
    · rename_i hmem
      exact List.ne_nil_of_mem hmem
    · simp
  rw [subscribe]
  split
  · rename_i hconnect
    exact coherent_connect (μ := μ) hconnect.2 hsockets htimers hsub
  · rename_i hstay
    refine ⟨hsockets, htimers, fun _ hws hnone => ?_, fun hempty => absurd hempty hsub⟩
    -- Somebody was subscribed before, for else the manager would connect now.
    have hsame : m.clearDisconnect.subscribers = m.subscribers ∧
        m.clearDisconnect.ws = m.ws ∧ m.clearDisconnect.reconnectTimer = m.reconnectTimer := by
      rw [clearDisconnect]
      split <;> exact ⟨rfl, rfl, rfl⟩
    obtain ⟨hsubs, hcur, hhandle⟩ := hsame
    refine h.waiting (fun hempty => hstay ⟨?_, hws⟩) (hcur ▸ hws) (hhandle ▸ hnone)
    dsimp only
    rw [hsubs, hempty]
    rfl

/-- The end of a subscription keeps the manager coherent. -/
theorem coherent_unsubscribe
    [DecidableEq σ] {m : WsManager σ} (h : Coherent m) (s : σ) :
    Coherent (m.unsubscribe (μ := μ) s).1 := by
  rw [unsubscribe]
  split
  · rename_i hempty
    refine ⟨h.sockets, h.timers.scheduleTeardown, fun hsub => absurd ?_ hsub, fun _ => Or.inl ?_⟩
    · exact List.length_eq_zero_iff.mp hempty
    · exact ⟨⟨m.nextTimer, .teardown⟩, by simp [setTimeout], rfl⟩
  · rename_i hmore
    refine ⟨h.sockets, h.timers, fun _ hws => h.waiting ?_ hws, fun hempty => absurd ?_ hmore⟩
    · intro hnil
      rw [hnil] at hmore
      exact hmore rfl
    · dsimp only at hempty ⊢
      rw [hempty]
      rfl

theorem live_afterOpen
    (k : Socket) :
    Socket.live { k with readyState := k.readyState.afterOpen } = k.live := by
  obtain ⟨state, handlers⟩ := k
  cases state <;> rfl

/-- A socket that opens keeps the manager coherent. -/
theorem coherent_onopen
    {m : WsManager σ} (h : Coherent m) (i : Nat) :
    Coherent (m.onopen (μ := μ) i).1 := by
  have hsockets := h.sockets.setReadyState i live_afterOpen
  rw [onopen]
  split <;> exact ⟨hsockets, h.timers, h.waiting, h.leaving⟩

/-- A message keeps the manager coherent. -/
theorem coherent_onmessage
    {m : WsManager σ} (h : Coherent m) (i : Nat) (data : Option μ) :
    Coherent (m.onmessage i data).1 := by
  simp only [onmessage]
  split
  · cases data <;> exact h
  · exact h

/-- The step that goes wrong when a reconnect timer is still pending: its handle is lost. -/
theorem coherent_onclose
    {m : WsManager σ} (h : Coherent m) (i : Nat)
    (hsafe : m.ws = some i → m.subscribers ≠ [] → m.reconnectTimer = none) :
    Coherent (m.onclose (μ := μ) i).1 := by
  have hsockets := h.sockets.modify_dead i (f := fun k => { k with readyState := .closed })
    (fun _ => rfl)
  rw [onclose]
  split
  · rename_i hhandles
    have hws : m.ws = some i := (of_decide_eq_true hhandles).2
    rw [if_pos hws] at hsockets
    dsimp only [setStatus]
    split
    · rename_i hsub
      have hnone := hsafe hws (List.ne_nil_of_length_pos hsub)
      have htimers := h.timers
      rw [hnone] at htimers
      exact ⟨hsockets, htimers.scheduleReconnect _, fun _ _ hnone => (by cases hnone),
        fun hempty => absurd hempty (List.ne_nil_of_length_pos hsub)⟩
    · rename_i hsub
      have hempty : m.subscribers = [] := List.length_eq_zero_iff.mp (Nat.eq_zero_of_not_pos hsub)
      refine ⟨hsockets, h.timers, fun hne => absurd hempty hne, fun _ => ?_⟩
      rcases h.leaving hempty with hpending | ⟨hnone, -⟩
      · exact Or.inl hpending
      · rw [hws] at hnone
        cases hnone
  · rename_i hhandles
    have hws : m.ws ≠ some i := by
      intro hws
      obtain ⟨k, hk, -, hattached⟩ := h.sockets.live_of_current i hws
      refine hhandles (decide_eq_true ⟨?_, hws⟩)
      rw [setReadyState, List.getElem?_modify_eq, hk]
      exact hattached
    rw [if_neg hws] at hsockets
    exact ⟨hsockets, h.timers, h.waiting, h.leaving⟩

/-- A teardown without subscribers keeps the manager coherent. -/
theorem coherent_disconnect
    {m : WsManager σ} (hempty : m.subscribers = [])
    (hsockets : SocketsCoherent m.ws m.sockets)
    (htimers : TimersCoherent m.timers m.nextTimer m.reconnectTimer m.disconnectTimer) :
    Coherent (m.disconnect (μ := μ)).1 := by
  have hclear : m.clearReconnect.reconnectTimer = none ∧ m.clearReconnect.ws = m.ws ∧
      m.clearReconnect.sockets = m.sockets ∧ m.clearReconnect.subscribers = [] ∧
      TimersCoherent m.clearReconnect.timers m.clearReconnect.nextTimer none
        m.clearReconnect.disconnectTimer := by
    rw [clearReconnect]
    split
    · rename_i id hr
      rw [hr] at htimers
      exact ⟨rfl, rfl, rfl, hempty, htimers.clear_reconnect⟩
    · rename_i hr
      rw [hr] at htimers
      exact ⟨hr, rfl, rfl, hempty, htimers⟩
  obtain ⟨hhandle, hcur, hsame, hsub, hcleared⟩ := hclear
  have hdead : ∀ k : Socket, k.release.live = false := by
    rintro ⟨state, handlers⟩
    cases state <;> rfl
  rw [disconnect, releaseSocket]
  cases hws : m.clearReconnect.ws with
  | none =>
      refine ⟨?_, ?_, fun hne => absurd hsub hne, fun _ => Or.inr ⟨hws, hhandle⟩⟩
      · dsimp only [setStatus]
        rw [hcur, hsame]
        exact hsockets
      · dsimp only [setStatus]
        rw [hhandle]
        exact hcleared
  | some i =>
      have hreleased := hsockets.modify_dead i hdead
      rw [← hcur, hws, if_pos rfl] at hreleased
      refine ⟨?_, ?_, fun hne => absurd hsub hne, fun _ => Or.inr ⟨rfl, hhandle⟩⟩
      · dsimp only [setStatus]
        rw [hsame]
        exact hreleased
      · dsimp only [setStatus]
        rw [hhandle]
        exact hcleared

/-- A timer that fires keeps the manager coherent. -/
theorem coherent_onTimer
    {m : WsManager σ} (h : Coherent m) (id : Nat) :
    Coherent (m.onTimer (μ := μ) id).1 := by
  rw [onTimer]
  cases hfind : m.timers.find? fun t => t.id = id with
  | none => exact h
  | some t =>
      have ht : t ∈ m.timers := List.mem_of_find?_eq_some hfind
      have hid : t.id = id := by simpa using List.find?_some hfind
      obtain ⟨tid, callback⟩ := t
      dsimp only at hid
      subst hid
      cases callback with
      | reconnect delay =>
          have hhandle := h.timers.handle_eq ht rfl
          have htimers := h.timers
          rw [hhandle] at htimers
          have hcleared := htimers.clear_reconnect
          dsimp only
          rw [onReconnectTimer]
          split
          · rename_i hconnect
            exact coherent_connect hconnect.2 h.sockets hcleared
              (List.ne_nil_of_length_pos hconnect.1)
          · rename_i hstay
            refine ⟨h.sockets, hcleared, fun hsub hws => ?_, fun hempty => Or.inl ?_⟩
            · exact absurd ⟨List.length_pos_of_ne_nil hsub, hws⟩ hstay
            · -- The teardown that is pending has another id than this timer.
              rcases h.leaving hempty with ⟨u, hu, hkind⟩ | ⟨-, hnone⟩
              · refine ⟨u, List.mem_filter.mpr ⟨hu, decide_eq_true fun heq => ?_⟩, hkind⟩
                have hsame := List.inj_on_of_nodup_map h.timers.nodup hu ht heq
                rw [hsame] at hkind
                cases hkind
              · rw [hhandle] at hnone
                cases hnone
      | teardown =>
          have hother : m.reconnectTimer ≠ some tid := by
            intro hr
            obtain ⟨u, hu, hrec, heq⟩ := h.timers.pending_of_handle hr
            have hsame := List.inj_on_of_nodup_map h.timers.nodup hu ht heq
            rw [hsame] at hrec
            cases hrec
          have hcleared := (h.timers.clear_other hother).forget_teardown
          dsimp only
          rw [onDisconnectTimer]
          split
          · rename_i hempty
            exact coherent_disconnect (List.length_eq_zero_iff.mp hempty) h.sockets hcleared
          · rename_i hsub
            refine ⟨h.sockets, hcleared, h.waiting, fun hempty => absurd ?_ hsub⟩
            exact List.length_eq_zero_iff.mpr hempty

/-- What one event keeps. -/
theorem step_coherent
    [DecidableEq σ] {m : WsManager σ} (h : Coherent m) (e : ManagerEvent σ μ)
    (hsafe : ¬ ClosesWhileReconnecting m e) :
    Coherent (m.step e).1 := by
  cases e with
  | subscribe s => exact coherent_subscribe h s
  | unsubscribe s => exact coherent_unsubscribe h s
  | opened i => exact coherent_onopen h i
  | message i data => exact coherent_onmessage h i data
  | closed i =>
      refine coherent_onclose h i fun hws hsub => ?_
      cases hr : m.reconnectTimer with
      | none => rfl
      | some id =>
          obtain ⟨t, ht, hrec, -⟩ := h.timers.pending_of_handle hr
          exact absurd ⟨i, rfl, hws, hsub, t, ht, hrec⟩ hsafe
  | error i => exact h
  | timer id => exact coherent_onTimer h id

/-- The second timer, if the current socket closes while a reconnect timer is pending. -/
theorem two_timers
    [DecidableEq σ] {m : WsManager σ} (h : Coherent m) {e : ManagerEvent σ μ}
    (hbad : ClosesWhileReconnecting m e) :
    ¬ ConnectionInvariant (m.step e).1 := by
  obtain ⟨i, rfl, hws, hsub, t, ht, hrec⟩ := hbad
  obtain ⟨k, hk, -, hattached⟩ := h.sockets.live_of_current i hws
  have hhandles : (m.setReadyState i fun _ => .closed).handles i := by
    refine decide_eq_true ⟨?_, hws⟩
    rw [setReadyState, List.getElem?_modify_eq, hk]
    exact hattached
  have htimers : (m.step (.closed i : ManagerEvent σ μ)).1.timers =
      m.timers ++ [⟨m.nextTimer, .reconnect m.reconnectDelay⟩] := by
    have hlen : m.subscribers.length > 0 := List.length_pos_of_ne_nil hsub
    rw [step, onclose, if_pos hhandles]
    exact congrArg WsManager.timers (if_pos hlen)
  intro hinv
  have hone := hinv.oneReconnect
  have hpos : 0 < (m.timers.filter Timer.isReconnect).length :=
    List.length_pos_of_mem (List.mem_filter.mpr ⟨ht, hrec⟩)
  rw [htimers, List.filter_append, List.length_append] at hone
  have hnew : (([⟨m.nextTimer, .reconnect m.reconnectDelay⟩] : List Timer).filter
      Timer.isReconnect).length = 1 := rfl
  omega

/-! ### The callbacks -/

/-- Callbacks that deliver no message. -/
def StatusOnly (calls : List (SubscriberCall σ μ)) : Prop := ∀ s msg, .onMessage s msg ∉ calls

theorem statusOnly_nil : StatusOnly ([] : List (SubscriberCall σ μ)) :=
  fun _ _ h => by cases h

theorem statusOnly_setStatus
    (m : WsManager σ) (status : WsStatus) :
    StatusOnly (m.setStatus (μ := μ) status).2 := by
  intro s msg h
  obtain ⟨t, -, heq⟩ := List.mem_map.mp h
  cases heq

theorem statusOnly_onTimer
    (m : WsManager σ) (id : Nat) :
    StatusOnly (m.onTimer (μ := μ) id).2 := by
  rw [onTimer]
  split
  · rw [onReconnectTimer]
    split
    · exact statusOnly_setStatus _ .connecting
    · exact statusOnly_nil
  · rw [onDisconnectTimer]
    split
    · exact statusOnly_setStatus _ .disconnected
    · exact statusOnly_nil
  · exact statusOnly_nil

theorem statusOnly_subscribe
    [DecidableEq σ] (m : WsManager σ) (s : σ) :
    StatusOnly (m.subscribe (μ := μ) s).2 := by
  have hseed : ∀ status, StatusOnly ([.onStatus s status] : List (SubscriberCall σ μ)) := by
    intro status t msg h
    cases List.mem_singleton.mp h
  rw [subscribe]
  split
  · intro t msg h
    rcases List.mem_append.mp h with h | h
    · exact hseed _ t msg h
    · exact statusOnly_setStatus _ .connecting t msg h
  · exact hseed _

/-- Every message comes from the current socket and goes to a subscriber. -/
theorem deliversToSubscribers
    [DecidableEq σ] (m : WsManager σ) (e : ManagerEvent σ μ) :
    DeliversToSubscribers m e (m.step e).2 := by
  cases e with
  | subscribe s => exact fun t msg h => absurd h (statusOnly_subscribe m s t msg)
  | unsubscribe s =>
      intro t msg h
      rw [step, unsubscribe] at h
      split at h <;> cases h
  | opened i =>
      intro t msg h
      rw [step, onopen] at h
      split at h
      · exact absurd h (statusOnly_setStatus _ .connected t msg)
      · cases h
  | message i data =>
      intro t msg h
      simp only [step, onmessage] at h
      split at h
      · rename_i hhandles
        cases data with
        | none => cases h
        | some data =>
            obtain ⟨u, hu, heq⟩ := List.mem_map.mp h
            cases heq
            exact ⟨i, rfl, (of_decide_eq_true hhandles).2, hu⟩
      · cases h
  | closed i =>
      intro t msg h
      rw [step, onclose] at h
      split at h
      · exact absurd h (statusOnly_setStatus _ .disconnected t msg)
      · cases h
  | error i => exact fun t msg h => by cases h
  | timer id => exact fun t msg h => absurd h (statusOnly_onTimer m id t msg)

/-! ### Runs -/

/-- The invariant along a run, and that no event so far was the one that loses a timer. -/
theorem coherent_after
    [DecidableEq σ] (initialReconnectDelay maxReconnectDelay : Nat)
    (events : List (ManagerEvent σ μ))
    (hsafe : ∀ front e, front ++ [e] <+: events →
      ¬ ClosesWhileReconnecting (after initialReconnectDelay maxReconnectDelay front) e) :
    Coherent (after initialReconnectDelay maxReconnectDelay events) := by
  induction events using List.reverseRecOn with
  | nil => exact coherent_new _ _
  | append_singleton events e ih =>
      have hbefore := ih fun front e' h => hsafe front e' (h.trans (List.prefix_append events [e]))
      rw [after, List.foldl_append]
      exact step_coherent hbefore e (hsafe events e List.prefix_rfl)

/-- The first event of a run that closes the current socket beside a pending timer. -/
theorem exists_first_bad
    [DecidableEq σ] {initialReconnectDelay maxReconnectDelay : Nat}
    (events : List (ManagerEvent σ μ))
    (hbad : ∃ front e, front ++ [e] <+: events ∧
      ClosesWhileReconnecting (after initialReconnectDelay maxReconnectDelay front) e) :
    ∃ front e, front ++ [e] <+: events ∧
      Coherent (after initialReconnectDelay maxReconnectDelay front) ∧
      ClosesWhileReconnecting (after initialReconnectDelay maxReconnectDelay front) e := by
  induction events using List.reverseRecOn with
  | nil =>
      obtain ⟨front, e, hprefix, -⟩ := hbad
      have hnil := List.prefix_nil.mp hprefix
      simp at hnil
  | append_singleton events e ih =>
      by_cases hearlier : ∃ front e', front ++ [e'] <+: events ∧
          ClosesWhileReconnecting (after initialReconnectDelay maxReconnectDelay front) e'
      · obtain ⟨front, e', hprefix, hrest⟩ := ih hearlier
        exact ⟨front, e', hprefix.trans (List.prefix_append events [e]), hrest⟩
      · push Not at hearlier
        have hcoherent := coherent_after _ _ events hearlier
        obtain ⟨front, e', hprefix, hclose⟩ := hbad
        rcases List.prefix_concat_iff.mp hprefix with heq | hprefix
        · obtain ⟨rfl, hsame⟩ := List.append_inj' heq rfl
          cases hsame
          exact ⟨_, _, List.prefix_rfl, hcoherent, hclose⟩
        · exact absurd hclose (hearlier front e' hprefix)

/-- Along a run, the connection invariant holds in every state and messages reach current
subscribers only, exactly when the current socket never closes beside a pending reconnect
timer. -/
theorem wsManager_run_iff
    [DecidableEq σ] (initialReconnectDelay maxReconnectDelay : Nat)
    (events : List (ManagerEvent σ μ)) :
    (∀ front, front <+: events →
      let m := after initialReconnectDelay maxReconnectDelay front
      ConnectionInvariant m ∧
        ∀ e : ManagerEvent σ μ, DeliversToSubscribers m e (m.step e).2) ↔
    ∀ front e, front ++ [e] <+: events →
      ¬ ClosesWhileReconnecting (after initialReconnectDelay maxReconnectDelay front) e := by
  constructor
  · intro h front e hprefix hbad
    obtain ⟨front, e, hprefix, hcoherent, hbad⟩ := exists_first_bad events ⟨front, e, hprefix, hbad⟩
    refine two_timers hcoherent hbad ?_
    have hinv := (h (front ++ [e]) hprefix).1
    rwa [after, List.foldl_append] at hinv
  · intro hsafe front hfront
    have hcoherent := coherent_after initialReconnectDelay maxReconnectDelay front
      fun front' e h => hsafe front' e (h.trans hfront)
    exact ⟨hcoherent.connectionInvariant, deliversToSubscribers _⟩

/-- The socket closes, the only subscriber is replaced before the teardown, and the new
socket closes too: the first reconnect timer is still pending. -/
def sampleEvents : List (ManagerEvent Bool Unit) :=
  [.subscribe true, .opened 0, .closed 0, .unsubscribe true, .subscribe false, .closed 1]

theorem wsManager_two_timers :
    ¬ ∀ front, front <+: sampleEvents → ConnectionInvariant (after 1000 30000 front) := by
  intro h
  have hone := (h sampleEvents List.prefix_rfl).oneReconnect
  revert hone
  decide

end WsManager

end Frontend
end Otelop
