import Mathlib.Tactic
import Otelop.Lib.OrderedMap
import Otelop.Stores.TraceBuffer

/-!
# Live updates under a search

`useLiveTraceSearch` of `frontend/src/hooks/use-live-trace-search.ts` asks the server which of
the traces that arrive match the search.  An update gives the trace a new version; a request
takes the versions of up to a thousand traces along, and its response counts for a trace whose
version is still the same.

A run starts where the effect mounts and interleaves updates, other writes of the atoms,
expired timers, responses, failures, and the end of the effect.

**Results.**
* `inFlight_issued`: a request in flight was issued by the last timer that expired.
* `membership_fresh`: the hook changes a membership by an answer that no update came after.
* `pending_or_checked`: an updated trace is pending until it is checked.
* `scheduled_after`: while a trace is pending, a timer or a request is under way.
* `liveSearch_neverStale`: both, of every run.
-/

namespace Otelop
namespace Stores

open Lib

/-- The variables of the effect, next to the atoms; `batch` is what the request in flight took
along. -/
structure LiveSearch where
  store : Store
  pending : OrderedMap String Nat
  version : Nat
  running : Bool
  timer : Bool
  retryDelay : Nat
  disposed : Bool
  batch : Option (OrderedMap String Nat)

/-- `write` is any write of the atoms but that of `addTracesAtom`. -/
inductive SearchEvent where
  | addTraces (newTraces : List TraceData)
  | write (store : Store)
  | timeout
  | response (matchingTraceIds : List String)
  | failure
  | dispose

namespace LiveSearch

/-- The effect mounts. -/
def mounted (store : Store) : LiveSearch where
  store := store
  pending := .empty
  version := 0
  running := false
  timer := false
  retryDelay := 500
  disposed := false
  batch := none

def schedule (s : LiveSearch) : LiveSearch :=
  if !s.disposed && !s.running && !s.timer && !s.pending.entries.isEmpty then
    { s with timer := true }
  else s

/-- `pending.set(trace.traceId, ++version)` -/
def bump (s : LiveSearch) (trace : TraceData) : LiveSearch :=
  { s with
    version := s.version + 1
    pending := s.pending.set trace.traceId (s.version + 1) }

/-- The subscription to `liveTraceBatchAtom`. -/
def onLiveTraceBatch (s : LiveSearch) : LiveSearch :=
  (s.store.liveTraceBatch.foldl bump s).schedule

/-- The statements behind the request, on every path. -/
def finish (s : LiveSearch) : LiveSearch :=
  { s with running := false, batch := none }.schedule

/-- `run`, up to the request. -/
def run (s : LiveSearch) : LiveSearch :=
  let buffered := s.store.traces.map TraceData.traceId
  let s := { s with running := true, pending := s.pending.retain fun id => id ∈ buffered }
  let batch := s.pending.take 1000
  if batch.entries.isEmpty then s.finish else { s with batch := some batch }

/-- One round of the loop over the batch. -/
def applyRevision (matched : List String) (s : LiveSearch) (entry : String × Nat) : LiveSearch :=
  if s.pending.get? entry.1 ≠ some entry.2 then s
  else
    { s with
      pending := s.pending.delete entry.1
      store :=
        { s.store with
          serverMatchedTraceIds :=
            if entry.1 ∈ matched then insert entry.1 s.store.serverMatchedTraceIds
            else s.store.serverMatchedTraceIds.erase entry.1 } }

def step (s : LiveSearch) : SearchEvent → LiveSearch
  | .addTraces newTraces =>
      let s' := { s with store := Stores.addTraces s.store newTraces }
      if newTraces.isEmpty || s.disposed then s' else s'.onLiveTraceBatch
  | .write store => { s with store }
  | .timeout => if s.timer then { s with timer := false }.run else s
  | .response matchingTraceIds =>
      match s.batch with
      | none => s
      | some batch =>
          if s.disposed then s.finish
          else
            (batch.entries.foldl (applyRevision matchingTraceIds)
              { s with retryDelay := 500 }).finish
  | .failure =>
      match s.batch with
      | none => s
      | some _ => { s with retryDelay := min (s.retryDelay * 2) 10000 }.finish
  | .dispose => { s with disposed := true, timer := false }

/-- The state after a run. -/
def after (store : Store) (events : List SearchEvent) : LiveSearch :=
  events.foldl step (mounted store)

end LiveSearch

/-- The event delivers an update of the trace. -/
def SearchEvent.Updates (id : String) : SearchEvent → Prop
  | .addTraces newTraces => id ∈ newTraces.map TraceData.traceId
  | _ => False

/-- The event ends the request in flight. -/
def SearchEvent.Completes : SearchEvent → Prop
  | .response _ => True
  | .failure => True
  | _ => False

open LiveSearch in
/-- The request that is in flight after `front`, an expired timer and `back` was issued by that
timer. -/
structure Issued (store : Store) (front back : List SearchEvent)
    (batch : OrderedMap String Nat) : Prop where
  idle : (after store front).batch = none
  issued : (after store (front ++ [.timeout])).batch = some batch
  unanswered : ∀ e ∈ back, ¬ e.Completes

/-! ### What one event does -/

namespace LiveSearch

section Steps

variable {s : LiveSearch}

/-- A run ends with its last event. -/
theorem after_snoc (store : Store) (events : List SearchEvent) (e : SearchEvent) :
    after store (events ++ [e]) = (after store events).step e := by
  rw [after, List.foldl_append]
  rfl

theorem schedule_eq (s : LiveSearch) :
    s.schedule = { s with timer := s.schedule.timer } := by
  unfold schedule
  split <;> rfl

@[simp] theorem schedule_store : s.schedule.store = s.store := by rw [schedule_eq]
@[simp] theorem schedule_pending : s.schedule.pending = s.pending := by rw [schedule_eq]
@[simp] theorem schedule_version : s.schedule.version = s.version := by rw [schedule_eq]
@[simp] theorem schedule_running : s.schedule.running = s.running := by rw [schedule_eq]
@[simp] theorem schedule_disposed : s.schedule.disposed = s.disposed := by rw [schedule_eq]
@[simp] theorem schedule_batch : s.schedule.batch = s.batch := by rw [schedule_eq]

/-- What a batch of updates does: each trace in it takes a new version. -/
structure Bumped (ids : List String) (s s' : LiveSearch) : Prop where
  rest : s' = { s with version := s'.version, pending := s'.pending }
  version : s.version ≤ s'.version
  updated : ∀ id ∈ ids, ∃ r, s'.pending.get? id = some r ∧ s.version < r ∧ r ≤ s'.version
  others : ∀ id ∉ ids, s'.pending.get? id = s.pending.get? id

/-- The versions of all traces of a batch are raised. -/
theorem bumped_foldl (s : LiveSearch) (traces : List TraceData) :
    Bumped (traces.map TraceData.traceId) s (traces.foldl bump s) := by
  induction traces using List.reverseRecOn with
  | nil =>
      exact ⟨rfl, le_refl _, fun id hid => absurd hid List.not_mem_nil, fun _ _ => rfl⟩
  | append_singleton traces trace ih =>
      rw [List.foldl_append, List.map_append]
      have hget : ∀ id, (bump (traces.foldl bump s) trace).pending.get? id =
          if id = trace.traceId then some ((traces.foldl bump s).version + 1)
          else (traces.foldl bump s).pending.get? id :=
        fun id => OrderedMap.get?_set _ _ _ _
      have hversion : (bump (traces.foldl bump s) trace).version =
          (traces.foldl bump s).version + 1 := rfl
      have hle := ih.version
      refine ⟨?_, ?_, ?_, ?_⟩
      · change bump (traces.foldl bump s) trace = _
        rw [bump, ih.rest]
        rfl
      · change s.version ≤ (bump (traces.foldl bump s) trace).version
        omega
      · intro id hid
        change ∃ r, (bump (traces.foldl bump s) trace).pending.get? id = some r ∧
          s.version < r ∧ r ≤ (bump (traces.foldl bump s) trace).version
        rw [hget, hversion]
        by_cases hlast : id = trace.traceId
        · exact ⟨_, if_pos hlast, by omega, le_refl _⟩
        · rw [if_neg hlast]
          have hmem : id ∈ traces.map TraceData.traceId := by
            simpa [hlast] using hid
          obtain ⟨r, hr, hlt, hle'⟩ := ih.updated id hmem
          exact ⟨r, hr, hlt, by omega⟩
      · intro id hid
        change (bump (traces.foldl bump s) trace).pending.get? id = _
        rw [List.mem_append, List.map_cons, List.map_nil, List.mem_singleton, not_or] at hid
        rw [hget, if_neg hid.2]
        exact ih.others id hid.1

/-- What a response does: the entries whose version is still pending are decided. -/
structure Applied (matched : List String) (entries : List (String × Nat)) (s s' : LiveSearch) :
    Prop where
  rest : s' =
    { s with
      pending := s'.pending
      store :=
        { s.store with serverMatchedTraceIds := s'.store.serverMatchedTraceIds } }
  kept : ∀ id, (∀ r, (id, r) ∈ entries → s.pending.get? id ≠ some r) →
    s'.pending.get? id = s.pending.get? id ∧
      (id ∈ s'.store.serverMatchedTraceIds ↔ id ∈ s.store.serverMatchedTraceIds)
  decided : ∀ id r, (id, r) ∈ entries → s.pending.get? id = some r →
    s'.pending.get? id = none ∧ (id ∈ s'.store.serverMatchedTraceIds ↔ id ∈ matched)

theorem applyRevision_rest (matched : List String) (s : LiveSearch) (entry : String × Nat) :
    applyRevision matched s entry =
      { s with
        pending := (applyRevision matched s entry).pending
        store :=
          { s.store with
            serverMatchedTraceIds :=
              (applyRevision matched s entry).store.serverMatchedTraceIds } } := by
  unfold applyRevision
  split <;> rfl

/-- A version that was answered is no longer pending. -/
theorem get?_applyRevision (matched : List String) (s : LiveSearch) (entry : String × Nat)
    (id : String) :
    (applyRevision matched s entry).pending.get? id =
      if id = entry.1 ∧ s.pending.get? entry.1 = some entry.2 then none
      else s.pending.get? id := by
  unfold applyRevision
  by_cases hcurrent : s.pending.get? entry.1 = some entry.2
  · rw [if_neg (not_not.mpr hcurrent), OrderedMap.get?_delete]
    simp only [hcurrent, and_true]
  · rw [if_pos hcurrent, if_neg fun h => hcurrent h.2]

/-- Only a version that is still pending is taken over. -/
theorem mem_applyRevision (matched : List String) (s : LiveSearch) (entry : String × Nat)
    (id : String) :
    id ∈ (applyRevision matched s entry).store.serverMatchedTraceIds ↔
      if id = entry.1 ∧ s.pending.get? entry.1 = some entry.2 then id ∈ matched
      else id ∈ s.store.serverMatchedTraceIds := by
  unfold applyRevision
  by_cases hcurrent : s.pending.get? entry.1 = some entry.2
  · rw [if_neg (not_not.mpr hcurrent)]
    by_cases hid : id = entry.1
    · subst hid
      by_cases hmatched : entry.1 ∈ matched <;> simp [hcurrent, hmatched]
    · by_cases hmatched : entry.1 ∈ matched <;> simp [hid, hmatched]
  · rw [if_pos hcurrent, if_neg fun h => hcurrent h.2]

/-- The answers of a whole batch. -/
theorem applied_foldl (matched : List String) (s : LiveSearch) {entries : List (String × Nat)}
    (hnodup : (entries.map Prod.fst).Nodup) :
    Applied matched entries s (entries.foldl (applyRevision matched) s) := by
  induction entries using List.reverseRecOn with
  | nil =>
      exact ⟨rfl, fun _ _ => ⟨rfl, Iff.rfl⟩, fun _ _ h => absurd h List.not_mem_nil⟩
  | append_singleton entries entry ih =>
      rw [List.map_append, List.nodup_append'] at hnodup
      obtain ⟨hfront, -, hdisjoint⟩ := hnodup
      have hfresh : ∀ r, (entry.1, r) ∉ entries := by
        intro r hmem
        exact hdisjoint (List.mem_map.mpr ⟨_, hmem, rfl⟩) (by simp)
      have hprev := ih hfront
      -- an earlier entry has another key
      have hself : (entries.foldl (applyRevision matched) s).pending.get? entry.1 =
          s.pending.get? entry.1 :=
        (hprev.kept entry.1 fun r hmem => absurd hmem (hfresh r)).1
      rw [List.foldl_append, List.foldl_cons, List.foldl_nil]
      refine ⟨?_, ?_, ?_⟩
      · refine (applyRevision_rest matched _ entry).trans ?_
        generalize applyRevision matched _ entry = u
        rw [hprev.rest]
      · intro id hnone
        have hbefore := hprev.kept id fun r hmem =>
          hnone r (List.mem_append_left _ hmem)
        have hnot : ¬ (id = entry.1 ∧ s.pending.get? entry.1 = some entry.2) := by
          rintro ⟨rfl, hcurrent⟩
          exact hnone entry.2 (by simp) hcurrent
        rw [get?_applyRevision, mem_applyRevision, hself, if_neg hnot, if_neg hnot]
        exact hbefore
      · intro id r hmem hcurrent
        rw [get?_applyRevision, mem_applyRevision, hself]
        rcases List.mem_append.mp hmem with hmem | hmem
        · have hne : ¬ (id = entry.1 ∧ s.pending.get? entry.1 = some entry.2) := by
            rintro ⟨rfl, -⟩
            exact hfresh r hmem
          rw [if_neg hne, if_neg hne]
          exact hprev.decided id r hmem hcurrent
        · cases List.mem_singleton.mp hmem
          rw [if_pos ⟨rfl, hcurrent⟩, if_pos ⟨rfl, hcurrent⟩]
          exact ⟨rfl, Iff.rfl⟩

@[simp] theorem finish_store : s.finish.store = s.store := schedule_store
@[simp] theorem finish_pending : s.finish.pending = s.pending := schedule_pending
@[simp] theorem finish_version : s.finish.version = s.version := schedule_version
@[simp] theorem finish_disposed : s.finish.disposed = s.disposed := schedule_disposed
@[simp] theorem finish_batch : s.finish.batch = none := schedule_batch
@[simp] theorem finish_running : s.finish.running = false := schedule_running

/-- The traces that arrived are the batch of the store. -/
theorem addTraces_liveTraceBatch
    (store : Store) {newTraces : List TraceData} (h : newTraces ≠ []) :
    (addTraces store newTraces).liveTraceBatch = newTraces := by
  rw [addTraces, if_neg (by simpa using h)]
  dsimp only
  split <;> rfl

theorem addTraces_matched (store : Store) (newTraces : List TraceData) :
    (addTraces store newTraces).serverMatchedTraceIds = store.serverMatchedTraceIds := by
  rw [addTraces]
  split
  · rfl
  · dsimp only
    split <;> rfl

/-- An update is delivered while the effect is mounted. -/
theorem step_addTraces
    {newTraces : List TraceData} (hne : newTraces ≠ []) (hdisposed : s.disposed = false) :
    ∃ t, Bumped (newTraces.map TraceData.traceId)
        { s with store := addTraces s.store newTraces } t ∧
      s.step (.addTraces newTraces) = t.schedule := by
  refine ⟨_, bumped_foldl _ newTraces, ?_⟩
  have hempty : newTraces.isEmpty = false := by simpa using hne
  rw [step]
  refine (if_neg (by simp [hempty, hdisposed])).trans ?_
  rw [onLiveTraceBatch]
  dsimp only
  rw [addTraces_liveTraceBatch _ hne]

/-- After the end, and without traces, only the store takes part. -/
theorem step_addTraces_quiet
    {newTraces : List TraceData} (h : newTraces = [] ∨ s.disposed = true) :
    s.step (.addTraces newTraces) = { s with store := addTraces s.store newTraces } := by
  rw [step]
  refine if_pos ?_
  rcases h with rfl | h
  · rfl
  · simp [h]

/-- The ids that are still pending when a request starts. -/
def buffered (s : LiveSearch) : OrderedMap String Nat :=
  s.pending.retain fun id => id ∈ s.store.traces.map TraceData.traceId

/-- The timer expired: a request starts, or nothing is left to ask. -/
theorem step_timeout
    (h : s.timer = true) :
    (((s.buffered).take 1000).entries = [] ∧
        s.step .timeout =
          { s with timer := false, running := true, pending := s.buffered }.finish) ∨
      s.step .timeout =
        { s with
          timer := false
          running := true
          pending := s.buffered
          batch := some ((s.buffered).take 1000) } := by
  rw [step, if_pos h, run]
  dsimp only
  split
  · rename_i hempty
    exact Or.inl ⟨List.isEmpty_iff.mp hempty, rfl⟩
  · exact Or.inr rfl

theorem step_timeout_idle (h : s.timer = false) : s.step .timeout = s := by
  rw [step, if_neg (by simp [h])]

/-- An answer arrives while the effect is mounted. -/
theorem step_response
    (matched : List String) {batch : OrderedMap String Nat} (hbatch : s.batch = some batch)
    (hdisposed : s.disposed = false) :
    ∃ t, Applied matched batch.entries { s with retryDelay := 500 } t ∧
      s.step (.response matched) = t.finish := by
  refine ⟨_, applied_foldl matched _ batch.keys_nodup, ?_⟩
  rw [step, hbatch, hdisposed]
  rfl

/-- An answer after the end changes no match. -/
theorem step_response_disposed
    {matched : List String} {batch : OrderedMap String Nat} (hbatch : s.batch = some batch)
    (hdisposed : s.disposed = true) :
    s.step (.response matched) = s.finish := by
  rw [step, hbatch, hdisposed]
  rfl

/-- After a failure the batch is pending and the delay grows. -/
theorem step_failure
    {batch : OrderedMap String Nat} (hbatch : s.batch = some batch) :
    s.step .failure = { s with retryDelay := min (s.retryDelay * 2) 10000 }.finish := by
  rw [step, hbatch]

theorem step_response_idle
    (matched : List String) (hbatch : s.batch = none) :
    s.step (.response matched) = s := by
  rw [step, hbatch]

theorem step_failure_idle (hbatch : s.batch = none) : s.step .failure = s := by
  rw [step, hbatch]

/-- What holds between two events. -/
structure SearchInv (s : LiveSearch) : Prop where
  idle : s.timer = true → s.batch = none
  running : s.running = s.batch.isSome
  pending : ∀ id r, s.pending.get? id = some r → r ≤ s.version
  batch : ∀ b, s.batch = some b → ∀ entry ∈ b.entries, entry.2 ≤ s.version

/-- What one event changes, as far as the two results need it. -/
structure Stepped (s : LiveSearch) (e : SearchEvent) (s' : LiveSearch) : Prop where
  inv : SearchInv s'
  version : s.version ≤ s'.version
  disposed : s.disposed = true → s'.disposed = true
  renewed : ∀ id r, s'.pending.get? id = some r →
    s.pending.get? id = some r ∨ s.version < r
  updated : ∀ id, e.Updates id → s.disposed = false →
    ∃ r, s'.pending.get? id = some r ∧ s.version < r
  kept : ∀ id r, s.pending.get? id = some r → ¬ e.Updates id →
    id ∈ s.store.traces.map TraceData.traceId →
      s'.pending.get? id = some r ∨
        ∃ matched b, e = .response matched ∧ s.batch = some b ∧ (id, r) ∈ b.entries ∧
          s.disposed = false
  batch : ∀ b, s'.batch = some b →
    s.batch = some b ∧ ¬ e.Completes ∨
      e = .timeout ∧ s.batch = none ∧ ∀ id r, (id, r) ∈ b.entries → s.pending.get? id = some r
  matched : ∀ id, (∃ store, e = .write store) ∨
    (id ∈ s'.store.serverMatchedTraceIds ↔ id ∈ s.store.serverMatchedTraceIds) ∨
      ∃ matched b r, e = .response matched ∧ s.batch = some b ∧ (id, r) ∈ b.entries ∧
        s.pending.get? id = some r ∧ s.disposed = false ∧
          (id ∈ s'.store.serverMatchedTraceIds ↔ id ∈ matched)

/-- An event that leaves the pending traces, the request and the memberships alone. -/
theorem Stepped.of_same
    {s' : LiveSearch} {e : SearchEvent} (hs : SearchInv s)
    (htimer : s'.timer = true → s'.batch = none) (hrunning : s'.running = s.running)
    (hpending : s'.pending = s.pending) (hversion : s'.version = s.version)
    (hbatch : s'.batch = s.batch) (hdisposed : s.disposed = true → s'.disposed = true)
    (hmatched : s'.store.serverMatchedTraceIds = s.store.serverMatchedTraceIds ∨
      ∃ store, e = .write store)
    (hupdates : ∀ id, e.Updates id → s.disposed = true)
    (hcompletes : s.batch ≠ none → ¬ e.Completes) :
    Stepped s e s' where
  inv :=
    { idle := htimer
      running := by rw [hrunning, hs.running, hbatch]
      pending := by rw [hpending, hversion]; exact hs.pending
      batch := by rw [hbatch, hversion]; exact hs.batch }
  version := le_of_eq hversion.symm
  disposed := hdisposed
  renewed := fun id r hr => Or.inl (hpending ▸ hr)
  updated := fun id hid hfalse => by
    rw [hupdates id hid] at hfalse
    cases hfalse
  kept := fun id r hr _ _ => Or.inl (hpending ▸ hr)
  batch := fun b hb => by
    rw [hbatch] at hb
    exact Or.inl ⟨hb, hcompletes (by rw [hb]; exact Option.some_ne_none b)⟩
  matched := fun id => by
    rcases hmatched with hmatched | hwrite
    · exact Or.inr (Or.inl (by rw [hmatched]))
    · exact Or.inl hwrite

/-- A timer runs only while nothing is asked. -/
theorem schedule_idle
    (hrunning : s.running = s.batch.isSome) (hidle : s.timer = true → s.batch = none)
    (h : s.schedule.timer = true) :
    s.batch = none := by
  unfold schedule at h
  split at h
  · rename_i hcond
    have hnot : s.running = false := by
      simp only [Bool.and_eq_true, Bool.not_eq_true'] at hcond
      exact hcond.1.1.2
    rw [hrunning] at hnot
    simpa using hnot
  · exact hidle h

/-- What the arrival of traces does. -/
theorem stepped_addTraces
    (hs : SearchInv s) (newTraces : List TraceData) :
    Stepped s (.addTraces newTraces) (s.step (.addTraces newTraces)) := by
  by_cases hquiet : newTraces = [] ∨ s.disposed = true
  · rw [step_addTraces_quiet hquiet]
    refine .of_same hs hs.idle rfl rfl rfl rfl (fun h => h)
      (Or.inl (addTraces_matched _ _)) ?_ fun _ h => h
    intro id hid
    rcases hquiet with rfl | hdisposed
    · cases hid
    · exact hdisposed
  · rw [not_or, Bool.not_eq_true] at hquiet
    obtain ⟨t, ht, hstep⟩ := step_addTraces hquiet.1 hquiet.2
    rw [hstep]
    have hversion : s.version ≤ t.version := ht.version
    have hrunning : t.running = s.running := by rw [ht.rest]
    have hbatch : t.batch = s.batch := by rw [ht.rest]
    have htimer : t.timer = s.timer := by rw [ht.rest]
    have hdisposed : t.disposed = s.disposed := by rw [ht.rest]
    have hmatched : t.store.serverMatchedTraceIds = s.store.serverMatchedTraceIds := by
      rw [ht.rest]
      exact addTraces_matched _ _
    have hrenewed : ∀ id r, t.pending.get? id = some r →
        s.pending.get? id = some r ∨ s.version < r := by
      intro id r hr
      by_cases hid : id ∈ newTraces.map TraceData.traceId
      · obtain ⟨r', hr', hlt, -⟩ := ht.updated id hid
        rw [hr] at hr'
        cases hr'
        exact Or.inr hlt
      · rw [ht.others id hid] at hr
        exact Or.inl hr
    exact
      { inv :=
          { idle := fun h => by
              rw [schedule_batch]
              refine schedule_idle (by rw [hrunning, hbatch, hs.running]) ?_ h
              rw [htimer, hbatch]
              exact hs.idle
            running := by rw [schedule_running, schedule_batch, hrunning, hbatch, hs.running]
            pending := fun id r hr => by
              rw [schedule_pending] at hr
              rw [schedule_version]
              by_cases hid : id ∈ newTraces.map TraceData.traceId
              · obtain ⟨r', hr', -, hle⟩ := ht.updated id hid
                rw [hr] at hr'
                cases hr'
                exact hle
              · rw [ht.others id hid] at hr
                exact (hs.pending id r hr).trans hversion
            batch := fun b hb entry hentry => by
              rw [schedule_batch, hbatch] at hb
              rw [schedule_version]
              exact (hs.batch b hb entry hentry).trans hversion }
        version := by rwa [schedule_version]
        disposed := fun h => by rw [schedule_disposed, hdisposed, h]
        renewed := fun id r hr => by
          rw [schedule_pending] at hr
          exact hrenewed id r hr
        updated := fun id hid _ => by
          obtain ⟨r, hr, hlt, -⟩ := ht.updated id hid
          exact ⟨r, by rwa [schedule_pending], hlt⟩
        kept := fun id r hr hid _ => by
          rw [schedule_pending, ht.others id hid]
          exact Or.inl hr
        batch := fun b hb => by
          rw [schedule_batch, hbatch] at hb
          exact Or.inl ⟨hb, fun h => h⟩
        matched := fun id => by
          rw [schedule_store, hmatched]
          exact Or.inr (Or.inl Iff.rfl) }

/-- The versions that are asked for are the pending ones of the traces there are. -/
theorem get?_buffered (s : LiveSearch) (id : String) :
    s.buffered.get? id =
      if id ∈ s.store.traces.map TraceData.traceId then s.pending.get? id else none := by
  rw [buffered, OrderedMap.get?_retain]
  simp only [decide_eq_true_eq]

/-- What `buffered` finds was pending. -/
theorem get?_of_buffered
    {id : String} {r : Nat} (h : s.buffered.get? id = some r) :
    s.pending.get? id = some r := by
  rw [get?_buffered] at h
  split at h
  · exact h
  · cases h

/-- What the timer does. -/
theorem stepped_timeout
    (hs : SearchInv s) :
    Stepped s .timeout (s.step .timeout) := by
  cases htimer : s.timer with
  | false =>
      rw [step_timeout_idle htimer]
      exact .of_same hs hs.idle rfl rfl rfl rfl (fun h => h) (Or.inl rfl)
        (fun id h => h.elim) fun _ h => h
  | true =>
      have hnone := hs.idle htimer
      have hkept : ∀ id r, s.pending.get? id = some r →
          id ∈ s.store.traces.map TraceData.traceId → s.buffered.get? id = some r := by
        intro id r hr hid
        rw [get?_buffered, if_pos hid]
        exact hr
      have hentries : ∀ entry ∈ ((s.buffered).take 1000).entries,
          s.pending.get? entry.1 = some entry.2 := fun entry hentry =>
        get?_of_buffered (OrderedMap.mem_entries_iff.mp (OrderedMap.mem_of_mem_take hentry))
      rcases step_timeout htimer with ⟨-, hstep⟩ | hstep
      · rw [hstep]
        exact
          { inv :=
              { idle := fun _ => finish_batch
                running := by rw [finish_running, finish_batch]; rfl
                pending := fun id r hr => by
                  rw [finish_pending] at hr
                  rw [finish_version]
                  exact hs.pending id r (get?_of_buffered hr)
                batch := fun b hb => by
                  rw [finish_batch] at hb
                  cases hb }
            version := by rw [finish_version]
            disposed := fun h => by rw [finish_disposed, h]
            renewed := fun id r hr => by
              rw [finish_pending] at hr
              exact Or.inl (get?_of_buffered hr)
            updated := fun id hid => hid.elim
            kept := fun id r hr _ hid => by
              rw [finish_pending]
              exact Or.inl (hkept id r hr hid)
            batch := fun b hb => by
              rw [finish_batch] at hb
              cases hb
            matched := fun id => by
              rw [finish_store]
              exact Or.inr (Or.inl Iff.rfl) }
      · rw [hstep]
        exact
          { inv :=
              { idle := fun h => by cases h
                running := rfl
                pending := fun id r hr => hs.pending id r (get?_of_buffered hr)
                batch := fun b hb entry hentry => by
                  cases hb
                  exact hs.pending _ _ (hentries entry hentry) }
            version := le_refl _
            disposed := fun h => h
            renewed := fun id r hr => Or.inl (get?_of_buffered hr)
            updated := fun id hid => hid.elim
            kept := fun id r hr _ hid => Or.inl (hkept id r hr hid)
            batch := fun b hb => by
              cases hb
              exact Or.inr ⟨rfl, hnone, fun id r hmem => hentries (id, r) hmem⟩
            matched := fun id => Or.inr (Or.inl Iff.rfl) }

/-- A request that ends without an answer that counts. -/
theorem stepped_finish
    (hs : SearchInv s) {t : LiveSearch} {e : SearchEvent} (hpending : t.pending = s.pending)
    (hversion : t.version = s.version) (hdisposed : t.disposed = s.disposed)
    (hstore : t.store = s.store) (hupdates : ∀ id, ¬ e.Updates id) :
    Stepped s e t.finish where
  inv :=
    { idle := fun _ => finish_batch
      running := by rw [finish_running, finish_batch]; rfl
      pending := by
        rw [finish_pending, finish_version, hpending, hversion]
        exact hs.pending
      batch := fun b hb => by
        rw [finish_batch] at hb
        cases hb }
  version := by rw [finish_version, hversion]
  disposed := fun h => by rw [finish_disposed, hdisposed, h]
  renewed := fun id r hr => by
    rw [finish_pending, hpending] at hr
    exact Or.inl hr
  updated := fun id hid => absurd hid (hupdates id)
  kept := fun id r hr _ _ => by
    rw [finish_pending, hpending]
    exact Or.inl hr
  batch := fun b hb => by
    rw [finish_batch] at hb
    cases hb
  matched := fun id => by
    rw [finish_store, hstore]
    exact Or.inr (Or.inl Iff.rfl)

/-- What an answer does. -/
theorem stepped_response
    (hs : SearchInv s) (matched : List String) :
    Stepped s (.response matched) (s.step (.response matched)) := by
  cases hbatch : s.batch with
  | none =>
      rw [step_response_idle matched hbatch]
      exact .of_same hs hs.idle rfl rfl rfl rfl (fun h => h) (Or.inl rfl)
        (fun id h => h.elim) fun h => absurd hbatch h
  | some batch =>
      cases hdisposed : s.disposed with
      | true =>
          rw [step_response_disposed hbatch hdisposed]
          exact stepped_finish hs rfl rfl rfl rfl fun _ h => h
      | false =>
          obtain ⟨t, ht, hstep⟩ := step_response matched hbatch hdisposed
          rw [hstep]
          have hversion : t.version = s.version := by rw [ht.rest]
          -- an id whose version is in the batch is decided, any other one is kept
          have hcases : ∀ id,
              (∃ r, (id, r) ∈ batch.entries ∧ s.pending.get? id = some r ∧
                t.pending.get? id = none ∧
                  (id ∈ t.store.serverMatchedTraceIds ↔ id ∈ matched)) ∨
              t.pending.get? id = s.pending.get? id ∧
                (id ∈ t.store.serverMatchedTraceIds ↔ id ∈ s.store.serverMatchedTraceIds) := by
            intro id
            by_cases hcurrent : ∃ r, (id, r) ∈ batch.entries ∧ s.pending.get? id = some r
            · obtain ⟨r, hmem, hr⟩ := hcurrent
              obtain ⟨hnone, hiff⟩ := ht.decided id r hmem hr
              exact Or.inl ⟨r, hmem, hr, hnone, hiff⟩
            · exact Or.inr (ht.kept id fun r hmem hr => hcurrent ⟨r, hmem, hr⟩)
          have hold : ∀ id r, t.pending.get? id = some r → s.pending.get? id = some r := by
            intro id r hr
            rcases hcases id with ⟨_, -, -, hnone, -⟩ | ⟨hsame, -⟩
            · rw [hnone] at hr
              cases hr
            · rwa [hsame] at hr
          exact
            { inv :=
                { idle := fun _ => finish_batch
                  running := by rw [finish_running, finish_batch]; rfl
                  pending := fun id r hr => by
                    rw [finish_pending] at hr
                    rw [finish_version, hversion]
                    exact hs.pending id r (hold id r hr)
                  batch := fun b hb => by
                    rw [finish_batch] at hb
                    cases hb }
              version := by rw [finish_version, hversion]
              disposed := fun h => by
                rw [hdisposed] at h
                cases h
              renewed := fun id r hr => by
                rw [finish_pending] at hr
                exact Or.inl (hold id r hr)
              updated := fun id hid => hid.elim
              kept := fun id r hr _ _ => by
                rw [finish_pending]
                rcases hcases id with ⟨r', hmem, hr', -, -⟩ | ⟨hsame, -⟩
                · rw [hr] at hr'
                  cases hr'
                  exact Or.inr ⟨matched, batch, rfl, hbatch, hmem, hdisposed⟩
                · exact Or.inl (hsame.trans hr)
              batch := fun b hb => by
                rw [finish_batch] at hb
                cases hb
              matched := fun id => by
                rw [finish_store]
                rcases hcases id with ⟨r, hmem, hr, -, hiff⟩ | ⟨-, hsame⟩
                · exact Or.inr (Or.inr ⟨matched, batch, r, rfl, hbatch, hmem, hr, hdisposed, hiff⟩)
                · exact Or.inr (Or.inl hsame) }

/-- What every event changes. -/
theorem stepped
    (hs : SearchInv s) (e : SearchEvent) :
    Stepped s e (s.step e) := by
  cases e with
  | addTraces newTraces => exact stepped_addTraces hs newTraces
  | write store =>
      exact .of_same hs hs.idle rfl rfl rfl rfl (fun h => h) (Or.inr ⟨store, rfl⟩)
        (fun id h => h.elim) fun _ h => h
  | timeout => exact stepped_timeout hs
  | response matched => exact stepped_response hs matched
  | failure =>
      cases hbatch : s.batch with
      | none =>
          rw [step_failure_idle hbatch]
          exact .of_same hs hs.idle rfl rfl rfl rfl (fun h => h) (Or.inl rfl)
            (fun id h => h.elim) fun h => absurd hbatch h
      | some batch =>
          rw [step_failure hbatch]
          exact stepped_finish hs rfl rfl rfl rfl fun _ h => h
  | dispose =>
      exact .of_same hs (fun h => by cases h) rfl rfl rfl rfl (fun _ => rfl) (Or.inl rfl)
        (fun id h => h.elim) fun _ h => h

end Steps

/-! ### Runs -/

section Runs

variable {store : Store} {id : String}

/-- Every run keeps the invariant. -/
theorem inv_after (store : Store) (events : List SearchEvent) :
    SearchInv (after store events) := by
  induction events using List.reverseRecOn with
  | nil =>
      exact
        { idle := fun h => by cases h
          running := rfl
          pending := fun id r hr => by cases hr
          batch := fun b hb => by cases hb }
  | append_singleton events e ih =>
      rw [after_snoc]
      exact (stepped ih e).inv

theorem stepped_after (store : Store) (events : List SearchEvent) (e : SearchEvent) :
    Stepped (after store events) e (after store (events ++ [e])) := by
  rw [after_snoc]
  exact stepped (inv_after store events) e

/-- Versions never go back. -/
theorem version_le_append (store : Store) (front back : List SearchEvent) :
    (after store front).version ≤ (after store (front ++ back)).version := by
  induction back using List.reverseRecOn with
  | nil => rw [List.append_nil]
  | append_singleton back e ih =>
      rw [← List.append_assoc]
      exact ih.trans (stepped_after store (front ++ back) e).version

/-- After the end there is no other beginning. -/
theorem disposed_append
    {front : List SearchEvent} (h : (after store front).disposed = true)
    (back : List SearchEvent) :
    (after store (front ++ back)).disposed = true := by
  induction back using List.reverseRecOn with
  | nil => rwa [List.append_nil]
  | append_singleton back e ih =>
      rw [← List.append_assoc]
      exact (stepped_after store (front ++ back) e).disposed ih

/-- After an update the pending version of the trace is newer than every version before it. -/
theorem version_lt_pending
    {front : List SearchEvent} {update : SearchEvent} (hupdate : update.Updates id)
    (hmounted : (after store front).disposed = false) (back : List SearchEvent) :
    ∀ r, (after store (front ++ update :: back)).pending.get? id = some r →
      (after store front).version < r := by
  induction back using List.reverseRecOn with
  | nil =>
      intro r hr
      obtain ⟨r', hr', hlt⟩ := (stepped_after store front update).updated id hupdate hmounted
      rw [hr] at hr'
      cases hr'
      exact hlt
  | append_singleton back e ih =>
      intro r hr
      have hassoc : front ++ update :: (back ++ [e]) = (front ++ update :: back) ++ [e] := by
        simp
      rw [hassoc] at hr
      rcases (stepped_after store (front ++ update :: back) e).renewed id r hr with hold | hnew
      · exact ih r hold
      · exact (version_le_append store front (update :: back)).trans_lt hnew

/-- A request in flight was issued by an expired timer, and nothing ended it since. -/
theorem inFlight_issued
    {events : List SearchEvent} {batch : OrderedMap String Nat}
    (h : (after store events).batch = some batch) :
    ∃ front back, events = front ++ .timeout :: back ∧ Issued store front back batch := by
  induction events using List.reverseRecOn with
  | nil => cases h
  | append_singleton events e ih =>
      rcases (stepped_after store events e).batch batch h with ⟨hold, hopen⟩ | ⟨rfl, hidle, -⟩
      · obtain ⟨front, back, rfl, hissued⟩ := ih hold
        refine ⟨front, back ++ [e], by simp, hissued.idle, hissued.issued, ?_⟩
        intro e' he'
        rcases List.mem_append.mp he' with he' | he'
        · exact hissued.unanswered e' he'
        · rw [List.mem_singleton.mp he']
          exact hopen
      · exact ⟨events, [], rfl, hidle, h, fun e' he' => absurd he' List.not_mem_nil⟩

/-- The versions a request takes along are those pending when it is issued. -/
theorem pending_of_issued
    {front back : List SearchEvent} {batch : OrderedMap String Nat}
    (h : Issued store front back batch) {r : Nat} (hmem : (id, r) ∈ batch.entries) :
    (after store front).pending.get? id = some r := by
  rcases (stepped_after store front .timeout).batch batch h.issued with ⟨hold, -⟩ | ⟨-, -, hall⟩
  · rw [h.idle] at hold
    cases hold
  · exact hall id r hmem

/-- No update of the trace came since the request that still has its pending version. -/
theorem fresh_of_pending
    {front back : List SearchEvent} {batch : OrderedMap String Nat}
    (h : Issued store front back batch) {r : Nat} (hmem : (id, r) ∈ batch.entries)
    (hmounted : (after store (front ++ .timeout :: back)).disposed = false)
    (hpending : (after store (front ++ .timeout :: back)).pending.get? id = some r) :
    ∀ e ∈ back, ¬ e.Updates id := by
  intro e he hupdate
  obtain ⟨b₁, b₂, rfl⟩ := List.append_of_mem he
  have hassoc : front ++ .timeout :: (b₁ ++ e :: b₂) =
      (front ++ .timeout :: b₁) ++ e :: b₂ := by simp
  rw [hassoc] at hmounted hpending
  have hbefore : (after store (front ++ .timeout :: b₁)).disposed = false := by
    by_contra hdisposed
    rw [Bool.not_eq_false] at hdisposed
    rw [disposed_append hdisposed] at hmounted
    cases hmounted
  have hlt := version_lt_pending hupdate hbefore b₂ r hpending
  have hle := (inv_after store front).pending id r (pending_of_issued h hmem)
  have hmono := version_le_append store front (.timeout :: b₁)
  omega

/-- A membership changes by another write, or by the answer to a request that the trace is part
of and that no update of the trace came after. -/
theorem membership_fresh
    (events : List SearchEvent) (e : SearchEvent) (id : String)
    (hchange : ¬ (id ∈ (after store (events ++ [e])).store.serverMatchedTraceIds ↔
      id ∈ (after store events).store.serverMatchedTraceIds)) :
    (∃ other, e = .write other) ∨
      ∃ matched front back batch,
        e = .response matched ∧ events = front ++ .timeout :: back ∧
          Issued store front back batch ∧ id ∈ batch.keys ∧ (∀ e' ∈ back, ¬ e'.Updates id) ∧
            (id ∈ (after store (events ++ [e])).store.serverMatchedTraceIds ↔ id ∈ matched) := by
  rcases (stepped_after store events e).matched id with
    hwrite | hsame | ⟨matched, b, r, rfl, hbatch, hmem, hr, hmounted, hiff⟩
  · exact Or.inl hwrite
  · exact absurd hsame hchange
  · obtain ⟨front, back, rfl, hissued⟩ := inFlight_issued hbatch
    exact Or.inr ⟨matched, front, back, b, rfl, rfl, hissued, List.mem_map_of_mem hmem,
      fresh_of_pending hissued hmem hmounted hr, hiff⟩

end Runs

end LiveSearch

open LiveSearch in
/-- Behind an update a request that the trace is part of was issued and answered, while the
effect was mounted. -/
def Checked (store : Store) (id : String) (front back : List SearchEvent) : Prop :=
  ∃ before between rest matched batch,
    back = before ++ .timeout :: between ++ .response matched :: rest ∧
      Issued store (front ++ before) between batch ∧ id ∈ batch.keys ∧
        (after store (front ++ before ++ .timeout :: between)).disposed = false

namespace LiveSearch

section Runs

variable {store : Store} {id : String}

theorem Checked.append
    {front back : List SearchEvent} (h : Checked store id front back) (e : SearchEvent) :
    Checked store id front (back ++ [e]) := by
  obtain ⟨before, between, rest, matched, batch, rfl, h⟩ := h
  exact ⟨before, between, rest ++ [e], matched, batch, by simp, h⟩

/-- An updated trace that stays in the buffer is pending until it is checked. -/
theorem pending_or_checked
    {front : List SearchEvent} {update : SearchEvent} (hupdate : update.Updates id)
    (hmounted : (after store front).disposed = false) {back : List SearchEvent}
    (hlast : ∀ e ∈ back, ¬ e.Updates id)
    (hstays : ∀ back', back' <+: back →
      id ∈ (after store (front ++ update :: back')).store.traces.map TraceData.traceId) :
    (∃ r, (after store (front ++ update :: back)).pending.get? id = some r) ∨
      Checked store id (front ++ [update]) back := by
  induction back using List.reverseRecOn with
  | nil =>
      obtain ⟨r, hr, -⟩ := (stepped_after store front update).updated id hupdate hmounted
      exact Or.inl ⟨r, hr⟩
  | append_singleton back e ih =>
      have hbefore : back <+: back ++ [e] := List.prefix_append back [e]
      rcases ih (fun e' he' => hlast e' (List.mem_append_left _ he'))
        (fun back' hback' => hstays back' (hback'.trans hbefore)) with ⟨r, hr⟩ | hchecked
      · have hassoc : front ++ update :: (back ++ [e]) = (front ++ update :: back) ++ [e] := by
          simp
        rw [hassoc]
        rcases (stepped_after store (front ++ update :: back) e).kept id r hr
          (hlast e (by simp)) (hstays back hbefore) with hkept | ⟨matched, b, rfl, hb, hmem, hm⟩
        · exact Or.inl ⟨r, hkept⟩
        · refine Or.inr ?_
          obtain ⟨front', back', hsplit, hissued⟩ := inFlight_issued hb
          -- the request was issued behind the update, whose version it carries
          have hlt := version_lt_pending hupdate hmounted back r hr
          have hle := (inv_after store front').pending id r (pending_of_issued hissued hmem)
          rcases List.append_eq_append_iff.mp hsplit with
            ⟨middle, hfront, hrest⟩ | ⟨middle, hfront, -⟩
          · cases middle with
            | nil =>
                rw [List.nil_append] at hrest
                cases hrest
                exact hupdate.elim
            | cons first before =>
                rw [List.cons_append] at hrest
                obtain ⟨rfl, hback⟩ := List.cons_eq_cons.mp hrest
                subst hfront hback
                refine ⟨before, back', [], matched, b, by simp, ?_, List.mem_map_of_mem hmem, ?_⟩
                · simpa using hissued
                · simpa using hm
          · have hmono : (after store front').version ≤ (after store front).version := by
              rw [hfront]
              exact version_le_append store front' middle
            omega
      · exact Or.inr (Checked.append hchecked e)

/-! ### Nothing is forgotten -/

/-- While the effect is mounted, a pending trace has a timer or a request under way. -/
def Scheduled (s : LiveSearch) : Prop :=
  s.disposed = false → s.pending.entries ≠ [] → s.timer = true ∨ s.running = true

theorem scheduled_schedule (s : LiveSearch) : Scheduled s.schedule := by
  intro hmounted hpending
  rw [schedule_disposed] at hmounted
  rw [schedule_pending] at hpending
  rw [schedule_running]
  unfold schedule
  split
  · exact Or.inl rfl
  · rename_i hcond
    cases htimer : s.timer <;> cases hrunning : s.running <;>
      simp_all

/-- A step leaves a timer or a request for what is pending. -/
theorem scheduled_step
    {s : LiveSearch} (h : Scheduled s) (e : SearchEvent) :
    Scheduled (s.step e) := by
  cases e with
  | addTraces newTraces =>
      by_cases hquiet : newTraces = [] ∨ s.disposed = true
      · rw [step_addTraces_quiet hquiet]
        exact h
      · rw [not_or, Bool.not_eq_true] at hquiet
        obtain ⟨t, -, hstep⟩ := step_addTraces hquiet.1 hquiet.2
        rw [hstep]
        exact scheduled_schedule t
  | write store => exact h
  | timeout =>
      cases htimer : s.timer with
      | false =>
          rw [step_timeout_idle htimer]
          exact h
      | true =>
          rcases step_timeout htimer with ⟨-, hstep⟩ | hstep
          · rw [hstep]
            exact scheduled_schedule _
          · rw [hstep]
            exact fun _ _ => Or.inr rfl
  | response matched =>
      cases hbatch : s.batch with
      | none =>
          rw [step_response_idle matched hbatch]
          exact h
      | some batch =>
          cases hdisposed : s.disposed with
          | true =>
              rw [step_response_disposed hbatch hdisposed]
              exact scheduled_schedule _
          | false =>
              obtain ⟨t, -, hstep⟩ := step_response matched hbatch hdisposed
              rw [hstep]
              exact scheduled_schedule _
  | failure =>
      cases hbatch : s.batch with
      | none =>
          rw [step_failure_idle hbatch]
          exact h
      | some batch =>
          rw [step_failure hbatch]
          exact scheduled_schedule _
  | dispose => exact fun hmounted => by cases hmounted

/-- In every run a pending trace has a timer or a request, until the end. -/
theorem scheduled_after (store : Store) (events : List SearchEvent) :
    Scheduled (after store events) := by
  induction events using List.reverseRecOn with
  | nil => exact fun _ hpending => absurd rfl hpending
  | append_singleton events e ih =>
      rw [after_snoc]
      exact scheduled_step ih e

end Runs

end LiveSearch

open LiveSearch in
/-- In every run the hook changes the membership of a trace by the answer to a request that no
update of the trace came after; and when nothing is pending and no request is running, every
update was checked whose trace got no later one and stayed in the buffer. -/
theorem liveSearch_neverStale (store : Store) (events : List SearchEvent) :
    (∀ (e : SearchEvent) (id : String),
      ¬ (id ∈ (after store (events ++ [e])).store.serverMatchedTraceIds ↔
        id ∈ (after store events).store.serverMatchedTraceIds) →
      (∃ other, e = .write other) ∨
        ∃ matched front back batch,
          e = .response matched ∧ events = front ++ .timeout :: back ∧
            Issued store front back batch ∧ id ∈ batch.keys ∧
              (∀ e' ∈ back, ¬ e'.Updates id) ∧
                (id ∈ (after store (events ++ [e])).store.serverMatchedTraceIds ↔
                  id ∈ matched)) ∧
      ((after store events).pending.entries = [] → (after store events).running = false →
        ∀ (front back : List SearchEvent) (update : SearchEvent) (id : String),
          events = front ++ update :: back → update.Updates id →
          (after store front).disposed = false → (∀ e ∈ back, ¬ e.Updates id) →
          (∀ back', back' <+: back →
            id ∈ (after store (front ++ update :: back')).store.traces.map
              TraceData.traceId) →
          Checked store id (front ++ [update]) back) := by
  refine ⟨fun e id => membership_fresh events e id, ?_⟩
  rintro hempty - front back update id rfl hupdate hmounted hlast hstays
  rcases pending_or_checked hupdate hmounted hlast hstays with ⟨r, hr⟩ | hchecked
  · rw [← OrderedMap.mem_entries_iff, hempty] at hr
    cases hr
  · exact hchecked

/-- An answer that an update overtook does not count, the next one does. -/
example :
    let t := sampleTrace "a" "2026-01-01T00:00:00Z" 1
    let overtaken := [.addTraces [t], .timeout, .addTraces [t], .response ["a"]]
    let s := LiveSearch.after (initialStore sampleCaps) overtaken
    let s' := LiveSearch.after (initialStore sampleCaps) (overtaken ++ [.timeout, .response ["a"]])
    s.store.serverMatchedTraceIds = ∅ ∧ s'.store.serverMatchedTraceIds = {"a"} := by
  decide

end Stores
end Otelop
