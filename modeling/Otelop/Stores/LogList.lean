import Mathlib.Tactic
import Otelop.Lib.Along
import Otelop.Stores.TraceBuffer

/-!
# The list of logs

A log reaches the list over the socket, in a flush of `addLogsAtom`, and in a page:
`replaceLogPageAtom`, `appendLogsAtom` and `appendLogSearchResultsAtom`.  The pages leave out
what the list has; the flush does not, though a page can hold a log whose delivery is still
buffered.

A run is any sequence of these events.  `DistinctLogs` says that the ids in the list are
distinct, and `BringsNewLogs` that a flush brings no log that stays in the list behind it.  The
second is the condition of the result; a server that sends every log once (`ServedLogs`) meets
it as long as no page overtakes a delivery.

**Results.**
* `nodup_addLogs_iff`: when a flush keeps the ids distinct.
* `logs_distinct_iff`: so along a run.
-/

namespace Otelop
namespace Stores

open Lib
open Frontend (EventTimeWindow)

/-- A flush of deliveries, or a page that was fetched. -/
inductive LogEvent where
  | deliver (newLogs : List LogData)
  | replacePage (items : List LogData) (idsBeforeRequest : Finset String)
      (window : EventTimeWindow)
  | append (olderLogs : List LogData)
  | appendSearchResults (logs : List LogData)

def LogEvent.apply (s : Store) : LogEvent → Store
  | deliver newLogs => addLogs s newLogs
  | replacePage items ids window => replaceLogPage s items ids window
  | append olderLogs => appendLogs s olderLogs
  | appendSearchResults logs => appendLogSearchResults s logs

/-- The rows an event brings. -/
def LogEvent.rows : LogEvent → List LogData
  | deliver newLogs => newLogs
  | replacePage items _ _ => items
  | append olderLogs => olderLogs
  | appendSearchResults logs => logs

def LogEvent.delivered : LogEvent → List LogData
  | deliver newLogs => newLogs
  | _ => []

/-- No two rows have one id. -/
def DistinctLogs (s : Store) : Prop := (s.logs.map LogData.id).Nodup

instance (s : Store) : Decidable (DistinctLogs s) := inferInstanceAs (Decidable (List.Nodup _))

/-- A flush brings no log that stays in the list behind it. -/
def BringsNewLogs (s : Store) : LogEvent → Prop
  | .deliver newLogs =>
      ∀ log ∈ newLogs,
        log.id ∉ (s.logs.take (s.caps.logCap - newLogs.length)).map LogData.id
  | _ => True

theorem distinctLogs_initialStore (caps : BufferCaps) : DistinctLogs (initialStore caps) :=
  List.nodup_nil

/-! ### One event -/

/-- What a flush leaves of the list. -/
theorem logs_addLogs (s : Store) (newLogs : List LogData) :
    (addLogs s newLogs).logs = (newLogs.reverse ++ s.logs).take s.caps.logCap ∨
      newLogs = [] ∧ (addLogs s newLogs).logs = s.logs := by
  rw [addLogs]
  cases newLogs with
  | nil => exact Or.inr ⟨rfl, rfl⟩
  | cons log logs => exact Or.inl rfl

/-- A flush of distinct logs keeps the ids distinct exactly when it brings no log that
stays behind it. -/
theorem nodup_addLogs_iff
    {s : Store} (h : DistinctLogs s) {newLogs : List LogData}
    (hnew : (newLogs.map LogData.id).Nodup) :
    DistinctLogs (addLogs s newLogs) ↔ BringsNewLogs s (.deliver newLogs) := by
  rcases logs_addLogs s newLogs with hlogs | ⟨rfl, hlogs⟩
  · rw [DistinctLogs, hlogs, List.take_append, List.length_reverse, List.map_append,
      List.nodup_append']
    have hfirst : ((newLogs.reverse.take s.caps.logCap).map LogData.id).Nodup := by
      refine List.Nodup.sublist ((List.take_sublist _ _).map _) ?_
      rw [List.map_reverse]
      exact List.nodup_reverse.mpr hnew
    have hrest : ((s.logs.take (s.caps.logCap - newLogs.length)).map LogData.id).Nodup :=
      h.sublist ((List.take_sublist _ _).map _)
    constructor
    · rintro ⟨-, -, hdisjoint⟩ log hlog hmem
      refine hdisjoint (List.mem_map_of_mem ?_) hmem
      -- Behind a flush that fills the list no row stays.
      have hroom : newLogs.length ≤ s.caps.logCap := by
        by_contra hfull
        rw [Nat.sub_eq_zero_of_le (not_le.mp hfull).le, List.take_zero] at hmem
        cases hmem
      rw [List.take_of_length_le (by rwa [List.length_reverse])]
      exact List.mem_reverse.mpr hlog
    · intro hbrings
      refine ⟨hfirst, hrest, ?_⟩
      intro id hid hmem
      obtain ⟨log, hlog, rfl⟩ := List.mem_map.mp hid
      exact hbrings log (List.mem_reverse.mp (List.mem_of_mem_take hlog)) hmem
  · rw [DistinctLogs, hlogs]
    exact iff_of_true h fun log hlog => absurd hlog List.not_mem_nil

theorem distinctLogs_replaceLogPage
    {s : Store} (h : DistinctLogs s) {items : List LogData}
    (hitems : (items.map LogData.id).Nodup) (ids : Finset String) (window : EventTimeWindow) :
    DistinctLogs (replaceLogPage s items ids window) := by
  have hkept : ((s.logs.filter fun item => decide (item.id ∉ ids)).map LogData.id).Nodup :=
    h.sublist (List.filter_sublist.map _)
  exact (nodup_append_page hkept hitems).sublist ((List.take_sublist _ _).map _)

theorem distinctLogs_append
    {s : Store} (h : DistinctLogs s) {logs : List LogData}
    (hlogs : (logs.map LogData.id).Nodup) :
    DistinctLogs (appendLogSearchResults s logs) := by
  rw [DistinctLogs, appendLogSearchResults, appendedPage]
  dsimp only
  split
  · exact h
  · exact (nodup_append_page h hlogs).sublist ((List.take_sublist _ _).map _)

/-! ### Runs -/

/-- The server delivers a log at most once, and a page has a log once. -/
structure ServedLogs (events : List LogEvent) : Prop where
  once : ((events.flatMap LogEvent.delivered).map LogData.id).Nodup
  page : ∀ e ∈ events, e.delivered = [] → (e.rows.map LogData.id).Nodup

theorem ServedLogs.deliver
    {events : List LogEvent} (h : ServedLogs events) {newLogs : List LogData}
    (he : .deliver newLogs ∈ events) :
    (newLogs.map LogData.id).Nodup := by
  have hsub : newLogs.Sublist (events.flatMap LogEvent.delivered) := by
    obtain ⟨before, after, rfl⟩ := List.append_of_mem he
    rw [List.flatMap_append, List.flatMap_cons]
    exact (List.sublist_append_left _ _).trans (List.sublist_append_right _ _)
  exact h.once.sublist (hsub.map _)

/-- Along a run no two rows have one id, exactly when no flush brings a log that stays in
the list behind it. -/
theorem logs_distinct_iff
    {s : Store} (hinit : DistinctLogs s) {events : List LogEvent} (hserved : ServedLogs events) :
    Along LogEvent.apply s events DistinctLogs ↔
      EveryStep LogEvent.apply s events BringsNewLogs := by
  refine along_iff_everyStep hinit (fun _ => id) ?_ ?_
  · intro s e he h hok
    cases e with
    | deliver newLogs => exact (nodup_addLogs_iff h (hserved.deliver he)).mpr hok
    | replacePage items ids window =>
        exact distinctLogs_replaceLogPage h (hserved.page _ he rfl) ids window
    | append olderLogs => exact distinctLogs_append h (hserved.page _ he rfl)
    | appendSearchResults logs => exact distinctLogs_append h (hserved.page _ he rfl)
  · intro s e he h hdistinct
    cases e with
    | deliver newLogs => exact (nodup_addLogs_iff h (hserved.deliver he)).mp hdistinct
    | replacePage items ids window => trivial
    | append olderLogs => trivial
    | appendSearchResults logs => trivial

def sampleLog (id : String) : LogData where
  id := id
  timestamp := "2024-01-01T00:10:00Z"
  traceId := ""
  spanId := ""
  severityText := "INFO"
  body := ""
  serviceName := "checkout"

/-- A page has the log whose delivery is flushed after it. -/
theorem logs_twice :
    ServedLogs [.replacePage [sampleLog "a"] ∅ (.live .hour), .deliver [sampleLog "a"]] ∧
      ¬ Along LogEvent.apply (initialStore defaultConfig)
        [.replacePage [sampleLog "a"] ∅ (.live .hour), .deliver [sampleLog "a"]]
        DistinctLogs := by
  refine ⟨⟨by decide, by simp [LogEvent.rows]⟩, ?_⟩
  intro h
  have htwice := h _ List.prefix_rfl
  revert htwice
  decide

theorem logs_distinct_iff_sample :
    Along LogEvent.apply (initialStore defaultConfig)
      [.deliver [sampleLog "a", sampleLog "b"], .append [sampleLog "a", sampleLog "c"],
        .replacePage [sampleLog "b", sampleLog "d"] {"a"} (.live .hour), .deliver [sampleLog "e"]]
      DistinctLogs := by
  refine (logs_distinct_iff (distinctLogs_initialStore _) ⟨by decide, ?_⟩).mpr ?_
  · simp [LogEvent.rows, LogEvent.delivered, sampleLog]
  · have hfirst : BringsNewLogs (initialStore defaultConfig)
        (.deliver [sampleLog "a", sampleLog "b"]) := by
      rw [BringsNewLogs]
      decide
    refine everyStep_cons.mpr ⟨hfirst, everyStep_cons.mpr ⟨trivial, everyStep_cons.mpr ⟨trivial,
      everyStep_cons.mpr ⟨?_, everyStep_nil⟩⟩⟩⟩
    rw [BringsNewLogs]
    decide

end Stores
end Otelop
