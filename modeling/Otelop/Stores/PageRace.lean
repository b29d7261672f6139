import Mathlib.Tactic
import Otelop.Lib.Along
import Otelop.Stores.SummaryMerge
import Otelop.Stores.TraceCount
import Otelop.Stores.TraceStream

/-!
# Pages that race with deliveries

`useSignalListPage` takes the ids of the list when a request starts and writes the page when
the response arrives.  In between the server commits batches, and summaries and deletions
are applied.  The page replaces every row whose id was there at the start of the request,
also one that was updated since, and it brings back what was deleted since.  A page that is
not late can still show a shorter duration than a message did, after the conversion of its
milliseconds.

A run interleaves commits, applications of messages, and the three moments of any number of
requests.  `RaceState.delivered` is a ghost: the messages that were applied.

**Results.**
* `extent_merged`: a merged row shows no less than either of the two.
* `pages_keepUpToDate`: when the rows of the list are not older than the messages.
-/

namespace Otelop
namespace Stores

open Lib
open Frontend (EventTimeWindow)
open Storage (Commit Time newTraceEvents)
open Broadcast (broadcastTraces sampleIso)

variable {V : Type}

/-- The initial page replaces the list, a later one is appended. -/
inductive PageKind where
  | initial (window : EventTimeWindow)
  | older (searching : Bool)

/-- A page, and how many messages were sent before it was read. -/
structure ReadPage where
  items : List TraceData
  sent : Nat

/-- A request that was not answered yet. -/
structure PageRequest where
  kind : PageKind
  idsBeforeRequest : Finset String
  page : Option ReadPage

structure RaceState (V : Type) where
  server : Storage.Store V
  delivered : List WsMessage
  inFlight : List WsMessage
  client : Store
  requests : List PageRequest

/-- The messages that were sent. -/
def RaceState.sent (s : RaceState V) : List WsMessage := s.delivered ++ s.inFlight

/-- `read` and `respond` name a request by its place among those not answered yet. -/
inductive RaceEvent where
  | commit (c : Commit)
  | apply (more : Nat)
  | request (kind : PageKind)
  | read (index : Nat) (query : PageQuery)
  | respond (index : Nat)

/-- What `replacePage` or `onAppend` writes. -/
def PageKind.write (s : Store) (idsBeforeRequest : Finset String) (items : List TraceData) :
    PageKind → Store
  | initial window => replaceTracePage s items idsBeforeRequest window
  | older true => appendTraceSearchResults s items
  | older false => appendTraces s items

section Step

variable (sub : Time → Time → Int) (iso : Time → String)
  (spanMatches : String → Storage.StoredSpan → Storage.ResourceRow → Bool)

/-- The server answers a request once; a query that fails leaves it open. -/
def PageRequest.read (s : RaceState V) (query : PageQuery) (r : PageRequest) : PageRequest :=
  match r.page, fetchPage iso spanMatches s.server.db query with
  | none, .ok items => { r with page := some ⟨items, s.sent.length⟩ }
  | _, _ => r

def RaceState.step (s : RaceState V) : RaceEvent → RaceState V
  | .commit c =>
      let server := s.server.commit sub c
      { s with
        server := server
        inFlight := s.inFlight ++ (newTraceEvents s.server server).flatMap (broadcastTraces iso) }
  | .apply more =>
      match s.inFlight with
      | [] => s
      | m :: _ =>
          let run := nextRun more s.inFlight
          { s with
            delivered := s.delivered ++ run
            inFlight := s.inFlight.drop run.length
            client := dispatchRun s.client m.type run }
  | .request kind =>
      { s with
        requests :=
          s.requests ++ [⟨kind, (s.client.traces.map TraceData.traceId).toFinset, none⟩] }
  | .read index query =>
      { s with requests := s.requests.modify index (PageRequest.read iso spanMatches s query) }
  | .respond index =>
      match s.requests[index]? with
      | some ⟨kind, ids, some page⟩ =>
          { s with
            client := kind.write s.client ids page.items
            requests := s.requests.eraseIdx index }
      | _ => s

end Step

/-- Before any request, and before the first message. -/
def RaceState.start (server : Storage.Store V) (client : Store) : RaceState V where
  server := server
  delivered := []
  inFlight := []
  client := client
  requests := []

/-- The newest summary of a trace among the messages. -/
def newestSummary (messages : List WsMessage) (traceId : String) : Option TraceData :=
  ((messages.filterMap WsMessage.trace?).filter fun data => data.traceId = traceId).getLast?

/-- Every row shows no less than the newest summary of its trace that was delivered, and no
deletion of its trace was delivered. -/
def ListUpToDate (s : RaceState V) : Prop :=
  ∀ row ∈ s.client.traces,
    (∀ data, newestSummary s.delivered row.traceId = some data → data.extent ≤ row.extent) ∧
      WsMessage.traceDeletes row.traceId ∉ s.delivered

/-- The response puts a row of the page in the list: the list has no row of the trace, or it
has one that the initial page replaces. -/
def PageRequest.Places (r : PageRequest) (client : Store) (traceId : String) : Prop :=
  traceId ∉ client.traces.map TraceData.traceId ∨
    (∃ window, r.kind = .initial window) ∧ traceId ∈ r.idsBeforeRequest

/-- No message that was sent after the page was read, and that was delivered before the
response, is about the trace of the item. -/
def NothingLate (s : RaceState V) (page : ReadPage) (item : TraceData) : Prop :=
  ∀ m ∈ s.delivered.drop page.sent, m.traceId? ≠ some item.traceId

/-- The duration of the item did not fall below one that was delivered before the page was
read. -/
def DurationKept (s : RaceState V) (page : ReadPage) (item : TraceData) : Prop :=
  ∀ data, .traces data ∈ s.delivered.take page.sent → data.traceId = item.traceId →
    data.shownDuration ≤ item.shownDuration

/-- A response writes only items that are not late and that kept their duration. -/
def WritesCurrent (s : RaceState V) : RaceEvent → Prop
  | .respond index => ∀ r, s.requests[index]? = some r → ∀ page, r.page = some page →
      ∀ item ∈ page.items, r.Places s.client item.traceId →
        NothingLate s page item ∧ DurationKept s page item
  | _ => True

/-! ### Applying messages -/

/-- The extent of a merged row is the least upper bound. -/
theorem extent_merged (row incoming : TraceData) :
    (merged row incoming).extent = row.extent ⊔ incoming.extent := by
  have hsame := sameSummary_merged row incoming
  have hduration : (merged row incoming).shownDuration =
      max row.shownDuration incoming.shownDuration := by
    rw [TraceData.shownDuration, hsame.duration]
    exact toDouble_monotone.map_max
  rw [TraceData.extent, hsame.spanCount, hsame.linkCount, hduration]
  rfl

theorem traceId_merged (row incoming : TraceData) :
    (merged row incoming).traceId = row.traceId := by
  rw [merged]
  cases hmerge : mergeTrace row incoming with
  | none => rfl
  | some z => exact mergeTrace_keepsKey incoming row z hmerge

/-- The rows after one more summary, which is not older than the messages before it. -/
theorem upToDate_upsert
    {rows : List TraceData} {delivered : List WsMessage}
    (h : ∀ row ∈ rows, ∀ m ∈ delivered, UpToDate row m) {data : TraceData}
    (hdata : ∀ m ∈ delivered, UpToDate data m) :
    ∀ row ∈ upsert TraceData.traceId mergeTrace rows data,
      ∀ m ∈ delivered ++ [.traces data], UpToDate row m := by
  have hself : UpToDate data (.traces data) := fun _ => le_rfl
  intro row hrow m hm
  rw [upsert] at hrow
  split at hrow
  · obtain ⟨old, hold, rfl⟩ := List.mem_map.mp hrow
    rw [mergeRow]
    split
    · rename_i hsame
      change UpToDate (merged old data) m
      have hextent := extent_merged old data
      have hid := traceId_merged old data
      rcases List.mem_append.mp hm with hm | hm
      · exact (h old hold m hm).mono hid (hextent ▸ le_sup_left)
      · rw [List.mem_singleton.mp hm]
        exact hself.mono (hid.trans hsame) (hextent ▸ le_sup_right)
    · rename_i hother
      rcases List.mem_append.mp hm with hm | hm
      · exact h old hold m hm
      · rw [List.mem_singleton.mp hm]
        exact fun hsame => absurd hsame.symm hother
  · rename_i hnew
    rcases List.mem_append.mp hrow with hrow | hrow
    · rcases List.mem_append.mp hm with hm | hm
      · exact h row hrow m hm
      · rw [List.mem_singleton.mp hm]
        exact fun hsame => absurd (List.mem_map.mpr ⟨row, hrow, hsame.symm⟩) hnew
    · rw [List.mem_singleton.mp hrow]
      rcases List.mem_append.mp hm with hm | hm
      · exact hdata m hm
      · rw [List.mem_singleton.mp hm]
        exact hself

theorem upToDate_mergeBatch
    {current : List TraceData} {delivered : List WsMessage}
    (h : ∀ row ∈ current, ∀ m ∈ delivered, UpToDate row m) {rows : List TraceData}
    (horder : InOrder (delivered ++ rows.map WsMessage.traces)) :
    ∀ row ∈ mergeBatch current rows,
      ∀ m ∈ delivered ++ rows.map WsMessage.traces, UpToDate row m := by
  induction rows using List.reverseRecOn with
  | nil =>
      intro row hrow m hm
      rw [List.map_nil, List.append_nil] at hm
      exact h row hrow m hm
  | append_singleton rows data ih =>
      rw [List.map_append, ← List.append_assoc] at horder ⊢
      obtain ⟨hfront, -, hlast⟩ := List.pairwise_append.mp horder
      rw [mergeBatch, List.foldl_append, List.foldl_cons, List.foldl_nil]
      exact upToDate_upsert (ih hfront)
        fun m hm => hlast m hm (.traces data) (List.mem_singleton_self _) data rfl

theorem upToDate_addTraces
    {client : Store} (hnodup : (client.traces.map TraceData.traceId).Nodup)
    {delivered : List WsMessage} (h : ∀ row ∈ client.traces, ∀ m ∈ delivered, UpToDate row m)
    {rows : List TraceData} (horder : InOrder (delivered ++ rows.map WsMessage.traces)) :
    ∀ row ∈ (addTraces client rows).traces,
      ∀ m ∈ delivered ++ rows.map WsMessage.traces, UpToDate row m := by
  have hbatch := upToDate_mergeBatch h horder
  obtain ⟨traces, batch, hstore, hcut | ⟨hsame, hnothing⟩⟩ := addTraces_spec hnodup rows
  · intro row hrow
    rw [hstore, hcut] at hrow
    exact hbatch row ((newestTraceStartFirst_perm _).mem_iff.mp (List.mem_of_mem_take hrow))
  · intro row hrow
    rw [hstore] at hrow
    change row ∈ traces at hrow
    rw [hsame, ← hnothing] at hrow
    exact hbatch row hrow

/-- What one application does to the list. -/
theorem upToDate_apply
    {client : Store} (hnodup : (client.traces.map TraceData.traceId).Nodup)
    {delivered : List WsMessage} (h : ∀ row ∈ client.traces, ∀ m ∈ delivered, UpToDate row m)
    {more : Nat} {m : WsMessage} {rest : List WsMessage}
    (horder : InOrder (delivered ++ nextRun more (m :: rest))) :
    let run := nextRun more (m :: rest)
    ((dispatchRun client m.type run).traces.map TraceData.traceId).Nodup ∧
      ∀ row ∈ (dispatchRun client m.type run).traces, ∀ m' ∈ delivered ++ run,
        UpToDate row m' := by
  intro run
  cases m with
  | traces data =>
      obtain ⟨rows, hrun, hrows⟩ := nextRun_traces more data rest
      change run = _ at hrun
      change run.filterMap _ = _ at hrows
      change ((addTraces client (run.filterMap _)).traces.map _).Nodup ∧
        ∀ row ∈ (addTraces client (run.filterMap _)).traces, _
      rw [hrows]
      change InOrder (delivered ++ run) at horder
      rw [hrun] at horder ⊢
      exact ⟨nodup_addTraces hnodup rows, upToDate_addTraces hnodup h horder⟩
  | traceDeletes traceId =>
      refine ⟨hnodup.sublist (List.filter_sublist.map _), ?_⟩
      intro row hrow m' hm'
      obtain ⟨hold, hother⟩ := List.mem_filter.mp hrow
      rcases List.mem_append.mp hm' with hm' | hm'
      · exact h row hold m' hm'
      · rw [List.mem_singleton.mp hm']
        exact fun hsame => of_decide_eq_true hother hsame.symm
  | metrics data =>
      obtain ⟨metrics, count, hstore⟩ := addMetrics_frame client (run.filterMap WsMessage.metric?)
      change ((addMetrics client (run.filterMap _)).traces.map _).Nodup ∧
        ∀ row ∈ (addMetrics client (run.filterMap _)).traces, _
      rw [hstore]
      refine ⟨hnodup, fun row hrow m' hm' => ?_⟩
      rcases List.mem_append.mp hm' with hm' | hm'
      · exact h row hrow m' hm'
      · rw [List.mem_singleton.mp hm']
        trivial
  | logs data =>
      obtain ⟨logs, count, hstore⟩ := addLogs_frame client (run.filterMap WsMessage.log?)
      change ((addLogs client (run.filterMap _)).traces.map _).Nodup ∧
        ∀ row ∈ (addLogs client (run.filterMap _)).traces, _
      rw [hstore]
      refine ⟨hnodup, fun row hrow m' hm' => ?_⟩
      rcases List.mem_append.mp hm' with hm' | hm'
      · exact h row hrow m' hm'
      · rw [List.mem_singleton.mp hm']
        trivial

/-! ### Writing a page -/

theorem extent_pageRow (current : List TraceData) (incoming : TraceData) :
    (pageRow current incoming).extent = incoming.extent := by
  rw [pageRow]
  split <;> rfl

/-- A row of the list after a response was there before, or the page placed it. -/
theorem mem_write
    {client : Store} {r : PageRequest} {items : List TraceData} {row : TraceData}
    (hrow : row ∈ (r.kind.write client r.idsBeforeRequest items).traces) :
    row ∈ client.traces ∨ ∃ item ∈ items, r.Places client item.traceId ∧
      row.traceId = item.traceId ∧ row.extent = item.extent := by
  have happend : row ∈ appendedPage TraceData.traceId client.caps.traceCap newestTraceStartFirst
      client.traces items → row ∈ client.traces ∨ ∃ item ∈ items,
        r.Places client item.traceId ∧ row.traceId = item.traceId ∧
          row.extent = item.extent := by
    intro hrow
    rw [appendedPage] at hrow
    split at hrow
    · exact Or.inl hrow
    · have hmem := (newestTraceStartFirst_perm _).mem_iff.mp (List.mem_of_mem_take hrow)
      rcases List.mem_append.mp hmem with hmem | hmem
      · exact Or.inl hmem
      · obtain ⟨hitem, hnew⟩ := List.mem_filter.mp hmem
        exact Or.inr ⟨row, hitem, Or.inl (of_decide_eq_true hnew), rfl, rfl⟩
  obtain ⟨kind, ids, page⟩ := r
  cases kind with
  | initial window =>
      have hmem := (newestTraceStartFirst_perm _).mem_iff.mp (List.mem_of_mem_take hrow)
      rcases List.mem_append.mp hmem with hlive | hpage
      · exact Or.inl (List.mem_filter.mp hlive).1
      · obtain ⟨hwritten, hnotLive⟩ := List.mem_filter.mp hpage
        obtain ⟨item, hitem, rfl⟩ := List.mem_map.mp hwritten
        refine Or.inr ⟨item, hitem, ?_, traceId_pageRow _ item, extent_pageRow _ item⟩
        by_cases hcurrent : item.traceId ∈ client.traces.map TraceData.traceId
        · refine Or.inr ⟨⟨window, rfl⟩, ?_⟩
          by_contra hids
          refine of_decide_eq_true hnotLive ?_
          obtain ⟨old, hold, hid⟩ := List.mem_map.mp hcurrent
          rw [traceId_pageRow, ← hid]
          refine List.mem_map_of_mem (List.mem_filter.mpr ⟨hold, ?_⟩)
          rw [hid]
          exact decide_eq_true hids
        · exact Or.inl hcurrent
  | older searching =>
      cases searching with
      | true => exact happend hrow
      | false => exact happend hrow

theorem nodup_write
    {client : Store} (hnodup : (client.traces.map TraceData.traceId).Nodup)
    {items : List TraceData} (hitems : (items.map TraceData.traceId).Nodup) (kind : PageKind)
    (ids : Finset String) :
    ((kind.write client ids items).traces.map TraceData.traceId).Nodup := by
  cases kind with
  | initial window => exact nodup_replaceTracePage hnodup hitems ids window
  | older searching =>
      cases searching with
      | true => exact nodup_append hnodup hitems
      | false => exact nodup_append hnodup hitems

/-! ### Runs -/

/-- A page has a trace once, and counts no less than what was sent before it was read. -/
structure ReadPage.Sound (sent : List WsMessage) (page : ReadPage) : Prop where
  length_le : page.sent ≤ sent.length
  nodup : (page.items.map TraceData.traceId).Nodup
  upToDate : ∀ item ∈ page.items, ∀ m ∈ sent.take page.sent, CountsUpToDate item m

theorem ReadPage.Sound.more
    {sent : List WsMessage} {page : ReadPage} (h : page.Sound sent) (new : List WsMessage) :
    page.Sound (sent ++ new) where
  length_le := by
    rw [List.length_append]
    exact h.length_le.trans (Nat.le_add_right _ _)
  nodup := h.nodup
  upToDate := by
    rw [List.take_append_of_le_length h.length_le]
    exact h.upToDate

/-- What a run keeps. -/
structure RaceInvariant (sub : Time → Time → Int) (s : RaceState V) : Prop where
  server : ServerView sub s.server s.sent
  nodup : (s.client.traces.map TraceData.traceId).Nodup
  rows : ∀ row ∈ s.client.traces, ∀ m ∈ s.delivered, UpToDate row m
  pages : ∀ r ∈ s.requests, ∀ page, r.page = some page → page.Sound s.sent

variable {sub : Time → Time → Int} {iso : Time → String}
  {spanMatches : String → Storage.StoredSpan → Storage.ResourceRow → Bool}

theorem raceInvariant_commit
    {s : RaceState V} (h : RaceInvariant sub s) (c : Commit) :
    RaceInvariant sub (s.step sub iso spanMatches (.commit c)) := by
  have hsent : (s.step sub iso spanMatches (.commit c)).sent =
      s.sent ++ (newTraceEvents s.server (s.server.commit sub c)).flatMap (broadcastTraces iso) :=
    (List.append_assoc _ _ _).symm
  refine ⟨?_, h.nodup, h.rows, ?_⟩
  · rw [hsent]
    exact serverView_commit h.server c
  · rw [hsent]
    exact fun r hr page hpage => (h.pages r hr page hpage).more _

theorem raceInvariant_apply
    {s : RaceState V} (h : RaceInvariant sub s) (more : Nat) :
    RaceInvariant sub (s.step sub iso spanMatches (.apply more)) := by
  obtain ⟨server, delivered, inFlight, client, requests⟩ := s
  cases inFlight with
  | nil => exact h
  | cons m rest =>
      have hsplit : nextRun more (m :: rest) ++
          (m :: rest).drop (nextRun more (m :: rest)).length = m :: rest :=
        List.prefix_iff_eq_append.mp (prefix_nextRun more (m :: rest))
      have hall : InOrder (delivered ++ (m :: rest)) := h.server.inOrder
      rw [← hsplit, ← List.append_assoc] at hall
      obtain ⟨hnodup, hrows⟩ := upToDate_apply h.nodup h.rows (List.pairwise_append.mp hall).1
      have hsent : (RaceState.step sub iso spanMatches
          ⟨server, delivered, m :: rest, client, requests⟩ (.apply more)).sent =
            delivered ++ (m :: rest) := by
        change (delivered ++ nextRun more (m :: rest)) ++
          (m :: rest).drop (nextRun more (m :: rest)).length = _
        rw [List.append_assoc, hsplit]
      refine ⟨?_, hnodup, hrows, ?_⟩
      · rw [hsent]
        exact h.server
      · rw [hsent]
        exact h.pages

theorem raceInvariant_request
    {s : RaceState V} (h : RaceInvariant sub s) (kind : PageKind) :
    RaceInvariant sub (s.step sub iso spanMatches (.request kind)) := by
  refine ⟨h.server, h.nodup, h.rows, ?_⟩
  intro r hr page hpage
  rcases List.mem_append.mp hr with hr | hr
  · exact h.pages r hr page hpage
  · rw [List.mem_singleton.mp hr] at hpage
    cases hpage

theorem raceInvariant_read
    {s : RaceState V} (h : RaceInvariant sub s) (index : Nat) (query : PageQuery) :
    RaceInvariant sub (s.step sub iso spanMatches (.read index query)) := by
  refine ⟨h.server, h.nodup, h.rows, ?_⟩
  intro r hr page hpage
  obtain ⟨place, hplace⟩ := List.mem_iff_getElem?.mp hr
  change (s.requests.modify index (PageRequest.read iso spanMatches s query))[place]? = _
    at hplace
  rw [List.getElem?_modify] at hplace
  obtain ⟨old, hold, hr⟩ := Option.map_eq_some_iff.mp hplace
  have hmem : old ∈ s.requests := List.mem_of_getElem? hold
  split at hr
  · rw [PageRequest.read] at hr
    split at hr
    · rename_i items _ hfetch
      rw [← hr] at hpage
      cases hpage
      refine ⟨le_rfl, (fetchPage_shows hfetch).1, ?_⟩
      intro item hitem m hm
      exact fetchPage_upToDate h.server hfetch item hitem m (List.mem_of_mem_take hm)
    · exact h.pages old hmem page (hr ▸ hpage)
  · exact h.pages old hmem page (hr ▸ hpage)

theorem raceInvariant_respond
    {s : RaceState V} (h : RaceInvariant sub s) (index : Nat)
    (hcurrent : WritesCurrent s (.respond index)) :
    RaceInvariant sub (s.step sub iso spanMatches (.respond index)) := by
  rw [RaceState.step]
  split
  · rename_i kind ids page hrequest
    have hmem : ⟨kind, ids, some page⟩ ∈ s.requests := List.mem_of_getElem? hrequest
    have hpage := h.pages _ hmem page rfl
    refine ⟨h.server, nodup_write h.nodup hpage.nodup kind ids, ?_, ?_⟩
    · intro row hrow m hm
      rcases mem_write (r := ⟨kind, ids, some page⟩) hrow with hold |
        ⟨item, hitem, hplaces, hid, hextent⟩
      · exact h.rows row hold m hm
      · -- Delivered is what was sent before the page was read, or what came late.
        have hsplit := List.take_append_drop page.sent s.delivered
        obtain ⟨hlate, hkept⟩ := hcurrent _ hrequest page rfl item hitem hplaces
        have hitemOk : UpToDate item m := by
          rw [← hsplit] at hm
          rcases List.mem_append.mp hm with hearly | hafter
          · have hsent : m ∈ s.sent.take page.sent := by
              rw [RaceState.sent, List.take_append]
              exact List.mem_append_left _ hearly
            refine (hpage.upToDate item hitem m hsent).upToDate ?_
            rintro data rfl hid
            exact hkept data hearly hid
          · exact upToDate_of_ne (hlate m hafter)
        exact hitemOk.mono hid hextent.ge
    · intro r hr
      exact h.pages r (List.mem_of_mem_eraseIdx hr)
  · exact h

theorem RaceInvariant.listUpToDate
    {s : RaceState V} (h : RaceInvariant sub s) : ListUpToDate s := by
  intro row hrow
  constructor
  · intro data hdata
    obtain ⟨hmem, hid⟩ := List.mem_filter.mp (List.mem_of_getLast? hdata)
    obtain ⟨m, hm, htrace⟩ := List.mem_filterMap.mp hmem
    cases m with
    | traces data' =>
        cases htrace
        exact h.rows row hrow _ hm (of_decide_eq_true hid)
    | traceDeletes traceId => cases htrace
    | metrics data' => cases htrace
    | logs data' => cases htrace
  · intro hdeleted
    exact h.rows row hrow _ hdeleted rfl

/-- Along a run in which no response writes a row that a late message is about, or one whose
duration fell in the conversion, every row shows no less than the newest delivered summary of
its trace, and no deleted trace is in the list. -/
theorem pages_keepUpToDate
    {server : Storage.Store V} (hserver : Storage.Reachable sub (fun _ => True) server)
    {client : Store} (hclient : (client.traces.map TraceData.traceId).Nodup)
    {events : List RaceEvent}
    (hcurrent : EveryStep (RaceState.step sub iso spanMatches) (.start server client) events
      WritesCurrent) :
    Along (RaceState.step sub iso spanMatches) (.start server client) events ListUpToDate := by
  have hstart : RaceInvariant sub (RaceState.start server client) := by
    refine ⟨⟨hserver, ?_, List.Pairwise.nil⟩, hclient, ?_, ?_⟩
    · exact fun m hm => absurd hm List.not_mem_nil
    · exact fun row _ m hm => absurd hm List.not_mem_nil
    · exact fun r hr => absurd hr List.not_mem_nil
  have hinv : Along (RaceState.step sub iso spanMatches) (.start server client) events
      (RaceInvariant sub) := by
    refine Along.of_everyStep hstart ?_ hcurrent
    intro s e _ h hok
    cases e with
    | commit c => exact raceInvariant_commit h c
    | apply more => exact raceInvariant_apply h more
    | request kind => exact raceInvariant_request h kind
    | read index query => exact raceInvariant_read h index query
    | respond index => exact raceInvariant_respond h index hok
  exact hinv.imp fun s h => h.listUpToDate

/-- The first page of all traces. -/
def sampleQuery : PageQuery := ⟨0, 1000, none, 50, ""⟩

def sampleMatches (_ : String) (_ : Storage.StoredSpan) (_ : Storage.ResourceRow) : Bool := true

/-- The list has the trace of the server.  While its page is requested again, a third span
arrives and is delivered. -/
def racingEvents : List RaceEvent :=
  [.request (.initial (.live .hour)), .read 0 sampleQuery, .respond 0,
    .request (.initial (.live .hour)), .read 0 sampleQuery, .commit sampleCommit, .apply 0,
    .respond 0]

/-- The row of the page, which has two spans, replaces the one with three. -/
theorem replaceTracePage_turnsBack :
    ¬ Along (RaceState.step Time.sub sampleIso sampleMatches)
      (.start Storage.Store.oneTrace (initialStore defaultConfig)) racingEvents
        ListUpToDate := by
  intro h
  let last := racingEvents.foldl (RaceState.step Time.sub sampleIso sampleMatches)
    (.start Storage.Store.oneTrace (initialStore defaultConfig))
  have hlast : ListUpToDate last := h _ List.prefix_rfl
  have hall : ∀ row ∈ last.client.traces, ∀ data ∈ newestSummary last.delivered row.traceId,
      data.extent ≤ row.extent := fun row hrow => (hlast row hrow).1
  revert hall
  decide +kernel

/-- A summary is delivered, and then a page of its trace is read and written. -/
def orderedEvents : List RaceEvent :=
  [.commit sampleCommit, .apply 0, .request (.initial (.live .hour)), .read 0 sampleQuery,
    .respond 0]

theorem pages_keepUpToDate_sample :
    Along (RaceState.step Time.sub sampleIso sampleMatches)
      (.start Storage.Store.oneTrace (initialStore defaultConfig)) orderedEvents
        ListUpToDate := by
  refine pages_keepUpToDate Storage.Store.oneTrace_reachable (by exact List.nodup_nil) ?_
  refine everyStep_cons.mpr ⟨trivial, everyStep_cons.mpr ⟨trivial, everyStep_cons.mpr ⟨trivial,
    everyStep_cons.mpr ⟨trivial, everyStep_cons.mpr ⟨?_, everyStep_nil⟩⟩⟩⟩⟩
  intro r hr page hpage item hitem _
  let before := (orderedEvents.take 4).foldl (RaceState.step Time.sub sampleIso sampleMatches)
    (.start Storage.Store.oneTrace (initialStore defaultConfig))
  have hall : ∀ r ∈ before.requests, ∀ page ∈ r.page, ∀ item ∈ page.items,
      (∀ m ∈ before.delivered.drop page.sent, m.traceId? ≠ some item.traceId) ∧
        ∀ data ∈ (before.delivered.take page.sent).filterMap WsMessage.trace?,
          data.traceId = item.traceId → data.shownDuration ≤ item.shownDuration := by
    decide +kernel
  obtain ⟨hlate, hkept⟩ := hall r (List.mem_of_getElem? hr) page hpage item hitem
  exact ⟨hlate, fun data hdata hid =>
    hkept data (List.mem_filterMap.mpr ⟨_, hdata, rfl⟩) hid⟩

end Stores
end Otelop
