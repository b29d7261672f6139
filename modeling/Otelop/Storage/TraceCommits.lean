import Mathlib.Tactic
import Otelop.Storage.SummaryChain
import Otelop.Storage.TraceBatches

/-!
# Commits of trace batches, and the traces there are

A commit is one call of `writeTraces`; it hands at most one event to the listener.

The browser counts traces by the messages it gets, so what matters of a commit is how it changes
the set of the ids that have a summary, and what its event says of them.  The specification of a
whole call (`writeTraces_cases`) is read here from that side: the rows that are there grow, or
their traces are tombstoned, and the summaries of an event are those of the table after the
commit.

**Results.**
* `card_traceIDs`: the number of rows of `trace_summaries`.
* `commit_traceIDs`: the traces there are after a commit.
* `commit_grows`: the rows of the traces after a commit, and what it reports of them.
-/

namespace Otelop
namespace Storage

open Lib

variable {V : Type} {sub : Time → Time → Int}

/-- A batch, the two readings of the clock, and the faults its statements meet. -/
structure Commit where
  batch : TraceBatch
  refreshedAt : Time
  now : Time
  faults : List Bool

def Store.commit (sub : Time → Time → Int) (s : Store V) (c : Commit) : Store V :=
  s.after sub (.writeTraces c.batch c.refreshedAt c.now) c.faults

theorem Reachable.commit
    {s : Store V} (hs : Reachable sub (fun _ => True) s) (c : Commit) :
    Reachable sub (fun _ => True) (s.commit sub c) :=
  hs.step _ _ trivial fun h => by cases h

/-- The trace events dispatched between two states of a run. -/
def newTraceEvents (s s' : Store V) : List TraceBatch :=
  (s'.mem.dispatched.drop s.mem.dispatched.length).filterMap fun
    | .traces batch => some batch
    | _ => none

/-- The traces with a row in `trace_summaries`. -/
def Db.traceIDs (db : Db V) : Finset String :=
  (db.traceSummaries.rows.map TraceSummaryRow.traceID).toFinset

theorem card_traceIDs (db : Db V) : db.traceIDs.card = db.traceSummaries.rows.length := by
  rw [Db.traceIDs, List.toFinset_card_of_nodup db.traceSummaries.keys_nodup, List.length_map]

theorem mem_traceIDs
    {s : Store V} (hs : Reachable sub (fun _ => True) s) {id : String} :
    id ∈ s.db.traceIDs ↔ ∃ sp ∈ s.db.spans, sp.traceID = id := by
  have hinv := (hs.traceInv (summarySpec_counts sub)).2
  rw [← hinv.exists_summary_iff (summarySpec_counts sub), Db.traceIDs, List.mem_toFinset,
    List.mem_map]

/-- A commit dispatches nothing and leaves the traces alone, or it dispatches an event, and
then the traces of the event's drops are gone and those of its summaries there. -/
theorem commit_traceIDs
    {s : Store V} (hs : Reachable sub (fun _ => True) s) (c : Commit) :
    newTraceEvents s (s.commit sub c) = [] ∧ (s.commit sub c).db.traceIDs = s.db.traceIDs ∨
      ∃ ev, newTraceEvents s (s.commit sub c) = [ev] ∧
        (s.commit sub c).db.traceIDs =
          (s.db.traceIDs \ ev.droppedTraceIDs.toFinset) ∪
            (ev.summaries.map TraceSummary.traceID).toFinset := by
  have hafter := hs.commit c
  rcases writeTraces_addsNewSpans hs c.batch c.refreshedAt c.now c.faults rfl with
    ⟨-, hspans, hnone⟩ | ⟨-, ev, hevent, hadds⟩
  · refine Or.inl ⟨?_, ?_⟩
    · change (List.drop _ (s.after sub _ _).mem.dispatched).filterMap _ = []
      rw [hnone, List.drop_length]
      rfl
    · ext id
      rw [mem_traceIDs hafter, mem_traceIDs hs]
      change (∃ sp ∈ (s.after sub _ _).db.spans, _) ↔ _
      rw [hspans]
  · refine Or.inr ⟨ev, ?_, ?_⟩
    · change (List.drop _ (s.after sub _ _).mem.dispatched).filterMap _ = [ev]
      rw [hevent, List.drop_left]
      rfl
    · ext id
      rw [mem_traceIDs hafter, Finset.mem_union, Finset.mem_sdiff, mem_traceIDs hs,
        List.mem_toFinset, List.mem_toFinset, hadds.summaries.mem_iff,
        mem_distinctTraceIDsForRows]
      change (∃ sp ∈ (s.after sub _ _).db.spans, _) ↔ _
      rw [hadds.spans]
      constructor
      · rintro ⟨sp, hsp, rfl⟩
        rcases List.mem_append.mp hsp with hsp | hsp
        · obtain ⟨hsp, hkept⟩ := List.mem_filter.mp hsp
          exact Or.inl ⟨⟨sp, hsp, rfl⟩, of_decide_eq_true hkept⟩
        · obtain ⟨r, hr, rfl⟩ := List.mem_map.mp hsp
          exact Or.inr ⟨r, hr, rfl⟩
      · rintro (⟨⟨sp, hsp, rfl⟩, hkept⟩ | ⟨r, hr, rfl⟩)
        · exact ⟨sp, List.mem_append_left _
            (List.mem_filter.mpr ⟨hsp, decide_eq_true hkept⟩), rfl⟩
        · exact ⟨_, List.mem_append_right _ (List.mem_map_of_mem hr), rfl⟩

/-! ### Growing tables -/

/-- The traces of `db` were dropped or have grown, and `events` report the dropped ones and
read the others from `db'`. -/
structure CommitGrows (db db' : Db V) (events : List TraceBatch) : Prop where
  rows : ∀ t ∈ db.traceSummaries.rows, db'.tombstoned t.traceID = true ∨
    ∃ t' ∈ db'.traceSummaries.rows, t'.traceID = t.traceID ∧ t.Grows t'
  tombstoned : ∀ id, db.tombstoned id = true → db'.tombstoned id = true
  dropped : ∀ ev ∈ events, ∀ id ∈ ev.droppedTraceIDs, db'.tombstoned id = true
  read : ∀ ev ∈ events, ReadFrom db' ev.summaries

/-- Without an event the rows are those there were. -/
theorem commitGrows_prepared
    {s p : Store V} (hp : Prepared s p) : CommitGrows s.db p.db [] where
  rows t ht := by
    have hsame : p.db.traceSummaries = s.db.traceSummaries := by
      rw [hp.rest]
    exact Or.inr ⟨t, hsame ▸ ht, rfl, .refl t⟩
  tombstoned id hid := (hp.tombstoned id).trans hid
  dropped ev hev := absurd hev List.not_mem_nil
  read ev hev := absurd hev List.not_mem_nil

/-- A trace that a transaction keeps has grown. -/
theorem Wrote.grows
    {inserted : List SpanRow} {dropped : List String} {ingestedAt : Time} {db db' : Db V}
    (h : Wrote inserted dropped ingestedAt db db') (hinv : TraceInv Counts db)
    {t : TraceSummaryRow} (ht : t ∈ db.traceSummaries.rows) (hkept : t.traceID ∉ dropped) :
    ∃ t' ∈ db'.traceSummaries.rows, t'.traceID = t.traceID ∧ t.Grows t' := by
  by_cases hid : ∃ r ∈ inserted, r.traceID = t.traceID
  · have hkey : (mergedState db inserted ingestedAt t.traceID).row.traceID = t.traceID :=
      mergedState_traceID hid
    refine ⟨_, (h.traceSummaries _).mpr ⟨?_, Or.inl ⟨?_, ?_⟩⟩, hkey, ?_⟩
    · rwa [hkey]
    · rwa [hkey]
    · rw [hkey]
    · have hfind : db.traceSummaries.find? t.traceID = some t :=
        (KeyedTable.find?_eq_some_iff _).mpr ⟨ht, rfl⟩
      have hpos : t.spanCount ≠ 0 := by
        obtain ⟨hcount, hne⟩ := hinv.summary t ht
        rw [hcount]
        exact List.length_pos_iff.mpr hne |>.ne'
      have hstate : t.state.spanCount ≠ 0 := hpos
      rw [mergedState, hfind]
      exact foldl_mergeSpan_grows ingestedAt _ hstate
  · exact ⟨t, (h.traceSummaries t).mpr ⟨hkept, Or.inr ⟨hid, ht⟩⟩, rfl, .refl t⟩

/-- A commit makes the rows of the traces it keeps grow, and reports them as they are. -/
theorem commit_grows
    {s : Store V} (hs : Reachable sub (fun _ => True) s) (c : Commit) :
    CommitGrows s.db (s.commit sub c).db (newTraceEvents s (s.commit sub c)) := by
  obtain ⟨hsaved, hinv⟩ := hs.traceInv (summarySpec_counts sub)
  have hafter : s.commit sub c =
      (writeTraces c.batch c.refreshedAt c.now (s.withFaults c.faults)).2 := rfl
  obtain ⟨p, hp, -, ⟨hdb, hmem, -⟩ | ⟨inserted, dropped, w, -, hc, hread, hmem, -⟩⟩ :=
    writeTraces_cases (s := s.withFaults c.faults) c.batch c.refreshedAt c.now hsaved hafter
  · have hnone : newTraceEvents s (s.commit sub c) = [] := by
      have hsame : (s.commit sub c).mem.dispatched = s.mem.dispatched := by
        rw [hmem]
        exact hp.dispatched
      rw [newTraceEvents, hsame, List.drop_length]
      rfl
    rw [hnone, hdb]
    exact commitGrows_prepared (s := s.withFaults c.faults) hp
  · have hevent : newTraceEvents s (s.commit sub c) = [w.event c.batch] := by
      have hdispatched : p.mem.dispatched = s.mem.dispatched := hp.dispatched
      rw [newTraceEvents, hmem, hdispatched, List.drop_left]
      rfl
    have hprep : CommitGrows s.db p.db [] :=
      commitGrows_prepared (s := s.withFaults c.faults) hp
    have hinvp : TraceInv Counts p.db := hinv.prepared (s := s.withFaults c.faults) hp
    rw [hevent]
    refine ⟨?_, ?_, ?_, ?_⟩
    · intro t ht
      by_cases hdropped : t.traceID ∈ dropped
      · exact Or.inl ((hc.wrote.tombstoned _).mpr (Or.inr hdropped))
      · have hsame : p.db.traceSummaries = s.db.traceSummaries := by
          rw [hp.rest]
          rfl
        exact Or.inr (hc.wrote.grows hinvp (hsame ▸ ht) hdropped)
    · intro id hid
      exact (hc.wrote.tombstoned id).mpr (Or.inl (hprep.tombstoned id hid))
    · intro ev hev id hid
      rw [List.mem_singleton.mp hev] at hid
      have hdropped : id ∈ dropped := by
        have hid' : id ∈ w.droppedTraceIDs := hid
        rwa [hc.droppedTraceIDs, mem_sortStrings] at hid'
      exact (hc.wrote.tombstoned id).mpr (Or.inr hdropped)
    · intro ev hev
      rw [List.mem_singleton.mp hev]
      exact hread

end Storage
end Otelop
