import Mathlib.Tactic
import Otelop.Storage.SpanLinks
import Otelop.Storage.TraceInvariant

/-!
# What runs of trace batches guarantee

The results here are about a store that trace batches, clears and sweeps have reached, and
read what one more batch does from the specification in `CommitTraces`.

A span that is stored again is ignored, and a batch may bring a span twice, so what a batch
adds is described by the distinct span ids it brings: of several spans with one id the first
counts.  `BatchCommits` is what is known of a batch whose transaction commits, with the spans
that survived the tombstones and the limit of a trace.

**Results.**
* `traceSummaries_eq_aggregation`: the summaries are the aggregation of the spans in every
  reachable state.
* `writeTraces_addsNewSpans`: a batch that commits adds exactly its new spans.
* `BatchCommits.distinctSpanCount_eq`: the spans a trace has once a batch is in.
-/

namespace Otelop
namespace Storage

open Lib

variable {V : Type} {sub : Time → Time → Int}

theorem traceRows_spanIDs_nodup
    {spans : List StoredSpan} (h : (spans.map StoredSpan.key).Nodup) (id : String) :
    ((traceRows spans id).map StoredSpan.spanID).Nodup := by
  have hkeys : ((traceRows spans id).map StoredSpan.key).Nodup :=
    (List.filter_sublist.map _).nodup h
  have hmap : (traceRows spans id).map StoredSpan.key =
      ((traceRows spans id).map StoredSpan.spanID).map fun sid => (id, sid) := by
    rw [List.map_map]
    refine List.map_congr_left fun s hs => ?_
    exact Prod.ext (mem_traceRows.mp hs).2 rfl
  rw [hmap] at hkeys
  exact hkeys.of_map _

/-- The summaries are the aggregations of the traces that have spans. -/
theorem TraceInv.mem_traceSummaries_iff
    {db : Db V} (h : TraceInv Aggregates db) {t : TraceSummaryRow} :
    t ∈ db.traceSummaries.rows ↔ Aggregates (traceRows db.spans t.traceID) t := by
  refine ⟨h.summary t, fun hagg => ?_⟩
  obtain ⟨sp, hsp⟩ := List.exists_mem_of_ne_nil _ hagg.ne_nil
  obtain ⟨hmem, hid⟩ := mem_traceRows.mp hsp
  obtain ⟨t', ht', hid'⟩ := h.covered sp hmem
  have heq : t' = t := by
    have hagg' := h.summary t' ht'
    rw [hid', hid] at hagg'
    exact hagg'.unique (traceRows_spanIDs_nodup h.keys_nodup _) (hid'.trans hid) hagg
  exact heq ▸ ht'

/-- In every reachable state the table of summaries is, row for row, the
aggregation of the spans grouped by trace. -/
theorem traceSummaries_eq_aggregation
    (hsub : SubExact sub) {s : Store V} (hs : Reachable sub (fun _ => True) s) :
    (∀ t, t ∈ s.db.traceSummaries.rows ↔
        Aggregates (traceRows s.db.spans t.traceID) t) ∧
      ∀ id, (∃ t ∈ s.db.traceSummaries.rows, t.traceID = id) ↔
        ∃ sp ∈ s.db.spans, sp.traceID = id := by
  have hP := summarySpec_aggregates hsub
  have hinv := (hs.traceInv hP).2
  exact ⟨fun t => hinv.mem_traceSummaries_iff, fun id => hinv.exists_summary_iff hP⟩

/-- A store that received a trace of two spans, one of them twice. -/
def Store.oneTrace : Store Unit :=
  (Store.new Unit).after Time.sub
    (.writeTraces
      { resources := [⟨0, "checkout", .empty⟩]
        spans := [.bare "t" "b" "a" 5 9, .bare "t" "a" "" 0 10, .bare "t" "b" "a" 5 9]
        summaries := []
        droppedTraceIDs := [] } 100 101) []

theorem Store.oneTrace_reachable : Reachable Time.sub (fun _ => True) Store.oneTrace :=
  .step _ _ .new trivial fun h => by cases h

theorem traceSummaries_eq_aggregation_oneTrace :
    (∀ t, t ∈ Store.oneTrace.db.traceSummaries.rows ↔
        Aggregates (traceRows Store.oneTrace.db.spans t.traceID) t) ∧
      ∀ id, (∃ t ∈ Store.oneTrace.db.traceSummaries.rows, t.traceID = id) ↔
        ∃ sp ∈ Store.oneTrace.db.spans, sp.traceID = id :=
  traceSummaries_eq_aggregation (fun _ _ _ _ => Iff.rfl) Store.oneTrace_reachable

example : Store.oneTrace.db.spans.map StoredSpan.key = [("t", "b"), ("t", "a")] := by
  rfl

/-! ### The event of a batch -/

/-- The transaction of the batch commits: the call returns no error and has rows to write. -/
def Store.CommitsBatch (sub : Time → Time → Int) (s : Store V) (batch : TraceBatch)
    (refreshedAt now : Time) (faults : List Bool) : Prop :=
  s.succeeds sub (.writeTraces batch refreshedAt now) faults ∧ batch.HasKept s.db

/-- What a call that commits does, seen from the state before the call. -/
structure BatchCommits (batch : TraceBatch) (now : Time) (s s' : Store V)
    (inserted : List SpanRow) (dropped : List String) (w : WrittenTraces) : Prop where
  event : s'.mem.dispatched = s.mem.dispatched ++ [.traces (w.event batch)]
  mem_inserted : ∀ r, r ∈ inserted ↔ FirstOfKey SpanRow.key batch.spans r ∧
    r.key ∉ s.db.spans.map StoredSpan.key ∧ s.db.tombstoned r.traceID = false
  sublist : inserted.Sublist batch.spans
  keys_nodup : (inserted.map SpanRow.key).Nodup
  spans : s'.db.spans =
    (s.db.spans ++ inserted.map fun r => r.stored now).filter fun sp => sp.traceID ∉ dropped
  oversized : ∀ id, id ∈ dropped ↔ (∃ r ∈ inserted, r.traceID = id) ∧
    maxSpansPerTrace < (traceRows s.db.spans id).length +
      (inserted.filter fun r => r.traceID = id).length
  retained : w.retained = inserted.filter fun r => r.traceID ∉ dropped
  mem_droppedTraceIDs : ∀ id, id ∈ w.droppedTraceIDs ↔ id ∈ dropped
  summaries_nodup : (w.summaries.map TraceSummary.traceID).Nodup
  mem_summaries : ∀ id, id ∈ w.summaries.map TraceSummary.traceID ↔
    ∃ r ∈ w.retained, r.traceID = id
  tombstoned : ∀ id, s'.db.tombstoned id = true ↔ s.db.tombstoned id = true ∨ id ∈ dropped
  links : ∀ r ∈ w.retained, s'.db.linksFrom r.key = r.storedLinks

/-- A batch in a reachable state dispatches nothing and leaves the spans alone, or
it commits. -/
theorem writeTraces_commits
    {s : Store V} (hs : Reachable sub (fun _ => True) s)
    (batch : TraceBatch) (refreshedAt now : Time) (faults : List Bool)
    {s' : Store V} (hs' : s' = s.after sub (.writeTraces batch refreshedAt now) faults) :
    ¬ s.CommitsBatch sub batch refreshedAt now faults ∧
        s'.mem.dispatched = s.mem.dispatched ∧ s'.db.spans = s.db.spans ∨
      s.CommitsBatch sub batch refreshedAt now faults ∧
        ∃ inserted dropped w, BatchCommits batch now s s' inserted dropped w := by
  obtain ⟨hsaved, hinv⟩ := hs.traceInv (summarySpec_counts sub)
  obtain ⟨p, hp, -, ⟨hdb, hmem, hfailed⟩ |
      ⟨inserted, dropped, w, -, hc, -, hmem, hok⟩⟩ :=
    writeTraces_cases (s := s.withFaults faults) batch refreshedAt now hsaved hs'
  · refine Or.inl ⟨fun h => hfailed h.1 h.2, ?_, ?_⟩
    · rw [hmem]
      exact hp.dispatched
    · rw [hdb, hp.rest]
      rfl
  · change CommittedTraces (batch.spans.filter fun r => !s.db.tombstoned r.traceID)
      now inserted dropped p.db s'.db w at hc
    have hspans : p.db.spans = s.db.spans := by
      rw [hp.rest]
      rfl
    have hinvp : TraceInv Counts p.db := hinv.prepared (s := s.withFaults faults) hp
    refine Or.inr ⟨hok, inserted, dropped, w, ?_, ?_, ?_, ?_, ?_, ?_, hc.retained, ?_,
      hc.summaries_nodup, hc.mem_summaries, fun id => ?_, fun r hr => ?_⟩
    · rw [hmem]
      exact congrArg (· ++ _) hp.dispatched
    · intro r
      have htrace : ∀ x y : SpanRow, x.key = y.key →
          (!s.db.tombstoned x.traceID) = !s.db.tombstoned y.traceID := by
        intro x y hxy
        have hid : x.traceID = y.traceID := congrArg Prod.fst hxy
        rw [hid]
      rw [hinvp.mem_inserted_iff hc, hspans, firstOfKey_filter htrace, and_assoc,
        Bool.not_eq_true']
      exact and_congr_right fun _ => and_comm
    · obtain ⟨keys, -, rfl⟩ := hc.inserted_eq
      exact (distinctBy_sublist _ _).trans List.filter_sublist
    · obtain ⟨keys, -, rfl⟩ := hc.inserted_eq
      exact distinctBy_keys_nodup _ _
    · rw [hc.wrote.spans, hspans]
    · intro id
      rw [hc.wrote.dropped_iff]
      refine and_congr_right fun hid => ?_
      have hcount : (mergedState p.db inserted now id).spanCount = _ :=
        (summarySpec_counts sub).spanCount
          (hinvp.merged (summarySpec_counts sub) now hid)
      rw [hcount, List.length_append, List.length_map, hspans]
    · intro id
      rw [hc.droppedTraceIDs, mem_sortStrings]
    · rw [hc.wrote.tombstoned, hp.tombstoned]
      rfl
    · rw [hc.retained, List.mem_filter, decide_eq_true_eq] at hr
      obtain ⟨hr, hkept⟩ := hr
      have hnew := ((hinvp.mem_inserted_iff hc).mp hr).2
      obtain ⟨keys, -, rfl⟩ := hc.inserted_eq
      exact hc.wrote.linksFrom_inserted hinvp (distinctBy_keys_nodup _ _) hr hnew hkept

/-- What a batch that commits with the event `ev` adds to the spans. -/
structure AddsNewSpans (batch : List SpanRow) (now : Time) (ev : TraceBatch)
    (db db' : Db V) : Prop where
  sublist : ev.spans.Sublist batch
  keys_nodup : (ev.spans.map SpanRow.key).Nodup
  mem_iff : ∀ r, r ∈ ev.spans ↔ FirstOfKey SpanRow.key batch r ∧
    r.key ∉ db.spans.map StoredSpan.key ∧ db.tombstoned r.traceID = false ∧
      r.traceID ∉ ev.droppedTraceIDs
  spans : db'.spans =
    (db.spans.filter fun sp => sp.traceID ∉ ev.droppedTraceIDs) ++
      ev.spans.map fun r => r.stored now
  summaries : (ev.summaries.map TraceSummary.traceID).Perm
    (distinctTraceIDsForRows ev.spans)
  links : ∀ r ∈ ev.spans, db'.linksFrom r.key = r.storedLinks

theorem BatchCommits.addsNewSpans
    {batch : TraceBatch} {now : Time} {s s' : Store V} {inserted : List SpanRow}
    {dropped : List String} {w : WrittenTraces}
    (h : BatchCommits batch now s s' inserted dropped w) :
    AddsNewSpans batch.spans now (w.event batch) s.db s'.db := by
  have hsub : w.retained.Sublist inserted := by
    rw [h.retained]
    exact List.filter_sublist
  have hdropped : ∀ id, id ∈ (w.event batch).droppedTraceIDs ↔ id ∈ dropped :=
    h.mem_droppedTraceIDs
  refine ⟨hsub.trans h.sublist, (hsub.map _).nodup h.keys_nodup, ?_, ?_, ?_, h.links⟩
  · intro r
    change r ∈ w.retained ↔ _
    rw [h.retained, List.mem_filter, decide_eq_true_eq, h.mem_inserted, hdropped]
    tauto
  · change _ = _ ++ w.retained.map fun r => r.stored now
    rw [h.spans, h.retained, List.filter_append, List.filter_map]
    simp only [hdropped]
    rfl
  · refine (List.perm_ext_iff_of_nodup h.summaries_nodup
      (distinctTraceIDsForRows_nodup _)).mpr fun id => ?_
    rw [h.mem_summaries, mem_distinctTraceIDsForRows]
    rfl

/-- A batch that commits adds its new spans and dispatches one event; one that does not changes
no span and dispatches nothing. -/
theorem writeTraces_addsNewSpans
    {s : Store V} (hs : Reachable sub (fun _ => True) s)
    (batch : TraceBatch) (refreshedAt now : Time) (faults : List Bool)
    {s' : Store V} (hs' : s' = s.after sub (.writeTraces batch refreshedAt now) faults) :
    ¬ s.CommitsBatch sub batch refreshedAt now faults ∧
        s'.db.spans = s.db.spans ∧ s'.mem.dispatched = s.mem.dispatched ∨
      s.CommitsBatch sub batch refreshedAt now faults ∧
        ∃ ev, s'.mem.dispatched = s.mem.dispatched ++ [.traces ev] ∧
          AddsNewSpans batch.spans now ev s.db s'.db := by
  rcases writeTraces_commits hs batch refreshedAt now faults hs' with
    ⟨hfailed, hd, hspans⟩ | ⟨hok, inserted, dropped, w, hc⟩
  · exact Or.inl ⟨hfailed, hspans, hd⟩
  · exact Or.inr ⟨hok, _, hc.event, hc.addsNewSpans⟩

/-! ### Oversized traces -/

/-- The number of distinct spans of a trace, stored ones and ones of the batch. -/
def distinctSpanCount (db : Db V) (batch : List SpanRow) (id : String) : Nat :=
  ((traceRows db.spans id).map StoredSpan.spanID ++
    (batch.filter fun r => r.traceID = id).map SpanRow.spanID).dedup.length

/-- Every key of a list has a first element. -/
theorem exists_firstOfKey
    {batch : List SpanRow} {r : SpanRow} (hr : r ∈ batch) :
    ∃ x, FirstOfKey SpanRow.key batch x ∧ x.key = r.key := by
  have hnew : r.key ∉ ([] : List (String × String)) := by simp
  obtain ⟨x, hx, hk⟩ := exists_mem_distinctBy hr hnew
  exact ⟨x, (mem_distinctBy.mp hx).1, hk⟩

theorem BatchCommits.distinctSpanCount_eq
    {batch : TraceBatch} {now : Time} {s s' : Store V} {inserted : List SpanRow}
    {dropped : List String} {w : WrittenTraces}
    (h : BatchCommits batch now s s' inserted dropped w)
    (hkeys : (s.db.spans.map StoredSpan.key).Nodup)
    {id : String} (hid : s.db.tombstoned id = false) :
    distinctSpanCount s.db batch.spans id =
      (traceRows s.db.spans id).length +
        (inserted.filter fun r => r.traceID = id).length := by
  have hstored : ∀ {sid : String}, sid ∈ (traceRows s.db.spans id).map StoredSpan.spanID ↔
      (id, sid) ∈ s.db.spans.map StoredSpan.key := by
    intro sid
    simp only [List.mem_map, mem_traceRows]
    constructor
    · rintro ⟨sp, ⟨hsp, hspid⟩, rfl⟩
      exact ⟨sp, hsp, Prod.ext hspid rfl⟩
    · rintro ⟨sp, hsp, hk⟩
      exact ⟨sp, ⟨hsp, congrArg Prod.fst hk⟩, congrArg Prod.snd hk⟩
  have hnew : ∀ {r : SpanRow}, r ∈ inserted.filter (fun r => r.traceID = id) ↔
      r ∈ inserted ∧ r.traceID = id := by
    intro r
    simp
  have hinsNodup : ((inserted.filter fun r => r.traceID = id).map SpanRow.spanID).Nodup := by
    have hk : ((inserted.filter fun r => r.traceID = id).map SpanRow.key).Nodup :=
      (List.filter_sublist.map _).nodup h.keys_nodup
    refine List.Nodup.of_map (fun sid => (id, sid)) ?_
    rw [List.map_map]
    have : (inserted.filter fun r => r.traceID = id).map SpanRow.key =
        (inserted.filter fun r => r.traceID = id).map ((fun sid => (id, sid)) ∘ SpanRow.spanID) :=
      List.map_congr_left fun r hr => Prod.ext (hnew.mp hr).2 rfl
    rwa [← this]
  unfold distinctSpanCount
  have hperm : ((traceRows s.db.spans id).map StoredSpan.spanID ++
      (batch.spans.filter fun r => r.traceID = id).map SpanRow.spanID).dedup.Perm
      ((traceRows s.db.spans id).map StoredSpan.spanID ++
        (inserted.filter fun r => r.traceID = id).map SpanRow.spanID) := by
    refine (List.perm_ext_iff_of_nodup (List.nodup_dedup _) ?_).mpr fun sid => ?_
    · refine List.nodup_append'.mpr ⟨traceRows_spanIDs_nodup hkeys id, hinsNodup, ?_⟩
      intro sid hst hin
      obtain ⟨r, hr, rfl⟩ := List.mem_map.mp hin
      obtain ⟨hri, rfl⟩ := hnew.mp hr
      exact ((h.mem_inserted r).mp hri).2.1 (hstored.mp hst)
    · rw [List.mem_dedup, List.mem_append, List.mem_append]
      by_cases hst : sid ∈ (traceRows s.db.spans id).map StoredSpan.spanID
      · simp only [hst, true_or]
      · simp only [hst, false_or]
        constructor
        · intro hb
          obtain ⟨r, hr, rfl⟩ := List.mem_map.mp hb
          rw [List.mem_filter, decide_eq_true_eq] at hr
          obtain ⟨hr, rfl⟩ := hr
          obtain ⟨x, hx, hk⟩ := exists_firstOfKey hr
          have hxid : x.traceID = r.traceID := congrArg Prod.fst hk
          refine List.mem_map.mpr ⟨x, hnew.mpr ⟨(h.mem_inserted x).mpr ⟨hx, ?_, ?_⟩, hxid⟩,
            congrArg Prod.snd hk⟩
          · rw [hk]
            exact fun hin => hst (hstored.mpr hin)
          · rwa [hxid]
        · intro hin
          obtain ⟨r, hr, rfl⟩ := List.mem_map.mp hin
          obtain ⟨hr, hrid⟩ := hnew.mp hr
          refine List.mem_map.mpr ⟨r, List.mem_filter.mpr ⟨?_, by simpa using hrid⟩, rfl⟩
          exact h.sublist.mem hr
  rw [hperm.length_eq, List.length_append, List.length_map, List.length_map]

end Storage
end Otelop
