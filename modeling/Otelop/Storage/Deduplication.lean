import Mathlib.Tactic
import Otelop.Storage.Acceptance

/-!
# What every committed batch of traces guarantees

The keys of the spans, and the tombstones of the traces that grew over the limit, in every
reachable state and for every batch that is written in it.  A batch commits when its call returns
no error and some of its rows belong to traces without a tombstone.

**Results.**
* `spans_deduplicated`: no span is stored twice, and a batch that commits adds exactly its new
  spans.
* `oversizedTraces_consistent`: a tombstoned trace has no rows, and the event of a batch reports
  the traces it pushed over the limit.
-/

namespace Otelop
namespace Storage

open Lib

variable {V : Type} {sub : Time → Time → Int}

/-- In every reachable state the keys of the spans are distinct.  A batch that commits
dispatches one event and adds exactly the first row of every new key of a trace that is kept; any
other batch changes no span and dispatches nothing.  A batch that names its own resources is
refused only by a fault, in a run of such batches. -/
theorem spans_deduplicated
    {s : Store V} (hs : Reachable sub (fun _ => True) s) :
    (s.db.spans.map StoredSpan.key).Nodup ∧
      ∀ (batch : TraceBatch) (refreshedAt now : Time),
        (∀ faults : List Bool,
          let s' := s.after sub (.writeTraces batch refreshedAt now) faults
          (s.CommitsBatch sub batch refreshedAt now faults →
            ∃ ev, s'.mem.dispatched = s.mem.dispatched ++ [.traces ev] ∧
              AddsNewSpans batch.spans now ev s.db s'.db) ∧
          (¬ s.CommitsBatch sub batch refreshedAt now faults →
            s'.db.spans = s.db.spans ∧ s'.mem.dispatched = s.mem.dispatched)) ∧
        (SubExact sub → Reachable sub Op.Closed s → batch.Closed → batch.HasKept s.db →
          s.CommitsBatch sub batch refreshedAt now []) := by
  refine ⟨(hs.traceInv (summarySpec_counts sub)).2.keys_nodup, ?_⟩
  intro batch refreshedAt now
  refine ⟨fun faults => ?_, fun hsub hclosed hbatch hkept => ⟨?_, hkept⟩⟩
  · rcases writeTraces_addsNewSpans hs batch refreshedAt now faults rfl with
      ⟨hfailed, hsame⟩ | ⟨hok, hadds⟩
    · exact ⟨fun h => absurd h hfailed, fun _ => hsame⟩
    · exact ⟨fun _ => hadds, fun h => absurd hok h⟩
  · exact (hclosed.storeInv hsub).succeeds hsub hbatch

/-- The event of a batch reports as dropped the traces without a tombstone that had too many
distinct spans, stored ones and ones of the batch. -/
theorem mem_droppedTraceIDs_iff
    {s : Store V} (hs : Reachable sub (fun _ => True) s)
    {batch : TraceBatch} {refreshedAt now : Time} {faults : List Bool} {ev : TraceBatch}
    (hev : (s.after sub (.writeTraces batch refreshedAt now) faults).mem.dispatched =
      s.mem.dispatched ++ [.traces ev]) (id : String) :
    id ∈ ev.droppedTraceIDs ↔ s.db.tombstoned id = false ∧
      maxSpansPerTrace < distinctSpanCount s.db batch.spans id := by
  have hinv := (hs.traceInv (summarySpec_counts sub)).2
  rcases writeTraces_commits hs batch refreshedAt now faults rfl with
    ⟨-, hd, -⟩ | ⟨-, inserted, dropped, w, hc⟩
  · rw [hd] at hev
    exact absurd (List.self_eq_append_right.mp hev) (List.cons_ne_nil _ _)
  · cases List.append_cancel_left (hev.symm.trans hc.event)
    change id ∈ w.droppedTraceIDs ↔ _
    rw [hc.mem_droppedTraceIDs, hc.oversized]
    constructor
    · rintro ⟨⟨r, hr, rfl⟩, hlt⟩
      have hnt := ((hc.mem_inserted r).mp hr).2.2
      exact ⟨hnt, by rwa [hc.distinctSpanCount_eq hinv.keys_nodup hnt]⟩
    · rintro ⟨hnt, hlt⟩
      rw [hc.distinctSpanCount_eq hinv.keys_nodup hnt] at hlt
      refine ⟨?_, hlt⟩
      by_contra hnone
      have hnil : (inserted.filter fun r => r.traceID = id) = [] := by
        refine List.filter_eq_nil_iff.mpr fun r hr hrid => ?_
        exact hnone ⟨r, hr, by simpa using hrid⟩
      rw [hnil, List.length_nil, Nat.add_zero] at hlt
      exact absurd (hinv.bounded id) (not_le.mpr hlt)

/-- In every reachable state a tombstoned trace has no span, summary or link and
no trace is over the limit; the event of a batch reports exactly the traces the
batch pushed over the limit as dropped, and nothing of them, or of a tombstoned
trace, as kept. -/
theorem oversizedTraces_consistent
    {s : Store V} (hs : Reachable sub (fun _ => True) s) :
    (∀ id, s.db.tombstoned id = true →
        (∀ sp ∈ s.db.spans, sp.traceID ≠ id) ∧
        (∀ t ∈ s.db.traceSummaries.rows, t.traceID ≠ id) ∧
        ∀ l ∈ s.db.spanLinks, l.sourceTraceID ≠ id) ∧
      (∀ id, (traceRows s.db.spans id).length ≤ maxSpansPerTrace) ∧
      ∀ (batch : TraceBatch) (refreshedAt now : Time) (faults : List Bool) (ev : TraceBatch),
        (s.after sub (.writeTraces batch refreshedAt now) faults).mem.dispatched =
          s.mem.dispatched ++ [.traces ev] →
        (∀ id, id ∈ ev.droppedTraceIDs ↔ s.db.tombstoned id = false ∧
          maxSpansPerTrace < distinctSpanCount s.db batch.spans id) ∧
        (∀ r ∈ ev.spans,
          r.traceID ∉ ev.droppedTraceIDs ∧ s.db.tombstoned r.traceID = false) ∧
        ∀ t ∈ ev.summaries,
          t.traceID ∉ ev.droppedTraceIDs ∧ s.db.tombstoned t.traceID = false := by
  have hP := summarySpec_counts sub
  have hinv := (hs.traceInv hP).2
  have hspan : ∀ id, s.db.tombstoned id = true → ∀ sp ∈ s.db.spans, sp.traceID ≠ id := by
    rintro id hid sp hsp rfl
    rw [hinv.kept sp hsp] at hid
    cases hid
  refine ⟨fun id hid => ⟨hspan id hid, ?_, ?_⟩, hinv.bounded, ?_⟩
  · intro t ht hteq
    obtain ⟨sp, hsp, hspid⟩ := (hinv.exists_summary_iff hP).mp ⟨t, ht, hteq⟩
    exact hspan id hid sp hsp hspid
  · intro l hl hleq
    obtain ⟨sp, hsp, hk⟩ := hinv.links l hl
    exact hspan id hid sp hsp ((congrArg Prod.fst hk).trans hleq)
  · intro batch refreshedAt now faults ev hev
    rcases writeTraces_addsNewSpans hs batch refreshedAt now faults rfl with
      ⟨-, -, hd⟩ | ⟨-, ev', hev', hadds⟩
    · rw [hd] at hev
      exact absurd (List.self_eq_append_right.mp hev) (List.cons_ne_nil _ _)
    · cases List.append_cancel_left (hev.symm.trans hev')
      have hkept : ∀ r ∈ ev.spans,
          r.traceID ∉ ev.droppedTraceIDs ∧ s.db.tombstoned r.traceID = false :=
        fun r hr => ⟨((hadds.mem_iff r).mp hr).2.2.2, ((hadds.mem_iff r).mp hr).2.2.1⟩
      refine ⟨mem_droppedTraceIDs_iff hs hev, hkept, fun t ht => ?_⟩
      have hid := hadds.summaries.mem_iff.mp (List.mem_map_of_mem ht)
      obtain ⟨r, hr, hrid⟩ := mem_distinctTraceIDsForRows.mp hid
      rw [← hrid]
      exact hkept r hr

/-! ### A trace over the limit -/

/-- So many spans of the trace `t`. -/
def longTrace (spanCount : Nat) : List SpanRow :=
  (List.range spanCount).map fun i => .bare "t" (String.ofList (List.replicate i 'a')) "" 0 10

theorem longTrace_traceID
    {spanCount : Nat} {r : SpanRow} (hr : r ∈ longTrace spanCount) :
    r.traceID = "t" ∧ r.resourceHash = 0 := by
  obtain ⟨i, -, rfl⟩ := List.mem_map.mp hr
  exact ⟨rfl, rfl⟩

theorem longTrace_spanIDs_nodup (spanCount : Nat) :
    ((longTrace spanCount).map SpanRow.spanID).Nodup := by
  rw [longTrace, List.map_map]
  refine List.nodup_range.map fun i j hij => ?_
  have hchars : List.replicate i 'a' = List.replicate j 'a' := String.ofList_injective hij
  simpa using congrArg List.length hchars

def longBatch (spanCount : Nat) : TraceBatch where
  resources := [⟨0, "checkout", .empty⟩]
  spans := longTrace spanCount
  summaries := []
  droppedTraceIDs := []

theorem longBatch_closed (spanCount : Nat) : (longBatch spanCount).Closed := by
  intro r hr
  exact ⟨_, List.mem_singleton_self _, (longTrace_traceID hr).2.symm⟩

theorem longBatch_hasKept {spanCount : Nat} (h : 0 < spanCount) :
    (longBatch spanCount).HasKept (Store.new Unit).db :=
  ⟨.bare "t" "" "" 0 10, List.mem_map.mpr ⟨0, List.mem_range.mpr h, rfl⟩, rfl⟩

theorem distinctSpanCount_longBatch (spanCount : Nat) :
    distinctSpanCount (Store.new Unit).db (longBatch spanCount).spans "t" = spanCount := by
  have hall : ((longTrace spanCount).filter fun r => r.traceID = "t") = longTrace spanCount := by
    refine List.filter_eq_self.mpr fun r hr => ?_
    rw [decide_eq_true_eq]
    exact (longTrace_traceID hr).1
  change distinctSpanCount _ (longTrace spanCount) "t" = _
  rw [distinctSpanCount, hall]
  change (([] : List String) ++ _).dedup.length = _
  rw [List.nil_append, (longTrace_spanIDs_nodup _).dedup, List.length_map, longTrace,
    List.length_map, List.length_range]

/-- What a trace over the limit leaves behind: a tombstone, and no span. -/
theorem longBatch_tombstoned
    {spanCount : Nat} (hlong : maxSpansPerTrace < spanCount) {s' : Store Unit}
    (hs' : s' = (Store.new Unit).after Time.sub (.writeTraces (longBatch spanCount) 100 101) []) :
    (∃ ev, s'.mem.dispatched = (Store.new Unit).mem.dispatched ++ [.traces ev]) ∧
      s'.db.spans = [] ∧
      ∀ id, s'.db.tombstoned id = true ↔ id = "t" := by
  have hkept : (longBatch spanCount).HasKept (Store.new Unit).db :=
    longBatch_hasKept (Nat.zero_lt_of_lt hlong)
  have hok : (Store.new Unit).CommitsBatch Time.sub (longBatch spanCount) 100 101 [] :=
    ⟨StoreInv.new.succeeds (fun _ _ _ _ => Iff.rfl) (longBatch_closed spanCount), hkept⟩
  rcases writeTraces_commits .new (longBatch spanCount) 100 101 [] hs' with
    ⟨hfailed, -⟩ | ⟨-, inserted, dropped, w, hc⟩
  · exact absurd hok hfailed
  have htrace : ∀ r ∈ inserted, r.traceID = "t" := fun r hr =>
    (longTrace_traceID (hc.sublist.mem hr)).1
  have hdropped : ∀ id, id ∈ dropped ↔ id = "t" := by
    intro id
    rw [hc.oversized]
    constructor
    · rintro ⟨⟨r, hr, rfl⟩, -⟩
      exact htrace r hr
    · rintro rfl
      have hkeptID : (Store.new Unit).db.tombstoned "t" = false := rfl
      have hcount := hc.distinctSpanCount_eq List.nodup_nil hkeptID
      rw [distinctSpanCount_longBatch] at hcount
      refine ⟨?_, hcount ▸ hlong⟩
      obtain ⟨r, hr, -⟩ := hkept
      obtain ⟨x, hx, -⟩ := exists_firstOfKey hr
      exact ⟨x, (hc.mem_inserted x).mpr ⟨hx, List.not_mem_nil, rfl⟩,
        (longTrace_traceID hx.mem).1⟩
  refine ⟨⟨_, hc.event⟩, ?_, fun id => ?_⟩
  · rw [hc.spans]
    refine List.filter_eq_nil_iff.mpr fun sp hsp => ?_
    obtain ⟨r, hr, rfl⟩ := List.mem_map.mp hsp
    rw [decide_eq_true_eq, not_not, hdropped]
    exact htrace r hr
  · rw [hc.tombstoned, hdropped]
    exact ⟨fun h => h.resolve_left nofun, Or.inr⟩

/-- The store after it received a trace over the limit. -/
def Store.oneTombstone : Store Unit :=
  (Store.new Unit).after Time.sub (.writeTraces (longBatch (maxSpansPerTrace + 1)) 100 101) []

theorem Store.oneTombstone_closed : Reachable Time.sub Op.Closed Store.oneTombstone :=
  .step _ _ .new (longBatch_closed _) nofun

theorem Store.oneTombstone_tombstoned :
    (∃ ev, Store.oneTombstone.mem.dispatched =
        (Store.new Unit).mem.dispatched ++ [.traces ev]) ∧
      Store.oneTombstone.db.spans = [] ∧
      ∀ id, Store.oneTombstone.db.tombstoned id = true ↔ id = "t" :=
  longBatch_tombstoned (Nat.lt_succ_self _) rfl

/-- Spans of the tombstoned trace and of a new one, one of them twice. -/
def secondBatch : TraceBatch where
  resources := [⟨0, "checkout", .empty⟩]
  spans := [.bare "t" "b" "" 5 9, .bare "u" "a" "" 0 10, .bare "u" "b" "a" 5 9,
    .bare "u" "a" "" 0 10]
  summaries := []
  droppedTraceIDs := []

/-- Of the second batch the two spans of the new trace are added, each once. -/
theorem spans_deduplicated_oneTombstone :
    ∃ ev, (Store.oneTombstone.after Time.sub (.writeTraces secondBatch 200 201) []).mem.dispatched
        = Store.oneTombstone.mem.dispatched ++ [.traces ev] ∧
      ∀ r, r ∈ ev.spans ↔ r = .bare "u" "a" "" 0 10 ∨ r = .bare "u" "b" "a" 5 9 := by
  obtain ⟨-, hspans, htomb⟩ := Store.oneTombstone_tombstoned
  obtain ⟨hruns, hcommits⟩ := (spans_deduplicated
    (Store.oneTombstone_closed.mono fun _ _ => trivial)).2 secondBatch 200 201
  have hu : Store.oneTombstone.db.tombstoned "u" = false := by
    rw [Bool.eq_false_iff, Ne, htomb]
    decide
  have hok := hcommits (fun _ _ _ _ => Iff.rfl) Store.oneTombstone_closed (by
    intro r hr
    refine ⟨_, List.mem_singleton_self _, ?_⟩
    revert r
    decide) ⟨.bare "u" "a" "" 0 10, by simp [secondBatch], hu⟩
  obtain ⟨ev, hev, hadds⟩ := (hruns []).1 hok
  refine ⟨ev, hev, fun r => ?_⟩
  have hnone : "u" ∉ ev.droppedTraceIDs := by
    rw [mem_droppedTraceIDs_iff (Store.oneTombstone_closed.mono fun _ _ => trivial) hev,
      distinctSpanCount, hspans]
    exact fun h => absurd h.2 (by decide)
  have ht : Store.oneTombstone.db.tombstoned "t" = true := (htomb "t").mpr rfl
  rw [hadds.mem_iff, hspans]
  have hfirst : FirstOfKey SpanRow.key secondBatch.spans r ↔ r = .bare "t" "b" "" 5 9 ∨
      r = .bare "u" "a" "" 0 10 ∨ r = .bare "u" "b" "a" 5 9 := by
    simp only [secondBatch, firstOfKey_cons]
    constructor
    · rintro (rfl | ⟨-, rfl | ⟨-, rfl | ⟨-, rfl | ⟨-, pre, post, hnil, -⟩⟩⟩⟩)
      · exact Or.inl rfl
      · exact Or.inr (Or.inl rfl)
      · exact Or.inr (Or.inr rfl)
      · exact Or.inr (Or.inl rfl)
      · exact absurd (congrArg List.length hnil) (by simp)
    · rintro (rfl | rfl | rfl) <;> simp [SpanRow.key, SpanRow.bare]
  rw [hfirst]
  constructor
  · rintro ⟨rfl | hr, -, hkept, -⟩
    · rw [SpanRow.bare, ht] at hkept
      cases hkept
    · exact hr
  · intro hr
    refine ⟨Or.inr hr, List.not_mem_nil, ?_⟩
    rcases hr with rfl | rfl <;> exact ⟨hu, hnone⟩

/-- The first batch drops the long trace; the second one cannot bring it back. -/
theorem oversizedTraces_consistent_oneTombstone :
    ∃ ev, Store.oneTombstone.mem.dispatched =
        (Store.new Unit).mem.dispatched ++ [.traces ev] ∧ "t" ∈ ev.droppedTraceIDs ∧
      (∀ r ∈ ev.spans, r.traceID ∉ ev.droppedTraceIDs) ∧
      ∀ l ∈ Store.oneTombstone.db.spanLinks, l.sourceTraceID ≠ "t" := by
  obtain ⟨⟨ev, hev⟩, -, htomb⟩ := Store.oneTombstone_tombstoned
  have hsent := hev
  rw [Store.oneTombstone] at hsent
  obtain ⟨hdropped, hkept, -⟩ :=
    (oversizedTraces_consistent (.new : Reachable Time.sub (fun _ => True) (Store.new Unit))).2.2
      (longBatch (maxSpansPerTrace + 1)) 100 101 [] ev hsent
  have hgone := (oversizedTraces_consistent
    (Store.oneTombstone_closed.mono fun _ _ => trivial)).1 "t" ((htomb "t").mpr rfl)
  refine ⟨ev, hev, (hdropped "t").mpr ⟨rfl, ?_⟩, fun r hr => (hkept r hr).1, hgone.2.2⟩
  rw [distinctSpanCount_longBatch]
  exact Nat.lt_succ_self _

end Storage
end Otelop
