import Mathlib.Tactic
import Otelop.Storage.Runs

/-!
# The invariant of the trace tables

`TraceInv P db` relates the spans, their links, the summaries and the tombstones
of oversized traces.  What a summary says about the spans of its trace is the
parameter `P`: every notion that the incremental merge and the rebuild both
establish (`SummarySpec`) gives an invariant of all runs.

**Results.**
* `TraceInv.wrote`: a committed batch keeps the invariant.
* `TraceInv.factsDeleted`: a committed deletion keeps it, also one that takes a
  part of a trace.
* `traceInvariant`: every operation keeps it.
-/

namespace Otelop
namespace Storage

open Lib

variable {V : Type}

/-- `P spans row` is established by merging the spans one after another and by
the rebuild, and it determines the count. -/
structure SummarySpec (sub : Time → Time → Int)
    (P : List StoredSpan → TraceSummaryRow → Prop) : Prop where
  first : ∀ (r : SpanRow) (t : Time),
    P [r.stored t] (({} : TraceSummaryState).mergeSpan r t).row
  more : ∀ {spans : List StoredSpan} {state : TraceSummaryState} (r : SpanRow) (t : Time),
    P spans state.row → state.earliest.isSome = true →
      P (spans ++ [r.stored t]) (state.mergeSpan r t).row
  group : ∀ {id : String} {rows : List StoredSpan} {row : TraceSummaryRow},
    aggregateGroup sub id rows = some row → P rows row
  spanCount : ∀ {spans : List StoredSpan} {row : TraceSummaryRow},
    P spans row → row.spanCount = spans.length
  ne_nil : ∀ {spans : List StoredSpan} {row : TraceSummaryRow}, P spans row → spans ≠ []

/-- The weakest such notion: the row counts the spans, of which there are some. -/
def Counts (spans : List StoredSpan) (row : TraceSummaryRow) : Prop :=
  row.spanCount = spans.length ∧ spans ≠ []

theorem summarySpec_counts (sub : Time → Time → Int) : SummarySpec sub Counts where
  first := by
    intro r t
    exact ⟨rfl, by simp⟩
  more := by
    rintro spans state r t ⟨hcount, -⟩ -
    have : state.spanCount = spans.length := hcount
    exact ⟨by simp [TraceSummaryState.row, TraceSummaryState.mergeSpan, this], by simp⟩
  group := by
    intro id rows row h
    refine ⟨?_, ?_⟩
    · obtain ⟨_, _, _, _, _, _, _, _, rfl⟩ := aggregateGroup_eq_some_iff.mp h
      rfl
    · rintro rfl
      cases h
  spanCount := And.left
  ne_nil := And.right

/-- Where the database compares durations as Go does, a summary is the
aggregation of its spans. -/
theorem summarySpec_aggregates
    {sub : Time → Time → Int} (h : SubExact sub) :
    SummarySpec sub Aggregates where
  first := fun r t => (mergeSpan_tracks_first r t).aggregates
  more := fun r t hagg hsome => (mergeSpan_tracks ⟨hagg, hsome⟩ r t).aggregates
  group := fun hrow => aggregateGroup_aggregates h hrow
  spanCount := fun hagg => hagg.spanCount
  ne_nil := fun hagg => hagg.ne_nil

namespace SummarySpec

variable {sub : Time → Time → Int} {P : List StoredSpan → TraceSummaryRow → Prop}

theorem foldl_mergeSpan
    (h : SummarySpec sub P) (t : Time) :
    ∀ (rows : List SpanRow) {spans : List StoredSpan} {state : TraceSummaryState},
      P spans state.row → state.earliest.isSome = true →
        P (spans ++ rows.map fun r => r.stored t)
          (rows.foldl (fun st r => st.mergeSpan r t) state).row
  | [], spans, state, hP, _ => by simpa using hP
  | r :: rows, spans, state, hP, hsome => by
      have := foldl_mergeSpan h t rows (h.more r t hP hsome)
        (mergeSpan_earliest_isSome state r t)
      simpa using this

theorem foldl_mergeSpan_empty
    (h : SummarySpec sub P) (t : Time) {rows : List SpanRow} (hne : rows ≠ []) :
    P (rows.map fun r => r.stored t)
      (rows.foldl (fun st r => st.mergeSpan r t) ({} : TraceSummaryState)).row := by
  obtain ⟨r, rows, rfl⟩ := List.exists_cons_of_ne_nil hne
  exact foldl_mergeSpan h t rows (h.first r t) (mergeSpan_earliest_isSome _ r t)

end SummarySpec

/-- The invariant of the trace tables. -/
structure TraceInv (P : List StoredSpan → TraceSummaryRow → Prop) (db : Db V) : Prop where
  keys_nodup : (db.spans.map StoredSpan.key).Nodup
  summary : ∀ t ∈ db.traceSummaries.rows, P (traceRows db.spans t.traceID) t
  covered : ∀ s ∈ db.spans, ∃ t ∈ db.traceSummaries.rows, t.traceID = s.traceID
  kept : ∀ s ∈ db.spans, db.tombstoned s.traceID = false
  links : ∀ l ∈ db.spanLinks, ∃ s ∈ db.spans, s.key = (l.sourceTraceID, l.sourceSpanID)
  bounded : ∀ id, (traceRows db.spans id).length ≤ maxSpansPerTrace

namespace TraceInv

variable {sub : Time → Time → Int} {P : List StoredSpan → TraceSummaryRow → Prop}
  {db db' : Db V}

theorem empty : TraceInv P (Db.empty V) where
  keys_nodup := List.nodup_nil
  summary := fun t ht => by cases ht
  covered := fun s hs => by cases hs
  kept := fun s hs => by cases hs
  links := fun l hl => by cases hl
  bounded := fun _ => Nat.zero_le _

/-- The invariant reads the trace tables only. -/
theorem congr
    (h : TraceInv P db)
    (hspans : db'.spans = db.spans) (hlinks : db'.spanLinks = db.spanLinks)
    (hsummaries : db'.traceSummaries = db.traceSummaries)
    (htombstoned : ∀ id, db'.tombstoned id = db.tombstoned id) :
    TraceInv P db' where
  keys_nodup := by rw [hspans]; exact h.keys_nodup
  summary := by rw [hspans, hsummaries]; exact h.summary
  covered := by rw [hspans, hsummaries]; exact h.covered
  kept := by
    rw [hspans]
    intro s hs
    rw [htombstoned]
    exact h.kept s hs
  links := by rw [hspans, hlinks]; exact h.links
  bounded := by rw [hspans]; exact h.bounded

/-- A trace has a summary exactly when it has a span. -/
theorem exists_summary_iff
    (hP : SummarySpec sub P) (h : TraceInv P db) {id : String} :
    (∃ t ∈ db.traceSummaries.rows, t.traceID = id) ↔ ∃ s ∈ db.spans, s.traceID = id := by
  constructor
  · rintro ⟨t, ht, rfl⟩
    obtain ⟨s, hs⟩ := List.exists_mem_of_ne_nil _ (hP.ne_nil (h.summary t ht))
    exact ⟨s, mem_traceRows.mp hs⟩
  · rintro ⟨s, hs, rfl⟩
    exact h.covered s hs

/-- The lookup of `filterNewSpans` recognises exactly the stored keys. -/
theorem knownKeys_iff
    (h : TraceInv P db)
    {rows : List SpanRow} {keys : List (String × String)} (hk : KnownKeys db rows keys)
    {r : SpanRow} (hr : r ∈ rows) :
    r.key ∈ keys ↔ r.key ∈ db.spans.map StoredSpan.key := by
  rw [hk r hr]
  refine ⟨And.right, fun hstored => ⟨?_, hstored⟩⟩
  obtain ⟨s, hs, hkey⟩ := List.mem_map.mp hstored
  obtain ⟨t, ht, hid⟩ := h.covered s hs
  have hid' : t.traceID = r.traceID := hid.trans (congrArg Prod.fst hkey)
  rw [(KeyedTable.find?_eq_some_iff _).mpr ⟨ht, hid'⟩]
  rfl

/-- The spans of a trace after a batch was merged into its summary. -/
theorem merged
    (hP : SummarySpec sub P) (h : TraceInv P db)
    {inserted : List SpanRow} (ingestedAt : Time) {id : String}
    (hid : ∃ r ∈ inserted, r.traceID = id) :
    P (traceRows db.spans id ++
        (inserted.filter fun r => r.traceID = id).map fun r => r.stored ingestedAt)
      (mergedState db inserted ingestedAt id).row := by
  unfold mergedState
  cases hf : db.traceSummaries.find? id with
  | none =>
      have hnil : traceRows db.spans id = [] := by
        refine List.filter_eq_nil_iff.mpr fun s hs hsid => ?_
        obtain ⟨t, ht, htid⟩ := h.covered s hs
        refine (KeyedTable.find?_eq_none_iff _).mp hf t ht ?_
        rw [htid]
        simpa using hsid
      rw [hnil, List.nil_append]
      refine hP.foldl_mergeSpan_empty ingestedAt ?_
      obtain ⟨r, hr, hrid⟩ := hid
      exact List.ne_nil_of_mem (List.mem_filter.mpr ⟨hr, by simpa using hrid⟩)
  | some t =>
      obtain ⟨ht, rfl⟩ := (KeyedTable.find?_eq_some_iff _).mp hf
      exact hP.foldl_mergeSpan ingestedAt _ (h.summary t ht) rfl

theorem traceRows_append_stored
    (spans : List StoredSpan) (inserted : List SpanRow) (t : Time) (id : String) :
    traceRows (spans ++ inserted.map fun r => r.stored t) id =
      traceRows spans id ++ (inserted.filter fun r => r.traceID = id).map
        fun r => r.stored t := by
  unfold traceRows
  rw [List.filter_append, List.filter_map]
  rfl

theorem traceRows_filter_notMem
    (spans : List StoredSpan) (dropped : List String) (id : String) :
    traceRows (spans.filter fun s => s.traceID ∉ dropped) id =
      if id ∈ dropped then [] else traceRows spans id := by
  unfold traceRows
  rw [List.filter_filter]
  split
  · rename_i hid
    refine List.filter_eq_nil_iff.mpr fun s _ hs => ?_
    simp only [Bool.and_eq_true, decide_eq_true_eq] at hs
    exact hs.2 (hs.1 ▸ hid)
  · rename_i hid
    refine List.filter_congr fun s _ => ?_
    by_cases hs : s.traceID = id <;> simp [hs, hid]

/-- A committed batch keeps the invariant. -/
theorem wrote
    (hP : SummarySpec sub P) (h : TraceInv P db)
    {inserted : List SpanRow} {dropped : List String} {ingestedAt : Time}
    (hnodup : (inserted.map SpanRow.key).Nodup)
    (hnew : ∀ r ∈ inserted, r.key ∉ db.spans.map StoredSpan.key)
    (hkept : ∀ r ∈ inserted, db.tombstoned r.traceID = false)
    (hw : Wrote inserted dropped ingestedAt db db') :
    TraceInv P db' := by
  have hrows : ∀ id, traceRows db'.spans id = if id ∈ dropped then [] else
      traceRows db.spans id ++ (inserted.filter fun r => r.traceID = id).map
        fun r => r.stored ingestedAt := by
    intro id
    rw [hw.spans, traceRows_filter_notMem, traceRows_append_stored]
  have hmem : ∀ s, s ∈ db'.spans ↔
      (s ∈ db.spans ∨ ∃ r ∈ inserted, r.stored ingestedAt = s) ∧ s.traceID ∉ dropped := by
    intro s
    rw [hw.spans, List.mem_filter, List.mem_append, List.mem_map, decide_eq_true_eq]
  refine ⟨?_, ?_, ?_, ?_, ?_, ?_⟩
  · rw [hw.spans]
    refine (List.filter_sublist.map _).nodup ?_
    rw [List.map_append, List.map_map]
    refine List.nodup_append'.mpr ⟨h.keys_nodup, hnodup, ?_⟩
    intro k hk hk'
    obtain ⟨r, hr, rfl⟩ := List.mem_map.mp hk'
    exact hnew r hr hk
  · intro t ht
    obtain ⟨hnd, hcase⟩ := (hw.traceSummaries t).mp ht
    rw [hrows, if_neg hnd]
    rcases hcase with ⟨hid, heq⟩ | ⟨hid, hold⟩
    · have := h.merged hP ingestedAt hid
      rwa [← heq] at this
    · have hnone : (inserted.filter fun r => r.traceID = t.traceID) = [] := by
        refine List.filter_eq_nil_iff.mpr fun r hr hrid => ?_
        exact hid ⟨r, hr, by simpa using hrid⟩
      rw [hnone, List.map_nil, List.append_nil]
      exact h.summary t hold
  · intro s hs
    obtain ⟨hs, hnd⟩ := (hmem s).mp hs
    by_cases hid : ∃ r ∈ inserted, r.traceID = s.traceID
    · have htid : (mergedState db inserted ingestedAt s.traceID).row.traceID = s.traceID :=
        mergedState_traceID hid
      refine ⟨_, (hw.traceSummaries _).mpr ⟨?_, Or.inl ⟨?_, ?_⟩⟩, htid⟩
      · rwa [htid]
      · rwa [htid]
      · rw [htid]
    · rcases hs with hs | ⟨r, hr, rfl⟩
      · obtain ⟨t, ht, htid⟩ := h.covered s hs
        refine ⟨t, (hw.traceSummaries t).mpr ⟨?_, Or.inr ⟨?_, ht⟩⟩, htid⟩
        · rwa [htid]
        · rwa [htid]
      · exact absurd ⟨r, hr, rfl⟩ hid
  · intro s hs
    obtain ⟨hs, hnd⟩ := (hmem s).mp hs
    have hnt : db.tombstoned s.traceID = false := by
      rcases hs with hs | ⟨r, hr, rfl⟩
      · exact h.kept s hs
      · exact hkept r hr
    rw [← Bool.not_eq_true, hw.tombstoned, hnt]
    simpa using hnd
  · intro l hl
    rw [hw.spanLinks, List.mem_filter, List.mem_append, decide_eq_true_eq] at hl
    obtain ⟨hl, hnd⟩ := hl
    rcases hl with hl | hl
    · obtain ⟨s, hs, hkey⟩ := h.links l hl
      have hid : s.traceID = l.sourceTraceID := congrArg Prod.fst hkey
      exact ⟨s, (hmem s).mpr ⟨Or.inl hs, by rwa [hid]⟩, hkey⟩
    · obtain ⟨r, hr, hlr⟩ := List.mem_flatMap.mp hl
      obtain ⟨⟨link, n⟩, -, rfl⟩ := List.mem_map.mp hlr
      exact ⟨r.stored ingestedAt, (hmem _).mpr ⟨Or.inr ⟨r, hr, rfl⟩, hnd⟩, rfl⟩
  · intro id
    rw [hrows]
    split
    · exact Nat.zero_le _
    · rename_i hnd
      by_cases hid : ∃ r ∈ inserted, r.traceID = id
      · have hcount := hP.spanCount (h.merged hP ingestedAt hid)
        rw [← hcount]
        by_contra hlt
        exact hnd ((hw.dropped_iff id).mpr ⟨hid, not_le.mp hlt⟩)
      · have hnone : (inserted.filter fun r => r.traceID = id) = [] := by
          refine List.filter_eq_nil_iff.mpr fun r hr hrid => ?_
          exact hid ⟨r, hr, by simpa using hrid⟩
        rw [hnone, List.map_nil, List.append_nil]
        exact h.bounded id

theorem traceRows_sublist
    {spans spans' : List StoredSpan} (h : spans'.Sublist spans) (id : String) :
    (traceRows spans' id).Sublist (traceRows spans id) :=
  h.filter _

/-- A committed deletion keeps the invariant. -/
theorem factsDeleted
    (hP : SummarySpec sub P) (h : TraceInv P db)
    {cutoff : Time} (hd : FactsDeleted sub cutoff db db') :
    TraceInv P db' := by
  have hsub : db'.spans.Sublist db.spans := by
    rw [hd.spans]
    exact List.filter_sublist
  have hkeys : (db'.spans.map StoredSpan.key).Nodup := (hsub.map _).nodup h.keys_nodup
  have hmem : ∀ s, s ∈ db'.spans ↔ s ∈ db.spans ∧ ¬ s.startTS < cutoff := by
    intro s
    rw [hd.spans, List.mem_filter, decide_eq_true_eq]
  have hexpired : ∀ s, s ∈ expiredSpans cutoff db.spans ↔
      s ∈ db.spans ∧ s.startTS < cutoff := by
    intro s
    rw [expiredSpans, List.mem_filter, decide_eq_true_eq]
  refine ⟨hkeys, ?_, ?_, ?_, ?_, ?_⟩
  · intro t ht
    rcases (hd.traceSummaries t).mp ht with ⟨hold, hna⟩ | hre
    · have hrows : traceRows db'.spans t.traceID = traceRows db.spans t.traceID := by
        rw [hd.spans]
        unfold traceRows
        rw [List.filter_filter]
        refine List.filter_congr fun s hs => ?_
        by_cases hid : s.traceID = t.traceID
        · have : ¬ s.startTS < cutoff := fun hlt =>
            hna (mem_distinctTraceIDs.mpr ⟨s, (hexpired s).mpr ⟨hs, hlt⟩, hid⟩)
          simp [hid, this]
        · simp [hid]
      rw [hrows]
      exact h.summary t hold
    · obtain ⟨id, -, hrow⟩ := (mem_rebuildTraceSummaries hkeys).mp hre
      rw [aggregateGroup_traceID hrow]
      exact hP.group hrow
  · intro s hs
    by_cases haff : s.traceID ∈ distinctTraceIDs (expiredSpans cutoff db.spans)
    · have hne : traceRows db'.spans s.traceID ≠ [] :=
        List.ne_nil_of_mem (mem_traceRows.mpr ⟨hs, rfl⟩)
      obtain ⟨row, hrow⟩ := exists_aggregateGroup sub s.traceID hne
      refine ⟨row, (hd.traceSummaries row).mpr (Or.inr ?_), aggregateGroup_traceID hrow⟩
      exact (mem_rebuildTraceSummaries hkeys).mpr ⟨_, haff, hrow⟩
    · obtain ⟨t, ht, hid⟩ := h.covered s ((hmem s).mp hs).1
      exact ⟨t, (hd.traceSummaries t).mpr (Or.inl ⟨ht, by rwa [hid]⟩), hid⟩
  · intro s hs
    have hkept := h.kept s ((hmem s).mp hs).1
    rw [← Bool.not_eq_true, Db.tombstoned_iff] at hkept ⊢
    rintro ⟨d, hdm, hid⟩
    rw [hd.droppedTraces, KeyedTable.mem_delete] at hdm
    exact hkept ⟨d, hdm.1, hid⟩
  · intro l hl
    rw [hd.spanLinks, List.mem_filter, decide_eq_true_eq] at hl
    obtain ⟨s, hs, hkey⟩ := h.links l hl.1
    refine ⟨s, (hmem s).mpr ⟨hs, fun hlt => ?_⟩, hkey⟩
    exact hl.2 (List.mem_map.mpr ⟨s, (hexpired s).mpr ⟨hs, hlt⟩, hkey⟩)
  · intro id
    exact (traceRows_sublist hsub id).length_le.trans (h.bounded id)

/-- A rebuild of the whole table keeps the invariant. -/
theorem rebuiltAll
    (hP : SummarySpec sub P) (h : TraceInv P db)
    (hmem : ∀ t, t ∈ db'.traceSummaries.rows ↔
      t ∈ rebuildTraceSummaries sub db.spans (distinctTraceIDs db.spans))
    (hrest : db' = { db with
      traceSummaries := db'.traceSummaries, affectedTraces := db'.affectedTraces }) :
    TraceInv P db' := by
  have hspans : db'.spans = db.spans := by rw [hrest]
  have hlinks : db'.spanLinks = db.spanLinks := by rw [hrest]
  have htomb : ∀ id, db'.tombstoned id = db.tombstoned id := by
    intro id
    rw [hrest]
    rfl
  refine ⟨hspans ▸ h.keys_nodup, ?_, ?_, ?_, ?_, hspans ▸ h.bounded⟩
  · intro t ht
    obtain ⟨id, -, hrow⟩ := (mem_rebuildTraceSummaries h.keys_nodup).mp ((hmem t).mp ht)
    rw [hspans, aggregateGroup_traceID hrow]
    exact hP.group hrow
  · intro s hs
    rw [hspans] at hs
    have hne : traceRows db.spans s.traceID ≠ [] :=
      List.ne_nil_of_mem (mem_traceRows.mpr ⟨hs, rfl⟩)
    obtain ⟨row, hrow⟩ := exists_aggregateGroup sub s.traceID hne
    refine ⟨row, (hmem row).mpr ?_, aggregateGroup_traceID hrow⟩
    refine (mem_rebuildTraceSummaries h.keys_nodup).mpr ⟨s.traceID, ?_, hrow⟩
    exact mem_distinctTraceIDs.mpr ⟨s, hs, rfl⟩
  · intro s hs
    rw [htomb]
    exact h.kept s (hspans ▸ hs)
  · intro l hl
    rw [hspans]
    exact h.links l (hlinks ▸ hl)

/-- What comes before the write transaction keeps the invariant. -/
theorem prepared
    {s p : Store V} (h : TraceInv P s.db) (hp : Prepared s p) :
    TraceInv P p.db := by
  refine h.congr ?_ ?_ ?_ hp.tombstoned <;> rw [hp.rest]

/-- The rows a batch inserts: the first row of each key of the batch that is not
stored and whose trace has no tombstone. -/
theorem mem_newRows_iff
    (h : TraceInv P db) {rows inserted : List SpanRow}
    (hins : ∃ keys, KnownKeys db rows keys ∧ inserted = distinctBy SpanRow.key keys rows)
    {r : SpanRow} :
    r ∈ inserted ↔
      FirstOfKey SpanRow.key rows r ∧ r.key ∉ db.spans.map StoredSpan.key := by
  obtain ⟨keys, hkeys, rfl⟩ := hins
  rw [mem_distinctBy]
  refine and_congr_right fun hfirst => ?_
  rw [h.knownKeys_iff hkeys hfirst.mem]

theorem mem_inserted_iff
    (h : TraceInv P db)
    {rows inserted : List SpanRow} {dropped : List String} {now : Time} {w : WrittenTraces}
    (hc : CommittedTraces rows now inserted dropped db db' w) {r : SpanRow} :
    r ∈ inserted ↔
      FirstOfKey SpanRow.key rows r ∧ r.key ∉ db.spans.map StoredSpan.key :=
  h.mem_newRows_iff hc.inserted_eq

/-- A batch keeps the invariant, on the tables the transaction found. -/
theorem wroteBatch
    (hP : SummarySpec sub P) (h : TraceInv P db)
    {batch inserted : List SpanRow} {dropped : List String} {now : Time}
    (hins : ∃ keys, KnownKeys db (batch.filter fun r => !db.tombstoned r.traceID) keys ∧
      inserted = distinctBy SpanRow.key keys (batch.filter fun r => !db.tombstoned r.traceID))
    (hw : Wrote inserted dropped now db db') :
    TraceInv P db' := by
  refine h.wrote hP ?_ ?_ ?_ hw
  · obtain ⟨keys, -, rfl⟩ := hins
    exact distinctBy_keys_nodup _ _
  · exact fun r hr => ((h.mem_newRows_iff hins).mp hr).2
  · intro r hr
    have := (List.mem_filter.mp ((h.mem_newRows_iff hins).mp hr).1.mem).2
    simpa using this

/-- A committed batch keeps the invariant, on the tables the transaction found. -/
theorem committed
    (hP : SummarySpec sub P) (h : TraceInv P db)
    {batch inserted : List SpanRow} {dropped : List String} {now : Time} {w : WrittenTraces}
    (hc : CommittedTraces (batch.filter fun r => !db.tombstoned r.traceID) now
      inserted dropped db db' w) :
    TraceInv P db' :=
  h.wroteBatch hP hc.inserted_eq hc.wrote

end TraceInv

section Runs

open Stmt

variable {sub : Time → Time → Int} {P : List StoredSpan → TraceSummaryRow → Prop}

/-- Every operation keeps the invariant, whatever fails in it. -/
theorem traceInvariant (hP : SummarySpec sub P) :
    Invariant sub (fun _ => True)
      (fun s : Store V => s.saved = none ∧ TraceInv P s.db) where
  between :=
    { saved := fun s h => h.1
      congr := fun s t h hdb _ hsaved => ⟨hsaved, hdb ▸ h.2⟩ }
  new := ⟨rfl, TraceInv.empty⟩
  writeTraces := by
    rintro batch refreshedAt now - s ⟨hsaved, h⟩
    obtain ⟨p, hp, hnone, hdone | ⟨inserted, dropped, w, -, hc, -⟩⟩ :=
      writeTraces_cases batch refreshedAt now hsaved rfl
    · exact ⟨hnone, hdone.1 ▸ h.prepared hp⟩
    · simp only [← hp.tombstoned] at hc
      exact ⟨hnone, (h.prepared hp).committed hP hc⟩
  writeMetrics := by
    rintro batch now ingestedAt - s ⟨hsaved, h⟩
    obtain ⟨hnone, hdone | ⟨hw, -⟩⟩ := writeMetrics_cases batch now ingestedAt hsaved rfl
    · exact ⟨hnone, hdone.1 ▸ h⟩
    · refine ⟨hnone, h.congr ?_ ?_ ?_ ?_⟩ <;> rw [hw.rest]
      · rfl
      · rfl
      · rfl
      · exact fun _ => rfl
  writeLogs := by
    rintro batch now - s ⟨hsaved, h⟩
    obtain ⟨p, rows, hp, hnone, -, hdb, -⟩ := writeLogs_cases batch now (s := s) rfl
    refine ⟨hnone.trans hsaved, (h.prepared hp.prepared).congr ?_ ?_ ?_ ?_⟩ <;> rw [hdb]
    exact fun _ => rfl
  deleteFacts := fun cutoff =>
    deleteFactsBefore_preserves
      { saved := fun s h => h.1
        congr := fun s t h hdb _ hsaved => ⟨hsaved, hdb ▸ h.2⟩ }
      cutoff fun _ _ h hd hsaved _ => ⟨hsaved, h.2.factsDeleted hP hd⟩
  prune :=
    pruneDimensions_preserves fun s s' h hp => by
      refine ⟨hp.saved.trans h.1, h.2.congr ?_ ?_ ?_ ?_⟩ <;> rw [hp.rest]
      exact fun _ => rfl
  rebuildAll :=
    rebuildAllTraceSummaries_preserves
      { saved := fun s h => h.1
        congr := fun s t h hdb _ hsaved => ⟨hsaved, hdb ▸ h.2⟩ }
      fun _ _ h hmem hrest hsaved _ => ⟨hsaved, h.2.rebuiltAll hP hmem hrest⟩
  clear := by
    rintro s s' ⟨hsaved, -⟩ hr
    obtain ⟨hdb, hs', -⟩ := performClear_returns hr
    refine ⟨hs'.trans hsaved, ?_⟩
    rw [hdb]
    exact TraceInv.empty.congr rfl rfl rfl fun _ => rfl

theorem Reachable.traceInv
    (hP : SummarySpec sub P) {s : Store V}
    (hs : Reachable sub (fun _ => True) s) :
    s.saved = none ∧ TraceInv P s.db :=
  hs.invariant (traceInvariant hP)

end Runs

end Storage
end Otelop
