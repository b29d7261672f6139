import Mathlib.Tactic
import Otelop.Storage.WriteTraces

/-!
# Writing a batch of traces: what a call does

`WriteTraces` has the functions of the source; here are their specifications.  A call first
upserts the resources and prepares the spans (those of tombstoned traces are filtered out,
oversized traces are dropped), and then stores the rest in one transaction, in which any
statement may fail.

`Prepared` says what the first part did, `CommittedTraces` what a committed transaction did
to every table, as a function of the tables before it, and `Wrote` what that means for the
spans and for the summaries.  Later modules use these and unfold no statement of the source:
an invariant is proved from `writeTraces_cases` alone.

**Results.**
* `writeTraceRows_returns`: what a committed transaction did to every table, as a function of
  the tables before it.
* `writeTraceRows_errorStays`: a failed one leaves the tables.
* `writeTraces_cases`: what a whole call may have done, committed or not.
-/

namespace Otelop
namespace Storage

open Lib

variable {V : Type}

/-! ### The merged summaries -/

section Merge

variable {rows : List SpanRow} {ingestedAt : Time}

/-- The rows a batch adds to one trace, folded into its stored summary. -/
def mergedState (db : Db V) (rows : List SpanRow) (ingestedAt : Time) (id : String) :
    TraceSummaryState :=
  (rows.filter fun r => r.traceID = id).foldl (fun st r => st.mergeSpan r ingestedAt)
    (((db.traceSummaries.find? id).map TraceSummaryRow.state).getD {})

/-- The merged state of a trace has its rows, one after the other. -/
theorem mergeTraceSummaryStates_getD
    (ingestedAt : Time) (id : String) :
    ∀ (rows : List SpanRow) (existing : String → Option TraceSummaryState),
      (mergeTraceSummaryStates existing rows ingestedAt id).getD {} =
        (rows.filter fun r => r.traceID = id).foldl
          (fun st r => st.mergeSpan r ingestedAt) ((existing id).getD {})
  | [], existing => rfl
  | r :: rows, existing => by
      have ih := mergeTraceSummaryStates_getD ingestedAt id rows
      unfold mergeTraceSummaryStates at ih ⊢
      rw [List.foldl_cons, ih]
      by_cases hr : r.traceID = id
      · subst hr
        rw [List.filter_cons_of_pos (by simp), List.foldl_cons, Function.update_self]
        rfl
      · rw [List.filter_cons_of_neg (by simpa using hr),
          Function.update_of_ne (Ne.symm hr)]

/-- A trace has a state when it had one or has a row. -/
theorem mergeTraceSummaryStates_isSome
    (ingestedAt : Time) (id : String) :
    ∀ (rows : List SpanRow) (existing : String → Option TraceSummaryState),
      (mergeTraceSummaryStates existing rows ingestedAt id).isSome = true ↔
        (existing id).isSome = true ∨ ∃ r ∈ rows, r.traceID = id
  | [], existing => by simp [mergeTraceSummaryStates]
  | r :: rows, existing => by
      have ih := mergeTraceSummaryStates_isSome ingestedAt id rows
      unfold mergeTraceSummaryStates at ih ⊢
      rw [List.foldl_cons, ih]
      by_cases hr : r.traceID = id
      · subst hr
        simp
      · rw [Function.update_of_ne (Ne.symm hr)]
        simp [hr]

/-- The merge at a trace of the batch. -/
theorem mergeTraceSummaryStates_eq_mergedState
    {db : Db V} {existing : String → Option TraceSummaryState} {id : String}
    (hid : ∃ r ∈ rows, r.traceID = id)
    (hex : existing id = (db.traceSummaries.find? id).map TraceSummaryRow.state) :
    mergeTraceSummaryStates existing rows ingestedAt id =
      some (mergedState db rows ingestedAt id) := by
  have hsome := (mergeTraceSummaryStates_isSome ingestedAt id rows existing).mpr
    (Or.inr hid)
  obtain ⟨state, hstate⟩ := Option.isSome_iff_exists.mp hsome
  have hget := mergeTraceSummaryStates_getD ingestedAt id rows existing
  rw [hstate, Option.getD_some, hex] at hget
  rw [hstate, hget]
  rfl

/-- Merging the rows of one trace keeps its id. -/
theorem foldl_mergeSpan_traceID_of_all
    {id : String} :
    ∀ {rows : List SpanRow} {state : TraceSummaryState}, rows ≠ [] →
      (∀ r ∈ rows, r.traceID = id) → (state.spanCount ≠ 0 → state.traceID = id) →
      (rows.foldl (fun st r => st.mergeSpan r ingestedAt) state).traceID = id
  | [], _, hne, _, _ => absurd rfl hne
  | r :: rows, state, _, hall, hst => by
      rw [List.foldl_cons, foldl_mergeSpan_traceID _ _ (by simp [TraceSummaryState.mergeSpan])]
      by_cases hzero : state.spanCount = 0
      · simpa [TraceSummaryState.mergeSpan, hzero] using hall r (by simp)
      · simpa [TraceSummaryState.mergeSpan, hzero] using hst hzero

theorem mergedState_traceID
    {db : Db V} {id : String} (hid : ∃ r ∈ rows, r.traceID = id) :
    (mergedState db rows ingestedAt id).traceID = id := by
  refine foldl_mergeSpan_traceID_of_all ?_ (by simp) ?_
  · obtain ⟨r, hr, hrid⟩ := hid
    exact List.ne_nil_of_mem (List.mem_filter.mpr ⟨hr, by simpa using hrid⟩)
  · intro hpos
    cases hf : db.traceSummaries.find? id with
    | none => simp [hf] at hpos
    | some row => exact ((KeyedTable.find?_eq_some_iff _).mp hf).2

end Merge

@[simp] theorem mem_sortStrings {l : List String} {x : String} :
    x ∈ sortStrings l ↔ x ∈ l :=
  (List.perm_insertionSort _ l).mem_iff

/-- Sorting brings in no repeats. -/
theorem sortStrings_nodup {l : List String} (h : l.Nodup) : (sortStrings l).Nodup :=
  (List.perm_insertionSort _ l).nodup_iff.mpr h

/-- What a committed transaction that inserts `inserted` and drops the traces
`dropped` did to the tables. -/
structure Wrote (inserted : List SpanRow) (dropped : List String) (ingestedAt : Time)
    (db db' : Db V) : Prop where
  dropped_iff : ∀ id, id ∈ dropped ↔ (∃ r ∈ inserted, r.traceID = id) ∧
    maxSpansPerTrace < (mergedState db inserted ingestedAt id).spanCount
  spans : db'.spans =
    (db.spans ++ inserted.map fun r => r.stored ingestedAt).filter
      fun s => s.traceID ∉ dropped
  spanLinks : db'.spanLinks =
    (db.spanLinks ++ inserted.flatMap SpanRow.storedLinks).filter
      fun l => l.sourceTraceID ∉ dropped
  traceSummaries : ∀ t, t ∈ db'.traceSummaries.rows ↔ t.traceID ∉ dropped ∧
    ((∃ r ∈ inserted, r.traceID = t.traceID) ∧
        t = (mergedState db inserted ingestedAt t.traceID).row ∨
      (¬ ∃ r ∈ inserted, r.traceID = t.traceID) ∧ t ∈ db.traceSummaries.rows)
  tombstoned : ∀ id, db'.tombstoned id = true ↔ db.tombstoned id = true ∨ id ∈ dropped
  rest : db' = db.withTraces db'

theorem Wrote.nil (ingestedAt : Time) (db : Db V) : Wrote [] [] ingestedAt db db where
  dropped_iff := by simp
  spans := by simp
  spanLinks := by simp
  traceSummaries := by simp
  tombstoned := by simp
  rest := rfl

/-- Upserting the merged states of the traces that were not dropped. -/
theorem mem_foldl_upsert_merged
    {db : Db V} {table : KeyedTable String TraceSummaryRow TraceSummaryRow.traceID}
    {inserted : List SpanRow} {ingestedAt : Time} {ids : List String}
    (hids : ids.Nodup)
    (hmem : ∀ id ∈ ids, ∃ r ∈ inserted, r.traceID = id)
    {t : TraceSummaryRow} :
    t ∈ ((ids.map fun id => mergedState db inserted ingestedAt id).foldl
        (fun t st => t.upsert st.row) table).rows ↔
      t.traceID ∈ ids ∧ t = (mergedState db inserted ingestedAt t.traceID).row ∨
        t ∈ table.rows ∧ t.traceID ∉ ids := by
  have hkey : ∀ id ∈ ids,
      (mergedState db inserted ingestedAt id).row.traceID = id :=
    fun id hid => mergedState_traceID (hmem id hid)
  have hkeys : ((ids.map fun id => (mergedState db inserted ingestedAt id).row).map
      TraceSummaryRow.traceID) = ids := by
    rw [List.map_map]
    exact (List.map_congr_left hkey).trans (List.map_id _)
  rw [List.foldl_map, ← List.foldl_map (f := fun id =>
      (mergedState db inserted ingestedAt id).row) (g := KeyedTable.upsert),
    KeyedTable.mem_foldl_upsert (by rwa [hkeys]), hkeys]
  refine or_congr_left ?_
  constructor
  · intro ht
    obtain ⟨id, hid, rfl⟩ := List.mem_map.mp ht
    rw [hkey id hid]
    exact ⟨hid, rfl⟩
  · rintro ⟨hid, ht⟩
    exact List.mem_map.mpr ⟨t.traceID, hid, ht.symm⟩

section Returns

open Stmt Session

variable {s s' : Session (Db V) (WriterMem V)}

/-- The upsert puts the merged states into the table. -/
theorem upsertTraceSummaryStates_returns
    {states : List TraceSummaryState} {u : Unit}
    (h : Returns (upsertTraceSummaryStates states) s u s') :
    s.Updates (fun db =>
      { db with
        traceSummaries :=
          states.foldl (fun t st => t.upsert st.row) db.traceSummaries }) s' := by
  unfold upsertTraceSummaryStates at h
  split at h
  · rename_i hnil
    obtain ⟨-, rfl⟩ := returns_pure.mp h
    rw [hnil]
    exact ⟨rfl, rfl, rfl⟩
  · exact updates_of_returns_exec h

/-- A scan of rows that keeps a column of each row. -/
theorem map_of_mapM
    {α β κ : Type} {f : α → Option β} {g : β → κ} {k : α → κ}
    (hf : ∀ a b, f a = some b → g b = k a) :
    ∀ {l : List α} {l' : List β}, l.mapM f = some l' → l'.map g = l.map k
  | [], l', h => by
      cases h
      rfl
  | a :: l, l', h => by
      rw [List.mapM_cons] at h
      obtain ⟨b, hb, h⟩ := Option.bind_eq_some_iff.mp h
      obtain ⟨bs, hbs, h⟩ := Option.bind_eq_some_iff.mp h
      cases h
      rw [List.map_cons, List.map_cons, map_of_mapM hf hbs, hf a b hb]

/-- An element of a scan comes from a row. -/
theorem exists_of_mem_mapM
    {α β : Type} {f : α → Option β} :
    ∀ {l : List α} {l' : List β}, l.mapM f = some l' → ∀ {b : β}, b ∈ l' → ∃ a ∈ l, f a = some b
  | [], l', h, b, hb => by
      cases h
      cases hb
  | a :: l, l', h, b, hb => by
      rw [List.mapM_cons] at h
      obtain ⟨b', hb', h⟩ := Option.bind_eq_some_iff.mp h
      obtain ⟨bs, hbs, h⟩ := Option.bind_eq_some_iff.mp h
      cases h
      rcases List.mem_cons.mp hb with rfl | hb
      · exact ⟨a, List.mem_cons_self, hb'⟩
      · obtain ⟨a', ha', hf⟩ := exists_of_mem_mapM hbs hb
        exact ⟨a', List.mem_cons_of_mem a ha', hf⟩

theorem Db.scanTraceSummary_traceID
    {db : Db V} {t : TraceSummaryRow} {item : TraceSummary}
    (h : db.scanTraceSummary t = some item) :
    item.traceID = t.traceID := by
  unfold Db.scanTraceSummary at h
  simp only [Option.bind_eq_bind, Option.bind_eq_some_iff] at h
  obtain ⟨_, -, h⟩ := h
  cases h
  rfl

/-- The summaries read back: one for each requested trace that has a row. -/
theorem traceSummariesFromTable_returns
    {traceIDs : List String} {items : List TraceSummary}
    (h : Returns (traceSummariesFromTable traceIDs) s items s') :
    (items.map TraceSummary.traceID).Nodup ∧
      (∀ id, id ∈ items.map TraceSummary.traceID ↔
        id ∈ traceIDs ∧ ∃ t ∈ s.db.traceSummaries.rows, t.traceID = id) ∧
      s.Updates id s' := by
  unfold traceSummariesFromTable at h
  split at h
  · rename_i hnil
    obtain ⟨rfl, rfl⟩ := returns_pure.mp h
    exact ⟨List.nodup_nil, by simp [hnil], rfl, rfl, rfl⟩
  · obtain ⟨-, db, hdb, rfl⟩ := returns_stmt.mp h
    obtain ⟨l, hl, heq⟩ := Option.map_eq_some_iff.mp hdb
    cases heq
    have hids : items.map TraceSummary.traceID =
        (s.db.traceSummaries.rows.filter fun t => t.traceID ∈ traceIDs).map
          TraceSummaryRow.traceID :=
      map_of_mapM (fun _ _ => Db.scanTraceSummary_traceID) hl
    rw [hids]
    refine ⟨?_, ?_, rfl, rfl, rfl⟩
    · exact (List.filter_sublist.map _).nodup s.db.traceSummaries.keys_nodup
    · intro id
      simp only [List.mem_map, List.mem_filter, decide_eq_true_eq]
      constructor
      · rintro ⟨t, ⟨ht, hin⟩, rfl⟩
        exact ⟨hin, t, ht, rfl⟩
      · rintro ⟨hin, t, ht, rfl⟩
        exact ⟨t, ⟨ht, hin⟩, rfl⟩

/-- Every summary is that of a row of the table. -/
def ReadFrom (db : Db V) (summaries : List TraceSummary) : Prop :=
  ∀ item ∈ summaries, ∃ t ∈ db.traceSummaries.rows, db.scanTraceSummary t = some item

/-- The summaries that are read are rows of the table. -/
theorem traceSummariesFromTable_readFrom
    {traceIDs : List String} {items : List TraceSummary}
    (h : Returns (traceSummariesFromTable traceIDs) s items s') :
    ReadFrom s.db items := by
  unfold traceSummariesFromTable at h
  split at h
  · obtain ⟨rfl, -⟩ := returns_pure.mp h
    exact fun item hitem => absurd hitem List.not_mem_nil
  · obtain ⟨-, db, hdb, -⟩ := returns_stmt.mp h
    obtain ⟨l, hl, heq⟩ := Option.map_eq_some_iff.mp hdb
    cases heq
    intro item hitem
    obtain ⟨t, ht, hscan⟩ := exists_of_mem_mapM hl hitem
    exact ⟨t, (List.mem_filter.mp ht).1, hscan⟩

/-- Appending, dropping and upserting, put together. -/
theorem wrote_of_dropped
    {inserted : List SpanRow} {dropped : List String} {ingestedAt : Time}
    {db db₁ db₂ : Db V}
    (hdb₁ : db₁ =
      { db with
        spans := db.spans ++ inserted.map fun r => r.stored ingestedAt
        spanLinks := db.spanLinks ++ inserted.flatMap SpanRow.storedLinks })
    (hdrop : Dropped dropped db₁ db₂)
    (hiff : ∀ id, id ∈ dropped ↔ (∃ r ∈ inserted, r.traceID = id) ∧
      maxSpansPerTrace < (mergedState db inserted ingestedAt id).spanCount)
    {ids : List String} (hnodup : ids.Nodup)
    (hids : ∀ id, id ∈ ids ↔ (∃ r ∈ inserted, r.traceID = id) ∧ id ∉ dropped) :
    Wrote inserted dropped ingestedAt db
      { db₂ with
        traceSummaries :=
          (ids.map fun id => mergedState db inserted ingestedAt id).foldl
            (fun t st => t.upsert st.row) db₂.traceSummaries } := by
  subst hdb₁
  refine ⟨hiff, hdrop.spans, hdrop.spanLinks, ?_, hdrop.tombstoned, ?_⟩
  · intro t
    rw [mem_foldl_upsert_merged hnodup (fun id hid => ((hids id).mp hid).1),
      hdrop.traceSummaries, hids]
    by_cases hrow : ∃ r ∈ inserted, r.traceID = t.traceID <;> simp only [hrow] <;> tauto
  · rw [hdrop.rest]
    rfl

/-- A committed transaction: the rows of the batch whose keys are new were
inserted, the traces `dropped` were dropped, and `w` reports the rest. -/
structure CommittedTraces (rows : List SpanRow) (ingestedAt : Time)
    (inserted : List SpanRow) (dropped : List String) (db db' : Db V)
    (w : WrittenTraces) : Prop where
  inserted_eq : ∃ keys, KnownKeys db rows keys ∧ inserted = distinctBy SpanRow.key keys rows
  wrote : Wrote inserted dropped ingestedAt db db'
  retained : w.retained = inserted.filter fun r => r.traceID ∉ dropped
  summaries_nodup : (w.summaries.map TraceSummary.traceID).Nodup
  mem_summaries : ∀ id, id ∈ w.summaries.map TraceSummary.traceID ↔
    ∃ r ∈ w.retained, r.traceID = id
  dropped_nodup : dropped.Nodup
  droppedTraceIDs : w.droppedTraceIDs = sortStrings dropped

/-- The merged states of the traces a batch inserts spans into. -/
def insertedStates (existing : String → Option TraceSummaryState) (inserted : List SpanRow)
    (ingestedAt : Time) : String → Option TraceSummaryState :=
  mergeTraceSummaryStates
    (fun id => if id ∈ distinctTraceIDsForRows inserted then existing id else none)
    inserted ingestedAt

/-- The statements up to the upsert of the summaries. -/
theorem wrote_of_returns
    {rows inserted : List SpanRow} {ingestedAt : Time}
    {existing : String → Option TraceSummaryState} {dropped : List String}
    {t₁ t₂ t₃ t₄ t₅ t₆ : Session (Db V) (WriterMem V)} {u₃ u₄ u₆ : Unit}
    (h₁ : Returns (traceSummaryStatesByIDs (distinctTraceIDsForRows rows)) s existing t₁)
    (h₂ : Returns (filterNewSpans rows existing) t₁ inserted t₂)
    (h₃ : Returns (appendSpans inserted ingestedAt) t₂ u₃ t₃)
    (h₄ : Returns (appendSpanLinks inserted) t₃ u₄ t₄)
    (h₅ : Returns
      (Stmt.fold (dropOversized (insertedStates existing inserted ingestedAt) ingestedAt) []
        (distinctTraceIDsForRows inserted)) t₄ dropped t₅)
    (h₆ : Returns
      (upsertTraceSummaryStates
        ((sortStrings ((distinctTraceIDsForRows inserted).filter fun id => id ∉ dropped)).filterMap
          (insertedStates existing inserted ingestedAt))) t₅ u₆ t₆) :
    (∃ keys, KnownKeys s.db rows keys ∧ inserted = distinctBy SpanRow.key keys rows) ∧
      Wrote inserted dropped ingestedAt s.db t₆.db ∧ dropped.Nodup ∧ t₆.mem = s.mem := by
  obtain ⟨hex, hu₁⟩ := traceSummaryStatesByIDs_returns h₁
  have hdb₁ : t₁.db = s.db := hu₁.db
  obtain ⟨⟨keys, hkeys, hins⟩, hu₂⟩ := filterNewSpans_returns (by rwa [hdb₁]) h₂
  have hdb₂ : t₂.db = s.db := hu₂.db.trans hdb₁
  rw [hdb₁] at hkeys
  have happ := (updates_of_returns_exec h₃).trans (updates_of_returns_exec h₄)
  obtain ⟨rfl, hdrop, -, hmem₅⟩ := fold_dropOversized_returns h₅
  have hu₆ := upsertTraceSummaryStates_returns h₆
  -- the merged states of the traces of the inserted rows
  set traceIDs := distinctTraceIDsForRows inserted with htraceIDs
  set states := insertedStates existing inserted ingestedAt with hstatesdef
  have hstates : ∀ id ∈ traceIDs,
      states id = some (mergedState s.db inserted ingestedAt id) := by
    intro id hid
    have hrow := mem_distinctTraceIDsForRows.mp hid
    refine mergeTraceSummaryStates_eq_mergedState hrow ?_
    rw [if_pos hid]
    refine hex id (mem_distinctTraceIDsForRows.mpr ?_)
    obtain ⟨r, hr, hrid⟩ := hrow
    rw [hins] at hr
    exact ⟨r, (mem_distinctBy.mp hr).1.mem, hrid⟩
  set dropped := traceIDs.filter (oversized states) with hdropped
  have hiff : ∀ id, id ∈ dropped ↔ (∃ r ∈ inserted, r.traceID = id) ∧
      maxSpansPerTrace < (mergedState s.db inserted ingestedAt id).spanCount := by
    intro id
    rw [hdropped, List.mem_filter, htraceIDs, mem_distinctTraceIDsForRows]
    refine and_congr_right fun hrow => ?_
    simp [oversized, hstates id (mem_distinctTraceIDsForRows.mpr hrow)]
  have hkept : ∀ id, id ∈ sortStrings (traceIDs.filter fun id => id ∉ dropped) ↔
      (∃ r ∈ inserted, r.traceID = id) ∧ id ∉ dropped := by
    intro id
    rw [mem_sortStrings, List.mem_filter, htraceIDs, mem_distinctTraceIDsForRows,
      decide_eq_true_eq]
  have hmap : (sortStrings (traceIDs.filter fun id => id ∉ dropped)).filterMap states =
      (sortStrings (traceIDs.filter fun id => id ∉ dropped)).map
        fun id => mergedState s.db inserted ingestedAt id := by
    rw [← List.filterMap_eq_map]
    refine List.filterMap_congr fun id hid => ?_
    exact hstates id (mem_distinctTraceIDsForRows.mpr ((hkept id).mp hid).1)
  have hwrote := wrote_of_dropped (by rw [happ.db, hdb₂]; rfl) hdrop hiff
    (sortStrings_nodup ((distinctTraceIDsForRows_nodup inserted).filter _)) hkept
  rw [hmap] at hu₆
  rw [← hu₆.db] at hwrote
  refine ⟨⟨keys, hkeys, hins⟩, hwrote, (distinctTraceIDsForRows_nodup inserted).filter _, ?_⟩
  exact hu₆.mem.trans (hmem₅.trans (happ.mem.trans (hu₂.mem.trans hu₁.mem)))

/-- A transaction that commits did what `CommittedTraces` says. -/
theorem writeTraceRows_returns
    {rows : List SpanRow} {ingestedAt : Time} {w : WrittenTraces}
    (h : Returns (writeTraceRows rows ingestedAt) s w s') :
    (∃ inserted dropped,
      CommittedTraces rows ingestedAt inserted dropped s.db s'.db w) ∧
      ReadFrom s'.db w.summaries ∧ s'.saved = none ∧ s'.mem = s.mem := by
  unfold writeTraceRows at h
  obtain ⟨existing, t₁, h₁, h⟩ := returns_bind.mp h
  obtain ⟨inserted, t₂, h₂, h⟩ := returns_bind.mp h
  split at h
  · rename_i hnil
    obtain ⟨_, t₃, h₃, h⟩ := returns_bind.mp h
    obtain ⟨-, rfl⟩ := returns_commit.mp h₃
    obtain ⟨rfl, rfl⟩ := returns_pure.mp h
    obtain ⟨hex, hu₁⟩ := traceSummaryStatesByIDs_returns h₁
    have hdb₁ : t₁.db = s.db := hu₁.db
    obtain ⟨⟨keys, hkeys, hins⟩, hu₂⟩ := filterNewSpans_returns (by rwa [hdb₁]) h₂
    rw [hdb₁] at hkeys
    refine ⟨⟨[], [], ⟨keys, hkeys, hnil ▸ hins⟩, ?_, rfl, List.nodup_nil, by simp,
      List.nodup_nil, rfl⟩, fun item hitem => absurd hitem List.not_mem_nil, rfl,
      hu₂.mem.trans hu₁.mem⟩
    change Wrote [] [] ingestedAt s.db t₂.db
    rw [hu₂.db, id, hdb₁]
    exact Wrote.nil ingestedAt s.db
  · obtain ⟨_, t₃, h₃, h⟩ := returns_bind.mp h
    obtain ⟨_, t₄, h₄, h⟩ := returns_bind.mp h
    obtain ⟨dropped, t₅, h₅, h⟩ := returns_bind.mp h
    obtain ⟨_, t₆, h₆, h⟩ := returns_bind.mp h
    obtain ⟨summaries, t₇, h₇, h⟩ := returns_bind.mp h
    obtain ⟨_, t₈, h₈, h⟩ := returns_bind.mp h
    obtain ⟨-, rfl⟩ := returns_commit.mp h₈
    obtain ⟨rfl, rfl⟩ := returns_pure.mp h
    obtain ⟨hins, hwrote, hdropped, hmem₆⟩ := wrote_of_returns h₁ h₂ h₃ h₄ h₅ h₆
    obtain ⟨hnodup, hsum, hu₇⟩ := traceSummariesFromTable_returns h₇
    have hread := traceSummariesFromTable_readFrom h₇
    have hafter : t₇.db = t₆.db := hu₇.db
    refine ⟨⟨inserted, dropped, hins, ?_, rfl, hnodup, ?_, hdropped, rfl⟩, ?_, rfl,
      hu₇.mem.trans hmem₆⟩
    · change Wrote inserted dropped ingestedAt s.db t₇.db
      rwa [hafter]
    · intro id
      rw [hsum, mem_distinctTraceIDsForRows]
      refine ⟨And.left, fun hid => ⟨hid, ?_⟩⟩
      obtain ⟨r, hr, hrid⟩ := hid
      obtain ⟨hr, hnd⟩ := List.mem_filter.mp hr
      have hrow : ∃ r ∈ inserted, r.traceID = id := ⟨r, hr, hrid⟩
      have hid : (mergedState s.db inserted ingestedAt id).row.traceID = id :=
        mergedState_traceID hrow
      refine ⟨_, (hwrote.traceSummaries _).mpr ⟨?_, Or.inl ⟨?_, ?_⟩⟩, hid⟩
      · rw [hid, ← hrid]
        simpa using hnd
      · rwa [hid]
      · rw [hid]
    · change ReadFrom t₇.db summaries
      rwa [hafter]

end Returns

/-! ### Every path of a call -/

section Paths

open Stmt

/-- What happens before the write transaction: resources and cached hashes are
added and tombstones refreshed. -/
structure Prepared (s s' : Session (Db V) (WriterMem V)) : Prop where
  rest : s'.db =
    { s.db with resources := s'.db.resources, droppedTraces := s'.db.droppedTraces }
  tombstoned : ∀ id, s'.db.tombstoned id = s.db.tombstoned id
  keep : ∀ hash, s.db.hasResource hash → s'.db.hasResource hash
  cached : ∀ hash ∈ s'.mem.resourceCache.items,
    hash ∈ s.mem.resourceCache.items ∨ s'.db.hasResource hash
  saved : s'.saved = s.saved
  dispatched : s'.mem.dispatched = s.mem.dispatched

/-- Adding resources prepares a batch. -/
theorem ResourcesGrow.prepared
    {s s' : Session (Db V) (WriterMem V)} (h : ResourcesGrow s s') :
    Prepared s s' where
  rest := by rw [h.rest]
  tombstoned := by rw [h.rest]; intro id; rfl
  keep := h.keep
  cached := h.cached
  saved := h.saved
  dispatched := h.dispatched

theorem prepared_frame : Frame (Prepared (V := V)) where
  refl := fun s => (resourcesGrow_frame.refl s).prepared
  trans := by
    intro a b c h h'
    refine ⟨?_, fun id => (h'.tombstoned id).trans (h.tombstoned id),
      fun k hk => h'.keep k (h.keep k hk), ?_,
      h'.saved.trans h.saved, h'.dispatched.trans h.dispatched⟩
    · rw [h'.rest, h.rest]
    · intro k hk
      rcases h'.cached k hk with hk | hk
      · exact (h.cached k hk).imp_right (h'.keep k)
      · exact Or.inr hk

/-- Refreshing a tombstone keeps it. -/
theorem tombstoned_update
    {db : Db V} {f : DroppedTrace → DroppedTrace} (hf : ∀ d, (f d).traceID = d.traceID)
    (id : String) :
    Db.tombstoned { db with droppedTraces := db.droppedTraces.update f hf } id =
      db.tombstoned id := by
  rw [Bool.eq_iff_iff, Db.tombstoned_iff, Db.tombstoned_iff]
  simp only [KeyedTable.mem_update]
  constructor
  · rintro ⟨_, ⟨d, hd, rfl⟩, rfl⟩
    exact ⟨d, hd, (hf d).symm⟩
  · rintro ⟨d, hd, rfl⟩
    exact ⟨_, ⟨d, hd, rfl⟩, hf d⟩

/-- Looking for tombstones changes nothing but when they were last seen. -/
theorem filterDroppedTraceRows_prepared (rows : List SpanRow) (now : Time) :
    Stays Prepared (filterDroppedTraceRows (V := V) rows now) := by
  have htick : ∀ s : Session (Db V) (WriterMem V), Prepared s s.tick :=
    fun s => ⟨rfl, fun _ => rfl, fun _ h => h, fun _ h => Or.inl h, rfl, rfl⟩
  unfold filterDroppedTraceRows
  split
  · exact stays_pure prepared_frame rows
  · refine stays_bind prepared_frame (stays_query htick) fun tombstoned => ?_
    split
    · exact stays_pure prepared_frame rows
    · refine stays_bind prepared_frame (stays_exec htick ?_)
        fun _ => stays_pure prepared_frame _
      intro s
      exact ⟨rfl, tombstoned_update _, fun _ h => h, fun _ h => Or.inl h, rfl, rfl⟩

/-- The rows that are left are those without a tombstone. -/
theorem filterDroppedTraceRows_returns
    {rows kept : List SpanRow} {now : Time} {s s' : Session (Db V) (WriterMem V)}
    (h : Returns (filterDroppedTraceRows rows now) s kept s') :
    kept = rows.filter fun r => !s.db.tombstoned r.traceID := by
  unfold filterDroppedTraceRows at h
  split at h
  · rename_i hnil
    obtain ⟨rfl, -⟩ := returns_pure.mp h
    simp [hnil]
  · obtain ⟨tombstoned, t, hq, h⟩ := returns_bind.mp h
    obtain ⟨rfl, -⟩ := updates_of_returns_query hq
    have hmem : ∀ r ∈ rows,
        (r.traceID ∈ (distinctTraceIDsForRows rows).filter s.db.tombstoned ↔
          s.db.tombstoned r.traceID = true) := by
      intro r hr
      rw [List.mem_filter, mem_distinctTraceIDsForRows]
      exact ⟨And.right, fun ht => ⟨⟨r, hr, rfl⟩, ht⟩⟩
    split at h
    · rename_i hnone
      obtain ⟨rfl, -⟩ := returns_pure.mp h
      refine (List.filter_eq_self.mpr ?_).symm
      intro r hr
      have := hmem r hr
      rw [hnone] at this
      simpa using this
    · obtain ⟨_, _, -, h⟩ := returns_bind.mp h
      obtain ⟨rfl, -⟩ := returns_pure.mp h
      refine List.filter_congr fun r hr => ?_
      rw [Bool.eq_iff_iff, decide_eq_true_eq, hmem r hr]
      simp

theorem dropOversized_tablesOnly
    (states : String → Option TraceSummaryState) (ingestedAt : Time)
    (dropped : List String) (id : String) :
    Stays TablesOnly (dropOversized (V := V) states ingestedAt dropped id) := by
  have hF := tablesOnly_frame (D := Db V) (M := WriterMem V)
  unfold dropOversized
  split
  · exact stays_pure hF _
  · split
    · exact stays_pure hF _
    · exact stays_bind hF tablesOnly_exec fun _ =>
        stays_bind hF tablesOnly_exec fun _ =>
        stays_bind hF tablesOnly_exec fun _ =>
        stays_bind hF tablesOnly_exec fun _ => stays_pure hF _

/-- Until its commit the body of the transaction touches the tables only. -/
theorem writeTraceRows_errorStays (rows : List SpanRow) (ingestedAt : Time) :
    ErrorStays TablesOnly (writeTraceRows (V := V) rows ingestedAt) := by
  have hF := tablesOnly_frame (D := Db V) (M := WriterMem V)
  have hcommit : ∀ {α : Type} (what : String) (a : α), ErrorStays TablesOnly
      (commit (D := Db V) (M := WriterMem V) what >>= fun _ => pure a) := by
    intro α what a
    exact errorStays_bind_pure (errorStays_commit fun _ => ⟨rfl, rfl⟩)
  have hstates : ∀ ids, Stays TablesOnly (traceSummaryStatesByIDs (V := V) ids) := by
    intro ids
    unfold traceSummaryStatesByIDs
    split
    · exact stays_pure hF _
    · exact tablesOnly_query
  have hfilter : ∀ states, Stays TablesOnly (filterNewSpans (V := V) rows states) := by
    intro states
    refine stays_bind hF (stays_fold hF (fun keys group => ?_) _ _) fun _ => stays_pure hF _
    exact stays_bind hF tablesOnly_query fun _ => stays_pure hF _
  have hupsert : ∀ states, Stays TablesOnly (upsertTraceSummaryStates (V := V) states) := by
    intro states
    unfold upsertTraceSummaryStates
    split
    · exact stays_pure hF _
    · exact tablesOnly_exec
  have hread : ∀ ids, Stays TablesOnly (traceSummariesFromTable (V := V) ids) := by
    intro ids
    unfold traceSummariesFromTable
    split
    · exact stays_pure hF _
    · exact tablesOnly_stmt
  unfold writeTraceRows
  refine errorStays_bind hF (hstates _) fun existing => ?_
  refine errorStays_bind hF (hfilter _) fun inserted => ?_
  split
  · exact hcommit _ _
  · refine errorStays_bind hF tablesOnly_exec fun _ => ?_
    refine errorStays_bind hF tablesOnly_exec fun _ => ?_
    refine errorStays_bind hF (stays_fold hF (dropOversized_tablesOnly _ _) _ _)
      fun dropped => ?_
    refine errorStays_bind hF (hupsert _) fun _ => ?_
    exact errorStays_bind hF (hread _) fun _ => hcommit _ _

/-- The event of a committed batch. -/
def WrittenTraces.event (w : WrittenTraces) (batch : TraceBatch) : TraceBatch where
  resources := batch.resources
  spans := w.retained
  summaries := w.summaries
  droppedTraceIDs := w.droppedTraceIDs

/-- Some row of the batch belongs to a trace without a tombstone: there is a transaction. -/
def TraceBatch.HasKept (batch : TraceBatch) (db : Db V) : Prop :=
  ∃ r ∈ batch.spans, db.tombstoned r.traceID = false

/-- No row is left just when the batch has nothing to keep. -/
theorem filter_tombstoned_eq_nil_iff {batch : TraceBatch} {db : Db V} :
    (batch.spans.filter fun r => !db.tombstoned r.traceID) = [] ↔ ¬ batch.HasKept db := by
  simp [TraceBatch.HasKept, List.filter_eq_nil_iff]

/-- What a call may have done: it got no further than the preparation, or its
transaction committed and its event was dispatched.  It commits exactly when it returns no
error and had rows to write. -/
theorem writeTraces_cases
    (batch : TraceBatch) (refreshedAt now : Time) {s s' : Session (Db V) (WriterMem V)}
    (hs : s.saved = none)
    (hs' : s' = (writeTraces batch refreshedAt now s).2) :
    ∃ p, Prepared s p ∧ s'.saved = none ∧
      (s'.db = p.db ∧ s'.mem = p.mem ∧
          ((writeTraces batch refreshedAt now s).1 = .ok () → ¬ batch.HasKept s.db) ∨
        ∃ inserted dropped w,
          (CacheSound s → ∀ r ∈ batch.resources, p.db.hasResource r.resourceHash) ∧
          CommittedTraces (batch.spans.filter fun r => !s.db.tombstoned r.traceID) now
            inserted dropped p.db s'.db w ∧
          ReadFrom s'.db w.summaries ∧
          s'.mem =
            { p.mem with
              dispatched := p.mem.dispatched ++ [.traces (w.event batch)] } ∧
          (writeTraces batch refreshedAt now s).1 = .ok () ∧ batch.HasKept s.db) := by
  subst hs'
  unfold writeTraces
  rw [bind_apply]
  have hgrow := upsertResources_grow batch.resources s
  rcases hup : upsertResources batch.resources s with ⟨_ | _, t⟩ <;> rw [hup] at hgrow
  · exact ⟨t, hgrow.prepared, hgrow.saved.trans hs, Or.inl ⟨rfl, rfl, nofun⟩⟩
  · dsimp only
    rw [bind_apply]
    have hfilt := filterDroppedTraceRows_prepared batch.spans refreshedAt t
    rcases hfr : filterDroppedTraceRows batch.spans refreshedAt t with ⟨_ | rows, p⟩ <;>
      rw [hfr] at hfilt <;>
      have hprep := prepared_frame.trans hgrow.prepared hfilt <;>
      have hsaved := hprep.saved.trans hs
    · exact ⟨p, hprep, hsaved, Or.inl ⟨rfl, rfl, nofun⟩⟩
    · have hrows : rows = batch.spans.filter fun r => !s.db.tombstoned r.traceID := by
        rw [filterDroppedTraceRows_returns hfr]
        refine List.filter_congr fun r _ => ?_
        rw [hgrow.prepared.tombstoned]
      subst hrows
      dsimp only
      split
      · rename_i hnil
        exact ⟨p, hprep, hsaved, Or.inl ⟨rfl, rfl, fun _ =>
          filter_tombstoned_eq_nil_iff.mp hnil⟩⟩
      · rename_i hrows
        have hkept : batch.HasKept s.db :=
          not_not.mp fun h => hrows (filter_tombstoned_eq_nil_iff.mpr h)
        rw [bind_apply]
        rcases htx : writeTraceRowsTransaction _ now p with ⟨_ | w, u⟩
        · obtain ⟨hdb, hnone, hmem⟩ := transaction_error (Q := fun m m' => m' = m)
            (writeTraceRows_errorStays _ now) hsaved htx
          refine ⟨p, hprep, hnone, Or.inl ⟨hdb, ?_, nofun⟩⟩
          rcases hmem with hmem | ⟨m, hm, hmem⟩
          · exact hmem
          · exact hmem.trans hm
        · obtain ⟨_, q, hb, hq⟩ := returns_bind.mp htx
          obtain ⟨-, rfl⟩ := returns_begin.mp hb
          obtain ⟨⟨inserted, dropped, hc⟩, hread, hnone, hmem⟩ :=
            writeTraceRows_returns (returns_deferRollback.mp hq)
          refine ⟨p, hprep, hnone,
            Or.inr ⟨inserted, dropped, w, ?_, hc, hread, ?_, rfl, hkept⟩⟩
          · intro hsound r hr
            exact hfilt.keep _ (upsertResources_hasResource hsound hup r hr)
          · change { u.mem with
              dispatched :=
                u.mem.dispatched ++ [CommitEvent.traces (w.event batch)] } = _
            rw [hmem]
            rfl

end Paths

end Storage
end Otelop
