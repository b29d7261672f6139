import Mathlib.Tactic
import Mathlib.Data.List.Sort
import Otelop.Storage.Writer

/-!
# Writing a batch of traces: the statements

`writeTraces` of `internal/storage/storage.go` and `writeTraceRowsTransaction` of
`internal/storage/trace_summary.go`: resources first, each in its own implicit transaction, then
the tombstone filter, then one transaction that deduplicates the spans, appends them, merges the
summaries and drops the traces that became oversized.

The statements are in the order of the source, and each may fail, which ends the call; inside of
the transaction a failure rolls back.  Reading is done in groups of traces, as the source does
it to keep a query short, and the groups are shown not to matter.  What the call as a whole does
is in `CommitTraces`.

**Results.**
* `filterNewSpans_returns`: the inserted rows are those a loop over the batch keeps that starts
  with the keys recognised as stored.
* `fold_dropOversized_returns`: what the loop over the merged states drops.
-/

namespace Otelop
namespace Storage

open Lib

variable {V : Type}

/-- The key a span is deduplicated by. -/
def SpanRow.key (r : SpanRow) : String × String := (r.traceID, r.spanID)

/-- Consecutive slices of at most `n` elements, as the loop
`for start := 0; start < len(l); start += n` takes them. -/
def groupsOf {α : Type} (n : Nat) (l : List α) : List (List α) :=
  (List.range ((l.length + n - 1) / n)).map fun i => (l.drop (i * n)).take n

/-- The slices cover the list. -/
theorem exists_mem_groupsOf_iff
    {α : Type} {n : Nat} (hn : 0 < n) {l : List α} {x : α} :
    (∃ g ∈ groupsOf n l, x ∈ g) ↔ x ∈ l := by
  constructor
  · rintro ⟨g, hg, hx⟩
    obtain ⟨i, -, rfl⟩ := List.mem_map.mp hg
    exact List.mem_of_mem_drop (List.mem_of_mem_take hx)
  · intro hx
    obtain ⟨j, hj, rfl⟩ := List.mem_iff_getElem.mp hx
    refine ⟨(l.drop (j / n * n)).take n, ?_, ?_⟩
    · refine List.mem_map.mpr ⟨j / n, ?_, rfl⟩
      rw [List.mem_range, Nat.div_lt_iff_lt_mul hn]
      have hdiv := Nat.div_add_mod (l.length + n - 1) n
      have hmod := Nat.mod_lt (l.length + n - 1) hn
      rw [Nat.mul_comm] at hdiv
      omega
    · have hdiv := Nat.div_add_mod j n
      have hmod := Nat.mod_lt j hn
      rw [Nat.mul_comm] at hdiv
      refine List.mem_iff_getElem.mpr ⟨j % n, ?_, ?_⟩
      · simp only [List.length_take, List.length_drop]
        omega
      · simp only [List.getElem_take, List.getElem_drop]
        congr 1

/-- How many traces one lookup of `filterNewSpans` asks for. -/
def traceLookupBatchSize : Nat := 32

/-- The trace ids of `rows` that have a tombstone. -/
def Db.tombstoned (db : Db V) (id : String) : Bool :=
  (db.droppedTraces.find? id).isSome

/-- Tombstoned traces are filtered before the write transaction, and their
tombstones are refreshed.  The update names every trace of the batch: it changes
the rows that exist. -/
def filterDroppedTraceRows (rows : List SpanRow) (now : Time) :
    Writer V (List SpanRow) :=
  if rows = [] then pure rows
  else do
    let traceIDs := distinctTraceIDsForRows rows
    let tombstoned ← Stmt.query "storage: query dropped traces" fun db =>
      traceIDs.filter db.tombstoned
    if tombstoned = [] then pure rows
    else do
      Stmt.exec "storage: refresh dropped traces" fun db =>
        { db with
          droppedTraces := db.droppedTraces.update
            (fun d => if d.traceID ∈ traceIDs then { d with lastSeen := now } else d)
            (by intro d; split <;> rfl) }
      pure (rows.filter fun r => r.traceID ∉ tombstoned)

/-- The stored summaries of the traces of a batch. -/
def traceSummaryStatesByIDs (traceIDs : List String) :
    Writer V (String → Option TraceSummaryState) :=
  if traceIDs = [] then pure fun _ => none
  else
    Stmt.query "storage: query trace summary states" fun db id =>
      if id ∈ traceIDs then (db.traceSummaries.find? id).map TraceSummaryRow.state
      else none

/-- `candidatesByTrace`: the span ids to look up, for traces with a summary. -/
def candidatesByTrace (rows : List SpanRow)
    (existingStates : String → Option TraceSummaryState) (id : String) : List String :=
  (rows.filter fun r => r.traceID = id && (existingStates id).isSome).map
    SpanRow.spanID

/-- One lookup of `filterNewSpans`: the stored keys among the candidates of a
group of traces. -/
def lookupSpanKeys (candidates : String → List String) (traceIDs : List String)
    (db : Db V) : List (String × String) :=
  traceIDs.flatMap fun id =>
    (db.spans.filter fun s => s.traceID = id && s.spanID ∈ candidates id).map
      StoredSpan.key

/-- The rows of a batch whose key is neither stored nor repeated in the batch.
Only traces that have a summary are looked up. -/
def filterNewSpans (rows : List SpanRow)
    (existingStates : String → Option TraceSummaryState) :
    Writer V (List SpanRow) := do
  let candidates := candidatesByTrace rows existingStates
  let lookupTraceIDs :=
    (distinctTraceIDsForRows rows).filter fun id => candidates id ≠ []
  let existingKeys ← Stmt.fold
    (fun keys group => do
      let found ← Stmt.query "storage: query existing candidate spans"
        (lookupSpanKeys candidates group)
      pure (keys ++ found))
    [] (groupsOf traceLookupBatchSize lookupTraceIDs)
  pure (distinctBy SpanRow.key existingKeys rows)

def appendSpans (spans : List SpanRow) (ingestedAt : Time) : Writer V Unit :=
  Stmt.exec "storage: append spans" fun db =>
    { db with spans := db.spans ++ spans.map fun sp => sp.stored ingestedAt }

/-- The rows of `span_links` a span contributes, in the order of its links. -/
def SpanRow.storedLinks (sp : SpanRow) : List StoredSpanLink :=
  sp.links.zipIdx.map fun (link, ordinal) =>
    { sourceTraceID := sp.traceID, sourceSpanID := sp.spanID, ordinal, link }

def appendSpanLinks (spans : List SpanRow) : Writer V Unit :=
  Stmt.exec "append span links" fun db =>
    { db with spanLinks := db.spanLinks ++ spans.flatMap SpanRow.storedLinks }

/-- Fold the inserted rows into the summaries of their traces. -/
def mergeTraceSummaryStates (existing : String → Option TraceSummaryState)
    (rows : List SpanRow) (ingestedAt : Time) : String → Option TraceSummaryState :=
  rows.foldl
    (fun states row =>
      Function.update states row.traceID
        (some (((states row.traceID).getD {}).mergeSpan row ingestedAt)))
    existing

/-- The four statements that drop an oversized trace. -/
def dropTrace (id : String) (spanCount : Nat) (ingestedAt : Time) (db : Db V) : Db V :=
  { db with
    spanLinks := db.spanLinks.filter fun l => l.sourceTraceID ≠ id
    spans := db.spans.filter fun s => s.traceID ≠ id
    traceSummaries := db.traceSummaries.delete fun t => t.traceID = id
    droppedTraces := db.droppedTraces.upsert ⟨id, ingestedAt, spanCount⟩ }

/-- One round of the loop over the merged states.  The lookup of a service name
for the log line is left out: it changes nothing and its error is only logged. -/
def dropOversized (states : String → Option TraceSummaryState) (ingestedAt : Time)
    (dropped : List String) (id : String) : Writer V (List String) :=
  match states id with
  | none => pure dropped
  | some state =>
      if state.spanCount ≤ maxSpansPerTrace then pure dropped
      else do
        Stmt.exec "delete span links of oversized trace" fun db =>
          { db with spanLinks := db.spanLinks.filter fun l => l.sourceTraceID ≠ id }
        Stmt.exec "storage: delete oversized trace" fun db =>
          { db with spans := db.spans.filter fun s => s.traceID ≠ id }
        Stmt.exec "storage: delete oversized trace summary" fun db =>
          { db with
            traceSummaries := db.traceSummaries.delete fun t => t.traceID = id }
        Stmt.exec "storage: tombstone oversized trace" fun db =>
          { db with
            droppedTraces :=
              db.droppedTraces.upsert ⟨id, ingestedAt, state.spanCount⟩ }
        pure (dropped ++ [id])

def upsertTraceSummaryStates (states : List TraceSummaryState) : Writer V Unit :=
  if states = [] then pure ()
  else
    Stmt.exec "storage: upsert trace summaries" fun db =>
      { db with
        traceSummaries :=
          states.foldl (fun t st => t.upsert st.row) db.traceSummaries }

/-- One row of `traceSummariesFromTableQuery`.  A service name that joins with no
resource is NULL, which the scan into a string refuses. -/
def Db.scanTraceSummary (db : Db V) (t : TraceSummaryRow) : Option TraceSummary := do
  let rootService := t.root.bind fun r => db.serviceName r.resourceHash
  let serviceName ← rootService.or (db.serviceName t.earliestResourceHash)
  some
    { linkCount := t.linkCount
      traceID := t.traceID
      startTime := t.startTime
      firstSeen := none
      duration := Time.sub t.endTime t.startTime
      spanCount := t.spanCount
      hasError := t.hasError
      serviceName
      root := t.root.map fun r =>
        ⟨r.name, r.kind, r.statusCode, Time.sub r.endTime r.startTime⟩ }

def traceSummariesFromTable (traceIDs : List String) : Writer V (List TraceSummary) :=
  if traceIDs = [] then pure []
  else
    Stmt.stmt "storage: query stored trace summaries" fun db =>
      ((db.traceSummaries.rows.filter fun t => t.traceID ∈ traceIDs).mapM
        db.scanTraceSummary).map fun items => (items, db)

/-- `sort.Strings` -/
def sortStrings (l : List String) : List String :=
  l.insertionSort fun a b => a ≤ b

/-- What a committed transaction returns. -/
structure WrittenTraces where
  retained : List SpanRow
  summaries : List TraceSummary
  droppedTraceIDs : List String

/-- The body of the write transaction, which commits on every path that does not
fail. -/
def writeTraceRows (rows : List SpanRow) (ingestedAt : Time) :
    Writer V WrittenTraces := do
  let existingStates ← traceSummaryStatesByIDs (distinctTraceIDsForRows rows)
  let inserted ← filterNewSpans rows existingStates
  if inserted = [] then do
    Stmt.commit "storage: commit duplicate trace batch"
    pure ⟨[], [], []⟩
  else do
    appendSpans inserted ingestedAt
    appendSpanLinks inserted
    let traceIDs := distinctTraceIDsForRows inserted
    let states := mergeTraceSummaryStates
      (fun id => if id ∈ traceIDs then existingStates id else none) inserted ingestedAt
    let dropped ← Stmt.fold (dropOversized states ingestedAt) [] traceIDs
    upsertTraceSummaryStates
      ((sortStrings (traceIDs.filter fun id => id ∉ dropped)).filterMap states)
    let retained := inserted.filter fun r => r.traceID ∉ dropped
    let summaries ← traceSummariesFromTable (distinctTraceIDsForRows retained)
    Stmt.commit "storage: commit trace write"
    pure ⟨retained, summaries, sortStrings dropped⟩

def writeTraceRowsTransaction (rows : List SpanRow) (ingestedAt : Time) :
    Writer V WrittenTraces :=
  Stmt.transaction "storage: begin trace write" id (writeTraceRows rows ingestedAt)

/-- Write one batch: `refreshedAt` and `now` are the two readings of the clock. -/
def writeTraces (batch : TraceBatch) (refreshedAt now : Time) : Writer V Unit := do
  upsertResources batch.resources
  let rows ← filterDroppedTraceRows batch.spans refreshedAt
  if rows = [] then pure ()
  else do
    let w ← writeTraceRowsTransaction rows now
    dispatchCommit (.traces
      { resources := batch.resources
        spans := w.retained
        summaries := w.summaries
        droppedTraceIDs := w.droppedTraceIDs })

/-! ### What the statements of a committed transaction did -/

section Returns

open Stmt Session

variable {s s' : Session (Db V) (WriterMem V)}

/-- The lookup reads the summaries of the traces as they are. -/
theorem traceSummaryStatesByIDs_returns
    {traceIDs : List String} {states : String → Option TraceSummaryState}
    (h : Returns (traceSummaryStatesByIDs traceIDs) s states s') :
    (∀ id ∈ traceIDs,
      states id = (s.db.traceSummaries.find? id).map TraceSummaryRow.state) ∧
      s.Updates id s' := by
  unfold traceSummaryStatesByIDs at h
  split at h
  · rename_i hnil
    obtain ⟨rfl, rfl⟩ := returns_pure.mp h
    refine ⟨?_, rfl, rfl, rfl⟩
    intro id hid
    rw [hnil] at hid
    cases hid
  · obtain ⟨rfl, hu⟩ := updates_of_returns_query h
    refine ⟨?_, hu⟩
    intro id hid
    exact if_pos hid

/-- A row of the batch is recognised as stored when its trace has a summary and
its key is in `spans`. -/
def KnownKeys (db : Db V) (rows : List SpanRow) (keys : List (String × String)) : Prop :=
  ∀ r ∈ rows, r.key ∈ keys ↔
    (db.traceSummaries.find? r.traceID).isSome = true ∧
      r.key ∈ db.spans.map StoredSpan.key

/-- A lookup finds the stored keys of its candidates. -/
theorem mem_lookupSpanKeys
    {candidates : String → List String} {group : List String} {db : Db V}
    {k : String × String} :
    k ∈ lookupSpanKeys candidates group db ↔
      k ∈ db.spans.map StoredSpan.key ∧ k.1 ∈ group ∧ k.2 ∈ candidates k.1 := by
  simp only [lookupSpanKeys, List.mem_flatMap, List.mem_map, List.mem_filter,
    Bool.and_eq_true, decide_eq_true_eq]
  constructor
  · rintro ⟨id, hid, sp, ⟨hs, rfl, hc⟩, rfl⟩
    exact ⟨⟨sp, hs, rfl⟩, hid, hc⟩
  · rintro ⟨⟨sp, hs, rfl⟩, hid, hc⟩
    exact ⟨sp.traceID, hid, sp, ⟨hs, rfl, hc⟩, rfl⟩

/-- The lookups of all groups together. -/
theorem foldl_lookupSpanKeys
    (candidates : String → List String) (db : Db V) :
    ∀ (groups : List (List String)) (keys : List (String × String)),
      groups.foldl (fun p group => (p.1 ++ lookupSpanKeys candidates group p.2, p.2))
          (keys, db) =
        (keys ++ groups.flatMap fun g => lookupSpanKeys candidates g db, db)
  | [], keys => by simp
  | g :: groups, keys => by
      simp [foldl_lookupSpanKeys candidates db groups]

/-- A span is a candidate when its trace has a summary. -/
theorem mem_candidatesByTrace
    {rows : List SpanRow} {states : String → Option TraceSummaryState}
    {r : SpanRow} (hr : r ∈ rows) :
    r.spanID ∈ candidatesByTrace rows states r.traceID ↔
      (states r.traceID).isSome = true := by
  unfold candidatesByTrace
  rw [List.mem_map]
  constructor
  · rintro ⟨x, hx, -⟩
    simp only [List.mem_filter, Bool.and_eq_true] at hx
    exact hx.2.2
  · intro hst
    exact ⟨r, by simp [hr, hst], rfl⟩

/-- The spans that are left are the first ones with a new key. -/
theorem filterNewSpans_returns
    {rows inserted : List SpanRow} {states : String → Option TraceSummaryState}
    (hstates : ∀ id ∈ distinctTraceIDsForRows rows,
      states id = (s.db.traceSummaries.find? id).map TraceSummaryRow.state)
    (h : Returns (filterNewSpans rows states) s inserted s') :
    (∃ keys, KnownKeys s.db rows keys ∧ inserted = distinctBy SpanRow.key keys rows) ∧
      s.Updates id s' := by
  unfold filterNewSpans at h
  dsimp only at h
  obtain ⟨keys, t, hfold, hpure⟩ := returns_bind.mp h
  obtain ⟨rfl, rfl⟩ := returns_pure.mp hpure
  obtain ⟨hdb, hsaved, hmem⟩ := returns_fold
    (g := fun db keys group => keys ++
      lookupSpanKeys (candidatesByTrace rows states) group db)
    (k := fun db _ _ => db)
    (by
      intro b x u b' u' hu
      obtain ⟨found, v, hq, hp⟩ := returns_bind.mp hu
      obtain ⟨rfl, hup⟩ := updates_of_returns_query hq
      obtain ⟨rfl, rfl⟩ := returns_pure.mp hp
      exact ⟨rfl, hup⟩)
    _ _ _ _ _ hfold
  rw [foldl_lookupSpanKeys, List.nil_append, Prod.mk.injEq] at hdb
  obtain ⟨rfl, hdb⟩ := hdb
  refine ⟨⟨_, ?_, rfl⟩, hdb, hsaved, hmem⟩
  intro r hr
  have hid : r.traceID ∈ distinctTraceIDsForRows rows :=
    mem_distinctTraceIDsForRows.mpr ⟨r, hr, rfl⟩
  have hsome : (states r.traceID).isSome =
      (s.db.traceSummaries.find? r.traceID).isSome := by
    rw [hstates _ hid, Option.isSome_map]
  rw [← hsome, ← mem_candidatesByTrace hr, List.mem_flatMap]
  constructor
  · rintro ⟨g, hg, hk⟩
    obtain ⟨hstored, -, hcn⟩ := mem_lookupSpanKeys.mp hk
    exact ⟨hcn, hstored⟩
  · rintro ⟨hcn, hstored⟩
    have hlook : r.traceID ∈ (distinctTraceIDsForRows rows).filter
        fun id => candidatesByTrace rows states id ≠ [] := by
      refine List.mem_filter.mpr ⟨hid, ?_⟩
      rw [decide_eq_true_eq]
      exact List.ne_nil_of_mem hcn
    obtain ⟨g, hg, hin⟩ :=
      (exists_mem_groupsOf_iff (n := traceLookupBatchSize) (by decide)).mpr hlook
    exact ⟨g, hg, mem_lookupSpanKeys.mpr ⟨hstored, hin, hcn⟩⟩

end Returns

/-- `db` with the trace tables of `db'`. -/
def Db.withTraces (db db' : Db V) : Db V :=
  { db with
    spans := db'.spans
    spanLinks := db'.spanLinks
    traceSummaries := db'.traceSummaries
    droppedTraces := db'.droppedTraces }

/-- A trace has a tombstone when it has a row in `dropped_traces`. -/
theorem Db.tombstoned_iff {db : Db V} {id : String} :
    db.tombstoned id = true ↔ ∃ d ∈ db.droppedTraces.rows, d.traceID = id := by
  unfold Db.tombstoned
  rw [Option.isSome_iff_ne_none, Ne, KeyedTable.find?_eq_none_iff]
  simp

/-- Whether the merged state of a trace is over the limit. -/
def oversized (states : String → Option TraceSummaryState) (id : String) : Bool :=
  match states id with
  | none => false
  | some state => decide (maxSpansPerTrace < state.spanCount)

/-- One round of the loop over the merged states, on the tables. -/
def dropIfOversized (states : String → Option TraceSummaryState) (ingestedAt : Time)
    (id : String) (db : Db V) : Db V :=
  match states id with
  | none => db
  | some state =>
      if state.spanCount ≤ maxSpansPerTrace then db
      else dropTrace id state.spanCount ingestedAt db

/-- `db'` is `db` after the traces `ids` were dropped. -/
structure Dropped (ids : List String) (db db' : Db V) : Prop where
  spans : db'.spans = db.spans.filter fun s => s.traceID ∉ ids
  spanLinks : db'.spanLinks = db.spanLinks.filter fun l => l.sourceTraceID ∉ ids
  traceSummaries : ∀ t, t ∈ db'.traceSummaries.rows ↔
    t ∈ db.traceSummaries.rows ∧ t.traceID ∉ ids
  tombstoned : ∀ id, db'.tombstoned id = true ↔ db.tombstoned id = true ∨ id ∈ ids
  rest : db' = db.withTraces db'

theorem Dropped.nil (db : Db V) : Dropped [] db db where
  spans := by simp
  spanLinks := by simp
  traceSummaries := by simp
  tombstoned := by simp
  rest := rfl

/-- Dropping a trace sets its tombstone and no other. -/
theorem dropTrace_tombstoned
    {id id' : String} {spanCount : Nat} {ingestedAt : Time} {db : Db V} :
    (dropTrace id spanCount ingestedAt db).tombstoned id' = true ↔
      id' = id ∨ db.tombstoned id' = true := by
  simp only [Db.tombstoned_iff, dropTrace, KeyedTable.mem_upsert]
  constructor
  · rintro ⟨d, rfl | ⟨hd, -⟩, rfl⟩
    · exact Or.inl rfl
    · exact Or.inr ⟨d, hd, rfl⟩
  · rintro (rfl | ⟨d, hd, rfl⟩)
    · exact ⟨_, Or.inl rfl, rfl⟩
    · by_cases hk : d.traceID = id
      · exact ⟨_, Or.inl rfl, hk.symm⟩
      · exact ⟨d, Or.inr ⟨hd, hk⟩, rfl⟩

/-- One more trace is dropped. -/
theorem Dropped.cons
    {id : String} {ids : List String} {spanCount : Nat} {ingestedAt : Time}
    {db db' : Db V}
    (h : Dropped ids (dropTrace id spanCount ingestedAt db) db') :
    Dropped (id :: ids) db db' where
  spans := by
    rw [h.spans]
    simp only [dropTrace, List.filter_filter, List.mem_cons, not_or]
    refine List.filter_congr ?_
    intro s _
    by_cases hs : s.traceID = id <;> simp [hs]
  spanLinks := by
    rw [h.spanLinks]
    simp only [dropTrace, List.filter_filter, List.mem_cons, not_or]
    refine List.filter_congr ?_
    intro l _
    by_cases hl : l.sourceTraceID = id <;> simp [hl]
  traceSummaries := by
    intro t
    rw [h.traceSummaries]
    simp only [dropTrace, KeyedTable.mem_delete, decide_eq_false_iff_not,
      List.mem_cons, not_or, and_assoc]
  tombstoned := by
    intro id'
    rw [h.tombstoned, dropTrace_tombstoned, List.mem_cons]
    tauto
  rest := by
    rw [h.rest]
    rfl

/-- The loop drops the traces that are too large. -/
theorem foldl_dropIfOversized
    (states : String → Option TraceSummaryState) (ingestedAt : Time) :
    ∀ (ids : List String) (db : Db V),
      Dropped (ids.filter (oversized states)) db
        (ids.foldl (fun db id => dropIfOversized states ingestedAt id db) db)
  | [], db => Dropped.nil db
  | id :: ids, db => by
      have ih := foldl_dropIfOversized states ingestedAt ids
      rw [List.foldl_cons]
      cases hst : states id with
      | none =>
          have ho : oversized states id = false := by simp [oversized, hst]
          have hd : dropIfOversized states ingestedAt id db = db := by
            simp [dropIfOversized, hst]
          rw [List.filter_cons_of_neg (by simp [ho]), hd]
          exact ih db
      | some state =>
          by_cases hle : state.spanCount ≤ maxSpansPerTrace
          · have ho : oversized states id = false := by
              simpa [oversized, hst] using hle
            have hd : dropIfOversized states ingestedAt id db = db := by
              simp [dropIfOversized, hst, hle]
            rw [List.filter_cons_of_neg (by simp [ho]), hd]
            exact ih db
          · have ho : oversized states id = true := by
              simpa [oversized, hst] using hle
            have hd : dropIfOversized states ingestedAt id db =
                dropTrace id state.spanCount ingestedAt db := by
              simp [dropIfOversized, hst, hle]
            rw [List.filter_cons_of_pos ho, hd]
            exact (ih _).cons

section Returns

open Stmt Session

variable {s s' : Session (Db V) (WriterMem V)}

/-- One round of the loop drops its trace if it is too large. -/
theorem dropOversized_returns
    {states : String → Option TraceSummaryState} {ingestedAt : Time}
    {dropped dropped' : List String} {id : String}
    (h : Returns (dropOversized states ingestedAt dropped id) s dropped' s') :
    dropped' = (if oversized states id then dropped ++ [id] else dropped) ∧
      s.Updates (dropIfOversized states ingestedAt id) s' := by
  unfold dropOversized at h
  unfold oversized dropIfOversized
  cases hst : states id with
  | none =>
      rw [hst] at h
      obtain ⟨rfl, rfl⟩ := returns_pure.mp h
      exact ⟨rfl, rfl, rfl, rfl⟩
  | some state =>
      rw [hst] at h
      dsimp only at h ⊢
      split at h
      · rename_i hle
        obtain ⟨rfl, rfl⟩ := returns_pure.mp h
        refine ⟨?_, ?_, rfl, rfl⟩
        · rw [if_neg (by simpa using hle)]
        · rw [if_pos hle]
      · rename_i hle
        obtain ⟨_, t₁, h₁, h⟩ := returns_bind.mp h
        obtain ⟨_, t₂, h₂, h⟩ := returns_bind.mp h
        obtain ⟨_, t₃, h₃, h⟩ := returns_bind.mp h
        obtain ⟨_, t₄, h₄, h⟩ := returns_bind.mp h
        obtain ⟨rfl, rfl⟩ := returns_pure.mp h
        have hu := (((updates_of_returns_exec h₁).trans
          (updates_of_returns_exec h₂)).trans
          (updates_of_returns_exec h₃)).trans (updates_of_returns_exec h₄)
        refine ⟨?_, ?_, hu.saved, hu.mem⟩
        · rw [if_pos (by simpa using hle)]
        · rw [if_neg hle, hu.db]
          rfl

/-- The loop returns the traces it dropped. -/
theorem fold_dropOversized_returns
    {states : String → Option TraceSummaryState} {ingestedAt : Time}
    {ids dropped : List String}
    (h : Returns (Stmt.fold (dropOversized states ingestedAt) [] ids) s dropped s') :
    dropped = ids.filter (oversized states) ∧
      Dropped (ids.filter (oversized states)) s.db s'.db ∧
      s'.saved = s.saved ∧ s'.mem = s.mem := by
  obtain ⟨hdb, hsaved, hmem⟩ := returns_fold
    (g := fun _ dropped id => if oversized states id then dropped ++ [id] else dropped)
    (k := fun db _ id => dropIfOversized states ingestedAt id db)
    (fun _ _ _ _ _ hu => dropOversized_returns hu) _ _ _ _ _ h
  have hpair : ∀ (ids acc : List String) (db : Db V),
      ids.foldl (fun p id =>
          (if oversized states id then p.1 ++ [id] else p.1,
            dropIfOversized states ingestedAt id p.2)) (acc, db) =
        (acc ++ ids.filter (oversized states),
          ids.foldl (fun db id => dropIfOversized states ingestedAt id db) db) := by
    intro ids
    induction ids with
    | nil => simp
    | cons id ids ih =>
        intro acc db
        rw [List.foldl_cons, ih, List.foldl_cons]
        cases ho : oversized states id <;> simp [ho]
  rw [hpair, Prod.mk.injEq] at hdb
  refine ⟨by simpa using hdb.1, ?_, hsaved, hmem⟩
  rw [hdb.2]
  exact foldl_dropIfOversized states ingestedAt ids s.db

end Returns

end Storage
end Otelop
