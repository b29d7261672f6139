import Mathlib.Tactic
import Otelop.Storage.Acceptance

/-!
# A clear that fails

`performClear` empties one table after another, each in a statement that commits on its own, and
forgets the cached hashes last.  When a statement fails, the tables behind it keep their rows.

Two places leave more than an incomplete wipe: between the spans and their summaries, and
between the resources and the cache.

**Results.**
* `performClear_eq`: a clear as a loop of statements.
* `failedClear_consistent_iff`: what a failed clear leaves is consistent unless it stops in one
  of these places with something left.
-/

namespace Otelop
namespace Storage

open Lib Stmt

variable {V : Type}

/-- The statements of `performClear`, the last of which is the checkpoint. -/
def clearSteps : List (String × (Db V → Db V)) :=
  [("storage: clear span_links", fun db => { db with spanLinks := [] }),
    ("storage: clear spans", fun db => { db with spans := [] }),
    ("storage: clear trace_summaries", fun db => { db with traceSummaries := .empty }),
    ("storage: clear metric_exemplars", fun db => { db with metricExemplars := [] }),
    ("storage: clear metric_points", fun db => { db with metricPoints := [] }),
    ("storage: clear logs", fun db => { db with logs := [] }),
    ("storage: clear metric_series", fun db => { db with metricSeries := .empty }),
    ("storage: clear histogram_layouts", fun db => { db with histogramLayouts := .empty }),
    ("storage: clear resources", fun db => { db with resources := .empty }),
    ("storage: clear dropped_traces", fun db => { db with droppedTraces := .empty }),
    ("storage: checkpoint", id)]

/-- The tables after the first `i` statements. -/
def Db.clearedTo (db : Db V) (i : Nat) : Db V := runSteps (clearSteps.take i) db

theorem performClear_eq :
    performClear (V := V) =
      each (fun step => exec step.1 step.2) clearSteps >>= fun _ =>
        Stmt.modify WriterMem.resetCache := by
  unfold performClear clearSteps
  simp only [each_exec_cons_bind, each_nil_bind]

/-- A clear that stops at statement `i` has run those before it. -/
theorem performClear_failed
    {s : Store V} {i : Nat} (hi : firstFault s.faults = some i)
    (hlt : i < (clearSteps (V := V)).length) :
    ∃ e, performClear s =
      (.error e,
        { s with db := s.db.clearedTo i, faults := s.faults.drop (i + 1) }) := by
  obtain ⟨e, he⟩ := each_exec_failed hi hlt
  refine ⟨e, ?_⟩
  rw [performClear_eq, bind_apply, he]
  rfl

theorem performClear_ok
    {s : Store V}
    (h : ∀ i, firstFault s.faults = some i → (clearSteps (V := V)).length ≤ i) :
    (performClear s).1 = .ok () := by
  rw [performClear_eq, bind_apply, each_exec_done h]
  rfl

variable {sub : Time → Time → Int} {P : List StoredSpan → TraceSummaryRow → Prop}

/-- A clear that returns an error stopped at one of its statements. -/
theorem failedClear_after
    {s : Store V} {faults : List Bool} (h : ¬ s.succeeds sub .clear faults) :
    ∃ i < 11, firstFault faults = some i ∧
      s.after sub .clear faults =
        { s with db := s.db.clearedTo i, faults := faults.drop (i + 1) } := by
  by_cases hstop : ∃ i < 11, firstFault faults = some i
  · obtain ⟨i, hlt, hi⟩ := hstop
    obtain ⟨e, he⟩ := performClear_failed (s := s.withFaults faults) hi hlt
    exact ⟨i, hlt, hi, congrArg Prod.snd he⟩
  · refine absurd (performClear_ok (s := s.withFaults faults) fun i hi => ?_) h
    by_contra hlt
    exact hstop ⟨i, not_le.mp hlt, hi⟩

/-! ### The tables behind the statement that failed -/

section Tables

variable {db : Db V} {i : Nat}

theorem TraceInv.of_noSpans
    {db' : Db V} (hspans : db'.spans = []) (hlinks : db'.spanLinks = [])
    (hsummaries : db'.traceSummaries.rows = []) :
    TraceInv P db' := by
  refine ⟨?_, ?_, ?_, ?_, ?_, ?_⟩ <;> simp [hspans, hlinks, hsummaries, traceRows]

theorem TraceInv.no_summaries
    (hP : SummarySpec sub P) (h : TraceInv P db) (hspans : db.spans = []) :
    db.traceSummaries.rows = [] := by
  refine List.eq_nil_iff_forall_not_mem.mpr fun t ht => ?_
  have hsum := h.summary t ht
  rw [hspans] at hsum
  exact hP.ne_nil hsum rfl

/-- The trace tables agree unless the spans went and their summaries stayed. -/
theorem TraceInv.clearedTo
    (hP : SummarySpec sub P) (h : TraceInv P db) (hi : i < 11)
    (hspans : i = 2 → db.spans = []) :
    TraceInv P (db.clearedTo i) := by
  interval_cases i
  · exact h
  · have hlinks : ∀ l ∈ (db.clearedTo 1).spanLinks, ∃ s ∈ db.spans,
        s.key = (l.sourceTraceID, l.sourceSpanID) := fun _ hl => absurd hl List.not_mem_nil
    exact ⟨h.keys_nodup, h.summary, h.covered, h.kept, hlinks, h.bounded⟩
  · have hnone := h.no_summaries hP (hspans rfl)
    exact .of_noSpans rfl rfl hnone
  all_goals exact .of_noSpans rfl rfl rfl

/-- Facts go before the dimensions they refer to. -/
theorem RefInv.clearedTo
    (h : RefInv db) (hi : i < 11) :
    RefInv (db.clearedTo i) := by
  by_cases hdim : i ≤ 6
  · refine h.of_sameDimensions ?_ ?_ ?_ ?_ ?_ ?_ ?_
    all_goals
      interval_cases i <;>
        simp +contextual [Db.clearedTo, clearSteps, runSteps, Db.hasResource]
  · have hempty : ∀ {db' : Db V}, db'.spans = [] → db'.logs = [] → db'.metricPoints = [] →
        db'.metricExemplars = [] → db'.metricSeries.rows = [] → RefInv db' := by
      intro db' hs hl hp he hx
      refine ⟨?_, ?_, ?_, ?_, ?_, ?_⟩ <;> simp [hs, hl, hp, he, hx]
    interval_cases i
    all_goals first | exact absurd (by decide) hdim | exact hempty rfl rfl rfl rfl rfl

theorem clearedTo_resources (hi : i < 9) : (db.clearedTo i).resources = db.resources := by
  interval_cases i <;> rfl

theorem clearedTo_noResources (hi : i = 9 ∨ i = 10) : (db.clearedTo i).resources.rows = [] := by
  rcases hi with rfl | rfl <;> rfl

end Tables

/-! ### What a failed clear leaves -/

/-- What becomes of a batch that is written now: only a fault refuses it, its rows are in the
tables and its resources have rows once it is written, and the references resolve in any case. -/
structure Stored (sub : Time → Time → Int) (s : Store V) (op : Op V) : Prop where
  accepted : s.succeeds sub op []
  rows : ∀ faults : List Bool, s.succeeds sub op faults →
    op.StoredIn (s.after sub op faults).db
  resources : ∀ faults : List Bool, s.succeeds sub op faults →
    ∀ r ∈ op.resources, (s.after sub op faults).db.hasResource r.resourceHash
  references : ∀ faults : List Bool, RefInv (s.after sub op faults).db

/-- What the store satisfies between two operations: the summaries are the aggregation of the
spans, the references and the cache are sound, and a batch written now is stored with its
resources. -/
structure Consistent (sub : Time → Time → Int) (s : Store V) : Prop where
  summaries : ∀ t, t ∈ s.db.traceSummaries.rows ↔
    Aggregates (traceRows s.db.spans t.traceID) t
  covered : ∀ id, (∃ t ∈ s.db.traceSummaries.rows, t.traceID = id) ↔
    ∃ sp ∈ s.db.spans, sp.traceID = id
  references : RefInv s.db
  cache : CacheSound s
  written : ∀ op : Op V, op.Converted → Stored sub s op

/-- The clear does not stop at the summaries of spans it deleted, nor behind the resources with
a hash in the cache. -/
def ClearHarmless (s : Store V) (faults : List Bool) : Prop :=
  (firstFault faults = some 2 → s.db.spans = []) ∧
    (firstFault faults = some 9 ∨ firstFault faults = some 10 →
      s.mem.resourceCache.items = [])

/-- The stores that runs lead to in which every clear is harmless. -/
inductive ClearRun (sub : Time → Time → Int) : Store V → Prop where
  | new : ClearRun sub (Store.new V)
  | step {s : Store V} (op : Op V) (faults : List Bool) :
      ClearRun sub s → op.Closed → (op = .clear → ClearHarmless s faults) →
      ClearRun sub (s.after sub op faults)

theorem StoreInv.consistent
    (hsub : SubExact sub) {s : Store V} (h : StoreInv s) :
    Consistent sub s where
  summaries := fun _ => h.traces.mem_traceSummaries_iff
  covered := fun _ => h.traces.exists_summary_iff (summarySpec_aggregates hsub)
  references := h.references
  cache := h.cache
  written := fun op hop =>
    { accepted := h.succeeds hsub hop
      rows := fun _ hok => h.storedIn hop hok
      resources := fun _ hok => resources_written h.cache hok
      references := fun faults =>
        (h.after hsub op faults hop.closed fun heq => absurd heq hop.ne_clear).references }

/-- A clear that stops in no harmful place keeps the invariant. -/
theorem StoreInv.harmless
    (hsub : SubExact sub) {s : Store V} (h : StoreInv s) {faults : List Bool}
    (hharmless : ClearHarmless s faults) :
    StoreInv (s.after sub .clear faults) := by
  by_cases hok : s.succeeds sub .clear faults
  · exact h.after hsub .clear faults trivial fun _ => hok
  · obtain ⟨i, hi, hstop, hafter⟩ := failedClear_after hok
    rw [hafter]
    refine ⟨h.saved, ?_, h.references.clearedTo hi, ?_⟩
    · exact h.traces.clearedTo (summarySpec_aggregates hsub) hi fun h2 =>
        hharmless.1 (by rw [hstop, h2])
    · by_cases hlt : i < 9
      · exact h.cache.congr (clearedTo_resources hlt) fun _ hk => hk
      · have hempty : s.mem.resourceCache.items = [] :=
          hharmless.2 (by rw [hstop, Option.some_inj, Option.some_inj]; omega)
        intro hash hhash
        dsimp only at hhash
        rw [hempty] at hhash
        cases hhash

/-- A clear that stops in a harmful place shows. -/
theorem harmless_of_consistent
    {s : Store V} (h : StoreInv s) {faults : List Bool}
    (hfail : ¬ s.succeeds sub .clear faults)
    (hcons : Consistent sub (s.after sub .clear faults)) :
    ClearHarmless s faults := by
  obtain ⟨i, hi, hstop, hafter⟩ := failedClear_after hfail
  rw [hafter] at hcons
  constructor
  · intro h2
    obtain rfl : i = 2 := by
      rw [hstop] at h2
      exact Option.some_inj.mp h2
    refine List.eq_nil_iff_forall_not_mem.mpr fun sp hsp => ?_
    obtain ⟨t, ht, -⟩ := h.traces.covered sp hsp
    exact ((hcons.summaries t).mp ht).ne_nil rfl
  · intro h9
    refine List.eq_nil_iff_forall_not_mem.mpr fun hash hhash => ?_
    obtain ⟨r, hr, -⟩ := hcons.cache hash hhash
    rw [hstop, Option.some_inj, Option.some_inj] at h9
    have hnone : (s.db.clearedTo i).resources.rows = [] := clearedTo_noResources h9
    dsimp only at hr
    rw [hnone] at hr
    cases hr

theorem ClearRun.inv
    (hsub : SubExact sub) {s : Store V} (hs : ClearRun sub s) :
    StoreInv s := by
  induction hs with
  | new => exact .new
  | step op faults _ hop hclear ih =>
      by_cases heq : op = .clear
      · subst heq
        exact ih.harmless hsub (hclear rfl)
      · exact ih.after hsub op faults hop fun h => absurd h heq

/-- In every run whose clears are harmless the store is consistent, and a clear that returns an
error leaves it so exactly when it stopped in no harmful place. -/
theorem failedClear_consistent_iff
    (hsub : SubExact sub) {s : Store V} (hs : ClearRun sub s) :
    Consistent sub s ∧
      ∀ faults : List Bool, ¬ s.succeeds sub .clear faults →
        (Consistent sub (s.after sub .clear faults) ↔ ClearHarmless s faults) := by
  have hinv := hs.inv hsub
  refine ⟨hinv.consistent hsub, fun faults hfail => ?_⟩
  exact ⟨harmless_of_consistent hinv hfail, fun h => (hinv.harmless hsub h).consistent hsub⟩

/-- A batch of one span. -/
def writeOneSpan : Op Unit :=
  .writeTraces
    { resources := [⟨0, "checkout", .empty⟩]
      spans := [.bare "t" "a" "" 0 10]
      summaries := []
      droppedTraceIDs := [] } 100 101

theorem writeOneSpan_closed : writeOneSpan.Closed := by
  intro sp hsp
  rw [List.mem_singleton.mp hsp]
  exact ⟨_, List.mem_singleton_self _, rfl⟩

def Store.oneSpan : Store Unit := (Store.new Unit).after Time.sub writeOneSpan []

theorem failedClear_consistent_iff_oneSpan :
    Consistent Time.sub Store.oneSpan ∧
      (Consistent Time.sub (Store.oneSpan.after Time.sub .clear [false, true]) ↔
        ClearHarmless Store.oneSpan [false, true]) := by
  have hrun : ClearRun Time.sub Store.oneSpan :=
    .step _ _ .new writeOneSpan_closed fun h => by cases h
  have h := failedClear_consistent_iff (fun _ _ _ _ => Iff.rfl) hrun
  exact ⟨h.1, h.2 _ fun hok => by cases hok⟩

/-- A clear whose checkpoint fails leaves the hash of the deleted resource in the cache. -/
theorem failedClear_inconsistent :
    ¬ ∀ s : Store Unit, Reachable Time.sub Op.Closed s →
      ∀ faults : List Bool, ¬ s.succeeds Time.sub .clear faults →
        Consistent Time.sub (s.after Time.sub .clear faults) := by
  intro h
  have hreach : Reachable Time.sub Op.Closed Store.oneSpan :=
    .step _ _ .new writeOneSpan_closed fun h => by cases h
  have hcons := h _ hreach (List.replicate 10 false ++ [true]) fun hok => by cases hok
  obtain ⟨r, hr, -⟩ := hcons.cache 0 (List.mem_singleton_self _)
  cases hr

/-- A batch that names the resource is refused from then on: its summary joins with no name. -/
example :
    let s := Store.oneSpan.after Time.sub .clear (List.replicate 10 false ++ [true])
    (writeOneSpan.perform Time.sub (s.withFaults [])).1 =
      .error "storage: query stored trace summaries" := by
  rfl

end Storage
end Otelop
