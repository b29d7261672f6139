import Otelop.Storage.FailedClear
import Otelop.Storage.Pages
import Otelop.Storage.RootChoice

/-!
# One trace in detail

`TraceByID` and `SpanByID` of `internal/storage/query_trace.go` read the spans of a trace, joined
with their resources; `TraceByID` also summarises them, where the list pages read the summary
that the write path maintains.

`order` is the `ORDER BY d.start_ts` of the query: the database may put spans that start at one
time in any order.

**Results.**
* `summarizeSpans_eq`: what the loops compute is the row of the trace.
* `traceByID_agrees`: in every run the detail of a trace shows its stored spans, and its summary
  is that of the list.
-/

namespace Otelop
namespace Storage

open Lib

variable {V : Type}

/-- A `SpanDetail` with the fields that a summary does not use. -/
structure SpanDetailRow extends SpanDetail where
  flags : UInt32
  traceState : String
  droppedLinksCount : UInt32
  statusMessage : String
  attributes : Attributes
  events : List SpanEventRow
  resource : Attributes

structure TraceDetail where
  summary : TraceSummary
  spans : List SpanDetailRow

/-- One row of `scanSpanDetails`. -/
def StoredSpan.detailRow (s : StoredSpan) (r : ResourceRow) : SpanDetailRow where
  toSpanDetail := s.detail fun _ => r.serviceName
  flags := s.flags
  traceState := s.traceState
  droppedLinksCount := s.droppedLinksCount
  statusMessage := s.statusMessage
  attributes := s.attributes
  events := s.events
  resource := r.attributes

/-- `ORDER BY d.start_ts` -/
structure OrdersByStart (order : List (StoredSpan × ResourceRow) → List (StoredSpan × ResourceRow)) :
    Prop where
  perm : ∀ l, (order l).Perm l
  sorted : ∀ l, (order l).Pairwise fun x y => x.1.startTS ≤ y.1.startTS

/-- The rows of `spanDetailsQuery` before they are ordered. -/
def Db.joinedSpans (db : Db V) (selected : StoredSpan → Bool) : List (StoredSpan × ResourceRow) :=
  (dedupByIngest (db.spans.filter selected)).filterMap fun s =>
    (db.resources.find? s.resourceHash).map fun r => (s, r)

/-- `PickRootSpan`, over whole rows. -/
def pickRootRow (spans : List SpanDetailRow) : Option SpanDetailRow :=
  spans.foldl
    (fun root sp =>
      if sp.parentSpanID ≠ "" then root
      else
        match root with
        | none => some sp
        | some r => if sp.toSpanDetail.outranks r.toSpanDetail then some sp else some r)
    none

section Query

variable (order : List (StoredSpan × ResourceRow) → List (StoredSpan × ResourceRow))

/-- `spanDetailsQuery` and `scanSpanDetails` -/
def Db.spanDetails (db : Db V) (selected : StoredSpan → Bool) : List SpanDetailRow :=
  (order (db.joinedSpans selected)).map fun x => x.1.detailRow x.2

def Db.traceByID (db : Db V) (traceID : String) : Option TraceDetail :=
  match db.spanDetails order fun s => s.traceID = traceID with
  | [] => none
  | first :: rest =>
      some
        { summary := summarizeSpans traceID ((first :: rest).map SpanDetailRow.toSpanDetail)
          spans := first :: rest }

def Db.spanByID (db : Db V) (traceID spanID : String) : Option SpanDetailRow :=
  (db.spanDetails order fun s => s.traceID = traceID && s.spanID = spanID).head?

end Query

/-! ### What the loops compute -/

theorem pickRootRow_toSpanDetail (spans : List SpanDetailRow) :
    (pickRootRow spans).map SpanDetailRow.toSpanDetail =
      pickRootSpan (spans.map SpanDetailRow.toSpanDetail) := by
  induction spans using List.reverseRecOn with
  | nil => rfl
  | append_singleton spans sp ih =>
      unfold pickRootRow pickRootSpan at ih ⊢
      rw [List.map_append, List.foldl_append, List.foldl_append, ← ih]
      simp only [List.map_cons, List.map_nil, List.foldl_cons, List.foldl_nil]
      split
      · rfl
      · cases (List.foldl _ none spans : Option SpanDetailRow) with
        | none => rfl
        | some r =>
            simp only [Option.map_some]
            split <;> rfl

theorem linkCount_summarizeLoop (first : SpanDetail) (spans : List SpanDetail) :
    (summarizeLoop first spans).linkCount = (spans.map SpanDetail.linkCount).sum := by
  induction spans using List.reverseRecOn with
  | nil => rfl
  | append_singleton spans sp ih =>
      unfold summarizeLoop at ih ⊢
      rw [List.foldl_append, List.map_append, List.sum_append, ← ih, List.foldl_cons,
        List.foldl_nil, SummaryLoop.step, List.map_cons, List.map_nil, List.sum_singleton]

theorem root_summarizeLoop (first : SpanDetail) (spans : List SpanDetail) :
    (summarizeLoop first spans).root = pickRootSpan spans := by
  induction spans using List.reverseRecOn with
  | nil => rfl
  | append_singleton spans sp ih =>
      unfold summarizeLoop pickRootSpan at ih ⊢
      rw [List.foldl_append, List.foldl_append, List.foldl_cons, List.foldl_nil, List.foldl_cons,
        List.foldl_nil, SummaryLoop.step, ih]
      by_cases hp : sp.parentSpanID = ""
      · simp only [hp, decide_true, Bool.true_and, ne_eq, not_true_eq_false, if_false]
        split <;> simp_all
      · simp only [hp, decide_false, Bool.false_and, Bool.false_eq_true, if_false, ne_eq,
          not_false_eq_true, if_true]

/-- The root fields of a summary are those of the picked span, and so is the service. -/
theorem root_summarizeSpans (id : String) (spans : List SpanDetail) :
    (summarizeSpans id spans).root = (pickRootSpan spans).map
        (fun r => ⟨r.name, r.kind, r.statusCode, r.duration⟩) ∧
      ∀ r, pickRootSpan spans = some r → (summarizeSpans id spans).serviceName = r.serviceName := by
  cases spans with
  | nil => exact ⟨rfl, nofun⟩
  | cons first rest =>
      dsimp only [summarizeSpans]
      rw [root_summarizeLoop]
      refine ⟨rfl, fun r hr => ?_⟩
      rw [hr, Option.getD_some]

theorem pickRootRow_eq_some {spans : List SpanDetailRow} {root : SpanDetailRow}
    (h : pickRootRow spans = some root) :
    root ∈ spans ∧ root.parentSpanID = "" := by
  induction spans using List.reverseRecOn generalizing root with
  | nil => cases h
  | append_singleton spans sp ih =>
      unfold pickRootRow at ih h
      rw [List.foldl_append, List.foldl_cons, List.foldl_nil] at h
      have hold : ∀ r, (spans.foldl _ none : Option SpanDetailRow) = some r →
          r ∈ spans ++ [sp] ∧ r.parentSpanID = "" := fun r hr =>
        ⟨List.mem_append_left _ (ih hr).1, (ih hr).2⟩
      split at h
      next => exact hold root h
      next hp =>
        have hnew : sp ∈ spans ++ [sp] ∧ sp.parentSpanID = "" :=
          ⟨List.mem_append_right _ (List.mem_singleton_self sp), not_not.mp hp⟩
        split at h
        next =>
          cases h
          exact hnew
        next r hr =>
          split at h
          · cases h
            exact hnew
          · exact hold root (hr.trans h)

/-- The summary that `TraceByID` computes is the one that is maintained. -/
theorem summarizeSpans_eq {rows spans : List StoredSpan} {row : TraceSummaryRow}
    (hagg : Aggregates spans row) (hids : (spans.map StoredSpan.spanID).Nodup)
    (hperm : rows.Perm spans) (service : UInt64 → String) (id : String) :
    summarizeSpans id (rows.map (StoredSpan.detail service)) =
      { linkCount := row.linkCount
        traceID := id
        startTime := row.startTime
        firstSeen := none
        duration := Time.sub row.endTime row.startTime
        spanCount := row.spanCount
        hasError := row.hasError
        serviceName := service ((row.root.map RootSpan.resourceHash).getD row.earliestResourceHash)
        root := row.root.map fun r =>
          ⟨r.name, r.kind, r.statusCode, Time.sub r.endTime r.startTime⟩ } := by
  obtain ⟨first, rest, rfl⟩ := List.exists_cons_of_ne_nil (show rows ≠ [] by
    rintro rfl
    exact hagg.ne_nil hperm.nil_eq.symm)
  have hmem : ∀ s, s ∈ first :: first :: rest ↔ s ∈ spans := by
    intro s
    rw [← hperm.mem_iff]
    simp
  obtain ⟨hstart, hend, herror, hroot⟩ := summarizeLoop_details service first (first :: rest)
  obtain ⟨e, he, hearliest⟩ := earliestDetail_details service first (first :: rest)
  simp only [hmem] at hstart hend
  have hlinks := linkCount_summarizeLoop (first.detail service)
    ((first :: rest).map (StoredSpan.detail service))
  obtain ⟨e', he', -, hhash⟩ := hagg.earliest
  have he : IsFirst earliestBefore spans e :=
    ⟨(hmem e).mp he.1, fun y hy => he.2 y ((hmem y).mpr hy)⟩
  obtain rfl := he.unique (earliestBefore_totalOn hids) he'
  have hpick : pickRootSpan ((first :: rest).map (StoredSpan.detail service)) =
      (firstBy (rootBefore Time.sub) (parentless (first :: rest))).map
        (StoredSpan.detail service) := pickRootSpan_details service (first :: rest)
  have hfields : (summarizeLoop (first.detail service)
        ((first :: rest).map (StoredSpan.detail service))).hasError = row.hasError := by
    rw [Bool.eq_iff_iff, herror, hagg.hasError]
    simp only [hperm.mem_iff]
  have hsum : ((first :: rest).map (StoredSpan.detail service)).map SpanDetail.linkCount =
      (first :: rest).map StoredSpan.linkCount := by
    rw [List.map_map]
    rfl
  rw [hsum, (hperm.map StoredSpan.linkCount).sum_eq, ← hagg.linkCount] at hlinks
  rw [List.map_cons] at hstart hend hlinks hfields hearliest hroot hpick ⊢
  dsimp only [summarizeSpans]
  rw [hstart.unique hagg.startTime, hend.unique hagg.endTime, hlinks, hfields, hroot, hpick,
    hearliest]
  have hcount : ((first.detail service) :: rest.map (StoredSpan.detail service)).length =
      row.spanCount := by
    rw [hagg.spanCount, ← hperm.length_eq, List.length_cons, List.length_map, List.length_cons]
  rw [hcount]
  have hisRoot := hagg.root
  cases hr : row.root with
  | none =>
      rw [hr] at hisRoot
      have hnone : parentless (first :: rest) = [] := by
        refine List.filter_eq_nil_iff.mpr fun x hx => ?_
        simpa using hisRoot x (hperm.mem_iff.mp hx)
      rw [hnone, firstBy_nil]
      simp only [Option.map_none, Option.getD_none, hhash]
      rfl
  | some r =>
      rw [hr] at hisRoot
      obtain ⟨x, hx, rfl⟩ := hisRoot
      have hfirst : firstBy (rootBefore Time.sub) (parentless (first :: rest)) = some x := by
        have hpar : (parentless (first :: rest)).Perm (parentless spans) := hperm.filter _
        rw [firstBy_eq_some_iff (rootBefore_strictOrder _) (rootBefore_totalOn ?_ _)]
        · exact hx.perm hpar.symm
        · exact (hperm.map StoredSpan.spanID).nodup_iff.mpr hids
      rw [hfirst]
      rfl

/-! ### The rows of the query -/

/-- The name that a hash joins with. -/
def Db.resourceName (db : Db V) (hash : UInt64) : String := (db.serviceName hash).getD ""

section Joined

variable {db : Db V}

theorem mem_joinedSpans (hkeys : (db.spans.map StoredSpan.key).Nodup) {selected : StoredSpan → Bool}
    {x : StoredSpan × ResourceRow} :
    x ∈ db.joinedSpans selected ↔
      x.1 ∈ db.spans ∧ selected x.1 = true ∧ db.resources.find? x.1.resourceHash = some x.2 := by
  obtain ⟨s, r⟩ := x
  have hfilter : ((db.spans.filter selected).map StoredSpan.key).Nodup :=
    (List.filter_sublist.map _).nodup hkeys
  rw [Db.joinedSpans, dedupByIngest_eq_self hfilter, List.mem_filterMap]
  simp only [Option.map_eq_some_iff, List.mem_filter, Prod.mk.injEq]
  constructor
  · rintro ⟨s', hs', r', hr', rfl, rfl⟩
    exact ⟨hs'.1, hs'.2, hr'⟩
  · rintro ⟨hs, hselected, hr⟩
    exact ⟨s, ⟨hs, hselected⟩, r, hr, rfl, rfl⟩

/-- Every span has its resource. -/
theorem map_fst_joinedSpans (hkeys : (db.spans.map StoredSpan.key).Nodup)
    (href : ∀ s ∈ db.spans, db.hasResource s.resourceHash) (selected : StoredSpan → Bool) :
    (db.joinedSpans selected).map Prod.fst = db.spans.filter selected := by
  have hfilter : ((db.spans.filter selected).map StoredSpan.key).Nodup :=
    (List.filter_sublist.map _).nodup hkeys
  rw [Db.joinedSpans, dedupByIngest_eq_self hfilter, List.map_filterMap]
  have hone : ∀ s ∈ db.spans.filter selected,
      ((db.resources.find? s.resourceHash).map fun r => (s, r)).map Prod.fst = some s := by
    intro s hs
    obtain ⟨r, hr, hhash⟩ := href s (List.mem_filter.mp hs).1
    rw [(KeyedTable.find?_eq_some_iff _).mpr ⟨hr, hhash⟩]
    rfl
  rw [List.filterMap_congr hone]
  exact List.filterMap_some

/-- A joined row has the fields of its span and the name of its resource. -/
theorem toSpanDetail_joined (hkeys : (db.spans.map StoredSpan.key).Nodup)
    {selected : StoredSpan → Bool} {l : List (StoredSpan × ResourceRow)}
    (hl : l.Perm (db.joinedSpans selected)) :
    (l.map fun x => x.1.detailRow x.2).map SpanDetailRow.toSpanDetail =
      (l.map Prod.fst).map (StoredSpan.detail db.resourceName) := by
  rw [List.map_map, List.map_map]
  refine List.map_congr_left fun x hx => ?_
  obtain ⟨-, -, hr⟩ := (mem_joinedSpans hkeys).mp (hl.mem_iff.mp hx)
  simp only [Function.comp_apply, StoredSpan.detailRow, StoredSpan.detail, Db.resourceName,
    Db.serviceName, hr, Option.map_some, Option.getD_some]

end Joined

/-! ### In every run -/

/-- The detail of a trace is that of the stored spans, and of the list. -/
structure TraceDetail.Shows
    (order : List (StoredSpan × ResourceRow) → List (StoredSpan × ResourceRow)) (db : Db V)
    (traceID : String) (d : TraceDetail) : Prop where
  spans : ∀ sp, sp ∈ d.spans ↔ ∃ s ∈ db.spans, s.traceID = traceID ∧
    ∃ r, db.resources.find? s.resourceHash = some r ∧ sp = s.detailRow r
  spanIDs : (d.spans.map fun sp => sp.spanID).Nodup
  sorted : d.spans.Pairwise fun x y => x.startTS ≤ y.startTS
  summary : ∃ t ∈ db.traceSummaries.rows, t.traceID = traceID ∧
    db.scanPageSummary t = some { d.summary with firstSeen := some t.firstSeen }
  single : ∀ spanID, db.spanByID order traceID spanID =
    d.spans.find? fun sp => sp.spanID = spanID

section Runs

variable {order : List (StoredSpan × ResourceRow) → List (StoredSpan × ResourceRow)}
  {sub : Time → Time → Int} {s : Store V}

theorem TraceInv.spanIDs_nodup {db : Db V} (h : TraceInv Aggregates db) (traceID : String) :
    ((traceRows db.spans traceID).map StoredSpan.spanID).Nodup := by
  have hkeys : ((traceRows db.spans traceID).map StoredSpan.key).Nodup :=
    (List.filter_sublist.map _).nodup h.keys_nodup
  refine (List.nodup_map_iff_inj_on hkeys.of_map).mpr fun x hx y hy hxy => ?_
  refine List.inj_on_of_nodup_map hkeys hx hy ?_
  rw [StoredSpan.key, StoredSpan.key, (mem_traceRows.mp hx).2, (mem_traceRows.mp hy).2, hxy]

theorem serviceName_eq {db : Db V} {hash : UInt64} (h : db.hasResource hash) :
    db.serviceName hash = some (db.resourceName hash) := by
  obtain ⟨r, hr, hhash⟩ := h
  rw [Db.resourceName, Db.serviceName, (KeyedTable.find?_eq_some_iff _).mpr ⟨hr, hhash⟩]
  rfl

/-- The row of the list, whose root and earliest span have their resources. -/
theorem scanPageSummary_eq (h : StoreInv s) {t : TraceSummaryRow}
    (ht : t ∈ s.db.traceSummaries.rows) :
    s.db.scanPageSummary t = some
      { linkCount := t.linkCount
        traceID := t.traceID
        startTime := t.startTime
        firstSeen := some t.firstSeen
        duration := Time.sub t.endTime t.startTime
        spanCount := t.spanCount
        hasError := t.hasError
        serviceName := s.db.resourceName
          ((t.root.map RootSpan.resourceHash).getD t.earliestResourceHash)
        root := t.root.map fun r =>
          ⟨r.name, r.kind, r.statusCode, Time.sub r.endTime r.startTime⟩ } := by
  have hagg := h.traces.summary t ht
  have hstored : ∀ x ∈ traceRows s.db.spans t.traceID, s.db.hasResource x.resourceHash :=
    fun x hx => h.references.spans x (mem_traceRows.mp hx).1
  have hroot := hagg.root
  cases hr : t.root with
  | none =>
      obtain ⟨e, he, -, hhash⟩ := hagg.earliest
      have hname := serviceName_eq (hhash ▸ hstored e he.1)
      simp only [Db.scanPageSummary, Db.scanTraceSummary, hr, Option.bind_none, Option.none_or,
        hname]
      rfl
  | some r =>
      rw [hr] at hroot
      obtain ⟨x, hx, rfl⟩ := hroot
      have hname := serviceName_eq (hstored x (mem_parentless.mp hx.1).1)
      simp only [Db.scanPageSummary, Db.scanTraceSummary, hr, Option.bind_some,
        StoredSpan.rootSpan, hname, Option.some_or]
      rfl

/-- What a query of the spans of a trace gives. -/
theorem mem_spanDetails (horder : OrdersByStart order) (h : StoreInv s)
    (selected : StoredSpan → Bool) (sp : SpanDetailRow) :
    sp ∈ s.db.spanDetails order selected ↔ ∃ x ∈ s.db.spans, selected x = true ∧
      ∃ r, s.db.resources.find? x.resourceHash = some r ∧ sp = x.detailRow r := by
  simp only [Db.spanDetails, List.mem_map, (horder.perm _).mem_iff,
    mem_joinedSpans h.traces.keys_nodup]
  constructor
  · rintro ⟨⟨x, r⟩, ⟨hx, hselected, hr⟩, rfl⟩
    exact ⟨x, hx, hselected, r, hr, rfl⟩
  · rintro ⟨x, hx, hselected, r, hr, rfl⟩
    exact ⟨(x, r), ⟨hx, hselected, hr⟩, rfl⟩

theorem map_spanDetails (horder : OrdersByStart order) (h : StoreInv s)
    (selected : StoredSpan → Bool) :
    ∃ rows : List StoredSpan, rows.Perm (s.db.spans.filter selected) ∧
      (s.db.spanDetails order selected).map SpanDetailRow.toSpanDetail =
        rows.map (StoredSpan.detail s.db.resourceName) := by
  refine ⟨(order (s.db.joinedSpans selected)).map Prod.fst, ?_,
    toSpanDetail_joined h.traces.keys_nodup (horder.perm _)⟩
  rw [← map_fst_joinedSpans h.traces.keys_nodup h.references.spans selected]
  exact (horder.perm _).map Prod.fst

/-- Reading one span is finding it among the spans of its trace. -/
theorem spanByID_eq_find? (horder : OrdersByStart order) (h : StoreInv s) {traceID : String}
    {spans : List SpanDetailRow}
    (hspans : spans = s.db.spanDetails order fun x => x.traceID = traceID)
    (hids : (spans.map fun sp => sp.spanID).Nodup) (spanID : String) :
    s.db.spanByID order traceID spanID = spans.find? fun sp => sp.spanID = spanID := by
  have hmem : ∀ sp, (sp ∈ s.db.spanDetails order fun x => x.traceID = traceID && x.spanID = spanID) ↔
      sp ∈ spans ∧ sp.spanID = spanID := by
    intro sp
    rw [hspans, mem_spanDetails horder h, mem_spanDetails horder h]
    simp only [Bool.and_eq_true, decide_eq_true_eq]
    constructor
    · rintro ⟨x, hx, ⟨htrace, hspan⟩, r, hr, rfl⟩
      exact ⟨⟨x, hx, htrace, r, hr, rfl⟩, hspan⟩
    · rintro ⟨⟨x, hx, htrace, r, hr, rfl⟩, hspan⟩
      exact ⟨x, hx, ⟨htrace, hspan⟩, r, hr, rfl⟩
  rw [Db.spanByID]
  cases hfind : spans.find? fun sp => sp.spanID = spanID with
  | none =>
      rw [List.head?_eq_none_iff, List.eq_nil_iff_forall_not_mem]
      intro sp hsp
      obtain ⟨hsp, hspan⟩ := (hmem sp).mp hsp
      exact absurd hspan (by simpa using List.find?_eq_none.mp hfind sp hsp)
  | some sp =>
      have hspan : sp.spanID = spanID := by simpa using List.find?_some hfind
      have hsp := List.mem_of_find?_eq_some hfind
      have hread := (hmem sp).mpr ⟨hsp, hspan⟩
      obtain ⟨first, rest, hlist⟩ := List.exists_cons_of_ne_nil (List.ne_nil_of_mem hread)
      obtain ⟨hfirst, hfirstSpan⟩ := (hmem first).mp (hlist ▸ List.mem_cons_self)
      rw [hlist, List.head?_cons, Option.some.injEq]
      exact List.inj_on_of_nodup_map hids hfirst hsp (hfirstSpan.trans hspan.symm)

theorem traceByID_eq_some {db : Db V} {traceID : String} {d : TraceDetail}
    (hd : db.traceByID order traceID = some d) :
    d.spans = (db.spanDetails order fun x => x.traceID = traceID) ∧ d.spans ≠ [] ∧
      d.summary = summarizeSpans traceID (d.spans.map SpanDetailRow.toSpanDetail) := by
  unfold Db.traceByID at hd
  split at hd
  next => cases hd
  next first rest hlist =>
    cases hd
    exact ⟨hlist.symm, List.cons_ne_nil _ _, rfl⟩

theorem shows_of_traceByID (horder : OrdersByStart order) (h : StoreInv s) {traceID : String}
    {d : TraceDetail} (hd : s.db.traceByID order traceID = some d) :
    d.Shows order s.db traceID := by
  obtain ⟨hspans, hne, hsummary⟩ := traceByID_eq_some hd
  obtain ⟨rows, hperm, hrows⟩ := map_spanDetails horder h fun x => x.traceID = traceID
  rw [← hspans] at hrows
  have hrowIDs : (rows.map StoredSpan.spanID).Nodup :=
    (hperm.map StoredSpan.spanID).nodup_iff.mpr (h.traces.spanIDs_nodup traceID)
  have hids : (d.spans.map fun sp => sp.spanID).Nodup := by
    have : (d.spans.map fun sp => sp.spanID) = rows.map StoredSpan.spanID := by
      calc (d.spans.map fun sp => sp.spanID)
          = (d.spans.map SpanDetailRow.toSpanDetail).map SpanDetail.spanID := by
            rw [List.map_map]
            rfl
        _ = rows.map StoredSpan.spanID := by
            rw [hrows, List.map_map]
            rfl
    rwa [this]
  have hmem := mem_spanDetails horder h fun x => decide (x.traceID = traceID)
  simp only [decide_eq_true_eq] at hmem
  refine ⟨fun sp => by rw [hspans, hmem], hids, ?_, ?_, spanByID_eq_find? horder h hspans hids⟩
  · rw [hspans, Db.spanDetails]
    exact List.pairwise_map.mpr (horder.sorted _)
  · obtain ⟨sp, hsp⟩ := List.exists_mem_of_ne_nil _ hne
    rw [hspans, hmem] at hsp
    obtain ⟨x, hx, hid, -⟩ := hsp
    obtain ⟨t, ht, htid⟩ := h.traces.covered x hx
    rw [hid] at htid
    refine ⟨t, ht, htid, ?_⟩
    have hagg := h.traces.summary t ht
    rw [scanPageSummary_eq h ht, hsummary, hrows]
    rw [htid] at hagg
    rw [summarizeSpans_eq hagg (h.traces.spanIDs_nodup traceID) hperm, htid]

theorem traceByID_eq_none_iff (horder : OrdersByStart order) (h : StoreInv s) (traceID : String) :
    s.db.traceByID order traceID = none ↔
      ∀ t ∈ s.db.traceSummaries.rows, t.traceID ≠ traceID := by
  have hnone : s.db.traceByID order traceID = none ↔
      (s.db.spanDetails order fun x => x.traceID = traceID) = [] := by
    unfold Db.traceByID
    split <;> simp_all
  rw [hnone]
  constructor
  · rintro hnil t ht rfl
    have hrows := (h.traces.summary t ht).ne_nil
    obtain ⟨x, hx⟩ := List.exists_mem_of_ne_nil _ hrows
    obtain ⟨hx, hid⟩ := mem_traceRows.mp hx
    obtain ⟨r, hr, hhash⟩ := h.references.spans x hx
    have hmem := (mem_spanDetails horder h (fun y => y.traceID = t.traceID) (x.detailRow r)).mpr
      ⟨x, hx, decide_eq_true hid, r, (KeyedTable.find?_eq_some_iff _).mpr ⟨hr, hhash⟩, rfl⟩
    rw [hnil] at hmem
    cases hmem
  · intro hall
    refine List.eq_nil_iff_forall_not_mem.mpr fun sp hsp => ?_
    obtain ⟨x, hx, hid, -⟩ := (mem_spanDetails horder h _ sp).mp hsp
    obtain ⟨t, ht, htid⟩ := h.traces.covered x hx
    exact hall t ht (htid.trans (of_decide_eq_true hid))

/-- In every run a trace has a detail when it is in the list, and the detail shows its stored
spans, each once, and the summary of the list. -/
theorem traceByID_agrees (hsub : SubExact sub) (horder : OrdersByStart order)
    (hs : ClearRun sub s) (traceID : String) :
    (s.db.traceByID order traceID = none ↔
        ∀ t ∈ s.db.traceSummaries.rows, t.traceID ≠ traceID) ∧
      ∀ d, s.db.traceByID order traceID = some d → d.Shows order s.db traceID :=
  ⟨traceByID_eq_none_iff horder (hs.inv hsub) traceID,
    fun _ hd => shows_of_traceByID horder (hs.inv hsub) hd⟩

/-- The order of a database that keeps the rows in their order where they start at one time. -/
def orderByStart : List (StoredSpan × ResourceRow) → List (StoredSpan × ResourceRow) :=
  orderAsc fun x => x.1.startTS

theorem orderByStart_orders : OrdersByStart orderByStart where
  perm := fun l => orderDesc_perm l
  sorted := by
    intro l
    have h : (orderByStart l).Pairwise fun x y =>
        OrderDual.toDual y.1.startTS ≤ OrderDual.toDual x.1.startTS := orderDesc_pairwise l
    exact h.imp fun hxy => OrderDual.toDual_le_toDual.mp hxy

theorem traceByID_agrees_oneSpan :
    ∃ d, Store.oneSpan.db.traceByID orderByStart "t" = some d ∧ d.spans.length = 1 ∧
      d.Shows orderByStart Store.oneSpan.db "t" := by
  refine ⟨_, rfl, rfl, ?_⟩
  exact (traceByID_agrees (fun _ _ _ _ => Iff.rfl) orderByStart_orders
    (.step writeOneSpan [] .new writeOneSpan_closed nofun) "t").2 _ rfl

end Runs

end Storage
end Otelop
