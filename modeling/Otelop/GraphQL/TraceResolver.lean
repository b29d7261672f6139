import Otelop.Storage.TraceDetail

/-!
# The resolvers of a trace and its spans

`internal/graphql/trace_resolver.go` and `span_context.go`: a trace starts from its summary, and
loads its spans once when a field needs them.  A span comes from three places: from the loaded
spans (`Trace.spans`), from a query of its own (`Trace.span`), or from the summary of its trace
(`Trace.rootSpan`), where only the fields that the summary lacks load the spans.

No query fails here.

**Results.**
* `parent_agrees`: a parent is the same in memory and through a query.
* `traceResolver_agrees`: in every run the three places agree on every field.
-/

namespace Otelop
namespace GraphQL

open Lib Storage

variable {V : Type}

/-- `TraceResolver`, with the detail that was loaded. -/
structure TraceResolver where
  id : String
  summary : TraceSummary
  detail : Option TraceDetail

/-- A trace of a list, whose spans are not loaded. -/
def newTraceResolver (summary : TraceSummary) : TraceResolver := ⟨summary.traceID, summary, none⟩

/-- A trace whose spans are loaded. -/
def newTraceResolverFromDetail (d : TraceDetail) : TraceResolver :=
  ⟨d.summary.traceID, d.summary, some d⟩

/-- `SpanResolver`, by the fields that are set. -/
inductive SpanResolver where
  | ofTrace (trace : TraceDetail) (s : SpanDetailRow)
  | ofQuery (owner : TraceResolver) (s : SpanDetailRow)
  | ofOwner (owner : TraceResolver)

/-- The lower eight bits of the flags. -/
def contextTraceFlags (flags : UInt32) : UInt32 := flags &&& 0xff

/-- Whether a parent was remote, if the flags know. -/
def contextIsRemote (flags : UInt32) : Option Bool :=
  if flags &&& 0x100 = 0 then none else some (flags &&& 0x200 != 0)

section Resolve

variable (order : List (StoredSpan × ResourceRow) → List (StoredSpan × ResourceRow)) (db : Db V)

/-- A trace that is gone in the meantime has no spans. -/
def TraceResolver.loadDetail (r : TraceResolver) : TraceDetail :=
  match r.detail with
  | some d => d
  | none => (db.traceByID order r.id).getD ⟨r.summary, []⟩

/-- The edge to the root span, from the summary. -/
def TraceResolver.rootSpan (r : TraceResolver) : Option SpanResolver :=
  r.summary.root.map fun _ => .ofOwner r

/-- The edge to all spans. -/
def TraceResolver.spans (r : TraceResolver) : List SpanResolver :=
  let d := r.loadDetail order db
  d.spans.map fun s => .ofTrace d s

/-- The edge to one span, through a query of its own. -/
def TraceResolver.span (r : TraceResolver) (spanID : String) : Option SpanResolver :=
  (db.spanByID order r.id spanID).map fun s => .ofQuery r s

namespace SpanResolver

/-- The span of `resolve`. -/
def resolve : SpanResolver → Option SpanDetailRow
  | .ofTrace _ s | .ofQuery _ s => some s
  | .ofOwner owner => pickRootRow (owner.loadDetail order db).spans

def traceID : SpanResolver → String
  | .ofTrace _ s | .ofQuery _ s => s.traceID
  | .ofOwner owner => owner.id

/-- The id of the span; of a root it is looked up. -/
def spanID (r : SpanResolver) : String := ((r.resolve order db).map (·.spanID)).getD ""

/-- A root has no parent. -/
def parentSpanID : SpanResolver → String
  | .ofTrace _ s | .ofQuery _ s => s.parentSpanID
  | .ofOwner _ => ""

def name : SpanResolver → String
  | .ofTrace _ s | .ofQuery _ s => s.name
  | .ofOwner owner => (owner.summary.root.map TraceSummaryRoot.name).getD ""

def kind : SpanResolver → String
  | .ofTrace _ s | .ofQuery _ s => s.kind
  | .ofOwner owner => (owner.summary.root.map TraceSummaryRoot.kind).getD ""

/-- The service of the span, or of the trace for a root. -/
def serviceName : SpanResolver → String
  | .ofTrace _ s | .ofQuery _ s => s.serviceName
  | .ofOwner owner => owner.summary.serviceName

/-- The start of the span; of a root it is looked up. -/
def startTime (r : SpanResolver) : Time := ((r.resolve order db).map (·.startTS)).getD Time.zero

/-- The end of the span; of a root it is looked up. -/
def endTime (r : SpanResolver) : Time := ((r.resolve order db).map (·.endTS)).getD Time.zero

/-- The duration that `DurationMs` converts. -/
def duration : SpanResolver → Int
  | .ofTrace _ s | .ofQuery _ s => s.duration
  | .ofOwner owner => (owner.summary.root.map TraceSummaryRoot.duration).getD 0

/-- The status code; that of a root is in the summary. -/
def statusCode : SpanResolver → String
  | .ofTrace _ s | .ofQuery _ s => s.statusCode
  | .ofOwner owner => (owner.summary.root.map TraceSummaryRoot.statusCode).getD ""

/-- The summary has no status message, so the spans are loaded. -/
def statusMessage (r : SpanResolver) : String :=
  ((r.resolve order db).map SpanDetailRow.statusMessage).getD ""

/-- The attributes of the span. -/
def attributes (r : SpanResolver) : Attributes :=
  ((r.resolve order db).map SpanDetailRow.attributes).getD .empty

/-- The attributes of its resource. -/
def resource (r : SpanResolver) : Attributes :=
  ((r.resolve order db).map SpanDetailRow.resource).getD .empty

/-- The events of the span. -/
def events (r : SpanResolver) : List SpanEventRow :=
  ((r.resolve order db).map SpanDetailRow.events).getD []

/-- How many links the span has. -/
def linkCount (r : SpanResolver) : Nat := ((r.resolve order db).map (·.linkCount)).getD 0

/-- How many links the exporter dropped. -/
def droppedLinksCount (r : SpanResolver) : UInt32 :=
  ((r.resolve order db).map SpanDetailRow.droppedLinksCount).getD 0

/-- The flags, if the span is found. -/
def flags (r : SpanResolver) : Option UInt32 := (r.resolve order db).map SpanDetailRow.flags

/-- The trace flags, if the span is found. -/
def traceFlags (r : SpanResolver) : Option UInt32 :=
  (r.resolve order db).map fun s => contextTraceFlags s.flags

/-- The trace state, if the span is found. -/
def traceState (r : SpanResolver) : Option String :=
  (r.resolve order db).map SpanDetailRow.traceState

/-- A span without a parent has no remote one. -/
def parentIsRemote (r : SpanResolver) : Option Bool :=
  (r.resolve order db).bind fun s =>
    if s.parentSpanID = "" ∨ s.parentSpanID = "0000000000000000" then none
    else contextIsRemote s.flags

/-- The edge to the trace. -/
def trace : SpanResolver → TraceResolver
  | .ofTrace trace _ => newTraceResolverFromDetail trace
  | .ofQuery owner _ | .ofOwner owner => owner

/-- The edge to the parent span. -/
def parent : SpanResolver → Option SpanResolver
  | .ofOwner _ => none
  | .ofQuery owner s => if s.parentSpanID = "" then none else owner.span order db s.parentSpanID
  | .ofTrace trace s =>
      if s.parentSpanID = "" then none
      else (trace.spans.find? fun p => p.spanID = s.parentSpanID).map fun p => .ofTrace trace p

end SpanResolver

/-- What a client that selects every field of a span reads. -/
structure SpanFields where
  traceID : String
  spanID : String
  parentSpanID : String
  name : String
  kind : String
  serviceName : String
  startTime : Time
  endTime : Time
  duration : Int
  statusCode : String
  statusMessage : String
  attributes : Attributes
  resource : Attributes
  events : List SpanEventRow
  linkCount : Nat
  droppedLinksCount : UInt32
  flags : Option UInt32
  traceFlags : Option UInt32
  traceState : Option String
  parentIsRemote : Option Bool

def SpanResolver.fields (r : SpanResolver) : SpanFields where
  traceID := r.traceID
  spanID := r.spanID order db
  parentSpanID := r.parentSpanID
  name := r.name
  kind := r.kind
  serviceName := r.serviceName
  startTime := r.startTime order db
  endTime := r.endTime order db
  duration := r.duration
  statusCode := r.statusCode
  statusMessage := r.statusMessage order db
  attributes := r.attributes order db
  resource := r.resource order db
  events := r.events order db
  linkCount := r.linkCount order db
  droppedLinksCount := r.droppedLinksCount order db
  flags := r.flags order db
  traceFlags := r.traceFlags order db
  traceState := r.traceState order db
  parentIsRemote := r.parentIsRemote order db

end Resolve

section Agree

variable {order : List (StoredSpan × ResourceRow) → List (StoredSpan × ResourceRow)} {db : Db V}

/-- The root span that the summary shows is the one that is picked from the loaded spans. -/
theorem fields_ofOwner {r : TraceResolver} {d : TraceDetail} {root : SpanDetailRow}
    (hload : r.loadDetail order db = d) (hroot : pickRootRow d.spans = some root)
    (hid : root.traceID = r.id)
    (hsummary : r.summary.root = d.summary.root ∧ r.summary.serviceName = d.summary.serviceName)
    (hd : d.summary = summarizeSpans r.id (d.spans.map SpanDetailRow.toSpanDetail)) :
    (SpanResolver.ofOwner r).fields order db = (SpanResolver.ofTrace d root).fields order db := by
  obtain ⟨hsummaryRoot, hservice⟩ := hsummary
  have hpick : pickRootSpan (d.spans.map SpanDetailRow.toSpanDetail) = some root.toSpanDetail := by
    rw [← pickRootRow_toSpanDetail, hroot]
    rfl
  obtain ⟨hrootFields, hrootService⟩ :=
    root_summarizeSpans r.id (d.spans.map SpanDetailRow.toSpanDetail)
  rw [← hd] at hrootFields hrootService
  rw [hpick, Option.map_some] at hrootFields
  rw [hrootFields] at hsummaryRoot
  rw [hrootService _ hpick] at hservice
  have hresolve : (SpanResolver.ofOwner r).resolve order db = some root := by
    rw [SpanResolver.resolve, hload, hroot]
  have hparent := (pickRootRow_eq_some hroot).2
  simp only [SpanResolver.fields, SpanResolver.traceID, SpanResolver.spanID,
    SpanResolver.parentSpanID, SpanResolver.name, SpanResolver.kind, SpanResolver.serviceName,
    SpanResolver.startTime, SpanResolver.endTime, SpanResolver.duration, SpanResolver.statusCode,
    SpanResolver.statusMessage, SpanResolver.attributes, SpanResolver.resource,
    SpanResolver.events, SpanResolver.linkCount, SpanResolver.droppedLinksCount,
    SpanResolver.flags, SpanResolver.traceFlags, SpanResolver.traceState,
    SpanResolver.parentIsRemote, hresolve, hsummaryRoot, hservice, hparent, hid,
    Option.map_some, Option.getD_some]
  rfl

variable {sub : Time → Time → Int} {s : Store V}

/-- What a resolver that was made from a row of the list loads. -/
theorem loadDetail_eq (horder : OrdersByStart order) (h : StoreInv s) {t : TraceSummaryRow}
    {item : TraceSummary} (ht : t ∈ s.db.traceSummaries.rows)
    (hitem : s.db.scanPageSummary t = some item) :
    ∃ d, s.db.traceByID order t.traceID = some d ∧ d.Shows order s.db t.traceID ∧
      (newTraceResolver item).id = t.traceID ∧ (newTraceResolver item).loadDetail order s.db = d ∧
        item = { d.summary with firstSeen := some t.firstSeen } := by
  have hid : item.traceID = t.traceID := (Db.scanPageSummary_key hitem).2.2
  cases hd : s.db.traceByID order t.traceID with
  | none => exact absurd rfl ((traceByID_eq_none_iff horder h _).mp hd t ht)
  | some d =>
      have hshows := shows_of_traceByID horder h hd
      obtain ⟨t', ht', htid, hscan⟩ := hshows.summary
      obtain rfl : t' = t := List.inj_on_of_nodup_map s.db.traceSummaries.keys_nodup ht' ht htid
      refine ⟨d, rfl, hshows, hid, ?_, ?_⟩
      · simp only [TraceResolver.loadDetail, newTraceResolver, hid, hd, Option.getD_some]
      · rw [hitem, Option.some.injEq] at hscan
        exact hscan

/-- A parent is the same span in memory and through a query. -/
theorem parent_agrees {d : TraceDetail} {r : TraceResolver} (hshows : d.Shows order db r.id)
    (sp : SpanDetailRow) :
    ((SpanResolver.ofTrace d sp).parent order db).map (SpanResolver.fields order db) =
      ((SpanResolver.ofQuery r sp).parent order db).map (SpanResolver.fields order db) := by
  simp only [SpanResolver.parent, TraceResolver.span]
  split
  · rfl
  · rw [hshows.single, Option.map_map, Option.map_map]
    rfl

/-- The root span among the loaded spans. -/
def TraceResolver.pickedRoot (order : List (StoredSpan × ResourceRow) → List (StoredSpan × ResourceRow))
    (db : Db V) (r : TraceResolver) : Option SpanResolver :=
  let d := r.loadDetail order db
  (pickRootRow d.spans).map fun root => .ofTrace d root

/-- In every run, the three ways to a span of a listed trace agree on every field: the root span
of the summary shows what the picked one shows, a span that is queried shows what it shows among
the loaded spans, and so do their parents. -/
theorem traceResolver_agrees (hsub : SubExact sub) (horder : OrdersByStart order)
    (hs : ClearRun sub s) {t : TraceSummaryRow} {item : TraceSummary}
    (ht : t ∈ s.db.traceSummaries.rows) (hitem : s.db.scanPageSummary t = some item) :
    let r := newTraceResolver item
    let shown := Option.map (SpanResolver.fields order s.db)
    shown r.rootSpan = shown (r.pickedRoot order s.db) ∧
      ∀ spanID,
        let queried := r.span order s.db spanID
        let loaded := (r.spans order s.db).find? fun sp => sp.spanID order s.db = spanID
        shown queried = shown loaded ∧
          shown (queried.bind (SpanResolver.parent order s.db)) =
            shown (loaded.bind (SpanResolver.parent order s.db)) := by
  have h := hs.inv hsub
  obtain ⟨d, hd, hshows, hid, hload, hrow⟩ := loadDetail_eq horder h ht hitem
  obtain ⟨hspans, -, hsummary⟩ := traceByID_eq_some hd
  dsimp only
  constructor
  · have hroot := (root_summarizeSpans t.traceID (d.spans.map SpanDetailRow.toSpanDetail)).1
    rw [← hsummary, ← pickRootRow_toSpanDetail] at hroot
    have hitemRoot : item.root = d.summary.root := by rw [hrow]
    simp only [TraceResolver.rootSpan, TraceResolver.pickedRoot, hload]
    cases hpick : pickRootRow d.spans with
    | none =>
        rw [hpick] at hroot
        simp only [newTraceResolver, hitemRoot, hroot, Option.map_none]
    | some root =>
        have hid' : root.traceID = t.traceID := by
          obtain ⟨x, -, hx, r, -, rfl⟩ := (hshows.spans root).mp (pickRootRow_eq_some hpick).1
          exact hx
        rw [hpick] at hroot
        simp only [newTraceResolver, hitemRoot, hroot, Option.map_some, Option.some.injEq]
        refine fields_ofOwner hload hpick (hid'.trans hid.symm) ⟨hitemRoot, by rw [hrow]⟩ ?_
        exact (congrArg (fun id => d.summary = summarizeSpans id _) hid).mpr hsummary
  · intro spanID
    have hloaded : ((newTraceResolver item).spans order s.db).find?
          (fun sp => sp.spanID order s.db = spanID) =
        (d.spans.find? fun sp => sp.spanID = spanID).map (SpanResolver.ofTrace d) := by
      rw [TraceResolver.spans, hload, List.find?_map]
      rfl
    have hqueried : (newTraceResolver item).span order s.db spanID =
        (d.spans.find? fun sp => sp.spanID = spanID).map
          (SpanResolver.ofQuery (newTraceResolver item)) := by
      rw [TraceResolver.span, hid, hshows.single]
    rw [hloaded, hqueried]
    cases d.spans.find? fun sp => sp.spanID = spanID with
    | none => exact ⟨rfl, rfl⟩
    | some sp =>
        simp only [Option.map_some, Option.bind_some]
        exact ⟨rfl, (parent_agrees (hid.symm ▸ hshows) sp).symm⟩

theorem traceResolver_agrees_oneSpan :
    ∃ t item, t ∈ Store.oneSpan.db.traceSummaries.rows ∧
      Store.oneSpan.db.scanPageSummary t = some item ∧
      (newTraceResolver item).rootSpan.isSome ∧
      (newTraceResolver item).rootSpan.map (SpanResolver.fields orderByStart Store.oneSpan.db) =
        ((newTraceResolver item).pickedRoot orderByStart Store.oneSpan.db).map
          (SpanResolver.fields orderByStart Store.oneSpan.db) := by
  refine ⟨_, _, List.mem_singleton_self _, rfl, rfl, ?_⟩
  exact (traceResolver_agrees (fun _ _ _ _ => Iff.rfl) orderByStart_orders
    (.step writeOneSpan [] .new writeOneSpan_closed nofun) (List.mem_singleton_self _) rfl).1

end Agree

end GraphQL
end Otelop
