import Otelop.Storage.TraceInvariant
import Otelop.Storage.Pages

/-!
# Span links from both ends

`internal/storage/span_links.go`: the links that a span records, listed from the span
that has them and from the span they point to.  Both lists are pages of one table, in
the order of the source span and the ordinal, behind a cursor that is JSON in base64.

What a stored span recorded is the row of the batch that was inserted for it.
`LinksRecorded` keeps the table in step with these rows.

**Results.**
* `linksRecorded_wrote`, `linksRecorded_factsDeleted`: what a committed batch and a
  committed deletion keep.
* `linksInvariant`: every operation keeps the links in step with the spans.
* `nodup_listKey`: the key of the two lists determines a link.
-/

namespace Otelop
namespace Storage

open Lib

variable {V : Type}

/-- The span at the other end of a link. -/
structure LinkedSpan where
  traceID : String
  spanID : String
  name : String
  serviceName : String

/-- A link as a page shows it. -/
structure SpanLinkDetail where
  link : SpanLinkRow
  sourceTraceID : String
  sourceSpanID : String
  ordinal : Nat
  source : Option LinkedSpan
  target : Option LinkedSpan

/-- A page of links with the cursor of the next one. -/
structure SpanLinkPage where
  items : List SpanLinkDetail
  hasNextPage : Bool
  endCursor : String

/-- The place of a link in the list of a span. -/
structure LinkCursor where
  traceID : String
  spanID : String
  incoming : Bool
  sourceTraceID : String
  sourceSpanID : String
  ordinal : Int
deriving DecidableEq

/-- A digit that `hex.DecodeString` reads. -/
def isHexDigit (c : Char) : Bool :=
  decide ('0' ≤ c ∧ c ≤ '9') || decide ('a' ≤ c ∧ c ≤ 'f') || decide ('A' ≤ c ∧ c ≤ 'F')

/-- `hex.DecodeString` gives no error. -/
def hexDecodes (id : String) : Bool :=
  decide (id.utf8ByteSize % 2 = 0) && id.toList.all isHexDigit

/-- Both ids have their length, are hexadecimal and are not all zeros. -/
def validSpanContext (traceID spanID : String) : Bool :=
  [(traceID, 32), (spanID, 16)].all fun (value, length) =>
    decide (value.utf8ByteSize = length) && !value.toList.all (fun c => decide (c = '0')) &&
      hexDecodes value

/-- `encoding/json` and `base64.RawURLEncoding`; `unmarshal` decodes into the fields of a
cursor that is given. -/
structure LinkCursorLibraries where
  marshal : LinkCursor → List UInt8
  unmarshal : LinkCursor → List UInt8 → Option LinkCursor
  encodeToString : List UInt8 → String
  decodeString : String → Option (List UInt8)

/-- Each library reads back what it wrote; there is no JSON value in no bytes. -/
structure LinkCursorLibraries.RoundTrips (lib : LinkCursorLibraries) : Prop where
  json : ∀ initial c, lib.unmarshal initial (lib.marshal c) = some c
  noJson : ∀ initial, lib.unmarshal initial [] = none
  base64 : ∀ b, lib.decodeString (lib.encodeToString b) = some b
  noBase64 : lib.decodeString "" = some []

/-- `source_trace_id, source_span_id, ordinal` -/
def StoredSpanLink.listKey (l : StoredSpanLink) : String ×ₗ String ×ₗ Int :=
  toLex (l.sourceTraceID, toLex (l.sourceSpanID, (l.ordinal : Int)))

/-- The key of the span that has the link. -/
def StoredSpanLink.sourceKey (l : StoredSpanLink) : String × String :=
  (l.sourceTraceID, l.sourceSpanID)

/-- The key of the span that the link names. -/
def StoredSpanLink.targetKey (l : StoredSpanLink) : String × String :=
  (l.link.traceID, l.link.spanID)

def LinkCursor.listKey (c : LinkCursor) : String ×ₗ String ×ₗ Int :=
  toLex (c.sourceTraceID, toLex (c.sourceSpanID, c.ordinal))

/-- The joined span of a link: the first that was ingested, if its resource is known. -/
def Db.linkedSpan (db : Db V) (traceID spanID : String) : Option LinkedSpan :=
  (orderAsc StoredSpan.ingestedAt
      (db.spans.filter fun s => s.traceID = traceID ∧ s.spanID = spanID)).findSome? fun s =>
    (db.serviceName s.resourceHash).map fun serviceName => ⟨traceID, spanID, s.name, serviceName⟩

/-- One row of `querySpanLinks`. -/
def Db.spanLinkDetail (db : Db V) (includeAttributes : Bool) (l : StoredSpanLink) :
    SpanLinkDetail where
  link := if includeAttributes then l.link else { l.link with attributes := .empty }
  sourceTraceID := l.sourceTraceID
  sourceSpanID := l.sourceSpanID
  ordinal := l.ordinal
  source := db.linkedSpan l.sourceTraceID l.sourceSpanID
  target :=
    if validSpanContext l.link.traceID l.link.spanID then
      db.linkedSpan l.link.traceID l.link.spanID
    else none

def Db.querySpanLinks (db : Db V) (includeAttributes : Bool) (selection : List StoredSpanLink) :
    List SpanLinkDetail :=
  (orderAsc StoredSpanLink.listKey selection).map (db.spanLinkDetail includeAttributes)

section Query

variable (lib : LinkCursorLibraries)

/-- JSON in base64. -/
def encodeLinkCursor (c : LinkCursor) : String := lib.encodeToString (lib.marshal c)

/-- The cursor that a request starts from. -/
def linkCursorOf (traceID spanID : String) (incoming : Bool) (after : String) :
    Except String LinkCursor :=
  let cursor : LinkCursor := ⟨traceID, spanID, incoming, "", "", -1⟩
  if after = "" then .ok cursor
  else
    match lib.decodeString after with
    | none => .error "invalid link cursor"
    | some raw =>
        match lib.unmarshal cursor raw with
        | none => .error "invalid link cursor"
        | some cursor =>
            if cursor.traceID ≠ traceID ∨ cursor.spanID ≠ spanID ∨
                cursor.incoming ≠ incoming ∨ cursor.ordinal < 0 then
              .error "invalid link cursor"
            else .ok cursor

/-- The links of one direction of a span. -/
def Db.linksOf (db : Db V) (traceID spanID : String) (incoming : Bool) : List StoredSpanLink :=
  db.spanLinks.filter fun l =>
    (if incoming then l.targetKey else l.sourceKey) = (traceID, spanID)

/-- `spanLinks`; `SpanLinks` includes the attributes, `SpanLinkSummaries` does not. -/
def spanLinks (db : Db V) (traceID spanID : String) (incoming : Bool) (after : String)
    (first : Int) (includeAttributes : Bool) : Except String SpanLinkPage :=
  if first < 1 ∨ first > 100 then .error "first must be between 1 and 100"
  else
    match linkCursorOf lib traceID spanID incoming after with
    | .error e => .error e
    | .ok cursor =>
        if incoming ∧ ¬ validSpanContext traceID spanID then .ok ⟨[], false, ""⟩
        else
          let selection := (orderAsc StoredSpanLink.listKey
            ((db.linksOf traceID spanID incoming).filter
              fun l => cursor.listKey < l.listKey)).take (first + 1).toNat
          let (items, hasNextPage) := cutProbe first (db.querySpanLinks includeAttributes selection)
          .ok
            { items
              hasNextPage
              endCursor :=
                match items.getLast? with
                | none => ""
                | some last =>
                    encodeLinkCursor lib ⟨traceID, spanID, incoming, last.sourceTraceID,
                      last.sourceSpanID, last.ordinal⟩ }

end Query

/-! ### What the spans recorded -/

/-- The links of a stored span. -/
def Db.linksFrom (db : Db V) (key : String × String) : List StoredSpanLink :=
  db.spanLinks.filter fun l => l.sourceKey = key

/-- Every stored span is a row that satisfies `Q`, and the links that start at it are those
of the row, in their order. -/
def LinksRecorded (Q : SpanRow → Prop) (db : Db V) : Prop :=
  ∀ A ∈ db.spans, ∃ r : SpanRow, Q r ∧ r.stored A.ingestedAt = A ∧
    db.linksFrom A.key = r.storedLinks

theorem sourceKey_of_storedLinks
    {r : SpanRow} {l : StoredSpanLink} (h : l ∈ r.storedLinks) :
    l.sourceKey = r.key := by
  obtain ⟨⟨link, ordinal⟩, -, rfl⟩ := List.mem_map.mp h
  rfl

@[simp] theorem key_stored (r : SpanRow) (t : Time) : (r.stored t).key = r.key := rfl

/-- The links of one row among those of rows with distinct keys. -/
theorem filter_storedLinks
    {rows : List SpanRow} (hnd : (rows.map SpanRow.key).Nodup) {r : SpanRow} (hr : r ∈ rows) :
    (rows.flatMap SpanRow.storedLinks).filter (fun l => l.sourceKey = r.key) = r.storedLinks := by
  induction rows with
  | nil => cases hr
  | cons x rows ih =>
      rw [List.map_cons, List.nodup_cons] at hnd
      rw [List.flatMap_cons, List.filter_append]
      rcases List.mem_cons.mp hr with rfl | hr
      · have hrest : (rows.flatMap SpanRow.storedLinks).filter
            (fun l => l.sourceKey = r.key) = [] := by
          refine List.filter_eq_nil_iff.mpr fun l hl hkey => ?_
          obtain ⟨y, hy, hly⟩ := List.mem_flatMap.mp hl
          have heq : y.key = r.key :=
            (sourceKey_of_storedLinks hly).symm.trans (of_decide_eq_true hkey)
          exact hnd.1 (heq ▸ List.mem_map_of_mem hy)
        rw [hrest, List.append_nil]
        exact List.filter_eq_self.mpr fun l hl => decide_eq_true (sourceKey_of_storedLinks hl)
      · have hfirst : x.storedLinks.filter (fun l => l.sourceKey = r.key) = [] := by
          refine List.filter_eq_nil_iff.mpr fun l hl hkey => ?_
          have heq : x.key = r.key :=
            (sourceKey_of_storedLinks hl).symm.trans (of_decide_eq_true hkey)
          exact hnd.1 (heq ▸ List.mem_map_of_mem hr)
        rw [hfirst, List.nil_append]
        exact ih hnd.2 hr

variable {sub : Time → Time → Int} {Q : SpanRow → Prop}

theorem linksRecorded_empty : LinksRecorded Q (Db.empty V) := fun A hA => by cases hA

theorem LinksRecorded.congr
    {db db' : Db V} (h : LinksRecorded Q db)
    (hspans : db'.spans = db.spans) (hlinks : db'.spanLinks = db.spanLinks) :
    LinksRecorded Q db' := by
  intro A hA
  rw [hspans] at hA
  obtain ⟨r, hQ, hstored, hfrom⟩ := h A hA
  exact ⟨r, hQ, hstored, by rw [Db.linksFrom, hlinks]; exact hfrom⟩

/-- The links that start at a span of a trace that is kept: those there were, and those of the
rows inserted. -/
theorem Wrote.linksFrom
    {db db' : Db V} {inserted : List SpanRow} {dropped : List String} {ingestedAt : Time}
    (hw : Wrote inserted dropped ingestedAt db db') {key : String × String}
    (hkept : key.1 ∉ dropped) :
    db'.linksFrom key = db.linksFrom key ++
      (inserted.flatMap SpanRow.storedLinks).filter fun l => l.sourceKey = key := by
  rw [Db.linksFrom, Db.linksFrom, hw.spanLinks, List.filter_filter, ← List.filter_append]
  refine List.filter_congr fun l _ => ?_
  by_cases hkey : l.sourceKey = key
  · have hid : l.sourceTraceID = key.1 := congrArg Prod.fst hkey
    simp [hkey, hid, hkept]
  · simp [hkey]

/-- A row that is inserted and kept has exactly its own links. -/
theorem Wrote.linksFrom_inserted
    {P : List StoredSpan → TraceSummaryRow → Prop} {db db' : Db V} (hinv : TraceInv P db)
    {inserted : List SpanRow} {dropped : List String} {ingestedAt : Time}
    (hw : Wrote inserted dropped ingestedAt db db') (hnodup : (inserted.map SpanRow.key).Nodup)
    {r : SpanRow} (hr : r ∈ inserted) (hnew : r.key ∉ db.spans.map StoredSpan.key)
    (hkept : r.traceID ∉ dropped) :
    db'.linksFrom r.key = r.storedLinks := by
  have hnone : db.linksFrom r.key = [] := by
    refine List.filter_eq_nil_iff.mpr fun l hl hkey => ?_
    obtain ⟨x, hx, hxl⟩ := hinv.links l hl
    have heq : x.key = r.key := hxl.trans (of_decide_eq_true hkey)
    exact hnew (heq ▸ List.mem_map_of_mem hx)
  rw [hw.linksFrom hkept, hnone, List.nil_append]
  exact filter_storedLinks hnodup hr

/-- A committed batch keeps the links in step with the spans. -/
theorem linksRecorded_wrote
    {P : List StoredSpan → TraceSummaryRow → Prop} {db db' : Db V}
    (h : LinksRecorded Q db) (hinv : TraceInv P db)
    {inserted : List SpanRow} {dropped : List String} {ingestedAt : Time}
    (hQ : ∀ r ∈ inserted, Q r) (hnodup : (inserted.map SpanRow.key).Nodup)
    (hnew : ∀ r ∈ inserted, r.key ∉ db.spans.map StoredSpan.key)
    (hw : Wrote inserted dropped ingestedAt db db') :
    LinksRecorded Q db' := by
  intro A hA
  rw [hw.spans, List.mem_filter, decide_eq_true_eq] at hA
  obtain ⟨hA, hkept⟩ := hA
  rcases List.mem_append.mp hA with hold | hnewA
  · obtain ⟨r, hr, hstored, hlinks⟩ := h A hold
    refine ⟨r, hr, hstored, ?_⟩
    have hnone : (inserted.flatMap SpanRow.storedLinks).filter
        (fun l => l.sourceKey = A.key) = [] := by
      refine List.filter_eq_nil_iff.mpr fun l hl hkey => ?_
      obtain ⟨x, hx, hlx⟩ := List.mem_flatMap.mp hl
      have heq : x.key = A.key :=
        (sourceKey_of_storedLinks hlx).symm.trans (of_decide_eq_true hkey)
      exact hnew x hx (heq ▸ List.mem_map_of_mem hold)
    rw [hw.linksFrom hkept, hnone, List.append_nil, hlinks]
  · obtain ⟨r, hr, rfl⟩ := List.mem_map.mp hnewA
    exact ⟨r, hQ r hr, rfl, hw.linksFrom_inserted hinv hnodup hr (hnew r hr) hkept⟩

/-- A committed deletion takes the links of exactly the spans it takes. -/
theorem linksRecorded_factsDeleted
    {P : List StoredSpan → TraceSummaryRow → Prop} {db db' : Db V}
    (h : LinksRecorded Q db) (hinv : TraceInv P db) {cutoff : Time}
    (hd : FactsDeleted sub cutoff db db') :
    LinksRecorded Q db' := by
  intro A hA
  rw [hd.spans, List.mem_filter, decide_eq_true_eq] at hA
  obtain ⟨hA, hlate⟩ := hA
  obtain ⟨r, hQ, hstored, hlinks⟩ := h A hA
  refine ⟨r, hQ, hstored, ?_⟩
  rw [← hlinks, Db.linksFrom, Db.linksFrom, hd.spanLinks, List.filter_filter]
  refine List.filter_congr fun l _ => ?_
  by_cases hkey : l.sourceKey = A.key
  · have hkeep : (l.sourceTraceID, l.sourceSpanID) ∉
        (expiredSpans cutoff db.spans).map StoredSpan.key := by
      intro hmem
      obtain ⟨B, hB, heq⟩ := List.mem_map.mp hmem
      obtain ⟨hB, hearly⟩ := List.mem_filter.mp hB
      have hsame : B = A := List.inj_on_of_nodup_map hinv.keys_nodup hB hA (heq.trans hkey)
      exact hlate (hsame ▸ of_decide_eq_true hearly)
    simp [hkey, hkeep]
  · simp [hkey]

/-- The batches of the run consist of rows that satisfy `Q`. -/
def RowsOf (Q : SpanRow → Prop) : Op V → Prop
  | .writeTraces batch _ _ => ∀ r ∈ batch.spans, Q r
  | _ => True

/-- Every operation keeps the links in step with the spans, whatever fails in it. -/
theorem linksInvariant (Q : SpanRow → Prop) :
    Invariant sub (RowsOf Q)
      (fun s : Store V => s.saved = none ∧ TraceInv Counts s.db ∧ LinksRecorded Q s.db) where
  between :=
    { saved := fun s h => h.1
      congr := fun s t h hdb _ hsaved => ⟨hsaved, hdb ▸ h.2⟩ }
  new := ⟨rfl, TraceInv.empty, linksRecorded_empty⟩
  writeTraces := by
    rintro batch refreshedAt now hQ s ⟨hsaved, hinv, hlinks⟩
    obtain ⟨p, hp, hnone, hdone | ⟨inserted, dropped, w, -, hc, -⟩⟩ :=
      writeTraces_cases batch refreshedAt now hsaved rfl
    · refine ⟨hnone, hdone.1 ▸ hinv.prepared hp, hdone.1 ▸ hlinks.congr ?_ ?_⟩ <;> rw [hp.rest]
    · simp only [← hp.tombstoned] at hc
      have hinvp := hinv.prepared hp
      have hlinksp : LinksRecorded Q p.db := by
        refine hlinks.congr ?_ ?_ <;> rw [hp.rest]
      have hinserted : ∀ r ∈ inserted, r ∈ batch.spans ∧ r.key ∉ p.db.spans.map StoredSpan.key := by
        intro r hr
        obtain ⟨hfirst, hnew⟩ := (hinvp.mem_inserted_iff hc).mp hr
        exact ⟨(List.mem_filter.mp hfirst.mem).1, hnew⟩
      have hnodup : (inserted.map SpanRow.key).Nodup := by
        obtain ⟨keys, -, rfl⟩ := hc.inserted_eq
        exact distinctBy_keys_nodup _ _
      exact ⟨hnone, hinvp.committed (summarySpec_counts sub) hc,
        linksRecorded_wrote hlinksp hinvp (fun r hr => hQ r (hinserted r hr).1) hnodup
          (fun r hr => (hinserted r hr).2) hc.wrote⟩
  writeMetrics := by
    rintro batch now ingestedAt - s ⟨hsaved, hinv, hlinks⟩
    obtain ⟨hnone, htrace⟩ := (traceInvariant (summarySpec_counts sub)).writeMetrics batch now
      ingestedAt trivial s ⟨hsaved, hinv⟩
    obtain ⟨-, hdone | ⟨hw, -⟩⟩ := writeMetrics_cases batch now ingestedAt hsaved rfl
    · exact ⟨hnone, htrace, hdone.1 ▸ hlinks⟩
    · refine ⟨hnone, htrace, hlinks.congr ?_ ?_⟩ <;> rw [hw.rest] <;> rfl
  writeLogs := by
    rintro batch now - s ⟨hsaved, hinv, hlinks⟩
    obtain ⟨hnone, htrace⟩ := (traceInvariant (summarySpec_counts sub)).writeLogs batch now
      trivial s ⟨hsaved, hinv⟩
    obtain ⟨p, rows, hp, -, -, hdb, -⟩ := writeLogs_cases batch now (s := s) rfl
    refine ⟨hnone, htrace, hlinks.congr ?_ ?_⟩ <;> rw [hdb] <;> dsimp only <;>
      rw [hp.prepared.rest]
  deleteFacts := fun cutoff =>
    deleteFactsBefore_preserves
      { saved := fun s h => h.1
        congr := fun s t h hdb _ hsaved => ⟨hsaved, hdb ▸ h.2⟩ }
      cutoff fun _ _ h hd hsaved _ =>
        ⟨hsaved, h.2.1.factsDeleted (summarySpec_counts sub) hd,
          linksRecorded_factsDeleted h.2.2 h.2.1 hd⟩
  prune :=
    pruneDimensions_preserves fun s s' h hp => by
      refine ⟨hp.saved.trans h.1, h.2.1.congr ?_ ?_ ?_ ?_, h.2.2.congr ?_ ?_⟩ <;> rw [hp.rest]
      exact fun _ => rfl
  rebuildAll :=
    rebuildAllTraceSummaries_preserves
      { saved := fun s h => h.1
        congr := fun s t h hdb _ hsaved => ⟨hsaved, hdb ▸ h.2⟩ }
      fun _ _ h hmem hrest hsaved _ =>
        ⟨hsaved, h.2.1.rebuiltAll (summarySpec_counts sub) hmem hrest,
          h.2.2.congr (by rw [hrest]) (by rw [hrest])⟩
  clear := by
    rintro s s' ⟨hsaved, -⟩ hr
    obtain ⟨hdb, hs', -⟩ := performClear_returns hr
    refine ⟨hs'.trans hsaved, ?_, ?_⟩
    · rw [hdb]
      exact TraceInv.empty.congr rfl rfl rfl fun _ => rfl
    · rw [hdb]
      exact linksRecorded_empty.congr rfl rfl

/-! ### Paging -/

theorem storedLinks_ordinals
    (r : SpanRow) :
    r.storedLinks.map StoredSpanLink.ordinal = List.range r.links.length := by
  rw [SpanRow.storedLinks, List.map_map, List.range_eq_range', ← List.zipIdx_map_snd 0 r.links]
  rfl

theorem length_storedLinks (r : SpanRow) : r.storedLinks.length = r.links.length := by
  rw [SpanRow.storedLinks, List.length_map, List.length_zipIdx]

/-- The links of a row stand in the order of the list key. -/
theorem storedLinks_ascending
    (r : SpanRow) :
    r.storedLinks.Pairwise fun l l' => l.listKey < l'.listKey := by
  have hordinals : r.storedLinks.Pairwise fun l l' => l.ordinal < l'.ordinal := by
    rw [← List.pairwise_map, storedLinks_ordinals]
    exact List.pairwise_lt_range
  refine hordinals.imp_of_mem fun {l l'} hl hl' hlt => ?_
  have hsame := (sourceKey_of_storedLinks hl).trans (sourceKey_of_storedLinks hl').symm
  obtain ⟨htrace, hspan⟩ := Prod.mk.inj hsame
  rw [StoredSpanLink.listKey, StoredSpanLink.listKey, htrace, hspan, Prod.Lex.toLex_lt_toLex]
  refine Or.inr ⟨rfl, Prod.Lex.toLex_lt_toLex.mpr (Or.inr ⟨rfl, ?_⟩)⟩
  exact Int.ofNat_lt.mpr hlt

theorem nodup_listKey
    {P : List StoredSpan → TraceSummaryRow → Prop} {db : Db V}
    (h : LinksRecorded Q db) (hinv : TraceInv P db) :
    (db.spanLinks.map StoredSpanLink.listKey).Nodup := by
  have hkey : ∀ l l' : StoredSpanLink, l.listKey = l'.listKey → l.sourceKey = l'.sourceKey := by
    intro l l' heq
    have hpair := toLex.injective heq
    obtain ⟨htrace, hrest⟩ := Prod.mk.inj hpair
    obtain ⟨hspan, -⟩ := Prod.mk.inj (toLex.injective hrest)
    exact Prod.ext htrace hspan
  refine nodup_map_of_groups (fun l _ l' _ => hkey l l') fun l hl => ?_
  obtain ⟨A, hA, heq⟩ := hinv.links l hl
  obtain ⟨r, -, -, hfrom⟩ := h A hA
  have hgroup : db.spanLinks.filter (fun l' => l'.sourceKey = l.sourceKey) = r.storedLinks := by
    rw [← hfrom, Db.linksFrom, heq]
    rfl
  rw [hgroup]
  refine List.pairwise_map.mpr ((storedLinks_ascending r).imp fun hlt => ne_of_lt hlt)

theorem not_lt_empty (s : String) : ¬ s < "" := by
  rw [String.lt_iff_toList_lt]
  exact List.not_lt_nil s.toList

/-- The first page starts below every link. -/
theorem first_lt_listKey
    (traceID spanID : String) (incoming : Bool) (l : StoredSpanLink) :
    (⟨traceID, spanID, incoming, "", "", -1⟩ : LinkCursor).listKey < l.listKey := by
  rw [LinkCursor.listKey, StoredSpanLink.listKey, Prod.Lex.toLex_lt_toLex]
  rcases lt_or_eq_of_le (not_lt.mp (not_lt_empty l.sourceTraceID)) with hlt | heq
  · exact Or.inl hlt
  · refine Or.inr ⟨heq, Prod.Lex.toLex_lt_toLex.mpr ?_⟩
    rcases lt_or_eq_of_le (not_lt.mp (not_lt_empty l.sourceSpanID)) with hlt | heq
    · exact Or.inl hlt
    · exact Or.inr ⟨heq, lt_of_lt_of_le (by decide : (-1 : Int) < 0) (Int.natCast_nonneg _)⟩

/-- A part of the table in which the keys are distinct, for the order of a page. -/
theorem nodup_pageKeys
    {all rows : List StoredSpanLink} (hkeys : (all.map StoredSpanLink.listKey).Nodup)
    (hsub : rows.Sublist all) :
    (rows.map fun l => OrderDual.toDual l.listKey).Nodup := by
  have hmap := (hkeys.sublist (hsub.map StoredSpanLink.listKey)).map OrderDual.toDual.injective
  rwa [List.map_map] at hmap

section Serve

variable {lib : LinkCursorLibraries}

theorem encodeLinkCursor_ne_empty
    (hlib : lib.RoundTrips) (c : LinkCursor) :
    encodeLinkCursor lib c ≠ "" := by
  intro hempty
  have hraw := hlib.base64 (lib.marshal c)
  rw [show lib.encodeToString (lib.marshal c) = "" from hempty, hlib.noBase64] at hraw
  have hjson := hlib.json c c
  rw [← Option.some.inj hraw, hlib.noJson] at hjson
  cases hjson

theorem linkCursorOf_encode
    (hlib : lib.RoundTrips) {c : LinkCursor} (hordinal : 0 ≤ c.ordinal) :
    linkCursorOf lib c.traceID c.spanID c.incoming (encodeLinkCursor lib c) = .ok c := by
  rw [linkCursorOf, if_neg (encodeLinkCursor_ne_empty hlib c), encodeLinkCursor, hlib.base64]
  dsimp only
  rw [hlib.json]
  dsimp only
  rw [if_neg]
  simp only [ne_eq, not_true_eq_false, false_or]
  omega

end Serve

end Storage
end Otelop
