import Otelop.Storage.SpanLinks
import Otelop.GraphQL.Lists

/-!
# Following the pages of the span links

`linkPage` of `internal/graphql/span_links.go` passes a page of `SpanLinks` on; an empty cursor
becomes none.  A client follows the cursors, and may ask for another number of links with each
request.

A link is stored once, with the span that has it, and read from both ends: among the outgoing
links of that span and among the incoming links of the span it names.  Each direction is a
server of pages in the sense of `Lib/Keyset.lean`, with an order and a cursor of its own, so
what a client reads is the whole list.

**Results.**
* `spanLinks_serves`: a direction of the links of a span is a server of pages.
* `readSpanLinks_eq`: what a client reads does not depend on the page sizes.
* `spanLinks_bothEnds`: in every reachable state both directions list the same links.
-/

namespace Otelop
namespace GraphQL

open Lib Storage

variable {V : Type}

section Client

variable (lib : LinkCursorLibraries)

/-- A page as a client reads it: an empty cursor is none (`EndCursor` of the connection). -/
def SpanLinkPage.page (page : SpanLinkPage) : Page SpanLinkDetail String where
  items := page.items
  hasNextPage := page.hasNextPage
  endCursor := if page.endCursor = "" then none else some page.endCursor

/-- One request of a client: `after` is absent on the first. -/
def fetchSpanLinks (db : Db V) (traceID spanID : String) (incoming includeAttributes : Bool)
    (first : Nat) (after : Option String) : Except String (Page SpanLinkDetail String) :=
  (spanLinks lib db traceID spanID incoming (after.getD "") first includeAttributes).map
    SpanLinkPage.page

/-- The row that a detail with attributes shows. -/
def SpanLinkDetail.stored (d : SpanLinkDetail) : StoredSpanLink :=
  ⟨d.sourceTraceID, d.sourceSpanID, d.ordinal, d.link⟩

/-- The links a client reads that follows the pages of one direction to their end. -/
def readSpanLinks (db : Db V) (traceID spanID : String) (incoming : Bool) (sizes : Nat → Nat) :
    Option (List StoredSpanLink) :=
  (followPagesSized (fetchSpanLinks lib db traceID spanID incoming true)
      (db.spanLinks.length + 1) sizes none).map
    fun pages => (pages.flatMap Page.items).map SpanLinkDetail.stored

/-- A page size that the query takes. -/
def PageSize (n : Nat) : Prop := 1 ≤ n ∧ n ≤ 100

end Client

section Serve

variable {lib : LinkCursorLibraries}

/-- The cursor of a detail in the list of one direction of a span. -/
def detailCursor (lib : LinkCursorLibraries) (traceID spanID : String) (incoming : Bool)
    (d : SpanLinkDetail) : String :=
  encodeLinkCursor lib ⟨traceID, spanID, incoming, d.sourceTraceID, d.sourceSpanID, d.ordinal⟩

/-- A request answers with the page behind its cursor. -/
theorem fetchSpanLinks_eq
    (hlib : lib.RoundTrips) {db : Db V}
    (hkeys : (db.spanLinks.map StoredSpanLink.listKey).Nodup)
    {traceID spanID : String} {incoming : Bool}
    (hvalid : incoming = true → validSpanContext traceID spanID = true)
    (includeAttributes : Bool) {n : Nat} (hn : PageSize n) {after : Option String}
    {cursor : LinkCursor}
    (hcursor : linkCursorOf lib traceID spanID incoming (after.getD "") = .ok cursor) :
    fetchSpanLinks lib db traceID spanID incoming includeAttributes n after =
      .ok (Page.of (detailCursor lib traceID spanID incoming) n
        ((orderAsc StoredSpanLink.listKey ((db.linksOf traceID spanID incoming).filter
          fun l => cursor.listKey < l.listKey)).map (db.spanLinkDetail includeAttributes))) := by
  obtain ⟨hpos, hmax⟩ := hn
  have hrange : ¬ ((n : Int) < 1 ∨ (n : Int) > 100) := by omega
  have hopen : ¬ (incoming = true ∧ ¬ validSpanContext traceID spanID = true) :=
    fun h => h.2 (hvalid h.1)
  have hdistinct : ((db.linksOf traceID spanID incoming).filter
      fun l => cursor.listKey < l.listKey).Sublist db.spanLinks :=
    List.filter_sublist.trans List.filter_sublist
  generalize hrows : (db.linksOf traceID spanID incoming).filter
    (fun l => cursor.listKey < l.listKey) = rows at hdistinct ⊢
  have hnd := nodup_pageKeys hkeys hdistinct
  have hquery : (n + 1 : Int).toNat = queryLimit n := by
    rw [queryLimit, if_pos (by omega), pageLimit, if_neg (by omega)]
    omega
  have hitems : db.querySpanLinks includeAttributes
      ((orderAsc StoredSpanLink.listKey rows).take (n + 1 : Int).toNat) =
        ((orderAsc StoredSpanLink.listKey rows).map
          (db.spanLinkDetail includeAttributes)).take (queryLimit n) := by
    rw [Db.querySpanLinks, hquery, orderAsc, orderAsc, orderDesc_take hnd, List.map_take]
  rw [fetchSpanLinks, spanLinks, if_neg hrange, hcursor]
  dsimp only
  rw [if_neg hopen, hrows, hitems, cutProbe_take (by omega)]
  generalize (orderAsc StoredSpanLink.listKey rows).map
    (db.spanLinkDetail includeAttributes) = details
  rw [Int.toNat_natCast]
  refine congrArg Except.ok ?_
  rw [SpanLinkPage.page, Page.of]
  congr 1
  cases (details.take n).getLast? with
  | none => rfl
  | some last => exact if_neg (encodeLinkCursor_ne_empty hlib _)

/-- A direction of the links of a span is a server of pages, whatever their size. -/
theorem spanLinks_serves
    (hlib : lib.RoundTrips) {db : Db V}
    (hkeys : (db.spanLinks.map StoredSpanLink.listKey).Nodup)
    {traceID spanID : String} {incoming : Bool}
    (hvalid : incoming = true → validSpanContext traceID spanID = true)
    (includeAttributes : Bool) {n : Nat} (hn : PageSize n) :
    Serves (fetchSpanLinks lib db traceID spanID incoming includeAttributes n)
      (detailCursor lib traceID spanID incoming) n
      ((orderAsc StoredSpanLink.listKey (db.linksOf traceID spanID incoming)).map
        (db.spanLinkDetail includeAttributes)) := by
  have hsub : (db.linksOf traceID spanID incoming).Sublist db.spanLinks := List.filter_sublist
  refine Serves.of_below (nodup_pageKeys hkeys hsub) ?_ fun l hl => ?_
  · have hfirst : linkCursorOf lib traceID spanID incoming ((none : Option String).getD "") =
        .ok ⟨traceID, spanID, incoming, "", "", -1⟩ := rfl
    have hall : (db.linksOf traceID spanID incoming).filter (fun l =>
        (⟨traceID, spanID, incoming, "", "", -1⟩ : LinkCursor).listKey < l.listKey) =
          db.linksOf traceID spanID incoming :=
      List.filter_eq_self.mpr fun l _ => decide_eq_true (first_lt_listKey traceID spanID incoming l)
    rw [fetchSpanLinks_eq hlib hkeys hvalid includeAttributes hn hfirst, hall]
    rfl
  · have hordinal : (0 : Int) ≤ l.ordinal := Int.natCast_nonneg _
    have hnext : linkCursorOf lib traceID spanID incoming
        ((some (detailCursor lib traceID spanID incoming
          (db.spanLinkDetail includeAttributes l))).getD "") =
        .ok ⟨traceID, spanID, incoming, l.sourceTraceID, l.sourceSpanID, l.ordinal⟩ :=
      linkCursorOf_encode hlib (c := ⟨traceID, spanID, incoming, l.sourceTraceID,
        l.sourceSpanID, l.ordinal⟩) hordinal
    exact fetchSpanLinks_eq hlib hkeys hvalid includeAttributes hn hnext

/-- The links a client reads, whatever the page sizes. -/
theorem readSpanLinks_eq
    (hlib : lib.RoundTrips) {db : Db V}
    (hkeys : (db.spanLinks.map StoredSpanLink.listKey).Nodup)
    {traceID spanID : String} {incoming : Bool}
    (hvalid : incoming = true → validSpanContext traceID spanID = true)
    {sizes : Nat → Nat} (hsizes : ∀ i, PageSize (sizes i)) :
    readSpanLinks lib db traceID spanID incoming sizes =
      some (orderAsc StoredSpanLink.listKey (db.linksOf traceID spanID incoming)) := by
  have hlen : ((orderAsc StoredSpanLink.listKey (db.linksOf traceID spanID incoming)).map
      (db.spanLinkDetail true)).length < db.spanLinks.length + 1 := by
    rw [List.length_map, orderAsc, length_orderDesc]
    exact Nat.lt_succ_of_le (List.length_filter_le _ _)
  obtain ⟨pages, hpages, hitems⟩ := followPagesSized_serves
    (fun n (hn : PageSize n) => ⟨hn.1, spanLinks_serves hlib hkeys hvalid true hn⟩) hsizes hlen
  rw [readSpanLinks, hpages, Option.map_some, hitems, List.map_map]
  exact congrArg some (List.map_id _)

end Serve

/-- In every reachable state: a stored span is a row of a batch of the run, its outgoing
links are those of the row, in their order, and it counts them; the incoming links of a
valid span context are the recorded ones with that target.  So a link is in the one list
exactly when it is in the other, with the same ordinal. -/
theorem spanLinks_bothEnds
    {sub : Time → Time → Int} {lib : LinkCursorLibraries} (hlib : lib.RoundTrips)
    {Q : SpanRow → Prop} {s : Store V} (hs : Reachable sub (RowsOf Q) s) :
    ∃ recorded : StoredSpan → SpanRow,
      (∀ A ∈ s.db.spans, Q (recorded A) ∧ (recorded A).stored A.ingestedAt = A ∧
        A.linkCount = (recorded A).storedLinks.length) ∧
      ∀ sizes : Nat → Nat, (∀ i, PageSize (sizes i)) →
        (∀ A ∈ s.db.spans, readSpanLinks lib s.db A.traceID A.spanID false sizes =
          some (recorded A).storedLinks) ∧
        ∀ traceID spanID, validSpanContext traceID spanID = true →
          ∃ incoming, readSpanLinks lib s.db traceID spanID true sizes = some incoming ∧
            incoming.Nodup ∧
            (∀ l, l ∈ incoming ↔ ∃ A ∈ s.db.spans, l ∈ (recorded A).storedLinks ∧
              l.targetKey = (traceID, spanID)) ∧
            ∀ A ∈ s.db.spans, ∀ l,
              (l ∈ (recorded A).storedLinks ∧ l.targetKey = (traceID, spanID)) ↔
                (l ∈ incoming ∧ l.sourceKey = A.key) := by
  obtain ⟨-, hinv, hlinks⟩ := hs.invariant (linksInvariant Q)
  have hkeys := nodup_listKey hlinks hinv
  have hrow : Nonempty SpanRow := ⟨.bare "" "" "" 0 0⟩
  choose! recorded hQ hstored hfrom using hlinks
  have hkey : ∀ A ∈ s.db.spans, (recorded A).key = A.key := fun A hA =>
    congrArg StoredSpan.key (hstored A hA)
  have hmem : ∀ A ∈ s.db.spans, ∀ l, l ∈ (recorded A).storedLinks ↔
      l ∈ s.db.spanLinks ∧ l.sourceKey = A.key := by
    intro A hA l
    rw [← hfrom A hA, Db.linksFrom, List.mem_filter, decide_eq_true_eq]
  refine ⟨recorded, fun A hA => ⟨hQ A hA, hstored A hA, ?_⟩, fun sizes hsizes =>
    ⟨fun A hA => ?_, fun traceID spanID hvalid => ?_⟩⟩
  · rw [length_storedLinks]
    exact (congrArg StoredSpan.linkCount (hstored A hA)).symm
  · rw [readSpanLinks_eq hlib hkeys (fun h => by cases h) hsizes]
    have hown : s.db.linksOf A.traceID A.spanID false = (recorded A).storedLinks := hfrom A hA
    rw [hown]
    exact congrArg some (orderDesc_of_strict (storedLinks_ascending (recorded A)))
  · have hincoming : ∀ l, l ∈ orderAsc StoredSpanLink.listKey (s.db.linksOf traceID spanID true) ↔
        l ∈ s.db.spanLinks ∧ l.targetKey = (traceID, spanID) := by
      intro l
      rw [orderAsc, mem_orderDesc, Db.linksOf, List.mem_filter, decide_eq_true_eq]
      rfl
    refine ⟨_, readSpanLinks_eq hlib hkeys (fun _ => hvalid) hsizes, ?_, fun l => ?_,
      fun A hA l => ?_⟩
    · have hnd : s.db.spanLinks.Nodup := List.Nodup.of_map _ hkeys
      exact (orderDesc_perm _).nodup_iff.mpr (hnd.filter _)
    · rw [hincoming]
      constructor
      · rintro ⟨hl, htarget⟩
        obtain ⟨A, hA, heq⟩ := hinv.links l hl
        exact ⟨A, hA, (hmem A hA l).mpr ⟨hl, heq.symm⟩, htarget⟩
      · rintro ⟨A, hA, hl, htarget⟩
        exact ⟨((hmem A hA l).mp hl).1, htarget⟩
    · rw [hincoming, hmem A hA]
      constructor
      · rintro ⟨⟨hl, hsource⟩, htarget⟩
        exact ⟨⟨hl, htarget⟩, hsource⟩
      · rintro ⟨⟨hl, htarget⟩, hsource⟩
        exact ⟨⟨hl, hsource⟩, htarget⟩

/-! ### A span with two links -/

/-- The cursor behind the first link of the sample span. -/
def sampleLinkCursor : LinkCursor :=
  ⟨"4bf92f3577b34da6a3ce929d0e0e4736", "00f067aa0ba902b7", false,
    "4bf92f3577b34da6a3ce929d0e0e4736", "00f067aa0ba902b7", 0⟩

/-- Its JSON text. -/
def sampleLinkJson : List UInt8 :=
  ("\x7b\"TraceID\":\"4bf92f3577b34da6a3ce929d0e0e4736\"," ++
      "\"SpanID\":\"00f067aa0ba902b7\",\"Incoming\":false," ++
      "\"SourceTraceID\":\"4bf92f3577b34da6a3ce929d0e0e4736\"," ++
      "\"SourceSpanID\":\"00f067aa0ba902b7\",\"Ordinal\":0\x7d").toList.map
    fun c => UInt8.ofNat c.toNat

/-- Its JSON text in base64. -/
def sampleLinkBase64 : List Char :=
  ("eyJUcmFjZUlEIjoiNGJmOTJmMzU3N2IzNGRhNmEzY2U5MjlkMGUwZTQ3MzYiLCJTcGFuSUQiOiIwMGYw" ++
      "NjdhYTBiYTkwMmI3IiwiSW5jb21pbmciOmZhbHNlLCJTb3VyY2VUcmFjZUlEIjoiNGJmOTJmMzU3N2Iz" ++
      "NGRhNmEzY2U5MjlkMGUwZTQ3MzYiLCJTb3VyY2VTcGFuSUQiOiIwMGYwNjdhYTBiYTkwMmI3IiwiT3Jk" ++
      "aW5hbCI6MH0").toList

/-- A cursor of links as a list of codes. -/
def linkCursorCode (c : LinkCursor) : List ℕ :=
  [Encodable.encode c.incoming, Equiv.intEquivNat c.ordinal] ++
    [c.traceID, c.spanID, c.sourceTraceID, c.sourceSpanID].map
      fun s => Encodable.encode (stringCode s)

/-- The cursor of links of a list of codes. -/
def linkCursorOfCode : List ℕ → Option LinkCursor
  | [incoming, ordinal, traceID, spanID, sourceTraceID, sourceSpanID] => do
      let incoming ← Encodable.decode incoming
      let traceID ← Encodable.decode traceID
      let spanID ← Encodable.decode spanID
      let sourceTraceID ← Encodable.decode sourceTraceID
      let sourceSpanID ← Encodable.decode sourceSpanID
      some ⟨stringOfCode traceID, stringOfCode spanID, incoming, stringOfCode sourceTraceID,
        stringOfCode sourceSpanID, Equiv.intEquivNat.symm ordinal⟩
  | _ => none

theorem linkCursorOfCode_linkCursorCode
    (c : LinkCursor) :
    linkCursorOfCode (linkCursorCode c) = some c := by
  simp [linkCursorOfCode, linkCursorCode]

/-- Libraries that write the sample cursor as the real ones do. -/
def sampleLinkLibraries : LinkCursorLibraries where
  marshal := tabled linkCursorCode sampleLinkCursor sampleLinkJson 0 1
  unmarshal _ := untabled linkCursorOfCode sampleLinkCursor sampleLinkJson
  encodeToString b :=
    String.ofList (tabled (List.map UInt8.toNat) sampleLinkJson sampleLinkBase64 '!' 'A' b)
  decodeString s :=
    if s = "" then some [] else untabled bytesOfCode sampleLinkJson sampleLinkBase64 s.toList

/-- The sample libraries read back what they wrote. -/
theorem sampleLinkLibraries_roundTrips : sampleLinkLibraries.RoundTrips where
  json _ c := untabled_tabled linkCursorOfCode_linkCursorCode _ (by decide +kernel) _ _
  noJson _ := by
    have htext : sampleLinkJson ≠ [] := by decide +kernel
    simp only [sampleLinkLibraries]
    exact untabled_nil htext
  base64 b := by
    have hcode : ∀ b : List UInt8, bytesOfCode (b.map UInt8.toNat) = some b := by
      intro b
      simp [bytesOfCode, Function.comp_def]
    have hne : String.ofList
        (tabled (List.map UInt8.toNat) sampleLinkJson sampleLinkBase64 '!' 'A' b) ≠ "" := by
      rw [ne_eq, ← String.toList_inj, String.toList_ofList]
      exact tabled_ne_nil (by decide +kernel) _ _ _
    simp only [sampleLinkLibraries, if_neg hne, String.toList_ofList]
    exact untabled_tabled hcode _ (by decide +kernel) _ _
  noBase64 := rfl

/-- A span that links to another one and to itself. -/
def linkedRow : SpanRow :=
  { SpanRow.bare "4bf92f3577b34da6a3ce929d0e0e4736" "00f067aa0ba902b7" "" 0 10 with
    links :=
      [⟨"0af7651916cd43dd8448eb211c80319c", "b7ad6b7169203331", "", 0, .empty, 0⟩,
        ⟨"4bf92f3577b34da6a3ce929d0e0e4736", "00f067aa0ba902b7", "", 0, .empty, 0⟩] }

/-- A store with one span that has links. -/
def linkedStore : Store Unit :=
  (Store.new Unit).after Time.sub
    (.writeTraces
      { resources := [⟨0, "checkout", .empty⟩]
        spans := [linkedRow]
        summaries := []
        droppedTraceIDs := [] } 100 101) []

/-- A run leads to the store with links. -/
theorem linkedStore_reachable : Reachable Time.sub (RowsOf fun r => r = linkedRow) linkedStore :=
  .step _ _ .new (fun _ hr => List.mem_singleton.mp hr) fun h => by cases h

theorem spanLinks_bothEnds_sample :
    readSpanLinks sampleLinkLibraries linkedStore.db linkedRow.traceID linkedRow.spanID false
      (fun _ => 1) = some linkedRow.storedLinks := by
  obtain ⟨recorded, hrecorded, hread⟩ :=
    spanLinks_bothEnds sampleLinkLibraries_roundTrips linkedStore_reachable
  have hmem : linkedRow.stored 101 ∈ linkedStore.db.spans := List.mem_singleton.mpr rfl
  have hout := (hread (fun _ => 1) fun _ => ⟨le_rfl, by decide⟩).1 _ hmem
  rw [(hrecorded _ hmem).1] at hout
  exact hout

end GraphQL
end Otelop
