import Mathlib.Tactic
import Otelop.Storage.Pages
import Otelop.Storage.SearchSQL

/-!
# The search condition of a trace

`traceSearchSQL` of `internal/storage/trace_search.go`, with the columns a field of a search
stands for.  The page query keeps a trace when one of its spans, joined with its resource,
meets the condition as a whole.

The condition is built of three-valued truths, as SQL evaluates it: a column may be null, and
the negation of a term is written with `COALESCE`, so that a null does not count as a match.
A field that is none of the built-in ones is an attribute of the span or of its resource.

The durations of a filter are in milliseconds and come from timestamps of whole microseconds.
`TraceAgreement` compares this condition with the matcher of the browser, term by term, and
the pages of `Storage/Pages.lean` select with it.
-/

namespace Otelop
namespace Storage

open Lib

/-- The keys of `traceFieldColumns`. -/
def traceFields : List GoString :=
  ["trace_id".toList, "span_id".toList, "parent_span_id".toList, "service_name".toList,
    "name".toList, "kind".toList, "status_code".toList, "status_message".toList,
    "duration_ms".toList]

/-- `(epoch_ns(s.end_ts) - epoch_ns(s.start_ts)) / 1000000.0` -/
def durationMs (lib : SearchLibraries) (s : StoredSpan) : ℚ :=
  lib.double (lib.double ((s.endTS - s.startTS : Int) : ℚ) / 10 ^ 6)

/-- `traceFieldColumns`, on a row of the join. -/
def traceFieldColumns (lib : SearchLibraries) (s : StoredSpan) (r : ResourceRow)
    (field : GoString) : Option SqlValue :=
  if field = "trace_id".toList then some (.text s.traceID.toList)
  else if field = "span_id".toList then some (.text s.spanID.toList)
  else if field = "parent_span_id".toList then some (.text s.parentSpanID.toList)
  else if field = "service_name".toList then some (.text r.serviceName.toList)
  else if field = "name".toList then some (.text s.name.toList)
  else if field = "kind".toList then some (.text s.kind.toList)
  else if field = "status_code".toList then some (.text s.statusCode.toList)
  else if field = "status_message".toList then some (.text s.statusMessage.toList)
  else if field = "duration_ms".toList then some (.double (durationMs lib s))
  else none

/-- `traceSearchPredicate` -/
def traceSearchPredicate (lib : SearchLibraries) (s : StoredSpan) (r : ResourceRow)
    (pattern : GoString) : Sql.Truth :=
  Sql.any
    ([s.traceID.toList, s.name.toList, s.statusCode.toList, r.serviceName.toList,
        s.spanID.toList, s.statusMessage.toList, lib.jsonText (.obj s.attributes.fields),
        lib.jsonText (.obj r.attributes.fields), lib.eventsText s.events].map
      fun text => ilike lib (some text) pattern)

/-- The clause `traceSearchSQL` adds for a term. -/
def traceTermClause (lib : SearchLibraries) (s : StoredSpan) (r : ResourceRow)
    (term : LogSearchTerm) : Sql.Truth :=
  negatable term
    (signalAttributeSQL lib term s.attributes r.attributes (traceFieldColumns lib s r)
      ["duration_ms".toList])

def traceSearchSQL (lib : SearchLibraries) (search : GoString) (s : StoredSpan)
    (r : ResourceRow) : Sql.Truth :=
  let (plain, terms) := parseSignalSearch search traceFields
  let predicate :=
    if plain ≠ [] then traceSearchPredicate lib s r (likePattern plain) else some true
  Sql.all predicate (terms.map (traceTermClause lib s r))

/-- The condition of the page query on one row of the join. -/
def traceSpanMatches (lib : SearchLibraries) (search : String) (s : StoredSpan)
    (r : ResourceRow) : Bool :=
  Sql.holds (traceSearchSQL lib search.toList s r)

end Storage
end Otelop
