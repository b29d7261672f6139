import Mathlib.Tactic
import Otelop.Storage.Pages

/-!
# Page cursors

A cursor is the sort key of a page's last item, as JSON in base64
(`internal/graphql/resolver.go`).  The four encodings it goes through are library code:
`CursorLibraries` holds their functions and `RoundTrips` what a cursor relies on.

A cursor comes from a client and may be anything: what is no base64, no JSON or no time is an
error that names the list, and so is the cursor of another list; a missing cursor asks for the
first page.  The times in a cursor are those of a `TIMESTAMP_NS`, and `InTimestampRange` says
that a time is one.

**Results.**
* `decodeCursor_encodeCursor`: a cursor decodes to what was encoded.
* `decodeTraceCursor_traceCursor`, `decodeLogCursor_logCursor`,
  `decodeMetricCursor_metricCursor`: so does the sort key of an item.
-/

namespace Otelop
namespace GraphQL

open Storage

/-- `pageCursor`: the list and the sort key of an item. -/
structure PageCursor where
  signal : String
  time : String
  tie : String
  id : String
deriving DecidableEq

/-- `encoding/json`, `base64.RawURLEncoding`, `time.RFC3339Nano` and
`google/uuid`. -/
structure CursorLibraries where
  marshal : PageCursor → List UInt8
  unmarshal : List UInt8 → Option PageCursor
  encodeToString : List UInt8 → String
  decodeString : String → Option (List UInt8)
  formatTime : Time → String
  parseTime : String → Option Time
  formatUUID : UUID → String
  parseUUID : String → Option UUID

/-- The instants a `TIMESTAMP_NS` holds. -/
def InTimestampRange (t : Time) : Prop :=
  -2 ^ 63 ≤ t ∧ t < 2 ^ 63

/-- Each library reads back what it wrote; there is no JSON value in no bytes. -/
structure CursorLibraries.RoundTrips (lib : CursorLibraries) : Prop where
  json : ∀ c, lib.unmarshal (lib.marshal c) = some c
  noJson : lib.unmarshal [] = none
  base64 : ∀ b, lib.decodeString (lib.encodeToString b) = some b
  noBase64 : lib.decodeString "" = some []
  time : ∀ t, InTimestampRange t → lib.parseTime (lib.formatTime t) = some t
  uuid : ∀ u, lib.parseUUID (lib.formatUUID u) = some u

variable (lib : CursorLibraries)

/-- JSON in base64. -/
def encodeCursor (c : PageCursor) : String :=
  lib.encodeToString (lib.marshal c)

/-- The error of a cursor that cannot be read. -/
def invalidCursor (signal : String) : String :=
  "invalid " ++ signal ++ " cursor"

/-- No cursor, or an empty one, is the start of the list; one of another list is refused. -/
def decodeCursor (raw : Option String) (signal : String) :
    Except String (Option PageCursor) :=
  match raw with
  | none => .ok none
  | some raw =>
      if raw = "" then .ok none
      else
        match lib.decodeString raw with
        | none => .error (invalidCursor signal)
        | some b =>
            match lib.unmarshal b with
            | none => .error (invalidCursor signal)
            | some c =>
                if c.signal ≠ signal then .error (invalidCursor signal)
                else .ok (some c)

/-- The time of a cursor of `signal`. -/
def cursorTime (value signal : String) : Except String Time :=
  match lib.parseTime value with
  | none => .error (invalidCursor signal)
  | some t => .ok t

/-- The cursor of the logs: a time and an id. -/
def decodeLogCursor (raw : Option String) : Except String (Option LogCursor) := do
  match ← decodeCursor lib raw "logs" with
  | none => pure none
  | some c =>
      let ts ← cursorTime lib c.time "logs"
      match lib.parseUUID c.id with
      | none => throw (invalidCursor "logs")
      | some id => pure (some ⟨ts, id⟩)

/-- The cursor of the traces: two times and an id. -/
def decodeTraceCursor (raw : Option String) : Except String (Option TraceCursor) := do
  match ← decodeCursor lib raw "traces" with
  | none => pure none
  | some c =>
      let start ← cursorTime lib c.time "traces"
      let seen ← cursorTime lib c.tie "traces"
      pure (some ⟨start, seen, c.id⟩)

/-- The cursor of the metrics: a time and two names. -/
def decodeMetricCursor (raw : Option String) : Except String (Option MetricCursor) := do
  match ← decodeCursor lib raw "metrics" with
  | none => pure none
  | some c =>
      let seen ← cursorTime lib c.time "metrics"
      pure (some ⟨seen, c.tie, c.id⟩)

/-- The cursor of one log. -/
def logCursor (v : LogDetail) : String :=
  encodeCursor lib ⟨"logs", lib.formatTime v.ts, "", lib.formatUUID v.id⟩

/-- The cursor of one trace.  A summary without `first_seen` has the zero time. -/
def traceCursor (v : TraceSummary) : String :=
  encodeCursor lib
    ⟨"traces", lib.formatTime v.startTime, lib.formatTime (v.firstSeen.getD Time.zero),
      v.traceID⟩

/-- The cursor of one metric group. -/
def metricCursor {V : Type} (v : MetricSummary V) : String :=
  encodeCursor lib ⟨"metrics", lib.formatTime v.lastSeen, v.serviceName, v.metricName⟩

/-- The cursor of a page of logs is that of its last one. -/
def logEndCursor (items : List LogDetail) : Option String :=
  items.getLast?.map (logCursor lib)

/-- The cursor of a page of traces is that of its last one. -/
def traceEndCursor (items : List TraceSummary) : Option String :=
  items.getLast?.map (traceCursor lib)

/-- The cursor of a page of metrics is that of its last one. -/
def metricEndCursor {V : Type} (items : List (MetricSummary V)) : Option String :=
  items.getLast?.map (metricCursor lib)

/-! ### Round trips -/

variable {lib}

/-- Without a cursor a list starts from its beginning. -/
@[simp] theorem decodeCursor_none (signal : String) :
    decodeCursor lib none signal = .ok none := rfl

/-- No cursor is the empty string, which means the first page. -/
theorem encodeCursor_ne_empty
    (h : lib.RoundTrips) (c : PageCursor) :
    encodeCursor lib c ≠ "" := by
  intro hempty
  have hbytes := h.base64 (lib.marshal c)
  rw [show lib.encodeToString (lib.marshal c) = "" from hempty, h.noBase64] at hbytes
  have hjson := h.json c
  rw [← Option.some.inj hbytes, h.noJson] at hjson
  cases hjson

theorem decodeCursor_encodeCursor
    (h : lib.RoundTrips) (c : PageCursor) :
    decodeCursor lib (some (encodeCursor lib c)) c.signal = .ok (some c) := by
  have hbytes : lib.decodeString (encodeCursor lib c) = some (lib.marshal c) :=
    h.base64 (lib.marshal c)
  simp [decodeCursor, encodeCursor_ne_empty h, hbytes, h.json]

/-- A time that a `TIMESTAMP_NS` holds is read back. -/
theorem cursorTime_formatTime
    (h : lib.RoundTrips) {t : Time} (ht : InTimestampRange t) (signal : String) :
    cursorTime lib (lib.formatTime t) signal = .ok t := by
  rw [cursorTime, h.time t ht]

/-- The cursor of a log decodes to its sort key. -/
theorem decodeLogCursor_logCursor
    (h : lib.RoundTrips) (v : LogDetail) (hts : InTimestampRange v.ts) :
    decodeLogCursor lib (some (logCursor lib v)) = .ok (some ⟨v.ts, v.id⟩) := by
  have hc := decodeCursor_encodeCursor h
    ⟨"logs", lib.formatTime v.ts, "", lib.formatUUID v.id⟩
  unfold decodeLogCursor logCursor
  rw [hc]
  simp only [bind, Except.bind, cursorTime_formatTime h hts, h.uuid]
  rfl

/-- The cursor of a trace decodes to its sort key. -/
theorem decodeTraceCursor_traceCursor
    (h : lib.RoundTrips) (v : TraceSummary) {seen : Time}
    (hseen : v.firstSeen = some seen)
    (hstart : InTimestampRange v.startTime) (hrange : InTimestampRange seen) :
    decodeTraceCursor lib (some (traceCursor lib v)) =
      .ok (some ⟨v.startTime, seen, v.traceID⟩) := by
  have hc := decodeCursor_encodeCursor h
    ⟨"traces", lib.formatTime v.startTime, lib.formatTime seen, v.traceID⟩
  unfold decodeTraceCursor traceCursor
  rw [hseen, Option.getD_some, hc]
  simp only [bind, Except.bind, cursorTime_formatTime h hstart,
    cursorTime_formatTime h hrange]
  rfl

/-- The cursor of a metric group decodes to its sort key. -/
theorem decodeMetricCursor_metricCursor
    {V : Type} (h : lib.RoundTrips) (v : MetricSummary V)
    (hseen : InTimestampRange v.lastSeen) :
    decodeMetricCursor lib (some (metricCursor lib v)) =
      .ok (some ⟨v.lastSeen, v.serviceName, v.metricName⟩) := by
  have hc := decodeCursor_encodeCursor h
    ⟨"metrics", lib.formatTime v.lastSeen, v.serviceName, v.metricName⟩
  unfold decodeMetricCursor metricCursor
  rw [hc]
  simp only [bind, Except.bind, cursorTime_formatTime h hseen]
  rfl

end GraphQL
end Otelop
