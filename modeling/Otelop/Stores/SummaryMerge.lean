import Mathlib.Tactic
import Otelop.Broadcast.Traces
import Otelop.Storage.SummaryChain

/-!
# The row of a trace against the summaries the server sends

The server sends the summary of a trace after each commit that adds spans to it;
`mergeTrace` of `frontend/src/stores/telemetry.ts` merges what is delivered, in any
order.  Counts, times and the duration only grow, so they end at the last summary.  The
root of the row is that of the first delivered summary with the longest root, though the
server breaks ties by span id, and a row without a root keeps the service it began with.

Durations are exact: the rounding of an `int64` to a `number`, from 2^53 nanoseconds on, is
left out.

**Results.**
* `argmax_merged`: the summary whose root and service the row shows.
* `mergeTrace_converges_iff`: when the row equals the last summary.
-/

namespace Otelop
namespace Stores

open Lib Storage
open Broadcast (traceSummaryToTraceData rootSpanData sampleIso spanStatus)

variable {id : String}

/-- What the server sends after the first commit of a trace and some more. -/
def summaryMessage (iso : Time → String) (service : UInt64 → String)
    (searchValues : List (SpanBatch id) → List String)
    (first : SpanBatch id) (later : List (SpanBatch id)) : TraceData :=
  traceSummaryToTraceData iso ((storedAfter first later).summary service) (searchValues later)

/-- The row of a trace after one more delivery. -/
def merged (row incoming : TraceData) : TraceData := (mergeTrace row incoming).getD row

/-- The row of a trace after some deliveries; the first one is stored as it is. -/
def mergedRow : List TraceData → Option TraceData
  | [] => none
  | message :: messages => some (messages.foldl merged message)

/-- The two show the same summary. -/
structure SameSummary (row last : TraceData) : Prop where
  spanCount : row.spanCount = last.spanCount
  linkCount : row.linkCount = last.linkCount
  startTime : row.startTime = last.startTime
  startEpochNs : row.startEpochNs = last.startEpochNs
  duration : row.duration = last.duration
  rootSpan : row.rootSpan = last.rootSpan
  serviceName : row.serviceName = last.serviceName

/-- What a root span is shown as. -/
def shownRoot (s : StoredSpan) : TraceRootSpan :=
  ⟨s.name, s.kind, spanStatus s.statusCode, Time.sub s.endTS s.startTS⟩

/-- The span a trace takes its service from: its root or, without one, its earliest. -/
def namingSpan (spans : List StoredSpan) : Option StoredSpan :=
  (roots Time.sub spans).or (earliest spans)

/-- The root and the service of `a` and `b` look the same. -/
def NamedAlike (service : UInt64 → String) (a b : List StoredSpan) : Prop :=
  (roots Time.sub a).map shownRoot = (roots Time.sub b).map shownRoot ∧
    (namingSpan a).map (fun s => service s.resourceHash) =
      (namingSpan b).map fun s => service s.resourceHash

instance (service : UInt64 → String) (a b : List StoredSpan) :
    Decidable (NamedAlike service a b) :=
  inferInstanceAs (Decidable (_ ∧ _))

/-! ### The fields of a merged row -/

/-- The duration that `isBetterRoot` compares. -/
def TraceData.rootLength (t : TraceData) : WithBot ℚ :=
  match t.rootSpan with
  | none => ⊥
  | some root => (root.duration : ℚ)

theorem isBetterRoot_eq (current candidate : TraceData) :
    isBetterRoot current.rootSpan candidate.rootSpan =
      decide (current.rootLength < candidate.rootLength) := by
  rw [TraceData.rootLength, TraceData.rootLength]
  cases current.rootSpan with
  | none =>
      cases candidate.rootSpan with
      | none => simp [isBetterRoot]
      | some _ => simp [isBetterRoot]
  | some _ =>
      cases candidate.rootSpan with
      | none => simp [isBetterRoot]
      | some _ => simp [isBetterRoot]

/-- A delivery that `mergeTrace` ignores has nothing to merge into these fields. -/
theorem sameSummary_merged (row incoming : TraceData) :
    SameSummary (merged row incoming) (mergedTrace row incoming) := by
  rw [merged, mergeTrace]
  split
  · rename_i hnothing
    simp only [nothingNew, Bool.and_eq_true, decide_eq_true_eq, Bool.not_eq_true'] at hnothing
    obtain ⟨⟨⟨⟨⟨-, hroot⟩, hspans⟩, hlinks⟩, hduration⟩, hstart⟩ := hnothing
    have hearlier : decide (incoming.startEpochNs < row.startEpochNs) = false :=
      decide_eq_false (not_lt.mpr hstart)
    constructor <;> simp [mergedTrace, hroot, hearlier, hspans, hlinks, hduration]
  · exact ⟨rfl, rfl, rfl, rfl, rfl, rfl, rfl⟩

section Fold

variable {message : TraceData} {messages : List TraceData}

/-- A field that takes the larger of two values ends at the greatest. -/
theorem foldl_merged_greatest
    {β : Type} [LinearOrder β] {f : TraceData → β}
    (hf : ∀ row incoming, f (merged row incoming) = max (f row) (f incoming)) :
    IsGreatest {x | ∃ m ∈ message :: messages, f m = x}
      (f (messages.foldl merged message)) := by
  induction messages using List.reverseRecOn with
  | nil =>
      refine ⟨⟨message, List.mem_singleton_self message, rfl⟩, ?_⟩
      rintro x ⟨m, hm, rfl⟩
      rw [List.mem_singleton.mp hm]
      exact le_rfl
  | append_singleton messages incoming ih =>
      rw [List.foldl_append, List.foldl_cons, List.foldl_nil, hf]
      obtain ⟨⟨m, hm, hmax⟩, hle⟩ := ih
      constructor
      · rcases le_total (f incoming) (f (messages.foldl merged message)) with h | h
        · rw [max_eq_left h]
          exact ⟨m, List.mem_append_left [incoming] hm, hmax⟩
        · rw [max_eq_right h]
          exact ⟨incoming, by simp, rfl⟩
      · rintro x ⟨m, hm, rfl⟩
        rcases List.mem_append.mp (List.cons_append ▸ hm) with hm | hm
        · exact (hle ⟨m, hm, rfl⟩).trans (le_max_left _ _)
        · rw [List.mem_singleton.mp hm]
          exact le_max_right _ _

/-- The start of a row goes with its parsed start. -/
theorem foldl_merged_startTime
    {iso : Int → String} (h : ∀ m ∈ message :: messages, m.startTime = iso m.startEpochNs) :
    (messages.foldl merged message).startTime =
      iso (messages.foldl merged message).startEpochNs := by
  induction messages using List.reverseRecOn with
  | nil =>
      exact h message (List.mem_singleton_self message)
  | append_singleton messages incoming ih =>
      have hrow := ih fun m hm => h m (List.mem_append_left [incoming] hm)
      have hincoming := h incoming (by simp)
      rw [List.foldl_append, List.foldl_cons, List.foldl_nil]
      generalize messages.foldl merged message = row at hrow
      have hsame := sameSummary_merged row incoming
      rw [hsame.startTime, hsame.startEpochNs, mergedTrace]
      dsimp only
      split
      · exact hincoming
      · exact hrow

/-- The row shows the root and the service of the first summary with the longest root. -/
theorem argmax_merged (message : TraceData) (messages : List TraceData) :
    ∃ m, (message :: messages).argmax TraceData.rootLength = some m ∧
      (messages.foldl merged message).rootSpan = m.rootSpan ∧
      (messages.foldl merged message).serviceName = m.serviceName := by
  induction messages using List.reverseRecOn with
  | nil =>
      exact ⟨message, rfl, rfl, rfl⟩
  | append_singleton messages incoming ih =>
      obtain ⟨m, hm, hroot, hservice⟩ := ih
      rw [List.foldl_append, List.foldl_cons, List.foldl_nil, ← List.cons_append,
        List.argmax_concat, hm]
      generalize messages.foldl merged message = row at hroot hservice
      have hsame := sameSummary_merged row incoming
      have hlonger : isBetterRoot row.rootSpan incoming.rootSpan =
          decide (m.rootLength < incoming.rootLength) := by
        rw [hroot, isBetterRoot_eq]
      rw [hsame.rootSpan, hsame.serviceName, mergedTrace, hlonger]
      by_cases hlt : m.rootLength < incoming.rootLength
      · exact ⟨incoming, by simp [hlt], by simp [hlt], by simp [hlt]⟩
      · exact ⟨m, by simp [hlt], by simp [hlt, hroot], by simp [hlt, hservice]⟩

end Fold

/-! ### The summaries of a chain -/

section Chain

variable (iso : Time → String) (service : UInt64 → String)
  (searchValues : List (SpanBatch id) → List String)

theorem rootSpan_summaryMessage (first : SpanBatch id) (later : List (SpanBatch id)) :
    (summaryMessage iso service searchValues first later).rootSpan =
      (roots Time.sub (spansAfter first later)).map shownRoot := by
  change ((storedAfter first later).root.map _).map rootSpanData = _
  rw [(storedAfter_follows first later).root, Option.map_map, Option.map_map]
  rfl

theorem serviceName_summaryMessage (first : SpanBatch id) (later : List (SpanBatch id)) :
    some (summaryMessage iso service searchValues first later).serviceName =
      (namingSpan (spansAfter first later)).map fun s => service s.resourceHash := by
  have hfollows := storedAfter_follows first later
  obtain ⟨s, hs, -, hhash⟩ := hfollows.earliest
  change some (service (((storedAfter first later).root.map RootSpan.resourceHash).getD
    (storedAfter first later).earliestResourceHash)) = _
  rw [hfollows.root, hhash, namingSpan, hs]
  cases roots Time.sub (spansAfter first later) with
  | none => rfl
  | some _ => rfl

theorem rootLength_summaryMessage (first : SpanBatch id) (later : List (SpanBatch id)) :
    (summaryMessage iso service searchValues first later).rootLength =
      (rootLength (spansAfter first later)).map (fun length : ℤ => (length : ℚ)) := by
  rw [TraceData.rootLength, rootSpan_summaryMessage, rootLength]
  cases roots Time.sub (spansAfter first later) with
  | none => rfl
  | some _ => rfl

/-- Two summaries show the same root and service when their spans do. -/
theorem namedAlike_iff (first : SpanBatch id) (front later : List (SpanBatch id)) :
    NamedAlike service (spansAfter first front) (spansAfter first later) ↔
      (summaryMessage iso service searchValues first front).rootSpan =
          (summaryMessage iso service searchValues first later).rootSpan ∧
        (summaryMessage iso service searchValues first front).serviceName =
          (summaryMessage iso service searchValues first later).serviceName := by
  rw [NamedAlike, ← rootSpan_summaryMessage iso service searchValues,
    ← rootSpan_summaryMessage iso service searchValues,
    ← serviceName_summaryMessage iso service searchValues,
    ← serviceName_summaryMessage iso service searchValues, Option.some.injEq]

end Chain

section Converges

variable {iso : Time → String} {service : UInt64 → String}
  {searchValues : List (SpanBatch id) → List String}
  {first : SpanBatch id} {later : List (SpanBatch id)}

/-- Whatever a merged row maximizes is that of the last summary. -/
theorem merged_eq_last
    {β : Type} [LinearOrder β] {f : TraceData → β}
    (hf : ∀ row incoming, f (merged row incoming) = max (f row) (f incoming))
    (hgrows : ∀ front, front <+: later →
      f (summaryMessage iso service searchValues first front) ≤
        f (summaryMessage iso service searchValues first later))
    {message : TraceData} {messages : List TraceData}
    (hsent : ∀ m ∈ message :: messages,
      ∃ front, front <+: later ∧ summaryMessage iso service searchValues first front = m)
    (hlast : summaryMessage iso service searchValues first later ∈ message :: messages) :
    f (messages.foldl merged message) =
      f (summaryMessage iso service searchValues first later) := by
  refine (foldl_merged_greatest hf).unique ⟨⟨_, hlast, rfl⟩, ?_⟩
  rintro x ⟨m, hm, rfl⟩
  obtain ⟨front, hfront, rfl⟩ := hsent m hm
  exact hgrows front hfront

/-- Apart from its root and its service, a merged row equals the last summary. -/
theorem sameSummary_merged_iff
    {message : TraceData} {messages : List TraceData}
    (hsent : ∀ m ∈ message :: messages,
      ∃ front, front <+: later ∧ summaryMessage iso service searchValues first front = m)
    (hlast : summaryMessage iso service searchValues first later ∈ message :: messages) :
    SameSummary (messages.foldl merged message)
        (summaryMessage iso service searchValues first later) ↔
      (messages.foldl merged message).rootSpan =
          (summaryMessage iso service searchValues first later).rootSpan ∧
        (messages.foldl merged message).serviceName =
          (summaryMessage iso service searchValues first later).serviceName := by
  refine ⟨fun h => ⟨h.rootSpan, h.serviceName⟩, fun ⟨hroot, hservice⟩ => ?_⟩
  have hstarts : ∀ m ∈ message :: messages, m.startTime = iso m.startEpochNs := by
    intro m hm
    obtain ⟨front, -, rfl⟩ := hsent m hm
    rfl
  have hepoch : (messages.foldl merged message).startEpochNs =
      (summaryMessage iso service searchValues first later).startEpochNs := by
    refine neg_injective (merged_eq_last (f := fun t => -t.startEpochNs) ?_ ?_ hsent hlast)
    · intro row incoming
      rw [(sameSummary_merged row incoming).startEpochNs, mergedTrace]
      dsimp only
      split
      · rename_i hlt
        exact (max_eq_right (neg_le_neg (of_decide_eq_true hlt).le)).symm
      · rename_i hge
        exact (max_eq_left (neg_le_neg (not_lt.mp (of_decide_eq_false (by simpa using hge))))).symm
    · intro front hfront
      exact neg_le_neg (storedAfter_grows first hfront).startTime
  refine
    { spanCount := ?_
      linkCount := ?_
      startTime := ?_
      startEpochNs := hepoch
      duration := ?_
      rootSpan := hroot
      serviceName := hservice }
  · refine merged_eq_last (fun row incoming => (sameSummary_merged row incoming).spanCount) ?_
      hsent hlast
    intro front hfront
    exact Int.ofNat_le.mpr (storedAfter_grows first hfront).spanCount
  · refine merged_eq_last (fun row incoming => (sameSummary_merged row incoming).linkCount) ?_
      hsent hlast
    intro front hfront
    exact Int.ofNat_le.mpr (storedAfter_grows first hfront).linkCount
  · rw [foldl_merged_startTime hstarts, hepoch]
    rfl
  · refine merged_eq_last (fun row incoming => (sameSummary_merged row incoming).duration) ?_
      hsent hlast
    intro front hfront
    exact Int.cast_le.mpr (storedAfter_grows first hfront).duration_le

/-- Where the last summary is among those delivered, the row equals it exactly when the
first delivered summary with the longest root is named after spans that look like those
the last summary is named after. -/
theorem mergeTrace_converges_iff
    (iso : Time → String) (service : UInt64 → String)
    (searchValues : List (SpanBatch id) → List String)
    {first : SpanBatch id} {later : List (SpanBatch id)} {delivered : List (List (SpanBatch id))}
    (hsent : ∀ front ∈ delivered, front <+: later) (hlast : later ∈ delivered) :
    (∃ row, mergedRow (delivered.map (summaryMessage iso service searchValues first)) = some row ∧
        SameSummary row (summaryMessage iso service searchValues first later)) ↔
      ∀ front ∈ delivered.argmax fun front => rootLength (spansAfter first front),
        NamedAlike service (spansAfter first front) (spansAfter first later) := by
  cases delivered with
  | nil => cases hlast
  | cons front fronts =>
      have hmessages : ∀ m ∈ (front :: fronts).map (summaryMessage iso service searchValues first),
          ∃ front, front <+: later ∧ summaryMessage iso service searchValues first front = m := by
        intro m hm
        obtain ⟨front, hfront, rfl⟩ := List.mem_map.mp hm
        exact ⟨front, hsent front hfront, rfl⟩
      obtain ⟨m, hm, hroot, hservice⟩ :=
        argmax_merged (summaryMessage iso service searchValues first front)
          (fronts.map (summaryMessage iso service searchValues first))
      have hlength : TraceData.rootLength ∘ summaryMessage iso service searchValues first =
          WithBot.map (fun length : ℤ => (length : ℚ)) ∘
            fun front => rootLength (spansAfter first front) :=
        funext fun front => rootLength_summaryMessage iso service searchValues first front
      rw [← List.map_cons, argmax_map, hlength,
        argmax_comp_strictMono Int.cast_strictMono.withBot_map] at hm
      obtain ⟨best, hbest, rfl⟩ := Option.map_eq_some_iff.mp hm
      rw [hbest]
      simp only [List.map_cons, mergedRow, Option.some.injEq, exists_eq_left', Option.mem_def,
        forall_eq']
      rw [sameSummary_merged_iff hmessages (List.mem_map_of_mem hlast), hroot, hservice,
        namedAlike_iff iso service searchValues]

end Converges

/-! ### A tie between two roots -/

/-- One span of the trace `t`, starting at 0, from the service with the given hash. -/
def sampleBatch (spanID parentSpanID name : String) (endTS : Time) (resourceHash : UInt64) :
    SpanBatch "t" where
  rows := [{ SpanRow.bare "t" spanID parentSpanID 0 endTS with name, resourceHash }]
  ingestedAt := 100
  ne_nil := by simp
  ofTrace := by simp [SpanRow.bare]

def sampleService (hash : UInt64) : String := if hash = 0 then "web" else "api"

def sampleValues (_ : List (SpanBatch "t")) : List String := []

/-- The second root lasts as long as the first and has the smaller id. -/
theorem mergeTrace_rootTie :
    let first := sampleBatch "b" "" "POST" 10 0
    let later := [sampleBatch "a" "" "GET" 10 1]
    ¬ ∃ row,
        mergedRow ([[], later].map
            (summaryMessage sampleIso sampleService sampleValues first)) = some row ∧
          SameSummary row (summaryMessage sampleIso sampleService sampleValues first later) := by
  intro first later
  rintro ⟨row, hrow, hsame⟩
  have hname := hsame.serviceName
  cases hrow
  revert hname
  decide

theorem mergeTrace_converges_iff_sample :
    let first := sampleBatch "b" "x" "POST" 10 0
    let later := [sampleBatch "a" "" "GET" 10 1, sampleBatch "c" "" "GET" 10 1]
    ∃ row, mergedRow ([later, [], later.take 1].map
          (summaryMessage sampleIso sampleService sampleValues first)) = some row ∧
        SameSummary row (summaryMessage sampleIso sampleService sampleValues first later) := by
  intro first later
  refine (mergeTrace_converges_iff sampleIso sampleService sampleValues
    (by simp [List.prefix_rfl, List.take_prefix 1 later]) (by simp)).mpr ?_
  intro front hfront
  have hbest : [later, [], later.take 1].argmax (fun front => rootLength (spansAfter first front)) =
      some later := by
    rfl
  cases hbest.symm.trans hfront
  exact ⟨rfl, rfl⟩

end Stores
end Otelop
