import Mathlib.Tactic
import Otelop.Stores.Telemetry

/-!
# The buffer of traces

`addTracesAtom` finds the row of a trace through an index map and writes there.
It amounts to merging each summary into the row of its trace, or appending it.
Every operation on the buffer keeps one row a trace, at most as many rows as the
cap, the newest start first, and the parsed start in step with the start.

**Results.**
* `addTraces_spec`: `addTracesAtom`, without the index map.
* `traceBuffer_run`: the invariant of the buffer, over runs.
-/

namespace Otelop
namespace Stores

open Lib
open Frontend (EventTimeWindow)

/-! ### Merging by trace id -/

theorem mergeTrace_keepsKey : KeepsKey TraceData.traceId mergeTrace := by
  intro x y z h
  rw [mergeTrace] at h
  split at h
  · cases h
  · cases h
    rfl

/-- The rows after a batch, in no particular order. -/
def mergeBatch (current newTraces : List TraceData) : List TraceData :=
  newTraces.foldl (upsert TraceData.traceId mergeTrace) current

/-- What the loop of `addTracesAtom` has done so far. -/
structure LoopState (current done : List TraceData) (loop : TraceLoop) : Prop where
  working : loop.working = mergeBatch current done
  indexes : Indexes TraceData.traceId loop.working loop.indexById
  added : loop.addedCount + current.length = loop.working.length
  unchanged : loop.changed = false → loop.working = current

theorem loopState_round
    {current done : List TraceData} {loop : TraceLoop}
    (h : LoopState current done loop) (x : TraceData) :
    LoopState current (done ++ [x]) (addTracesRound loop x) := by
  have hbatch : mergeBatch current (done ++ [x]) =
      upsert TraceData.traceId mergeTrace loop.working x := by
    rw [mergeBatch, List.foldl_append, h.working]
    rfl
  rw [addTracesRound]
  cases hindex : loop.indexById x.traceId with
  | none =>
      have hnew : x.traceId ∉ loop.working.map TraceData.traceId :=
        h.indexes.eq_none_iff.mp hindex
      simp only [Option.bind_none]
      refine ⟨?_, h.indexes.push hindex, ?_, fun hchanged => by cases hchanged⟩
      · rw [hbatch, upsert, if_neg hnew]
      · rw [List.length_append, List.length_singleton, ← h.added]
        exact Nat.add_right_comm _ _ _
  | some idx =>
      have hget : (loop.working.map TraceData.traceId)[idx]? = some x.traceId :=
        (h.indexes _ _).mp hindex
      have hold : x.traceId ∈ loop.working.map TraceData.traceId := List.mem_of_getElem? hget
      rw [List.getElem?_map] at hget
      obtain ⟨existing, hexisting, hkey⟩ := Option.map_eq_some_iff.mp hget
      have hrows : loop.working.set idx ((mergeTrace existing x).getD existing) =
          loop.working.map (mergeRow TraceData.traceId mergeTrace x) :=
        h.indexes.set_eq_mergeRow hindex hexisting
      rw [Option.bind_some, hexisting, Option.map_some]
      cases hmerge : mergeTrace existing x with
      | none =>
          simp only [hmerge]
          refine ⟨?_, h.indexes, h.added, h.unchanged⟩
          rw [hbatch, upsert, if_pos hold, ← hrows, hmerge, Option.getD_none]
          obtain ⟨hlt, rfl⟩ := List.getElem?_eq_some_iff.mp hexisting
          exact (List.set_getElem_self hlt).symm
      | some merged =>
          simp only [hmerge]
          rw [hmerge, Option.getD_some] at hrows
          refine ⟨?_, ?_, ?_, fun hchanged => by cases hchanged⟩
          · rw [hbatch, upsert, if_pos hold, ← hrows]
          · refine h.indexes.set ?_
            rw [List.getElem?_map, hexisting, Option.map_some,
              mergeTrace_keepsKey x existing merged hmerge]
          · rw [List.length_set]
            exact h.added

theorem loopState_loop
    {current : List TraceData} (h : (current.map TraceData.traceId).Nodup)
    (newTraces : List TraceData) :
    LoopState current newTraces (addTracesLoop current newTraces) := by
  induction newTraces using List.reverseRecOn with
  | nil =>
      exact ⟨rfl, indexRows_indexes h, Nat.zero_add _, fun _ => rfl⟩
  | append_singleton newTraces x ih =>
      rw [addTracesLoop, List.foldl_append]
      exact loopState_round ih x

theorem newestTraceStartFirst_perm (traces : List TraceData) :
    (newestTraceStartFirst traces).Perm traces :=
  List.perm_insertionSort _ _

/-- The newest start comes first. -/
def NewestFirst (traces : List TraceData) : Prop :=
  traces.Pairwise fun a b => b.startEpochNs ≤ a.startEpochNs

theorem newestFirst_newestTraceStartFirst (traces : List TraceData) :
    NewestFirst (newestTraceStartFirst traces) := by
  have : Std.Total fun a b : TraceData => b.startEpochNs ≤ a.startEpochNs :=
    ⟨fun a b => le_total b.startEpochNs a.startEpochNs⟩
  have : IsTrans TraceData fun a b => b.startEpochNs ≤ a.startEpochNs :=
    ⟨fun _ _ _ hab hbc => le_trans hbc hab⟩
  exact List.pairwise_insertionSort _ traces

/-- `addTracesAtom` merges by trace id, sorts and cuts, and counts the new rows. -/
theorem addTraces_spec
    {s : Store} (h : (s.traces.map TraceData.traceId).Nodup) (newTraces : List TraceData) :
    ∃ traces batch,
      addTraces s newTraces =
        { s with
          traces := traces
          liveTraceBatch := batch
          newTraceCount :=
            s.newTraceCount + ((mergeBatch s.traces newTraces).length - s.traces.length) } ∧
      (traces = (newestTraceStartFirst (mergeBatch s.traces newTraces)).take s.caps.traceCap ∨
        traces = s.traces ∧ mergeBatch s.traces newTraces = s.traces) := by
  have hloop := loopState_loop h newTraces
  have hadded : (addTracesLoop s.traces newTraces).addedCount =
      (mergeBatch s.traces newTraces).length - s.traces.length := by
    have hcount := hloop.added
    rw [hloop.working] at hcount
    omega
  cases newTraces with
  | nil =>
      refine ⟨s.traces, s.liveTraceBatch, ?_, Or.inr ⟨rfl, rfl⟩⟩
      have hnone : (mergeBatch s.traces []).length - s.traces.length = 0 := Nat.sub_self _
      rw [hnone]
      rfl
  | cons x xs =>
      rw [addTraces]
      simp only [List.isEmpty_cons, Bool.false_eq_true, if_false]
      split
      · refine ⟨_, x :: xs, ?_, Or.inl rfl⟩
        rw [hadded, hloop.working]
      · rename_i hchanged
        have hsame := hloop.unchanged (Bool.eq_false_iff.mpr hchanged)
        rw [hloop.working] at hsame
        refine ⟨s.traces, x :: xs, ?_, Or.inr ⟨rfl, hsame⟩⟩
        rw [hsame, Nat.sub_self]
        rfl

/-! ### Distinct traces -/

theorem nodup_newestTraceStartFirst
    {rows : List TraceData} (h : (rows.map TraceData.traceId).Nodup) :
    ((newestTraceStartFirst rows).map TraceData.traceId).Nodup :=
  ((newestTraceStartFirst_perm rows).map _).nodup_iff.mpr h

theorem nodup_cut
    {rows : List TraceData} (h : (rows.map TraceData.traceId).Nodup) (cap : Nat) :
    (((newestTraceStartFirst rows).take cap).map TraceData.traceId).Nodup :=
  (nodup_newestTraceStartFirst h).sublist ((List.take_sublist _ _).map _)

theorem nodup_addTraces
    {s : Store} (h : (s.traces.map TraceData.traceId).Nodup) (newTraces : List TraceData) :
    ((addTraces s newTraces).traces.map TraceData.traceId).Nodup := by
  obtain ⟨traces, batch, hstore, hsorted | ⟨hsame, -⟩⟩ := addTraces_spec h newTraces
  · rw [hstore, hsorted]
    exact nodup_cut (nodup_foldl_upsert mergeTrace_keepsKey h newTraces) _
  · rw [hstore, hsame]
    exact h

theorem nodup_cacheTrace
    {s : Store} (h : (s.traces.map TraceData.traceId).Nodup) (trace : TraceData) :
    ((cacheTrace s trace).traces.map TraceData.traceId).Nodup := by
  rw [cacheTrace]
  cases hfind : s.traces.findIdx? fun item => decide (item.traceId = trace.traceId) with
  | some idx =>
      obtain ⟨hidx, -, -⟩ := List.findIdx?_eq_some_iff_getElem.mp hfind
      have hget : s.traces[idx]? = some s.traces[idx] := List.getElem?_eq_getElem hidx
      simp only [hget, Option.bind_some]
      cases hmerge : mergeTrace s.traces[idx] trace with
      | none => exact h
      | some merged =>
          refine nodup_newestTraceStartFirst ?_
          have hkey : (s.traces.map TraceData.traceId)[idx]? = some merged.traceId := by
            rw [List.getElem?_map, hget, Option.map_some,
              mergeTrace_keepsKey trace _ merged hmerge]
          rw [keys_set hkey]
          exact h
  | none =>
      have hnew : trace.traceId ∉ s.traces.map TraceData.traceId := by
        intro hmem
        obtain ⟨item, hitem, hid⟩ := List.mem_map.mp hmem
        have := List.findIdx?_eq_none_iff.mp hfind item hitem
        simp [hid] at this
      have hnodup : ((s.traces ++ [trace]).map TraceData.traceId).Nodup := by
        rw [List.map_append, List.nodup_append']
        exact ⟨h, List.nodup_singleton _, by simpa using hnew⟩
      dsimp only
      split
      · exact nodup_newestTraceStartFirst hnodup
      · refine nodup_newestTraceStartFirst ?_
        rw [List.map_append, List.nodup_append']
        refine ⟨(nodup_newestTraceStartFirst hnodup).sublist
          (((List.take_sublist _ _).trans List.filter_sublist).map _), List.nodup_singleton _, ?_⟩
        intro k hk hk'
        obtain ⟨t, ht, rfl⟩ := List.mem_map.mp hk
        refine of_decide_eq_true (List.mem_filter.mp (List.mem_of_mem_take ht)).2 ?_
        simpa using hk'

/-- Rows kept from the list, and the rows of a page that are not among them, have distinct
ids. -/
theorem nodup_append_page
    {T : Type} {getId : T → String} {kept items : List T}
    (hkept : (kept.map getId).Nodup) (hitems : (items.map getId).Nodup) :
    ((kept ++ items.filter fun item => decide (getId item ∉ kept.map getId)).map getId).Nodup := by
  rw [List.map_append, List.nodup_append']
  refine ⟨hkept, hitems.sublist (List.filter_sublist.map _), ?_⟩
  intro k hk hk'
  obtain ⟨item, hitem, rfl⟩ := List.mem_map.mp hk'
  exact of_decide_eq_true (List.mem_filter.mp hitem).2 hk

theorem traceId_pageRow (current : List TraceData) (incoming : TraceData) :
    (pageRow current incoming).traceId = incoming.traceId := by
  rw [pageRow]
  split <;> rfl

theorem nodup_replaceTracePage
    {s : Store} (h : (s.traces.map TraceData.traceId).Nodup) {items : List TraceData}
    (hitems : (items.map TraceData.traceId).Nodup) (idsBeforeRequest : Finset String)
    (window : EventTimeWindow) :
    ((replaceTracePage s items idsBeforeRequest window).traces.map TraceData.traceId).Nodup := by
  refine nodup_cut (nodup_append_page (h.sublist (List.filter_sublist.map _)) ?_) _
  rw [List.map_map]
  have hids : TraceData.traceId ∘ pageRow s.traces = TraceData.traceId :=
    funext (traceId_pageRow s.traces)
  rwa [hids]

theorem nodup_append
    {s : Store} (h : (s.traces.map TraceData.traceId).Nodup) {items : List TraceData}
    (hitems : (items.map TraceData.traceId).Nodup) :
    ((appendTraceSearchResults s items).traces.map TraceData.traceId).Nodup := by
  rw [appendTraceSearchResults, appendedPage]
  dsimp only
  split
  · exact h
  · exact nodup_cut (nodup_append_page h hitems) _

/-- `replaceTraceSpansAtom` leaves the ids alone. -/
theorem ids_replaceTraceSpans (s : Store) (traceId : String) (spans : List SpanData) :
    (replaceTraceSpans s traceId spans).traces.map TraceData.traceId =
      s.traces.map TraceData.traceId := by
  rw [replaceTraceSpans]
  split
  · rfl
  · rename_i index _
    let f : TraceData → TraceData := fun trace => { trace with spans := spans }
    exact map_modify (f := f) (fun _ => rfl) s.traces index

/-! ### The invariant of the buffer -/

/-- One row a trace, no more rows than the cap, the newest start first, and the parsed
start is that of the start. -/
structure TraceBuffer (epochNs : String → Int) (cap : Nat) (traces : List TraceData) : Prop where
  nodup : (traces.map TraceData.traceId).Nodup
  length_le : traces.length ≤ cap
  sorted : NewestFirst traces
  epochs : ∀ t ∈ traces, t.startEpochNs = epochNs t.startTime

section Invariant

variable {epochNs : String → Int} {cap : Nat}

/-- Sorting and cutting makes a buffer of rows of distinct traces. -/
theorem traceBuffer_sorted
    {rows : List TraceData} (hnodup : (rows.map TraceData.traceId).Nodup)
    (hepochs : ∀ t ∈ rows, t.startEpochNs = epochNs t.startTime) :
    TraceBuffer epochNs cap ((newestTraceStartFirst rows).take cap) where
  nodup := nodup_cut hnodup cap
  length_le := by
    rw [List.length_take]
    exact Nat.min_le_left _ _
  sorted := (newestFirst_newestTraceStartFirst rows).sublist (List.take_sublist _ _)
  epochs t ht :=
    hepochs t ((newestTraceStartFirst_perm rows).mem_iff.mp (List.mem_of_mem_take ht))

/-- Rows that fit need no cutting. -/
theorem traceBuffer_fits
    {rows : List TraceData} (hnodup : ((newestTraceStartFirst rows).map TraceData.traceId).Nodup)
    (hepochs : ∀ t ∈ rows, t.startEpochNs = epochNs t.startTime) (hfits : rows.length ≤ cap) :
    TraceBuffer epochNs cap (newestTraceStartFirst rows) := by
  have hlength : (newestTraceStartFirst rows).length ≤ cap := by
    rwa [(newestTraceStartFirst_perm rows).length_eq]
  have hcut : TraceBuffer epochNs cap ((newestTraceStartFirst rows).take cap) :=
    traceBuffer_sorted (((newestTraceStartFirst_perm rows).map _).nodup_iff.mp hnodup) hepochs
  rwa [List.take_of_length_le hlength] at hcut

/-- A merged row keeps the parsed start in step with the start. -/
theorem epoch_mergeTrace
    {x y z : TraceData} (hmerge : mergeTrace y x = some z)
    (hx : x.startEpochNs = epochNs x.startTime) (hy : y.startEpochNs = epochNs y.startTime) :
    z.startEpochNs = epochNs z.startTime := by
  rw [mergeTrace] at hmerge
  split at hmerge
  · cases hmerge
  · cases hmerge
    rw [mergedTrace]
    dsimp only
    split
    · exact hx
    · exact hy

theorem epochs_upsert
    {rows : List TraceData} (hrows : ∀ t ∈ rows, t.startEpochNs = epochNs t.startTime)
    {x : TraceData} (hx : x.startEpochNs = epochNs x.startTime) :
    ∀ t ∈ upsert TraceData.traceId mergeTrace rows x,
      t.startEpochNs = epochNs t.startTime := by
  intro t ht
  rw [upsert] at ht
  split at ht
  · obtain ⟨y, hy, rfl⟩ := List.mem_map.mp ht
    rw [mergeRow]
    split
    · cases hmerge : mergeTrace y x with
      | none => exact hrows y hy
      | some z => exact epoch_mergeTrace hmerge hx (hrows y hy)
    · exact hrows y hy
  · rcases List.mem_append.mp ht with ht | ht
    · exact hrows t ht
    · rw [List.mem_singleton.mp ht]
      exact hx

theorem epochs_mergeBatch
    {rows newTraces : List TraceData}
    (hrows : ∀ t ∈ rows, t.startEpochNs = epochNs t.startTime)
    (hnew : ∀ t ∈ newTraces, t.startEpochNs = epochNs t.startTime) :
    ∀ t ∈ mergeBatch rows newTraces, t.startEpochNs = epochNs t.startTime := by
  induction newTraces generalizing rows with
  | nil =>
      exact hrows
  | cons x xs ih =>
      exact ih (epochs_upsert hrows (hnew x List.mem_cons_self))
        fun t ht => hnew t (List.mem_cons_of_mem x ht)

/-- `addTracesAtom` keeps the buffer. -/
theorem traceBuffer_addTraces
    {s : Store} (h : TraceBuffer epochNs s.caps.traceCap s.traces) {newTraces : List TraceData}
    (hnew : ∀ t ∈ newTraces, t.startEpochNs = epochNs t.startTime) :
    TraceBuffer epochNs s.caps.traceCap (addTraces s newTraces).traces := by
  obtain ⟨traces, batch, hstore, hsorted | ⟨hsame, -⟩⟩ := addTraces_spec h.nodup newTraces
  · rw [hstore]
    dsimp only
    rw [hsorted]
    exact traceBuffer_sorted (nodup_foldl_upsert mergeTrace_keepsKey h.nodup newTraces)
      (epochs_mergeBatch h.epochs hnew)
  · rw [hstore]
    dsimp only
    rw [hsame]
    exact h

/-- `cacheTraceAtom` keeps the buffer; the cap leaves room for the requested row. -/
theorem traceBuffer_cacheTrace
    {s : Store} (h : TraceBuffer epochNs s.caps.traceCap s.traces) (hcap : 1 ≤ s.caps.traceCap)
    {trace : TraceData} (htrace : trace.startEpochNs = epochNs trace.startTime) :
    TraceBuffer epochNs s.caps.traceCap (cacheTrace s trace).traces := by
  have hnodup := nodup_cacheTrace h.nodup trace
  rw [cacheTrace] at hnodup ⊢
  cases hfind : s.traces.findIdx? fun item => decide (item.traceId = trace.traceId) with
  | some idx =>
      obtain ⟨hidx, -, -⟩ := List.findIdx?_eq_some_iff_getElem.mp hfind
      have hget : s.traces[idx]? = some s.traces[idx] := List.getElem?_eq_getElem hidx
      simp only [hfind, hget, Option.bind_some] at hnodup ⊢
      cases hmerge : mergeTrace s.traces[idx] trace with
      | none =>
          exact h
      | some merged =>
          rw [hmerge] at hnodup
          refine traceBuffer_fits hnodup ?_ ?_
          · intro t ht
            rcases List.mem_or_eq_of_mem_set ht with ht | rfl
            · exact h.epochs t ht
            · exact epoch_mergeTrace hmerge htrace (h.epochs _ (List.getElem_mem hidx))
          · rw [List.length_set]
            exact h.length_le
  | none =>
      have hepochs : ∀ t ∈ s.traces ++ [trace], t.startEpochNs = epochNs t.startTime := by
        intro t ht
        rcases List.mem_append.mp ht with ht | ht
        · exact h.epochs t ht
        · rw [List.mem_singleton.mp ht]
          exact htrace
      simp only [hfind] at hnodup ⊢
      split at hnodup
      · rename_i hfits
        rw [if_pos hfits]
        rw [(newestTraceStartFirst_perm _).length_eq] at hfits
        exact traceBuffer_fits hnodup hepochs hfits
      · -- The other rows are cut to leave room for the requested one.
        rename_i hfull
        rw [if_neg hfull]
        refine traceBuffer_fits hnodup ?_ ?_
        · intro t ht
          rcases List.mem_append.mp ht with ht | ht
          · have hkept := (List.mem_filter.mp (List.mem_of_mem_take ht)).1
            exact hepochs t ((newestTraceStartFirst_perm _).mem_iff.mp hkept)
          · rw [List.mem_singleton.mp ht]
            exact htrace
        · rw [List.length_append, List.length_take, List.length_singleton]
          omega

theorem epoch_pageRow
    (current : List TraceData) {incoming : TraceData}
    (h : incoming.startEpochNs = epochNs incoming.startTime) :
    (pageRow current incoming).startEpochNs = epochNs (pageRow current incoming).startTime := by
  rw [pageRow]
  split
  · exact h
  · exact h

/-- `replaceTracePageAtom` makes a buffer of a page of distinct traces. -/
theorem traceBuffer_replaceTracePage
    {s : Store} (h : TraceBuffer epochNs s.caps.traceCap s.traces) {items : List TraceData}
    (hitems : (items.map TraceData.traceId).Nodup)
    (hepochs : ∀ t ∈ items, t.startEpochNs = epochNs t.startTime)
    (idsBeforeRequest : Finset String) (window : EventTimeWindow) :
    TraceBuffer epochNs s.caps.traceCap
      (replaceTracePage s items idsBeforeRequest window).traces := by
  refine traceBuffer_sorted ?_ ?_
  · refine nodup_append_page (h.nodup.sublist (List.filter_sublist.map _)) ?_
    rw [List.map_map]
    have hids : TraceData.traceId ∘ pageRow s.traces = TraceData.traceId :=
      funext (traceId_pageRow s.traces)
    rwa [hids]
  · intro t ht
    rcases List.mem_append.mp ht with ht | ht
    · exact h.epochs t (List.mem_filter.mp ht).1
    · obtain ⟨incoming, hincoming, rfl⟩ := List.mem_map.mp (List.mem_filter.mp ht).1
      exact epoch_pageRow s.traces (hepochs incoming hincoming)

/-- Appending a page keeps the buffer. -/
theorem traceBuffer_append
    {s : Store} (h : TraceBuffer epochNs s.caps.traceCap s.traces) {items : List TraceData}
    (hitems : (items.map TraceData.traceId).Nodup)
    (hepochs : ∀ t ∈ items, t.startEpochNs = epochNs t.startTime) :
    TraceBuffer epochNs s.caps.traceCap (appendTraceSearchResults s items).traces := by
  rw [appendTraceSearchResults, appendedPage]
  dsimp only
  split
  · exact h
  · refine traceBuffer_sorted (nodup_append_page h.nodup hitems) ?_
    intro t ht
    rcases List.mem_append.mp ht with ht | ht
    · exact h.epochs t ht
    · exact hepochs t (List.mem_filter.mp ht).1

theorem traceBuffer_removeTrace
    {s : Store} (h : TraceBuffer epochNs s.caps.traceCap s.traces) (traceId : String) :
    TraceBuffer epochNs s.caps.traceCap (removeTrace s traceId).traces where
  nodup := h.nodup.sublist (List.filter_sublist.map _)
  length_le := le_trans (List.length_filter_le _ _) h.length_le
  sorted := h.sorted.sublist List.filter_sublist
  epochs t ht := h.epochs t (List.mem_filter.mp ht).1

/-- `replaceTraceSpansAtom` changes the spans of a row only. -/
theorem traceBuffer_replaceTraceSpans
    {s : Store} (h : TraceBuffer epochNs s.caps.traceCap s.traces) (traceId : String)
    (spans : List SpanData) :
    TraceBuffer epochNs s.caps.traceCap (replaceTraceSpans s traceId spans).traces := by
  rw [replaceTraceSpans]
  split
  · exact h
  · rename_i index _
    let f : TraceData → TraceData := fun trace => { trace with spans := spans }
    have hids : (s.traces.modify index f).map TraceData.traceId = s.traces.map TraceData.traceId :=
      map_modify (f := f) (fun _ => rfl) s.traces index
    have hstarts : (s.traces.modify index f).map (fun t => (t.startEpochNs, t.startTime)) =
        s.traces.map fun t => (t.startEpochNs, t.startTime) :=
      map_modify (f := f) (fun _ => rfl) s.traces index
    refine ⟨?_, ?_, ?_, ?_⟩
    · rw [hids]
      exact h.nodup
    · rw [List.length_modify]
      exact h.length_le
    · have hsorted : (s.traces.map fun t => (t.startEpochNs, t.startTime)).Pairwise
          fun a b => b.1 ≤ a.1 := List.pairwise_map.mpr h.sorted
      rw [← hstarts] at hsorted
      exact List.pairwise_map.mp hsorted
    · intro t ht
      have hmem := List.mem_map_of_mem (f := fun t : TraceData => (t.startEpochNs, t.startTime)) ht
      rw [hstarts] at hmem
      obtain ⟨t', ht', heq⟩ := List.mem_map.mp hmem
      have hepoch : t'.startEpochNs = t.startEpochNs := congrArg Prod.fst heq
      have hstart : t'.startTime = t.startTime := congrArg Prod.snd heq
      rw [← hepoch, ← hstart]
      exact h.epochs t' ht'

/-! ### Runs -/

/-- An operation on the buffer. -/
inductive TraceOperation where
  | addTraces (newTraces : List TraceData)
  | cacheTrace (trace : TraceData)
  | replaceTracePage (items : List TraceData) (idsBeforeRequest : Finset String)
      (window : EventTimeWindow)
  | appendTraces (traces : List TraceData)
  | appendTraceSearchResults (traces : List TraceData)
  | removeTrace (traceId : String)
  | replaceTraceSpans (traceId : String) (spans : List SpanData)

def TraceOperation.apply (s : Store) : TraceOperation → Store
  | addTraces newTraces => Stores.addTraces s newTraces
  | cacheTrace trace => Stores.cacheTrace s trace
  | replaceTracePage items ids window => Stores.replaceTracePage s items ids window
  | appendTraces traces => Stores.appendTraces s traces
  | appendTraceSearchResults traces => Stores.appendTraceSearchResults s traces
  | removeTrace traceId => Stores.removeTrace s traceId
  | replaceTraceSpans traceId spans => Stores.replaceTraceSpans s traceId spans

/-- The rows an operation brings. -/
def TraceOperation.rows : TraceOperation → List TraceData
  | addTraces newTraces => newTraces
  | cacheTrace trace => [trace]
  | replaceTracePage items _ _ => items
  | appendTraces traces => traces
  | appendTraceSearchResults traces => traces
  | removeTrace _ => []
  | replaceTraceSpans _ _ => []

/-- The operation writes a fetched page. -/
def TraceOperation.isPage : TraceOperation → Bool
  | replaceTracePage _ _ _ => true
  | appendTraces _ => true
  | appendTraceSearchResults _ => true
  | _ => false

/-- The rows are parsed, and a page has a trace once. -/
def TraceOperation.Admissible (epochNs : String → Int) (op : TraceOperation) : Prop :=
  (∀ t ∈ op.rows, t.startEpochNs = epochNs t.startTime) ∧
    (op.isPage = true → (op.rows.map TraceData.traceId).Nodup)

theorem traceBuffer_apply
    {s : Store} (h : TraceBuffer epochNs s.caps.traceCap s.traces) (hcap : 1 ≤ s.caps.traceCap)
    {op : TraceOperation} (hop : op.Admissible epochNs) :
    TraceBuffer epochNs s.caps.traceCap (op.apply s).traces := by
  obtain ⟨hepochs, hpage⟩ := hop
  cases op with
  | addTraces newTraces => exact traceBuffer_addTraces h hepochs
  | cacheTrace trace => exact traceBuffer_cacheTrace h hcap (hepochs trace List.mem_cons_self)
  | replaceTracePage items ids window =>
      exact traceBuffer_replaceTracePage h (hpage rfl) hepochs ids window
  | appendTraces traces => exact traceBuffer_append h (hpage rfl) hepochs
  | appendTraceSearchResults traces => exact traceBuffer_append h (hpage rfl) hepochs
  | removeTrace traceId => exact traceBuffer_removeTrace h traceId
  | replaceTraceSpans traceId spans => exact traceBuffer_replaceTraceSpans h traceId spans

/-- No operation changes the caps. -/
theorem caps_apply (s : Store) (op : TraceOperation) : (op.apply s).caps = s.caps := by
  cases op with
  | addTraces newTraces =>
      rw [TraceOperation.apply, addTraces]
      split
      · rfl
      · dsimp only
        split <;> rfl
  | cacheTrace trace =>
      rw [TraceOperation.apply, cacheTrace]
      split
      · split <;> rfl
      · dsimp only
        split <;> rfl
  | replaceTracePage items ids window => rfl
  | appendTraces traces => rfl
  | appendTraceSearchResults traces => rfl
  | removeTrace traceId => rfl
  | replaceTraceSpans traceId spans =>
      rw [TraceOperation.apply, replaceTraceSpans]
      split <;> rfl

/-- After every operation of a run the list is a buffer. -/
theorem traceBuffer_run
    {s : Store} (h : TraceBuffer epochNs s.caps.traceCap s.traces) (hcap : 1 ≤ s.caps.traceCap)
    {ops : List TraceOperation} (hops : ∀ op ∈ ops, op.Admissible epochNs) :
    TraceBuffer epochNs s.caps.traceCap (ops.foldl TraceOperation.apply s).traces := by
  induction ops generalizing s with
  | nil =>
      exact h
  | cons op ops ih =>
      have hstep := traceBuffer_apply h hcap (hops op List.mem_cons_self)
      rw [← caps_apply s op] at hstep hcap
      rw [List.foldl_cons, ← caps_apply s op]
      exact ih hstep hcap fun op' hop' => hops op' (List.mem_cons_of_mem op hop')

theorem traceBuffer_nil : TraceBuffer epochNs cap [] where
  nodup := List.nodup_nil
  length_le := Nat.zero_le cap
  sorted := List.Pairwise.nil
  epochs _ ht := absurd ht List.not_mem_nil

end Invariant

/-! ### A run -/

/-- A reader of two instants. -/
def sampleEpochNs (iso : String) : Int :=
  if iso = "2024-01-01T00:10:00Z" then 1704067800000000000
  else if iso = "2024-01-01T00:20:00Z" then 1704068400000000000
  else 0

/-- A summary of a trace, as the server sends it. -/
def sampleTrace (traceId startTime : String) (spanCount : Int) : TraceData where
  traceId := traceId
  rootSpan := none
  linkCount := 0
  serviceName := "checkout"
  searchValues := none
  spanCount := spanCount
  startTime := startTime
  duration := spanCount
  spans := []
  startEpochNs := sampleEpochNs startTime

def sampleOperations : List TraceOperation :=
  [.addTraces [sampleTrace "a" "2024-01-01T00:10:00Z" 1, sampleTrace "b" "2024-01-01T00:20:00Z" 1],
    .cacheTrace (sampleTrace "a" "2024-01-01T00:10:00Z" 2),
    .replaceTracePage [sampleTrace "b" "2024-01-01T00:20:00Z" 3] {"a"} (.live .hour),
    .appendTraces [sampleTrace "c" "2024-01-01T00:10:00Z" 1],
    .replaceTraceSpans "c" [⟨"s", "", 0⟩],
    .removeTrace "b"]

/-- Room for one trace. -/
def sampleCaps : BufferCaps := ⟨1, 10, 10, 10⟩

theorem traceBuffer_run_sample :
    TraceBuffer sampleEpochNs 1
      (sampleOperations.foldl TraceOperation.apply (initialStore sampleCaps)).traces :=
  traceBuffer_run (s := initialStore sampleCaps) traceBuffer_nil (by decide)
    (by simp [sampleOperations, TraceOperation.Admissible, TraceOperation.rows,
      TraceOperation.isPage, sampleTrace])

/-- With room for one trace the later start stays. -/
example :
    ((sampleOperations.take 1).foldl TraceOperation.apply (initialStore sampleCaps)).traces.map
      TraceData.traceId = ["b"] := by
  decide +kernel

end Stores
end Otelop
