import Mathlib.Tactic
import Otelop.Stores.Telemetry

/-!
# The buffer of metrics

`addMetricsAtom` of `frontend/src/stores/telemetry.ts` merges a flush of delivered groups into
the list.  It finds a group through a map of locations, in the list or among the groups this
batch brought.  It amounts to merging each delivery into its group, or putting the new group
in front.

`mergeMetrics` is that, written as a fold over the deliveries without any location.  The loop
invariant `MetricLoopState` says that the locations lead to the groups with their keys and
that the new groups, in front of the others, are the fold over the deliveries done so far;
each round keeps it.

The points of a group are merged by their ids: a point that is there is not added again, and
the oldest points are cut off beyond the limit.

**Results.**
* `addMetrics_spec`: `addMetricsAtom`, without the locations.
* `nodup_mergeDataPoints`, `nodup_mergeMetrics`: merging repeats no point and no group.
-/

namespace Otelop
namespace Stores

open Lib

/-- One delivery: merged into its group, or put in front. -/
def mergeMetric (maxDataPoints : Nat) (groups : List MetricData) (newMetric : MetricData) :
    List MetricData :=
  if newMetric.key ∈ groups.map MetricData.key then
    groups.map fun existing =>
      if existing.key = newMetric.key then mergedMetric maxDataPoints existing newMetric
      else existing
  else newGroup newMetric :: groups

/-- The groups after a batch. -/
def mergeMetrics (maxDataPoints : Nat) (groups newMetrics : List MetricData) : List MetricData :=
  newMetrics.foldl (mergeMetric maxDataPoints) groups

theorem key_mergedMetric (maxDataPoints : Nat) (existing newMetric : MetricData) :
    (mergedMetric maxDataPoints existing newMetric).key = existing.key := rfl

theorem key_newGroup (newMetric : MetricData) : (newGroup newMetric).key = newMetric.key := rfl

/-! ### Points -/

theorem ids_pushUnseen (merged : List DataPoint) (dp : DataPoint) (id : String) :
    id ∈ (pushUnseen merged dp).map DataPoint.id ↔
      id ∈ merged.map DataPoint.id ∨ id = dp.id := by
  rw [pushUnseen]
  split
  · rename_i hseen
    refine ⟨Or.inl, ?_⟩
    rintro (h | rfl)
    · exact h
    · exact hseen
  · simp

theorem ids_foldl_pushUnseen (points merged : List DataPoint) (id : String) :
    id ∈ (points.foldl pushUnseen merged).map DataPoint.id ↔
      id ∈ merged.map DataPoint.id ∨ id ∈ points.map DataPoint.id := by
  induction points generalizing merged with
  | nil => simp
  | cons dp points ih =>
      rw [List.foldl_cons, ih, ids_pushUnseen, List.map_cons, List.mem_cons, or_assoc]

/-- Merging data points unites their ids. -/
theorem ids_mergeDataPoints (existing incoming : List DataPoint) (id : String) :
    id ∈ (mergeDataPoints existing incoming).map DataPoint.id ↔
      id ∈ existing.map DataPoint.id ∨ id ∈ incoming.map DataPoint.id := by
  rw [mergeDataPoints, ids_foldl_pushUnseen, ids_foldl_pushUnseen]
  simp

theorem sliceFromEnd_sublist {T : Type} (n : Nat) (values : List T) :
    (sliceFromEnd n values).Sublist values := by
  rw [sliceFromEnd]
  split
  · exact List.Sublist.refl values
  · exact List.drop_sublist _ _

/-- The ids of a merge are kept as distinct keys are. -/
theorem map_id_foldl_pushUnseen (points merged : List DataPoint) :
    (points.foldl pushUnseen merged).map DataPoint.id =
      (points.map DataPoint.id).foldl insertKey (merged.map DataPoint.id) := by
  induction points generalizing merged with
  | nil =>
      rfl
  | cons dp points ih =>
      rw [List.foldl_cons, ih, List.map_cons, List.foldl_cons]
      congr 1
      rw [pushUnseen, insertKey]
      split
      · rfl
      · rw [List.map_append, List.map_cons, List.map_nil]

theorem nodup_mergeDataPoints (existing incoming : List DataPoint) :
    ((mergeDataPoints existing incoming).map DataPoint.id).Nodup := by
  have hkeep : ∀ (ids keys : List String), keys.Nodup → (ids.foldl insertKey keys).Nodup := by
    intro ids
    induction ids with
    | nil => exact fun keys h => h
    | cons id ids ih => exact fun keys h => ih _ (nodup_insertKey h id)
  rw [mergeDataPoints, map_id_foldl_pushUnseen, map_id_foldl_pushUnseen]
  exact hkeep _ _ (hkeep _ _ List.nodup_nil)

/-! ### Groups -/

/-- A key that is there, or is put in front. -/
def consKey (keys : List (String × String)) (key : String × String) : List (String × String) :=
  if key ∈ keys then keys else key :: keys

theorem keys_mergeMetric
    (maxDataPoints : Nat) (groups : List MetricData) (newMetric : MetricData) :
    (mergeMetric maxDataPoints groups newMetric).map MetricData.key =
      consKey (groups.map MetricData.key) newMetric.key := by
  rw [mergeMetric, consKey]
  split
  · rw [List.map_map]
    refine List.map_congr_left fun existing _ => ?_
    rw [Function.comp_apply]
    split
    · exact key_mergedMetric maxDataPoints existing newMetric
    · rfl
  · rw [List.map_cons, key_newGroup]

theorem keys_mergeMetrics
    (maxDataPoints : Nat) (groups newMetrics : List MetricData) :
    (mergeMetrics maxDataPoints groups newMetrics).map MetricData.key =
      (newMetrics.map MetricData.key).foldl consKey (groups.map MetricData.key) := by
  induction newMetrics generalizing groups with
  | nil =>
      rfl
  | cons m ms ih =>
      rw [List.map_cons, List.foldl_cons, ← keys_mergeMetric maxDataPoints, ← ih]
      rfl

theorem nodup_consKey
    {keys : List (String × String)} (h : keys.Nodup) (key : String × String) :
    (consKey keys key).Nodup := by
  rw [consKey]
  split
  · exact h
  · rename_i hkey
    exact List.nodup_cons.mpr ⟨hkey, h⟩

theorem nodup_mergeMetrics
    {maxDataPoints : Nat} {groups : List MetricData} (h : (groups.map MetricData.key).Nodup)
    (newMetrics : List MetricData) :
    ((mergeMetrics maxDataPoints groups newMetrics).map MetricData.key).Nodup := by
  induction newMetrics generalizing groups with
  | nil =>
      exact h
  | cons m ms ih =>
      refine ih ?_
      rw [keys_mergeMetric]
      exact nodup_consKey h m.key

/-- The index a key has in the list of the buffer. -/
def MetricLoop.workingIndex (loop : MetricLoop) (key : String × String) : Option Nat :=
  match loop.locationByKey key with
  | some (.working idx) => some idx
  | _ => none

/-- The index a key has among the new groups. -/
def MetricLoop.newIndex (loop : MetricLoop) (key : String × String) : Option Nat :=
  match loop.locationByKey key with
  | some (.new idx) => some idx
  | _ => none

/-- What the loop of `addMetricsAtom` has done so far. -/
structure MetricLoopState (maxDataPoints : Nat) (current done : List MetricData)
    (loop : MetricLoop) : Prop where
  groups : loop.newGroups.reverse ++ loop.working = mergeMetrics maxDataPoints current done
  working : Indexes MetricData.key loop.working loop.workingIndex
  new : Indexes MetricData.key loop.newGroups loop.newIndex
  added : loop.addedGroupCount = loop.newGroups.length
  kept : loop.working.length = current.length

/-- Changing the rows of a key leaves rows without the key alone. -/
theorem map_unchanged
    {groups : List MetricData} {key : String × String} (h : key ∉ groups.map MetricData.key)
    (f : MetricData → MetricData) :
    (groups.map fun existing => if existing.key = key then f existing else existing) =
      groups := by
  conv_rhs => rw [← List.map_id groups]
  refine List.map_congr_left fun existing hexisting => ?_
  rw [if_neg, id]
  rintro rfl
  exact h (List.mem_map_of_mem hexisting)

theorem metricLoopState_round
    {maxDataPoints : Nat} {current done : List MetricData} {loop : MetricLoop}
    (h : MetricLoopState maxDataPoints current done loop) (m : MetricData) :
    MetricLoopState maxDataPoints current (done ++ [m])
      (addMetricsRound maxDataPoints loop m) := by
  have hbatch : mergeMetrics maxDataPoints current (done ++ [m]) =
      mergeMetric maxDataPoints (loop.newGroups.reverse ++ loop.working) m := by
    rw [mergeMetrics, List.foldl_append, h.groups]
    rfl
  have hmem : m.key ∈ (loop.newGroups.reverse ++ loop.working).map MetricData.key ↔
      m.key ∈ loop.newGroups.map MetricData.key ∨ m.key ∈ loop.working.map MetricData.key := by
    rw [List.map_append, List.map_reverse, List.mem_append, List.mem_reverse]
  rw [addMetricsRound]
  cases hlocation : loop.locationByKey m.key with
  | none =>
      have hworking : m.key ∉ loop.working.map MetricData.key := by
        refine h.working.eq_none_iff.mp ?_
        rw [MetricLoop.workingIndex, hlocation]
      have hnewIndex : loop.newIndex m.key = none := by
        rw [MetricLoop.newIndex, hlocation]
      have hnew : m.key ∉ loop.newGroups.map MetricData.key := h.new.eq_none_iff.mp hnewIndex
      refine ⟨?_, ?_, ?_, ?_, h.kept⟩
      · rw [hbatch, mergeMetric, if_neg (mt hmem.mp (not_or_intro hnew hworking)),
          List.reverse_append]
        rfl
      · refine Eq.subst ?_ h.working
        funext key
        by_cases hkey : key = m.key
        · subst hkey
          simp [MetricLoop.workingIndex, hlocation]
        · simp [MetricLoop.workingIndex, Function.update_of_ne hkey]
      · refine Eq.subst ?_ (h.new.push (x := newGroup m) hnewIndex)
        funext key
        rw [key_newGroup]
        by_cases hkey : key = m.key
        · subst hkey
          simp [MetricLoop.newIndex]
        · simp [MetricLoop.newIndex, Function.update_of_ne hkey]
      · rw [List.length_append, List.length_singleton, ← h.added]
  | some location =>
      cases location with
      | working idx =>
          have hindex : loop.workingIndex m.key = some idx := by
            rw [MetricLoop.workingIndex, hlocation]
          have hnewIndex : loop.newIndex m.key = none := by
            rw [MetricLoop.newIndex, hlocation]
          have hold : m.key ∈ loop.working.map MetricData.key :=
            List.mem_of_getElem? ((h.working _ _).mp hindex)
          have hkeys := map_modify
            (fun existing => key_mergedMetric maxDataPoints existing m) loop.working idx
          dsimp only
          refine ⟨?_, ?_, h.new, h.added, ?_⟩
          · rw [hbatch, mergeMetric, if_pos (hmem.mpr (Or.inr hold)), List.map_append,
              List.map_reverse, map_unchanged (h.new.eq_none_iff.mp hnewIndex),
              h.working.modify_eq_map hindex]
          · intro key i
            rw [hkeys]
            exact h.working key i
          · rw [List.length_modify]
            exact h.kept
      | new idx =>
          have hindex : loop.newIndex m.key = some idx := by
            rw [MetricLoop.newIndex, hlocation]
          have hworkingIndex : loop.workingIndex m.key = none := by
            rw [MetricLoop.workingIndex, hlocation]
          have hold : m.key ∈ loop.newGroups.map MetricData.key :=
            List.mem_of_getElem? ((h.new _ _).mp hindex)
          have hkeys := map_modify
            (fun existing => key_mergedMetric maxDataPoints existing m) loop.newGroups idx
          dsimp only
          refine ⟨?_, h.working, ?_, ?_, h.kept⟩
          · rw [hbatch, mergeMetric, if_pos (hmem.mpr (Or.inl hold)), List.map_append,
              List.map_reverse, map_unchanged (h.working.eq_none_iff.mp hworkingIndex),
              h.new.modify_eq_map hindex]
          · intro key i
            rw [hkeys]
            exact h.new key i
          · rw [List.length_modify]
            exact h.added

theorem metricLoopState_loop
    {current : List MetricData} (h : (current.map MetricData.key).Nodup)
    (maxDataPoints : Nat) (newMetrics : List MetricData) :
    MetricLoopState maxDataPoints current newMetrics
      (addMetricsLoop maxDataPoints current newMetrics) := by
  induction newMetrics using List.reverseRecOn with
  | nil =>
      refine ⟨rfl, ?_, ?_, rfl, rfl⟩
      · refine Eq.subst ?_ (indexRows_indexes h)
        funext key
        rw [MetricLoop.workingIndex, addMetricsLoop, List.foldl_nil]
        dsimp only
        cases indexRows MetricData.key current key <;> rfl
      · intro key i
        rw [MetricLoop.newIndex, addMetricsLoop, List.foldl_nil]
        dsimp only
        cases indexRows MetricData.key current key <;> simp
  | append_singleton newMetrics m ih =>
      rw [addMetricsLoop, List.foldl_append]
      exact metricLoopState_round ih m

/-- `addMetricsAtom` merges by key and cuts, and counts the new groups. -/
theorem addMetrics_spec
    {s : Store} (h : (s.metrics.map MetricData.key).Nodup) {newMetrics : List MetricData}
    (hne : newMetrics ≠ []) :
    addMetrics s newMetrics =
      { s with
        newMetricCount := s.newMetricCount +
          ((mergeMetrics s.caps.maxDataPoints s.metrics newMetrics).length - s.metrics.length)
        metrics := (mergeMetrics s.caps.maxDataPoints s.metrics newMetrics).take
          s.caps.metricCap } := by
  have hloop := metricLoopState_loop h s.caps.maxDataPoints newMetrics
  have hempty : newMetrics.isEmpty = false := by
    cases newMetrics with
    | nil => exact absurd rfl hne
    | cons m ms => rfl
  have hcount : (addMetricsLoop s.caps.maxDataPoints s.metrics newMetrics).addedGroupCount =
      (mergeMetrics s.caps.maxDataPoints s.metrics newMetrics).length - s.metrics.length := by
    rw [hloop.added, ← hloop.groups, List.length_append, List.length_reverse, hloop.kept,
      Nat.add_sub_cancel]
  rw [addMetrics, hempty, if_neg Bool.false_ne_true]
  dsimp only
  rw [hcount, hloop.groups]

end Stores
end Otelop
