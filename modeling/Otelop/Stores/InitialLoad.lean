import Mathlib.Tactic
import Otelop.Lib.Along
import Otelop.Stores.MetricBuffer

/-!
# The initial load

`frontend/src/hooks/use-initial-load.ts` writes the response of the `InitialLoad` query
into the store once, whenever it arrives.  The response has every metric group without
its data points, and `setMetricsAtom` puts it in the place of the list, which the socket
may have filled by then.

What was delivered and not cut by the caps is `LoadRun.owed`, a ghost of the run.

**Results.**
* `items_mergeMetrics_zero`: without cuts a flush loses nothing.
* `initialLoad_keepsMetrics_iff`: when everything owed is in the list.
-/

namespace Otelop
namespace Stores

open Lib

/-- The response of the query; it has a group once. -/
structure InitialLoadData where
  config : SignalTotals
  metrics : List MetricData
  distinct : (metrics.map MetricData.key).Nodup

/-- The store, and `initializedAtom`. -/
structure LoadState where
  store : Store
  initialized : Bool

/-- The effect of `useInitialLoad` once there are data. -/
def useInitialLoad (s : LoadState) (data : InitialLoadData) : LoadState :=
  if s.initialized then s
  else
    { store :=
        setMetrics (setTotalCounts s.store data.config)
          (data.metrics.map fun m => { m with dataPoints := [] })
      initialized := true }

/-- A metric group, or one of its data points, by its id. -/
abbrev MetricItem : Type := (String × String) × Option String

def MetricData.items (m : MetricData) : List MetricItem :=
  (m.key, none) :: m.dataPoints.map fun p => (m.key, some p.id)

/-- The groups and the data points of a list. -/
def itemsOf (metrics : List MetricData) : List MetricItem := metrics.flatMap MetricData.items

/-- A flush loses `item` to the caps: it is in the list merged without cuts (a slice from
`-0` keeps everything), and not in the list after the flush. -/
def Evicts (s : Store) (newMetrics : List MetricData) (item : MetricItem) : Prop :=
  item ∈ itemsOf (mergeMetrics 0 s.metrics newMetrics) ∧
    item ∉ itemsOf (addMetrics s newMetrics).metrics

/-- The response arrives, or a flush of metric deliveries is applied. -/
inductive LoadEvent where
  | response (data : InitialLoadData)
  | deliver (newMetrics : List MetricData)

/-- The state, and what was delivered and not evicted so far. -/
structure LoadRun where
  state : LoadState
  owed : Set MetricItem

def LoadRun.step (r : LoadRun) : LoadEvent → LoadRun
  | .response data => { r with state := useInitialLoad r.state data }
  | .deliver newMetrics =>
      { state := { r.state with store := addMetrics r.state.store newMetrics }
        owed :=
          {item | (item ∈ r.owed ∨ item ∈ itemsOf newMetrics) ∧
            ¬ Evicts r.state.store newMetrics item} }

/-- The page was just opened. -/
def LoadRun.start (caps : BufferCaps) : LoadRun := ⟨⟨initialStore caps, false⟩, ∅⟩

/-- Once the response was applied, the list has everything owed. -/
def KeepsDelivered (r : LoadRun) : Prop :=
  r.state.initialized = true → ∀ item ∈ r.owed, item ∈ itemsOf r.state.store.metrics

/-- Where the response is applied, the list has no data point and no group that the
response does not have. -/
def NothingToLose (r : LoadRun) : LoadEvent → Prop
  | .response data =>
      r.state.initialized = false →
        ∀ m ∈ r.state.store.metrics, m.dataPoints = [] ∧ m.key ∈ data.metrics.map MetricData.key
  | .deliver _ => True

/-! ### The items of a list -/

theorem mem_items {m : MetricData} {item : MetricItem} :
    item ∈ m.items ↔ item.1 = m.key ∧ ∀ id ∈ item.2, id ∈ m.dataPoints.map DataPoint.id := by
  obtain ⟨key, point⟩ := item
  cases point with
  | none =>
      simp [MetricData.items]
  | some id =>
      simp only [MetricData.items, List.mem_cons, List.mem_map, Prod.mk.injEq, reduceCtorEq,
        and_false, false_or, Option.some.injEq, Option.mem_def, forall_eq']
      constructor
      · rintro ⟨p, hp, hkey, hid⟩
        exact ⟨hkey.symm, p, hp, hid⟩
      · rintro ⟨hkey, p, hp, hid⟩
        exact ⟨p, hp, hkey.symm, hid⟩

theorem mem_itemsOf {metrics : List MetricData} {item : MetricItem} :
    item ∈ itemsOf metrics ↔ ∃ m ∈ metrics, item ∈ m.items :=
  List.mem_flatMap

theorem mem_itemsOf_cons {m : MetricData} {ms : List MetricData} {item : MetricItem} :
    item ∈ itemsOf (m :: ms) ↔ item ∈ m.items ∨ item ∈ itemsOf ms := by
  rw [itemsOf, List.flatMap_cons, List.mem_append]
  rfl

/-- A group that took a delivery has no items but its own and those delivered. -/
theorem items_mergedMetric_subset
    {n : Nat} {existing m : MetricData} (hkey : existing.key = m.key) {item : MetricItem}
    (h : item ∈ (mergedMetric n existing m).items) :
    item ∈ existing.items ∨ item ∈ m.items := by
  obtain ⟨hitem, hids⟩ := mem_items.mp h
  rw [key_mergedMetric] at hitem
  cases hpoint : item.2 with
  | none =>
      exact Or.inl (mem_items.mpr ⟨hitem, by simp [hpoint]⟩)
  | some id =>
      have hid : id ∈ (mergeDataPoints existing.dataPoints m.dataPoints).map DataPoint.id :=
        ((sliceFromEnd_sublist n _).map DataPoint.id).subset (hids id hpoint)
      rcases (ids_mergeDataPoints _ _ id).mp hid with hid | hid
      · exact Or.inl (mem_items.mpr ⟨hitem, by simpa [hpoint] using hid⟩)
      · exact Or.inr (mem_items.mpr ⟨hitem.trans hkey, by simpa [hpoint] using hid⟩)

/-- Without a cut a group keeps its items and takes those delivered. -/
theorem items_mergedMetric_zero
    {existing m : MetricData} (hkey : existing.key = m.key) {item : MetricItem}
    (h : item ∈ existing.items ∨ item ∈ m.items) :
    item ∈ (mergedMetric 0 existing m).items := by
  have hids : ∀ id, id ∈ existing.dataPoints.map DataPoint.id ∨
      id ∈ m.dataPoints.map DataPoint.id →
        id ∈ (mergedMetric 0 existing m).dataPoints.map DataPoint.id :=
    fun id => (ids_mergeDataPoints _ _ id).mpr
  rw [mem_items, key_mergedMetric]
  rcases h with h | h
  · obtain ⟨hitem, hpoints⟩ := mem_items.mp h
    exact ⟨hitem, fun id hid => hids id (Or.inl (hpoints id hid))⟩
  · obtain ⟨hitem, hpoints⟩ := mem_items.mp h
    exact ⟨hitem.trans hkey.symm, fun id hid => hids id (Or.inr (hpoints id hid))⟩

/-- One delivery adds nothing but its items. -/
theorem items_mergeMetric_subset
    {n : Nat} {groups : List MetricData} {m : MetricData} {item : MetricItem}
    (h : item ∈ itemsOf (mergeMetric n groups m)) :
    item ∈ itemsOf groups ∨ item ∈ m.items := by
  obtain ⟨row, hrow, hitem⟩ := mem_itemsOf.mp h
  rw [mergeMetric] at hrow
  split at hrow
  · obtain ⟨existing, hexisting, rfl⟩ := List.mem_map.mp hrow
    split at hitem
    · rename_i hkey
      exact (items_mergedMetric_subset hkey hitem).imp_left
        fun h => mem_itemsOf.mpr ⟨existing, hexisting, h⟩
    · exact Or.inl (mem_itemsOf.mpr ⟨existing, hexisting, hitem⟩)
  · rcases List.mem_cons.mp hrow with rfl | hrow
    · exact Or.inr hitem
    · exact Or.inl (mem_itemsOf.mpr ⟨row, hrow, hitem⟩)

/-- Without cuts one delivery keeps the items there were and adds its own. -/
theorem items_mergeMetric_zero
    {groups : List MetricData} {m : MetricData} {item : MetricItem}
    (h : item ∈ itemsOf groups ∨ item ∈ m.items) :
    item ∈ itemsOf (mergeMetric 0 groups m) := by
  rw [mem_itemsOf, mergeMetric]
  split
  · rename_i hkeys
    rcases h with h | h
    · obtain ⟨existing, hexisting, hitem⟩ := mem_itemsOf.mp h
      refine ⟨_, List.mem_map_of_mem hexisting, ?_⟩
      split
      · rename_i hkey
        exact items_mergedMetric_zero hkey (Or.inl hitem)
      · exact hitem
    · obtain ⟨existing, hexisting, hkey⟩ := List.mem_map.mp hkeys
      refine ⟨_, List.mem_map_of_mem hexisting, ?_⟩
      rw [if_pos hkey]
      exact items_mergedMetric_zero hkey (Or.inr h)
  · rcases h with h | h
    · obtain ⟨existing, hexisting, hitem⟩ := mem_itemsOf.mp h
      exact ⟨existing, List.mem_cons_of_mem _ hexisting, hitem⟩
    · exact ⟨_, List.mem_cons_self, h⟩

theorem items_mergeMetrics_subset
    {n : Nat} {groups newMetrics : List MetricData} {item : MetricItem}
    (h : item ∈ itemsOf (mergeMetrics n groups newMetrics)) :
    item ∈ itemsOf groups ∨ item ∈ itemsOf newMetrics := by
  induction newMetrics generalizing groups with
  | nil => exact Or.inl h
  | cons m ms ih =>
      rw [mem_itemsOf_cons, ← or_assoc]
      exact (ih h).imp_left items_mergeMetric_subset

/-- Without cuts a flush loses nothing. -/
theorem items_mergeMetrics_zero
    {groups newMetrics : List MetricData} {item : MetricItem}
    (h : item ∈ itemsOf groups ∨ item ∈ itemsOf newMetrics) :
    item ∈ itemsOf (mergeMetrics 0 groups newMetrics) := by
  induction newMetrics generalizing groups with
  | nil =>
      rcases h with h | h
      · exact h
      · cases h
  | cons m ms ih =>
      rw [mem_itemsOf_cons, ← or_assoc] at h
      exact ih (h.imp_left items_mergeMetric_zero)

/-- A flush adds nothing but its items. -/
theorem items_addMetrics_subset
    {s : Store} (hnodup : (s.metrics.map MetricData.key).Nodup) {newMetrics : List MetricData}
    {item : MetricItem} (h : item ∈ itemsOf (addMetrics s newMetrics).metrics) :
    item ∈ itemsOf s.metrics ∨ item ∈ itemsOf newMetrics := by
  cases newMetrics with
  | nil => exact Or.inl h
  | cons m ms =>
      rw [addMetrics_spec hnodup (List.cons_ne_nil m ms)] at h
      obtain ⟨row, hrow, hitem⟩ := mem_itemsOf.mp h
      exact items_mergeMetrics_subset
        (mem_itemsOf.mpr ⟨row, List.mem_of_mem_take hrow, hitem⟩)

theorem nodup_addMetrics
    {s : Store} (hnodup : (s.metrics.map MetricData.key).Nodup) (newMetrics : List MetricData) :
    ((addMetrics s newMetrics).metrics.map MetricData.key).Nodup := by
  cases newMetrics with
  | nil => exact hnodup
  | cons m ms =>
      rw [addMetrics_spec hnodup (List.cons_ne_nil m ms)]
      exact (nodup_mergeMetrics hnodup _).sublist ((List.take_sublist _ _).map _)

/-! ### Runs -/

/-- What a run keeps: before the response was applied the list is what is owed, and from
then on it has what is owed. -/
structure LoadInvariant (r : LoadRun) : Prop where
  nodup : (r.state.store.metrics.map MetricData.key).Nodup
  owed : ∀ item ∈ r.owed, item ∈ itemsOf r.state.store.metrics
  held : r.state.initialized = false →
    ∀ item ∈ itemsOf r.state.store.metrics, item ∈ r.owed

theorem loadInvariant_start (caps : BufferCaps) : LoadInvariant (.start caps) where
  nodup := List.nodup_nil
  owed _ h := h.elim
  held _ _ h := absurd h List.not_mem_nil

/-- A flush keeps the invariant: what it does not keep of the items owed, the caps cut. -/
theorem loadInvariant_deliver
    {r : LoadRun} (h : LoadInvariant r) (newMetrics : List MetricData) :
    LoadInvariant (r.step (.deliver newMetrics)) where
  nodup := nodup_addMetrics h.nodup newMetrics
  owed item hitem := by
    obtain ⟨hbefore, hkept⟩ := hitem
    by_contra hlost
    exact hkept ⟨items_mergeMetrics_zero (hbefore.imp_left (h.owed item)), hlost⟩
  held hinit item hitem := by
    refine ⟨(items_addMetrics_subset h.nodup hitem).imp_left (h.held hinit item), ?_⟩
    rintro ⟨-, hlost⟩
    exact hlost hitem

/-- The response keeps the invariant exactly when the list has nothing to lose. -/
theorem loadInvariant_response
    {r : LoadRun} (h : LoadInvariant r) {data : InitialLoadData}
    (hlose : NothingToLose r (.response data)) :
    LoadInvariant (r.step (.response data)) := by
  rw [LoadRun.step, useInitialLoad]
  cases hinit : r.state.initialized with
  | true => exact h
  | false =>
      refine ⟨?_, ?_, fun hfalse => by cases hfalse⟩
      · change ((data.metrics.map _).map MetricData.key).Nodup
        rw [List.map_map]
        exact data.distinct
      · intro item hitem
        obtain ⟨m, hm, hitem⟩ := mem_itemsOf.mp (h.owed item hitem)
        obtain ⟨hpoints, hkey⟩ := hlose hinit m hm
        obtain ⟨hitemKey, hids⟩ := mem_items.mp hitem
        obtain ⟨m', hm', hkey'⟩ := List.mem_map.mp hkey
        refine mem_itemsOf.mpr ⟨_, List.mem_map_of_mem hm', mem_items.mpr ⟨?_, ?_⟩⟩
        · exact hitemKey.trans hkey'.symm
        · intro id hid
          have := hids id hid
          rw [hpoints] at this
          cases this

/-- A list that has everything owed after the response had nothing to lose. -/
theorem nothingToLose_of_kept
    {r : LoadRun} (h : LoadInvariant r) {data : InitialLoadData}
    (hkeeps : KeepsDelivered (r.step (.response data))) :
    NothingToLose r (.response data) := by
  intro hinit m hm
  rw [LoadRun.step, useInitialLoad, hinit] at hkeeps
  have hkept : ∀ item ∈ m.items, ∃ m' ∈ data.metrics, item.1 = m'.key ∧ item.2 = none := by
    intro item hitem
    have howed := h.held hinit item (mem_itemsOf.mpr ⟨m, hm, hitem⟩)
    obtain ⟨row, hrow, hrowItem⟩ := mem_itemsOf.mp (hkeeps rfl item howed)
    obtain ⟨m', hm', rfl⟩ := List.mem_map.mp hrow
    obtain ⟨hkey, hids⟩ := mem_items.mp hrowItem
    refine ⟨m', hm', hkey, ?_⟩
    cases hpoint : item.2 with
    | none => rfl
    | some id => exact absurd (hids id hpoint) List.not_mem_nil
  constructor
  · refine List.eq_nil_iff_forall_not_mem.mpr fun p hp => ?_
    obtain ⟨_, -, -, hnone⟩ := hkept (m.key, some p.id)
      (mem_items.mpr ⟨rfl, by simpa using ⟨p, hp, rfl⟩⟩)
    cases hnone
  · obtain ⟨m', hm', hkey, -⟩ := hkept (m.key, none) (mem_items.mpr ⟨rfl, by simp⟩)
    exact List.mem_map.mpr ⟨m', hm', hkey.symm⟩

/-- Along a run from an empty store, once the response was applied the list has every
group and every data point that was delivered and not evicted, exactly when the response
was applied to a list without data points and with no group that the response lacks. -/
theorem initialLoad_keepsMetrics_iff (caps : BufferCaps) (events : List LoadEvent) :
    Along LoadRun.step (.start caps) events KeepsDelivered ↔
      EveryStep LoadRun.step (.start caps) events NothingToLose := by
  refine along_iff_everyStep (J := LoadInvariant) (loadInvariant_start caps)
    (fun r h _ => h.owed) ?_ ?_
  · intro r e _ h hok
    cases e with
    | response data => exact loadInvariant_response h hok
    | deliver newMetrics => exact loadInvariant_deliver h newMetrics
  · intro r e _ h hkeeps
    cases e with
    | response data => exact nothingToLose_of_kept h hkeeps
    | deliver newMetrics => trivial

def samplePoint (id : String) : DataPoint := ⟨id, "2024-01-01T00:10:00Z", 1⟩

def sampleMetric (name : String) (dataPoints : List DataPoint) : MetricData where
  name := name
  serviceName := "checkout"
  dataPoints := dataPoints
  pointCount := 0
  latestValue := none
  receivedAt := "2024-01-01T00:10:00Z"

/-- A metric is delivered before the response of a server that had none. -/
theorem initialLoad_discards :
    ¬ Along LoadRun.step (.start defaultConfig)
      [.deliver [sampleMetric "requests" [samplePoint "p"]], .response ⟨⟨0, 0, 0⟩, [], by simp⟩]
      KeepsDelivered := by
  intro h
  have hlost := h _ List.prefix_rfl rfl (("checkout", "requests"), none) ⟨Or.inr (by decide), ?_⟩
  · revert hlost
    decide
  · rintro ⟨-, hevicted⟩
    exact hevicted (by decide)

end Stores
end Otelop
