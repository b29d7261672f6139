import Mathlib.Tactic
import Otelop.Lib.Along
import Otelop.Stores.MetricBuffer

/-!
# The points of a metric group

A group counts its points as they come in and keeps the last of them.  A delivery to a group
that is there is merged by the ids of the points and cut; the delivery that brings a group is
taken as it is.  What has been cut is not recognised when it is delivered again.

`MetricState.delivered` is a ghost: the ids delivered for each group so far.

**Results.**
* `countsOnce_merged`, `countsOnce_new`: when a delivery keeps the count and the bound.
* `pointsCounted_run`: a run of such deliveries keeps them, and no other run of single
  deliveries does.
-/

namespace Otelop
namespace Stores

open Lib

/-! ### The run -/

def pointIds (points : List DataPoint) : Finset String := (points.map DataPoint.id).toFinset

/-- The ids delivered for each group. -/
abbrev Delivered := String × String → Finset String

def Delivered.record (delivered : Delivered) (m : MetricData) : Delivered :=
  Function.update delivered m.key (delivered m.key ∪ pointIds m.dataPoints)

structure MetricState where
  store : Store
  delivered : Delivered

def MetricState.start (store : Store) : MetricState := ⟨store, fun _ => ∅⟩

/-- One store update, with the deliveries of a flush window. -/
def MetricState.deliver (s : MetricState) (batch : List MetricData) : MetricState :=
  ⟨addMetrics s.store batch, batch.foldl Delivered.record s.delivered⟩

/-- What the group counted before the first delivery. -/
def initialCount (start : Store) (key : String × String) : Int :=
  ((start.metrics.find? fun g => g.key = key).map MetricData.pointCount).getD 0

/-- The points the group had before the first delivery. -/
def initialIds (start : Store) (key : String × String) : Finset String :=
  pointIds (((start.metrics.find? fun g => g.key = key).map MetricData.dataPoints).getD [])

/-- The points are distinct and not too many, and the group has counted each id that was ever
delivered for it. -/
structure CountsOnce (start : Store) (delivered : Delivered) (g : MetricData) : Prop where
  distinct : (g.dataPoints.map DataPoint.id).Nodup
  bounded : g.dataPoints.length ≤ start.caps.maxDataPoints
  counted : g.pointCount =
    initialCount start g.key + (delivered g.key \ initialIds start g.key).card

def PointsCounted (start : Store) (s : MetricState) : Prop :=
  ∀ g ∈ s.store.metrics, CountsOnce start s.delivered g

/-! ### Deliveries that are counted right -/

/-- A delivery to a group that is there: each of its points is in the group, or is new. -/
def MergesRight (start : Store) (delivered : Delivered) (g m : MetricData) : Prop :=
  (start.caps.maxDataPoints = 0 → m.dataPoints = []) ∧
    ∀ id ∈ pointIds m.dataPoints, id ∉ pointIds g.dataPoints →
      id ∉ delivered m.key ∧ id ∉ initialIds start m.key

/-- A delivery that brings a group: its points are distinct and not too many, and if the group
was there before, its old points come with it. -/
def CreatesRight (start : Store) (delivered : Delivered) (m : MetricData) : Prop :=
  (m.dataPoints.map DataPoint.id).Nodup ∧
    m.dataPoints.length ≤ start.caps.maxDataPoints ∧
    ((pointIds m.dataPoints ∩ initialIds start m.key).card : Int) =
      initialCount start m.key +
        (delivered m.key \ (initialIds start m.key ∪ pointIds m.dataPoints)).card

structure DeliveredRight (start : Store) (groups : List MetricData) (delivered : Delivered)
    (m : MetricData) : Prop where
  merged : ∀ g ∈ groups, g.key = m.key → MergesRight start delivered g m
  created : m.key ∉ groups.map MetricData.key → CreatesRight start delivered m

/-- The deliveries of a batch, each in the groups that those before it left. -/
def BatchRight (start : Store) (s : MetricState) (batch : List MetricData) : Prop :=
  ∀ front m, front ++ [m] <+: batch →
    DeliveredRight start (mergeMetrics start.caps.maxDataPoints s.store.metrics front)
      (front.foldl Delivered.record s.delivered) m

/-- The group of the delivery is not cut off behind the cap of the list. -/
def Fits (start : Store) (groups : List MetricData) (m : MetricData) : Prop :=
  m.key ∈ (consKey (groups.map MetricData.key) m.key).take start.caps.metricCap

/-- A batch of one delivery, which is only seen if its group stays. -/
def SingleRight (start : Store) (s : MetricState) (batch : List MetricData) : Prop :=
  ∀ m ∈ batch, Fits start s.store.metrics m →
    DeliveredRight start s.store.metrics s.delivered m

/-! ### Merging points -/

theorem pointIds_mergeDataPoints (existing incoming : List DataPoint) :
    pointIds (mergeDataPoints existing incoming) = pointIds existing ∪ pointIds incoming := by
  ext id
  rw [pointIds, List.mem_toFinset, ids_mergeDataPoints, Finset.mem_union, pointIds, pointIds,
    List.mem_toFinset, List.mem_toFinset]

theorem length_eq_card {points : List DataPoint} (h : (points.map DataPoint.id).Nodup) :
    points.length = (pointIds points).card := by
  rw [pointIds, List.toFinset_card_of_nodup h, List.length_map]

theorem length_sliceFromEnd_le {T : Type} {n : Nat} (hn : n ≠ 0) (values : List T) :
    (sliceFromEnd n values).length ≤ n := by
  rw [sliceFromEnd, if_neg hn, List.length_drop]
  omega

/-! ### One delivery -/

/-- A set that grows by `M` gains as many elements as one that holds it exactly if what is new
for it is new for the other. -/
theorem card_union_agree_iff
    {α : Type} [DecidableEq α] {G D I M : Finset α} (hsub : G ⊆ D ∪ I) :
    ((G ∪ M).card + (D \ I).card = G.card + ((D ∪ M) \ I).card) ↔
      ∀ x ∈ M, x ∉ G → x ∉ D ∧ x ∉ I := by
  have hbuffer : (M \ G).card + G.card = (G ∪ M).card := by
    rw [Finset.card_sdiff_add_card, Finset.union_comm]
  have hknown : (M \ (D ∪ I)).card + (D \ I).card = ((D ∪ M) \ I).card := by
    have hnew : M \ (D ∪ I) = (M \ I) \ (D \ I) := by
      ext x
      simp only [Finset.mem_sdiff, Finset.mem_union]
      tauto
    rw [hnew, Finset.card_sdiff_add_card, ← Finset.union_sdiff_distrib, Finset.union_comm]
  have hle : M \ (D ∪ I) ⊆ M \ G := Finset.sdiff_subset_sdiff (Finset.Subset.refl M) hsub
  have hcards : (G ∪ M).card + (D \ I).card = G.card + ((D ∪ M) \ I).card ↔
      (M \ G).card ≤ (M \ (D ∪ I)).card := by
    have hmono := Finset.card_le_card hle
    omega
  rw [hcards]
  constructor
  · intro hcard x hx hxG
    have hmem : x ∈ M \ (D ∪ I) := by
      rw [Finset.eq_of_subset_of_card_le hle hcard]
      exact Finset.mem_sdiff.mpr ⟨hx, hxG⟩
    rw [Finset.mem_sdiff, Finset.mem_union, not_or] at hmem
    exact hmem.2
  · intro h
    refine Finset.card_le_card fun x hx => ?_
    obtain ⟨hxM, hxG⟩ := Finset.mem_sdiff.mp hx
    rw [Finset.mem_sdiff, Finset.mem_union, not_or]
    exact ⟨hxM, h x hxM hxG⟩

/-- What is known of a list of groups between two deliveries. -/
structure Kept (start : Store) (groups : List MetricData) (delivered : Delivered) : Prop where
  keys : (groups.map MetricData.key).Nodup
  known : ∀ g ∈ groups, pointIds g.dataPoints ⊆ delivered g.key ∪ initialIds start g.key
  counted : ∀ g ∈ groups, CountsOnce start delivered g

theorem record_self (delivered : Delivered) (m : MetricData) :
    delivered.record m m.key = delivered m.key ∪ pointIds m.dataPoints :=
  Function.update_self m.key _ delivered

theorem record_of_ne {delivered : Delivered} {m : MetricData} {key : String × String}
    (h : key ≠ m.key) : delivered.record m key = delivered key :=
  Function.update_of_ne h _ delivered

theorem countsOnce_merged
    {start : Store} {delivered : Delivered} {g m : MetricData} (hkey : g.key = m.key)
    (hknown : pointIds g.dataPoints ⊆ delivered g.key ∪ initialIds start g.key)
    (hg : CountsOnce start delivered g) :
    CountsOnce start (delivered.record m) (mergedMetric start.caps.maxDataPoints g m) ↔
      MergesRight start delivered g m := by
  have hcount : (mergedMetric start.caps.maxDataPoints g m).pointCount =
      g.pointCount + ((pointIds g.dataPoints ∪ pointIds m.dataPoints).card -
        (pointIds g.dataPoints).card) := by
    rw [mergedMetric, length_eq_card (nodup_mergeDataPoints _ _), pointIds_mergeDataPoints,
      length_eq_card hg.distinct]
  have hagree := card_union_agree_iff (M := pointIds m.dataPoints) hknown
  rw [hkey] at hagree
  have hcounted : (mergedMetric start.caps.maxDataPoints g m).pointCount =
        initialCount start m.key +
          ((delivered m.key ∪ pointIds m.dataPoints) \ initialIds start m.key).card ↔
      ∀ id ∈ pointIds m.dataPoints, id ∉ pointIds g.dataPoints →
        id ∉ delivered m.key ∧ id ∉ initialIds start m.key := by
    rw [← hagree, hcount, hg.counted, hkey]
    omega
  have hbound : (sliceFromEnd start.caps.maxDataPoints
        (mergeDataPoints g.dataPoints m.dataPoints)).length ≤ start.caps.maxDataPoints ↔
      (start.caps.maxDataPoints = 0 → m.dataPoints = []) := by
    by_cases hzero : start.caps.maxDataPoints = 0
    · have hempty : g.dataPoints = [] := by
        have hle := hg.bounded
        rw [hzero] at hle
        exact List.eq_nil_of_length_eq_zero (Nat.le_zero.mp hle)
      rw [hzero, sliceFromEnd, if_pos rfl, length_eq_card (nodup_mergeDataPoints _ _),
        pointIds_mergeDataPoints, hempty, Nat.le_zero, Finset.card_eq_zero]
      simp [pointIds]
    · exact iff_of_true (length_sliceFromEnd_le hzero _) fun h => absurd h hzero
  constructor
  · rintro ⟨-, hlength, hpoints⟩
    rw [key_mergedMetric, hkey, record_self] at hpoints
    exact ⟨hbound.mp hlength, hcounted.mp hpoints⟩
  · rintro ⟨hzero, hfresh⟩
    refine ⟨?_, hbound.mpr hzero, ?_⟩
    · exact (nodup_mergeDataPoints _ _).sublist ((sliceFromEnd_sublist _ _).map _)
    · rw [key_mergedMetric, hkey, record_self]
      exact hcounted.mpr hfresh

theorem countsOnce_new (start : Store) (delivered : Delivered) (m : MetricData) :
    CountsOnce start (delivered.record m) (newGroup m) ↔ CreatesRight start delivered m := by
  have hsplit : ((delivered m.key ∪ pointIds m.dataPoints) \ initialIds start m.key).card +
        (pointIds m.dataPoints ∩ initialIds start m.key).card =
      (pointIds m.dataPoints).card +
        (delivered m.key \ (initialIds start m.key ∪ pointIds m.dataPoints)).card := by
    have hunion : (delivered m.key ∪ pointIds m.dataPoints) \ initialIds start m.key =
        (delivered m.key \ (initialIds start m.key ∪ pointIds m.dataPoints)) ∪
          (pointIds m.dataPoints \ initialIds start m.key) := by
      ext x
      simp only [Finset.mem_sdiff, Finset.mem_union]
      tauto
    have hdisjoint : Disjoint
        (delivered m.key \ (initialIds start m.key ∪ pointIds m.dataPoints))
        (pointIds m.dataPoints \ initialIds start m.key) := by
      rw [Finset.disjoint_left]
      intro x hx hx'
      simp only [Finset.mem_sdiff, Finset.mem_union] at hx hx'
      exact hx.2 (Or.inr hx'.1)
    rw [hunion, Finset.card_union_of_disjoint hdisjoint, Nat.add_assoc,
      Finset.card_sdiff_add_card_inter, Nat.add_comm]
  have hcount : (newGroup m).pointCount = m.dataPoints.length := rfl
  constructor
  · rintro ⟨hdistinct, hlength, hpoints⟩
    have hcard : m.dataPoints.length = (pointIds m.dataPoints).card := length_eq_card hdistinct
    rw [key_newGroup, record_self, hcount] at hpoints
    refine ⟨hdistinct, hlength, ?_⟩
    omega
  · rintro ⟨hdistinct, hlength, hpoints⟩
    have hcard : m.dataPoints.length = (pointIds m.dataPoints).card := length_eq_card hdistinct
    refine ⟨hdistinct, hlength, ?_⟩
    rw [key_newGroup, record_self, hcount]
    omega

/-- What is in the groups after a delivery. -/
theorem mem_mergeMetric
    {maxDataPoints : Nat} {groups : List MetricData} {m g' : MetricData}
    (h : g' ∈ mergeMetric maxDataPoints groups m) :
    (g' ∈ groups ∧ g'.key ≠ m.key) ∨
      (∃ g ∈ groups, g.key = m.key ∧ g' = mergedMetric maxDataPoints g m) ∨
      (m.key ∉ groups.map MetricData.key ∧ g' = newGroup m) := by
  rw [mergeMetric] at h
  split at h
  · obtain ⟨g, hg, rfl⟩ := List.mem_map.mp h
    by_cases hkey : g.key = m.key
    · rw [if_pos hkey]
      exact Or.inr (Or.inl ⟨g, hg, hkey, rfl⟩)
    · rw [if_neg hkey]
      exact Or.inl ⟨hg, hkey⟩
  · rename_i hnew
    rcases List.mem_cons.mp h with rfl | hg
    · exact Or.inr (Or.inr ⟨hnew, rfl⟩)
    · refine Or.inl ⟨hg, fun hkey => hnew ?_⟩
      rw [← hkey]
      exact List.mem_map_of_mem hg

theorem CountsOnce.record
    {start : Store} {delivered : Delivered} {g : MetricData}
    (h : CountsOnce start delivered g) {m : MetricData} (hkey : g.key ≠ m.key) :
    CountsOnce start (delivered.record m) g := by
  refine ⟨h.distinct, h.bounded, ?_⟩
  rw [record_of_ne hkey]
  exact h.counted

/-- The points of a group have been delivered, or were in it initially. -/
theorem known_mergeMetric
    {start : Store} {groups : List MetricData} {delivered : Delivered}
    (h : ∀ g ∈ groups, pointIds g.dataPoints ⊆ delivered g.key ∪ initialIds start g.key)
    (maxDataPoints : Nat) (m : MetricData) :
    ∀ g ∈ mergeMetric maxDataPoints groups m,
      pointIds g.dataPoints ⊆ delivered.record m g.key ∪ initialIds start g.key := by
  intro g' hg'
  rcases mem_mergeMetric hg' with ⟨hg, hkey⟩ | ⟨g, hg, hkey, rfl⟩ | ⟨-, rfl⟩
  · rw [record_of_ne hkey]
    exact h g' hg
  · rw [key_mergedMetric, hkey, record_self]
    have hslice : pointIds (mergedMetric maxDataPoints g m).dataPoints ⊆
        pointIds g.dataPoints ∪ pointIds m.dataPoints := by
      rw [← pointIds_mergeDataPoints]
      intro id hid
      rw [pointIds, List.mem_toFinset] at hid ⊢
      exact ((sliceFromEnd_sublist _ _).map _).subset hid
    have hold := h g hg
    rw [hkey] at hold
    refine hslice.trans (Finset.union_subset (hold.trans ?_) ?_)
    · exact Finset.union_subset_union_left Finset.subset_union_left
    · exact Finset.subset_union_right.trans Finset.subset_union_left
  · rw [key_newGroup, record_self]
    exact Finset.subset_union_right.trans Finset.subset_union_left

theorem kept_mergeMetric
    {start : Store} {groups : List MetricData} {delivered : Delivered}
    (h : Kept start groups delivered) {m : MetricData}
    (hright : DeliveredRight start groups delivered m) :
    Kept start (mergeMetric start.caps.maxDataPoints groups m) (delivered.record m) where
  keys := by
    rw [keys_mergeMetric]
    exact nodup_consKey h.keys m.key
  known := known_mergeMetric h.known _ m
  counted := by
    intro g' hg'
    rcases mem_mergeMetric hg' with ⟨hg, hkey⟩ | ⟨g, hg, hkey, rfl⟩ | ⟨hnew, rfl⟩
    · exact (h.counted g' hg).record hkey
    · exact (countsOnce_merged hkey (h.known g hg) (h.counted g hg)).mpr
        (hright.merged g hg hkey)
    · exact (countsOnce_new start delivered m).mpr (hright.created hnew)

theorem Kept.take
    {start : Store} {groups : List MetricData} {delivered : Delivered}
    (h : Kept start groups delivered) (n : Nat) :
    Kept start (groups.take n) delivered where
  keys := h.keys.sublist ((List.take_sublist n groups).map _)
  known := fun g hg => h.known g (List.mem_of_mem_take hg)
  counted := fun g hg => h.counted g (List.mem_of_mem_take hg)

/-! ### Batches -/

theorem kept_mergeMetrics
    {start : Store} {s : MetricState} (h : Kept start s.store.metrics s.delivered)
    {batch : List MetricData} (hright : BatchRight start s batch) :
    Kept start (mergeMetrics start.caps.maxDataPoints s.store.metrics batch)
      (batch.foldl Delivered.record s.delivered) := by
  induction batch using List.reverseRecOn with
  | nil =>
      exact h
  | append_singleton front m ih =>
      have hfront : BatchRight start s front := fun front' m' hfirst =>
        hright front' m' (hfirst.trans (List.prefix_append front [m]))
      rw [mergeMetrics, List.foldl_append, List.foldl_append]
      exact kept_mergeMetric (ih hfront) (hright front m List.prefix_rfl)

/-- The invariant of the runs. -/
structure RunKept (start : Store) (s : MetricState) : Prop where
  caps : s.store.caps = start.caps
  kept : Kept start s.store.metrics s.delivered

/-- `addMetrics` merges and cuts. -/
theorem metrics_addMetrics
    {s : Store} (h : (s.metrics.map MetricData.key).Nodup) {batch : List MetricData}
    (hne : batch ≠ []) :
    (addMetrics s batch).caps = s.caps ∧
      (addMetrics s batch).metrics =
        (mergeMetrics s.caps.maxDataPoints s.metrics batch).take s.caps.metricCap := by
  rw [addMetrics_spec h hne]
  exact ⟨rfl, rfl⟩

theorem runKept_batch
    {start : Store} {s : MetricState} (h : RunKept start s) {batch : List MetricData}
    (hright : BatchRight start s batch) :
    RunKept start (s.deliver batch) := by
  rcases eq_or_ne batch [] with rfl | hne
  · exact h
  · obtain ⟨hcaps, hmetrics⟩ := metrics_addMetrics h.kept.keys hne
    refine ⟨hcaps.trans h.caps, ?_⟩
    rw [MetricState.deliver, hmetrics, h.caps]
    exact (kept_mergeMetrics h.kept hright).take _

/-- A single delivery whose group does not stay leaves the other groups as they were. -/
theorem runKept_single
    {start : Store} {s : MetricState} (h : RunKept start s) {m : MetricData}
    (hright : SingleRight start s [m]) :
    RunKept start (s.deliver [m]) := by
  obtain ⟨hcaps, hmetrics⟩ := metrics_addMetrics h.kept.keys (List.cons_ne_nil m [])
  refine ⟨hcaps.trans h.caps, ?_⟩
  rw [MetricState.deliver, hmetrics, h.caps]
  by_cases hfits : Fits start s.store.metrics m
  · exact (kept_mergeMetric h.kept (hright m List.mem_cons_self hfits)).take _
  · have hother : ∀ g ∈ (mergeMetric start.caps.maxDataPoints s.store.metrics m).take
        start.caps.metricCap, g.key ≠ m.key := by
      intro g hg hkey
      refine hfits ?_
      rw [Fits, ← keys_mergeMetric start.caps.maxDataPoints, ← List.map_take, ← hkey]
      exact List.mem_map_of_mem hg
    refine ⟨?_, ?_, ?_⟩
    · refine List.Nodup.sublist ((List.take_sublist _ _).map _) ?_
      exact nodup_mergeMetrics h.kept.keys [m]
    · intro g hg
      exact known_mergeMetric h.kept.known _ m g (List.mem_of_mem_take hg)
    · intro g hg
      rcases mem_mergeMetric (List.mem_of_mem_take hg) with
        ⟨hold, hkey⟩ | ⟨g₀, -, hkey, rfl⟩ | ⟨-, rfl⟩
      · exact (h.kept.counted g hold).record hkey
      · exact (hother _ hg hkey).elim
      · exact (hother _ hg (key_newGroup m)).elim

/-- A single delivery after which the points are counted right was a right one. -/
theorem singleRight_of_counted
    {start : Store} {s : MetricState} (h : RunKept start s) {m : MetricData}
    (hcounted : PointsCounted start (s.deliver [m])) :
    SingleRight start s [m] := by
  obtain ⟨-, hmetrics⟩ := metrics_addMetrics h.kept.keys (List.cons_ne_nil m [])
  intro m' hm' hfits
  obtain rfl := List.mem_singleton.mp hm'
  rw [PointsCounted, MetricState.deliver, hmetrics, h.caps] at hcounted
  rw [Fits, ← keys_mergeMetric start.caps.maxDataPoints, ← List.map_take] at hfits
  obtain ⟨g', hg', hkey'⟩ := List.mem_map.mp hfits
  have hright := hcounted g' hg'
  rcases mem_mergeMetric (List.mem_of_mem_take hg') with
    ⟨-, hkey⟩ | ⟨g₀, hg₀, hkey, rfl⟩ | ⟨hnew, rfl⟩
  · exact absurd hkey' hkey
  · refine ⟨fun g hg hgkey => ?_, fun hnew => ?_⟩
    · obtain rfl := List.inj_on_of_nodup_map h.kept.keys hg hg₀ (hgkey.trans hkey.symm)
      exact (countsOnce_merged hkey (h.kept.known g hg) (h.kept.counted g hg)).mp hright
    · exact absurd (hkey ▸ List.mem_map_of_mem hg₀) hnew
  · refine ⟨fun g hg hgkey => ?_, fun _ => (countsOnce_new start s.delivered m').mp hright⟩
    exact absurd (hgkey ▸ List.mem_map_of_mem hg) hnew

/-! ### Runs -/

theorem runKept_start
    {start : Store} (hkeys : (start.metrics.map MetricData.key).Nodup)
    (hdistinct : ∀ g ∈ start.metrics, (g.dataPoints.map DataPoint.id).Nodup)
    (hbounded : ∀ g ∈ start.metrics, g.dataPoints.length ≤ start.caps.maxDataPoints) :
    RunKept start (MetricState.start start) := by
  have hfind : ∀ g ∈ start.metrics, start.metrics.find? (fun x => x.key = g.key) = some g :=
    fun g hg => (find?_key_iff hkeys).mpr ⟨hg, rfl⟩
  refine ⟨rfl, hkeys, fun g hg => ?_, fun g hg => ⟨hdistinct g hg, hbounded g hg, ?_⟩⟩
  · rw [initialIds, hfind g hg]
    exact Finset.subset_union_right
  · rw [initialCount, hfind g hg]
    simp [MetricState.start]

/-- Along a run of right deliveries the points are counted once and stay bounded; along a run of
single deliveries they do only then. -/
theorem pointsCounted_run
    (start : Store)
    (hkeys : (start.metrics.map MetricData.key).Nodup)
    (hdistinct : ∀ g ∈ start.metrics, (g.dataPoints.map DataPoint.id).Nodup)
    (hbounded : ∀ g ∈ start.metrics, g.dataPoints.length ≤ start.caps.maxDataPoints) :
    (∀ batches, EveryStep MetricState.deliver (.start start) batches (BatchRight start) →
        Along MetricState.deliver (.start start) batches (PointsCounted start)) ∧
      ∀ deliveries : List MetricData,
        Along MetricState.deliver (.start start) (deliveries.map fun m => [m])
            (PointsCounted start) ↔
          EveryStep MetricState.deliver (.start start) (deliveries.map fun m => [m])
            (SingleRight start) := by
  have hstart := runKept_start hkeys hdistinct hbounded
  refine ⟨fun batches hright => ?_, fun deliveries => ?_⟩
  · refine (Along.of_everyStep hstart ?_ hright).imp fun s h => h.kept.counted
    exact fun s batch _ h hbatch => runKept_batch h hbatch
  · refine along_iff_everyStep hstart (fun s h => h.kept.counted) ?_ ?_
    · intro s batch hbatch h hright
      obtain ⟨m, -, rfl⟩ := List.mem_map.mp hbatch
      exact runKept_single h hright
    · intro s batch hbatch h hcounted
      obtain ⟨m, -, rfl⟩ := List.mem_map.mp hbatch
      exact singleRight_of_counted h hcounted

/-! ### Deliveries that are counted wrong -/

instance (start : Store) (delivered : Delivered) (g : MetricData) :
    Decidable (CountsOnce start delivered g) :=
  decidable_of_iff
    ((g.dataPoints.map DataPoint.id).Nodup ∧
      g.dataPoints.length ≤ start.caps.maxDataPoints ∧
      g.pointCount = initialCount start g.key + (delivered g.key \ initialIds start g.key).card)
    ⟨fun ⟨h, h', h''⟩ => ⟨h, h', h''⟩, fun h => ⟨h.distinct, h.bounded, h.counted⟩⟩

instance (start : Store) (s : MetricState) : Decidable (PointsCounted start s) :=
  inferInstanceAs (Decidable (∀ g ∈ s.store.metrics, CountsOnce start s.delivered g))

/-- A delivery of points with these ids. -/
def requestsDelivery (ids : List String) : MetricData where
  name := "requests"
  serviceName := "api"
  dataPoints := ids.map fun id => ⟨id, "2026-01-01T00:00:00Z", 0⟩
  pointCount := 0
  latestValue := none
  receivedAt := "2026-01-01T00:00:00Z"

/-- The list as it was loaded, with one group that has counted seven points. -/
def loadedMetrics (maxDataPoints : Nat) : Store :=
  { initialStore { defaultConfig with maxDataPoints := maxDataPoints } with
    metrics := [{ requestsDelivery [] with pointCount := 7 }] }

instance (start : Store) (delivered : Delivered) (m : MetricData) :
    Decidable (CreatesRight start delivered m) :=
  inferInstanceAs (Decidable (_ ∧ _ ∧ _))

instance (start : Store) (delivered : Delivered) (g m : MetricData) :
    Decidable (MergesRight start delivered g m) :=
  inferInstanceAs (Decidable ((_ → _) ∧ ∀ id ∈ pointIds m.dataPoints, _))

instance (start : Store) (groups : List MetricData) (delivered : Delivered) (m : MetricData) :
    Decidable (DeliveredRight start groups delivered m) :=
  decidable_of_iff
    ((∀ g ∈ groups, g.key = m.key → MergesRight start delivered g m) ∧
      (m.key ∉ groups.map MetricData.key → CreatesRight start delivered m))
    ⟨fun ⟨h, h'⟩ => ⟨h, h'⟩, fun h => ⟨h.merged, h.created⟩⟩

instance (start : Store) (s : MetricState) (batch : List MetricData) :
    Decidable (BatchRight start s batch) :=
  decidable_of_iff
    (EveryStep (fun front m => front ++ [m]) [] batch fun front m =>
      DeliveredRight start (mergeMetrics start.caps.maxDataPoints s.store.metrics front)
        (front.foldl Delivered.record s.delivered) m)
    (by simp [EveryStep, BatchRight, ← List.flatMap_def])

instance (start : Store) (groups : List MetricData) (m : MetricData) :
    Decidable (Fits start groups m) :=
  inferInstanceAs (Decidable (_ ∈ _))

instance (start : Store) (s : MetricState) (batch : List MetricData) :
    Decidable (SingleRight start s batch) :=
  inferInstanceAs (Decidable (∀ m ∈ batch, _ → _))

/-- Where one point is kept: the first point is cut for the second, which then comes twice. -/
def requestsRun : List MetricData :=
  [requestsDelivery ["a"], requestsDelivery ["b"], requestsDelivery ["b"]]

/-- The loaded group counts the two points once each, in single deliveries and in one batch.
Where the first point comes back, it is not counted right. -/
theorem pointsCounted_run_loaded :
    Along MetricState.deliver (.start (loadedMetrics 1)) (requestsRun.map fun m => [m])
        (PointsCounted (loadedMetrics 1)) ∧
      Along MetricState.deliver (.start (loadedMetrics 1)) [requestsRun]
        (PointsCounted (loadedMetrics 1)) ∧
      ((MetricState.start (loadedMetrics 1)).deliver requestsRun).store.metrics.map
          MetricData.pointCount = [9] ∧
      ¬ Along MetricState.deliver (.start (loadedMetrics 1))
          ((requestsRun ++ [requestsDelivery ["a"]]).map fun m => [m])
          (PointsCounted (loadedMetrics 1)) := by
  obtain ⟨hbatches, hsingle⟩ := pointsCounted_run (loadedMetrics 1) (by decide) (by decide)
    (by decide)
  refine ⟨(hsingle requestsRun).mpr (by decide +kernel), hbatches _ (by decide +kernel),
    by decide +kernel, ?_⟩
  rw [hsingle]
  decide +kernel

/-- A new group has more points than the cap, or one point twice, and a point that comes back
after it was cut is counted again. -/
theorem pointsCounted_fails :
    ¬ PointsCounted (initialStore { defaultConfig with maxDataPoints := 1 })
        ((MetricState.start (initialStore { defaultConfig with maxDataPoints := 1 })).deliver
          [requestsDelivery ["a", "b"]]) ∧
      ¬ PointsCounted (initialStore defaultConfig)
        ((MetricState.start (initialStore defaultConfig)).deliver
          [requestsDelivery ["a", "a"]]) ∧
      ¬ PointsCounted (loadedMetrics 1)
        ((((MetricState.start (loadedMetrics 1)).deliver [requestsDelivery ["a"]]).deliver
          [requestsDelivery ["b"]]).deliver [requestsDelivery ["a"]]) := by
  decide +kernel

end Stores
end Otelop
