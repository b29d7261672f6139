import Mathlib.Tactic
import Otelop.Storage.MetricAggregate
import Otelop.Storage.MetricStats

/-!
# The latest value of a metric

The value a metrics list shows of a group is that of the last point of the series seen last.
`internal/storage/query_metric.go` computes it from the last two points of that series:
`populateMetricSummaryStats` for all groups of a page, `LatestValue` for one group.  The first
spells the derivation out again, the second uses `metricDerivedFormula`.

`newest` picks the series of `arg_max(series_key, last_seen)` and of `ORDER BY last_seen DESC
LIMIT 1`, one and the same among series last seen at the same time.

**Results.**
* `lag_eq_of_two`: two points are enough to derive the last one.
* `latestValues_agree`: both values are that of the full history, or null where it has no
  average.
-/

namespace Otelop
namespace Storage

open Lib

section LatestValue

variable {V : Type}

/-- The choice of a series seen last. -/
structure PicksNewest (newest : List StoredSeries → Option StoredSeries) : Prop where
  exists_of_ne_nil : ∀ l, l ≠ [] → ∃ s, newest l = some s
  lastSeen : ∀ l s, newest l = some s → s ∈ l ∧ ∀ t ∈ l, t.lastSeen ≤ s.lastSeen

/-- The series of a group. -/
def Db.groupSeries (db : Db V) (g : String × String) : List StoredSeries :=
  db.metricSeries.rows.filter fun s => s.row.serviceName = g.1 && s.row.metricName = g.2

/-- The points of a series. -/
def Db.seriesHistory (db : Db V) (ops : DoubleOps V) (s : StoredSeries) : List (PointRow V) :=
  (db.metricPoints.filter fun p => p.row.seriesKey = s.row.seriesKey).map
    fun p => p.pointRow ops 0 s

/-- `ORDER BY ts DESC` -/
def newer (a b : PointRow V) : Bool := decide (b.ts < a.ts)

/-! ### `LatestValue` -/

/-- `ORDER BY p.ts DESC LIMIT 2` -/
def latestTwo (history : List (PointRow V)) : List (PointRow V) :=
  (history.insertionSort fun a b => b.ts ≤ a.ts).take 2

/-- The `CASE` of `metricLatestValueQuery`. -/
def DerivedRow.latestValue (ops : DoubleOps V) (d : DerivedRow V) : Option V :=
  if isDistributionType d.metricType then
    match d.sumDelta, d.countDelta with
    | some s, some c => if ops.le c ops.zero then none else some (ops.div s c)
    | _, _ => none
  else d.scalarValue

def Db.latestValue (db : Db V) (ops : DoubleOps V)
    (newest : List StoredSeries → Option StoredSeries) (serviceName metricName : String) :
    Option V :=
  (newest (db.groupSeries (serviceName, metricName))).bind fun s =>
    (firstBy (fun a b => decide (b.ts < a.ts))
      (derivedRows ops (latestTwo (db.seriesHistory ops s)))).bind (DerivedRow.latestValue ops)

/-! ### The latest query of a page -/

/-- `targets`, with their points. -/
def Db.targetPoints (db : Db V) (ops : DoubleOps V)
    (newest : List StoredSeries → Option StoredSeries) (selected : List (String × String)) :
    List ((String × String) × PointRow V) :=
  selected.flatMap fun g =>
    ((newest (db.groupSeries g)).toList.flatMap (db.seriesHistory ops)).map (Prod.mk g)

/-- `row_number() OVER (PARTITION BY p.series_key ORDER BY p.ts DESC, p.id DESC)` -/
def latestRank (points : List (PointRow V)) (p : PointRow V) : Nat :=
  1 + points.countP fun q => decide (q.seriesKey = p.seriesKey) && latestBefore q p

/-- `points`: the rows of rank 1 and 2. -/
def lastPoints (ranked : List ((String × String) × PointRow V)) :
    List ((String × String) × PointRow V) :=
  ranked.filter fun x => latestRank (ranked.map Prod.snd) x.2 ≤ 2

/-- The columns of `derived` and the `CASE` over them. -/
def summaryLatest (ops : DoubleOps V) (p : PointRow V) (previous : Option (PointRow V)) :
    Option V :=
  let scalarValue :=
    if p.metricType = "Sum" && p.temporality = "cumulative" && p.isMonotonic then
      lagDelta ops (previous.bind PointRow.value) p.value
    else p.value
  let countDelta :=
    if p.temporality = "cumulative" then lagDelta ops (previous.bind PointRow.count) p.count
    else p.count
  let sumDelta :=
    if p.temporality = "cumulative" then lagDelta ops (previous.bind PointRow.sum) p.sum
    else p.sum
  if isDistributionType p.metricType then
    match sumDelta, countDelta with
    | some s, some c => if ops.le c ops.zero then none else some (ops.div s c)
    | _, _ => none
  else scalarValue

/-- The rows of the latest query. -/
def Db.latestRows (db : Db V) (ops : DoubleOps V)
    (newest : List StoredSeries → Option StoredSeries) (selected : List (String × String)) :
    List ((String × String) × Option V) :=
  let points := lastPoints (db.targetPoints ops newest selected)
  (Lib.groupRows Prod.fst points).filterMap fun g =>
    (firstBy (fun a b => newer a.2 b.2) g.2).map fun x =>
      (g.1, summaryLatest ops x.2 (lag (points.map Prod.snd) x.2))

/-! ### The full history -/

/-- The derived value of a point, null for a distribution without an average. -/
def DerivedPoint.meaningful (ops : DoubleOps V) (p : DerivedPoint V) : Option V :=
  if isDistributionType p.type && (p.sum.isNone || p.count.all fun c => ops.le c ops.zero) then
    none
  else p.value

/-- The last point of a series, derived from its full history. -/
def lastDerived (ops : DoubleOps V) (history : List (PointRow V)) : Option (DerivedPoint V) :=
  (firstBy latestBefore history).map (derivedPoint ops history)

/-! ### The last two points -/

theorem newer_strictOrder : StrictOrder (newer (V := V)) where
  irrefl _ := decide_eq_false (lt_irrefl _)
  trans hab hbc :=
    decide_eq_true (lt_trans (of_decide_eq_true hbc) (of_decide_eq_true hab))

/-- In a list sorted by `before`, an element with few elements before it stands early. -/
theorem mem_take_of_countP_lt
    {α : Type} {before : α → α → Bool} {l : List α}
    (hsorted : l.Pairwise fun a b => before a b = true) {x : α} (hx : x ∈ l) {n : Nat}
    (hcount : l.countP (fun a => before a x) < n) : x ∈ l.take n := by
  by_contra hnot
  have hsplit := List.take_append_drop n l
  have hdrop : x ∈ l.drop n := by
    rw [← hsplit] at hx
    exact (List.mem_append.mp hx).resolve_left hnot
  have hall : (l.take n).countP (fun a => before a x) = (l.take n).length := by
    refine List.countP_eq_length.mpr fun a ha => ?_
    rw [← hsplit] at hsorted
    exact (List.pairwise_append.mp hsorted).2.2 a ha x hdrop
  have hlength : (l.take n).length = n := by
    rw [List.length_take, min_eq_left]
    by_contra hlt
    rw [List.drop_of_length_le (by omega)] at hdrop
    cases hdrop
  have hle : (l.take n).countP (fun a => before a x) ≤ l.countP fun a => before a x :=
    (List.take_sublist n l).countP_le
  omega

section History

variable {history : List (PointRow V)} (htimes : (history.map PointRow.ts).Nodup)

include htimes

/-- With distinct times the ids do not matter. -/
theorem latestBefore_eq_newer {p q : PointRow V} (hp : p ∈ history) (hq : q ∈ history) :
    latestBefore q p = newer q p := by
  rw [Bool.eq_iff_iff, latestBefore, lexBefore_iff, newer, decide_eq_true_eq]
  constructor
  · rintro (hlt | ⟨heq, hid⟩)
    · exact hlt
    · have hsame : q = p := List.inj_on_of_nodup_map htimes hq hp heq
      exact absurd (hsame ▸ hid) (lt_irrefl _)
  · exact Or.inl

theorem newer_totalOn {l : List (PointRow V)} (hl : ∀ q ∈ l, q ∈ history) :
    TotalOn newer l := by
  intro x hx y hy hne
  have hts : x.ts ≠ y.ts := fun h =>
    hne (List.inj_on_of_nodup_map htimes (hl x hx) (hl y hy) h)
  rcases lt_or_gt_of_ne hts with h | h
  · exact Or.inr (decide_eq_true h)
  · exact Or.inl (decide_eq_true h)

/-- The point in front of the last one, in any rows of the history that have the two. -/
theorem lag_eq_of_two
    {rows : List (PointRow V)} (hrows : ∀ q ∈ rows, q ∈ history) {x : PointRow V}
    (htwo : ∀ q, lag history x = some q → q ∈ rows) :
    lag rows x = lag history x := by
  have hsub : ∀ q ∈ rows.filter (fun q => q.samePartition x && pointBefore q x),
      q ∈ history.filter fun q => q.samePartition x && pointBefore q x := by
    intro q hq
    obtain ⟨hq, hcond⟩ := List.mem_filter.mp hq
    exact List.mem_filter.mpr ⟨hrows q hq, hcond⟩
  cases hlag : lag history x with
  | none =>
      rw [lag, firstBy_eq_none_iff] at hlag ⊢
      refine List.eq_nil_iff_forall_not_mem.mpr fun q hq => ?_
      have := hsub q hq
      rw [hlag] at this
      exact absurd this List.not_mem_nil
  | some y =>
      have hfirst : IsFirst latestBefore _ y := firstBy_isFirst latestBefore_strictOrder hlag
      have htotal : TotalOn latestBefore
          (rows.filter fun q => q.samePartition x && pointBefore q x) := by
        intro a ha b hb hne
        have ha' := (List.mem_filter.mp (hsub a ha)).1
        have hb' := (List.mem_filter.mp (hsub b hb)).1
        rw [latestBefore_eq_newer htimes hb' ha', latestBefore_eq_newer htimes ha' hb']
        refine newer_totalOn htimes (l := [a, b]) ?_ a (by simp) b (by simp) hne
        intro q hq
        rcases List.mem_cons.mp hq with rfl | hq
        · exact ha'
        · exact List.mem_singleton.mp hq ▸ hb'
      rw [lag, firstBy_eq_some_iff latestBefore_strictOrder htotal]
      exact ⟨List.mem_filter.mpr ⟨htwo y hlag, (List.mem_filter.mp hfirst.1).2⟩,
        fun q hq => hfirst.2 q (hsub q hq)⟩

/-- Few points are newer than the last point, and than the one in front of it. -/
theorem countP_newer_lt_two
    {x y : PointRow V} (hsecond : ∀ q ∈ history, newer q y = true → q.ts = x.ts) :
    history.countP (fun q => newer q y) < 2 := by
  have hle : history.countP (fun q => newer q y) ≤ history.countP fun q => q.ts = x.ts :=
    List.countP_mono_left fun q hq h => decide_eq_true (hsecond q hq h)
  have hone : (history.map PointRow.ts).count x.ts ≤ 1 := List.nodup_iff_count_le_one.mp htimes _
  rw [List.count, List.countP_map] at hone
  have hsame : history.countP (fun q => q.ts = x.ts) =
      history.countP ((fun t => t == x.ts) ∘ PointRow.ts) :=
    List.countP_congr fun q _ => by simp
  omega

/-- `rows` are points of the history, and have those with at most one newer point. -/
structure HoldsLastTwo (rows history : List (PointRow V)) : Prop where
  sub : ∀ q ∈ rows, q ∈ history
  lastTwo : ∀ q ∈ history, history.countP (fun p => newer p q) < 2 → q ∈ rows

theorem firstBy_latestBefore : firstBy latestBefore history = firstBy newer history := by
  cases hnewer : firstBy newer history with
  | none =>
      rw [firstBy_eq_none_iff] at hnewer ⊢
      exact hnewer
  | some x =>
      have hfirst := firstBy_isFirst newer_strictOrder hnewer
      rw [firstBy_eq_some_iff latestBefore_strictOrder]
      · refine ⟨hfirst.1, fun q hq => ?_⟩
        rw [latestBefore_eq_newer htimes hfirst.1 hq]
        exact hfirst.2 q hq
      · intro a ha b hb hne
        rw [latestBefore_eq_newer htimes hb ha, latestBefore_eq_newer htimes ha hb]
        exact newer_totalOn htimes (fun q hq => hq) a ha b hb hne

theorem firstBy_of_lastTwo {rows : List (PointRow V)} (hrows : HoldsLastTwo rows history) :
    firstBy newer rows = firstBy newer history := by
  cases hnewer : firstBy newer history with
  | none =>
      rw [firstBy_eq_none_iff] at hnewer ⊢
      refine List.eq_nil_iff_forall_not_mem.mpr fun q hq => ?_
      have := hrows.sub q hq
      rw [hnewer] at this
      exact absurd this List.not_mem_nil
  | some x =>
      have hfirst := firstBy_isFirst newer_strictOrder hnewer
      rw [firstBy_eq_some_iff newer_strictOrder (newer_totalOn htimes hrows.sub)]
      refine ⟨hrows.lastTwo x hfirst.1 ?_, fun q hq => hfirst.2 q (hrows.sub q hq)⟩
      refine countP_newer_lt_two htimes (x := x) fun q hq h => ?_
      rw [hfirst.2 q hq] at h
      cases h

theorem lag_of_lastTwo
    {rows : List (PointRow V)} (hrows : HoldsLastTwo rows history)
    (hpartition : ∀ p ∈ history, ∀ q ∈ history, q.samePartition p = true)
    {x : PointRow V} (hx : firstBy newer history = some x) :
    lag rows x = lag history x := by
  have hfirst := firstBy_isFirst newer_strictOrder hx
  refine lag_eq_of_two htimes hrows.sub fun y hlag => ?_
  have hsecond := firstBy_isFirst latestBefore_strictOrder hlag
  obtain ⟨hy, -, -⟩ := mem_lagRows.mp hsecond.1
  refine hrows.lastTwo y hy (countP_newer_lt_two htimes (x := x) fun q hq hqy => ?_)
  have hle : ¬ x.ts < q.ts := of_decide_eq_false (hfirst.2 q hq)
  by_contra hne
  have hbefore : pointBefore q x = true :=
    pointBefore_of_lt (lt_of_le_of_ne (not_lt.mp hle) hne)
  have hnot := hsecond.2 q (mem_lagRows.mpr ⟨hq, hpartition x hfirst.1 q hq, hbefore⟩)
  rw [latestBefore_eq_newer htimes hy hq, hqy] at hnot
  cases hnot

theorem holdsLastTwo_latestTwo : HoldsLastTwo (latestTwo history) history where
  sub _ hq := (List.mem_insertionSort _).mp (List.mem_of_mem_take hq)
  lastTwo q hq hcount := by
    have hperm := List.perm_insertionSort (fun a b : PointRow V => b.ts ≤ a.ts) history
    have hle : (history.insertionSort fun a b => b.ts ≤ a.ts).Pairwise fun a b => b.ts ≤ a.ts :=
      List.pairwise_insertionSort _ _
    have hne : (history.insertionSort fun a b => b.ts ≤ a.ts).Pairwise
        fun a b => a.ts ≠ b.ts := List.pairwise_map.mp ((hperm.map _).nodup_iff.mpr htimes)
    have hsorted : (history.insertionSort fun a b => b.ts ≤ a.ts).Pairwise
        fun a b => newer a b = true :=
      (hle.and hne).imp fun h => decide_eq_true (lt_of_le_of_ne h.1 (Ne.symm h.2))
    refine mem_take_of_countP_lt hsorted (hperm.mem_iff.mpr hq) ?_
    rwa [hperm.countP_eq]

end History

/-! ### The rows of one group -/

/-- `lag` looks at the rows of the series only. -/
theorem lag_filter_series {key : UInt64} {x : PointRow V} (hx : x.seriesKey = key)
    (rows : List (PointRow V)) : lag (rows.filter fun q => q.seriesKey = key) x = lag rows x := by
  rw [lag, lag, List.filter_filter]
  refine congrArg _ (List.filter_congr fun q _ => ?_)
  by_cases hsame : q.samePartition x = true
  · rw [(seriesKey_of_samePartition hsame).trans hx]
    simp
  · simp [hsame]

theorem mem_groupSeries {db : Db V} {g : String × String} {s : StoredSeries} :
    s ∈ db.groupSeries g ↔
      s ∈ db.metricSeries.rows ∧ (s.row.serviceName, s.row.metricName) = g := by
  rw [Db.groupSeries, List.mem_filter, Bool.and_eq_true, decide_eq_true_eq, decide_eq_true_eq,
    Prod.ext_iff]

theorem seriesKey_of_mem_history
    {db : Db V} {ops : DoubleOps V} {s : StoredSeries} {p : PointRow V}
    (hp : p ∈ db.seriesHistory ops s) : p.seriesKey = s.row.seriesKey := by
  obtain ⟨q, hq, rfl⟩ := List.mem_map.mp hp
  exact of_decide_eq_true (List.mem_filter.mp hq).2

theorem samePartition_of_mem_history
    {db : Db V} {ops : DoubleOps V} {s : StoredSeries} :
    ∀ p ∈ db.seriesHistory ops s, ∀ q ∈ db.seriesHistory ops s, q.samePartition p = true := by
  intro p hp q hq
  have hkey : q.seriesKey = p.seriesKey :=
    (seriesKey_of_mem_history hq).trans (seriesKey_of_mem_history hp).symm
  obtain ⟨x, -, rfl⟩ := List.mem_map.mp hp
  obtain ⟨y, -, rfl⟩ := List.mem_map.mp hq
  rw [PointRow.samePartition, decide_eq_true hkey, Bool.and_true]
  exact decide_eq_true rfl

section Page

variable {db : Db V} {ops : DoubleOps V} {newest : List StoredSeries → Option StoredSeries}
  (hnewest : PicksNewest newest) {selected : List (String × String)} (hselected : selected.Nodup)
  {g : String × String} (hg : g ∈ selected) {s : StoredSeries}
  (hs : newest (db.groupSeries g) = some s)

include hselected hg hs

theorem filter_group_targetPoints :
    (db.targetPoints ops newest selected).filter (fun x => x.1 = g) =
      (db.seriesHistory ops s).map (Prod.mk g) := by
  have hpiece : ((newest (db.groupSeries g)).toList.flatMap (db.seriesHistory ops)).map
      (Prod.mk g) = (db.seriesHistory ops s).map (Prod.mk g) := by
    rw [hs, Option.toList_some, List.flatMap_singleton]
  rw [← hpiece]
  refine filter_flatMap_of_nodup hselected hg (fun x hx => ?_) fun g' _ hne x hx => ?_
  · obtain ⟨p, -, rfl⟩ := List.mem_map.mp hx
    exact decide_eq_true rfl
  · obtain ⟨p, -, rfl⟩ := List.mem_map.mp hx
    exact decide_eq_false hne

include hnewest

theorem filter_series_targetPoints :
    (db.targetPoints ops newest selected).filter
        (fun x => x.2.seriesKey = s.row.seriesKey) =
      (db.seriesHistory ops s).map (Prod.mk g) := by
  have hpiece : ((newest (db.groupSeries g)).toList.flatMap (db.seriesHistory ops)).map
      (Prod.mk g) = (db.seriesHistory ops s).map (Prod.mk g) := by
    rw [hs, Option.toList_some, List.flatMap_singleton]
  rw [← hpiece]
  refine filter_flatMap_of_nodup hselected hg (fun x hx => ?_) fun g' _ hne x hx => ?_
  · rw [hpiece] at hx
    obtain ⟨p, hp, rfl⟩ := List.mem_map.mp hx
    exact decide_eq_true (seriesKey_of_mem_history hp)
  · obtain ⟨p, hp, rfl⟩ := List.mem_map.mp hx
    obtain ⟨s', hs', hp⟩ := List.mem_flatMap.mp hp
    have hs' : newest (db.groupSeries g') = some s' := Option.mem_toList.mp hs'
    obtain ⟨hrow, hgroup⟩ := mem_groupSeries.mp (hnewest.lastSeen _ _ hs).1
    obtain ⟨hrow', hgroup'⟩ := mem_groupSeries.mp (hnewest.lastSeen _ _ hs').1
    refine decide_eq_false fun hkey => hne ?_
    have hsame : s'.row.seriesKey = s.row.seriesKey :=
      (seriesKey_of_mem_history hp).symm.trans hkey
    rw [← hgroup, ← hgroup', db.metricSeries.eq_of_key_eq hrow' hrow hsame]

/-- The points of rank 1 and 2 of the series of a group. -/
theorem filter_lastPoints
    (htimes : ((db.seriesHistory ops s).map PointRow.ts).Nodup) :
    ∃ rows, HoldsLastTwo rows (db.seriesHistory ops s) ∧
      (lastPoints (db.targetPoints ops newest selected)).filter (fun x => x.1 = g) =
        rows.map (Prod.mk g) ∧
      ((lastPoints (db.targetPoints ops newest selected)).map Prod.snd).filter
        (fun q => q.seriesKey = s.row.seriesKey) = rows := by
  let all := (db.targetPoints ops newest selected).map Prod.snd
  refine ⟨(db.seriesHistory ops s).filter fun p => latestRank all p ≤ 2, ?_, ?_, ?_⟩
  · have hrank : ∀ p ∈ db.seriesHistory ops s, latestRank all p =
        1 + (db.seriesHistory ops s).countP fun q => newer q p := by
      intro p hp
      have hall : all.filter (fun q => q.seriesKey = p.seriesKey) = db.seriesHistory ops s := by
        rw [seriesKey_of_mem_history hp, List.filter_map]
        refine (congrArg (List.map Prod.snd)
          (filter_series_targetPoints hnewest hselected hg hs)).trans ?_
        rw [List.map_map]
        exact List.map_id _
      rw [latestRank]
      refine congrArg (1 + ·) ?_
      rw [← List.countP_congr fun q hq => Iff.of_eq (congrArg (· = true)
        (latestBefore_eq_newer htimes hp hq)), ← hall, List.countP_filter]
      exact List.countP_congr fun q _ => by rw [Bool.and_comm]
    constructor
    · exact fun q hq => (List.mem_filter.mp hq).1
    · intro q hq hcount
      refine List.mem_filter.mpr ⟨hq, decide_eq_true ?_⟩
      rw [hrank q hq]
      omega
  · rw [lastPoints, List.filter_filter]
    have hcomm : (db.targetPoints ops newest selected).filter
          (fun x => decide (x.1 = g) && decide (latestRank all x.2 ≤ 2)) =
        ((db.targetPoints ops newest selected).filter fun x => x.1 = g).filter
          fun x => latestRank all x.2 ≤ 2 := by
      rw [List.filter_filter]
      exact List.filter_congr fun x _ => Bool.and_comm _ _
    rw [hcomm, filter_group_targetPoints hselected hg hs, List.filter_map]
    rfl
  · rw [lastPoints, List.filter_map, List.filter_filter]
    have hcomm : (db.targetPoints ops newest selected).filter
          (fun x => decide (x.2.seriesKey = s.row.seriesKey) && decide (latestRank all x.2 ≤ 2)) =
        ((db.targetPoints ops newest selected).filter
          fun x => x.2.seriesKey = s.row.seriesKey).filter fun x => latestRank all x.2 ≤ 2 := by
      rw [List.filter_filter]
      exact List.filter_congr fun x _ => Bool.and_comm _ _
    refine (congrArg (List.map Prod.snd) hcomm).trans ?_
    rw [filter_series_targetPoints hnewest hselected hg hs, List.filter_map, List.map_map]
    exact List.map_id _

/-- The row of a group shows its last point, derived from the one in front of it. -/
theorem mem_latestRows_iff
    (htimes : ((db.seriesHistory ops s).map PointRow.ts).Nodup) {v : Option V} :
    (g, v) ∈ db.latestRows ops newest selected ↔
      ∃ x, firstBy newer (db.seriesHistory ops s) = some x ∧
        v = summaryLatest ops x (lag (db.seriesHistory ops s) x) := by
  obtain ⟨rows, hrows, hgroup, hseries⟩ :=
    filter_lastPoints hnewest hselected hg hs htimes
  have hfirst : firstBy (fun a b => newer a.2 b.2) (rows.map (Prod.mk g)) =
      (firstBy newer (db.seriesHistory ops s)).map (Prod.mk g) := by
    rw [firstBy_map, ← firstBy_of_lastTwo htimes hrows]
  have hlag : ∀ x, firstBy newer (db.seriesHistory ops s) = some x →
      lag ((lastPoints (db.targetPoints ops newest selected)).map Prod.snd) x =
        lag (db.seriesHistory ops s) x := by
    intro x hx
    have hmem : x ∈ db.seriesHistory ops s :=
      (firstBy_isFirst newer_strictOrder hx).1
    rw [← lag_of_lastTwo htimes hrows samePartition_of_mem_history hx, ← hseries,
      lag_filter_series (seriesKey_of_mem_history hmem)]
  rw [Db.latestRows, List.mem_filterMap]
  constructor
  · rintro ⟨h, hh, hrow⟩
    obtain ⟨x, hx, hrow⟩ := Option.map_eq_some_iff.mp hrow
    obtain ⟨hkey, rfl⟩ := Prod.mk.inj hrow
    rw [(mem_groupRows.mp hh).2, hkey, hgroup, hfirst] at hx
    obtain ⟨y, hy, rfl⟩ := Option.map_eq_some_iff.mp hx
    exact ⟨y, hy, by rw [hlag y hy]⟩
  · rintro ⟨x, hx, rfl⟩
    have hmem : x ∈ rows := by
      rw [← firstBy_of_lastTwo htimes hrows] at hx
      exact (firstBy_isFirst newer_strictOrder hx).1
    have hpoint : (g, x) ∈ lastPoints (db.targetPoints ops newest selected) := by
      refine (List.mem_filter (p := fun x => decide (x.1 = g))).mp ?_ |>.1
      rw [hgroup]
      exact List.mem_map_of_mem hmem
    refine ⟨(g, rows.map (Prod.mk g)), mem_groupRows.mpr ⟨⟨(g, x), hpoint, rfl⟩, hgroup.symm⟩, ?_⟩
    rw [hfirst, hx]
    exact congrArg (fun previous => some (g, summaryLatest ops x previous)) (hlag x hx)

end Page

theorem mem_selected_of_latestRows
    {db : Db V} {ops : DoubleOps V} {newest : List StoredSeries → Option StoredSeries}
    {selected : List (String × String)} {r : (String × String) × Option V}
    (hr : r ∈ db.latestRows ops newest selected) : r.1 ∈ selected := by
  obtain ⟨h, hh, hrow⟩ := List.mem_filterMap.mp hr
  obtain ⟨x, hx, rfl⟩ := Option.map_eq_some_iff.mp hrow
  obtain ⟨⟨y, hy, hkey⟩, -⟩ := mem_groupRows.mp hh
  obtain ⟨g, hg, hy⟩ := List.mem_flatMap.mp (List.mem_filter.mp hy).1
  obtain ⟨p, -, rfl⟩ := List.mem_map.mp hy
  exact hkey ▸ hg

/-! ### The three values -/

/-- The mapped value of the full history is the one of the last `CASE`. -/
theorem meaningful_point (ops : DoubleOps V) (d : DerivedRow V) :
    (d.point ops).meaningful ops = d.latestValue ops := by
  rw [DerivedPoint.meaningful, DerivedRow.latestValue, DerivedRow.point]
  cases isDistributionType d.metricType with
  | false =>
      simp
  | true =>
      cases d.sumDelta with
      | none => simp
      | some x =>
          cases d.countDelta with
          | none => simp
          | some c => cases hle : ops.le c ops.zero <;> simp [hle, averageValue]

theorem latestValue_eq
    {db : Db V} {ops : DoubleOps V} {newest : List StoredSeries → Option StoredSeries}
    {serviceName metricName : String} {s : StoredSeries}
    (hs : newest (db.groupSeries (serviceName, metricName)) = some s)
    (htimes : ((db.seriesHistory ops s).map PointRow.ts).Nodup) :
    db.latestValue ops newest serviceName metricName =
      (firstBy newer (db.seriesHistory ops s)).bind fun x =>
        summaryLatest ops x (lag (db.seriesHistory ops s) x) := by
  have htwo := holdsLastTwo_latestTwo htimes
  have hfirst : firstBy (fun a b => decide (b.ts < a.ts))
      (derivedRows ops (latestTwo (db.seriesHistory ops s))) =
        (firstBy newer (db.seriesHistory ops s)).map fun p =>
          derivedRow ops p (lag (latestTwo (db.seriesHistory ops s)) p)
            fun column => sumOver ops (latestTwo (db.seriesHistory ops s)) column p := by
    rw [derivedRows, firstBy_map, ← firstBy_of_lastTwo htimes htwo]
    rfl
  rw [Db.latestValue, hs, Option.bind_some, hfirst]
  cases hx : firstBy newer (db.seriesHistory ops s) with
  | none => rfl
  | some x =>
      rw [Option.map_some, Option.bind_some, Option.bind_some,
        lag_of_lastTwo htimes htwo samePartition_of_mem_history hx]
      rfl

/-- On a page whose groups have different joined names, the latest value of a group, what
`LatestValue` returns and what the full history of its series last seen gives are the same. -/
theorem latestValues_agree
    {db : Db V} {ops : DoubleOps V} {newest : List StoredSeries → Option StoredSeries}
    (hnewest : PicksNewest newest) {items : List (MetricSummary V)}
    (hkeys : (items.map fun m => summaryKey (m.serviceName, m.metricName)).Nodup)
    {latest : List ((String × String) × Option V)}
    (hlatest : latest.Perm (db.latestRows ops newest
      (items.map fun m => (m.serviceName, m.metricName))))
    (counts : List ((String × String) × Nat)) {m : MetricSummary V} (hm : m ∈ items)
    {s : StoredSeries} (hs : newest (db.groupSeries (m.serviceName, m.metricName)) = some s)
    (htimes : ((db.seriesHistory ops s).map PointRow.ts).Nodup) :
    (m.withStats (summaryStats counts latest)).latestValue =
        db.latestValue ops newest m.serviceName m.metricName ∧
      db.latestValue ops newest m.serviceName m.metricName =
        (lastDerived ops (db.seriesHistory ops s)).bind (DerivedPoint.meaningful ops) := by
  have hkeys' : ((items.map fun m => (m.serviceName, m.metricName)).map summaryKey).Nodup := by
    rw [List.map_map]
    exact hkeys
  have hselected : (items.map fun m => (m.serviceName, m.metricName)).Nodup :=
    List.Nodup.of_map _ hkeys'
  have hgroup : (m.serviceName, m.metricName) ∈
      items.map fun m => (m.serviceName, m.metricName) := List.mem_map_of_mem hm
  refine ⟨?_, ?_⟩
  · have hread : (m.withStats (summaryStats counts latest)).latestValue =
        ((lastRow latest (summaryKey (m.serviceName, m.metricName))).map Prod.snd).getD none :=
      readRows_eq none latest _
    rw [hread, latestValue_eq hs htimes]
    cases hlast : lastRow latest (summaryKey (m.serviceName, m.metricName)) with
    | none =>
        cases hx : firstBy newer (db.seriesHistory ops s) with
        | none => rfl
        | some x =>
            have hrow := (mem_latestRows_iff hnewest hselected hgroup hs htimes).mpr ⟨x, hx, rfl⟩
            exact absurd rfl (lastRow_eq_none_iff.mp hlast _ (hlatest.mem_iff.mpr hrow))
    | some r =>
        obtain ⟨hr, hkey⟩ := mem_of_lastRow hlast
        have hrow := hlatest.mem_iff.mp hr
        have hrgroup : r.1 ∈ items.map fun m => (m.serviceName, m.metricName) :=
          mem_selected_of_latestRows hrow
        have hown : r.1 = (m.serviceName, m.metricName) :=
          List.inj_on_of_nodup_map hkeys' hrgroup hgroup hkey
        obtain ⟨x, hx, hv⟩ := (mem_latestRows_iff hnewest hselected hgroup hs htimes).mp
          (show ((m.serviceName, m.metricName), r.2) ∈ _ from hown ▸ hrow)
        rw [hx]
        exact hv
  · rw [latestValue_eq hs htimes, lastDerived, firstBy_latestBefore htimes]
    cases firstBy newer (db.seriesHistory ops s) with
    | none => rfl
    | some x =>
        have hpoint := meaningful_point ops (derivedRow ops x (lag (db.seriesHistory ops s) x)
          fun column => sumOver ops (db.seriesHistory ops s) column x)
        exact hpoint.symm

end LatestValue

/-! ### A histogram without a sum -/

/-- The first of the series last seen. -/
def newestSeries (l : List StoredSeries) : Option StoredSeries :=
  firstBy (fun a b => decide (b.lastSeen < a.lastSeen)) l

theorem newestSeries_picksNewest : PicksNewest newestSeries where
  exists_of_ne_nil l hl := by
    cases h : newestSeries l with
    | none => exact absurd (firstBy_eq_none_iff.mp h) hl
    | some s => exact ⟨s, rfl⟩
  lastSeen l s h := by
    have horder : StrictOrder fun a b : StoredSeries => decide (b.lastSeen < a.lastSeen) :=
      ⟨fun _ => decide_eq_false (lt_irrefl _), fun hab hbc =>
        decide_eq_true (lt_trans (of_decide_eq_true hbc) (of_decide_eq_true hab))⟩
    obtain ⟨hs, hfirst⟩ := firstBy_isFirst horder h
    exact ⟨hs, fun t ht => not_lt.mp (of_decide_eq_false (hfirst t ht))⟩

/-- A counter that starts again before its last point, in two series of which the second was
seen last. -/
def restartedMetrics : Db Int :=
  { Db.empty Int with
    metricSeries := ⟨[⟨{ sampleSeries with seriesKey := 6 }, 0, 10⟩, ⟨sampleSeries, 0, 30⟩],
      by decide⟩
    metricPoints := [⟨{ samplePoint 1 10 50 with seriesKey := 6 }, 0⟩,
      ⟨samplePoint 2 10 4, 0⟩, ⟨samplePoint 3 20 9, 0⟩, ⟨samplePoint 4 30 3, 0⟩] }

/-- The latest value is the 3 counted since the restart, not the difference -6. -/
theorem latestValues_agree_sample :
    (lastDerived sampleOps (restartedMetrics.seriesHistory sampleOps ⟨sampleSeries, 0, 30⟩)).bind
        (DerivedPoint.meaningful sampleOps) = some 3 ∧
      (sampleSummary.withStats (summaryStats []
        (restartedMetrics.latestRows sampleOps newestSeries
          ([sampleSummary].map fun m => (m.serviceName, m.metricName))))).latestValue =
        restartedMetrics.latestValue sampleOps newestSeries sampleSummary.serviceName
          sampleSummary.metricName ∧
      restartedMetrics.latestValue sampleOps newestSeries sampleSummary.serviceName
          sampleSummary.metricName =
        (lastDerived sampleOps
          (restartedMetrics.seriesHistory sampleOps ⟨sampleSeries, 0, 30⟩)).bind
          (DerivedPoint.meaningful sampleOps) :=
  ⟨by decide +kernel, latestValues_agree newestSeries_picksNewest (by decide) (List.Perm.refl _) []
    (List.mem_singleton_self sampleSummary) (by rfl) (by decide)⟩

/-- Two observations of a histogram of deltas, the last one without a sum. -/
def sumlessMetrics : Db Int :=
  { Db.empty Int with
    metricSeries := ⟨[⟨{ sampleHistogram with temporality := "delta" }, 0, 0⟩], by simp⟩
    metricPoints :=
      [⟨{ sampleHistogramPoint 1 10 4 [4] with sum := some 8 }, 0⟩,
        ⟨sampleHistogramPoint 2 20 2 [2], 0⟩] }

def sumlessSeries : StoredSeries := ⟨{ sampleHistogram with temporality := "delta" }, 0, 0⟩

def namedGauge (seriesKey : UInt64) (serviceName metricName : String) : MetricSeriesRow :=
  { sampleSeries with seriesKey, serviceName, metricName, metricType := "Gauge", temporality := "" }

/-- Two gauges whose names are joined to one text. -/
def namesakeMetrics : Db Int :=
  { Db.empty Int with
    metricSeries := ⟨[⟨namedGauge 7 "a\x00b" "c", 0, 0⟩, ⟨namedGauge 8 "a" "b\x00c", 0, 0⟩],
      by decide⟩
    metricPoints := [⟨samplePoint 1 10 4, 0⟩, ⟨{ samplePoint 2 10 6 with seriesKey := 8 }, 0⟩] }

/-- The derived value of a point without a sum is 0 though its count is positive, and of two
groups with one joined name the page shows one value. -/
theorem latestValue_differs :
    (sumlessMetrics.latestValue sampleOps newestSeries "checkout" "latency" ≠
      (lastDerived sampleOps (sumlessMetrics.seriesHistory sampleOps sumlessSeries)).bind
        fun p => if isDistributionType p.type &&
            p.count.all (fun c => sampleOps.le c sampleOps.zero) then none
          else p.value) ∧
    (summaryStats [] (namesakeMetrics.latestRows sampleOps newestSeries
        [("a\x00b", "c"), ("a", "b\x00c")]) "a\x00b" "c").2 ≠
      namesakeMetrics.latestValue sampleOps newestSeries "a\x00b" "c" := by
  decide +kernel

end Storage
end Otelop
