import Mathlib.Tactic
import Otelop.Lib.Counter
import Otelop.Lib.Previous
import Otelop.Storage.LatestValue

/-!
# The deltas of a counter

The points of a series of a cumulative, monotonic `Sum` show what they add to the point before
them.  Over a window, the deltas add up to the growth of the counter since the last older
point, and windows that meet add up to the window they make.

**Results.**
* `lag_eq_previous`: `lag` shows the point in front in the order of time.
* `seriesDeltas_perm`: the deltas of a window, in the order of time.
* `counterDerivation_conserves`: they are not negative, telescope and add up.
-/

namespace Otelop
namespace Storage

open Lib

section InOrder

variable {V : Type}

/-- The points of a series in the order of time. -/
def Db.seriesInOrder (db : Db V) (ops : DoubleOps V) (s : StoredSeries) : List (PointRow V) :=
  (db.seriesHistory ops s).insertionSort fun p q => toLex (p.ts, p.id) ≤ toLex (q.ts, q.id)

/-- The values shown of the points of a series in a window. -/
def Db.seriesDeltas (db : Db V) (ops : DoubleOps V) (s : StoredSeries) (fromTs toTs : Time) :
    List V :=
  ((db.metricPointsWithPredecessors ops s.row.serviceName s.row.metricName fromTs toTs).filter
    fun p => decide (p.seriesKey = s.row.seriesKey) &&
      (decide (fromTs ≤ p.ts) && decide (p.ts < toTs))).filterMap DerivedPoint.value

variable {db : Db V} {ops : DoubleOps V} {s : StoredSeries}

/-- The points of a series are those of its group with its key. -/
theorem filter_groupPoints (hs : s ∈ db.metricSeries.rows) :
    (db.groupPoints ops 0 s.row.serviceName s.row.metricName).filter
        (fun p => p.seriesKey = s.row.seriesKey) =
      db.seriesHistory ops s := by
  rw [Db.groupPoints, Db.seriesHistory]
  induction db.metricPoints with
  | nil =>
      rfl
  | cons p l ih =>
      rw [List.filterMap_cons]
      by_cases hkey : p.row.seriesKey = s.row.seriesKey
      · have hfind : db.metricSeries.find? p.row.seriesKey = some s :=
          (db.metricSeries.find?_eq_some_iff).mpr ⟨hs, hkey.symm⟩
        rw [hfind, Option.bind_some, if_pos (by simp),
          List.filter_cons_of_pos (by simpa [StoredPoint.pointRow] using hkey),
          List.filter_cons_of_pos (by simpa using hkey), List.map_cons, ih]
      · rw [List.filter_cons_of_neg (by simpa using hkey), ← ih]
        cases hrow : (db.metricSeries.find? p.row.seriesKey).bind fun t =>
            if t.row.serviceName = s.row.serviceName && t.row.metricName = s.row.metricName then
              some (p.pointRow ops 0 t)
            else none with
        | none => rfl
        | some q =>
            obtain ⟨t, -, hq⟩ := Option.bind_eq_some_iff.mp hrow
            split at hq
            · cases hq
              have hne : ¬ (p.pointRow ops 0 t).seriesKey = s.row.seriesKey := hkey
              exact List.filter_cons_of_neg (by simpa using hne)
            · cases hq

theorem latestBefore_eq_pointBefore (p q : PointRow V) :
    latestBefore p q = pointBefore q p := by
  rw [Bool.eq_iff_iff, latestBefore, pointBefore, lexBefore_iff, lexBefore_iff]
  constructor
  · rintro (h | ⟨h, hid⟩)
    · exact Or.inl h
    · exact Or.inr ⟨(congrArg OrderDual.ofDual h).symm, hid⟩
  · rintro (h | ⟨h, hid⟩)
    · exact Or.inl h
    · exact Or.inr ⟨congrArg OrderDual.toDual h.symm, hid⟩

section Positions

variable (hpositions : db.pointPositions.Nodup) (hs : s ∈ db.metricSeries.rows)

include hpositions hs

theorem history_positions : ((db.seriesHistory ops s).map PointRow.position).Nodup := by
  rw [← filter_groupPoints hs]
  exact (groupPoints_positions hpositions ops 0 _ _).sublist (List.filter_sublist.map _)

theorem history_totalOn {l : List (PointRow V)} (hl : ∀ p ∈ l, p ∈ db.seriesHistory ops s) :
    TotalOn latestBefore l :=
  latestBefore_totalOn (history_positions hpositions hs)
    fun p hp => ⟨hl p hp, seriesKey_of_mem_history (hl p hp)⟩

/-- The points of a series are strictly ordered. -/
theorem seriesInOrder_pairwise :
    (db.seriesInOrder ops s).Pairwise
      (keyBefore (fun _ : PointRow V => ()) pointBefore) := by
  let position : PointRow V → Time ×ₗ UUID := fun p => toLex (p.ts, p.id)
  have : Std.Total fun p q : PointRow V => position p ≤ position q :=
    ⟨fun p q => le_total (position p) (position q)⟩
  have : IsTrans (PointRow V) fun p q => position p ≤ position q := ⟨fun _ _ _ => le_trans⟩
  have hle : (db.seriesInOrder ops s).Pairwise fun p q => position p ≤ position q :=
    List.pairwise_insertionSort _ _
  have hperm : (db.seriesInOrder ops s).Perm (db.seriesHistory ops s) :=
    List.perm_insertionSort _ _
  have hne : (db.seriesInOrder ops s).Pairwise fun p q => p.position ≠ q.position :=
    List.pairwise_map.mp ((hperm.map _).nodup_iff.mpr (history_positions hpositions hs))
  refine List.Pairwise.imp_of_mem ?_ (hle.and hne)
  rintro p q hp hq ⟨hle, hne⟩
  have hkey : p.seriesKey = q.seriesKey :=
    (seriesKey_of_mem_history (hperm.mem_iff.mp hp)).trans
      (seriesKey_of_mem_history (hperm.mem_iff.mp hq)).symm
  have hlt : position p < position q := by
    refine lt_of_le_of_ne hle fun heq => hne ?_
    obtain ⟨hts, hid⟩ := Prod.mk.inj (toLex_inj.mp heq)
    rw [PointRow.position, PointRow.position, hkey, hts, hid]
  exact Or.inr ⟨rfl, lexBefore_iff.mpr (Prod.Lex.toLex_lt_toLex.mp hlt)⟩

/-- `lag` shows the point in front in the order of time. -/
theorem lag_eq_previous
    {x : Option (PointRow V) × PointRow V}
    (hx : x ∈ withPrevious none (db.seriesInOrder ops s)) :
    lag (db.groupPoints ops 0 s.row.serviceName s.row.metricName) x.2 = x.1 := by
  have hperm : (db.seriesInOrder ops s).Perm (db.seriesHistory ops s) :=
    List.perm_insertionSort _ _
  have hmem : x.2 ∈ db.seriesHistory ops s := by
    have hx2 := List.mem_map_of_mem (f := Prod.snd) hx
    rw [map_snd_withPrevious] at hx2
    exact hperm.mem_iff.mp hx2
  have hfront := withPrevious_eq_firstBy lexBefore_strictOrder
    (seriesInOrder_pairwise hpositions hs) hx
  simp only [decide_true, Bool.true_and] at hfront
  have hfilter : ((db.seriesHistory ops s).filter
      fun q => q.samePartition x.2 && pointBefore q x.2) =
        (db.seriesHistory ops s).filter fun q => pointBefore q x.2 := by
    refine List.filter_congr fun q hq => ?_
    rw [samePartition_of_mem_history x.2 hmem q hq, Bool.true_and]
  have hself : x.1.filter (fun _ => true) = x.1 := by
    cases x.1 <;> rfl
  rw [← lag_filter_series (seriesKey_of_mem_history hmem), filter_groupPoints hs, lag, hfilter,
    firstBy_perm latestBefore_strictOrder
      (history_totalOn hpositions hs fun p hp => (List.mem_filter.mp hp).1)
      (hperm.symm.filter fun q => pointBefore q x.2), ← hself, hfront]
  exact congrArg (fun before => firstBy before _)
    (funext fun p => funext fun q => latestBefore_eq_pointBefore p q)

end Positions

/-! ### The deltas of a window -/

/-- The points of a window, each with the one in front of it. -/
def Db.windowPairs (db : Db V) (ops : DoubleOps V) (s : StoredSeries) (fromTs toTs : Time) :
    List (Option (PointRow V) × PointRow V) :=
  (withPrevious none (db.seriesInOrder ops s)).filter fun x => inWindow fromTs toTs x.2

/-- The delta of a point with the one in front of it. -/
def pairDelta (ops : DoubleOps V) (x : Option (PointRow V) × PointRow V) : Option V :=
  lagDelta ops (x.1.bind PointRow.value) x.2.value

/-- The deltas of a window, in the order of time. -/
theorem seriesDeltas_perm
    (hpositions : db.pointPositions.Nodup) (hs : s ∈ db.metricSeries.rows)
    (htype : s.row.metricType = "Sum") (htemporality : s.row.temporality = "cumulative")
    (hmonotonic : s.row.isMonotonic = true) (fromTs toTs : Time) :
    (db.seriesDeltas ops s fromTs toTs).Perm
      ((db.windowPairs ops s fromTs toTs).filterMap (pairDelta ops)) := by
  let group := db.groupPoints ops 0 s.row.serviceName s.row.metricName
  let points := pointsWithPredecessors group fromTs toTs
  have hcounter : ∀ p ∈ db.seriesHistory ops s, p.isCounter = true ∧
      p.predecessorRequired = true ∧ isDistributionType p.metricType = false := by
    intro p hp
    obtain ⟨q, -, rfl⟩ := List.mem_map.mp hp
    have htype' : (q.pointRow ops 0 s).metricType = "Sum" := htype
    have htemporality' : (q.pointRow ops 0 s).temporality = "cumulative" := htemporality
    have hmonotonic' : (q.pointRow ops 0 s).isMonotonic = true := hmonotonic
    simp [PointRow.isCounter, PointRow.predecessorRequired, htype', htemporality', hmonotonic',
      isDistributionType]
  have hshown : (db.seriesDeltas ops s fromTs toTs).Perm
      (((db.seriesHistory ops s).filter (inWindow fromTs toTs)).filterMap
        fun p => (derivedPoint ops points p).value) := by
    have hperm := (((derivePoints_perm ops points).filter fun p =>
      decide (p.seriesKey = s.row.seriesKey) &&
        (decide (fromTs ≤ p.ts) && decide (p.ts < toTs))).filterMap DerivedPoint.value)
    refine hperm.trans (List.Perm.of_eq ?_)
    rw [List.filter_map, List.filterMap_map]
    refine congrArg₂ List.filterMap rfl ?_
    have hsplit : (points.filter fun p => decide (p.seriesKey = s.row.seriesKey) &&
        (decide (fromTs ≤ p.ts) && decide (p.ts < toTs))) =
          (points.filter (inWindow fromTs toTs)).filter
            fun p => p.seriesKey = s.row.seriesKey := by
      rw [List.filter_filter]
      rfl
    refine hsplit.trans ?_
    rw [window_pointsWithPredecessors, windowPoints, List.filter_filter,
      ← filter_groupPoints hs, List.filter_filter]
    exact List.filter_congr fun p _ => Bool.and_comm _ _
  have hvalue : ∀ p ∈ (db.seriesHistory ops s).filter (inWindow fromTs toTs),
      (derivedPoint ops points p).value =
        lagDelta ops ((lag group p).bind PointRow.value) p.value := by
    intro p hp
    obtain ⟨hp, hwindow⟩ := List.mem_filter.mp hp
    obtain ⟨hcounter, hrequired, hdist⟩ := hcounter p hp
    have hgroup : p ∈ windowPoints group fromTs toTs := by
      rw [← filter_groupPoints hs] at hp
      exact List.mem_filter.mpr ⟨(List.mem_filter.mp hp).1, hwindow⟩
    have hlag : lag points p = lag group p := by
      refine lag_eq_of_covers (groupPoints_positions hpositions ops 0 _ _) ?_
        (covers_pointsWithPredecessors group fromTs toTs) hgroup hrequired
      intro x hx y hy
      rw [requestIndex_of_mem_groupPoints hx, requestIndex_of_mem_groupPoints hy]
    rw [derivedPoint, hlag]
    simp [derivedRow, DerivedRow.point, hcounter, hdist]
  have hperm : (db.seriesInOrder ops s).Perm (db.seriesHistory ops s) :=
    List.perm_insertionSort _ _
  rw [List.filterMap_congr hvalue] at hshown
  refine hshown.trans (((hperm.symm.filter _).filterMap _).trans (List.Perm.of_eq ?_))
  have hpairs : (db.seriesInOrder ops s).filter (inWindow fromTs toTs) =
      (db.windowPairs ops s fromTs toTs).map Prod.snd := by
    rw [Db.windowPairs, ← map_snd_withPrevious none (db.seriesInOrder ops s), List.filter_map,
      map_snd_withPrevious]
    rfl
  rw [hpairs, List.filterMap_map]
  refine List.filterMap_congr fun x hx => ?_
  rw [Function.comp_apply, lag_eq_previous hpositions hs (List.mem_filter.mp hx).1]
  rfl

/-! ### Windows of a sorted list -/

/-- A sorted list is what lies before a time and what does not. -/
theorem filter_lt_append
    {l : List (PointRow V)} (hsorted : l.Pairwise fun p q => p.ts ≤ q.ts) (t : Time) :
    l.filter (fun p => decide (p.ts < t)) ++ l.filter (fun p => !decide (p.ts < t)) = l := by
  induction l with
  | nil =>
      rfl
  | cons p l ih =>
      obtain ⟨hp, hsorted⟩ := List.pairwise_cons.mp hsorted
      by_cases hlt : p.ts < t
      · rw [List.filter_cons_of_pos (by simpa using hlt),
          List.filter_cons_of_neg (by simpa using hlt), List.cons_append, ih hsorted]
      · have hnone : l.filter (fun p => decide (p.ts < t)) = [] :=
          List.filter_eq_nil_iff.mpr fun q hq h =>
            hlt (lt_of_le_of_lt (hp q hq) (of_decide_eq_true h))
        have hrest := ih hsorted
        rw [hnone, List.nil_append] at hrest
        rw [List.filter_cons_of_neg (by simpa using hlt),
          List.filter_cons_of_pos (by simpa using hlt), hnone, List.nil_append, hrest]

theorem filter_withPrevious_eq_self
    {keep : PointRow V → Bool} {previous : Option (PointRow V)} {l : List (PointRow V)}
    (h : ∀ p ∈ l, keep p = true) :
    (withPrevious previous l).filter (fun x => keep x.2) = withPrevious previous l := by
  refine List.filter_eq_self.mpr fun x hx => h x.2 ?_
  rw [← map_snd_withPrevious previous l]
  exact List.mem_map_of_mem hx

theorem filter_withPrevious_eq_nil
    {keep : PointRow V → Bool} {previous : Option (PointRow V)} {l : List (PointRow V)}
    (h : ∀ p ∈ l, keep p = false) :
    (withPrevious previous l).filter (fun x => keep x.2) = [] := by
  refine List.filter_eq_nil_iff.mpr fun x hx => ?_
  have hmem : x.2 ∈ l := by
    rw [← map_snd_withPrevious previous l]
    exact List.mem_map_of_mem hx
  rw [h x.2 hmem]
  exact Bool.false_ne_true

/-- The points of a window stand behind the last older one. -/
theorem windowPairs_eq
    (hpositions : db.pointPositions.Nodup) (hs : s ∈ db.metricSeries.rows)
    (fromTs toTs : Time) :
    db.windowPairs ops s fromTs toTs =
      withPrevious ((db.seriesInOrder ops s).filter fun p => decide (p.ts < fromTs)).getLast?
        ((db.seriesInOrder ops s).filter (inWindow fromTs toTs)) := by
  have hsorted : (db.seriesInOrder ops s).Pairwise fun p q => p.ts ≤ q.ts := by
    refine (seriesInOrder_pairwise hpositions hs).imp fun h => ?_
    rcases h with h | ⟨-, h⟩
    · exact absurd h (lt_irrefl _)
    · exact ts_le_of_pointBefore h
  let older := (db.seriesInOrder ops s).filter fun p => decide (p.ts < fromTs)
  let recent := (db.seriesInOrder ops s).filter fun p => !decide (p.ts < fromTs)
  have hrecent : recent.filter (fun p => decide (p.ts < toTs)) =
      (db.seriesInOrder ops s).filter (inWindow fromTs toTs) := by
    rw [List.filter_filter]
    refine List.filter_congr fun p _ => ?_
    rw [inWindow, Bool.and_comm, ← decide_not]
    simp only [not_lt]
  have hall : older ++ (recent.filter (fun p => decide (p.ts < toTs)) ++
      recent.filter fun p => !decide (p.ts < toTs)) = db.seriesInOrder ops s := by
    rw [filter_lt_append (hsorted.filter _), filter_lt_append hsorted]
  have hold : ∀ p ∈ older, inWindow fromTs toTs p = false := by
    intro p hp
    have hlt := of_decide_eq_true (List.mem_filter.mp hp).2
    rw [inWindow, decide_eq_false (not_le.mpr hlt), Bool.false_and]
  have hnew : ∀ p ∈ recent.filter (fun p => !decide (p.ts < toTs)),
      inWindow fromTs toTs p = false := by
    intro p hp
    have hge := (List.mem_filter.mp hp).2
    rw [Bool.not_eq_true'] at hge
    rw [inWindow, hge, Bool.and_false]
  have hin : ∀ p ∈ recent.filter (fun p => decide (p.ts < toTs)),
      inWindow fromTs toTs p = true := by
    rw [hrecent]
    exact fun p hp => (List.mem_filter.mp hp).2
  have hpairs : db.windowPairs ops s fromTs toTs = (withPrevious none (older ++
      (recent.filter (fun p => decide (p.ts < toTs)) ++
        recent.filter fun p => !decide (p.ts < toTs)))).filter
          fun x => inWindow fromTs toTs x.2 := by
    rw [hall, Db.windowPairs]
  rw [hpairs, withPrevious_append, withPrevious_append, List.filter_append, List.filter_append,
    filter_withPrevious_eq_nil hold, filter_withPrevious_eq_nil hnew,
    filter_withPrevious_eq_self hin, List.nil_append, List.append_nil, Option.or_none, hrecent]

/-- Windows that meet have the points of the window they make. -/
theorem windowPairs_split {fromTs midTs toTs : Time} (hfrom : fromTs ≤ midTs)
    (hto : midTs ≤ toTs) :
    (db.windowPairs ops s fromTs midTs ++ db.windowPairs ops s midTs toTs).Perm
      (db.windowPairs ops s fromTs toTs) := by
  have hsplit := List.filter_append_perm (fun x : Option (PointRow V) × PointRow V =>
    decide (x.2.ts < midTs)) (db.windowPairs ops s fromTs toTs)
  refine List.Perm.trans (List.Perm.of_eq (congrArg₂ (· ++ ·) ?_ ?_)) hsplit
  · rw [Db.windowPairs, Db.windowPairs, List.filter_filter]
    refine List.filter_congr fun x _ => ?_
    rw [Bool.eq_iff_iff]
    simp only [inWindow, Bool.and_eq_true, decide_eq_true_eq]
    exact ⟨fun h => ⟨h.2, h.1, lt_of_lt_of_le h.2 hto⟩, fun h => ⟨h.2.1, h.1⟩⟩
  · rw [Db.windowPairs, Db.windowPairs, List.filter_filter]
    refine List.filter_congr fun x _ => ?_
    rw [Bool.eq_iff_iff]
    simp only [inWindow, Bool.and_eq_true, Bool.not_eq_true', decide_eq_true_eq,
      decide_eq_false_iff_not, not_lt]
    exact ⟨fun h => ⟨h.1, le_trans hfrom h.1, h.2⟩, fun h => ⟨h.1, h.2.2⟩⟩

end InOrder

/-! ### The growth of a counter -/

section Growth

variable {K : Type} [Field K] [LinearOrder K]

/-- What the readings of a window grow by: from the reading before the window, or else from the
first reading. -/
def windowGrowth : Option K → List K → K
  | some previous, readings => growth previous readings
  | none, [] => 0
  | none, x :: readings => growth x readings

/-- Every point has a reading, and none is negative. -/
def IsReadings (points : List (PointRow K)) : Prop :=
  ∀ p ∈ points, ∃ v, p.value = some v ∧ 0 ≤ v

theorem pairDelta_some {p q : PointRow K} {v x : K} (hq : q.value = some v)
    (hp : p.value = some x) : pairDelta (exactOps K) (some q, p) = some (counterDelta v x) := by
  rw [pairDelta, Option.bind_some, hq, hp, lagDelta, counterDelta]
  by_cases hlt : x < v <;> simp [exactOps, hlt]

theorem filterMap_pairDelta
    {l : List (PointRow K)} (hl : IsReadings l) {q : PointRow K} {v : K} (hq : q.value = some v) :
    (withPrevious (some q) l).filterMap (pairDelta (exactOps K)) =
      counterDeltas v (l.filterMap PointRow.value) := by
  induction l generalizing q v with
  | nil =>
      rfl
  | cons p l ih =>
      obtain ⟨x, hx, -⟩ := hl p List.mem_cons_self
      rw [withPrevious, List.filterMap_cons_some (pairDelta_some hq hx),
        List.filterMap_cons_some hx, counterDeltas,
        ih (fun p hp => hl p (List.mem_cons_of_mem _ hp)) hx]

theorem sum_pairDelta
    {l : List (PointRow K)} (hl : IsReadings l) {previous : Option (PointRow K)}
    (hprevious : ∀ q, previous = some q → ∃ v, q.value = some v) :
    ((withPrevious previous l).filterMap (pairDelta (exactOps K))).sum =
      windowGrowth (previous.bind PointRow.value) (l.filterMap PointRow.value) := by
  cases previous with
  | some q =>
      obtain ⟨v, hv⟩ := hprevious q rfl
      rw [filterMap_pairDelta hl hv, sum_counterDeltas, Option.bind_some, hv]
      rfl
  | none =>
      cases l with
      | nil =>
          rfl
      | cons p l =>
          obtain ⟨x, hx, -⟩ := hl p List.mem_cons_self
          have hfirst : pairDelta (exactOps K) (none, p) = none := by
            rw [pairDelta, hx]
            rfl
          rw [withPrevious, List.filterMap_cons_none hfirst,
            filterMap_pairDelta (fun p hp => hl p (List.mem_cons_of_mem _ hp)) hx,
            sum_counterDeltas, List.filterMap_cons_some hx]
          rfl

/-- Over a window the deltas of a counter are not negative and telescope, and windows that meet
add up. -/
theorem counterDerivation_conserves
    [IsStrictOrderedRing K] {db : Db K} (hpositions : db.pointPositions.Nodup)
    {s : StoredSeries} (hs : s ∈ db.metricSeries.rows) (htype : s.row.metricType = "Sum")
    (htemporality : s.row.temporality = "cumulative") (hmonotonic : s.row.isMonotonic = true)
    (hreadings : IsReadings (db.seriesHistory (exactOps K) s)) {fromTs midTs toTs : Time}
    (hfrom : fromTs ≤ midTs) (hto : midTs ≤ toTs) :
    let points := db.seriesInOrder (exactOps K) s
    (∀ delta ∈ db.seriesDeltas (exactOps K) s fromTs toTs, 0 ≤ delta) ∧
      (db.seriesDeltas (exactOps K) s fromTs toTs).sum =
        windowGrowth
          ((points.filter fun p => decide (p.ts < fromTs)).getLast?.bind PointRow.value)
          ((points.filter (inWindow fromTs toTs)).filterMap PointRow.value) ∧
      (db.seriesDeltas (exactOps K) s fromTs midTs).sum +
          (db.seriesDeltas (exactOps K) s midTs toTs).sum =
        (db.seriesDeltas (exactOps K) s fromTs toTs).sum := by
  intro points
  have hdeltas : ∀ t t' : Time, (db.seriesDeltas (exactOps K) s t t').Perm
      ((db.windowPairs (exactOps K) s t t').filterMap (pairDelta (exactOps K))) :=
    seriesDeltas_perm hpositions hs htype htemporality hmonotonic
  have hinOrder : IsReadings points := fun p hp =>
    hreadings p ((List.perm_insertionSort _ _).mem_iff.mp hp)
  refine ⟨?_, ?_, ?_⟩
  · intro delta hdelta
    obtain ⟨x, hx, hvalue⟩ := List.mem_filterMap.mp ((hdeltas _ _).mem_iff.mp hdelta)
    have hmem : x.2 ∈ points := by
      have hx2 := List.mem_map_of_mem (f := Prod.snd) (List.mem_filter.mp hx).1
      rwa [map_snd_withPrevious] at hx2
    obtain ⟨v, hv, hpos⟩ := hinOrder x.2 hmem
    rw [pairDelta, hv] at hvalue
    cases hprevious : x.1.bind PointRow.value with
    | none =>
        rw [hprevious] at hvalue
        cases hvalue
    | some u =>
        rw [hprevious, lagDelta] at hvalue
        have hcounter : counterDelta u v = delta := by
          rw [counterDelta]
          by_cases hlt : v < u
          · simpa [exactOps, hlt] using hvalue
          · simpa [exactOps, hlt] using hvalue
        exact hcounter ▸ counterDelta_nonneg hpos
  · rw [(hdeltas fromTs toTs).sum_eq, windowPairs_eq hpositions hs fromTs toTs]
    refine sum_pairDelta (fun p hp => hinOrder p (List.mem_filter.mp hp).1) fun q hq => ?_
    obtain ⟨v, hv, -⟩ := hinOrder q (List.mem_filter.mp (List.mem_of_getLast? hq)).1
    exact ⟨v, hv⟩
  · rw [(hdeltas fromTs midTs).sum_eq, (hdeltas midTs toTs).sum_eq, (hdeltas fromTs toTs).sum_eq,
      ← List.sum_append, ← List.filterMap_append]
    exact ((windowPairs_split hfrom hto).filterMap _).sum_eq

end Growth

/-! ### A worker that restarted -/

theorem sampleWorkers_positions : sampleWorkers.pointPositions.Nodup := by
  decide

theorem sampleWorkers_readings :
    IsReadings (sampleWorkers.seriesHistory (exactOps ℚ) ⟨sampleSeries, 0, 0⟩) := by
  have hall : ∀ p ∈ sampleWorkers.seriesHistory (exactOps ℚ) ⟨sampleSeries, 0, 0⟩,
      p.value.any (fun v => decide (0 ≤ v)) = true := by
    decide +kernel
  intro p hp
  obtain ⟨v, hv, hpos⟩ := (Option.any_eq_true _ _).mp (hall p hp)
  exact ⟨v, hv, of_decide_eq_true hpos⟩

theorem counterDerivation_conserves_sample :
    let s : StoredSeries := ⟨sampleSeries, 0, 0⟩
    let points := sampleWorkers.seriesInOrder (exactOps ℚ) s
    (∀ delta ∈ sampleWorkers.seriesDeltas (exactOps ℚ) s 60 180, 0 ≤ delta) ∧
      (sampleWorkers.seriesDeltas (exactOps ℚ) s 60 180).sum =
        windowGrowth
          ((points.filter fun p => decide (p.ts < 60)).getLast?.bind PointRow.value)
          ((points.filter (inWindow 60 180)).filterMap PointRow.value) ∧
      (sampleWorkers.seriesDeltas (exactOps ℚ) s 60 120).sum +
          (sampleWorkers.seriesDeltas (exactOps ℚ) s 120 180).sum =
        (sampleWorkers.seriesDeltas (exactOps ℚ) s 60 180).sum :=
  counterDerivation_conserves sampleWorkers_positions List.mem_cons_self rfl rfl rfl
    sampleWorkers_readings (by decide) (by decide)

/-- From 100 to 120, and 5 since the restart. -/
example :
    windowGrowth (some (100 : ℚ)) [120, 5] = 25 ∧
      sampleWorkers.seriesDeltas (exactOps ℚ) ⟨sampleSeries, 0, 0⟩ 60 180 = [20, 5] := by
  decide +kernel

end Storage
end Otelop
