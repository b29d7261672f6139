import Mathlib.Tactic
import Mathlib.Order.WellFounded
import Otelop.Frontend.SpanTree

/-!
# Collapsed spans of the waterfall

`visibleSpans` of `frontend/src/components/traces/span-tree.ts`: one pass over the rows of
`buildTree` leaves out what is below a collapsed span.  Under a filter the rows of the given
ids are left, whatever is collapsed.

**Results.**
* `visibleSpans_eq_filter`: over the rows of a walk the pass is a filter.
* `visibleSpans_iff`: without cycles the rows left are just those of the spans without a
  collapsed span above them, exactly when the id `""` does not stand for both a span and a
  missing parent.
-/

namespace Otelop
namespace Frontend

open Lib

/-- The rows left of `rows`, after a row that was collapsed at `skipDepth`. -/
def visibleSpansFrom (collapsed : List String) (matchingIds : Option (List String)) :
    Option Nat → List FlatSpan → List FlatSpan
  | _, [] => []
  | skipDepth, f :: rest =>
      if matchingIds.any fun ids => decide (f.span.spanId ∉ ids) then
        visibleSpansFrom collapsed matchingIds skipDepth rest
      else if skipDepth.any (· < f.depth) then
        visibleSpansFrom collapsed matchingIds skipDepth rest
      else
        f :: visibleSpansFrom collapsed matchingIds
          (if matchingIds.isNone && decide (f.span.spanId ∈ collapsed) then some f.depth else none)
          rest

def visibleSpans (flatSpans : List FlatSpan) (collapsed : List String)
    (matchingIds : Option (List String)) : List FlatSpan :=
  visibleSpansFrom collapsed matchingIds none flatSpans

/-! ### The pass -/

variable {spans : List Stores.SpanData}

theorem visibleSpansFrom_map
    (collapsed : List String) (skipDepth : Option Nat) (out : List (Stores.SpanData × Nat)) :
    visibleSpansFrom collapsed none skipDepth (out.map (rowOf spans)) =
      (skipBelow (fun s => decide (s.spanId ∈ collapsed)) skipDepth out).map (rowOf spans) := by
  induction out generalizing skipDepth with
  | nil => rfl
  | cons e out ih =>
      rw [List.map_cons, visibleSpansFrom, skipBelow]
      have hany : skipDepth.any (· < (rowOf spans e).depth) = skipDepth.any (· < e.2) := rfl
      rw [hany, if_neg (by simp)]
      by_cases hskip : skipDepth.any (· < e.2) = true
      · rw [if_pos hskip, if_pos hskip, ih]
      · rw [if_neg hskip, if_neg hskip, ih, List.map_cons]
        rfl

theorem visibleSpans_matching
    (rows : List FlatSpan) (collapsed ids : List String) :
    visibleSpans rows collapsed (some ids) =
      rows.filter fun f => decide (f.span.spanId ∈ ids) := by
  rw [visibleSpans]
  induction rows with
  | nil => rfl
  | cons f rows ih =>
      rw [visibleSpansFrom, List.filter_cons]
      by_cases hf : f.span.spanId ∈ ids
      · simp [hf, ih]
      · simp [hf, ih]

/-- A strict ancestor of the span is collapsed. -/
def BelowCollapsed (spans : List Stores.SpanData) (collapsed : List String)
    (s : Stores.SpanData) : Prop :=
  ∃ a, Relation.TransGen (ParentOf spans) a s ∧ a.spanId ∈ collapsed

theorem belowCollapsed_kid
    (hids : (spans.map Stores.SpanData.spanId).Nodup) {collapsed : List String}
    {p c : Stores.SpanData} (hparent : ParentOf spans p c) :
    BelowCollapsed spans collapsed c ↔ BelowCollapsed spans collapsed p ∨ p.spanId ∈ collapsed := by
  constructor
  · rintro ⟨a, hway, ha⟩
    obtain ⟨q, hway, hlast⟩ := Relation.TransGen.tail'_iff.mp hway
    have hqp : q = p := eq_of_spanId hids hlast.1 hparent.1
      (hlast.2.2.2.trans hparent.2.2.2.symm)
    subst hqp
    rcases Relation.reflTransGen_iff_eq_or_transGen.mp hway with rfl | hway
    · exact Or.inr ha
    · exact Or.inl ⟨a, hway, ha⟩
  · rintro (⟨a, hway, ha⟩ | hp)
    · exact ⟨a, hway.tail hparent, ha⟩
    · exact ⟨p, .single hparent, hp⟩

theorem not_belowCollapsed_root
    {collapsed : List String} {r : Stores.SpanData} (hroot : IsRoot spans r) :
    ¬ BelowCollapsed spans collapsed r := by
  rintro ⟨a, hway, -⟩
  obtain ⟨p, -, hp, -, hne, hid⟩ := Relation.TransGen.tail'_iff.mp hway
  rcases hroot with hempty | hmissing
  · exact hne hempty
  · exact hmissing p hp hid

open scoped Classical in
/-- Over the rows of a walk the pass leaves what is not below a collapsed span. -/
theorem visibleSpans_eq_filter
    (hids : (spans.map Stores.SpanData.spanId).Nodup) (hclash : ¬ EmptyIdClash spans)
    {out : List (Stores.SpanData × Nat)}
    (h : Walk (kidsOf spans) 0 (sortByStartTime (treeRoots spans)) out) (collapsed : List String) :
    visibleSpans (out.map (rowOf spans)) collapsed none =
      (out.map (rowOf spans)).filter fun f => !decide (BelowCollapsed spans collapsed f.span) := by
  have hf := isForest hids hclash
  have hkids : ∀ p ∈ spans, ∀ c ∈ kidsOf spans p, decide (BelowCollapsed spans collapsed c) =
      (decide (BelowCollapsed spans collapsed p) || decide (p.spanId ∈ collapsed)) := by
    intro p hp c hc
    have hparent : ParentOf spans p c := (kid_iff hclash).mp ⟨hp, hc⟩
    rw [Bool.eq_iff_iff]
    simp only [decide_eq_true_eq, Bool.or_eq_true]
    exact belowCollapsed_kid hids hparent
  have hroots : ∀ r ∈ sortByStartTime (treeRoots spans),
      decide (BelowCollapsed spans collapsed r) = false := by
    intro r hr
    exact decide_eq_false (not_belowCollapsed_root (mem_roots_iff.mp hr).2)
  rw [visibleSpans, visibleSpansFrom_map, h.skipBelow_eq hf.roots_mem hf.kids_mem hkids hroots,
    List.filter_map]
  rfl

theorem visibleSpansFrom_nothing
    (rows : List FlatSpan) :
    visibleSpansFrom [] none none rows = rows := by
  induction rows with
  | nil => rfl
  | cons f rows ih => simp [visibleSpansFrom, ih]

/-! ### Lists without cycles -/

/-- No span is above itself. -/
def Acyclic (spans : List Stores.SpanData) : Prop :=
  ∀ s, ¬ Relation.TransGen (ParentOf spans) s s

/-- Without cycles every chain of parents reaches a root. -/
theorem rooted_of_acyclic
    (h : Acyclic spans) {s : Stores.SpanData} (hs : s ∈ spans) :
    Rooted spans s := by
  have hfinite : Finite {s // s ∈ spans} := List.finite_toSet spans
  let above : {s // s ∈ spans} → {s // s ∈ spans} → Prop :=
    fun a b => Relation.TransGen (ParentOf spans) a.1 b.1
  have htrans : IsTrans _ above := ⟨fun _ _ _ hab hbc => hab.trans hbc⟩
  have hirrefl : Std.Irrefl above := ⟨fun a => h a.1⟩
  have hwell : WellFounded above := Finite.wellFounded_of_trans_of_irrefl above
  have hall : ∀ x : {s // s ∈ spans}, Rooted spans x.1 := by
    intro x
    induction x using hwell.induction with
    | _ x ih =>
        by_cases hroot : IsRoot spans x.1
        · exact .root x.2 hroot
        · rw [IsRoot, not_or] at hroot
          obtain ⟨hne, hsome⟩ := hroot
          push Not at hsome
          obtain ⟨p, hp, hid⟩ := hsome
          have hparent : ParentOf spans p x.1 := ⟨hp, x.2, hne, hid⟩
          exact .child (ih ⟨p, hp⟩ (.single hparent)) hparent
  exact hall ⟨s, hs⟩

/-- Rows of the list, in its order, are those of just the spans with a property, each once. -/
structure ShowsJust (spans : List Stores.SpanData) (rows visible : List FlatSpan)
    (P : Stores.SpanData → Prop) : Prop where
  order : visible.Sublist rows
  once : (visible.map FlatSpan.span).Nodup
  exact_iff : ∀ s, s ∈ visible.map FlatSpan.span ↔ s ∈ spans ∧ P s

/-- Collapsing hides the spans below, and a filter shows its spans whatever is collapsed. -/
structure HidesBelow (spans : List Stores.SpanData) (rows : List FlatSpan) : Prop where
  collapsed : ∀ collapsed, ShowsJust spans rows (visibleSpans rows collapsed none)
    fun s => ∀ a, Relation.TransGen (ParentOf spans) a s → a.spanId ∉ collapsed
  filtered : ∀ collapsed ids, ShowsJust spans rows (visibleSpans rows collapsed (some ids))
    fun s => s.spanId ∈ ids

theorem showsJust_filter
    {rows : List FlatSpan} (honce : (rows.map FlatSpan.span).Perm spans)
    (hids : (spans.map Stores.SpanData.spanId).Nodup) {keep : Stores.SpanData → Bool}
    {P : Stores.SpanData → Prop} (hkeep : ∀ s, keep s = true ↔ P s) :
    ShowsJust spans rows (rows.filter fun f => keep f.span) P where
  order := List.filter_sublist
  once := (honce.nodup_iff.mpr hids.of_map).sublist (List.filter_sublist.map FlatSpan.span)
  exact_iff s := by
    have hspan : (rows.filter fun f => keep f.span).map FlatSpan.span =
        (rows.map FlatSpan.span).filter keep := by
      rw [List.filter_map]
      rfl
    rw [hspan, List.mem_filter, honce.mem_iff, hkeep]

/-- With an id that stands for both, a span is shown twice when nothing is collapsed. -/
theorem not_hidesBelow_of_clash
    (hclash : EmptyIdClash spans) {fuel : Nat} {rows : List FlatSpan}
    (hrun : buildTree fuel spans = some rows) :
    ¬ HidesBelow spans rows := by
  intro hhides
  obtain ⟨out, hwalk, rfl⟩ := buildTree_walk hrun
  have hshown := hhides.collapsed []
  rw [visibleSpans, visibleSpansFrom_nothing] at hshown
  have honce := hshown.once
  rw [map_span_rowOf] at honce
  refine not_nodup_of_clash hclash hwalk (fun s hs => ?_) honce
  rw [← map_span_rowOf, hshown.exact_iff]
  exact ⟨hs, fun _ _ => List.not_mem_nil⟩

/-- For a list without cycles, the rows left are just those they should be if and only if the id
`""` does not stand for both a span and a missing parent. -/
theorem visibleSpans_iff
    (hids : (spans.map Stores.SpanData.spanId).Nodup) (hacyclic : Acyclic spans) :
    (∃ fuel rows, buildTree fuel spans = some rows ∧ HidesBelow spans rows) ↔
      ¬ EmptyIdClash spans := by
  constructor
  · rintro ⟨fuel, rows, hrun, hhides⟩ hclash
    exact not_hidesBelow_of_clash hclash hrun hhides
  · intro hclash
    obtain ⟨out, hwalk⟩ := (isForest hids hclash).exists_walk 0
    obtain ⟨fuel, hrun⟩ := walk_buildTree hwalk
    have honce := (showsTree_of_walk hids hclash (fun s hs => rooted_of_acyclic hacyclic hs)
      hwalk).once
    refine ⟨fuel, _, hrun, ?_, ?_⟩
    · intro collapsed
      classical
      have hkeep : ∀ s, (!decide (BelowCollapsed spans collapsed s)) = true ↔
          ∀ a, Relation.TransGen (ParentOf spans) a s → a.spanId ∉ collapsed := by
        intro s
        rw [Bool.not_eq_true', decide_eq_false_iff_not, BelowCollapsed, not_exists]
        simp only [not_and]
      rw [visibleSpans_eq_filter hids hclash hwalk]
      exact showsJust_filter honce hids hkeep
    · intro collapsed ids
      have hkeep : ∀ s : Stores.SpanData, decide (s.spanId ∈ ids) = true ↔ s.spanId ∈ ids :=
        fun _ => decide_eq_true_iff
      rw [visibleSpans_matching]
      exact showsJust_filter honce hids hkeep

/-! ### Samples -/

theorem sampleSpans_acyclic : Acyclic sampleSpans := by
  intro s hloop
  -- Every parent in the list starts before its child.
  have hbefore : ∀ a b, Relation.TransGen (ParentOf sampleSpans) a b →
      a.startEpochNs < b.startEpochNs := by
    intro a b hway
    have hone : ∀ p c, ParentOf sampleSpans p c → p.startEpochNs < c.startEpochNs := by
      rintro p c ⟨hp, hc, -, hid⟩
      simp only [sampleSpans, List.mem_cons, List.not_mem_nil, or_false] at hp hc
      rcases hp with rfl | rfl | rfl | rfl <;> rcases hc with rfl | rfl | rfl | rfl <;>
        simp at hid ⊢
    induction hway with
    | single hparent => exact hone _ _ hparent
    | tail _ hparent ih => exact ih.trans (hone _ _ hparent)
  exact lt_irrefl _ (hbefore s s hloop)

theorem visibleSpans_sample :
    ∃ fuel rows, buildTree fuel sampleSpans = some rows ∧ HidesBelow sampleSpans rows :=
  (visibleSpans_iff (by decide) sampleSpans_acyclic).mpr (by simp [EmptyIdClash, sampleSpans])

/-- A span without an id, below one that is missing, and a span without a parent. -/
def emptyIdSpans : List Stores.SpanData := [⟨"", "x", 0⟩, ⟨"b", "", 1⟩]

/-- The second span is shown twice. -/
theorem emptyIdSpans_shown_twice :
    (emptyIdSpans.map Stores.SpanData.spanId).Nodup ∧ Acyclic emptyIdSpans ∧
      ¬ ∃ fuel rows, buildTree fuel emptyIdSpans = some rows ∧ HidesBelow emptyIdSpans rows := by
  refine ⟨by decide, ?_, ?_⟩
  · intro s hloop
    obtain ⟨p, -, hp, hs, hne, hid⟩ := Relation.TransGen.tail'_iff.mp hloop
    simp only [emptyIdSpans, List.mem_cons, List.not_mem_nil, or_false] at hp hs
    rcases hp with rfl | rfl <;> rcases hs with rfl | rfl <;> simp at hid hne
  · rintro ⟨fuel, rows, hrun, hhides⟩
    exact not_hidesBelow_of_clash (by simp [EmptyIdClash, emptyIdSpans]) hrun hhides

end Frontend
end Otelop
