import Mathlib.Tactic
import Mathlib.Data.List.Sort

/-!
# Stable sorting

Sorting by a total preorder leaves the elements that are tied in the order they stood in.  Two
lists are sorted to the same list when they have the tied elements in the same order.

The preorder is any relation that is total and transitive, with a decision procedure; elements
that it does not tell apart may still be different, so a sorted list says something about the
order its elements came in.  The sort is Mathlib's insertion sort, which here stands for any
stable sort of a program.

**Results.**
* `filter_tied_insertionSort`: tied elements keep their order.
* `eq_of_filter_tied`: sorted lists with the same tied elements are the same.
* `insertionSort_eq_iff`: when two lists are sorted to the same list.
-/

namespace Otelop
namespace Lib

universe u

variable {α : Type u} (r : α → α → Prop) [DecidableRel r]

/-- The preorder does not tell the elements apart. -/
def tied (x y : α) : Bool := decide (r x y) && decide (r y x)

variable {r}

theorem tied_iff {x y : α} : tied r x y = true ↔ r x y ∧ r y x := by
  rw [tied, Bool.and_eq_true, decide_eq_true_eq, decide_eq_true_eq]

theorem tied_trans
    [IsTrans α r] {x y z : α} (hxy : tied r x y = true) (hxz : tied r x z = true) : r y z :=
  IsTrans.trans y x z (tied_iff.mp hxy).2 (tied_iff.mp hxz).1

theorem tied_self [Std.Total r] (x : α) : tied r x x = true :=
  tied_iff.mpr ⟨(Std.Total.total x x).elim id id, (Std.Total.total x x).elim id id⟩

/-- Tied elements keep their order. -/
theorem filter_tied_insertionSort [IsTrans α r] (l : List α) (x : α) :
    (l.insertionSort r).filter (tied r x) = l.filter (tied r x) := by
  have hpairwise : (l.filter (tied r x)).Pairwise r := by
    refine List.pairwise_of_forall_mem_list fun y hy z hz => ?_
    exact tied_trans (List.mem_filter.mp hy).2 (List.mem_filter.mp hz).2
  have htwice : (l.filter (tied r x)).filter (tied r x) = l.filter (tied r x) :=
    List.filter_eq_self.mpr fun y hy => (List.mem_filter.mp hy).2
  have hsublist : List.Sublist (l.filter (tied r x)) ((l.insertionSort r).filter (tied r x)) := by
    have h := (List.sublist_insertionSort hpairwise List.filter_sublist).filter (tied r x)
    rwa [htwice] at h
  have hlength : (l.filter (tied r x)).length =
      ((l.insertionSort r).filter (tied r x)).length :=
    ((List.perm_insertionSort r l).filter _).length_eq.symm
  exact (hsublist.eq_of_length hlength).symm

/-- Sorted lists with the same tied elements are the same. -/
theorem eq_of_filter_tied
    [Std.Total r] {l l' : List α} (hl : l.Pairwise r) (hl' : l'.Pairwise r)
    (h : ∀ x, l.filter (tied r x) = l'.filter (tied r x)) : l = l' := by
  have hmem : ∀ {l l' : List α}, (∀ x, l.filter (tied r x) = l'.filter (tied r x)) →
      ∀ x ∈ l, x ∈ l' := by
    intro l l' h x hx
    have hfilter : x ∈ l.filter (tied r x) := List.mem_filter.mpr ⟨hx, tied_self x⟩
    rw [h x] at hfilter
    exact (List.mem_filter.mp hfilter).1
  induction l generalizing l' with
  | nil =>
      cases l' with
      | nil => rfl
      | cons y l' => exact absurd (hmem (fun x => (h x).symm) y List.mem_cons_self) List.not_mem_nil
  | cons x l ih =>
      cases l' with
      | nil => exact absurd (hmem h x List.mem_cons_self) List.not_mem_nil
      | cons y l' =>
          obtain ⟨hx, hrest⟩ := List.pairwise_cons.mp hl
          obtain ⟨hy, hrest'⟩ := List.pairwise_cons.mp hl'
          have hself : ∀ z : α, r z z := fun z => (Std.Total.total z z).elim id id
          have hxy : r x y := by
            rcases List.mem_cons.mp (hmem (fun z => (h z).symm) y List.mem_cons_self) with rfl | hmem
            · exact hself y
            · exact hx y hmem
          have hyx : r y x := by
            rcases List.mem_cons.mp (hmem h x List.mem_cons_self) with rfl | hmem
            · exact hself x
            · exact hy x hmem
          have hhead := h x
          rw [List.filter_cons_of_pos (tied_self x),
            List.filter_cons_of_pos (tied_iff.mpr ⟨hxy, hyx⟩)] at hhead
          obtain rfl : x = y := (List.cons.inj hhead).1
          refine congrArg (List.cons x) (ih hrest hrest' fun z => ?_)
          have hz := h z
          cases htied : tied r z x with
          | false =>
              have hnot : ¬ tied r z x = true := by
                rw [htied]
                exact Bool.false_ne_true
              rwa [List.filter_cons_of_neg hnot, List.filter_cons_of_neg hnot] at hz
          | true =>
              rw [List.filter_cons_of_pos htied, List.filter_cons_of_pos htied] at hz
              exact (List.cons.inj hz).2

/-- Two lists are sorted to the same list when they have the tied elements in the same order. -/
theorem insertionSort_eq_iff [Std.Total r] [IsTrans α r] {l l' : List α} :
    l.insertionSort r = l'.insertionSort r ↔
      ∀ x, l.filter (tied r x) = l'.filter (tied r x) := by
  constructor
  · intro h x
    rw [← filter_tied_insertionSort l x, h, filter_tied_insertionSort l' x]
  · intro h
    refine eq_of_filter_tied (List.pairwise_insertionSort r l) (List.pairwise_insertionSort r l')
      fun x => ?_
    rw [filter_tied_insertionSort, filter_tied_insertionSort, h x]

end Lib
end Otelop
