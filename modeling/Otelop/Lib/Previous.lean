import Mathlib.Tactic
import Otelop.Lib.Choose

/-!
# The element in front of an element

A loop that reads rows in the order `ORDER BY key, ...` and keeps the row it read last sees, in
front of each row, the row `lag` shows for it in the window of its key, or a row of another key.

`withPrevious` pairs each element of a list with the one in front of it, as such a loop does.  A
query with `lag(...) OVER (PARTITION BY key ORDER BY ...)` looks for the last of the elements
with the same key that come before.  In a list that is sorted by the key first, the two find the
same element as long as the loop checks that the key is the same.

**Results.**
* `withPrevious_append`: the elements in front, in a list made of two.
* `withPrevious_eq_firstBy`: what stands in front of an element of a sorted list.
-/

namespace Otelop
namespace Lib

universe u v

variable {α : Type u} {κ : Type v}

/-- The elements of `l`, each with the one in front of it; `previous` stands in front of
the first. -/
def withPrevious : Option α → List α → List (Option α × α)
  | _, [] => []
  | previous, a :: l => (previous, a) :: withPrevious (some a) l

theorem map_snd_withPrevious
    (previous : Option α) (l : List α) :
    (withPrevious previous l).map Prod.snd = l := by
  induction l generalizing previous with
  | nil =>
      rfl
  | cons a l ih =>
      rw [withPrevious, List.map_cons, ih]

theorem withPrevious_append
    (previous : Option α) (l l' : List α) :
    withPrevious previous (l ++ l') =
      withPrevious previous l ++ withPrevious (l.getLast?.or previous) l' := by
  induction l generalizing previous with
  | nil =>
      rfl
  | cons a l ih =>
      rw [List.cons_append, withPrevious, withPrevious, ih, List.cons_append]
      cases l with
      | nil => rfl
      | cons b l =>
          rw [List.getLast?_cons_cons]
          cases hlast : (b :: l).getLast? with
          | none => simp at hlast
          | some c => rfl

/-- An element with what stands in front of it splits the list. -/
theorem exists_split_of_mem_withPrevious
    {l pre : List α} {p : Option α × α}
    (hp : p ∈ withPrevious pre.getLast? l) :
    ∃ before after, pre ++ l = before ++ p.2 :: after ∧ p.1 = before.getLast? := by
  induction l generalizing pre with
  | nil =>
      cases hp
  | cons a l ih =>
      rw [withPrevious, List.mem_cons] at hp
      rcases hp with rfl | hp
      · exact ⟨pre, l, rfl, rfl⟩
      · have hlast : (pre ++ [a]).getLast? = some a := List.getLast?_concat
        rw [← hlast] at hp
        obtain ⟨before, after, hsplit, hprevious⟩ := ih hp
        exact ⟨before, after, by rw [← hsplit, List.append_assoc]; rfl, hprevious⟩

theorem firstBy_mem
    {before : α → α → Bool} {l : List α} {x : α}
    (h : firstBy before l = some x) :
    x ∈ l := by
  induction l using List.reverseRecOn generalizing x with
  | nil =>
      cases h
  | append_singleton l a ih =>
      rw [firstBy_snoc] at h
      unfold keepFirst at h
      split at h
      · cases h
        simp
      · rename_i b hb
        split at h
        · cases h
          simp
        · cases h
          exact List.mem_append_left _ (ih hb)

section Sorted

variable [LinearOrder κ] {key : α → κ} {before : α → α → Bool}

/-- `ORDER BY key`, and by `before` where the keys agree. -/
def keyBefore (key : α → κ) (before : α → α → Bool) (a b : α) : Prop :=
  key a < key b ∨ key a = key b ∧ before a b = true

/-- Among the elements of one key in front of `a`, the last one is the one in front of
`a`, if that has the key at all. -/
theorem firstBy_front
    {front : List α} {a : α}
    (hsorted : (front ++ [a]).Pairwise (keyBefore key before)) :
    firstBy (fun x y => before y x) (front.filter fun x => decide (key x = key a)) =
      front.getLast?.filter fun x => decide (key x = key a) := by
  induction front using List.reverseRecOn with
  | nil =>
      rfl
  | append_singleton front b _ =>
      have hfront : ∀ x ∈ front, keyBefore key before x b := by
        intro x hx
        exact List.pairwise_append.mp (List.pairwise_append.mp hsorted).1 |>.2.2 x hx b
          (List.mem_singleton.mpr rfl)
      have hb : keyBefore key before b a :=
        (List.pairwise_append.mp hsorted).2.2 b (by simp) a (List.mem_singleton.mpr rfl)
      rw [List.filter_append, List.getLast?_concat]
      by_cases hkey : key b = key a
      · have hsome : Option.filter (fun x => decide (key x = key a)) (some b) = some b :=
          Option.filter_some_pos (decide_eq_true hkey)
        rw [List.filter_singleton, decide_eq_true hkey, cond_true, firstBy_snoc, hsome]
        cases hbest : firstBy (fun x y => before y x)
            (front.filter fun x => decide (key x = key a)) with
        | none =>
            rfl
        | some c =>
            obtain ⟨hc, hckey⟩ := List.mem_filter.mp (firstBy_mem hbest)
            rcases hfront c hc with hlt | ⟨-, hlt⟩
            · rw [of_decide_eq_true hckey, hkey] at hlt
              exact absurd hlt (lt_irrefl _)
            · simp only [keepFirst, hlt, if_true]
      · have hlt : key b < key a := by
          rcases hb with hlt | ⟨heq, -⟩
          · exact hlt
          · exact absurd heq hkey
        have hnone : front.filter (fun x => decide (key x = key a)) = [] := by
          refine List.filter_eq_nil_iff.mpr fun x hx h => ?_
          have hle : key x ≤ key b := by
            rcases hfront x hx with hlt | ⟨heq, -⟩
            · exact le_of_lt hlt
            · exact le_of_eq heq
          exact absurd (of_decide_eq_true h) (ne_of_lt (lt_of_le_of_lt hle hlt))
        rw [hnone, List.filter_singleton, decide_eq_false hkey, cond_false, List.append_nil,
          firstBy_nil, Option.filter_some_neg (by simpa using hkey)]

/-- In a sorted list the loop finds, among the elements of one key, the one just before. -/
theorem withPrevious_eq_firstBy
    (hstrict : StrictOrder before)
    {l : List α} (hsorted : l.Pairwise (keyBefore key before))
    {p : Option α × α} (hp : p ∈ withPrevious none l) :
    p.1.filter (fun x => decide (key x = key p.2)) =
      firstBy (fun x y => before y x)
        (l.filter fun x => decide (key x = key p.2) && before x p.2) := by
  have hnil : ([] : List α).getLast? = none := rfl
  rw [← hnil] at hp
  obtain ⟨front, after, hsplit, hprevious⟩ := exists_split_of_mem_withPrevious hp
  rw [List.nil_append] at hsplit
  rw [hsplit] at hsorted
  have hparts : front ++ p.2 :: after = (front ++ [p.2]) ++ after := by simp
  have hfront : (front ++ [p.2]).Pairwise (keyBefore key before) := by
    rw [hparts] at hsorted
    exact (List.pairwise_append.mp hsorted).1
  have hkeep : front.filter (fun x => decide (key x = key p.2) && before x p.2) =
      front.filter fun x => decide (key x = key p.2) := by
    refine List.filter_congr fun x hx => ?_
    rcases (List.pairwise_append.mp hfront).2.2 x hx p.2 (List.mem_singleton.mpr rfl) with
      hlt | ⟨-, hbefore⟩
    · rw [decide_eq_false (ne_of_lt hlt), Bool.false_and]
    · rw [hbefore, Bool.and_true]
  have hdrop : (p.2 :: after).filter
      (fun x => decide (key x = key p.2) && before x p.2) = [] := by
    refine List.filter_eq_nil_iff.mpr fun x hx h => ?_
    rw [Bool.and_eq_true, decide_eq_true_eq] at h
    rcases List.mem_cons.mp hx with rfl | hx
    · rw [hstrict.irrefl] at h
      cases h.2
    · have hafter := (List.pairwise_cons.mp (List.pairwise_append.mp hsorted).2.1).1 x hx
      rcases hafter with hlt | ⟨-, hbefore⟩
      · exact absurd h.1 (ne_of_gt hlt)
      · have := hstrict.trans h.2 hbefore
        rw [hstrict.irrefl] at this
        cases this
  rw [hsplit, List.filter_append, hkeep, hdrop, List.append_nil, hprevious]
  exact (firstBy_front hfront).symm

end Sorted

end Lib
end Otelop
