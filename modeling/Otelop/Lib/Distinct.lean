import Mathlib.Tactic
import Mathlib.Data.List.Nodup

/-!
# Loops that skip what they have seen

A loop over a list that keeps a set of seen keys and skips an element whose key is in it.
`distinctBy key seen l` is what such a loop appends; it keeps the first element of every key
and the order of the list.

`FirstOfKey` says which element that is: the one with no element of its key before it.  Where
a program filters a list first, the first element of a key may be another one, which
`firstOfKey_filter` accounts for.

**Results.**
* `mem_distinctBy`: what is appended are the first elements of the keys not seen before.
* `distinctBy_keys_nodup`: their keys are distinct.
* `exists_mem_distinctBy`: and every key that was not seen is among them.
* `nodup_map_of_groups`: keys that are distinct within every group, and tell the group, are
  distinct.
-/

namespace Otelop
namespace Lib

universe u v

variable {α : Type u} {κ : Type v} [DecidableEq κ] {key : α → κ}

/-- The elements kept by a loop that starts with the keys `seen`. -/
def distinctBy (key : α → κ) : List κ → List α → List α
  | _, [] => []
  | seen, x :: xs =>
      if key x ∈ seen then distinctBy key seen xs
      else x :: distinctBy key (key x :: seen) xs

/-- `x` is the first element of `l` with its key. -/
def FirstOfKey (key : α → κ) (l : List α) (x : α) : Prop :=
  ∃ pre post, l = pre ++ x :: post ∧ ∀ y ∈ pre, key y ≠ key x

omit [DecidableEq κ] in
theorem firstOfKey_cons {a x : α} {l : List α} :
    FirstOfKey key (a :: l) x ↔ x = a ∨ key x ≠ key a ∧ FirstOfKey key l x := by
  constructor
  · rintro ⟨pre, post, heq, hpre⟩
    cases pre with
    | nil =>
        cases heq
        exact Or.inl rfl
    | cons b pre =>
        cases heq
        refine Or.inr ⟨(hpre a (by simp)).symm, pre, post, rfl, ?_⟩
        intro y hy
        exact hpre y (by simp [hy])
  · rintro (rfl | ⟨hne, pre, post, rfl, hpre⟩)
    · exact ⟨[], l, rfl, by simp⟩
    · refine ⟨a :: pre, post, rfl, ?_⟩
      intro y hy
      rcases List.mem_cons.mp hy with rfl | hy
      · exact hne.symm
      · exact hpre y hy

omit [DecidableEq κ] in
theorem FirstOfKey.mem {l : List α} {x : α} (h : FirstOfKey key l x) : x ∈ l := by
  obtain ⟨pre, post, rfl, -⟩ := h
  simp

omit [DecidableEq κ] in
/-- A filter that looks at the key only does not change which element is first. -/
theorem firstOfKey_filter
    {p : α → Bool} (hp : ∀ x y, key x = key y → p x = p y) {x : α} :
    ∀ {l : List α},
      FirstOfKey key (l.filter p) x ↔ FirstOfKey key l x ∧ p x = true
  | [] => by
      constructor
      · intro h
        cases h.mem
      · rintro ⟨h, -⟩
        cases h.mem
  | a :: l => by
      rw [List.filter_cons, firstOfKey_cons]
      split
      · rename_i ha
        rw [firstOfKey_cons, firstOfKey_filter hp]
        constructor
        · rintro (rfl | ⟨hne, hx, hpx⟩)
          · exact ⟨Or.inl rfl, ha⟩
          · exact ⟨Or.inr ⟨hne, hx⟩, hpx⟩
        · rintro ⟨rfl | ⟨hne, hx⟩, hpx⟩
          · exact Or.inl rfl
          · exact Or.inr ⟨hne, hx, hpx⟩
      · rename_i ha
        rw [firstOfKey_filter hp]
        constructor
        · rintro ⟨hx, hpx⟩
          refine ⟨Or.inr ⟨fun hk => ha ?_, hx⟩, hpx⟩
          rwa [← hp x a hk]
        · rintro ⟨rfl | ⟨-, hx⟩, hpx⟩
          · exact absurd hpx ha
          · exact ⟨hx, hpx⟩

/-- The loop keeps the first element of every key it had not seen. -/
theorem mem_distinctBy {x : α} :
    ∀ {l : List α} {seen : List κ},
      x ∈ distinctBy key seen l ↔ FirstOfKey key l x ∧ key x ∉ seen
  | [], seen => by
      constructor
      · intro h
        cases h
      · rintro ⟨h, -⟩
        cases h.mem
  | a :: l, seen => by
      unfold distinctBy
      rw [firstOfKey_cons]
      split
      · rename_i hseen
        rw [mem_distinctBy]
        constructor
        · rintro ⟨hx, hns⟩
          refine ⟨Or.inr ⟨?_, hx⟩, hns⟩
          intro heq
          exact hns (heq ▸ hseen)
        · rintro ⟨rfl | ⟨-, hx⟩, hns⟩
          · exact absurd hseen hns
          · exact ⟨hx, hns⟩
      · rename_i hseen
        rw [List.mem_cons, mem_distinctBy, List.mem_cons, not_or]
        constructor
        · rintro (rfl | ⟨hx, hne, hns⟩)
          · exact ⟨Or.inl rfl, hseen⟩
          · exact ⟨Or.inr ⟨hne, hx⟩, hns⟩
        · rintro ⟨rfl | ⟨hne, hx⟩, hns⟩
          · exact Or.inl rfl
          · exact Or.inr ⟨hx, hne, hns⟩

theorem distinctBy_sublist :
    ∀ (l : List α) (seen : List κ), (distinctBy key seen l).Sublist l
  | [], _ => List.Sublist.slnil
  | a :: l, seen => by
      unfold distinctBy
      split
      · exact (distinctBy_sublist l seen).cons a
      · exact (distinctBy_sublist l _).cons_cons a

theorem distinctBy_keys_nodup :
    ∀ (l : List α) (seen : List κ), ((distinctBy key seen l).map key).Nodup
  | [], _ => List.nodup_nil
  | a :: l, seen => by
      unfold distinctBy
      split
      · exact distinctBy_keys_nodup l seen
      · refine List.nodup_cons.mpr ⟨?_, distinctBy_keys_nodup l _⟩
        intro hmem
        obtain ⟨x, hx, hk⟩ := List.mem_map.mp hmem
        have := (mem_distinctBy.mp hx).2
        rw [hk] at this
        exact this (by simp)

/-- Every key that occurs and was not seen is kept once. -/
theorem exists_mem_distinctBy {y : α} :
    ∀ {l : List α} {seen : List κ}, y ∈ l → key y ∉ seen →
      ∃ x ∈ distinctBy key seen l, key x = key y
  | [], _, hy, _ => by cases hy
  | a :: l, seen, hy, hns => by
      unfold distinctBy
      split
      · rename_i hseen
        rcases List.mem_cons.mp hy with rfl | hy
        · exact absurd hseen hns
        · exact exists_mem_distinctBy hy hns
      · by_cases hk : key y = key a
        · exact ⟨a, by simp, hk.symm⟩
        · rcases List.mem_cons.mp hy with rfl | hy
          · exact absurd rfl hk
          · have hns' : key y ∉ key a :: seen := by simp [hk, hns]
            obtain ⟨x, hx, hxk⟩ := exists_mem_distinctBy hy hns'
            exact ⟨x, by simp [hx], hxk⟩

theorem nodup_eraseDups
    {α : Type*} [BEq α] [LawfulBEq α] (l : List α) :
    l.eraseDups.Nodup := by
  induction hlength : l.length using Nat.strong_induction_on generalizing l with
  | _ n ih =>
      cases l with
      | nil => exact List.nodup_nil
      | cons a l =>
          have hshorter : (l.filter fun b => !b == a).length < n := by
            rw [← hlength, List.length_cons]
            exact Nat.lt_succ_of_le (List.length_filter_le _ l)
          rw [List.eraseDups_cons, List.nodup_cons, List.mem_eraseDups]
          refine ⟨?_, ih _ hshorter _ rfl⟩
          simp

/-- Keys that are distinct in every group of a list, where equal keys are of one group, are
distinct. -/
theorem nodup_map_of_groups
    {β : Type v} {γ : Type*} [DecidableEq γ] {group : α → γ} {key : α → β} {l : List α}
    (hgroup : ∀ x ∈ l, ∀ y ∈ l, key x = key y → group x = group y)
    (h : ∀ x ∈ l, ((l.filter fun y => group y = group x).map key).Nodup) :
    (l.map key).Nodup := by
  induction l with
  | nil => exact List.nodup_nil
  | cons a l ih =>
      have htail : (l.map key).Nodup := by
        refine ih (fun x hx y hy => hgroup x (List.mem_cons_of_mem a hx) y
          (List.mem_cons_of_mem a hy)) fun x hx => ?_
        refine (h x (List.mem_cons_of_mem a hx)).sublist (List.Sublist.map key ?_)
        exact (List.sublist_cons_self a l).filter _
      refine List.nodup_cons.mpr ⟨fun hmem => ?_, htail⟩
      obtain ⟨x, hx, heq⟩ := List.mem_map.mp hmem
      have hsame := hgroup x (List.mem_cons_of_mem a hx) a List.mem_cons_self heq
      have hfirst := h a List.mem_cons_self
      rw [List.filter_cons_of_pos (by simp), List.map_cons, List.nodup_cons] at hfirst
      exact hfirst.1 (heq ▸ List.mem_map_of_mem (List.mem_filter.mpr ⟨hx, decide_eq_true hsame⟩))

end Lib
end Otelop
