import Mathlib.Tactic
import Mathlib.Data.List.MinMax

/-!
# Choosing a first element

`row_number() OVER (ORDER BY ...) = 1` and a loop that keeps the best element
seen so far both choose an element no other element comes before.  The order is
given as the comparison the code performs, a Boolean function `before`.

**Results.**
* `firstBy_isFirst`: the loop chooses a first element.
* `IsFirst.snoc`: what one more element does to the choice.
* `IsFirst.unique`: when distinct elements are comparable, the choice does not
  depend on the order in which the elements arrive.
-/

namespace Otelop
namespace Lib

universe u

variable {α : Type u}

/-- What a comparison needs so that keeping the better of two works. -/
structure StrictOrder (before : α → α → Bool) : Prop where
  irrefl : ∀ a, before a a = false
  trans : ∀ {a b c}, before a b = true → before b c = true → before a c = true

/-- `x` occurs in `l` and nothing in `l` comes before it. -/
def IsFirst (before : α → α → Bool) (l : List α) (x : α) : Prop :=
  x ∈ l ∧ ∀ y ∈ l, before y x = false

/-- Distinct elements of `l` are comparable. -/
def TotalOn (before : α → α → Bool) (l : List α) : Prop :=
  ∀ x ∈ l, ∀ y ∈ l, x ≠ y → before x y = true ∨ before y x = true

/-- One round of the loop that keeps the best element seen so far. -/
def keepFirst (before : α → α → Bool) (best : Option α) (x : α) : Option α :=
  match best with
  | none => some x
  | some b => if before x b then some x else some b

/-- The element chosen by scanning `l`. -/
def firstBy (before : α → α → Bool) (l : List α) : Option α :=
  l.foldl (keepFirst before) none

variable {before : α → α → Bool}

theorem IsFirst.singleton
    (h : StrictOrder before) (x : α) :
    IsFirst before [x] x := by
  refine ⟨by simp, ?_⟩
  intro y hy
  rw [List.mem_singleton.mp hy]
  exact h.irrefl x

theorem IsFirst.snoc
    (h : StrictOrder before)
    {l : List α} {x : α}
    (hx : IsFirst before l x) (a : α) :
    IsFirst before (l ++ [a]) (if before a x then a else x) := by
  obtain ⟨hmem, hall⟩ := hx
  split
  · rename_i hax
    refine ⟨by simp, ?_⟩
    intro y hy
    rcases List.mem_append.mp hy with hy | hy
    · by_contra hya
      have hyx := h.trans (by simpa using hya) hax
      rw [hall y hy] at hyx
      cases hyx
    · rw [List.mem_singleton.mp hy]
      exact h.irrefl a
  · rename_i hax
    refine ⟨by simp [hmem], ?_⟩
    intro y hy
    rcases List.mem_append.mp hy with hy | hy
    · exact hall y hy
    · rw [List.mem_singleton.mp hy]
      simpa using hax

theorem IsFirst.perm
    {l l' : List α} {x : α}
    (hp : l.Perm l')
    (hx : IsFirst before l x) :
    IsFirst before l' x :=
  ⟨hp.mem_iff.mp hx.1, fun y hy => hx.2 y (hp.mem_iff.mpr hy)⟩

/-- Two first elements of a list of comparable elements coincide. -/
theorem IsFirst.unique
    {l : List α} {x y : α}
    (ht : TotalOn before l)
    (hx : IsFirst before l x)
    (hy : IsFirst before l y) :
    x = y := by
  by_contra hne
  rcases ht x hx.1 y hy.1 hne with h | h
  · rw [hy.2 x hx.1] at h
    cases h
  · rw [hx.2 y hy.1] at h
    cases h

@[simp] theorem firstBy_nil : firstBy before ([] : List α) = none := rfl

theorem firstBy_snoc (l : List α) (a : α) :
    firstBy before (l ++ [a]) = keepFirst before (firstBy before l) a := by
  simp [firstBy, List.foldl_append]

@[simp] theorem firstBy_eq_none_iff {l : List α} :
    firstBy before l = none ↔ l = [] := by
  induction l using List.reverseRecOn with
  | nil => simp
  | append_singleton l a ih =>
      rw [firstBy_snoc]
      unfold keepFirst
      split
      · simp
      · split <;> simp

theorem firstBy_isFirst
    (h : StrictOrder before)
    {l : List α} {x : α}
    (hx : firstBy before l = some x) :
    IsFirst before l x := by
  induction l using List.reverseRecOn generalizing x with
  | nil => cases hx
  | append_singleton l a ih =>
      rw [firstBy_snoc] at hx
      unfold keepFirst at hx
      split at hx
      · rename_i hnone
        cases hx
        rw [firstBy_eq_none_iff.mp hnone]
        exact IsFirst.singleton h a
      · rename_i b hb
        have := (ih hb).snoc h a
        split at hx
        · rename_i hab
          cases hx
          rwa [if_pos hab] at this
        · rename_i hab
          cases hx
          rwa [if_neg hab] at this

/-- Any first element of a list of comparable elements is the chosen one. -/
theorem firstBy_eq_some_iff
    (h : StrictOrder before)
    {l : List α} (ht : TotalOn before l) {x : α} :
    firstBy before l = some x ↔ IsFirst before l x := by
  constructor
  · exact firstBy_isFirst h
  · intro hx
    cases hb : firstBy before l with
    | none =>
        have hnil := firstBy_eq_none_iff.mp hb
        subst hnil
        cases hx.1
    | some b =>
        rw [(firstBy_isFirst h hb).unique ht hx]

/-- Among comparable elements the order does not matter. -/
theorem firstBy_perm
    (h : StrictOrder before)
    {l l' : List α} (ht : TotalOn before l) (hperm : l.Perm l') :
    firstBy before l = firstBy before l' := by
  have ht' : TotalOn before l' := fun x hx y hy =>
    ht x (hperm.mem_iff.mpr hx) y (hperm.mem_iff.mpr hy)
  refine Option.ext fun x => ?_
  rw [firstBy_eq_some_iff h ht, firstBy_eq_some_iff h ht']
  exact ⟨IsFirst.perm hperm, IsFirst.perm hperm.symm⟩

/-- Choosing among images is choosing among the elements. -/
theorem firstBy_map {β : Type u} (f : β → α) (l : List β) :
    firstBy before (l.map f) = (firstBy (fun a b => before (f a) (f b)) l).map f := by
  induction l using List.reverseRecOn with
  | nil => rfl
  | append_singleton l a ih =>
      rw [List.map_append, List.map_cons, List.map_nil, firstBy_snoc, firstBy_snoc, ih]
      cases firstBy (fun a b => before (f a) (f b)) l with
      | none => rfl
      | some b =>
          simp only [keepFirst, Option.map_some]
          split <;> rfl

/-- The first of the greatest images is the image of the first of the greatest. -/
theorem argmax_map
    {β κ : Type*} [LinearOrder κ] (f : β → κ) (g : α → β) (l : List α) :
    (l.map g).argmax f = (l.argmax (f ∘ g)).map g := by
  induction l using List.reverseRecOn with
  | nil => rfl
  | append_singleton l a ih =>
      rw [List.map_append, List.map_cons, List.map_nil, List.argmax_concat, List.argmax_concat, ih]
      cases l.argmax (f ∘ g) with
      | none => rfl
      | some b =>
          simp only [Option.map_some, Function.comp_apply]
          split <;> rfl

/-- A change of scale that keeps the order keeps the choice. -/
theorem argmax_comp_strictMono
    {κ κ' : Type*} [LinearOrder κ] [LinearOrder κ'] {g : κ → κ'} (hg : StrictMono g) (f : α → κ)
    (l : List α) :
    l.argmax (g ∘ f) = l.argmax f := by
  induction l using List.reverseRecOn with
  | nil => rfl
  | append_singleton l a ih =>
      rw [List.argmax_concat, List.argmax_concat, ih]
      cases l.argmax f with
      | none => rfl
      | some b => simp only [Function.comp_apply, hg.lt_iff_lt]

section Lexicographic

variable {κ ι : Type*} [LinearOrder κ] [LinearOrder ι] {key : α → κ} {tie : α → ι}

/-- `ORDER BY key, tie` -/
def lexBefore (key : α → κ) (tie : α → ι) (a b : α) : Bool :=
  decide (key a < key b) || decide (key a = key b) && decide (tie a < tie b)

theorem lexBefore_iff {a b : α} :
    lexBefore key tie a b = true ↔
      key a < key b ∨ key a = key b ∧ tie a < tie b := by
  simp [lexBefore]

theorem lexBefore_strictOrder : StrictOrder (lexBefore key tie) where
  irrefl := by
    intro a
    simp [lexBefore]
  trans := by
    intro a b c hab hbc
    rw [lexBefore_iff] at *
    rcases hab with hab | ⟨hab, hab'⟩ <;> rcases hbc with hbc | ⟨hbc, hbc'⟩
    · exact Or.inl (hab.trans hbc)
    · exact Or.inl (hbc ▸ hab)
    · exact Or.inl (hab ▸ hbc)
    · exact Or.inr ⟨hab.trans hbc, hab'.trans hbc'⟩

/-- Elements with distinct ties are comparable, whatever the key. -/
theorem lexBefore_totalOn
    {l : List α}
    (htie : ∀ x ∈ l, ∀ y ∈ l, tie x = tie y → x = y) :
    TotalOn (lexBefore key tie) l := by
  intro x hx y hy hne
  have hties : tie x ≠ tie y := fun h => hne (htie x hx y hy h)
  rw [lexBefore_iff, lexBefore_iff]
  rcases lt_trichotomy (key x) (key y) with h | h | h
  · exact Or.inl (Or.inl h)
  · rcases lt_or_gt_of_ne hties with hlt | hgt
    · exact Or.inl (Or.inr ⟨h, hlt⟩)
    · exact Or.inr (Or.inr ⟨h.symm, hgt⟩)
  · exact Or.inr (Or.inl h)

/-- A first element has the smallest key. -/
theorem IsFirst.key_le
    {l : List α} {x y : α}
    (hx : IsFirst (lexBefore key tie) l x)
    (hy : y ∈ l) :
    key x ≤ key y := by
  by_contra hlt
  have := hx.2 y hy
  rw [← Bool.not_eq_true, lexBefore_iff] at this
  exact this (Or.inl (not_le.mp hlt))

end Lexicographic

end Lib
end Otelop
