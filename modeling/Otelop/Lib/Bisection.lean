import Mathlib.Tactic
import Mathlib.Algebra.Order.Archimedean.Real.Basic

/-!
# Bisection

Bisection halves an interval again and again and goes on with the half a test of its midpoint
names.

A test crosses at a point of an interval when it holds before that point and fails after it.
Bisection keeps such a point inside, so that what it returns is close to it.

**Results.**
* `bisect_width`: every round halves the interval.
* `bisect_crossing`: the interval keeps the crossing point.
* `bisection_mono`: the result grows with the test.
* `exists_crossing`: a test that cannot hold again after it failed crosses somewhere.
* `abs_bisection_sub_le`: how close the result is to the crossing point.
-/

namespace Otelop
namespace Lib

universe u v

section Rounds

variable {α : Type u} {β : Type v}

/-- The interval that is left after some rounds of bisection. -/
def bisect (mid : α → α → α) (below : α → Bool) : Nat → α → α → α × α
  | 0, low, high => (low, high)
  | n + 1, low, high =>
      if below (mid low high) then bisect mid below n (mid low high) high
      else bisect mid below n low (mid low high)

/-- Bisection commutes with a map that keeps midpoints and the test. -/
theorem bisect_map
    (f : α → β) {mid : α → α → α} {mid' : β → β → β} {below : α → Bool} {below' : β → Bool}
    (hmid : ∀ x y, mid' (f x) (f y) = f (mid x y)) (hbelow : ∀ x, below' (f x) = below x)
    (n : Nat) (low high : α) :
    bisect mid' below' n (f low) (f high) =
      (f (bisect mid below n low high).1, f (bisect mid below n low high).2) := by
  induction n generalizing low high with
  | zero =>
      rfl
  | succ n ih =>
      rw [bisect, bisect, hmid, hbelow]
      split
      · exact ih _ high
      · exact ih low _

end Rounds

section Field

variable {K : Type u} [Field K] [LinearOrder K] [IsStrictOrderedRing K]

instance atLeastTwo_halves : Nat.AtLeastTwo 2 := ⟨le_rfl⟩

/-- The midpoint of two ends. -/
def halfway (low high : K) : K := low + (high - low) / 2

theorem le_halfway {low high : K} (h : low ≤ high) : low ≤ halfway low high := by
  rw [halfway]
  linarith

theorem halfway_le {low high : K} (h : low ≤ high) : halfway low high ≤ high := by
  rw [halfway]
  linarith

/-- Every round halves the interval. -/
theorem bisect_width (below : K → Bool) (n : Nat) (low high : K) :
    (bisect halfway below n low high).2 - (bisect halfway below n low high).1 =
      (high - low) / 2 ^ n := by
  induction n generalizing low high with
  | zero =>
      simp [bisect]
  | succ n ih =>
      rw [bisect]
      split
      · rw [ih, halfway, pow_succ]
        field_simp
        ring
      · rw [ih, halfway, pow_succ]
        field_simp
        ring

/-- Bisection stays inside the interval. -/
theorem bisect_inside (below : K → Bool) (n : Nat) {low high : K} (h : low ≤ high) :
    low ≤ (bisect halfway below n low high).1 ∧
      (bisect halfway below n low high).1 ≤ (bisect halfway below n low high).2 ∧
      (bisect halfway below n low high).2 ≤ high := by
  induction n generalizing low high with
  | zero =>
      exact ⟨le_refl low, h, le_refl high⟩
  | succ n ih =>
      rw [bisect]
      split
      · obtain ⟨hlow, hmid, hhigh⟩ := ih (halfway_le h)
        exact ⟨(le_halfway h).trans hlow, hmid, hhigh⟩
      · obtain ⟨hlow, hmid, hhigh⟩ := ih (le_halfway h)
        exact ⟨hlow, hmid, hhigh.trans (halfway_le h)⟩

/-- The midpoint of what is left. -/
def bisection (below : K → Bool) (n : Nat) (low high : K) : K :=
  halfway (bisect halfway below n low high).1 (bisect halfway below n low high).2

theorem bisection_mem_Icc (below : K → Bool) (n : Nat) {low high : K} (h : low ≤ high) :
    bisection below n low high ∈ Set.Icc low high := by
  obtain ⟨hlow, hmid, hhigh⟩ := bisect_inside below n h
  exact ⟨hlow.trans (le_halfway hmid), (halfway_le hmid).trans hhigh⟩

/-- Where one test holds and the other fails they part: one result is left of the midpoint and
the other is right of it. -/
theorem bisection_mono
    {below below' : K → Bool} (himp : ∀ x, below x = true → below' x = true)
    (n : Nat) {low high : K} (h : low ≤ high) :
    bisection below n low high ≤ bisection below' n low high := by
  induction n generalizing low high with
  | zero =>
      exact le_refl _
  | succ n ih =>
      by_cases hbelow : below (halfway low high) = true
      · have hbelow' : below' (halfway low high) = true := himp _ hbelow
        simpa only [bisection, bisect, hbelow, hbelow', if_true] using ih (halfway_le h)
      · by_cases hbelow' : below' (halfway low high) = true
        · have hleft : bisection below n low (halfway low high) ≤ halfway low high :=
            (bisection_mem_Icc below n (le_halfway h)).2
          have hright : halfway low high ≤ bisection below' n (halfway low high) high :=
            (bisection_mem_Icc below' n (halfway_le h)).1
          have hparts := hleft.trans hright
          simpa only [bisection, bisect, hbelow, hbelow', if_true, Bool.false_eq_true, if_false]
            using hparts
        · simpa only [bisection, bisect, hbelow, hbelow', Bool.false_eq_true, if_false]
            using ih (le_halfway h)

/-- The test holds on the interval before `c`, and fails on it after `c`. -/
def CrossesAt (below : K → Bool) (low high c : K) : Prop :=
  c ∈ Set.Icc low high ∧
    ∀ x ∈ Set.Icc low high, (x < c → below x = true) ∧ (c < x → below x = false)

/-- The half bisection goes on with has the crossing point too. -/
theorem bisect_crossing
    {below : K → Bool} (n : Nat) {low high c : K} (h : CrossesAt below low high c) :
    c ∈ Set.Icc (bisect halfway below n low high).1 (bisect halfway below n low high).2 := by
  induction n generalizing low high with
  | zero =>
      exact h.1
  | succ n ih =>
      obtain ⟨⟨hlow, hhigh⟩, hcross⟩ := h
      have hle : low ≤ high := hlow.trans hhigh
      have hmid := hcross _ ⟨le_halfway hle, halfway_le hle⟩
      rw [bisect]
      split
      case isTrue hbelow =>
        refine ih ⟨⟨not_lt.mp fun hlt => ?_, hhigh⟩, fun x hx => ?_⟩
        · exact Bool.false_ne_true ((hmid.2 hlt).symm.trans hbelow)
        · exact hcross x ⟨(le_halfway hle).trans hx.1, hx.2⟩
      case isFalse hbelow =>
        refine ih ⟨⟨hlow, not_lt.mp fun hlt => ?_⟩, fun x hx => ?_⟩
        · exact hbelow (hmid.1 hlt)
        · exact hcross x ⟨hx.1, hx.2.trans (halfway_le hle)⟩

/-- The result is closer to the crossing point than the interval that is left is wide. -/
theorem abs_bisection_sub_le
    {below : K → Bool} (n : Nat) {low high c : K} (h : CrossesAt below low high c) :
    |bisection below n low high - c| ≤ (high - low) / 2 ^ n := by
  have hle : low ≤ high := h.1.1.trans h.1.2
  obtain ⟨-, hinside, -⟩ := bisect_inside below n hle
  obtain ⟨hleft, hright⟩ := bisect_crossing n h
  have hlow := le_halfway hinside
  have hhigh := halfway_le hinside
  rw [← bisect_width below n low high, bisection, abs_le]
  constructor <;> linarith

end Field

section Real

/-- A test that cannot hold again after it failed crosses somewhere. -/
theorem exists_crossing
    {below : ℝ → Bool} {low high : ℝ} (h : low ≤ high)
    (hanti : ∀ x y, x ≤ y → below y = true → below x = true) :
    ∃ c, CrossesAt below low high c := by
  let holds : Set ℝ := {x | x = low ∨ (x ∈ Set.Icc low high ∧ below x = true)}
  have hlow : low ∈ holds := Or.inl rfl
  have hbound : ∀ x ∈ holds, x ≤ high := by
    rintro x (rfl | ⟨hx, -⟩)
    · exact h
    · exact hx.2
  have hbdd : BddAbove holds := ⟨high, hbound⟩
  refine ⟨sSup holds, ⟨le_csSup hbdd hlow, csSup_le ⟨low, hlow⟩ hbound⟩, fun x hx => ⟨?_, ?_⟩⟩
  · intro hlt
    obtain ⟨y, hy, hxy⟩ := exists_lt_of_lt_csSup ⟨low, hlow⟩ hlt
    obtain rfl | ⟨-, hbelow⟩ := hy
    · exact absurd hxy (not_lt.mpr hx.1)
    · exact hanti x y hxy.le hbelow
  · intro hlt
    by_contra hbelow
    exact absurd (le_csSup hbdd (Or.inr ⟨hx, by simpa using hbelow⟩)) (not_le.mpr hlt)

end Real

end Lib
end Otelop
