import Mathlib.Tactic
import Otelop.Lib.Bisection

/-!
# Distributions and their quantiles

A mass spread over an interval lies up to a point by some share, which a scale of the interval
measures.  The quantile of a distribution function is where it crosses a target, and bisection
finds it.

**Results.**
* `share_monotone`: the share grows with the point.
* `quantile_mono`: the quantile grows with the target.
* `exists_quantile_crossing`: it is close to a point where the function crosses the target.
* `crosses_everywhere`: outside the interval the function does not cross again.
-/

namespace Otelop
namespace Lib

universe u

section Share

/-- Where a point stands to an interval. -/
theorem share_cases {K : Type u} [LinearOrder K] (low high x : K) :
    x < low ∨ (low ≤ x ∧ (high ≤ x ∨ high ≤ low)) ∨ (low ≤ x ∧ x < high) := by
  rcases lt_or_ge x low with hlow | hlow
  · exact Or.inl hlow
  · rcases lt_or_ge x high with hhigh | hhigh
    · exact Or.inr (Or.inr ⟨hlow, hhigh⟩)
    · exact Or.inr (Or.inl ⟨hlow, Or.inl hhigh⟩)

variable {K : Type u} [Field K] [LinearOrder K]
variable (scale : K → K) {low high : K}

/-- The share of a mass on `[low, high]` that lies up to `x`.  A mass on a point lies there
at once. -/
def share (low high x : K) : K :=
  if x < low then 0
  else if high ≤ x ∨ high ≤ low then 1
  else (scale x - scale low) / (scale high - scale low)

theorem share_of_lt {x : K} (h : x < low) : share scale low high x = 0 := by
  rw [share, if_pos h]

theorem share_of_full {x : K} (hlow : low ≤ x) (h : high ≤ x ∨ high ≤ low) :
    share scale low high x = 1 := by
  rw [share, if_neg (not_lt.mpr hlow), if_pos h]

theorem share_of_inside {x : K} (hlow : low ≤ x) (hhigh : x < high) :
    share scale low high x = (scale x - scale low) / (scale high - scale low) := by
  rw [share, if_neg (not_lt.mpr hlow), if_neg]
  rintro (h | h)
  · exact absurd h (not_le.mpr hhigh)
  · exact absurd h (not_le.mpr (hlow.trans_lt hhigh))

variable {scale} [IsStrictOrderedRing K]

theorem share_mem_Icc (h : MonotoneOn scale (Set.Icc low high)) (x : K) :
    share scale low high x ∈ Set.Icc (0 : K) 1 := by
  rcases share_cases low high x with hlow | ⟨hlow, hfull⟩ | ⟨hlow, hhigh⟩
  · rw [share_of_lt scale hlow]
    exact ⟨le_refl 0, zero_le_one⟩
  · rw [share_of_full scale hlow hfull]
    exact ⟨zero_le_one, le_refl 1⟩
  · rw [share_of_inside scale hlow hhigh]
    have hle : low ≤ high := hlow.trans hhigh.le
    have hleft : scale low ≤ scale x := h ⟨le_refl low, hle⟩ ⟨hlow, hhigh.le⟩ hlow
    have hright : scale x ≤ scale high := h ⟨hlow, hhigh.le⟩ ⟨hle, le_refl high⟩ hhigh.le
    constructor
    · exact div_nonneg (sub_nonneg.mpr hleft) (sub_nonneg.mpr (hleft.trans hright))
    · exact div_le_one_of_le₀ (sub_le_sub_right hright _)
        (sub_nonneg.mpr (hleft.trans hright))

/-- The share grows with the point. -/
theorem share_monotone (h : MonotoneOn scale (Set.Icc low high)) :
    Monotone (share scale low high) := by
  intro x y hxy
  rcases share_cases low high x with hlow | ⟨hlow, hfull⟩ | ⟨hlow, hhigh⟩
  · rw [share_of_lt scale hlow]
    exact (share_mem_Icc h y).1
  · rw [share_of_full scale hlow hfull,
      share_of_full scale (hlow.trans hxy) (hfull.imp_left fun hx => hx.trans hxy)]
  · rcases lt_or_ge y high with hy | hy
    · rw [share_of_inside scale hlow hhigh, share_of_inside scale (hlow.trans hxy) hy]
      have hle : low ≤ high := hlow.trans hhigh.le
      have hscale : scale x ≤ scale y := h ⟨hlow, hhigh.le⟩ ⟨hlow.trans hxy, hy.le⟩ hxy
      have hwhole : scale low ≤ scale high := h ⟨le_refl low, hle⟩ ⟨hle, le_refl high⟩ hle
      exact div_le_div_of_nonneg_right (sub_le_sub_right hscale _) (sub_nonneg.mpr hwhole)
    · rw [share_of_full scale (hlow.trans hxy) (Or.inl hy)]
      exact (share_mem_Icc h x).2

end Share

section Quantile

variable {F : ℝ → ℝ} {low high : ℝ}

/-- Bisection for the point where `F` reaches the target. -/
noncomputable def quantile (F : ℝ → ℝ) (n : Nat) (low high target : ℝ) : ℝ :=
  bisection (fun x => decide (F x < target)) n low high

theorem quantile_mono (n : Nat) (h : low ≤ high) : Monotone (quantile F n low high) := by
  intro target target' hle
  refine bisection_mono (fun x hx => ?_) n h
  exact decide_eq_true ((of_decide_eq_true hx).trans_le hle)

/-- `F` is below the target before `c`, and not after it. -/
def CrossesTarget (F : ℝ → ℝ) (target c : ℝ) (s : Set ℝ) : Prop :=
  ∀ x ∈ s, (x < c → F x < target) ∧ (c < x → target ≤ F x)

/-- The quantile is close to a point of the interval where `F` crosses the target. -/
theorem exists_quantile_crossing
    (hF : Monotone F) (n : Nat) (h : low ≤ high) (target : ℝ) :
    ∃ c ∈ Set.Icc low high,
      |quantile F n low high target - c| ≤ (high - low) / 2 ^ n ∧
      CrossesTarget F target c (Set.Icc low high) := by
  have hanti : ∀ x y, x ≤ y → decide (F y < target) = true → decide (F x < target) = true :=
    fun x y hxy hy => decide_eq_true ((hF hxy).trans_lt (of_decide_eq_true hy))
  obtain ⟨c, hc⟩ := exists_crossing h hanti
  refine ⟨c, hc.1, abs_bisection_sub_le n hc, fun x hx => ⟨fun hlt => ?_, fun hlt => ?_⟩⟩
  · exact of_decide_eq_true ((hc.2 x hx).1 hlt)
  · exact not_lt.mp (of_decide_eq_false ((hc.2 x hx).2 hlt))

/-- A target the function passes inside the interval is not crossed outside of it. -/
theorem crosses_everywhere
    {target c : ℝ} (hc : c ∈ Set.Icc low high)
    (hcross : CrossesTarget F target c (Set.Icc low high))
    (hbefore : ∀ x, x < low → F x < target) (hafter : ∀ x, high < x → target ≤ F x) :
    CrossesTarget F target c Set.univ := by
  intro x _
  constructor
  · intro hlt
    rcases lt_or_ge x low with hlow | hlow
    · exact hbefore x hlow
    · exact (hcross x ⟨hlow, hlt.le.trans hc.2⟩).1 hlt
  · intro hlt
    rcases lt_or_ge high x with hhigh | hhigh
    · exact hafter x hhigh
    · exact (hcross x ⟨hc.1.trans hlt.le, hhigh⟩).2 hlt

end Quantile

end Lib
end Otelop
