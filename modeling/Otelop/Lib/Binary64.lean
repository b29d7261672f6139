import Mathlib.Tactic
import Mathlib.Data.Int.Log

/-!
# Doubles

A finite double is given by its bits and stands for a rational number.  Another number is
rounded to the nearest double, to the even one if there are two.

**Results.**
* `roundMagnitude_magnitude`: a number that is a double is rounded to that double.
* `nearest_roundMagnitude`: no other double is nearer.
* `roundMagnitude_error`: how far away it is at most.
* `toDouble_monotone`: rounding keeps the order.
* `magnitude_roundMagnitude_natCast_iff`: the natural numbers that are doubles are those of
  at most 53 significant bits.
-/

namespace Otelop
namespace Lib

/-! ### The numbers doubles stand for -/

/-- The bits without the sign. -/
def unsignedBits (bits : UInt64) : Nat := bits.toNat % 2 ^ 63

def isNegative (bits : UInt64) : Bool := decide (2 ^ 63 ≤ bits.toNat)

/-- The bits of the least magnitude that is not finite. -/
def infinityBits : Nat := 2047 * 2 ^ 52

/-- The significand, with the hidden bit of a normal number. -/
def significand (n : Nat) : Nat := if n / 2 ^ 52 = 0 then n else 2 ^ 52 + n % 2 ^ 52

/-- The power of two that the significand counts. -/
def binaryExponent (n : Nat) : ℤ := (n / 2 ^ 52 - 1 : Nat) - 1074

/-- The magnitude of a finite double with these bits. -/
def magnitude (n : Nat) : ℚ := significand n * 2 ^ binaryExponent n

/-- The number a finite double stands for. -/
def doubleValue (bits : UInt64) : ℚ :=
  if isNegative bits then -magnitude (unsignedBits bits) else magnitude (unsignedBits bits)

def withSign (negative : Bool) (n : Nat) : UInt64 :=
  UInt64.ofNat (if negative then 2 ^ 63 + n else n)

/-! ### Rounding -/

/-- The nearest natural number, the even one if there are two. -/
def roundHalfEven (x : ℚ) : Nat :=
  if x - ⌊x⌋₊ < 1 / 2 then ⌊x⌋₊
  else if 1 / 2 < x - ⌊x⌋₊ then ⌊x⌋₊ + 1
  else ⌊x⌋₊ + ⌊x⌋₊ % 2

/-- The power of two that the significand of a double near `a` counts. -/
def roundingExponent (a : ℚ) : ℤ := max (Int.log 2 a - 52) (-1074)

/-- The bits of the double nearest to a magnitude, as if exponents went on for ever. -/
def roundMagnitude (a : ℚ) : Nat :=
  if a = 0 then 0
  else (roundingExponent a + 1074).toNat * 2 ^ 52 + roundHalfEven (a / 2 ^ roundingExponent a)

/-! ### Bits and signs -/

/-- The bits below the sign. -/
theorem unsignedBits_withSign
    (negative : Bool) {n : Nat} (hn : n < 2 ^ 63) :
    unsignedBits (withSign negative n) = n := by
  rw [unsignedBits, withSign, UInt64.toNat_ofNat']
  cases negative <;> simp only [if_true, Bool.false_eq_true, if_false] <;> omega

/-- The sign bit. -/
theorem isNegative_withSign
    (negative : Bool) {n : Nat} (hn : n < 2 ^ 63) :
    isNegative (withSign negative n) = negative := by
  rw [isNegative, withSign, UInt64.toNat_ofNat']
  cases negative <;>
    simp only [if_true, Bool.false_eq_true, if_false, decide_eq_true_eq, decide_eq_false_iff_not]
    <;> omega

/-- Sign and magnitude bits make up the pattern. -/
theorem withSign_unsignedBits
    (bits : UInt64) :
    withSign (isNegative bits) (unsignedBits bits) = bits := by
  have hlt := bits.toNat_lt
  refine UInt64.toNat_inj.mp ?_
  rw [withSign, UInt64.toNat_ofNat', isNegative, unsignedBits]
  by_cases h : 2 ^ 63 ≤ bits.toNat
  · rw [decide_eq_true h, if_pos rfl]
    omega
  · rw [decide_eq_false h, if_neg Bool.false_ne_true]
    omega

theorem infinityBits_lt : infinityBits < 2 ^ 63 := by decide

/-- The sign decides whether the magnitude counts positive or negative. -/
theorem doubleValue_withSign
    (negative : Bool) {n : Nat} (hn : n < 2 ^ 63) :
    doubleValue (withSign negative n) = if negative then -magnitude n else magnitude n := by
  rw [doubleValue, unsignedBits_withSign negative hn, isNegative_withSign negative hn]

/-! ### The parts of a double -/

/-- Bits as a significand and the power of two that it counts, above the least one. -/
structure Parts (n k m : Nat) : Prop where
  bits : n = k * 2 ^ 52 + m
  short : m < 2 ^ 53
  normal : k = 0 ∨ 2 ^ 52 ≤ m

/-- Every pattern has an exponent and a significand. -/
theorem parts_significand (n : Nat) : Parts n (n / 2 ^ 52 - 1) (significand n) := by
  have hdiv := Nat.div_add_mod n (2 ^ 52)
  have hmod : n % 2 ^ 52 < 2 ^ 52 := Nat.mod_lt n (by decide)
  by_cases h : n / 2 ^ 52 = 0
  · rw [significand, if_pos h]
    exact ⟨by omega, by omega, Or.inl (by omega)⟩
  · rw [significand, if_neg h]
    exact ⟨by omega, by omega, Or.inr (by omega)⟩

/-- The magnitude of a significand at an exponent. -/
theorem magnitude_mul_add
    {k m : Nat} (hm : m ≤ 2 ^ 53) (h : k = 0 ∨ 2 ^ 52 ≤ m) :
    magnitude (k * 2 ^ 52 + m) = m * 2 ^ ((k : ℤ) - 1074) := by
  rcases lt_trichotomy m (2 ^ 52) with hlt | heq | hgt
  · have hk : k = 0 := by omega
    subst hk
    rw [magnitude, significand, binaryExponent, Nat.zero_mul, Nat.zero_add,
      Nat.div_eq_of_lt hlt, if_pos rfl]
  · subst heq
    have hdiv : (k * 2 ^ 52 + 2 ^ 52) / 2 ^ 52 = k + 1 := by omega
    have hmod : (k * 2 ^ 52 + 2 ^ 52) % 2 ^ 52 = 0 := by omega
    rw [magnitude, significand, binaryExponent, hdiv, hmod, if_neg (Nat.succ_ne_zero k),
      Nat.add_sub_cancel, Nat.add_zero]
  · rcases Nat.lt_or_eq_of_le hm with hlt | heq
    · have hdiv : (k * 2 ^ 52 + m) / 2 ^ 52 = k + 1 := by omega
      have hmod : 2 ^ 52 + (k * 2 ^ 52 + m) % 2 ^ 52 = m := by omega
      rw [magnitude, significand, binaryExponent, hdiv, hmod, if_neg (Nat.succ_ne_zero k),
        Nat.add_sub_cancel]
    · -- A significand that was rounded up to the next power of two.
      subst heq
      have hdiv : (k * 2 ^ 52 + 2 ^ 53) / 2 ^ 52 = k + 2 := by omega
      have hmod : (k * 2 ^ 52 + 2 ^ 53) % 2 ^ 52 = 0 := by omega
      have hexp : ((k + 2 - 1 : Nat) : ℤ) - 1074 = 1 + ((k : ℤ) - 1074) := by omega
      rw [magnitude, significand, binaryExponent, hdiv, hmod, if_neg (Nat.succ_ne_zero (k + 1)),
        hexp, zpow_add₀ two_ne_zero]
      push_cast
      ring

/-- The magnitude is the significand, scaled by the exponent. -/
theorem Parts.magnitude_eq
    {n k m : Nat} (h : Parts n k m) :
    magnitude n = m * 2 ^ ((k : ℤ) - 1074) := by
  rw [h.bits]
  exact magnitude_mul_add h.short.le h.normal

theorem magnitude_zero : magnitude 0 = 0 := by
  rw [magnitude, significand, Nat.zero_div, if_pos rfl, Nat.cast_zero, zero_mul]

/-! ### Rounding to a natural number -/

/-- A natural number is rounded to itself. -/
theorem roundHalfEven_natCast (m : Nat) : roundHalfEven m = m := by
  rw [roundHalfEven, Nat.floor_natCast, sub_self, if_pos one_half_pos]

/-- Rounding goes down to the floor at most. -/
theorem floor_le_roundHalfEven (x : ℚ) : ⌊x⌋₊ ≤ roundHalfEven x := by
  rw [roundHalfEven]
  split_ifs <;> omega

/-- Rounding goes up to the next number at most. -/
theorem roundHalfEven_le_succ (x : ℚ) : roundHalfEven x ≤ ⌊x⌋₊ + 1 := by
  rw [roundHalfEven]
  split_ifs <;> omega

theorem le_roundHalfEven
    {x : ℚ} {m : Nat} (h : (m : ℚ) ≤ x) :
    m ≤ roundHalfEven x :=
  (Nat.le_floor h).trans (floor_le_roundHalfEven x)

theorem roundHalfEven_le
    {x : ℚ} {m : Nat} (hx : 0 ≤ x) (h : x < m) :
    roundHalfEven x ≤ m :=
  (roundHalfEven_le_succ x).trans ((Nat.floor_lt hx).mpr h)

/-- No natural number is nearer. -/
theorem nearest_roundHalfEven
    {x : ℚ} (hx : 0 ≤ x) (j : Nat) :
    |(roundHalfEven x : ℚ) - x| ≤ |(j : ℚ) - x| := by
  have hfloor := Nat.floor_le hx
  have hsucc := Nat.lt_floor_add_one x
  have hj : (j : ℚ) ≤ ⌊x⌋₊ ∨ (⌊x⌋₊ : ℚ) + 1 ≤ j := by
    rcases Nat.lt_or_ge ⌊x⌋₊ j with hlt | hge
    · exact Or.inr (by exact_mod_cast hlt)
    · exact Or.inl (by exact_mod_cast hge)
  have hdist : min (x - ⌊x⌋₊) (⌊x⌋₊ + 1 - x) ≤ |(j : ℚ) - x| := by
    rcases hj with hj | hj
    · rw [abs_of_nonpos (by linarith)]
      exact (min_le_left _ _).trans (by linarith)
    · rw [abs_of_nonneg (by linarith)]
      exact (min_le_right _ _).trans (by linarith)
  refine le_trans ?_ hdist
  rw [roundHalfEven]
  split_ifs with hlow hhigh
  · rw [abs_of_nonpos (by linarith), le_min_iff]
    exact ⟨by linarith, by linarith⟩
  · push_cast
    rw [abs_of_nonneg (by linarith), le_min_iff]
    exact ⟨by linarith, by linarith⟩
  · -- Halfway, both neighbours are as near.
    have hhalf : x - ⌊x⌋₊ = 1 / 2 := le_antisymm (not_lt.mp hhigh) (not_lt.mp hlow)
    rcases Nat.mod_two_eq_zero_or_one ⌊x⌋₊ with heven | hodd
    · rw [heven, Nat.add_zero, abs_of_nonpos (by linarith), le_min_iff]
      exact ⟨by linarith, by linarith⟩
    · rw [hodd]
      push_cast
      rw [abs_of_nonneg (by linarith), le_min_iff]
      exact ⟨by linarith, by linarith⟩

/-- Rounding is off by one half at most. -/
theorem roundHalfEven_error
    {x : ℚ} (hx : 0 ≤ x) :
    |(roundHalfEven x : ℚ) - x| ≤ 1 / 2 := by
  have hfloor := Nat.floor_le hx
  have hsucc := Nat.lt_floor_add_one x
  have hlow := nearest_roundHalfEven hx ⌊x⌋₊
  have hhigh := nearest_roundHalfEven hx (⌊x⌋₊ + 1)
  rw [abs_of_nonpos (a := (⌊x⌋₊ : ℚ) - x) (by linarith)] at hlow
  rw [Nat.cast_add_one, abs_of_nonneg (a := (⌊x⌋₊ : ℚ) + 1 - x) (by linarith)] at hhigh
  linarith

/-! ### Rounding to a double -/

/-- The exponent to which a number that is a double is rounded is its own. -/
theorem roundingExponent_mul_zpow
    {k m : Nat} (hpos : 0 < m) (hm : m < 2 ^ 53) (h : k = 0 ∨ 2 ^ 52 ≤ m) :
    roundingExponent (m * 2 ^ ((k : ℤ) - 1074)) = k - 1074 := by
  have ha : (0 : ℚ) < m * 2 ^ ((k : ℤ) - 1074) := by positivity
  have hupper : Int.log 2 ((m : ℚ) * 2 ^ ((k : ℤ) - 1074)) < 53 + ((k : ℤ) - 1074) := by
    rw [← Int.lt_zpow_iff_log_lt Nat.one_lt_two ha, Nat.cast_ofNat, zpow_add₀ two_ne_zero]
    exact mul_lt_mul_of_pos_right (by exact_mod_cast hm) (by positivity)
  rw [roundingExponent]
  rcases h with rfl | h
  · rw [max_eq_right (by omega)]
    rfl
  · have hlower : 52 + ((k : ℤ) - 1074) ≤ Int.log 2 ((m : ℚ) * 2 ^ ((k : ℤ) - 1074)) := by
      rw [← Int.zpow_le_iff_le_log Nat.one_lt_two ha, Nat.cast_ofNat, zpow_add₀ two_ne_zero]
      exact mul_le_mul_of_nonneg_right (by exact_mod_cast h) (by positivity)
    omega

/-- A number that is a double is rounded to its own pattern. -/
theorem Parts.roundMagnitude_eq
    {n k m : Nat} (h : Parts n k m) :
    roundMagnitude (m * 2 ^ ((k : ℤ) - 1074)) = n := by
  rcases Nat.eq_zero_or_pos m with rfl | hpos
  · have hk : k = 0 := by
      rcases h.normal with hk | hm
      · exact hk
      · exact absurd hm (by decide)
    rw [Nat.cast_zero, zero_mul, roundMagnitude, if_pos rfl, h.bits, hk, Nat.zero_mul]
  · have hne : (m : ℚ) * 2 ^ ((k : ℤ) - 1074) ≠ 0 := by positivity
    rw [roundMagnitude, if_neg hne, roundingExponent_mul_zpow hpos h.short h.normal,
      mul_div_cancel_right₀ _ (by positivity), roundHalfEven_natCast, sub_add_cancel,
      Int.toNat_natCast, h.bits]

/-- Rounding undoes reading the magnitude of a pattern. -/
theorem roundMagnitude_magnitude (n : Nat) : roundMagnitude (magnitude n) = n := by
  have h := parts_significand n
  rw [h.magnitude_eq]
  exact h.roundMagnitude_eq

section Positive

variable {a : ℚ}

/-- Scaled for rounding, a number has at most 53 bits before the point. -/
theorem scaled_lt (a : ℚ) : a / 2 ^ roundingExponent a < 2 ^ 53 := by
  have hlog : a < 2 ^ (Int.log 2 a + 1) := by
    exact_mod_cast Int.lt_zpow_succ_log_self Nat.one_lt_two a
  rw [div_lt_iff₀ (by positivity)]
  refine hlog.trans_le ?_
  have hexp : Int.log 2 a + 1 ≤ 53 + roundingExponent a := by
    rw [roundingExponent]
    omega
  calc (2 : ℚ) ^ (Int.log 2 a + 1) ≤ 2 ^ (53 + roundingExponent a) :=
        zpow_le_zpow_right₀ one_le_two hexp
    _ = 2 ^ 53 * 2 ^ roundingExponent a := by
        rw [zpow_add₀ two_ne_zero]
        rfl

/-- Unless the exponent is the least one, it has just as many. -/
theorem le_scaled
    (ha : 0 < a) (h : (roundingExponent a + 1074).toNat ≠ 0) :
    2 ^ 52 ≤ a / 2 ^ roundingExponent a := by
  have hlog : 2 ^ Int.log 2 a ≤ a := by
    exact_mod_cast Int.zpow_log_le_self Nat.one_lt_two ha
  have hexp : roundingExponent a = Int.log 2 a - 52 := by
    rw [roundingExponent] at h ⊢
    omega
  rw [le_div_iff₀ (by positivity)]
  refine le_trans (le_of_eq ?_) hlog
  rw [hexp, zpow_sub₀ two_ne_zero]
  norm_num
  ring

theorem toNat_roundingExponent (a : ℚ) :
    (((roundingExponent a + 1074).toNat : Nat) : ℤ) - 1074 = roundingExponent a := by
  rw [roundingExponent]
  omega

/-- The magnitude after rounding, as a rounded significand. -/
theorem magnitude_roundMagnitude
    (ha : 0 < a) :
    magnitude (roundMagnitude a) =
      roundHalfEven (a / 2 ^ roundingExponent a) * 2 ^ roundingExponent a := by
  have hx : 0 ≤ a / 2 ^ roundingExponent a := by positivity
  have hshort : roundHalfEven (a / 2 ^ roundingExponent a) ≤ 2 ^ 53 :=
    roundHalfEven_le hx (by exact_mod_cast scaled_lt _)
  have hnormal : (roundingExponent a + 1074).toNat = 0 ∨
      2 ^ 52 ≤ roundHalfEven (a / 2 ^ roundingExponent a) := by
    by_cases h : (roundingExponent a + 1074).toNat = 0
    · exact Or.inl h
    · exact Or.inr (le_roundHalfEven (by exact_mod_cast le_scaled ha h))
  rw [roundMagnitude, if_neg ha.ne', magnitude_mul_add hshort hnormal, toNat_roundingExponent]

/-- No double is nearer to a number than what it is rounded to. -/
theorem nearest_roundMagnitude
    (ha : 0 < a) (n : Nat) :
    |magnitude (roundMagnitude a) - a| ≤ |magnitude n - a| := by
  have hpos : (0 : ℚ) < 2 ^ roundingExponent a := by positivity
  have hx : 0 ≤ a / 2 ^ roundingExponent a := by positivity
  have hscale : ∀ y : ℚ, |y * 2 ^ roundingExponent a - a| =
      |y - a / 2 ^ roundingExponent a| * 2 ^ roundingExponent a := by
    intro y
    rw [← abs_of_pos hpos, ← abs_mul, abs_of_pos hpos, sub_mul, div_mul_cancel₀ _ hpos.ne']
  have hnat : ∀ j : Nat, |magnitude (roundMagnitude a) - a| ≤
      |(j : ℚ) * 2 ^ roundingExponent a - a| := by
    intro j
    rw [magnitude_roundMagnitude ha, hscale, hscale]
    exact mul_le_mul_of_nonneg_right (nearest_roundHalfEven hx j) hpos.le
  have hparts := parts_significand n
  have hexp := toNat_roundingExponent a
  rcases Nat.lt_or_ge (n / 2 ^ 52 - 1) (roundingExponent a + 1074).toNat with hlt | hge
  · -- A finer double is below the power of two that `a` is not below.
    refine (hnat (2 ^ 52)).trans ?_
    have hle := le_scaled ha (by omega)
    rw [le_div_iff₀ hpos] at hle
    have hbelow : magnitude n ≤ 2 ^ 52 * 2 ^ roundingExponent a := by
      have hstep : (2 : ℚ) ^ (53 + (((n / 2 ^ 52 - 1 : Nat) : ℤ) - 1074)) ≤
          2 ^ (52 + roundingExponent a) :=
        zpow_le_zpow_right₀ one_le_two (by omega)
      rw [zpow_add₀ two_ne_zero, zpow_add₀ two_ne_zero] at hstep
      rw [hparts.magnitude_eq]
      refine le_trans (mul_le_mul_of_nonneg_right ?_ (by positivity)) hstep
      exact_mod_cast hparts.short.le
    push_cast
    rw [abs_of_nonpos (by linarith), abs_of_nonpos (by linarith)]
    linarith
  · obtain ⟨t, ht⟩ := Nat.exists_eq_add_of_le hge
    have hn : magnitude n = ((significand n * 2 ^ t : Nat) : ℚ) * 2 ^ roundingExponent a := by
      have hsum : ((n / 2 ^ 52 - 1 : Nat) : ℤ) - 1074 = t + roundingExponent a := by omega
      rw [hparts.magnitude_eq, hsum, zpow_add₀ two_ne_zero, zpow_natCast]
      push_cast
      ring
    rw [hn]
    exact hnat _

end Positive

/-- Rounding is exact up to a bit behind the significand, or behind the least exponent. -/
theorem roundMagnitude_error
    {a : ℚ} (ha : 0 ≤ a) :
    |magnitude (roundMagnitude a) - a| ≤ a / 2 ^ 53 + 2 ^ (-1075 : ℤ) := by
  rcases ha.eq_or_lt with rfl | hpos
  · rw [roundMagnitude, if_pos rfl, magnitude_zero, sub_self, abs_zero]
    positivity
  have hunit : (0 : ℚ) < 2 ^ roundingExponent a := by positivity
  have hsplit : magnitude (roundMagnitude a) - a =
      (roundHalfEven (a / 2 ^ roundingExponent a) - a / 2 ^ roundingExponent a) *
        2 ^ roundingExponent a := by
    rw [magnitude_roundMagnitude hpos, sub_mul, div_mul_cancel₀ _ hunit.ne']
  have hhalf : |magnitude (roundMagnitude a) - a| ≤ 1 / 2 * 2 ^ roundingExponent a := by
    rw [hsplit, abs_mul, abs_of_pos hunit]
    exact mul_le_mul_of_nonneg_right (roundHalfEven_error (by positivity)) hunit.le
  refine hhalf.trans ?_
  rw [roundingExponent]
  rcases le_total (-1074) (Int.log 2 a - 52) with hnormal | hleast
  · have hlog : 2 ^ Int.log 2 a ≤ a := by
      exact_mod_cast Int.zpow_log_le_self Nat.one_lt_two hpos
    have hulp : 1 / 2 * (2 : ℚ) ^ (Int.log 2 a - 52) = 2 ^ Int.log 2 a / 2 ^ 53 := by
      rw [zpow_sub₀ two_ne_zero]
      norm_num
      ring
    rw [max_eq_left hnormal, hulp]
    have hle : (2 : ℚ) ^ Int.log 2 a / 2 ^ 53 ≤ a / 2 ^ 53 :=
      div_le_div_of_nonneg_right hlog (by positivity)
    have hleast : (0 : ℚ) ≤ 2 ^ (-1075 : ℤ) := by positivity
    linarith
  · have hulp : 1 / 2 * (2 : ℚ) ^ (-1074 : ℤ) = 2 ^ (-1075 : ℤ) := by
      rw [show (-1075 : ℤ) = -1074 - 1 by rfl, zpow_sub_one₀ two_ne_zero]
      ring
    rw [max_eq_right hleast, hulp]
    have hrest : 0 ≤ a / 2 ^ 53 := by positivity
    linarith

/-- A number up to 2^63 is not rounded to infinity. -/
theorem roundMagnitude_lt
    {a : ℚ} (ha : 0 ≤ a) (h : a ≤ 2 ^ 63) :
    roundMagnitude a < infinityBits := by
  rcases ha.eq_or_lt with rfl | hpos
  · rw [roundMagnitude, if_pos rfl]
    decide
  have hlog : Int.log 2 a < 64 := by
    rw [← Int.lt_zpow_iff_log_lt Nat.one_lt_two hpos]
    refine h.trans_lt ?_
    norm_num
  have hshort : roundHalfEven (a / 2 ^ roundingExponent a) ≤ 2 ^ 53 :=
    roundHalfEven_le (by positivity) (by exact_mod_cast scaled_lt _)
  have hexp : (roundingExponent a + 1074).toNat ≤ 1085 := by
    rw [roundingExponent]
    omega
  rw [roundMagnitude, if_neg hpos.ne', infinityBits]
  omega

/-- A short significand at an exponent is not rounded. -/
theorem magnitude_roundMagnitude_mul_zpow
    {m : Nat} (hm : m < 2 ^ 53) {e : ℤ} (he : -1074 ≤ e) :
    magnitude (roundMagnitude (m * 2 ^ e)) = m * 2 ^ e := by
  rcases Nat.eq_zero_or_pos m with rfl | hpos
  · rw [Nat.cast_zero, zero_mul, roundMagnitude, if_pos rfl, magnitude_zero]
  have ha : (0 : ℚ) < m * 2 ^ e := by positivity
  have hlog : Int.log 2 ((m : ℚ) * 2 ^ e) < 53 + e := by
    rw [← Int.lt_zpow_iff_log_lt Nat.one_lt_two ha, Nat.cast_ofNat, zpow_add₀ two_ne_zero]
    exact mul_lt_mul_of_pos_right (by exact_mod_cast hm) (by positivity)
  have hexp : roundingExponent ((m : ℚ) * 2 ^ e) ≤ e := by
    rw [roundingExponent]
    omega
  obtain ⟨t, ht⟩ := Int.eq_ofNat_of_zero_le (sub_nonneg.mpr hexp)
  have hscaled : (m : ℚ) * 2 ^ e / 2 ^ roundingExponent ((m : ℚ) * 2 ^ e) =
      ((m * 2 ^ t : Nat) : ℚ) := by
    have hsum : e = t + roundingExponent ((m : ℚ) * 2 ^ e) := by omega
    have hpow : (2 : ℚ) ^ e = 2 ^ t * 2 ^ roundingExponent ((m : ℚ) * 2 ^ e) := by
      rw [← zpow_natCast, ← zpow_add₀ two_ne_zero, ← hsum]
    rw [div_eq_iff (by positivity)]
    push_cast
    rw [mul_assoc, ← hpow]
  rw [magnitude_roundMagnitude ha, hscaled, roundHalfEven_natCast, ← hscaled,
    div_mul_cancel₀ _ (by positivity)]

/-- The double nearest to a number, as a number. -/
def toDouble (q : ℚ) : ℚ :=
  if q < 0 then -magnitude (roundMagnitude (-q)) else magnitude (roundMagnitude q)

/-- A number with 53 bits and no exponent below the least one is a double. -/
theorem toDouble_mul_zpow
    {m : Nat} (hm : m < 2 ^ 53) {e : ℤ} (he : -1074 ≤ e) :
    toDouble (m * 2 ^ e) = m * 2 ^ e := by
  have hnonneg : ¬ (m : ℚ) * 2 ^ e < 0 := not_lt.mpr (by positivity)
  rw [toDouble, if_neg hnonneg, magnitude_roundMagnitude_mul_zpow hm he]

theorem toDouble_of_nonneg
    {q : ℚ} (hq : 0 ≤ q) :
    toDouble q = magnitude (roundMagnitude q) := by
  rw [toDouble, if_neg (not_lt.mpr hq)]

/-- Rounding keeps the order. -/
theorem toDouble_monotone : Monotone toDouble := by
  have hpos : ∀ {q r : ℚ}, 0 < q → q ≤ r →
      magnitude (roundMagnitude q) ≤ magnitude (roundMagnitude r) := by
    intro q r hq hle
    by_contra hlt
    have hnearq := nearest_roundMagnitude hq (roundMagnitude r)
    have hnearr := nearest_roundMagnitude (hq.trans_le hle) (roundMagnitude q)
    -- the middle of the two is not above `q` and not below `r`
    have hsame : q = r := by
      grind
    exact hlt (hsame ▸ le_rfl)
  have hzero : ∀ r : ℚ, 0 ≤ magnitude (roundMagnitude r) := fun r => by
    rw [magnitude]
    positivity
  have hround : roundMagnitude 0 = 0 := by
    rw [roundMagnitude, if_pos rfl]
  intro q r hle
  rcases lt_trichotomy q 0 with hq | rfl | hq
  · rw [toDouble, if_pos hq]
    rcases lt_trichotomy r 0 with hr | rfl | hr
    · rw [toDouble, if_pos hr]
      exact neg_le_neg (hpos (neg_pos.mpr hr) (neg_le_neg hle))
    · rw [toDouble_of_nonneg le_rfl]
      linarith [hzero (-q), hzero 0]
    · rw [toDouble_of_nonneg hr.le]
      linarith [hzero (-q), hzero r]
  · rw [toDouble_of_nonneg le_rfl, toDouble_of_nonneg hle, hround, magnitude_zero]
    exact hzero r
  · rw [toDouble_of_nonneg hq.le, toDouble_of_nonneg (hq.le.trans hle)]
    exact hpos hq hle

/-- A power of two stays a lower bound. -/
theorem zpow_le_toDouble
    {q : ℚ} {e : ℤ} (he : -1074 ≤ e) (h : 2 ^ e ≤ q) :
    2 ^ e ≤ toDouble q := by
  have hq : 0 < q := lt_of_lt_of_le (by positivity) h
  have hone : magnitude (roundMagnitude ((1 : Nat) * 2 ^ e)) = (1 : Nat) * 2 ^ e :=
    magnitude_roundMagnitude_mul_zpow (by decide) he
  have hnear := nearest_roundMagnitude hq (roundMagnitude ((1 : Nat) * 2 ^ e))
  rw [hone, Nat.cast_one, one_mul, abs_of_nonpos (a := 2 ^ e - q) (by linarith)] at hnear
  rw [toDouble_of_nonneg hq.le]
  linarith [neg_abs_le (magnitude (roundMagnitude q) - q)]

/-- A double is at most twice the number it was rounded from. -/
theorem toDouble_le_two_mul
    {q : ℚ} (hq : 0 < q) :
    toDouble q ≤ 2 * q := by
  have hnear := nearest_roundMagnitude hq 0
  rw [magnitude_zero, zero_sub, abs_neg, abs_of_pos hq] at hnear
  rw [toDouble_of_nonneg hq.le]
  linarith [le_abs_self (magnitude (roundMagnitude q) - q)]

section Halves

variable {n : Nat}

/-- A double that is not subnormal has a bit to spare. -/
theorem exists_halved
    (h : 2 ^ (-1021 : ℤ) ≤ magnitude n) :
    ∃ m : Nat, m < 2 ^ 53 ∧ ∃ e : ℤ, -1074 ≤ e ∧ magnitude n = m * 2 ^ (e + 1) := by
  have hparts := parts_significand n
  refine ⟨significand n, hparts.short, ((n / 2 ^ 52 - 1 : Nat) : ℤ) - 1075, ?_, ?_⟩
  · by_contra hlow
    have hzero : n / 2 ^ 52 - 1 = 0 := by omega
    have hbound : magnitude n < 2 ^ (-1021 : ℤ) := by
      have hsplit : (2 : ℚ) ^ (-1021 : ℤ) = 2 ^ 53 * 2 ^ (-1074 : ℤ) := by
        rw [← zpow_natCast, ← zpow_add₀ two_ne_zero]
        rfl
      rw [hparts.magnitude_eq, hzero, hsplit]
      exact mul_lt_mul_of_pos_right (by exact_mod_cast hparts.short) (by positivity)
    exact absurd h (not_le.mpr hbound)
  · have hexp : ((n / 2 ^ 52 - 1 : Nat) : ℤ) - 1075 + 1 =
        ((n / 2 ^ 52 - 1 : Nat) : ℤ) - 1074 := by omega
    rw [hparts.magnitude_eq, hexp]

/-- Halving a double is exact, unless it is among the least. -/
theorem toDouble_half
    (h : 2 ^ (-1021 : ℤ) ≤ magnitude n) :
    toDouble (magnitude n / 2) = magnitude n / 2 := by
  obtain ⟨m, hm, e, he, hn⟩ := exists_halved h
  have hhalf : magnitude n / 2 = m * 2 ^ e := by
    rw [hn, zpow_add_one₀ two_ne_zero]
    ring
  rw [hhalf, toDouble_mul_zpow hm he]

/-- What is left above half of it, rounded down, is a double as well. -/
theorem toDouble_sub_floor_half
    (h : 2 ^ (-1021 : ℤ) ≤ magnitude n) :
    toDouble (magnitude n - ⌊magnitude n / 2⌋) = magnitude n - ⌊magnitude n / 2⌋ := by
  obtain ⟨m, hm, e, he, hn⟩ := exists_halved h
  have hhalf : magnitude n / 2 = m * 2 ^ e := by
    rw [hn, zpow_add_one₀ two_ne_zero]
    ring
  rcases le_or_gt 0 e with hnonneg | hneg
  · obtain ⟨t, rfl⟩ := Int.eq_ofNat_of_zero_le hnonneg
    have hfloor : ((⌊magnitude n / 2⌋ : ℤ) : ℚ) = magnitude n / 2 := by
      have hint : magnitude n / 2 = ((m * 2 ^ t : ℤ) : ℚ) := by
        rw [hhalf, zpow_natCast]
        push_cast
        rfl
      rw [hint, Int.floor_intCast]
    rw [hfloor, sub_half, hhalf, toDouble_mul_zpow hm he]
  · obtain ⟨t, ht⟩ := Int.eq_ofNat_of_zero_le (show 0 ≤ -(e + 1) by omega)
    have hpow : (2 : ℚ) ^ (e + 1) * 2 ^ t = 1 := by
      rw [← zpow_natCast, ← zpow_add₀ two_ne_zero, ← ht, add_neg_cancel, zpow_zero]
    have hpos : 0 ≤ magnitude n / 2 := by
      rw [hhalf]
      positivity
    obtain ⟨b, hb⟩ := Int.eq_ofNat_of_zero_le (Int.floor_nonneg.mpr hpos)
    have hbelow : (b : ℚ) ≤ m * 2 ^ (e + 1) := by
      have hfloor : ((⌊magnitude n / 2⌋ : ℤ) : ℚ) ≤ magnitude n / 2 := Int.floor_le _
      rw [hb, Int.cast_natCast] at hfloor
      linarith
    have hle : b * 2 ^ t ≤ m := by
      have hcast : (b : ℚ) * 2 ^ t ≤ m := by
        refine (mul_le_mul_of_nonneg_right hbelow (by positivity)).trans (le_of_eq ?_)
        rw [mul_assoc, hpow, mul_one]
      exact_mod_cast hcast
    have hdiff : magnitude n - ⌊magnitude n / 2⌋ = ((m - b * 2 ^ t : Nat) : ℚ) * 2 ^ (e + 1) := by
      rw [hb, hn, Nat.cast_sub hle, sub_mul]
      push_cast
      rw [mul_right_comm, mul_assoc (b : ℚ), hpow, mul_one]
    rw [hdiff, toDouble_mul_zpow ((Nat.sub_le _ _).trans_lt hm) (by omega)]

end Halves

/-! ### Natural numbers that are doubles -/

/-- At most 53 significant bits. -/
def FitsDouble (a : Nat) : Prop := 2 ^ (Nat.log2 a - 52) ∣ a

instance (a : Nat) : Decidable (FitsDouble a) := inferInstanceAs (Decidable (_ ∣ _))

theorem fitsDouble_of_magnitude
    {n a : Nat} (h : magnitude n = a) :
    FitsDouble a := by
  have hparts := parts_significand n
  rw [hparts.magnitude_eq] at h
  rw [FitsDouble]
  rcases Nat.eq_zero_or_pos a with rfl | hpos
  · exact Nat.dvd_zero _
  rcases le_or_gt (((n / 2 ^ 52 - 1 : Nat) : ℤ) - 1074) 0 with hle | hgt
  · have hone : (2 : ℚ) ^ (((n / 2 ^ 52 - 1 : Nat) : ℤ) - 1074) ≤ 1 :=
      zpow_le_one_of_nonpos₀ one_le_two hle
    have hlt : a < 2 ^ 53 := by
      have hcast : (a : ℚ) ≤ significand n := by
        rw [← h]
        exact mul_le_of_le_one_right (Nat.cast_nonneg _) hone
      exact (Nat.cast_le.mp hcast).trans_lt hparts.short
    have hlog : Nat.log2 a < 53 := (Nat.log2_lt hpos.ne').mpr hlt
    rw [Nat.sub_eq_zero_of_le (by omega), pow_zero]
    exact Nat.one_dvd a
  · obtain ⟨t, ht⟩ := Int.eq_ofNat_of_zero_le hgt.le
    rw [ht, zpow_natCast] at h
    have heq : significand n * 2 ^ t = a := by exact_mod_cast h
    have hlt : a < 2 ^ (53 + t) := by
      rw [← heq, pow_add]
      exact Nat.mul_lt_mul_of_pos_right hparts.short (by positivity)
    have hlog : Nat.log2 a < 53 + t := (Nat.log2_lt hpos.ne').mpr hlt
    exact (Nat.pow_dvd_pow 2 (by omega)).trans (heq ▸ Nat.dvd_mul_left _ _)

theorem magnitude_roundMagnitude_of_fitsDouble
    {a : Nat} (h : FitsDouble a) :
    magnitude (roundMagnitude a) = a := by
  rcases Nat.eq_zero_or_pos a with rfl | hpos
  · rw [Nat.cast_zero, roundMagnitude, if_pos rfl, magnitude_zero]
  obtain ⟨m, hm⟩ := h
  have hshort : m < 2 ^ 53 := by
    have hexp : Nat.log2 a + 1 ≤ (Nat.log2 a - 52) + 53 := by omega
    have hlt : 2 ^ (Nat.log2 a - 52) * m < 2 ^ (Nat.log2 a - 52) * 2 ^ 53 := by
      rw [← hm, ← pow_add]
      exact Nat.lt_log2_self.trans_le (Nat.pow_le_pow_right Nat.two_pos hexp)
    exact Nat.lt_of_mul_lt_mul_left hlt
  have hcast : (a : ℚ) = m * 2 ^ ((Nat.log2 a - 52 : Nat) : ℤ) := by
    rw [zpow_natCast, mul_comm]
    exact_mod_cast hm
  rw [hcast]
  exact magnitude_roundMagnitude_mul_zpow hshort (by omega)

/-- The natural numbers that rounding keeps are those that fit. -/
theorem magnitude_roundMagnitude_natCast_iff
    {a : Nat} :
    magnitude (roundMagnitude a) = a ↔ FitsDouble a :=
  ⟨fitsDouble_of_magnitude, magnitude_roundMagnitude_of_fitsDouble⟩

theorem roundMagnitude_natCast_lt
    {a : Nat} (h : a ≤ 2 ^ 63) :
    roundMagnitude a < infinityBits :=
  roundMagnitude_lt (Nat.cast_nonneg a) (by exact_mod_cast h)

end Lib
end Otelop
