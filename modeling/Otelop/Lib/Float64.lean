import Mathlib.Tactic
import Otelop.Lib.Binary64

/-!
# Floating-point numbers of 64 bits

The finite doubles with the infinities and with what is not a number, their product, and their
conversion to an integer of 64 bits.

A finite double is a sign and the bits of its magnitude, which are ordered as the magnitudes are
(`Lib/Binary64.lean`).  A product is the exact product rounded to the nearest double, ties to
even.  What the conversion makes of a number that does not fit depends on the machine, so it is
a parameter of `toInt64`, about which nothing is assumed.

**Results.**
* `mul_error`: a rounded magnitude times an integer, rounded again, is off by less than one
  where the product is short.
* `toInt64_eq`: the conversion cuts off the fraction of what fits.
* `mul_ofNat`, `toInt64_mul`: the product with a constant, and its conversion.
-/

namespace Otelop
namespace Lib

/-- A `float64`; all that is not a number is one value. -/
inductive Float64 where
  | finite (negative : Bool) (n : Fin infinityBits)
  | infinity (negative : Bool)
  | nan
deriving DecidableEq

namespace Float64

/-- The float nearest to a magnitude with a sign. -/
def round (negative : Bool) (a : ℚ) : Float64 :=
  if h : roundMagnitude a < infinityBits then .finite negative ⟨roundMagnitude a, h⟩
  else .infinity negative

/-- A constant of the program. -/
def ofNat (n : Nat) : Float64 := round false n

/-- `x * y` -/
def mul : Float64 → Float64 → Float64
  | .nan, _ => .nan
  | _, .nan => .nan
  | .infinity s, .infinity t => .infinity (s ^^ t)
  | .infinity s, .finite t n => if n.val = 0 then .nan else .infinity (s ^^ t)
  | .finite s n, .infinity t => if n.val = 0 then .nan else .infinity (s ^^ t)
  | .finite s m, .finite t n => round (s ^^ t) (magnitude m * magnitude n)

end Float64

/-- A number with a sign. -/
def signedRat (negative : Bool) (a : ℚ) : ℚ := if negative then -a else a

/-- `int64(x)`: the fraction is cut off.  What an integer out of range becomes, and what is
no integer at all, is left to the implementation. -/
def Float64.toInt64 (outOfRange : Float64 → Int64) : Float64 → Int64
  | .finite negative n =>
      let z : ℤ := if negative then -⌊magnitude n⌋ else ⌊magnitude n⌋
      if -2 ^ 63 ≤ z ∧ z < 2 ^ 63 then Int64.ofInt z else outOfRange (.finite negative n)
  | x => outOfRange x

/-! ### Errors -/

theorem magnitude_nonneg (n : Nat) : 0 ≤ magnitude n := by
  rw [magnitude]
  positivity

/-- A number below 2^53 is a double. -/
theorem magnitude_roundMagnitude_of_lt
    {c : Nat} (hc : c < 2 ^ 53) :
    magnitude (roundMagnitude c) = c := by
  have h := magnitude_roundMagnitude_mul_zpow hc (e := 0) (by decide)
  rwa [zpow_zero, mul_one] at h

/-- The least magnitude counts for nothing. -/
theorem mul_least_lt
    {c : Nat} (hc : c < 2 ^ 53) :
    (c : ℚ) * 2 ^ (-1075 : ℤ) < 1 / 8 := by
  have hcast : (c : ℚ) < 2 ^ 53 := by exact_mod_cast hc
  have hleast : (2 : ℚ) ^ (-1075 : ℤ) ≤ 2 ^ (-56 : ℤ) := zpow_le_zpow_right₀ one_le_two (by decide)
  calc (c : ℚ) * 2 ^ (-1075 : ℤ) < 2 ^ 53 * 2 ^ (-1075 : ℤ) :=
        mul_lt_mul_of_pos_right hcast (by positivity)
    _ ≤ 2 ^ 53 * 2 ^ (-56 : ℤ) := mul_le_mul_of_nonneg_left hleast (by positivity)
    _ = 1 / 8 := by norm_num

/-- A rounded number times a small factor is off by less than one. -/
theorem mul_error
    {a : ℚ} (ha : 0 ≤ a) {c : Nat} (hpos : 0 < c) (hc : c < 2 ^ 53) (hshort : a * c < 2 ^ 51) :
    roundMagnitude (magnitude (roundMagnitude a) * c) < infinityBits ∧
      |magnitude (roundMagnitude (magnitude (roundMagnitude a) * c)) - a * c| < 1 := by
  have hcpos : (0 : ℚ) < c := by exact_mod_cast hpos
  have hcast : (1 : ℚ) ≤ c := by exact_mod_cast hpos
  have hleast := mul_least_lt hc
  have hleastOne : (2 : ℚ) ^ (-1075 : ℤ) < 1 / 8 := by
    refine lt_of_le_of_lt ?_ hleast
    exact le_mul_of_one_le_left (by positivity) hcast
  have hfactor : |magnitude (roundMagnitude a) * c - a * c| ≤ a * c / 2 ^ 53 + 1 / 8 := by
    have herror := mul_le_mul_of_nonneg_right (roundMagnitude_error ha) hcpos.le
    rw [← sub_mul, abs_mul, abs_of_pos hcpos]
    refine herror.trans ?_
    rw [add_mul, div_mul_eq_mul_div]
    linarith
  have hnonneg : 0 ≤ magnitude (roundMagnitude a) * c :=
    mul_nonneg (magnitude_nonneg _) hcpos.le
  have hquarter : a * c / 2 ^ 53 < 1 / 4 := by
    rw [div_lt_iff₀ (by positivity)]
    linarith
  have hproduct : magnitude (roundMagnitude a) * c < 2 ^ 51 + 1 := by
    linarith [le_abs_self (magnitude (roundMagnitude a) * c - a * c)]
  refine ⟨roundMagnitude_lt hnonneg (hproduct.le.trans (by norm_num)), ?_⟩
  have hround := roundMagnitude_error hnonneg
  have hsmall : magnitude (roundMagnitude a) * c / 2 ^ 53 < 3 / 8 := by
    rw [div_lt_iff₀ (by positivity)]
    linarith
  calc |magnitude (roundMagnitude (magnitude (roundMagnitude a) * c)) - a * c|
      ≤ |magnitude (roundMagnitude (magnitude (roundMagnitude a) * c)) -
            magnitude (roundMagnitude a) * c| +
          |magnitude (roundMagnitude a) * c - a * c| := abs_sub_le _ _ _
    _ < 1 := by linarith

/-! ### Integers -/

/-- A double in range is cut to the integer below its magnitude. -/
theorem toInt64_eq
    (outOfRange : Float64 → Int64) (negative : Bool) {n : Fin infinityBits}
    (h : magnitude n < 2 ^ 63) :
    ((Float64.finite negative n).toInt64 outOfRange).toInt =
      if negative then -⌊magnitude n⌋ else ⌊magnitude n⌋ := by
  have hlow : 0 ≤ ⌊magnitude n⌋ := Int.floor_nonneg.mpr (magnitude_nonneg n)
  have hhigh : ⌊magnitude n⌋ < 2 ^ 63 := Int.floor_lt.mpr (by exact_mod_cast h)
  rw [Float64.toInt64]
  cases negative with
  | true =>
      simp only [if_true]
      rw [if_pos (by omega), Int64.toInt_ofInt_of_le (by omega) (by omega)]
  | false =>
      simp only [Bool.false_eq_true, if_false]
      rw [if_pos (by omega), Int64.toInt_ofInt_of_le (by omega) (by omega)]

/-- The sign of an integer is that of the number, or it is zero. -/
def SignKept (z : ℤ) (q : ℚ) : Prop := (0 < z → 0 < q) ∧ (z < 0 → q < 0)

/-- Cutting off a fraction keeps the sign. -/
theorem signKept_floor
    (negative : Bool) {p a : ℚ} (hp : 0 ≤ p) (h : |p - a| < 1) :
    SignKept (if negative then -⌊p⌋ else ⌊p⌋) (signedRat negative a) := by
  have hlow : 0 ≤ ⌊p⌋ := Int.floor_nonneg.mpr hp
  have hpos : 0 < ⌊p⌋ → 0 < a := by
    intro hz
    have hone : (1 : ℚ) ≤ p := by exact_mod_cast Int.le_floor.mp hz
    linarith [le_abs_self (p - a)]
  cases negative with
  | true =>
      simp only [signedRat, if_true]
      exact ⟨fun hz => by omega, fun hz => neg_neg_of_pos (hpos (by omega))⟩
  | false =>
      simp only [signedRat, Bool.false_eq_true, if_false]
      exact ⟨hpos, fun hz => by omega⟩

/-- An error below one and a cut fraction are off by less than two together. -/
theorem abs_floor_sub_lt
    (negative : Bool) {p a : ℚ} (h : |p - a| < 1) :
    |((if negative then -⌊p⌋ else ⌊p⌋ : ℤ) : ℚ) - signedRat negative a| < 2 := by
  have hfloor : |(⌊p⌋ : ℚ) - a| < 2 := by
    have hlow := Int.floor_le p
    have hhigh := Int.lt_floor_add_one p
    rw [abs_lt] at h ⊢
    constructor <;> linarith
  cases negative with
  | true =>
      simp only [signedRat, if_true, Int.cast_neg]
      rw [neg_sub_neg, abs_sub_comm]
      exact hfloor
  | false =>
      simp only [signedRat, Bool.false_eq_true, if_false]
      exact hfloor

/-- A positive factor keeps the sign. -/
theorem signedRat_mul (negative : Bool) (a c : ℚ) :
    signedRat negative a * c = signedRat negative (a * c) := by
  cases negative with
  | true => exact neg_mul a c
  | false => rfl

theorem abs_signedRat
    (negative : Bool) {a : ℚ} (ha : 0 ≤ a) :
    |signedRat negative a| = a := by
  cases negative with
  | true =>
      change |-a| = a
      rw [abs_neg, abs_of_nonneg ha]
  | false => exact abs_of_nonneg ha

theorem ofNat_eq_finite
    {c : Nat} (hc : c < 2 ^ 53) :
    ∃ n : Fin infinityBits, Float64.ofNat c = .finite false n ∧ magnitude n = c := by
  have hlt : roundMagnitude (c : ℚ) < infinityBits :=
    roundMagnitude_natCast_lt (hc.le.trans (by decide))
  refine ⟨⟨_, hlt⟩, ?_, magnitude_roundMagnitude_of_lt hc⟩
  rw [Float64.ofNat, Float64.round, dif_pos hlt]

/-- A product of two doubles is the rounded product of their magnitudes. -/
theorem mul_finite
    (s t : Bool) (m n : Fin infinityBits) :
    (Float64.finite s m).mul (.finite t n) = .round (s ^^ t) (magnitude m * magnitude n) :=
  rfl

/-- The product of a rounded magnitude with an integer is finite where it is short. -/
theorem mul_ofNat
    (negative : Bool) {a : ℚ} (ha : 0 ≤ a) (n : Fin infinityBits) (hn : n.val = roundMagnitude a)
    {c : Nat} (hpos : 0 < c) (hc : c < 2 ^ 53) (hshort : a * c < 2 ^ 51) :
    ∃ p : Fin infinityBits, (Float64.finite negative n).mul (.ofNat c) = .finite negative p ∧
      |magnitude p - a * c| < 1 := by
  obtain ⟨m, hm, hvalue⟩ := ofNat_eq_finite hc
  obtain ⟨hlt, herror⟩ := mul_error ha hpos hc hshort
  refine ⟨⟨_, hlt⟩, ?_, herror⟩
  rw [hm, mul_finite, hn, hvalue, Bool.xor_false, Float64.round, dif_pos hlt]

/-- A rounded magnitude times an integer, converted to an integer. -/
theorem toInt64_mul
    (outOfRange : Float64 → Int64) (negative : Bool) {a : ℚ} (ha : 0 ≤ a)
    (n : Fin infinityBits) (hn : n.val = roundMagnitude a) {c : Nat} (hpos : 0 < c)
    (hc : c < 2 ^ 53) (hshort : a * c < 2 ^ 51) :
    SignKept (((Float64.finite negative n).mul (.ofNat c)).toInt64 outOfRange).toInt
        (signedRat negative (a * c)) ∧
      |((((Float64.finite negative n).mul (.ofNat c)).toInt64 outOfRange).toInt : ℚ) -
        signedRat negative (a * c)| < 2 := by
  obtain ⟨p, hproduct, herror⟩ := mul_ofNat negative ha n hn hpos hc hshort
  have hbelow : magnitude p < 2 ^ 63 := by
    have hone : magnitude p < 2 ^ 51 + 1 := by linarith [(abs_lt.mp herror).2]
    exact hone.trans (by norm_num)
  rw [hproduct, toInt64_eq outOfRange negative hbelow]
  exact ⟨signKept_floor negative (magnitude_nonneg p) herror, abs_floor_sub_lt negative herror⟩

end Lib
end Otelop
