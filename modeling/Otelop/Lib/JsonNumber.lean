import Mathlib.Data.List.TakeWhile
import Mathlib.Tactic
import Otelop.Lib.Binary64
import Otelop.Lib.JsonText

/-!
# Numbers in JSON texts

A number of the JSON grammar is read as the double nearest to it.  Integers are written in full;
how a double is written is left open, as long as it reads back.

The value of a literal is an exact rational, made of its digits and its exponent, and rounded
once.  An integer of 64 bits need not be a double; reading back what was written of it gives the
double nearest to it, which is the integer up to 2^53 and for some beyond.  A program that
prints the shortest decimals is one way to write doubles, and `formatExact` another.

**Results.**
* `parseFloat_formatInt`: an integer of 64 bits reads back as the nearest double.
* `doubleValue_nearestDouble_iff`: that double is the integer if it fits.
* `parseFloat_formatExact`: there is a number for every finite double that reads back as it.
-/

namespace Otelop
namespace Lib

def isExponentMark (c : Char) : Bool := decide (c = 'e') || decide (c = 'E')

/-- The exponent behind its mark. -/
def decimalExponent : List Char → ℤ
  | [] => 0
  | c :: digits =>
      if c = '-' then -(Nat.ofDigitChars 10 digits 0 : ℤ)
      else if c = '+' then Nat.ofDigitChars 10 digits 0
      else Nat.ofDigitChars 10 (c :: digits) 0

/-- The magnitude of a number in decimal notation, without its sign. -/
def decimalMagnitude (literal : List Char) : ℚ :=
  let mantissa := literal.takeWhile fun c => !isExponentMark c
  let exponent := (literal.dropWhile fun c => !isExponentMark c).drop 1
  let whole := mantissa.takeWhile fun c => c ≠ '.'
  let fraction := (mantissa.dropWhile fun c => c ≠ '.').drop 1
  Nat.ofDigitChars 10 (whole ++ fraction) 0 *
    10 ^ (decimalExponent exponent - fraction.length)

/-- `strconv.ParseFloat(s, 64)` of a number of the JSON grammar; `none` is `ErrRange`. -/
def parseFloat (literal : List Char) : Option UInt64 :=
  let negative := literal.head? = some '-'
  let n := roundMagnitude (decimalMagnitude (if negative then literal.drop 1 else literal))
  if n < infinityBits then some (withSign negative n) else none

/-- `strconv.FormatInt(z, 10)` -/
def formatInt (z : ℤ) : List Char :=
  if z < 0 then '-' :: Nat.toDigits 10 z.natAbs else Nat.toDigits 10 z.natAbs

/-- `float64(z)` -/
def nearestDouble (z : ℤ) : UInt64 := withSign (z < 0) (roundMagnitude z.natAbs)

/-! ### Digits -/

theorem not_mark_of_isDigit {c : Char} (hc : c.isDigit) : isExponentMark c = false := by
  rw [isExponentMark, Bool.or_eq_false_iff, decide_eq_false_iff_not, decide_eq_false_iff_not]
  constructor <;> rintro rfl <;> cases hc

theorem ne_of_isDigit {c d : Char} (hc : c.isDigit) (hd : d.isDigit = false) : c ≠ d := by
  rintro rfl
  rw [hd] at hc
  cases hc

theorem isDigit_of_mem_toDigits {n : Nat} {c : Char} (hc : c ∈ Nat.toDigits 10 n) : c.isDigit :=
  Nat.isDigit_of_mem_toDigits (by decide) (by decide) hc

/-- Digits, with an exponent or without one. -/
theorem decimalMagnitude_append
    {digits tail : List Char} (hdigits : ∀ c ∈ digits, c.isDigit)
    (htail : ∀ c ∈ tail.head?, isExponentMark c) :
    decimalMagnitude (digits ++ tail) =
      Nat.ofDigitChars 10 digits 0 * 10 ^ decimalExponent (tail.drop 1) := by
  have hmark : ∀ c ∈ digits, (!isExponentMark c) = true := by
    intro c hc
    rw [not_mark_of_isDigit (hdigits c hc)]
    rfl
  have hpoint : ∀ c ∈ digits, decide (c ≠ '.') = true := by
    intro c hc
    exact decide_eq_true (ne_of_isDigit (hdigits c hc) rfl)
  have htake : tail.takeWhile (fun c => !isExponentMark c) = [] ∧
      tail.dropWhile (fun c => !isExponentMark c) = tail := by
    cases tail with
    | nil => exact ⟨rfl, rfl⟩
    | cons c tail =>
        have hc : (!isExponentMark c) = false := by
          rw [htail c rfl]
          rfl
        rw [List.takeWhile_cons_of_neg (by rw [hc]; exact Bool.false_ne_true),
          List.dropWhile_cons_of_neg (by rw [hc]; exact Bool.false_ne_true)]
        exact ⟨rfl, rfl⟩
  have hwhole : digits.takeWhile (fun c => decide (c ≠ '.')) = digits :=
    List.takeWhile_eq_self_iff.mpr hpoint
  have hfraction : digits.dropWhile (fun c => decide (c ≠ '.')) = [] :=
    List.dropWhile_eq_nil_iff.mpr hpoint
  rw [decimalMagnitude, List.takeWhile_append_of_pos hmark, List.dropWhile_append_of_pos hmark,
    htake.1, htake.2, List.append_nil, hwhole, hfraction, List.drop_nil, List.append_nil, List.length_nil,
    Nat.cast_zero, sub_zero]

/-- Digits are read as the number they are written for. -/
theorem decimalMagnitude_toDigits (n : Nat) : decimalMagnitude (Nat.toDigits 10 n) = n := by
  have hall : ∀ c ∈ Nat.toDigits 10 n, c.isDigit := fun c hc => isDigit_of_mem_toDigits hc
  have hnil : ∀ c ∈ ([] : List Char).head?, isExponentMark c := fun c hc => by cases hc
  have h := decimalMagnitude_append hall hnil
  rw [List.append_nil, Nat.ofDigitChars_ten_toDigits] at h
  rw [h, List.drop_nil, decimalExponent, zpow_zero, mul_one]

/-- A sign before digits, with an exponent or without one. -/
def signed (negative : Bool) (text : List Char) : List Char :=
  if negative then '-' :: text else text

/-- A number is written as its sign and its digits. -/
theorem formatInt_eq (z : ℤ) : formatInt z = signed (z < 0) (Nat.toDigits 10 z.natAbs) := by
  rw [formatInt, signed]
  by_cases h : z < 0
  · rw [if_pos h, decide_eq_true h, if_pos rfl]
  · rw [if_neg h, decide_eq_false h, if_neg Bool.false_ne_true]

/-- A text with a sign is read as its magnitude with the sign. -/
theorem parseFloat_signed
    {text : List Char} (htext : text.head? ≠ some '-') (negative : Bool)
    (hfinite : roundMagnitude (decimalMagnitude text) < infinityBits) :
    parseFloat (signed negative text) =
      some (withSign negative (roundMagnitude (decimalMagnitude text))) := by
  cases negative with
  | true =>
      have hsign : (('-' :: text).head? = some '-') = True := eq_true rfl
      rw [signed, if_pos rfl, parseFloat]
      simp only [hsign, if_true, List.drop_one, List.tail_cons, decide_true]
      rw [if_pos hfinite]
  | false =>
      rw [signed, if_neg Bool.false_ne_true, parseFloat]
      simp only [htext, if_false, decide_false]
      rw [if_pos hfinite]

theorem head?_toDigits_ne (n : Nat) (rest : List Char) :
    (Nat.toDigits 10 n ++ rest).head? ≠ some '-' := by
  obtain ⟨c, cs, hdigits⟩ := List.exists_cons_of_ne_nil (@Nat.toDigits_ne_nil n 10)
  have hc : c.isDigit := isDigit_of_mem_toDigits (hdigits ▸ List.mem_cons_self)
  rw [hdigits, List.cons_append, List.head?_cons]
  intro h
  exact ne_of_isDigit hc rfl (Option.some.inj h)

/-- An integer is read as the double nearest to it. -/
theorem parseFloat_formatInt
    {z : ℤ} (hz : z.natAbs ≤ 2 ^ 63) :
    parseFloat (formatInt z) = some (nearestDouble z) := by
  have hhead := head?_toDigits_ne z.natAbs []
  rw [List.append_nil] at hhead
  have h := parseFloat_signed hhead (z < 0)
    (by rw [decimalMagnitude_toDigits]; exact roundMagnitude_natCast_lt hz)
  rw [decimalMagnitude_toDigits] at h
  rw [formatInt_eq, h, nearestDouble]

/-- The double nearest to an integer has its sign. -/
theorem doubleValue_nearestDouble
    {z : ℤ} (hz : z.natAbs ≤ 2 ^ 63) :
    doubleValue (nearestDouble z) =
      if z < 0 then -magnitude (roundMagnitude z.natAbs) else magnitude (roundMagnitude z.natAbs) := by
  have hlt := (roundMagnitude_natCast_lt hz).trans infinityBits_lt
  rw [nearestDouble, doubleValue_withSign _ hlt]
  simp only [decide_eq_true_eq]

/-- An integer is kept just when it fits a double. -/
theorem doubleValue_nearestDouble_iff
    {z : ℤ} (hz : z.natAbs ≤ 2 ^ 63) :
    doubleValue (nearestDouble z) = z ↔ FitsDouble z.natAbs := by
  rw [doubleValue_nearestDouble hz, ← magnitude_roundMagnitude_natCast_iff]
  have habs : ((z.natAbs : ℤ) : ℚ) = ((z.natAbs : Nat) : ℚ) := Int.cast_natCast _
  by_cases hneg : z < 0
  · have hcast : (z : ℚ) = -((z.natAbs : Nat) : ℚ) := by
      rw [← habs, ← Int.cast_neg, Int.ofNat_natAbs_of_nonpos hneg.le, neg_neg]
    rw [if_pos hneg, hcast, neg_inj]
  · have hcast : (z : ℚ) = ((z.natAbs : Nat) : ℚ) := by
      rw [← habs, Int.natAbs_of_nonneg (not_lt.mp hneg)]
    rw [if_neg hneg, hcast]

/-! ### A number for every finite double -/

/-- A magnitude in full, with an exponent if it is no integer. -/
def exactDecimal (n : Nat) : List Char :=
  let places := (-binaryExponent n).toNat
  if 0 ≤ binaryExponent n then
    Nat.toDigits 10 (significand n * 2 ^ (binaryExponent n).toNat)
  else if 2 ^ places ∣ significand n then Nat.toDigits 10 (significand n / 2 ^ places)
  else Nat.toDigits 10 (significand n * 5 ^ places) ++ 'e' :: '-' :: Nat.toDigits 10 places

def formatExact (bits : UInt64) : List Char :=
  signed (isNegative bits) (exactDecimal (unsignedBits bits))

/-- Digits, with a negative exponent or without one. -/
theorem exactDecimal_cases
    (n : Nat) :
    ∃ (digits : Nat) (places : Nat), magnitude n = digits * 10 ^ (-(places : ℤ)) ∧
      (exactDecimal n = Nat.toDigits 10 digits ∧ places = 0 ∨
        exactDecimal n = Nat.toDigits 10 digits ++ 'e' :: '-' :: Nat.toDigits 10 places) := by
  rw [exactDecimal, magnitude]
  by_cases hexp : 0 ≤ binaryExponent n
  · obtain ⟨t, ht⟩ := Int.eq_ofNat_of_zero_le hexp
    refine ⟨significand n * 2 ^ t, 0, ?_, Or.inl ⟨?_, rfl⟩⟩
    · rw [ht, zpow_natCast]
      push_cast
      rw [mul_one]
    · rw [if_pos hexp, ht, Int.toNat_natCast]
  · have hplaces : binaryExponent n = -(((-binaryExponent n).toNat : Nat) : ℤ) := by omega
    generalize hp : (-binaryExponent n).toNat = places at hplaces ⊢
    rw [if_neg hexp, hplaces, zpow_neg, zpow_natCast]
    by_cases hdvd : 2 ^ places ∣ significand n
    · obtain ⟨m, hm⟩ := hdvd
      refine ⟨m, 0, ?_, Or.inl ⟨?_, rfl⟩⟩
      · rw [hm]
        push_cast
        rw [mul_one, mul_comm, inv_mul_cancel_left₀ (by positivity)]
      · rw [hm, if_pos (Nat.dvd_mul_right _ _), Nat.mul_div_cancel_left m (by positivity)]
    · refine ⟨significand n * 5 ^ places, places, ?_, Or.inr ?_⟩
      · have hten : (10 : ℚ) ^ places = 2 ^ places * 5 ^ places := by
          rw [← mul_pow]
          norm_num
        rw [zpow_neg, zpow_natCast, hten, mul_inv]
        push_cast
        rw [mul_comm ((2 ^ places : ℚ)⁻¹) _, ← mul_assoc,
          mul_inv_cancel_right₀ (by positivity)]
      · rw [if_neg hdvd]

/-- The exact decimal of a double is its magnitude. -/
theorem decimalMagnitude_exactDecimal (n : Nat) :
    decimalMagnitude (exactDecimal n) = magnitude n := by
  obtain ⟨digits, places, hvalue, ⟨htext, hplaces⟩ | htext⟩ := exactDecimal_cases n
  · rw [htext, hvalue, hplaces, decimalMagnitude_toDigits, Nat.cast_zero, neg_zero, zpow_zero,
      mul_one]
  · rw [htext, hvalue, decimalMagnitude_append (fun c hc => isDigit_of_mem_toDigits hc)
      (fun c hc => by rw [← Option.some.inj hc]; rfl), Nat.ofDigitChars_ten_toDigits,
      List.drop_one, List.tail_cons, decimalExponent, if_pos rfl, Nat.ofDigitChars_ten_toDigits]

/-- A double that is written in full is read back. -/
theorem parseFloat_formatExact
    {bits : UInt64} (hbits : unsignedBits bits < infinityBits) :
    parseFloat (formatExact bits) = some bits := by
  have hhead : (exactDecimal (unsignedBits bits)).head? ≠ some '-' := by
    obtain ⟨digits, places, -, ⟨htext, -⟩ | htext⟩ := exactDecimal_cases (unsignedBits bits)
    · have h := head?_toDigits_ne digits []
      rwa [List.append_nil, ← htext] at h
    · rw [htext]
      exact head?_toDigits_ne digits _
  have hround : roundMagnitude (decimalMagnitude (exactDecimal (unsignedBits bits))) =
      unsignedBits bits := by
    rw [decimalMagnitude_exactDecimal, roundMagnitude_magnitude]
  have h := parseFloat_signed hhead (isNegative bits)
    (by rw [hround]; exact hbits)
  rw [hround, withSign_unsignedBits] at h
  exact h

/-! ### The grammar of these numbers -/

/-- Digits are scanned over. -/
theorem scanNumber_digits_append
    {digits tail : List Char} (hdigits : ∀ c ∈ digits, c.isDigit) {state : NumberState}
    (hstep : ∀ c : Char, c.isDigit → state.step c = some state)
    (htail : scanNumber state tail = some (tail, [])) :
    scanNumber state (digits ++ tail) = some (digits ++ tail, []) := by
  induction digits with
  | nil => exact htail
  | cons c digits ih =>
      rw [List.cons_append, scanNumber, hstep c (hdigits c List.mem_cons_self)]
      dsimp only
      rw [ih fun d hd => hdigits d (List.mem_cons_of_mem c hd)]
      rfl

/-- A positive number has no leading zero. -/
theorem head_toDigits_ne
    {n : Nat} (hn : 0 < n) :
    ∃ c cs, Nat.toDigits 10 n = c :: cs ∧ c ≠ '0' := by
  induction n using Nat.strong_induction_on with
  | _ n ih =>
      rcases Nat.lt_or_ge n 10 with hlt | hge
      · refine ⟨n.digitChar, [], Nat.toDigits_of_lt_base hlt, ?_⟩
        interval_cases n <;> decide
      · obtain ⟨c, cs, hdigits, hc⟩ := ih (n / 10) (by omega) (by omega)
        rw [Nat.toDigits_of_base_le (by decide) hge, hdigits]
        exact ⟨c, _, rfl, hc⟩

/-- What may follow the digits before a point. -/
def FollowsWhole (tail : List Char) : Prop :=
  scanNumber .zero tail = some (tail, []) ∧ scanNumber .whole tail = some (tail, [])

theorem followsWhole_nil : FollowsWhole [] := ⟨rfl, rfl⟩

theorem followsWhole_exponent (n : Nat) : FollowsWhole ('e' :: '-' :: Nat.toDigits 10 n) := by
  have hdigits : scanNumber .exponentSign (Nat.toDigits 10 n) =
      some (Nat.toDigits 10 n, []) := by
    obtain ⟨c, cs, heq⟩ := List.exists_cons_of_ne_nil (@Nat.toDigits_ne_nil n 10)
    have hall : ∀ d ∈ c :: cs, d.isDigit := fun d hd => isDigit_of_mem_toDigits (heq ▸ hd)
    have hstay : ∀ d : Char, d.isDigit →
        NumberState.step .exponentDigits d = some .exponentDigits := fun d hd => by
      rw [NumberState.step, if_pos hd]
    have hnil : scanNumber .exponentDigits [] = some ([], []) := rfl
    have hrest := scanNumber_digits_append
      (fun d hd => hall d (List.mem_cons_of_mem c hd)) hstay hnil
    rw [List.append_nil] at hrest
    rw [heq, scanNumber, NumberState.step, if_pos (hall c List.mem_cons_self)]
    dsimp only
    rw [hrest]
    rfl
  constructor <;>
  · rw [scanNumber]
    change ((scanNumber .exponent ('-' :: Nat.toDigits 10 n)).map _) = _
    rw [scanNumber]
    change (((scanNumber .exponentSign (Nat.toDigits 10 n)).map _).map _) = _
    rw [hdigits]
    rfl

/-- Digits with what may follow them are a number. -/
theorem isNumber_signed
    (negative : Bool) (n : Nat) {tail : List Char} (htail : FollowsWhole tail) :
    IsNumber (signed negative (Nat.toDigits 10 n ++ tail)) := by
  have hscan : ∀ state : NumberState, state = .start ∨ state = .minus →
      scanNumber state (Nat.toDigits 10 n ++ tail) = some (Nat.toDigits 10 n ++ tail, []) := by
    intro state hstate
    have hzero : state.step '0' = some .zero := by
      rcases hstate with rfl | rfl <;> rfl
    rcases Nat.eq_zero_or_pos n with rfl | hpos
    · rw [Nat.toDigits_zero, List.singleton_append, scanNumber, hzero]
      dsimp only
      rw [htail.1]
      rfl
    · obtain ⟨c, cs, heq, hc⟩ := head_toDigits_ne hpos
      have hall : ∀ d ∈ c :: cs, d.isDigit := fun d hd => isDigit_of_mem_toDigits (heq ▸ hd)
      have hdigit := hall c List.mem_cons_self
      have hwhole : state.step c = some .whole := by
        rcases hstate with rfl | rfl
        · rw [NumberState.step, if_neg (ne_of_isDigit hdigit rfl), if_neg hc, if_pos hdigit]
        · rw [NumberState.step, if_neg hc, if_pos hdigit]
      rw [heq, List.cons_append, scanNumber, hwhole]
      dsimp only
      rw [scanNumber_digits_append (fun d hd => hall d (List.mem_cons_of_mem c hd))
        (fun d hd => by rw [NumberState.step, if_pos hd]) htail.2]
      rfl
  cases negative with
  | true =>
      rw [signed, if_pos rfl, IsNumber, scanNumber]
      change ((scanNumber .minus (Nat.toDigits 10 n ++ tail)).map _) = _
      rw [hscan .minus (Or.inr rfl)]
      rfl
  | false =>
      rw [signed, if_neg Bool.false_ne_true]
      exact hscan .start (Or.inl rfl)

/-- An integer is written as a number. -/
theorem isNumber_formatInt (z : ℤ) : IsNumber (formatInt z) := by
  have h := isNumber_signed (z < 0) z.natAbs followsWhole_nil
  rwa [List.append_nil, ← formatInt_eq] at h

/-- A double is written as a number. -/
theorem isNumber_formatExact (bits : UInt64) : IsNumber (formatExact bits) := by
  rw [formatExact]
  obtain ⟨digits, places, -, ⟨htext, -⟩ | htext⟩ := exactDecimal_cases (unsignedBits bits)
  · have h := isNumber_signed (isNegative bits) digits followsWhole_nil
    rwa [List.append_nil, ← htext] at h
  · rw [htext]
    exact isNumber_signed (isNegative bits) digits (followsWhole_exponent places)

end Lib
end Otelop
