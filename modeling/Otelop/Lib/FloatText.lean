import Mathlib.Data.Bool.AllAny
import Mathlib.Tactic
import Otelop.Lib.Float64

/-!
# Texts of floating-point numbers

The numerals that `strconv.ParseFloat` accepts, the number each stands for exactly, and the
float that is nearest to it.

A numeral is decimal or hexadecimal, with an exponent and with underscores between digits,
or one of the words for the infinities and for NaN.  The reader keeps every digit: a `Numeral`
is a sign, a mantissa of any length and an exponent, and `Numeral.value` is an exact rational.
Rounding is one step at the end (`Numeral.toFloat64`), to the nearest double with ties to
even, and a value beyond the largest double is an error of range.

**Results.**
* `parseFloat64_toLower`: the case of the letters does not matter.
* `isNumeralChar_of_readNumeral`: the characters that a numeral may have.
* `toFloat64_eq_finite`, `exists_toFloat64`: what a numeral is rounded to.
-/

namespace Otelop
namespace Lib

/-- What a text stands for, before anything is rounded. -/
inductive Numeral where
  | finite (negative : Bool) (mantissa base : Nat) (exponent : ℤ)
  | infinity (negative : Bool)
  | nan
deriving DecidableEq

/-- `ErrSyntax` and `ErrRange` -/
inductive NumError where
  | syntaxError
  | rangeError
deriving DecidableEq

/-! ### The syntax, of letters in lower case -/

/-- The sign, and what follows it. -/
def readSign : List Char → Bool × List Char
  | '-' :: rest => (true, rest)
  | '+' :: rest => (false, rest)
  | text => (false, text)

/-- `special` of a whole text -/
def special (text : List Char) : Option Numeral :=
  let (negative, rest) := readSign text
  if rest = "inf".toList ∨ rest = "infinity".toList then some (.infinity negative)
  else if text = "nan".toList then some .nan
  else none

/-- The value of a digit. -/
def digitValue (hex : Bool) (c : Char) : Option Nat :=
  if c.isDigit then some (c.toNat - '0'.toNat)
  else if hex ∧ 'a' ≤ c ∧ c ≤ 'f' then some (c.toNat - 'a'.toNat + 10)
  else none

/-- The digits read so far, as an integer. -/
structure Mantissa where
  value : Nat
  /-- How many digits are behind the point. -/
  places : Nat
  sawdot : Bool
  sawdigits : Bool

def Mantissa.zero : Mantissa where
  value := 0
  places := 0
  sawdot := false
  sawdigits := false

/-- The mantissa a text begins with, and the rest. -/
def readMantissa (hex : Bool) (m : Mantissa) : List Char → Mantissa × List Char
  | [] => (m, [])
  | c :: rest =>
      if c = '_' then readMantissa hex m rest
      else if c = '.' then
        if m.sawdot then (m, c :: rest) else readMantissa hex { m with sawdot := true } rest
      else match digitValue hex c with
        | none => (m, c :: rest)
        | some d =>
            readMantissa hex
              { value := m.value * (if hex then 16 else 10) + d
                places := if m.sawdot then m.places + 1 else m.places
                sawdot := m.sawdot
                sawdigits := true } rest

/-- The digits of an exponent, and the rest. -/
def readDigits (e : Nat) : List Char → Nat × List Char
  | [] => (e, [])
  | c :: rest =>
      if c.isDigit then readDigits (e * 10 + (c.toNat - '0'.toNat)) rest
      else if c = '_' then readDigits e rest
      else (e, c :: rest)

/-- An exponent behind its mark: its first character is a digit. -/
def readExponent (text : List Char) : Option (ℤ × List Char) :=
  let (negative, digits) := readSign text
  if digits.head?.any Char.isDigit then
    let (e, rest) := readDigits 0 digits
    some (if negative then -e else e, rest)
  else none

/-- What `underscoreOK` saw last. -/
inductive Saw where
  | start
  | digit
  | underscore
  | other
deriving DecidableEq

def underscoresFrom (hex : Bool) : Saw → List Char → Bool
  | saw, [] => decide (saw ≠ .underscore)
  | saw, c :: rest =>
      if (digitValue hex c).isSome then underscoresFrom hex .digit rest
      else if c = '_' then decide (saw = .digit) && underscoresFrom hex .underscore rest
      else decide (saw ≠ .underscore) && underscoresFrom hex .other rest

/-- `underscoreOK`: an underscore is between digits, or behind the base. -/
def underscoreOK (text : List Char) : Bool :=
  match (readSign text).2 with
  | '0' :: x :: rest =>
      if x = 'b' ∨ x = 'o' ∨ x = 'x' then underscoresFrom (decide (x = 'x')) .digit rest
      else underscoresFrom false .start ('0' :: x :: rest)
  | body => underscoresFrom false .start body

/-- Whether a numeral is hexadecimal, and its digits. -/
def readBase : List Char → Bool × List Char
  | '0' :: 'x' :: c :: rest => (true, c :: rest)
  | body => (false, body)

/-- The exponent behind a mantissa; a hexadecimal numeral must have one. -/
def readTail (hex : Bool) : List Char → Option (ℤ × List Char)
  | [] => if hex then none else some (0, [])
  | c :: rest =>
      if c = if hex then 'p' else 'e' then readExponent rest
      else if hex then none
      else some (0, c :: rest)

/-- `readFloat` of a whole text -/
def readFloat (text : List Char) : Option Numeral :=
  let (negative, body) := readSign text
  let (hex, digits) := readBase body
  let (m, tail) := readMantissa hex .zero digits
  if m.sawdigits then
    match readTail hex tail with
    | none => none
    | some (e, rest) =>
        if rest = [] ∧ underscoreOK text then
          if hex then some (.finite negative m.value 2 (e - 4 * m.places))
          else some (.finite negative m.value 10 (e - m.places))
        else none
  else none

/-- The numeral a text is, letters of either case. -/
def readNumeral (text : List Char) : Option Numeral :=
  let lowered := text.map Char.toLower
  (special lowered).or (readFloat lowered)

/-! ### Rounding -/

/-- The number a numeral stands for exactly, if it is one. -/
def Numeral.value : Numeral → Option ℚ
  | .finite negative mantissa base exponent =>
      some (signedRat negative (mantissa * (base : ℚ) ^ exponent))
  | _ => none

/-- The float nearest to a numeral; beyond the greatest float there is none. -/
def Numeral.toFloat64 : Numeral → Except NumError Float64
  | .finite negative mantissa base exponent =>
      match Float64.round negative (mantissa * (base : ℚ) ^ exponent) with
      | .infinity _ => .error .rangeError
      | x => .ok x
  | .infinity negative => .ok (.infinity negative)
  | .nan => .ok .nan

/-- `strconv.ParseFloat(s, 64)` -/
def parseFloat64 (text : List Char) : Except NumError Float64 :=
  match readNumeral text with
  | none => .error .syntaxError
  | some numeral => numeral.toFloat64

/-- A numeral that has a value is rounded to it. -/
theorem toFloat64_eq_finite
    {negative : Bool} {mantissa base : Nat} {exponent : ℤ} {x : Float64}
    (h : (Numeral.finite negative mantissa base exponent).toFloat64 = .ok x) :
    ∃ hfinite : roundMagnitude (mantissa * (base : ℚ) ^ exponent) < infinityBits,
      x = .finite negative ⟨_, hfinite⟩ := by
  rw [Numeral.toFloat64, Float64.round] at h
  by_cases hfinite : roundMagnitude (mantissa * (base : ℚ) ^ exponent) < infinityBits
  · rw [dif_pos hfinite] at h
    exact ⟨hfinite, (Except.ok.inj h).symm⟩
  · rw [dif_neg hfinite] at h
    cases h

/-- A numeral up to 2^63 has a value. -/
theorem exists_toFloat64
    {negative : Bool} {mantissa base : Nat} {exponent : ℤ}
    (h : (mantissa : ℚ) * (base : ℚ) ^ exponent ≤ 2 ^ 63) :
    ∃ x, (Numeral.finite negative mantissa base exponent).toFloat64 = .ok x := by
  have hfinite := roundMagnitude_lt (by positivity) h
  refine ⟨.finite negative ⟨_, hfinite⟩, ?_⟩
  rw [Numeral.toFloat64, Float64.round, dif_pos hfinite]

/-! ### Letters of either case -/

/-- Letters in upper case are moved up. -/
theorem toNat_toLower
    (c : Char) :
    c.toLower.toNat = c.toNat + 32 ∧ 65 ≤ c.toNat ∧ c.toNat ≤ 90 ∨ c.toLower = c := by
  unfold Char.toLower
  split_ifs with h
  · have hlow : 65 ≤ c.val.toNat := UInt32.le_iff_toNat_le.mp h.1
    have hhigh : c.val.toNat ≤ 90 := UInt32.le_iff_toNat_le.mp h.2
    refine Or.inl ⟨?_, hlow, hhigh⟩
    change (c.val + ('a'.val - 'A'.val)).toNat = c.val.toNat + 32
    rw [UInt32.toNat_add]
    change (c.val.toNat + 32) % 2 ^ 32 = c.val.toNat + 32
    omega
  · exact Or.inr rfl

/-- Lowering a letter twice is lowering it once. -/
theorem toLower_toLower (c : Char) : c.toLower.toLower = c.toLower := by
  rcases toNat_toLower c with ⟨hmoved, hlow, hhigh⟩ | hsame
  · rcases toNat_toLower c.toLower with ⟨-, -, hhigh'⟩ | hsame'
    · omega
    · exact hsame'
  · rw [hsame, hsame]

theorem toNat_le_toLower (c : Char) : c.toNat ≤ c.toLower.toNat := by
  rcases toNat_toLower c with ⟨hmoved, -, -⟩ | hsame
  · omega
  · rw [hsame]

/-- Letters of a numeral may be of either case. -/
theorem readNumeral_toLower (text : List Char) :
    readNumeral (text.map Char.toLower) = readNumeral text := by
  have hmap : (text.map Char.toLower).map Char.toLower = text.map Char.toLower := by
    rw [List.map_map]
    exact List.map_congr_left fun c _ => toLower_toLower c
  rw [readNumeral, readNumeral, hmap]

/-- A value does not depend on the case of the letters. -/
theorem parseFloat64_toLower (text : List Char) :
    parseFloat64 (text.map Char.toLower) = parseFloat64 text := by
  rw [parseFloat64, parseFloat64, readNumeral_toLower]

/-! ### The characters of a numeral -/

/-- A character that a numeral of lower-case letters may have. -/
def isNumeralChar (c : Char) : Bool :=
  c.isDigit || decide ('a' ≤ c ∧ c ≤ 'f') ||
    ['x', 'p', 'i', 'n', 't', 'y', '_', '.', '+', '-'].elem c

/-- A text, up to the rest that is left of it. -/
def ReadsNumeral (text rest : List Char) : Prop := ∀ c ∈ text, isNumeralChar c = true ∨ c ∈ rest

theorem ReadsNumeral.refl (text : List Char) : ReadsNumeral text text := fun _ hc => Or.inr hc

/-- One more character of a numeral is read. -/
theorem ReadsNumeral.cons
    {c : Char} {text rest : List Char} (hc : isNumeralChar c = true) (h : ReadsNumeral text rest) :
    ReadsNumeral (c :: text) rest := by
  intro d hd
  rcases List.mem_cons.mp hd with rfl | hd
  · exact Or.inl hc
  · exact h d hd

/-- What one reader leaves is read by the next. -/
theorem ReadsNumeral.trans
    {text middle rest : List Char} (h : ReadsNumeral text middle) (h' : ReadsNumeral middle rest) :
    ReadsNumeral text rest := by
  intro c hc
  rcases h c hc with hnumeral | hmem
  · exact Or.inl hnumeral
  · exact h' c hmem

theorem isNumeralChar_of_isDigit
    {c : Char} (h : c.isDigit = true) :
    isNumeralChar c = true := by
  rw [isNumeralChar, h, Bool.true_or, Bool.true_or]

/-- A digit is a character of numerals. -/
theorem isNumeralChar_of_digitValue
    {hex : Bool} {c : Char} {d : Nat} (h : digitValue hex c = some d) :
    isNumeralChar c = true := by
  rw [digitValue] at h
  split_ifs at h with hdigit hletter
  · exact isNumeralChar_of_isDigit hdigit
  · rw [isNumeralChar, decide_eq_true hletter.2, Bool.or_true, Bool.true_or]

/-- A sign is read off the front. -/
theorem readsNumeral_readSign
    (text : List Char) :
    ReadsNumeral text (readSign text).2 := by
  rw [readSign.eq_def]
  split
  · exact .cons rfl (.refl _)
  · exact .cons rfl (.refl _)
  · exact .refl _

/-- A base is read off the front. -/
theorem readsNumeral_readBase
    (text : List Char) :
    ReadsNumeral text (readBase text).2 := by
  rw [readBase.eq_def]
  split
  · exact .cons rfl (.cons rfl (.refl _))
  · exact .refl _

/-- A mantissa is read off the front. -/
theorem readsNumeral_readMantissa
    (hex : Bool) (m : Mantissa) (text : List Char) :
    ReadsNumeral text (readMantissa hex m text).2 := by
  fun_induction readMantissa hex m text with
  | case1 => exact .refl _
  | case2 m rest ih => exact .cons rfl ih
  | case3 => exact .refl _
  | case4 m rest hunderscore hdot ih => exact .cons rfl ih
  | case5 => exact .refl _
  | case6 m c rest hunderscore hdot d hdigit ih =>
      exact .cons (isNumeralChar_of_digitValue hdigit) ih

theorem readsNumeral_readDigits
    (e : Nat) (text : List Char) :
    ReadsNumeral text (readDigits e text).2 := by
  fun_induction readDigits e text with
  | case1 => exact .refl _
  | case2 e c rest hdigit ih => exact .cons (isNumeralChar_of_isDigit hdigit) ih
  | case3 e rest hdigit ih => exact .cons rfl ih
  | case4 => exact .refl _

/-- An exponent is read off the front. -/
theorem readsNumeral_readExponent
    {text rest : List Char} {e : ℤ} (h : readExponent text = some (e, rest)) :
    ReadsNumeral text rest := by
  rw [readExponent] at h
  dsimp only at h
  by_cases hdigit : (readSign text).2.head?.any Char.isDigit = true
  · rw [if_pos hdigit] at h
    have hrest := (Prod.mk.inj (Option.some.inj h)).2
    rw [← hrest]
    exact (readsNumeral_readSign text).trans (readsNumeral_readDigits 0 _)
  · rw [if_neg hdigit] at h
    cases h

theorem readsNumeral_readTail
    {hex : Bool} {tail rest : List Char} {e : ℤ} (h : readTail hex tail = some (e, rest)) :
    ReadsNumeral tail rest := by
  cases tail with
  | nil =>
      intro c hc
      cases hc
  | cons c tail =>
      rw [readTail] at h
      by_cases hmark : c = if hex then 'p' else 'e'
      · rw [if_pos hmark] at h
        refine .cons ?_ (readsNumeral_readExponent h)
        rw [hmark]
        split_ifs <;> rfl
      · rw [if_neg hmark] at h
        cases hex with
        | true => cases h
        | false =>
            have hrest := (Prod.mk.inj (Option.some.inj h)).2
            rw [← hrest]
            exact .refl _

/-- A numeral is read to its end. -/
theorem readsNumeral_readFloat
    {text : List Char} {numeral : Numeral} (h : readFloat text = some numeral) :
    ReadsNumeral text [] := by
  rw [readFloat] at h
  dsimp only at h
  by_cases hdigits : (readMantissa (readBase (readSign text).2).1 .zero
      (readBase (readSign text).2).2).1.sawdigits = true
  · rw [if_pos hdigits] at h
    split at h
    · cases h
    · rename_i e rest htail
      by_cases hrest : rest = [] ∧ underscoreOK text = true
      · have htext := readsNumeral_readTail htail
        rw [hrest.1] at htext
        exact (readsNumeral_readSign text).trans ((readsNumeral_readBase _).trans
          ((readsNumeral_readMantissa _ _ _).trans htext))
      · rw [if_neg hrest] at h
        cases h
  · rw [if_neg hdigits] at h
    cases h

theorem readsNumeral_special
    {text : List Char} {numeral : Numeral} (h : special text = some numeral) :
    ReadsNumeral text [] := by
  have hnames : ∀ name ∈ ["inf".toList, "infinity".toList, "nan".toList],
      ReadsNumeral name [] := by
    intro name hname c hc
    refine Or.inl ?_
    revert c
    fin_cases hname <;> exact List.all_iff_forall_prop.mp (by decide)
  rw [special] at h
  dsimp only at h
  split_ifs at h with hinf hnan
  · refine (readsNumeral_readSign text).trans ?_
    rcases hinf with hinf | hinf
    · rw [hinf]
      exact hnames _ (by simp)
    · rw [hinf]
      exact hnames _ (by simp)
  · rw [hnan]
    exact hnames _ (by simp)

/-- A text that is a numeral has characters of numerals only. -/
theorem isNumeralChar_of_readNumeral
    {text : List Char} {numeral : Numeral} (h : readNumeral text = some numeral) :
    ∀ c ∈ text, isNumeralChar c.toLower = true := by
  have hreads : ReadsNumeral (text.map Char.toLower) [] := by
    rw [readNumeral] at h
    rcases Option.or_eq_some_iff.mp h with hspecial | ⟨-, hfloat⟩
    · exact readsNumeral_special hspecial
    · exact readsNumeral_readFloat hfloat
  intro c hc
  rcases hreads _ (List.mem_map_of_mem hc) with hnumeral | hmem
  · exact hnumeral
  · cases hmem

/-- The empty text is no numeral. -/
theorem ne_nil_of_readNumeral
    {text : List Char} {numeral : Numeral} (h : readNumeral text = some numeral) :
    text ≠ [] := by
  rintro rfl
  cases h

end Lib
end Otelop
