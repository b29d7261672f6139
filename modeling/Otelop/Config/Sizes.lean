import Mathlib.Tactic
import Otelop.Lib.FloatText

/-!
# Sizes and retention

`ParseRetention`, `parseByteSize`, `ParseMaxSize` and `ParseMemoryLimit` of
`internal/config/config.go`.  A numeral is parsed as a float, multiplied by its unit and
converted to an integer of 64 bits, without a look at what the integer can hold.

What a letter is in lower case, what a float out of range is converted to, and the parser of
durations are those of a `Platform`.  `Written` says that a text is a numeral and a unit, with
any white space around and between them.  An exact product is compared with the integer that
comes out: they differ by the rounding of the numeral and of the product.

**Results.**
* `parseRetention_written`, `parseByteSize_written`: what becomes of a numeral with a unit.
* `converts_iff`: the conversion is faithful if and only if the exact product fits.
* `sizes_converted_iff`: so it is with every numeral and every unit.
-/

namespace Otelop
namespace Config

open Lib

/-! ### Texts -/

/-- `unicode.IsSpace` -/
def isSpace (c : Char) : Bool :=
  [0x09, 0x0A, 0x0B, 0x0C, 0x0D, 0x20, 0x85, 0xA0, 0x1680, 0x2028, 0x2029, 0x202F, 0x205F,
    0x3000].elem c.toNat || decide (0x2000 ≤ c.toNat ∧ c.toNat ≤ 0x200A)

/-- `strings.TrimSpace` -/
def trimSpace (s : List Char) : List Char :=
  ((s.dropWhile isSpace).reverse.dropWhile isSpace).reverse

/-- `unicode.ToLower`: letters beyond ASCII are those of a table, spaces have no case. -/
structure LetterCase where
  toLower : Char → Char
  ascii : ∀ c, c.toNat < 128 → toLower c = c.toLower
  space : ∀ c, isSpace c → toLower c = c

/-- `strings.CutSuffix` -/
def cutSuffix (s suffix : List Char) : Option (List Char) :=
  if suffix.isSuffixOf s then some (s.take (s.length - suffix.length)) else none

/-- `strconv.ParseInt(s, 10, 64)` -/
def parseInt (text : List Char) : Except NumError Int64 :=
  let (negative, digits) := readSign text
  if digits = [] ∨ digits.all Char.isDigit = false then .error .syntaxError
  else
    let n := Nat.ofDigitChars 10 digits 0
    let z : ℤ := if negative then -n else n
    if -2 ^ 63 ≤ z ∧ z < 2 ^ 63 then .ok (Int64.ofInt z) else .error .rangeError

/-! ### The configuration -/

/-- The error that is wrapped. -/
inductive Cause where
  | number (err : NumError)
  | duration (text : String)
deriving DecidableEq

/-- The errors of a size or a retention, with the field they are about. -/
inductive ConfigError where
  /-- `%s: empty value` -/
  | empty (field : String)
  /-- `%s: invalid %q: %w` -/
  | invalid (field : String) (s : List Char) (err : Cause)
  /-- `%s: must be > 0, got %q` -/
  | notPositive (field : String) (s : List Char)
deriving DecidableEq

/-- The program's library: what a float out of range is converted to, `time.ParseDuration`,
and the letters. -/
structure Platform where
  outOfRange : Float64 → Int64
  parseDuration : List Char → Except String Int64
  letters : LetterCase

/-- `24*time.Hour`, in nanoseconds. -/
def day : Nat := 86_400_000_000_000

/-- A suffix with its multiplier. -/
structure ByteSizeUnit where
  suffix : List Char
  multiplier : Nat
deriving DecidableEq

/-- The units, longer suffixes first. -/
def byteSizeUnits : List ByteSizeUnit :=
  [{ suffix := ['k', 'i', 'b'], multiplier := 2 ^ 10 },
   { suffix := ['m', 'i', 'b'], multiplier := 2 ^ 20 },
   { suffix := ['g', 'i', 'b'], multiplier := 2 ^ 30 },
   { suffix := ['k', 'b'], multiplier := 1_000 },
   { suffix := ['m', 'b'], multiplier := 1_000_000 },
   { suffix := ['g', 'b'], multiplier := 1_000_000_000 },
   { suffix := ['b'], multiplier := 1 }]

/-- The first unit that a size ends with, and what is before it. -/
def findUnit (lower : List Char) : List ByteSizeUnit → Option (List Char × ByteSizeUnit)
  | [] => none
  | u :: units =>
      match cutSuffix lower u.suffix with
      | some num => some (num, u)
      | none => findUnit lower units

section Parse

variable (platform : Platform)

/-- The product of a float with a unit, as an integer. -/
def scaled (n : Float64) (multiplier : Nat) : Int64 :=
  (n.mul (.ofNat multiplier)).toInt64 platform.outOfRange

/-- `ParseRetention` -/
def parseRetention (s : List Char) : Except ConfigError Int64 :=
  let trimmed := trimSpace s
  if trimmed = [] then .error (.empty "retention")
  else
    match cutSuffix trimmed ['d'] with
    | some days =>
        match parseFloat64 (trimSpace days) with
        | .error err => .error (.invalid "retention" trimmed (.number err))
        | .ok n => .ok (scaled platform n day)
    | none =>
        match platform.parseDuration trimmed with
        | .error err => .error (.invalid "retention" trimmed (.duration err))
        | .ok d => .ok d

/-- `parseByteSize` -/
def parseByteSize (field : String) (s : List Char) : Except ConfigError Int64 :=
  let trimmed := trimSpace s
  if trimmed = [] then .error (.empty field)
  else
    match findUnit (trimmed.map platform.letters.toLower) byteSizeUnits with
    | some (num, u) =>
        match parseFloat64 (trimSpace num) with
        | .error err => .error (.invalid field s (.number err))
        | .ok n => .ok (scaled platform n u.multiplier)
    | none =>
        match parseInt trimmed with
        | .error err => .error (.invalid field s (.number err))
        | .ok n => .ok n

/-- `ParseMaxSize` -/
def parseMaxSize (s : List Char) : Except ConfigError Int64 :=
  parseByteSize platform "max_size" s

/-- `ParseMemoryLimit` -/
def parseMemoryLimit (s : List Char) : Except ConfigError Int64 :=
  match parseByteSize platform "memory_limit" s with
  | .error err => .error err
  | .ok n => if n.toInt ≤ 0 then .error (.notPositive "memory_limit" s) else .ok n

end Parse

/-! ### Spaces -/

theorem dropWhile_eq_self
    {α : Type} {p : α → Bool} {s : List α} (h : ∀ c ∈ s.head?, p c = false) :
    s.dropWhile p = s := by
  cases s with
  | nil => rfl
  | cons c s => rw [List.dropWhile_cons_of_neg (by rw [h c rfl]; exact Bool.false_ne_true)]

/-- A text whose ends are no spaces, between spaces. -/
theorem trimSpace_append
    {before core after : List Char} (hbefore : ∀ c ∈ before, isSpace c = true)
    (hafter : ∀ c ∈ after, isSpace c = true) (hne : core ≠ [])
    (hhead : ∀ c ∈ core.head?, isSpace c = false)
    (hlast : ∀ c ∈ core.getLast?, isSpace c = false) :
    trimSpace (before ++ core ++ after) = core := by
  have hfront : (before ++ core ++ after).dropWhile isSpace = core ++ after := by
    rw [List.append_assoc, List.dropWhile_append_of_pos hbefore]
    refine dropWhile_eq_self ?_
    rw [List.head?_append_of_ne_nil _ hne]
    exact hhead
  have hback : (core ++ after).reverse.dropWhile isSpace = core.reverse := by
    rw [List.reverse_append,
      List.dropWhile_append_of_pos fun c hc => hafter c (List.mem_reverse.mp hc)]
    refine dropWhile_eq_self ?_
    rw [List.head?_reverse]
    exact hlast
  rw [trimSpace, hfront, hback, List.reverse_reverse]

/-- A numeral has no spaces, and neither of them a letter of a unit but the last. -/
def unitLetters : List Char := ['k', 'm', 'g']

theorem isSpace_eq_false_of_isNumeralChar
    {c : Char} (h : isNumeralChar c.toLower = true) :
    isSpace c = false := by
  by_contra hspace
  rw [Bool.not_eq_false, isSpace, Bool.or_eq_true, List.elem_iff, decide_eq_true_eq] at hspace
  rw [← Char.ofNat_toNat c] at h
  generalize c.toNat = n at h hspace
  rcases hspace with hmem | ⟨hlow, hhigh⟩
  · revert h
    fin_cases hmem <;> decide
  · revert h
    interval_cases n <;> decide

theorem not_mem_unitLetters_of_isSpace
    {c : Char} (h : isSpace c = true) :
    c ∉ unitLetters := by
  intro hmem
  revert h
  fin_cases hmem <;> decide

theorem not_mem_unitLetters_of_isNumeralChar
    {c : Char} (h : isNumeralChar c = true) :
    c ∉ unitLetters := by
  intro hmem
  revert h
  fin_cases hmem <;> decide

/-! ### Units -/

/-- A suffix is cut off. -/
theorem cutSuffix_append (body suffix : List Char) : cutSuffix (body ++ suffix) suffix = some body := by
  rw [cutSuffix, if_pos (List.isSuffixOf_iff_suffix.mpr (List.suffix_append body suffix)),
    List.length_append, Nat.add_sub_cancel, List.take_left]

/-- Another one is not found. -/
theorem cutSuffix_append_eq_none
    {body u v : List Char} (hsuffix : ¬ v <:+ u) (hhead : ∀ c ∈ v.head?, c ∉ body) :
    cutSuffix (body ++ u) v = none := by
  rw [cutSuffix, if_neg]
  intro h
  have hv := List.isSuffixOf_iff_suffix.mp h
  rcases List.suffix_or_suffix_of_suffix hv (List.suffix_append body u) with hshort | ⟨w, rfl⟩
  · exact hsuffix hshort
  · obtain ⟨t, ht⟩ := hv
    rw [← List.append_assoc] at ht
    have hbody := List.append_cancel_right ht
    cases w with
    | nil => exact hsuffix (List.suffix_refl u)
    | cons c w =>
        refine hhead c rfl ?_
        rw [← hbody]
        exact List.mem_append_right t List.mem_cons_self

/-- No unit hides one that comes after it. -/
theorem byteSizeUnits_pairwise :
    byteSizeUnits.Pairwise fun v u =>
      ¬ v.suffix <:+ u.suffix ∧ v.suffix.head? ∈ unitLetters.map some := by
  decide

theorem findUnit_append
    {units : List ByteSizeUnit}
    (hpair : units.Pairwise fun v u =>
      ¬ v.suffix <:+ u.suffix ∧ v.suffix.head? ∈ unitLetters.map some)
    {body : List Char} (hbody : ∀ c ∈ body, c ∉ unitLetters) {u : ByteSizeUnit}
    (hu : u ∈ units) :
    findUnit (body ++ u.suffix) units = some (body, u) := by
  induction units with
  | nil => cases hu
  | cons v units ih =>
      obtain ⟨hfirst, hrest⟩ := List.pairwise_cons.mp hpair
      rw [findUnit]
      rcases List.mem_cons.mp hu with rfl | hmem
      · rw [cutSuffix_append]
      · obtain ⟨hsuffix, hhead⟩ := hfirst u hmem
        have hnone : cutSuffix (body ++ u.suffix) v.suffix = none := by
          refine cutSuffix_append_eq_none hsuffix fun c hc hmem => hbody c hmem ?_
          obtain ⟨letter, hletter, heq⟩ := List.mem_map.mp hhead
          rw [← heq] at hc
          cases hc
          exact hletter
        rw [hnone]
        exact ih hrest hmem


/-! ### Numerals with units -/

/-- A numeral with a unit, between spaces. -/
def Written (numeral unit s : List Char) : Prop :=
  ∃ before between after : List Char,
    (∀ c ∈ before ++ between ++ after, isSpace c = true) ∧
      s = before ++ (numeral ++ between ++ unit) ++ after

section Numerals

variable {text : List Char} {value : Numeral} {x : Float64}

theorem toNat_lt_of_isNumeralChar
    {c : Char} (h : isNumeralChar c = true) :
    c.toNat < 128 := by
  rw [isNumeralChar, Bool.or_eq_true, Bool.or_eq_true, decide_eq_true_eq, List.elem_iff] at h
  rcases h with (hdigit | hletter) | hmem
  · rw [Char.isDigit, Bool.and_eq_true, decide_eq_true_eq, decide_eq_true_eq] at hdigit
    exact lt_of_le_of_lt (UInt32.le_iff_toNat_le.mp hdigit.2) (by decide)
  · exact lt_of_le_of_lt (UInt32.le_iff_toNat_le.mp hletter.2) (by decide)
  · fin_cases hmem <;> decide

/-- All letters of a numeral are ASCII. -/
theorem map_toLower_eq
    (letters : LetterCase) (h : ∀ c ∈ text, isNumeralChar c.toLower = true) :
    text.map letters.toLower = text.map Char.toLower :=
  List.map_congr_left fun c hc =>
    letters.ascii c ((toNat_le_toLower c).trans_lt (toNat_lt_of_isNumeralChar (h c hc)))

theorem trimSpace_numeral
    (htext : ∀ c ∈ text, isNumeralChar c.toLower = true) (hne : text ≠ [])
    {after : List Char} (hafter : ∀ c ∈ after, isSpace c = true) :
    trimSpace (text ++ after) = text :=
  @trimSpace_append [] text after (fun _ hc => by cases hc) hafter hne
    (fun c hc => isSpace_eq_false_of_isNumeralChar (htext c (List.mem_of_mem_head? hc)))
    (fun c hc => isSpace_eq_false_of_isNumeralChar (htext c (List.mem_of_mem_getLast? hc)))

/-- The white space around a numeral with a unit is taken away. -/
theorem trimSpace_written
    (htext : ∀ c ∈ text, isNumeralChar c.toLower = true) (hne : text ≠ [])
    {unit : List Char} (hunit : unit ≠ []) (hlast : ∀ c ∈ unit.getLast?, isSpace c = false)
    {s : List Char} (hs : Written text unit s) :
    ∃ between, (∀ c ∈ between, isSpace c = true) ∧
      trimSpace s = text ++ between ++ unit ∧ trimSpace s ≠ [] := by
  obtain ⟨before, between, after, hspace, rfl⟩ := hs
  have hcore : text ++ between ++ unit ≠ [] := fun h =>
    hunit (List.append_eq_nil_iff.mp h).2
  have htrim : trimSpace (before ++ (text ++ between ++ unit) ++ after) =
      text ++ between ++ unit := by
    refine trimSpace_append (fun c hc => hspace c (by simp [hc]))
      (fun c hc => hspace c (by simp [hc])) hcore (fun c hc => ?_) (fun c hc => ?_)
    · rw [List.append_assoc, List.head?_append_of_ne_nil _ hne] at hc
      exact isSpace_eq_false_of_isNumeralChar (htext c (List.mem_of_mem_head? hc))
    · rw [List.getLast?_append_of_ne_nil _ hunit] at hc
      exact hlast c hc
  exact ⟨between, fun c hc => hspace c (by simp [hc]), htrim, by rw [htrim]; exact hcore⟩

/-- A numeral of days is the float times a day. -/
theorem parseRetention_written
    (platform : Platform) (hnumeral : readNumeral text = some value)
    (hx : value.toFloat64 = .ok x) {s : List Char} (hs : Written text ['d'] s) :
    parseRetention platform s = .ok (scaled platform x day) := by
  have htext := isNumeralChar_of_readNumeral hnumeral
  have hne := ne_nil_of_readNumeral hnumeral
  have hlast : ∀ c ∈ ['d'].getLast?, isSpace c = false := by
    intro c hc
    cases hc
    decide
  obtain ⟨between, hspace, htrim, hnonempty⟩ :=
    trimSpace_written htext hne (List.cons_ne_nil _ _) hlast hs
  have hparse : parseFloat64 text = .ok x := by rw [parseFloat64, hnumeral, ← hx]
  simp only [parseRetention, if_neg hnonempty]
  simp only [htrim, cutSuffix_append, trimSpace_numeral htext hne hspace, hparse]

theorem getLast?_suffix : ∀ u ∈ byteSizeUnits, u.suffix.getLast? = some 'b' := by decide

/-- A numeral with a unit is the float times the multiplier. -/
theorem parseByteSize_written
    (platform : Platform) (field : String) (hnumeral : readNumeral text = some value)
    (hx : value.toFloat64 = .ok x) {u : ByteSizeUnit} (hu : u ∈ byteSizeUnits)
    {unit : List Char} (hunit : unit.map platform.letters.toLower = u.suffix)
    {s : List Char} (hs : Written text unit s) :
    parseByteSize platform field s = .ok (scaled platform x u.multiplier) := by
  have htext := isNumeralChar_of_readNumeral hnumeral
  have hne := ne_nil_of_readNumeral hnumeral
  have hb := getLast?_suffix u hu
  have hunitne : unit ≠ [] := by
    rintro rfl
    rw [← hunit] at hb
    cases hb
  have hlast : ∀ c ∈ unit.getLast?, isSpace c = false := by
    intro c hc
    by_contra hspace
    have hfixed := platform.letters.space c (Bool.not_eq_false _ ▸ hspace)
    rw [← hunit, List.getLast?_map, Option.mem_def.mp hc, Option.map_some, hfixed] at hb
    cases hb
    exact hspace (by decide)
  obtain ⟨between, hspace, htrim, hnonempty⟩ :=
    trimSpace_written htext hne hunitne hlast hs
  have hlower : (text ++ between ++ unit).map platform.letters.toLower =
      text.map Char.toLower ++ between ++ u.suffix := by
    have hbetween : between.map platform.letters.toLower = between :=
      (List.map_congr_left fun c hc => platform.letters.space c (hspace c hc)).trans
        (List.map_id between)
    rw [List.map_append, List.map_append, map_toLower_eq _ htext, hbetween, hunit]
  have hlowered : ∀ c ∈ text.map Char.toLower, isNumeralChar c = true := by
    intro c hc
    obtain ⟨d, hd, rfl⟩ := List.mem_map.mp hc
    exact htext d hd
  have hbody : ∀ c ∈ text.map Char.toLower ++ between, c ∉ unitLetters := by
    intro c hc
    rcases List.mem_append.mp hc with hc | hc
    · exact not_mem_unitLetters_of_isNumeralChar (hlowered c hc)
    · exact not_mem_unitLetters_of_isSpace (hspace c hc)
  have htrimmed : trimSpace (text.map Char.toLower ++ between) = text.map Char.toLower := by
    refine trimSpace_numeral (fun c hc => ?_) (fun h => hne (List.map_eq_nil_iff.mp h)) hspace
    obtain ⟨d, hd, rfl⟩ := List.mem_map.mp hc
    rw [toLower_toLower]
    exact htext d hd
  have hparse : parseFloat64 (text.map Char.toLower) = .ok x := by
    rw [parseFloat64_toLower, parseFloat64, hnumeral, ← hx]
  simp only [parseByteSize, if_neg hnonempty]
  simp only [htrim, hlower, findUnit_append byteSizeUnits_pairwise hbody hu, htrimmed, hparse]

end Numerals

/-! ### Faithful conversions -/

/-- The exact product of a numeral with its unit, if it is a number. -/
def exactProduct (value : Numeral) (multiplier : Nat) : Option ℚ :=
  value.value.map (· * multiplier)

/-- An integer of 64 bits can hold the number. -/
def FitsInt64 (product : Option ℚ) : Prop :=
  ∃ q, product = some q ∧ -2 ^ 63 ≤ q ∧ q ≤ 2 ^ 63 - 1

/-- What does not fit is refused; what fits is accepted, and where it is short the integer is
less than two away from it, of its sign or zero. -/
def Converts (product : Option ℚ) (result : Except ConfigError Int64) : Prop :=
  (¬ FitsInt64 product → ∃ err, result = .error err) ∧
    (FitsInt64 product → ∃ n, result = .ok n ∧ ∀ q, product = some q → |q| < 2 ^ 51 →
      SignKept n.toInt q ∧ |(n.toInt : ℚ) - q| < 2)

theorem scaled_near
    (platform : Platform) {value : Numeral} {x : Float64} (hx : value.toFloat64 = .ok x)
    {c : Nat} (hpos : 0 < c) (hc : c < 2 ^ 53) {q : ℚ} (hq : exactProduct value c = some q)
    (hshort : |q| < 2 ^ 51) :
    SignKept (scaled platform x c).toInt q ∧ |((scaled platform x c).toInt : ℚ) - q| < 2 := by
  cases value with
  | finite negative mantissa base exponent =>
      have ha : 0 ≤ (mantissa : ℚ) * (base : ℚ) ^ exponent := by positivity
      obtain ⟨hfinite, rfl⟩ := toFloat64_eq_finite hx
      have hq' : signedRat negative (mantissa * (base : ℚ) ^ exponent) * c = q :=
        Option.some.inj hq
      rw [signedRat_mul] at hq'
      rw [← hq', abs_signedRat _ (mul_nonneg ha (Nat.cast_nonneg c))] at hshort
      rw [← hq']
      exact toInt64_mul platform.outOfRange negative ha _ rfl hpos hc hshort
  | infinity negative => cases hq
  | nan => cases hq

/-- A result that is never refused is faithful where the product fits. -/
theorem converts_iff
    (platform : Platform) {value : Numeral} {x : Float64} (hx : value.toFloat64 = .ok x)
    {c : Nat} (hpos : 0 < c) (hc : c < 2 ^ 53) :
    Converts (exactProduct value c) (.ok (scaled platform x c)) ↔
      FitsInt64 (exactProduct value c) := by
  constructor
  · intro h
    by_contra hfits
    obtain ⟨err, herr⟩ := h.1 hfits
    cases herr
  · intro hfits
    exact ⟨fun hnot => absurd hfits hnot, fun _ =>
      ⟨_, rfl, fun q hq hshort => scaled_near platform hx hpos hc hq hshort⟩⟩

theorem asciiCase_space
    {c : Char} (h : isSpace c = true) :
    c.toLower = c := by
  rcases toNat_toLower c with ⟨-, hlow, hhigh⟩ | hsame
  · rw [isSpace, Bool.or_eq_true, List.elem_iff, decide_eq_true_eq] at h
    rcases h with hmem | hrange
    · generalize c.toNat = n at hlow hhigh hmem
      fin_cases hmem <;> omega
    · omega
  · exact hsame

/-- A platform on which whatever is out of range becomes the least integer. -/
def samplePlatform : Platform where
  outOfRange _ := Int64.minValue
  parseDuration _ := .error "time: invalid duration"
  letters :=
    { toLower := Char.toLower
      ascii := fun _ _ => rfl
      space := fun _ h => asciiCase_space h }

theorem written_self (numeral unit : List Char) : Written numeral unit (numeral ++ unit) := by
  refine ⟨[], [], [], (fun _ hc => by cases hc), ?_⟩
  rw [List.append_nil, List.append_nil, List.nil_append]

theorem multiplier_bounds :
    ∀ u ∈ byteSizeUnits, 0 < u.multiplier ∧ u.multiplier < 2 ^ 53 := by
  decide

/-- Every numeral that is accepted, with every unit. -/
theorem sizes_converted_iff
    (platform : Platform) (field : String) {text : List Char} {value : Numeral} {x : Float64}
    (hnumeral : readNumeral text = some value) (hx : parseFloat64 text = .ok x) :
    (∀ s, Written text ['d'] s →
      (Converts (exactProduct value day) (parseRetention platform s) ↔
        FitsInt64 (exactProduct value day))) ∧
    ∀ u ∈ byteSizeUnits, ∀ unit, unit.map platform.letters.toLower = u.suffix →
      ∀ s, Written text unit s →
        (Converts (exactProduct value u.multiplier) (parseByteSize platform field s) ↔
          FitsInt64 (exactProduct value u.multiplier)) := by
  have hround : value.toFloat64 = .ok x := by
    rwa [parseFloat64, hnumeral] at hx
  constructor
  · intro s hs
    rw [parseRetention_written platform hnumeral hround hs]
    exact converts_iff platform hround (by decide) (by decide)
  · intro u hu unit hunit s hs
    obtain ⟨hpos, hc⟩ := multiplier_bounds u hu
    rw [parseByteSize_written platform field hnumeral hround hu hunit hs]
    exact converts_iff platform hround hpos hc

/-- A day and a half, and as many binary gigabytes. -/
theorem sizes_converted_oneAndHalf :
    Converts (some 129_600_000_000_000) (parseRetention samplePlatform "1.5d".toList) ∧
      Converts (some 1_610_612_736) (parseByteSize samplePlatform "max_size" "1.5GiB".toList) := by
  have hnumeral : readNumeral "1.5".toList = some (.finite false 15 10 (-1)) := by decide
  obtain ⟨x, hx⟩ : ∃ x, (Numeral.finite false 15 10 (-1)).toFloat64 = .ok x :=
    exists_toFloat64 (by norm_num)
  have hparse : parseFloat64 "1.5".toList = .ok x := by rw [parseFloat64, hnumeral, ← hx]
  obtain ⟨hretention, hsize⟩ := sizes_converted_iff samplePlatform "max_size" hnumeral hparse
  have hday : exactProduct (.finite false 15 10 (-1)) day = some 129_600_000_000_000 := by
    norm_num [exactProduct, Numeral.value, signedRat, day]
  have hgib : exactProduct (.finite false 15 10 (-1)) (2 ^ 30) = some 1_610_612_736 := by
    norm_num [exactProduct, Numeral.value, signedRat]
  have hretention' := hretention _ (written_self _ _)
  have hsize' := hsize { suffix := ['g', 'i', 'b'], multiplier := 2 ^ 30 } (by decide)
    "GiB".toList (by decide) _ (written_self _ _)
  rw [hday] at hretention'
  rw [hgib] at hsize'
  exact ⟨hretention'.mpr ⟨_, rfl, by norm_num, by norm_num⟩,
    hsize'.mpr ⟨_, rfl, by norm_num, by norm_num⟩⟩

/-- Two hundred thousand days are more nanoseconds than fit. -/
theorem longRetention_accepted :
    readNumeral "200000".toList = some (.finite false 200000 10 0) ∧
      ¬ Converts (exactProduct (.finite false 200000 10 0) day)
        (parseRetention samplePlatform "200000d".toList) := by
  have hnumeral : readNumeral "200000".toList = some (.finite false 200000 10 0) := by decide
  obtain ⟨x, hx⟩ : ∃ x, (Numeral.finite false 200000 10 0).toFloat64 = .ok x :=
    exists_toFloat64 (by norm_num)
  refine ⟨hnumeral, fun h => ?_⟩
  have hparse := parseRetention_written samplePlatform hnumeral hx (written_self _ _)
  change parseRetention samplePlatform "200000d".toList = _ at hparse
  rw [hparse] at h
  have hproduct : exactProduct (.finite false 200000 10 0) day =
      some 17_280_000_000_000_000_000 := by
    norm_num [exactProduct, Numeral.value, signedRat, day]
  obtain ⟨q, hq, -, hhigh⟩ := (converts_iff samplePlatform hx (by decide) (by decide)).mp h
  rw [hproduct] at hq
  cases hq
  norm_num at hhigh

end Config
end Otelop
