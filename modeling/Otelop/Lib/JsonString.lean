import Mathlib.Tactic
import Otelop.Lib.Utf16

/-!
# JSON string literals

The grammar of a string literal is read by a scanner with one state for each
place in an escape.  It is the same for a text of characters and for one of
UTF-16 code units, as everything it distinguishes is ASCII; the two differ in
what they make of escaped surrogates.

**Results.**
* `stringItems_utf16`: the scanner accepts an encoded text exactly when it
  accepts the text, with the same escapes.
* `utf16_runes`: without lone surrogates the two values are the same text.
-/

namespace Otelop
namespace Lib

universe u

/-- One character of a literal, as written or escaped. -/
inductive StringItem (α : Type u) where
  | raw (a : α)
  | escape (unit : UInt16)
deriving DecidableEq

/-- Where the scanner stands: in the string, behind a backslash, with so many hex
digits to come, or behind the closing quote. -/
inductive StringState where
  | inString
  | inEscape
  | inHex (missing : Nat) (unit : UInt16)
  | closed

def isJsonSpace (n : Nat) : Bool :=
  decide (n = 0x20) || decide (n = 0x09) || decide (n = 0x0A) || decide (n = 0x0D)

/-- What the character behind a backslash stands for. -/
def simpleEscape (n : Nat) : Option UInt16 :=
  if n = 0x22 then some 0x22
  else if n = 0x5C then some 0x5C
  else if n = 0x2F then some 0x2F
  else if n = 0x62 then some 0x08
  else if n = 0x66 then some 0x0C
  else if n = 0x6E then some 0x0A
  else if n = 0x72 then some 0x0D
  else if n = 0x74 then some 0x09
  else none

def hexDigit (n : Nat) : Option UInt16 :=
  if 0x30 ≤ n ∧ n ≤ 0x39 then some (UInt16.ofNat (n - 0x30))
  else if 0x41 ≤ n ∧ n ≤ 0x46 then some (UInt16.ofNat (n - 0x37))
  else if 0x61 ≤ n ∧ n ≤ 0x66 then some (UInt16.ofNat (n - 0x57))
  else none

/-- The items from the state on, up to the closing quote, which only white space
may follow.  `code` is the value of a character. -/
def stringItemsFrom {α : Type u} (code : α → Nat) :
    StringState → List α → Option (List (StringItem α))
  | .closed, [] => some []
  | _, [] => none
  | .inString, a :: rest =>
      if code a = 0x22 then stringItemsFrom code .closed rest
      else if code a = 0x5C then stringItemsFrom code .inEscape rest
      else if code a < 0x20 then none
      else (stringItemsFrom code .inString rest).map (.raw a :: ·)
  | .inEscape, a :: rest =>
      if code a = 0x75 then stringItemsFrom code (.inHex 4 0) rest
      else
        match simpleEscape (code a) with
        | none => none
        | some unit => (stringItemsFrom code .inString rest).map (.escape unit :: ·)
  | .inHex missing unit, a :: rest =>
      match hexDigit (code a) with
      | none => none
      | some d =>
          if missing ≤ 1 then
            (stringItemsFrom code .inString rest).map (.escape (unit * 16 + d) :: ·)
          else stringItemsFrom code (.inHex (missing - 1) (unit * 16 + d)) rest
  | .closed, a :: rest =>
      if isJsonSpace (code a) then stringItemsFrom code .closed rest else none

/-- The items of a literal, which starts with a quote. -/
def stringItems {α : Type u} (code : α → Nat) : List α → Option (List (StringItem α))
  | [] => none
  | a :: rest => if code a = 0x22 then stringItemsFrom code .inString rest else none

/-- The value of a literal whose characters are code units. -/
def unitsValue (items : List (StringItem UInt16)) : List UInt16 :=
  items.map fun
    | .raw u => u
    | .escape u => u

/-- The character of a surrogate pair. -/
def pairChar (hi lo : UInt16) : Char :=
  Char.ofNat (0x10000 + (hi.toNat - 0xD800) * 0x400 + (lo.toNat - 0xDC00))

/-- The value of a literal of characters: two escapes may be a pair, and an
escaped lone surrogate becomes the replacement character. -/
def runes : List (StringItem Char) → List Char
  | [] => []
  | .raw c :: rest => c :: runes rest
  | .escape u :: rest =>
      let following := runes rest
      if isHighSurrogate u.toNat then
        match rest with
        | .escape v :: rest' =>
            if isLowSurrogate v.toNat then pairChar u v :: runes rest'
            else '\uFFFD' :: following
        | _ => '\uFFFD' :: following
      else if isLowSurrogate u.toNat then '\uFFFD' :: following
      else Char.ofNat u.toNat :: following

/-- Every escaped surrogate is part of an escaped pair. -/
def noLoneSurrogate : List (StringItem Char) → Bool
  | [] => true
  | .raw _ :: rest => noLoneSurrogate rest
  | .escape u :: rest =>
      if isHighSurrogate u.toNat then
        match rest with
        | .escape v :: rest' => isLowSurrogate v.toNat && noLoneSurrogate rest'
        | _ => false
      else !isLowSurrogate u.toNat && noLoneSurrogate rest

/-- The items an item becomes when the text is encoded. -/
def StringItem.units : StringItem Char → List (StringItem UInt16)
  | .raw c => (Lib.units c).map .raw
  | .escape u => [.escape u]

/-! ### Encoding the literal -/

theorem simpleEscape_of_le {n : Nat} (h : 0x80 ≤ n) : simpleEscape n = none := by
  unfold simpleEscape
  repeat rw [if_neg (by omega)]

theorem hexDigit_of_le {n : Nat} (h : 0x80 ≤ n) : hexDigit n = none := by
  unfold hexDigit
  repeat rw [if_neg (by omega)]

theorem isJsonSpace_of_le {n : Nat} (h : 0x80 ≤ n) : isJsonSpace n = false := by
  unfold isJsonSpace
  simp only [Bool.or_eq_false_iff, decide_eq_false_iff_not]
  omega

/-- The units of a character outside ASCII lie outside ASCII. -/
theorem le_toNat_of_mem_units
    {c : Char} (hc : 0x80 ≤ c.toNat) {u : UInt16} (hu : u ∈ units c) : 0x80 ≤ u.toNat := by
  rcases units_cases c with ⟨v, h, hv, -⟩ | ⟨hi, lo, h, -, hhi, hlo, -⟩ <;> rw [h] at hu
  · rw [List.mem_singleton.mp hu]
    omega
  · simp only [isHighSurrogate, isLowSurrogate, Bool.and_eq_true, decide_eq_true_eq] at hhi hlo
    rcases List.mem_cons.mp hu with rfl | hu
    · omega
    · rw [List.mem_singleton.mp hu]
      omega

/-- Units outside ASCII are items of their own inside the string. -/
theorem stringItemsFrom_inString_append
    (rest : List UInt16) :
    ∀ {us : List UInt16}, (∀ u ∈ us, 0x80 ≤ u.toNat) →
      stringItemsFrom UInt16.toNat .inString (us ++ rest) =
        (stringItemsFrom UInt16.toNat .inString rest).map (us.map StringItem.raw ++ ·)
  | [], _ => by simp
  | u :: us, h => by
      have hu := h u List.mem_cons_self
      rw [List.cons_append, stringItemsFrom, if_neg (by omega), if_neg (by omega),
        if_neg (by omega), stringItemsFrom_inString_append rest fun v hv =>
          h v (List.mem_cons_of_mem u hv), Option.map_map]
      rfl

/-- Elsewhere a unit outside ASCII is an error. -/
theorem stringItemsFrom_eq_none
    {α : Type u} {code : α → Nat} {st : StringState} (hst : st ≠ .inString)
    {a : α} (ha : 0x80 ≤ code a) (rest : List α) :
    stringItemsFrom code st (a :: rest) = none := by
  cases st with
  | inString => exact absurd rfl hst
  | inEscape =>
      rw [stringItemsFrom, if_neg (by omega), simpleEscape_of_le ha]
  | inHex missing unit => rw [stringItemsFrom, hexDigit_of_le ha]
  | closed => simp [stringItemsFrom, isJsonSpace_of_le ha]

/-- Scanning the code units of a text gives the items of its characters, in code units. -/
theorem stringItemsFrom_utf16 :
    ∀ (s : List Char) (st : StringState),
      stringItemsFrom UInt16.toNat st (utf16 s) =
        (stringItemsFrom Char.toNat st s).map (List.flatMap StringItem.units)
  | [], st => by cases st <;> rfl
  | c :: s, st => by
      by_cases hc : c.toNat < 0x80
      · have hcode := jsChar_toNat hc
        have ih := stringItemsFrom_utf16 s
        have hraw : StringItem.units (.raw c) = [.raw (jsChar c)] := by
          simp [StringItem.units, units_ascii hc]
        rw [utf16_cons, units_ascii hc, List.singleton_append]
        cases st with
        | inString =>
            simp only [stringItemsFrom, hcode, ih]
            split_ifs <;> simp [Function.comp_def, hraw]
        | inEscape =>
            simp only [stringItemsFrom, hcode, ih]
            split_ifs
            · rfl
            · cases simpleEscape c.toNat <;> simp [Function.comp_def, StringItem.units]
        | inHex missing unit =>
            simp only [stringItemsFrom, hcode, ih]
            cases hexDigit c.toNat with
            | none => rfl
            | some d => split_ifs <;> simp [Function.comp_def, StringItem.units]
        | closed =>
            simp only [stringItemsFrom, hcode, ih]
            split_ifs <;> rfl
      · have hunits : ∀ u ∈ units c, 0x80 ≤ u.toNat := fun u hu =>
          le_toNat_of_mem_units (by omega) hu
        by_cases hst : st = .inString
        · subst hst
          rw [utf16_cons, stringItemsFrom_inString_append _ hunits,
            stringItemsFrom_utf16 s .inString, stringItemsFrom, if_neg (by omega),
            if_neg (by omega), if_neg (by omega), Option.map_map, Option.map_map]
          rfl
        · obtain ⟨u, us, hus⟩ := List.exists_cons_of_ne_nil (units_ne_nil c)
          rw [hus] at hunits
          rw [utf16_cons, hus, List.cons_append,
            stringItemsFrom_eq_none hst (hunits u List.mem_cons_self),
            stringItemsFrom_eq_none hst (by omega)]
          rfl

/-- A string is scanned in code units as it is in characters. -/
theorem stringItems_utf16 (s : List Char) :
    stringItems UInt16.toNat (utf16 s) =
      (stringItems Char.toNat s).map (List.flatMap StringItem.units) := by
  cases s with
  | nil => rfl
  | cons c s =>
      by_cases hc : c.toNat = 0x22
      · rw [utf16_cons, units_ascii (by omega), List.singleton_append, stringItems,
          stringItems, if_pos hc, jsChar_toNat (by omega), if_pos hc]
        exact stringItemsFrom_utf16 s .inString
      · obtain ⟨u, us, hus⟩ := List.exists_cons_of_ne_nil (units_ne_nil c)
        have hu : u.toNat ≠ 0x22 := by
          intro h
          refine hc (congrArg Char.toNat ((jsChar_mem_units (a := '"') (by decide) c).mp ?_))
          have : u = jsChar '"' := UInt16.toNat_inj.mp h
          rw [hus, this]
          exact List.mem_cons_self
        rw [utf16_cons, hus, List.cons_append, stringItems, stringItems, if_neg hu,
          if_neg hc]
        rfl

/-! ### Values -/

/-- The value of a string, item by item. -/
@[simp] theorem unitsValue_append (x y : List (StringItem UInt16)) :
    unitsValue (x ++ y) = unitsValue x ++ unitsValue y :=
  List.map_append

@[simp] theorem unitsValue_raw (us : List UInt16) :
    unitsValue (us.map StringItem.raw) = us := by
  simp [unitsValue, Function.comp_def]

/-- A pair of surrogates is the code units of its character. -/
theorem units_pairChar
    {hi lo : UInt16} (hhi : isHighSurrogate hi.toNat = true)
    (hlo : isLowSurrogate lo.toNat = true) :
    units (pairChar hi lo) = [hi, lo] := by
  simp only [isHighSurrogate, isLowSurrogate, Bool.and_eq_true, decide_eq_true_eq] at hhi hlo
  have hval : (pairChar hi lo).toNat =
      0x10000 + (hi.toNat - 0xD800) * 0x400 + (lo.toNat - 0xDC00) := by
    refine ofNat_toNat_of_valid (Or.inr ⟨?_, ?_⟩) <;> omega
  have hhigh : 0xD800 + ((pairChar hi lo).toNat - 0x10000) / 0x400 = hi.toNat := by
    rw [hval]
    omega
  have hlow : 0xDC00 + ((pairChar hi lo).toNat - 0x10000) % 0x400 = lo.toNat := by
    rw [hval]
    omega
  rw [units, if_neg (by omega), hhigh, hlow, UInt16.ofNat_toNat, UInt16.ofNat_toNat]

/-- A code unit that is no surrogate is its character. -/
theorem units_ofNat
    {u : UInt16} (hhi : isHighSurrogate u.toNat = false)
    (hlo : isLowSurrogate u.toNat = false) :
    units (Char.ofNat u.toNat) = [u] := by
  simp only [isHighSurrogate, isLowSurrogate, Bool.and_eq_false_iff,
    decide_eq_false_iff_not] at hhi hlo
  have hlt := u.toNat_lt
  have hval : (Char.ofNat u.toNat).toNat = u.toNat := by
    refine ofNat_toNat_of_valid ?_
    unfold Nat.isValidChar
    omega
  rw [units, hval, if_pos hlt, UInt16.ofNat_toNat]

/-- Without lone surrogates, the value in characters and the value in code units are the same. -/
theorem utf16_runes :
    ∀ (items : List (StringItem Char)), noLoneSurrogate items = true →
      utf16 (runes items) = unitsValue (items.flatMap StringItem.units)
  | [], _ => rfl
  | .raw c :: rest, h => by
      rw [runes, utf16_cons, utf16_runes rest h, List.flatMap_cons, unitsValue_append]
      simp [StringItem.units]
  | .escape u :: rest, h => by
      by_cases hhi : isHighSurrogate u.toNat = true
      · -- The next item is the other half of the pair.
        match rest, h with
        | [], h => simp [noLoneSurrogate, hhi] at h
        | .raw c :: rest', h => simp [noLoneSurrogate, hhi] at h
        | .escape v :: rest', h =>
            simp only [noLoneSurrogate, hhi, if_true, Bool.and_eq_true] at h
            simp only [runes, hhi, h.1, if_true, utf16_cons, units_pairChar hhi h.1,
              utf16_runes rest' h.2]
            rfl
      · rw [noLoneSurrogate.eq_def] at h
        simp only [hhi, Bool.false_eq_true, if_false, Bool.and_eq_true,
          Bool.not_eq_true'] at h
        have hval := units_ofNat (by simpa using hhi) h.1
        rw [runes.eq_def]
        simp only [hhi, h.1, Bool.false_eq_true, if_false, utf16_cons, hval,
          utf16_runes rest h.2]
        rfl

end Lib
end Otelop
