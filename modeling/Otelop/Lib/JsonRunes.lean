import Mathlib.Tactic
import Otelop.Lib.JsonQuote
import Otelop.Lib.JsonText
import Otelop.Lib.Utf8

/-!
# JSON string literals of UTF-8 texts

How a program whose strings are bytes writes them as literals: characters that HTML or
JavaScript would notice are escaped as well, and a byte that begins no character is written as
the replacement character.

The writer is `appendString` of `encoding/json`, on the runes of the bytes.  What it writes goes
through two readers.  One only looks for the end of a literal, so that a literal can stand in a
larger text; the other gives the characters the literal stands for.  `ScansOver` and `ReadsRune`
say what they do with the piece that is written for one rune.

**Results.**
* `isString_quoteRunes`: what is written is a literal.
* `unquote_quoteRunes`: it is read back as the characters.
-/

namespace Otelop
namespace Lib

/-- `\uXXXX` -/
def unicodeText (n : Nat) : List Char :=
  ['\\', 'u', Nat.digitChar (n / 4096), Nat.digitChar (n / 256 % 16),
    Nat.digitChar (n / 16 % 16), Nat.digitChar (n % 16)]

/-- The letter behind the backslash. -/
def escapeLetter (c : Char) : Option Char :=
  if c = '"' then some '"'
  else if c = '\\' then some '\\'
  else if c.toNat = 0x08 then some 'b'
  else if c.toNat = 0x0C then some 'f'
  else if c.toNat = 0x0A then some 'n'
  else if c.toNat = 0x0D then some 'r'
  else if c.toNat = 0x09 then some 't'
  else none

/-- A character or, if it is missing, a byte that begins none. -/
def quoteRune : Option Char → List Char
  | none => unicodeText 0xFFFD
  | some c =>
      match escapeLetter c with
      | some letter => ['\\', letter]
      | none =>
          if c.toNat < 0x20 ∨ c = '<' ∨ c = '>' ∨ c = '&' ∨ c.toNat = 0x2028 ∨
              c.toNat = 0x2029 then
            unicodeText c.toNat
          else [c]

/-- `appendString` of `encoding/json` -/
def quoteRunes (text : List (Option Char)) : List Char :=
  '"' :: (text.flatMap quoteRune ++ ['"'])

/-- The text a literal stands for. -/
def unquote (literal : List Char) : Option (List Char) :=
  (stringItems Char.toNat literal).map runes

/-! ### Characters read back -/

/-- A literal goes on with what stands for the character `c`. -/
def ReadsRune (c : Char) (text : List Char) : Prop :=
  ∃ item : StringItem Char, (∀ items, runes (item :: items) = c :: runes items) ∧ ∀ rest,
    stringItemsFrom Char.toNat .inString (text ++ rest) =
      (stringItemsFrom Char.toNat .inString rest).map (item :: ·)

/-- An escape that is no surrogate is its own character. -/
theorem runes_escape
    {u : UInt16} (hhi : isHighSurrogate u.toNat = false) (hlo : isLowSurrogate u.toNat = false)
    (items : List (StringItem Char)) :
    runes (.escape u :: items) = Char.ofNat u.toNat :: runes items := by
  rw [runes.eq_def]
  simp only [hhi, hlo, Bool.false_eq_true, if_false]

/-- A plain character is read as itself. -/
theorem readsRune_self
    {c : Char} (hquote : c ≠ '"') (hslash : c ≠ '\\') (hctl : ¬ c.toNat < 0x20) :
    ReadsRune c [c] := by
  have hquote' : ¬ c.toNat = 0x22 := fun h => hquote (Char.toNat_inj.mp h)
  have hslash' : ¬ c.toNat = 0x5C := fun h => hslash (Char.toNat_inj.mp h)
  refine ⟨.raw c, fun items => ?_, fun rest => ?_⟩
  · rw [runes]
  · rw [List.singleton_append, stringItemsFrom, if_neg hquote', if_neg hslash', if_neg hctl]

/-- A letter after a backslash is read as its character. -/
theorem readsRune_escapeLetter
    {c letter : Char} (h : escapeLetter c = some letter) :
    ReadsRune c ['\\', letter] := by
  have hletter : letter.toNat ≠ 0x75 ∧ simpleEscape letter.toNat = some (UInt16.ofNat c.toNat) ∧
      c.toNat < 0x80 := by
    unfold escapeLetter at h
    split_ifs at h with h₁ h₂ h₃ h₄ h₅ h₆ h₇ <;> cases h
    · subst h₁
      exact ⟨by decide, rfl, by decide⟩
    · subst h₂
      exact ⟨by decide, rfl, by decide⟩
    · rw [h₃]
      exact ⟨by decide, rfl, by decide⟩
    · rw [h₄]
      exact ⟨by decide, rfl, by decide⟩
    · rw [h₅]
      exact ⟨by decide, rfl, by decide⟩
    · rw [h₆]
      exact ⟨by decide, rfl, by decide⟩
    · rw [h₇]
      exact ⟨by decide, rfl, by decide⟩
  obtain ⟨hu, hescape, hlt⟩ := hletter
  have hnat : (UInt16.ofNat c.toNat).toNat = c.toNat := by
    rw [UInt16.toNat_ofNat']
    omega
  refine ⟨.escape (UInt16.ofNat c.toNat), fun items => ?_, fun rest => ?_⟩
  · rw [runes_escape, hnat, Char.ofNat_toNat] <;>
      simp only [hnat, isHighSurrogate, isLowSurrogate, Bool.and_eq_false_iff,
        decide_eq_false_iff_not] <;> omega
  · rw [List.cons_append, List.singleton_append, stringItemsFrom, if_neg (by decide),
      if_pos (by decide), stringItemsFrom, if_neg hu, hescape]

/-- A hexadecimal digit is read as its value. -/
theorem hexDigit_digitChar
    {n : Nat} (h : n < 16) :
    hexDigit (Nat.digitChar n).toNat = some (UInt16.ofNat n) := by
  interval_cases n <;> rfl

/-- Four digits stand for a character that is no surrogate. -/
theorem readsRune_unicodeText
    {c : Char} (hc : c.toNat < 0x10000) :
    ReadsRune c (unicodeText c.toNat) := by
  have hnat : (UInt16.ofNat c.toNat).toNat = c.toNat := by
    rw [UInt16.toNat_ofNat']
    exact Nat.mod_eq_of_lt hc
  have hrange := char_toNat_range c
  refine ⟨.escape (UInt16.ofNat c.toNat), fun items => ?_, fun rest => ?_⟩
  · rw [runes_escape, hnat, Char.ofNat_toNat] <;>
      simp only [hnat, isHighSurrogate, isLowSurrogate, Bool.and_eq_false_iff,
        decide_eq_false_iff_not] <;> omega
  · have hvalue := hexValue_eq (UInt16.ofNat c.toNat)
    rw [hnat] at hvalue
    unfold unicodeText
    simp only [List.cons_append, List.nil_append]
    rw [stringItemsFrom, if_neg (by decide), if_pos (by decide), stringItemsFrom,
      if_pos (by decide), stringItemsFrom, hexDigit_digitChar (by omega)]
    dsimp only
    rw [if_neg (by decide), stringItemsFrom, hexDigit_digitChar (by omega)]
    dsimp only
    rw [if_neg (by decide), stringItemsFrom, hexDigit_digitChar (by omega)]
    dsimp only
    rw [if_neg (by decide), stringItemsFrom, hexDigit_digitChar (by omega)]
    dsimp only
    rw [if_pos (by decide), hvalue]

/-- What is escaped by its number has four digits at most. -/
theorem toNat_lt_of_escaped
    {c : Char}
    (h : c.toNat < 0x20 ∨ c = '<' ∨ c = '>' ∨ c = '&' ∨ c.toNat = 0x2028 ∨ c.toNat = 0x2029) :
    c.toNat < 0x10000 := by
  rcases h with h | rfl | rfl | rfl | h | h
  · omega
  · decide
  · decide
  · decide
  · omega
  · omega

/-- A quoted rune is read back, an invalid byte as the replacement character. -/
theorem readsRune_quoteRune (rune : Option Char) :
    ReadsRune (rune.getD '\uFFFD') (quoteRune rune) := by
  cases rune with
  | none =>
      have hreplacement : ('\uFFFD').toNat < 0x10000 := by decide
      exact readsRune_unicodeText hreplacement
  | some c =>
      rw [quoteRune, Option.getD_some]
      cases hletter : escapeLetter c with
      | some letter => exact readsRune_escapeLetter hletter
      | none =>
          dsimp only
          split_ifs with hescape
          · exact readsRune_unicodeText (toNat_lt_of_escaped hescape)
          · push Not at hescape
            refine readsRune_self ?_ ?_ (not_lt.mpr hescape.1) <;>
            · rintro rfl
              cases hletter

theorem stringItemsFrom_quoteRunes
    (text : List (Option Char)) (rest : List Char) :
    ∃ items, (∀ more, runes (items ++ more) =
        text.map (fun rune => rune.getD '\uFFFD') ++ runes more) ∧
      stringItemsFrom Char.toNat .inString (text.flatMap quoteRune ++ rest) =
        (stringItemsFrom Char.toNat .inString rest).map (items ++ ·) := by
  induction text with
  | nil => exact ⟨[], fun more => rfl, by simp⟩
  | cons rune text ih =>
      obtain ⟨items, hrunes, hread⟩ := ih
      obtain ⟨item, hrune, hstep⟩ := readsRune_quoteRune rune
      refine ⟨item :: items, fun more => ?_, ?_⟩
      · rw [List.cons_append, hrune, hrunes]
        rfl
      · rw [List.flatMap_cons, List.append_assoc, hstep, hread, Option.map_map]
        rfl

/-- A quoted text is read back, with a replacement character for every invalid byte. -/
theorem unquote_quoteRunes
    (text : List (Option Char)) :
    unquote (quoteRunes text) = some (text.map fun rune => rune.getD '\uFFFD') := by
  obtain ⟨items, hrunes, hread⟩ := stringItemsFrom_quoteRunes text ['"']
  have hclose : stringItemsFrom Char.toNat .inString ['"'] = some [] := rfl
  have htext := hrunes []
  rw [List.append_nil] at htext
  rw [unquote, quoteRunes, stringItems, if_pos (by decide), hread, hclose, Option.map_some,
    Option.map_some, List.append_nil, htext]
  exact congrArg some (List.append_nil _)

/-! ### What is written is a literal -/

/-- The scanner goes over a part of a string. -/
def ScansOver (part : List Char) : Prop :=
  ∀ rest, scanString false (part ++ rest) =
    (scanString false rest).map fun p => (part ++ p.1, p.2)

theorem scansOver_nil : ScansOver [] := by
  intro rest
  rw [List.nil_append]
  exact Option.map_id'.symm

/-- What is scanned over part by part is scanned over as a whole. -/
theorem ScansOver.append
    {part part' : List Char} (h : ScansOver part) (h' : ScansOver part') :
    ScansOver (part ++ part') := by
  intro rest
  rw [List.append_assoc, h, h', Option.map_map]
  refine Option.map_congr fun p _ => ?_
  rw [Function.comp_apply, List.append_assoc]

theorem scansOver_char
    {c : Char} (hquote : c ≠ '"') (hslash : c ≠ '\\') :
    ScansOver [c] := by
  intro rest
  rw [List.singleton_append, scanString, if_neg Bool.false_ne_true, if_neg hquote,
    decide_eq_false hslash]
  rfl

/-- A backslash takes the next character with it. -/
theorem scansOver_escape (c : Char) : ScansOver ['\\', c] := by
  intro rest
  have hslash : '\\' ≠ '"' := by decide
  rw [List.cons_append, List.singleton_append, scanString, if_neg Bool.false_ne_true,
    if_neg hslash, decide_eq_true rfl, scanString, if_pos rfl, Option.map_map]
  rfl

theorem scansOver_digitChar
    {n : Nat} (h : n < 16) :
    ScansOver [Nat.digitChar n] := by
  refine scansOver_char ?_ ?_ <;>
  · interval_cases n <;> decide

theorem scansOver_unicodeText
    {n : Nat} (h : n < 0x10000) :
    ScansOver (unicodeText n) :=
  (scansOver_escape 'u').append <| (scansOver_digitChar (by omega)).append <|
    (scansOver_digitChar (by omega)).append <| (scansOver_digitChar (by omega)).append <|
      scansOver_digitChar (by omega)

/-- No quoted rune ends the string. -/
theorem scansOver_quoteRune (rune : Option Char) : ScansOver (quoteRune rune) := by
  cases rune with
  | none => exact scansOver_unicodeText (by decide)
  | some c =>
      rw [quoteRune]
      cases hletter : escapeLetter c with
      | some letter => exact scansOver_escape letter
      | none =>
          dsimp only
          split_ifs with hescape
          · exact scansOver_unicodeText (toNat_lt_of_escaped hescape)
          · refine scansOver_char ?_ ?_ <;>
            · rintro rfl
              cases hletter

/-- A quoted text is a JSON string. -/
theorem isString_quoteRunes (text : List (Option Char)) : IsString (quoteRunes text) := by
  have hscan : ScansOver (text.flatMap quoteRune) := by
    induction text with
    | nil => exact scansOver_nil
    | cons rune text ih =>
        rw [List.flatMap_cons]
        exact (scansOver_quoteRune rune).append ih
  refine ⟨_, rfl, ?_⟩
  rw [hscan]
  rfl

end Lib
end Otelop
