import Mathlib.Data.Bool.AllAny
import Mathlib.Tactic
import Otelop.Lib.Utf8

/-!
# Text in XML documents

A text of bytes is escaped as character data, and character data is read with its references.
What an XML document cannot hold is written as the replacement character.

The writer is `xml.EscapeText`, the reader what a parser does to the text of an element: the
bytes have to be UTF-8, line ends are normalised, and references are resolved, those of
characters by their number and the predefined ones by their name.  A document can hold the
characters of the production `Char`, which leaves out most control characters.

**Results.**
* `readXmlText_escapeText`: what is read back of an escaped text.
* `readXmlText_escapeText_iff`: it is the text if and only if a document can hold it.
* `notMem_escapeText`: characters that are always escaped do not occur.
-/

namespace Otelop
namespace Lib

/-! ### Writing -/

/-- `isInCharacterRange` of `encoding/xml` -/
def isInCharacterRange (c : Char) : Bool :=
  decide (c.toNat = 0x09) || decide (c.toNat = 0x0A) || decide (c.toNat = 0x0D) ||
    decide (0x20 ≤ c.toNat ∧ c.toNat ≤ 0xD7FF) || decide (0xE000 ≤ c.toNat ∧ c.toNat ≤ 0xFFFD) ||
    decide (0x10000 ≤ c.toNat ∧ c.toNat ≤ 0x10FFFF)

def replacementChar : Char := Char.ofNat 0xFFFD

/-- The characters that are written as references. -/
def xmlEscapes : List (Char × List Char) :=
  [('"', ['&', '#', '3', '4', ';']), ('\'', ['&', '#', '3', '9', ';']),
    ('&', ['&', 'a', 'm', 'p', ';']), ('<', ['&', 'l', 't', ';']), ('>', ['&', 'g', 't', ';']),
    ('\t', ['&', '#', 'x', '9', ';']), ('\n', ['&', '#', 'x', 'A', ';']),
    ('\r', ['&', '#', 'x', 'D', ';'])]

def escapeRune : Rune → List Char
  | .invalid _ => [replacementChar]
  | .char c =>
      match xmlEscapes.lookup c with
      | some text => text
      | none => if isInCharacterRange c then [c] else [replacementChar]

/-- `xml.EscapeText` -/
def escapeText (s : List UInt8) : List UInt8 := utf8Bytes ((readRunes s).flatMap escapeRune)

/-! ### Reading -/

/-- The characters of a document, if its encoding is well formed. -/
def documentChars : List Rune → Option (List Char)
  | [] => some []
  | .char c :: rest => (documentChars rest).map (c :: ·)
  | .invalid _ :: _ => none

/-- Line ends are read as one character. -/
def normalizeLineEnds : List Char → List Char
  | [] => []
  | '\r' :: '\n' :: rest => '\n' :: normalizeLineEnds rest
  | '\r' :: rest => '\n' :: normalizeLineEnds rest
  | c :: rest => c :: normalizeLineEnds rest

/-- The value of a digit of a character reference. -/
def referenceDigit (radix : Nat) (c : Char) : Option Nat :=
  let value :=
    if c.isDigit then some (c.toNat - 0x30)
    else if 'a' ≤ c ∧ c ≤ 'f' then some (c.toNat - 0x57)
    else if 'A' ≤ c ∧ c ≤ 'F' then some (c.toNat - 0x37)
    else none
  value.filter fun d => decide (d < radix)

/-- The number that digits are, read from the left behind a value. -/
def referenceValue (radix value : Nat) : List Char → Option Nat
  | [] => some value
  | c :: rest =>
      match referenceDigit radix c with
      | some d => referenceValue radix (value * radix + d) rest
      | none => none

/-- A character by its number, if a document can hold it. -/
def charReference (radix : Nat) (digits : List Char) : Option Char :=
  if digits = [] then none
  else
    match referenceValue radix 0 digits with
    | some n =>
        if n.isValidChar ∧ isInCharacterRange (Char.ofNat n) then some (Char.ofNat n) else none
    | none => none

/-- What stands between an ampersand and a semicolon. -/
def referenceChar : List Char → Option Char
  | ['a', 'm', 'p'] => some '&'
  | ['l', 't'] => some '<'
  | ['g', 't'] => some '>'
  | ['q', 'u', 'o', 't'] => some '"'
  | ['a', 'p', 'o', 's'] => some '\''
  | '#' :: 'x' :: digits => charReference 16 digits
  | '#' :: digits => charReference 10 digits
  | _ => none

inductive XmlState where
  | text
  /-- The name of a reference, as far as it was read. -/
  | reference (name : List Char)

def characterData : XmlState → List Char → Option (List Char)
  | .text, [] => some []
  | .reference _, [] => none
  | .text, c :: rest =>
      if c = '&' then characterData (.reference []) rest
      else if isInCharacterRange c ∧ c ≠ '<' then (characterData .text rest).map (c :: ·)
      else none
  | .reference name, c :: rest =>
      if c = ';' then
        match referenceChar name with
        | some d => (characterData .text rest).map (d :: ·)
        | none => none
      else characterData (.reference (name ++ [c])) rest

/-- The bytes of the text that character data is. -/
def readXmlText (bytes : List UInt8) : Option (List UInt8) := do
  let chars ← documentChars (readRunes bytes)
  let text ← characterData .text (normalizeLineEnds chars)
  return utf8Bytes text

/-! ### Texts that a document can hold -/

/-- The bytes are those of a text of characters that XML allows. -/
def HoldsInXml (s : List UInt8) : Prop :=
  ∃ chars : List Char, s = utf8Bytes chars ∧ ∀ c ∈ chars, isInCharacterRange c = true

/-- The character that is read back for a rune. -/
def shownChar : Rune → Char
  | .invalid _ => replacementChar
  | .char c => if isInCharacterRange c then c else replacementChar

/-- What is shown for a rune may stand in a document. -/
theorem isInCharacterRange_shownChar (r : Rune) : isInCharacterRange (shownChar r) = true := by
  cases r with
  | invalid b =>
      change isInCharacterRange replacementChar = true
      decide
  | char c =>
      rw [shownChar]
      split_ifs with h
      · exact h
      · decide

/-- A part of a text that stands for a character. -/
def ReadsChar (part : List Char) (c : Char) : Prop :=
  ∀ rest, characterData .text (part ++ rest) = (characterData .text rest).map (c :: ·)

/-- A character that needs no escape is read as itself. -/
theorem readsChar_self
    {c : Char} (hand : c ≠ '&') (hless : c ≠ '<') (h : isInCharacterRange c = true) :
    ReadsChar [c] c := by
  intro rest
  rw [List.singleton_append, characterData, if_neg hand, if_pos ⟨h, hless⟩]

/-- Characters that never stand for themselves. -/
def alwaysEscaped : List Char := ['\r', '\n', '<']

/-- An escape is read as its character. -/
theorem readsChar_escape
    {c : Char} {part : List Char} (h : (c, part) ∈ xmlEscapes) :
    ReadsChar part c ∧ isInCharacterRange c = true ∧ ∀ d ∈ alwaysEscaped, d ∉ part := by
  fin_cases h <;>
    exact ⟨fun rest => rfl, by decide, List.all_iff_forall_prop.mp (by decide)⟩

theorem mem_of_lookup
    {c : Char} {part : List Char} (h : xmlEscapes.lookup c = some part) :
    (c, part) ∈ xmlEscapes := by
  obtain ⟨before, after, hsplit, -⟩ := List.lookup_eq_some_iff.mp h
  rw [hsplit]
  exact List.mem_append_right before List.mem_cons_self

theorem ne_of_lookup_eq_none
    {c : Char} (h : xmlEscapes.lookup c = none) :
    ∀ p ∈ xmlEscapes, p.1 ≠ c := by
  rintro p hp rfl
  exact bne_iff_ne.mp (List.lookup_eq_none_iff.mp h p hp) rfl

/-- Every special character has an escape. -/
theorem alwaysEscaped_subset : ∀ d ∈ alwaysEscaped, ∃ p ∈ xmlEscapes, p.1 = d :=
  List.all_iff_forall_prop.mp (by decide)

/-- An escaped rune is read as what is shown for it. -/
theorem readsChar_escapeRune
    (r : Rune) :
    ReadsChar (escapeRune r) (shownChar r) ∧ ∀ d ∈ alwaysEscaped, d ∉ escapeRune r := by
  have hreplacement : ReadsChar [replacementChar] replacementChar ∧
      ∀ d ∈ alwaysEscaped, d ∉ [replacementChar] :=
    ⟨readsChar_self (by decide) (by decide) (by decide),
      List.all_iff_forall_prop.mp (by decide)⟩
  cases r with
  | invalid b => exact hreplacement
  | char c =>
      rw [escapeRune, shownChar]
      cases hlookup : xmlEscapes.lookup c with
      | some part =>
          obtain ⟨hreads, hrange, hclean⟩ := readsChar_escape (mem_of_lookup hlookup)
          dsimp only
          rw [if_pos hrange]
          exact ⟨hreads, hclean⟩
      | none =>
          dsimp only
          have hne := ne_of_lookup_eq_none hlookup
          split_ifs with hrange
          · refine ⟨readsChar_self ?_ ?_ hrange, fun d hd hmem => ?_⟩
            · exact (hne ('&', ['&', 'a', 'm', 'p', ';']) (by decide)).symm
            · exact (hne ('<', ['&', 'l', 't', ';']) (by decide)).symm
            · obtain ⟨p, hp, heq⟩ := alwaysEscaped_subset d hd
              exact hne p hp (heq.trans (List.mem_singleton.mp hmem))
          · exact hreplacement

/-! ### Escaped texts -/

/-- Escaped runes are read one by one. -/
theorem characterData_flatMap
    (runes : List Rune) :
    characterData .text (runes.flatMap escapeRune) = some (runes.map shownChar) := by
  induction runes with
  | nil => rfl
  | cons r runes ih =>
      rw [List.flatMap_cons, (readsChar_escapeRune r).1, ih, Option.map_some, List.map_cons]

/-- Plain characters make up a document. -/
theorem documentChars_map (chars : List Char) : documentChars (chars.map .char) = some chars := by
  induction chars with
  | nil => rfl
  | cons c chars ih => rw [List.map_cons, documentChars, ih, Option.map_some]

/-- Without a carriage return no line end is changed. -/
theorem normalizeLineEnds_eq_self
    {chars : List Char} (h : '\r' ∉ chars) :
    normalizeLineEnds chars = chars := by
  fun_induction normalizeLineEnds chars with
  | case1 => rfl
  | case2 => exact absurd List.mem_cons_self h
  | case3 => exact absurd List.mem_cons_self h
  | case4 c rest _ _ ih => rw [ih fun hmem => h (List.mem_cons_of_mem c hmem)]

/-- An escaped text has none of the special characters. -/
theorem notMem_flatMap_escapeRune
    {c : Char} (hc : c ∈ alwaysEscaped) (runes : List Rune) :
    c ∉ runes.flatMap escapeRune := by
  intro hmem
  obtain ⟨r, -, hr⟩ := List.mem_flatMap.mp hmem
  exact (readsChar_escapeRune r).2 c hc hr

/-- An escaped text is read as what is shown for its runes. -/
theorem readXmlText_escapeText
    (s : List UInt8) :
    readXmlText (escapeText s) = some (utf8Bytes ((readRunes s).map shownChar)) := by
  have hcr := notMem_flatMap_escapeRune (show '\r' ∈ alwaysEscaped by decide) (readRunes s)
  rw [readXmlText, escapeText, readRunes_utf8Bytes, documentChars_map, Option.bind_eq_bind,
    Option.bind_some, normalizeLineEnds_eq_self hcr, characterData_flatMap]
  rfl

/-- A text is read back just when all its characters may stand in a document. -/
theorem readXmlText_escapeText_iff
    (s : List UInt8) :
    readXmlText (escapeText s) = some s ↔ HoldsInXml s := by
  rw [readXmlText_escapeText, Option.some_inj]
  constructor
  · intro h
    refine ⟨_, h.symm, fun c hc => ?_⟩
    obtain ⟨r, -, rfl⟩ := List.mem_map.mp hc
    exact isInCharacterRange_shownChar r
  · rintro ⟨chars, rfl, hrange⟩
    have hshown : ∀ c ∈ chars, (shownChar ∘ Rune.char) c = c := fun c hc => if_pos (hrange c hc)
    rw [readRunes_utf8Bytes, List.map_map, List.map_congr_left hshown, List.map_id']

theorem toNat_of_mem_alwaysEscaped :
    ∀ c ∈ alwaysEscaped, (UInt8.ofNat c.toNat).toNat = c.toNat ∧ c.toNat < 128 :=
  List.all_iff_forall_prop.mp (by decide)

/-- No tag begins in an escaped text, and no line. -/
theorem notMem_escapeText
    {c : Char} (hc : c ∈ alwaysEscaped) (s : List UInt8) :
    UInt8.ofNat c.toNat ∉ escapeText s := by
  intro hmem
  obtain ⟨hcode, hlt⟩ := toNat_of_mem_alwaysEscaped c hc
  obtain ⟨d, hd, hbyte⟩ := List.mem_flatMap.mp hmem
  have hsame := toNat_of_mem_utf8EncodeChar hbyte (by rw [hcode]; exact hlt)
  rw [Char.toNat_inj.mp (hsame.trans hcode)] at hd
  exact notMem_flatMap_escapeRune hc (readRunes s) hd

end Lib
end Otelop
