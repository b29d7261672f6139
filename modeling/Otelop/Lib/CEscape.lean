import Mathlib.Tactic
import Otelop.Lib.Utf8

/-!
# Words in double quotes

A word of bytes is quoted with the escapes of C, and read back.  The reader knows more
escapes than the writer uses.

The writer is `strconv.Quote`: printable characters stand for themselves, some control
characters have a letter, and the rest is written in hexadecimal, as a byte where the bytes
are no UTF-8 and as a code point otherwise.  Which characters are printable is a parameter,
since a release of Unicode decides it.  The reader is a state machine over the bytes, with a
state for what stands behind a backslash.

**Results.**
* `readsAs_quoteByRune`: whatever is written for a rune is read as its bytes.
* `readWord_quoteBytes`: a word without a zero byte is read back from its quotation.
* `newline_notMem_quoteBytes`: the quotation of a word without a line break has none.
-/

namespace Otelop
namespace Lib

/-- The bytes of ASCII characters. -/
def asciiBytes (text : String) : List UInt8 := text.toList.map fun c => UInt8.ofNat c.toNat

/-! ### Writing -/

def hexByte (n : Nat) : UInt8 := UInt8.ofNat (if n < 10 then 0x30 + n else 0x57 + n)

/-- The hexadecimal digits of a number, in lower case. -/
def hexDigits : Nat → Nat → List UInt8
  | 0, _ => []
  | width + 1, n => hexByte (n / 16 ^ width % 16) :: hexDigits width n

/-- The letter behind the backslash, for a control character that has one. -/
def escapeByte (n : Nat) : Option UInt8 :=
  [(0x07, 0x61), (0x08, 0x62), (0x0C, 0x66), (0x0A, 0x6E), (0x0D, 0x72), (0x09, 0x74),
    (0x0B, 0x76)].lookup n

/-- `strconv.IsPrint`: what is printable beyond ASCII is left to a table. -/
def isPrint (table : Char → Bool) (c : Char) : Bool :=
  if c.toNat < 0x80 then decide (0x20 ≤ c.toNat ∧ c.toNat < 0x7F) else table c

/-- `appendEscapedRune`, and what `appendQuotedWith` does to a byte that begins no character. -/
def quoteByRune (table : Char → Bool) : Rune → List UInt8
  | .invalid b => 0x5C :: 0x78 :: hexDigits 2 b.toNat
  | .char c =>
      if c.toNat = 0x22 ∨ c.toNat = 0x5C then [0x5C, UInt8.ofNat c.toNat]
      else if isPrint table c then String.utf8EncodeChar c
      else match escapeByte c.toNat with
        | some letter => [0x5C, letter]
        | none =>
            if c.toNat < 0x20 ∨ c.toNat = 0x7F then 0x5C :: 0x78 :: hexDigits 2 c.toNat
            else if c.toNat < 0x10000 then 0x5C :: 0x75 :: hexDigits 4 c.toNat
            else 0x5C :: 0x55 :: hexDigits 8 c.toNat

/-- `strconv.Quote` -/
def quoteBytes (table : Char → Bool) (s : List UInt8) : List UInt8 :=
  0x22 :: ((readRunes s).flatMap (quoteByRune table) ++ [0x22])

/-! ### Reading -/

/-- The value of a hexadecimal digit. -/
def hexByteValue (b : UInt8) : Option Nat :=
  if 0x30 ≤ b.toNat ∧ b.toNat ≤ 0x39 then some (b.toNat - 0x30)
  else if 0x41 ≤ b.toNat ∧ b.toNat ≤ 0x46 then some (b.toNat - 0x37)
  else if 0x61 ≤ b.toNat ∧ b.toNat ≤ 0x66 then some (b.toNat - 0x57)
  else none

def digitByteValue (radix : Nat) (b : UInt8) : Option Nat :=
  (hexByteValue b).filter fun d => decide (d < radix)

/-- The byte an escape of one letter stands for. -/
def namedEscape (b : UInt8) : Option UInt8 :=
  [(0x61, 0x07), (0x62, 0x08), (0x66, 0x0C), (0x6E, 0x0A), (0x72, 0x0D), (0x74, 0x09),
    (0x76, 0x0B), (0x5C, 0x5C), (0x22, 0x22), (0x27, 0x27), (0x73, 0x20)].lookup b

/-- What a numeric escape stands for: a byte, or a character of that code. -/
def numericEscape (raw : Bool) (value : Nat) : Option (List UInt8) :=
  if value = 0 then none
  else if raw then if value < 0x100 then some [UInt8.ofNat value] else none
  else if value.isValidChar then some (String.utf8EncodeChar (Char.ofNat value))
  else none

inductive WordState where
  | plain
  | backslash
  /-- `left` digits of a numeric escape are missing. -/
  | digits (radix left value : Nat) (raw : Bool)

/-- What was read goes before what is read next. -/
def afterBytes (bytes : List UInt8) (read : Option (List UInt8 × List UInt8)) :
    Option (List UInt8 × List UInt8) :=
  read.map fun word => (bytes ++ word.1, word.2)

/-- A word behind its opening quote, and what follows the closing one. -/
def readWord : WordState → List UInt8 → Option (List UInt8 × List UInt8)
  | _, [] => none
  | .plain, b :: rest =>
      if b = 0x22 then some ([], rest)
      else if b = 0x5C then readWord .backslash rest
      else afterBytes [b] (readWord .plain rest)
  | .backslash, b :: rest =>
      match namedEscape b with
      | some c => afterBytes [c] (readWord .plain rest)
      | none =>
          if b = 0x78 then readWord (.digits 16 2 0 true) rest
          else if b = 0x75 then readWord (.digits 16 4 0 false) rest
          else if b = 0x55 then readWord (.digits 16 8 0 false) rest
          else match digitByteValue 8 b with
            | some d => readWord (.digits 8 2 d true) rest
            | none => none
  | .digits radix left value raw, b :: rest =>
      match digitByteValue radix b with
      | none => none
      | some d =>
          if left ≤ 1 then
            match numericEscape raw (value * radix + d) with
            | some bytes => afterBytes bytes (readWord .plain rest)
            | none => none
          else readWord (.digits radix (left - 1) (value * radix + d) raw) rest

/-! ### Parts of a word -/

/-- A part of a quotation stands for these bytes. -/
def ReadsAs (part bytes : List UInt8) : Prop :=
  ∀ rest, readWord .plain (part ++ rest) = afterBytes bytes (readWord .plain rest)

theorem afterBytes_append
    (bytes more : List UInt8) (read : Option (List UInt8 × List UInt8)) :
    afterBytes bytes (afterBytes more read) = afterBytes (bytes ++ more) read := by
  cases read with
  | none => rfl
  | some word =>
      simp only [afterBytes, Option.map_some, List.append_assoc]

theorem ReadsAs.nil : ReadsAs [] [] := by
  intro rest
  rw [List.nil_append]
  cases readWord .plain rest with
  | none => rfl
  | some word => rfl

/-- What is read part by part is read as a whole. -/
theorem ReadsAs.append
    {part part' bytes bytes' : List UInt8} (h : ReadsAs part bytes) (h' : ReadsAs part' bytes') :
    ReadsAs (part ++ part') (bytes ++ bytes') := by
  intro rest
  rw [List.append_assoc, h, h', afterBytes_append]

theorem readsAs_plain
    {b : UInt8} (hquote : b ≠ 0x22) (hslash : b ≠ 0x5C) :
    ReadsAs [b] [b] := by
  intro rest
  rw [List.singleton_append, readWord, if_neg hquote, if_neg hslash]

/-- Bytes other than the quote and the backslash are read as they are. -/
theorem readsAs_plains
    {bytes : List UInt8} (h : ∀ b ∈ bytes, b ≠ 0x22 ∧ b ≠ 0x5C) :
    ReadsAs bytes bytes := by
  induction bytes with
  | nil => exact .nil
  | cons b bytes ih =>
      obtain ⟨hquote, hslash⟩ := h b List.mem_cons_self
      exact (readsAs_plain hquote hslash).append (ih fun c hc => h c (List.mem_cons_of_mem b hc))

/-- An escape with a letter of its own is read as its byte. -/
theorem readsAs_named
    {b c : UInt8} (h : namedEscape b = some c) :
    ReadsAs [0x5C, b] [c] := by
  intro rest
  rw [List.cons_append, List.singleton_append, readWord, if_neg (by decide), if_pos rfl, readWord,
    h]

/-- A hexadecimal digit is read as its value. -/
theorem digitByteValue_hexByte
    {n : Nat} (h : n < 16) :
    digitByteValue 16 (hexByte n) = some n := by
  interval_cases n <;> rfl

/-- The digits of a number are read as it, behind what was read of it. -/
theorem readWord_hexDigits
    (raw : Bool) (width n value : Nat) (rest : List UInt8) :
    readWord (.digits 16 (width + 1) value raw) (hexDigits (width + 1) n ++ rest) =
      match numericEscape raw (value * 16 ^ (width + 1) + n % 16 ^ (width + 1)) with
      | some bytes => afterBytes bytes (readWord .plain rest)
      | none => none := by
  induction width generalizing value with
  | zero =>
      rw [hexDigits, hexDigits, List.cons_append, List.nil_append, readWord,
        digitByteValue_hexByte (Nat.mod_lt _ (by decide))]
      dsimp only
      rw [if_pos (le_refl 1), pow_zero, Nat.div_one, zero_add, pow_one]
  | succ width ih =>
      have hvalue : (value * 16 + n / 16 ^ (width + 1) % 16) * 16 ^ (width + 1) +
          n % 16 ^ (width + 1) = value * 16 ^ (width + 1 + 1) + n % 16 ^ (width + 1 + 1) := by
        rw [pow_succ 16 (width + 1), Nat.mod_mul, Nat.mul_comm (16 ^ (width + 1)) 16]
        ring
      rw [hexDigits, List.cons_append, readWord,
        digitByteValue_hexByte (Nat.mod_lt _ (by decide))]
      dsimp only
      rw [if_neg (by omega), Nat.add_sub_cancel, ih, hvalue]

/-- An escape with a letter and digits. -/
theorem readsAs_digits
    {letter : UInt8} {width : Nat} {raw : Bool}
    (hletter : ∀ rest, readWord .backslash (letter :: rest) =
      readWord (.digits 16 (width + 1) 0 raw) rest)
    {n : Nat} (hn : n < 16 ^ (width + 1)) {bytes : List UInt8}
    (hbytes : numericEscape raw n = some bytes) :
    ReadsAs (0x5C :: letter :: hexDigits (width + 1) n) bytes := by
  intro rest
  rw [List.cons_append, List.cons_append, readWord, if_neg (by decide), if_pos rfl, hletter,
    readWord_hexDigits, zero_mul, zero_add, Nat.mod_eq_of_lt hn, hbytes]

/-! ### A rune -/

theorem utf8EncodeChar_of_lt
    {c : Char} (h : c.toNat < 0x80) :
    String.utf8EncodeChar c = [UInt8.ofNat c.toNat] := by
  rw [String.utf8EncodeChar.eq_def]
  exact if_pos (Nat.le_of_lt_succ h)

/-- The letters that are written for bytes are read as these bytes. -/
theorem namedEscape_of_escapeByte
    {n : Nat} {letter : UInt8} (h : escapeByte n = some letter) :
    n < 0x80 ∧ letter ≠ 0x0A ∧ namedEscape letter = some (UInt8.ofNat n) := by
  obtain ⟨before, after, hsplit, -⟩ := List.lookup_eq_some_iff.mp h
  have hmem : (n, letter) ∈ ([(0x07, 0x61), (0x08, 0x62), (0x0C, 0x66), (0x0A, 0x6E), (0x0D, 0x72),
      (0x09, 0x74), (0x0B, 0x76)] : List (Nat × UInt8)) := by
    rw [hsplit]
    exact List.mem_append_right before List.mem_cons_self
  fin_cases hmem <;> decide

/-- A byte by its number. -/
theorem numericEscape_raw
    {n : Nat} (hpos : n ≠ 0) (hlt : n < 0x100) :
    numericEscape true n = some [UInt8.ofNat n] := by
  rw [numericEscape, if_neg hpos, if_pos rfl, if_pos hlt]

/-- A character by its number. -/
theorem numericEscape_char
    {c : Char} (hpos : c.toNat ≠ 0) :
    numericEscape false c.toNat = some (String.utf8EncodeChar c) := by
  rw [numericEscape, if_neg hpos, if_neg Bool.false_ne_true, if_pos (show c.toNat.isValidChar from c.valid),
    Char.ofNat_toNat]

theorem toNat_lt_of_char (c : Char) : c.toNat < 0x110000 := by
  rcases c.valid with h | h
  · exact (show c.toNat < 0xd800 from h).trans (by decide)
  · exact h.2

/-- Whatever the table of printable characters, a rune is read as its bytes. -/
theorem readsAs_quoteByRune
    (table : Char → Bool) {r : Rune} (hr : 0 ∉ r.bytes) :
    ReadsAs (quoteByRune table r) r.bytes := by
  cases r with
  | invalid b =>
      have hpos : b.toNat ≠ 0 := fun h =>
        hr (List.mem_singleton.mpr (UInt8.toNat_inj.mp h).symm)
      have hescape := numericEscape_raw hpos b.toNat_lt
      rw [UInt8.ofNat_toNat] at hescape
      exact readsAs_digits (fun rest => rfl) b.toNat_lt hescape
  | char c =>
      have hpos : c.toNat ≠ 0 := by
        intro h
        refine hr ?_
        rw [Rune.bytes, utf8EncodeChar_of_lt (by omega), h]
        exact List.mem_singleton.mpr rfl
      rw [quoteByRune, Rune.bytes]
      by_cases hspecial : c.toNat = 0x22 ∨ c.toNat = 0x5C
      · rw [if_pos hspecial, utf8EncodeChar_of_lt (by omega)]
        refine readsAs_named ?_
        rcases hspecial with h | h <;> rw [h] <;> rfl
      rw [if_neg hspecial]
      by_cases hprint : isPrint table c = true
      · rw [if_pos hprint]
        refine readsAs_plains fun b hb => ⟨?_, ?_⟩
        · rintro rfl
          exact hspecial (Or.inl (toNat_of_mem_utf8EncodeChar hb (by decide)))
        · rintro rfl
          exact hspecial (Or.inr (toNat_of_mem_utf8EncodeChar hb (by decide)))
      rw [if_neg hprint]
      cases hletter : escapeByte c.toNat with
      | some letter =>
          obtain ⟨hlt, -, hnamed⟩ := namedEscape_of_escapeByte hletter
          rw [utf8EncodeChar_of_lt hlt]
          exact readsAs_named hnamed
      | none =>
          dsimp only
          split_ifs with hcontrol hshort
          · rw [utf8EncodeChar_of_lt (by omega)]
            exact readsAs_digits (fun rest => rfl) (by omega) (numericEscape_raw hpos (by omega))
          · exact readsAs_digits (fun rest => rfl) (by omega) (numericEscape_char hpos)
          · have hlt : c.toNat < 0x110000 := toNat_lt_of_char c
            exact readsAs_digits (fun rest => rfl) (by omega) (numericEscape_char hpos)

/-! ### A word -/

/-- A quoted word is read as what was quoted, and the rest is left over. -/
theorem readWord_quoteBytes
    (table : Char → Bool) {s : List UInt8} (hs : 0 ∉ s) (rest : List UInt8) :
    ∃ word, quoteBytes table s = 0x22 :: word ∧
      readWord .plain (word ++ rest) = some (s, rest) := by
  have hparts : ∀ runes : List Rune, (∀ r ∈ runes, 0 ∉ r.bytes) →
      ReadsAs (runes.flatMap (quoteByRune table)) (runes.flatMap Rune.bytes) := by
    intro runes hrunes
    induction runes with
    | nil => exact .nil
    | cons r runes ih =>
        exact (readsAs_quoteByRune table (hrunes r List.mem_cons_self)).append
          (ih fun r' hr' => hrunes r' (List.mem_cons_of_mem r hr'))
  have hread := hparts (readRunes s) fun r hr hzero => by
    refine hs ?_
    rw [← flatMap_readRunes s]
    exact List.mem_flatMap.mpr ⟨r, hr, hzero⟩
  rw [flatMap_readRunes] at hread
  refine ⟨_, rfl, ?_⟩
  rw [List.append_assoc, hread, List.singleton_append, readWord, if_pos rfl, afterBytes,
    Option.map_some, List.append_nil]

theorem ne_newline_of_mem_hexDigits
    {width n : Nat} {b : UInt8} (hb : b ∈ hexDigits width n) :
    b ≠ 0x0A := by
  induction width with
  | zero => cases hb
  | succ width ih =>
      rcases List.mem_cons.mp hb with rfl | hb
      · have hdigit : n / 16 ^ width % 16 < 16 := Nat.mod_lt _ (by decide)
        generalize n / 16 ^ width % 16 = d at hdigit
        interval_cases d <;> decide
      · exact ih hb

/-- No escape has a newline. -/
theorem newline_notMem_digits
    {letter : UInt8} (hletter : letter ≠ 0x0A) (width n : Nat) :
    0x0A ∉ 0x5C :: letter :: hexDigits width n := by
  intro hmem
  rcases List.mem_cons.mp hmem with h | hmem
  · cases h
  rcases List.mem_cons.mp hmem with h | hmem
  · exact hletter h.symm
  · exact ne_newline_of_mem_hexDigits hmem rfl

theorem newline_notMem_quoteByRune
    (table : Char → Bool) {r : Rune} (hr : 0x0A ∉ r.bytes) :
    0x0A ∉ quoteByRune table r := by
  cases r with
  | invalid b => exact newline_notMem_digits (by decide) _ _
  | char c =>
      rw [quoteByRune]
      by_cases hspecial : c.toNat = 0x22 ∨ c.toNat = 0x5C
      · rw [if_pos hspecial]
        rcases hspecial with h | h <;> rw [h] <;> decide
      rw [if_neg hspecial]
      by_cases hprint : isPrint table c = true
      · rw [if_pos hprint]
        exact hr
      rw [if_neg hprint]
      cases hletter : escapeByte c.toNat with
      | some letter =>
          have hne := (namedEscape_of_escapeByte hletter).2.1
          intro hmem
          rcases List.mem_cons.mp hmem with h | hmem
          · cases h
          · exact hne (List.mem_singleton.mp hmem).symm
      | none =>
          dsimp only
          split_ifs <;> exact newline_notMem_digits (by decide) _ _

/-- A quoted word has no newline where the text had none. -/
theorem newline_notMem_quoteBytes
    (table : Char → Bool) {s : List UInt8} (hs : 0x0A ∉ s) :
    0x0A ∉ quoteBytes table s := by
  intro hmem
  rcases List.mem_cons.mp hmem with h | hmem
  · cases h
  rcases List.mem_append.mp hmem with hmem | hmem
  · obtain ⟨r, hr, hnewline⟩ := List.mem_flatMap.mp hmem
    refine newline_notMem_quoteByRune table (fun hbytes => hs ?_) hnewline
    rw [← flatMap_readRunes s]
    exact List.mem_flatMap.mpr ⟨r, hr, hbytes⟩
  · cases List.mem_singleton.mp hmem

end Lib
end Otelop
