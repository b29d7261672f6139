import Mathlib.Tactic

/-!
# UTF-8 texts as bytes

A program whose strings are bytes reads them as characters, and a byte that begins no
character is an error of its own.

`readRunes` gives the runes of any bytes: a `Rune` is a character, or one byte that could not
be read as the beginning of one.  `decodeRunes` says only that there was an
error, whereas the runes hold all of the bytes.  The decoder accepts the shortest encoding of
a character only, and no surrogates.

**Results.**
* `decodeRunes_utf8Bytes`: the bytes of a text are read as its characters.
* `readRunes_utf8Bytes`: without an error.
* `readRunes_append`: bytes behind a character are read on their own.
* `flatMap_readRunes`: nothing is lost of bytes that are read with their errors.
-/

namespace Otelop
namespace Lib

/-- The bytes of a text. -/
def utf8Bytes (text : List Char) : List UInt8 := text.flatMap String.utf8EncodeChar

/-- The character the bytes begin with. -/
def leadingRune (bytes : List UInt8) : Option Char :=
  ByteArray.utf8DecodeChar? bytes.toByteArray 0

/-- The characters of the bytes; a byte that begins none is `none`. -/
def decodeRunes (bytes : List UInt8) : List (Option Char) :=
  match bytes with
  | [] => []
  | b :: rest =>
      match leadingRune (b :: rest) with
      | some c => some c :: decodeRunes (rest.drop (c.utf8Size - 1))
      | none => none :: decodeRunes rest
termination_by bytes.length
decreasing_by
  · rw [List.length_drop, List.length_cons]
    omega
  · exact Nat.lt_succ_self _

/-- A character, or a byte that begins none. -/
inductive Rune where
  | char (c : Char)
  | invalid (b : UInt8)
deriving DecidableEq

def Rune.bytes : Rune → List UInt8
  | .char c => String.utf8EncodeChar c
  | .invalid b => [b]

/-- The bytes as `utf8.DecodeRune` reads them, one after the other. -/
def readRunes (bytes : List UInt8) : List Rune :=
  match bytes with
  | [] => []
  | b :: rest =>
      match leadingRune (b :: rest) with
      | some c => .char c :: readRunes (rest.drop (c.utf8Size - 1))
      | none => .invalid b :: readRunes rest
termination_by bytes.length
decreasing_by
  · rw [List.length_drop, List.length_cons]
    omega
  · exact Nat.lt_succ_self _

/-- The bytes are those of a text. -/
def ValidUtf8 (bytes : List UInt8) : Prop := ∃ text, bytes = utf8Bytes text

/-- The first character can be told from the bytes. -/
theorem leadingRune_append
    (c : Char) (rest : List UInt8) :
    leadingRune (String.utf8EncodeChar c ++ rest) = some c := by
  rw [leadingRune, List.toByteArray_append]
  exact ByteArray.utf8DecodeChar?_utf8EncodeChar_append

/-- A character that is read is what the bytes begin with. -/
theorem eq_of_leadingRune
    {bytes : List UInt8} {c : Char} (h : leadingRune bytes = some c) :
    bytes = String.utf8EncodeChar c ++ bytes.drop c.utf8Size := by
  obtain ⟨l, hl⟩ := ByteArray.exists_of_utf8DecodeChar?_eq_some h
  have hbytes : bytes = String.utf8EncodeChar c ++ l.data.toList := by
    have hdata := congrArg (fun b => b.data.toList) hl
    simpa using hdata
  rw [hbytes, List.drop_left' (String.length_utf8EncodeChar c)]

/-- The bytes of a character are read as the character. -/
theorem readRunes_append
    (c : Char) (rest : List UInt8) :
    readRunes (String.utf8EncodeChar c ++ rest) = .char c :: readRunes rest := by
  have hlen : (String.utf8EncodeChar c).length = c.utf8Size := String.length_utf8EncodeChar c
  have hpos := c.utf8Size_pos
  obtain ⟨b, bs, hbytes⟩ := List.exists_cons_of_length_pos (hlen ▸ hpos)
  have hlead := leadingRune_append c rest
  have hdrop : (bs ++ rest).drop (c.utf8Size - 1) = rest := by
    refine List.drop_left' ?_
    rw [hbytes, List.length_cons] at hlen
    omega
  rw [hbytes, List.cons_append] at hlead ⊢
  rw [readRunes, hlead]
  dsimp only
  rw [hdrop]

/-- Nothing of the bytes is lost. -/
theorem flatMap_readRunes (bytes : List UInt8) : (readRunes bytes).flatMap Rune.bytes = bytes := by
  fun_induction readRunes bytes with
  | case1 => rfl
  | case2 b rest c hlead ih =>
      have heq := eq_of_leadingRune hlead
      have hpos := c.utf8Size_pos
      rw [List.flatMap_cons, ih, Rune.bytes]
      obtain ⟨n, hn⟩ := Nat.exists_eq_succ_of_ne_zero hpos.ne'
      rw [hn, List.drop_succ_cons] at heq
      rw [hn, Nat.succ_sub_one]
      exact heq.symm
  | case3 b rest hlead ih => rw [List.flatMap_cons, ih, Rune.bytes, List.singleton_append]

/-- A byte below 0x80 is a character of its own. -/
theorem toNat_of_mem_utf8EncodeChar
    {c : Char} {b : UInt8} (hb : b ∈ String.utf8EncodeChar c) (h : b.toNat < 128) :
    c.toNat = b.toNat := by
  have hval : c.toNat = c.val.toNat := rfl
  rw [String.utf8EncodeChar.eq_def] at hb
  dsimp only at hb
  split_ifs at hb
  all_goals simp only [List.mem_cons, List.not_mem_nil, or_false] at hb
  · rw [hb, hval, UInt8.toNat_ofNat']
    omega
  · rcases hb with rfl | rfl <;> rw [UInt8.toNat_ofNat'] at h <;> omega
  · rcases hb with rfl | rfl | rfl <;> rw [UInt8.toNat_ofNat'] at h <;> omega
  · rcases hb with rfl | rfl | rfl | rfl <;> rw [UInt8.toNat_ofNat'] at h <;> omega

/-- The bytes of a text are read as its characters. -/
theorem readRunes_utf8Bytes
    (text : List Char) :
    readRunes (utf8Bytes text) = text.map .char := by
  induction text with
  | nil => rw [utf8Bytes, List.flatMap_nil, readRunes, List.map_nil]
  | cons c text ih =>
      rw [utf8Bytes, List.flatMap_cons, readRunes_append, List.map_cons]
      exact congrArg _ ih

def Rune.char? : Rune → Option Char
  | .char c => some c
  | .invalid _ => none

theorem decodeRunes_eq_map (bytes : List UInt8) :
    decodeRunes bytes = (readRunes bytes).map Rune.char? := by
  fun_induction readRunes bytes with
  | case1 => rw [decodeRunes, List.map_nil]
  | case2 b rest c hlead ih =>
      rw [decodeRunes, hlead]
      dsimp only
      rw [ih, List.map_cons, Rune.char?]
  | case3 b rest hlead ih =>
      rw [decodeRunes, hlead]
      dsimp only
      rw [ih, List.map_cons, Rune.char?]

/-- No byte of a text is invalid. -/
theorem decodeRunes_utf8Bytes
    (text : List Char) :
    decodeRunes (utf8Bytes text) = text.map some := by
  rw [decodeRunes_eq_map, readRunes_utf8Bytes, List.map_map]
  rfl

end Lib
end Otelop
