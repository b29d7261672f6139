import Mathlib.Tactic
import Otelop.Lib.WellFormed

/-!
# Form encoding

Names and values of a query string, as they are written and read.  ASCII is escaped as in a
form; a unit outside ASCII is escaped as a unit, where a browser escapes the bytes of its
character.

Both have what a reader relies on, and no more is proved here: an encoded text has no `&` and no
`=`, and it is decoded to the text.  A space is a plus sign.  A text is made well formed before
it is written, as a browser does it, so a lone surrogate comes back as the replacement
character.

**Results.**
* `formDecode_formEncode`: an encoded text is decoded to the text.
* `formEncode_ne`: it has neither `&` nor `=`.
* `readParams_writeParams`: parameters are read as they were written, with lone surrogates
  replaced.
-/

namespace Otelop
namespace Lib

/-- A unit that stands for itself. -/
def isFormUnit (u : UInt16) : Bool :=
  decide (0x30 ≤ u.toNat ∧ u.toNat ≤ 0x39) || decide (0x41 ≤ u.toNat ∧ u.toNat ≤ 0x5A) ||
    decide (0x61 ≤ u.toNat ∧ u.toNat ≤ 0x7A) ||
    decide (u ∈ ([0x2A, 0x2D, 0x2E, 0x5F] : List UInt16))

/-- A hexadecimal digit, in upper case. -/
def upperHexChar (n : Nat) : UInt16 := UInt16.ofNat (if n < 10 then 0x30 + n else 0x37 + n)

/-- What is written for a unit. -/
def formUnit (u : UInt16) : List UInt16 :=
  if isFormUnit u then [u]
  else if u = 0x20 then [0x2B]
  else if u.toNat < 0x80 then
    [0x25, upperHexChar (u.toNat / 16), upperHexChar (u.toNat % 16)]
  else
    [0x25, 0x75, upperHexChar (u.toNat / 4096), upperHexChar (u.toNat / 256 % 16),
      upperHexChar (u.toNat / 16 % 16), upperHexChar (u.toNat % 16)]

/-- A text, unit by unit. -/
def formEncode (s : List UInt16) : List UInt16 := s.flatMap formUnit

/-- The value of the digits, which are read from the left. -/
def hexValue (digits : List UInt16) : UInt16 :=
  digits.foldl (fun value d => value * 16 + (hexDigit d.toNat).getD 0) 0

/-- The text that an encoded one stands for. -/
def formDecode : List UInt16 → List UInt16
  | [] => []
  | u :: rest =>
      if u = 0x2B then 0x20 :: formDecode rest
      else if u = 0x25 then
        match rest with
        | a :: b :: rest =>
            if a = 0x75 then
              match rest with
              | c :: d :: e :: rest => hexValue [b, c, d, e] :: formDecode rest
              | _ => []
            else hexValue [a, b] :: formDecode rest
        | _ => []
      else u :: formDecode rest

/-- `name=value` -/
def writeParam (param : List UInt16 × List UInt16) : List UInt16 :=
  formEncode (toWellFormed param.1) ++ 0x3D :: formEncode (toWellFormed param.2)

/-- The parameters, one after another. -/
def writeParams (params : List (List UInt16 × List UInt16)) : List UInt16 :=
  List.intercalate [0x26] (params.map writeParam)

/-- The name and the value around the first `=`. -/
def readParam (text : List UInt16) : List UInt16 × List UInt16 :=
  (formDecode (text.takeWhile fun u => u ≠ 0x3D),
    formDecode ((text.dropWhile fun u => u ≠ 0x3D).drop 1))

/-- The parameters of a text, which a question mark may start. -/
def readParams (text : List UInt16) : List (List UInt16 × List UInt16) :=
  let text := if text.head? = some 0x3F then text.drop 1 else text
  ((text.splitOn 0x26).filter fun part => !part.isEmpty).map readParam

theorem hexDigit_upperHexChar {n : Nat} (h : n < 16) :
    hexDigit (upperHexChar n).toNat = some (UInt16.ofNat n) := by
  interval_cases n <;> rfl

theorem upperHexChar_ne {n : Nat} (h : n < 16) : upperHexChar n ≠ 0x75 := by
  interval_cases n <;> decide

/-- Four digits of a unit have its value. -/
theorem hexValue_four (u : UInt16) :
    hexValue [upperHexChar (u.toNat / 4096), upperHexChar (u.toNat / 256 % 16),
      upperHexChar (u.toNat / 16 % 16), upperHexChar (u.toNat % 16)] = u := by
  have hlt := u.toNat_lt
  simp only [hexValue, List.foldl_cons, List.foldl_nil,
    hexDigit_upperHexChar (show u.toNat / 4096 < 16 by omega),
    hexDigit_upperHexChar (show u.toNat / 256 % 16 < 16 by omega),
    hexDigit_upperHexChar (show u.toNat / 16 % 16 < 16 by omega),
    hexDigit_upperHexChar (show u.toNat % 16 < 16 by omega), Option.getD_some]
  exact hexValue_eq u

/-- Two digits of an ASCII unit have its value. -/
theorem hexValue_two {u : UInt16} (h : u.toNat < 0x80) :
    hexValue [upperHexChar (u.toNat / 16), upperHexChar (u.toNat % 16)] = u := by
  simp only [hexValue, List.foldl_cons, List.foldl_nil,
    hexDigit_upperHexChar (show u.toNat / 16 < 16 by omega),
    hexDigit_upperHexChar (show u.toNat % 16 < 16 by omega), Option.getD_some]
  apply UInt16.toNat_inj.mp
  simp only [UInt16.toNat_add, UInt16.toNat_mul, UInt16.toNat_ofNat', UInt16.reduceToNat]
  omega

/-- An encoded code unit is decoded. -/
theorem formDecode_formUnit (u : UInt16) (rest : List UInt16) :
    formDecode (formUnit u ++ rest) = u :: formDecode rest := by
  unfold formUnit
  split_ifs with hplain hspace hascii
  · have hplus : u ≠ 0x2B := by
      rintro rfl
      exact absurd hplain (by decide)
    have hpercent : u ≠ 0x25 := by
      rintro rfl
      exact absurd hplain (by decide)
    rw [List.singleton_append, formDecode.eq_def]
    simp [hplus, hpercent]
  · rw [List.singleton_append, formDecode.eq_def]
    simp [hspace]
  · have hne := upperHexChar_ne (show u.toNat / 16 < 16 by omega)
    rw [List.cons_append, List.cons_append, List.singleton_append, formDecode.eq_def]
    simp [hne, hexValue_two hascii]
  · simp only [List.cons_append, List.nil_append]
    rw [formDecode.eq_def]
    simp [hexValue_four]

/-- An encoded text is decoded. -/
theorem formDecode_formEncode (s : List UInt16) : formDecode (formEncode s) = s := by
  induction s with
  | nil => rfl
  | cons u s ih => rw [formEncode, List.flatMap_cons, formDecode_formUnit, ← formEncode, ih]

/-- No separator is left in an encoded text. -/
theorem formEncode_ne {sep : UInt16} (hsep : sep = 0x26 ∨ sep = 0x3D)
    (s : List UInt16) : ∀ u ∈ formEncode s, u ≠ sep := by
  have hdigit : ∀ n, n < 16 → upperHexChar n ≠ sep := by
    intro n hn
    rcases hsep with rfl | rfl <;> interval_cases n <;> decide
  have hplain : isFormUnit sep = false := by
    rcases hsep with rfl | rfl <;> decide
  have hsigns : (0x2B : UInt16) ≠ sep ∧ (0x25 : UInt16) ≠ sep ∧ (0x75 : UInt16) ≠ sep := by
    rcases hsep with rfl | rfl <;> decide
  intro u hu
  obtain ⟨v, -, hv⟩ := List.mem_flatMap.mp hu
  have hlt := v.toNat_lt
  unfold formUnit at hv
  split_ifs at hv with hform hspace hascii
  · obtain rfl := List.mem_singleton.mp hv
    rintro rfl
    rw [hplain] at hform
    cases hform
  · obtain rfl := List.mem_singleton.mp hv
    exact hsigns.1
  · simp only [List.mem_cons, List.not_mem_nil, or_false] at hv
    rcases hv with rfl | rfl | rfl
    · exact hsigns.2.1
    · exact hdigit _ (by omega)
    · exact hdigit _ (by omega)
  · simp only [List.mem_cons, List.not_mem_nil, or_false] at hv
    rcases hv with rfl | rfl | rfl | rfl | rfl | rfl
    · exact hsigns.2.1
    · exact hsigns.2.2
    all_goals exact hdigit _ (by omega)

/-- A parameter is read as what it was, made well formed. -/
theorem readParam_writeParam (param : List UInt16 × List UInt16) :
    readParam (writeParam param) = (toWellFormed param.1, toWellFormed param.2) := by
  have hname : ∀ u ∈ formEncode (toWellFormed param.1), decide (u ≠ 0x3D) = true := by
    intro u hu
    exact decide_eq_true (formEncode_ne (Or.inr rfl) _ u hu)
  rw [readParam, writeParam, List.takeWhile_append_of_pos hname,
    List.dropWhile_append_of_pos hname]
  simp [formDecode_formEncode]

theorem writeParam_ne_nil (param : List UInt16 × List UInt16) : writeParam param ≠ [] := by
  simp [writeParam]

/-- What was written is read back, behind a question mark. -/
theorem readParams_writeParams (params : List (List UInt16 × List UInt16)) :
    readParams (0x3F :: writeParams params) =
      params.map fun param => (toWellFormed param.1, toWellFormed param.2) := by
  have hsep : ∀ part ∈ params.map writeParam, (0x26 : UInt16) ∉ part := by
    intro part hpart hmem
    obtain ⟨param, -, rfl⟩ := List.mem_map.mp hpart
    rcases List.mem_append.mp hmem with hmem | hmem
    · exact formEncode_ne (Or.inl rfl) _ _ hmem rfl
    · rcases List.mem_cons.mp hmem with hmem | hmem
      · exact absurd hmem (by decide)
      · exact formEncode_ne (Or.inl rfl) _ _ hmem rfl
  have hparts : ((writeParams params).splitOn 0x26).filter (fun part => !part.isEmpty) =
      params.map writeParam := by
    cases params with
    | nil => rfl
    | cons param params =>
        rw [writeParams, List.splitOn_intercalate _ hsep (by simp), List.filter_eq_self]
        intro part hpart
        obtain ⟨param', -, rfl⟩ := List.mem_map.mp hpart
        simpa using writeParam_ne_nil param'
  rw [readParams]
  simp only [List.head?_cons, if_true, List.drop_one, List.tail_cons]
  rw [hparts, List.map_map]
  exact List.map_congr_left fun param _ => readParam_writeParam param

theorem writeParams_ne_nil {params : List (List UInt16 × List UInt16)} (h : params ≠ []) :
    writeParams params ≠ [] := by
  obtain ⟨param, params, rfl⟩ := List.exists_cons_of_ne_nil h
  cases params with
  | nil => simpa [writeParams, List.intercalate] using writeParam_ne_nil param
  | cons next params =>
      rw [writeParams, List.map_cons, List.map_cons, List.intercalate_cons_cons]
      simp

end Lib
end Otelop
