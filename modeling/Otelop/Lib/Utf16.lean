import Mathlib.Tactic

/-!
# UTF-16

A program whose strings are sequences of UTF-16 code units and one whose strings are sequences
of characters hold the same text when the first is the encoding of the second.

A character is one unit or a pair of surrogates.  No encoding of a character begins another, so
equality, prefixes and membership of ASCII characters can be decided on either side, and a
program that compares, cuts and searches at ASCII characters does the same to both.  Units that
are no encoding of anything, with a surrogate by itself, are left to `Lib/WellFormed.lean`.

**Results.**
* `units_append_inj`, `utf16_injective`: the encoding is prefix free.
* `jsChar_mem_units`: an ASCII unit stands for an ASCII character only.
* `utf16_isPrefixOf`: prefixes are the same on both sides.
-/

namespace Otelop
namespace Lib

/-- The first unit of a pair. -/
def isHighSurrogate (n : Nat) : Bool := decide (0xD800 ≤ n) && decide (n < 0xDC00)

/-- The second unit of a pair. -/
def isLowSurrogate (n : Nat) : Bool := decide (0xDC00 ≤ n) && decide (n < 0xE000)

/-- The code units of a character. -/
def units (c : Char) : List UInt16 :=
  if c.toNat < 0x10000 then [UInt16.ofNat c.toNat]
  else
    [UInt16.ofNat (0xD800 + (c.toNat - 0x10000) / 0x400),
      UInt16.ofNat (0xDC00 + (c.toNat - 0x10000) % 0x400)]

/-- The code units of a text. -/
def utf16 (s : List Char) : List UInt16 := s.flatMap units

/-- The unit of a character below `0x10000`. -/
def jsChar (c : Char) : UInt16 := UInt16.ofNat c.toNat

@[simp] theorem utf16_nil : utf16 [] = [] := rfl

@[simp] theorem utf16_cons (c : Char) (s : List Char) :
    utf16 (c :: s) = units c ++ utf16 s := rfl

/-- The code units of two texts one after the other. -/
@[simp] theorem utf16_append (s t : List Char) :
    utf16 (s ++ t) = utf16 s ++ utf16 t :=
  List.flatMap_append

/-- No character is a surrogate. -/
theorem char_toNat_range (c : Char) :
    c.toNat < 0xD800 ∨ 0xE000 ≤ c.toNat ∧ c.toNat < 0x110000 := by
  rcases c.valid with h | ⟨h, h'⟩
  · exact Or.inl h
  · exact Or.inr ⟨h, h'⟩

theorem ofNat_toNat_of_valid {n : Nat} (h : n.isValidChar) : (Char.ofNat n).toNat = n := by
  rw [Char.ofNat, dif_pos h]
  rfl

/-- A character is one unit that is no surrogate, or a surrogate pair. -/
theorem units_cases (c : Char) :
    (∃ u : UInt16, units c = [u] ∧ u.toNat = c.toNat ∧ c.toNat < 0x10000) ∨
      ∃ hi lo : UInt16, units c = [hi, lo] ∧ 0x10000 ≤ c.toNat ∧
        isHighSurrogate hi.toNat = true ∧ isLowSurrogate lo.toNat = true ∧
        c.toNat = 0x10000 + (hi.toNat - 0xD800) * 0x400 + (lo.toNat - 0xDC00) := by
  by_cases hc : c.toNat < 0x10000
  · refine Or.inl ⟨UInt16.ofNat c.toNat, if_pos hc, ?_, hc⟩
    exact UInt16.toNat_ofNat_of_lt hc
  · have hrange := char_toNat_range c
    refine Or.inr ⟨_, _, if_neg hc, by omega, ?_⟩
    rw [UInt16.toNat_ofNat', UInt16.toNat_ofNat']
    simp only [isHighSurrogate, isLowSurrogate, Bool.and_eq_true, decide_eq_true_eq]
    omega

theorem units_ne_nil (c : Char) : units c ≠ [] := by
  rcases units_cases c with ⟨u, h, -⟩ | ⟨hi, lo, h, -⟩ <;> simp [h]

/-- A unit that is the value of a character is no surrogate. -/
theorem not_surrogate_of_toNat_eq
    {u : UInt16} {c : Char} (h : u.toNat = c.toNat) :
    isHighSurrogate u.toNat = false ∧ isLowSurrogate u.toNat = false := by
  have hrange := char_toNat_range c
  simp only [isHighSurrogate, isLowSurrogate, Bool.and_eq_false_iff, decide_eq_false_iff_not]
  omega

/-- The first character can be told from the code units. -/
theorem units_append_inj
    {c d : Char} {x y : List UInt16}
    (h : units c ++ x = units d ++ y) :
    c = d ∧ x = y := by
  rcases units_cases c with ⟨u, hc, hu, -⟩ | ⟨hi, lo, hc, hbig, hhi, hlo, hval⟩ <;>
    rcases units_cases d with ⟨v, hd, hv, -⟩ | ⟨hi', lo', hd, hbig', hhi', hlo', hval'⟩ <;>
    rw [hc, hd] at h <;>
    simp only [List.cons_append, List.nil_append, List.cons.injEq] at h
  · obtain ⟨rfl, rfl⟩ := h
    exact ⟨Char.toNat_inj.mp (hu.symm.trans hv), rfl⟩
  · rw [← h.1, (not_surrogate_of_toNat_eq hu).1] at hhi'
    cases hhi'
  · rw [h.1, (not_surrogate_of_toNat_eq hv).1] at hhi
    cases hhi
  · obtain ⟨rfl, rfl, rfl⟩ := h
    exact ⟨Char.toNat_inj.mp (hval.trans hval'.symm), rfl⟩

/-- Different texts have different code units. -/
theorem utf16_injective : Function.Injective utf16
  | [], [], _ => rfl
  | [], d :: t, h => absurd (List.append_eq_nil_iff.mp h.symm).1 (units_ne_nil d)
  | c :: s, [], h => absurd (List.append_eq_nil_iff.mp h).1 (units_ne_nil c)
  | c :: s, d :: t, h => by
      obtain ⟨rfl, hst⟩ := units_append_inj h
      rw [utf16_injective hst]

@[simp] theorem utf16_inj {s t : List Char} : utf16 s = utf16 t ↔ s = t :=
  utf16_injective.eq_iff

@[simp] theorem utf16_eq_nil {s : List Char} : utf16 s = [] ↔ s = [] :=
  utf16_inj (t := [])

/-- A text starts with another just when its code units do. -/
theorem utf16_isPrefixOf :
    ∀ (p s : List Char), (utf16 p).isPrefixOf (utf16 s) = p.isPrefixOf s := by
  intro p s
  rw [Bool.eq_iff_iff, List.isPrefixOf_iff_prefix, List.isPrefixOf_iff_prefix]
  constructor
  · rintro ⟨x, hx⟩
    induction p generalizing s with
    | nil => exact List.nil_prefix
    | cons c p ih =>
        cases s with
        | nil =>
            rw [utf16_cons, List.append_assoc] at hx
            exact absurd (List.append_eq_nil_iff.mp hx).1 (units_ne_nil c)
        | cons d s =>
            rw [utf16_cons, utf16_cons, List.append_assoc] at hx
            obtain ⟨rfl, hrest⟩ := units_append_inj hx
            exact (List.prefix_cons_inj c).mpr (ih s hrest)
  · rintro ⟨t, rfl⟩
    rw [utf16_append]
    exact List.prefix_append _ _

/-! ### ASCII characters -/

theorem jsChar_toNat {a : Char} (ha : a.toNat < 0x80) : (jsChar a).toNat = a.toNat :=
  UInt16.toNat_ofNat_of_lt (ha.trans (by decide))

/-- An ASCII character is one code unit. -/
theorem units_ascii {a : Char} (ha : a.toNat < 0x80) : units a = [jsChar a] :=
  if_pos (ha.trans (by decide))

/-- The unit of an ASCII character occurs in no other character. -/
theorem jsChar_mem_units
    {a : Char} (ha : a.toNat < 0x80) (d : Char) :
    jsChar a ∈ units d ↔ d = a := by
  constructor
  · intro h
    rcases units_cases d with ⟨u, hd, hu, -⟩ | ⟨hi, lo, hd, -, hhi, hlo, -⟩ <;>
      rw [hd] at h
    · rw [← List.mem_singleton.mp h, jsChar_toNat ha] at hu
      exact Char.toNat_inj.mp hu.symm
    · simp only [isHighSurrogate, isLowSurrogate, Bool.and_eq_true, decide_eq_true_eq] at hhi hlo
      have hnat := jsChar_toNat ha
      rcases List.mem_cons.mp h with h | h
      · rw [h] at hnat
        omega
      · rw [List.mem_singleton.mp h] at hnat
        omega
  · rintro rfl
    simp [units_ascii ha]

end Lib
end Otelop
