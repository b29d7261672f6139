import Mathlib.Tactic
import Otelop.Lib.Utf16

/-!
# Patterns with wildcards

A pattern is a sequence of literals and wildcards that a whole text has to match.
Literals are compared up to a folding of letter case.

**Results.**
* `matchAtoms_anyString`: a wildcard stands for any text.
* `matchAtoms_utf16`: matching the encoded text against the encoded pattern is
  matching the text, as no match can split a surrogate pair.
* `matchAtoms_substring`, `matchAtoms_lits`: a text between two wildcards is
  looked for, and one without wildcards is compared.
* `asciiLower_foldAgree`: the foldings of ASCII letters agree.
-/

namespace Otelop
namespace Lib

universe u v

/-- An element of a pattern. -/
inductive Atom (α : Type u) where
  | lit (a : α)
  | anyOne
  | anyString
deriving DecidableEq

/-- The whole text matches; `eq` compares a literal with a character. -/
def matchAtoms {α : Type u} {β : Type v} (eq : α → β → Bool) : List (Atom α) → List β → Bool
  | [], s => s.isEmpty
  | .lit a :: p, s =>
      match s with
      | [] => false
      | b :: rest => eq a b && matchAtoms eq p rest
  | .anyOne :: p, s =>
      match s with
      | [] => false
      | _ :: rest => matchAtoms eq p rest
  | .anyString :: p, s => s.tails.any (matchAtoms eq p)

section Matching

variable {α : Type u} {β : Type v} {eq : α → β → Bool}

/-- A wildcard takes any part off the front. -/
theorem matchAtoms_anyString {p : List (Atom α)} {s : List β} :
    matchAtoms eq (.anyString :: p) s = true ↔ ∃ t, t <:+ s ∧ matchAtoms eq p t = true := by
  simp [matchAtoms]

/-- Literal atoms match one by one. -/
theorem matchAtoms_lits_append
    {p : List (Atom α)} {s : List β} :
    ∀ {us : List α} {vs : List β}, us.length = vs.length →
      matchAtoms eq (us.map Atom.lit ++ p) (vs ++ s) =
        ((us.zip vs).all (fun q => eq q.1 q.2) && matchAtoms eq p s)
  | [], [], _ => by simp
  | u :: us, v :: vs, h => by
      have hlen : us.length = vs.length := by simpa using h
      rw [List.map_cons, List.cons_append, List.cons_append, matchAtoms,
        matchAtoms_lits_append hlen, List.zip_cons_cons, List.all_cons, Bool.and_assoc]

end Matching

/-! ### UTF-16 -/

/-- The foldings of a text and of its code units distinguish the same
characters, and the second leaves surrogates alone. -/
structure FoldAgree (fold : Char → Char) (foldUnit : UInt16 → UInt16) : Prop where
  same : ∀ c d, fold c = fold d ↔ (units c).map foldUnit = (units d).map foldUnit
  high : ∀ u, isHighSurrogate (foldUnit u).toNat = isHighSurrogate u.toNat
  low : ∀ u, isLowSurrogate (foldUnit u).toNat = isLowSurrogate u.toNat

/-- Equality up to case. -/
def sameFold {α β : Type u} [DecidableEq β] (fold : α → β) (a b : α) : Bool :=
  decide (fold a = fold b)

/-- The atoms of the encoded pattern. -/
def Atom.units : Atom Char → List (Atom UInt16)
  | .lit c => (Lib.units c).map .lit
  | .anyOne => [.anyOne]
  | .anyString => [.anyString]

theorem anyString_flatMap_units (p : List (Atom Char)) :
    (Atom.anyString :: p).flatMap Atom.units = .anyString :: p.flatMap Atom.units := rfl

/-- Two texts match without regard to case when they are folded to one. -/
theorem zip_all_sameFold {α β : Type u} [DecidableEq β] (fold : α → β) :
    ∀ {us vs : List α}, us.length = vs.length →
      (us.zip vs).all (fun q => sameFold fold q.1 q.2) =
        decide (us.map fold = vs.map fold)
  | [], [], _ => rfl
  | u :: us, v :: vs, h => by
      have hlen : us.length = vs.length := by simpa using h
      rw [List.zip_cons_cons, List.all_cons, zip_all_sameFold fold hlen]
      simp [sameFold]

/-- Without wildcards, the whole text is compared. -/
theorem matchAtoms_lits {α β : Type u} [DecidableEq β] {fold : α → β} :
    ∀ {p s : List α},
      matchAtoms (sameFold fold) (p.map .lit) s = true ↔ p.map fold = s.map fold
  | [], [] => by simp [matchAtoms]
  | [], d :: s => by simp [matchAtoms]
  | c :: p, [] => by simp [matchAtoms]
  | c :: p, d :: s => by
      rw [List.map_cons, matchAtoms, Bool.and_eq_true, matchAtoms_lits, List.map_cons,
        List.map_cons, List.cons_eq_cons, sameFold, decide_eq_true_eq]

section Utf16

variable {fold : Char → Char} {foldUnit : UInt16 → UInt16}

theorem FoldAgree.sameFold_eq_false_of_high
    (h : FoldAgree fold foldUnit) {u v : UInt16}
    (huv : isHighSurrogate u.toNat ≠ isHighSurrogate v.toNat) :
    sameFold foldUnit u v = false := by
  refine decide_eq_false fun heq => huv ?_
  rw [← h.high u, heq, h.high v]

theorem FoldAgree.sameFold_eq_false_of_low
    (h : FoldAgree fold foldUnit) {u v : UInt16}
    (huv : isLowSurrogate u.toNat ≠ isLowSurrogate v.toNat) :
    sameFold foldUnit u v = false := by
  refine decide_eq_false fun heq => huv ?_
  rw [← h.low u, heq, h.low v]

/-- A literal is compared with the next character as a whole. -/
theorem matchAtoms_units_append
    (h : FoldAgree fold foldUnit) (c d : Char)
    (p : List (Atom UInt16)) (s : List UInt16) :
    matchAtoms (sameFold foldUnit) ((units c).map Atom.lit ++ p) (units d ++ s) =
      (sameFold fold c d && matchAtoms (sameFold foldUnit) p s) := by
  have hsame : sameFold fold c d = decide ((units c).map foldUnit = (units d).map foldUnit) :=
    decide_eq_decide.mpr (h.same c d)
  by_cases hlen : (units c).length = (units d).length
  · rw [matchAtoms_lits_append hlen, zip_all_sameFold foldUnit hlen, hsame]
  · have hne : (units c).map foldUnit ≠ (units d).map foldUnit := by
      intro heq
      exact hlen (by simpa using congrArg List.length heq)
    rw [hsame, decide_eq_false hne, Bool.false_and]
    -- One is a pair and the other is not, so their first units differ.
    rcases units_cases c with ⟨u, hc, hu, -⟩ | ⟨hi, lo, hc, -, hhi, -⟩ <;>
      rcases units_cases d with ⟨v, hd, hv, -⟩ | ⟨hi', lo', hd, -, hhi', -⟩
    · exact absurd (by rw [hc, hd]; rfl) hlen
    · have hfirst : sameFold foldUnit u hi' = false := by
        refine h.sameFold_eq_false_of_high ?_
        rw [(not_surrogate_of_toNat_eq hu).1, hhi']
        exact Bool.false_ne_true
      rw [hc, hd]
      simp [matchAtoms, hfirst]
    · have hfirst : sameFold foldUnit hi v = false := by
        refine h.sameFold_eq_false_of_high ?_
        rw [(not_surrogate_of_toNat_eq hv).1, hhi]
        exact Bool.false_ne_true.symm
      rw [hc, hd]
      simp [matchAtoms, hfirst]
    · exact absurd (by rw [hc, hd]; rfl) hlen

/-- A suffix of an encoded text is an encoded suffix, or starts inside a pair. -/
theorem suffix_utf16 :
    ∀ {s : List Char} {t : List UInt16}, t <:+ utf16 s →
      (∃ s', s' <:+ s ∧ t = utf16 s') ∨
        ∃ lo s', s' <:+ s ∧ isLowSurrogate lo.toNat = true ∧ t = lo :: utf16 s'
  | [], t, h => Or.inl ⟨[], List.suffix_refl _, List.suffix_nil.mp h⟩
  | c :: s, t, h => by
      have htail : t <:+ utf16 s →
          (∃ s', s' <:+ c :: s ∧ t = utf16 s') ∨
            ∃ lo s', s' <:+ c :: s ∧ isLowSurrogate lo.toNat = true ∧ t = lo :: utf16 s' := by
        intro ht
        rcases suffix_utf16 ht with ⟨s', hs, heq⟩ | ⟨lo, s', hs, hlo, heq⟩
        · exact Or.inl ⟨s', hs.trans (List.suffix_cons c s), heq⟩
        · exact Or.inr ⟨lo, s', hs.trans (List.suffix_cons c s), hlo, heq⟩
      have hwhole : t = utf16 (c :: s) →
          (∃ s', s' <:+ c :: s ∧ t = utf16 s') ∨
            ∃ lo s', s' <:+ c :: s ∧ isLowSurrogate lo.toNat = true ∧ t = lo :: utf16 s' :=
        fun heq => Or.inl ⟨c :: s, List.suffix_refl _, heq⟩
      rcases units_cases c with ⟨u, hc, -⟩ | ⟨hi, lo, hc, -, -, hlo, -⟩
      · rw [utf16_cons, hc, List.singleton_append] at h
        rcases List.suffix_cons_iff.mp h with heq | ht
        · exact hwhole (by rw [heq, utf16_cons, hc, List.singleton_append])
        · exact htail ht
      · rw [utf16_cons, hc] at h
        rcases List.suffix_cons_iff.mp h with heq | ht
        · exact hwhole (heq.trans (by simp [hc]))
        · rcases List.suffix_cons_iff.mp ht with heq | ht
          · exact Or.inr ⟨lo, s, List.suffix_cons c s, hlo, heq⟩
          · exact htail ht

/-- A match that starts inside a pair can start behind it as well. -/
theorem matchAtoms_low_cons
    (h : FoldAgree fold foldUnit) {lo : UInt16} (hlo : isLowSurrogate lo.toNat = true)
    {s : List UInt16} :
    ∀ {p : List (Atom Char)}, Atom.anyOne ∉ p →
      matchAtoms (sameFold foldUnit) (p.flatMap Atom.units) (lo :: s) = true →
      matchAtoms (sameFold foldUnit) (p.flatMap Atom.units) s = true
  | [], _, hm => by simp [matchAtoms] at hm
  | .lit c :: p, _, hm => by
      obtain ⟨u, us, hus⟩ := List.exists_cons_of_ne_nil (units_ne_nil c)
      have hu : isLowSurrogate u.toNat = false := by
        rcases units_cases c with ⟨v, hc, hv, -⟩ | ⟨hi, lo, hc, -, hhi, -⟩
        · rw [hc] at hus
          cases hus
          exact (not_surrogate_of_toNat_eq hv).2
        · rw [hc] at hus
          cases hus
          simp only [isHighSurrogate, isLowSurrogate, Bool.and_eq_true, decide_eq_true_eq,
            Bool.and_eq_false_iff, decide_eq_false_iff_not] at hhi ⊢
          omega
      have hfirst : sameFold foldUnit u lo = false :=
        h.sameFold_eq_false_of_low (by rw [hu, hlo]; exact Bool.false_ne_true)
      simp [Atom.units, hus, matchAtoms, hfirst] at hm
  | .anyOne :: p, hne, _ => absurd List.mem_cons_self hne
  | .anyString :: p, hne, hm => by
      have hp : Atom.anyOne ∉ p := fun hmem => hne (List.mem_cons_of_mem _ hmem)
      rw [anyString_flatMap_units] at hm ⊢
      obtain ⟨t, ht, hmt⟩ := matchAtoms_anyString.mp hm
      refine matchAtoms_anyString.mpr ?_
      rcases List.suffix_cons_iff.mp ht with rfl | ht
      · exact ⟨s, List.suffix_refl s, matchAtoms_low_cons h hlo hp hmt⟩
      · exact ⟨t, ht, hmt⟩

/-- A pattern matches the code units of a text just when it matches its characters. -/
theorem matchAtoms_utf16
    (h : FoldAgree fold foldUnit) :
    ∀ {p : List (Atom Char)}, Atom.anyOne ∉ p → ∀ s : List Char,
      matchAtoms (sameFold foldUnit) (p.flatMap Atom.units) (utf16 s) =
        matchAtoms (sameFold fold) p s
  | [], _, s => by
      cases s with
      | nil => rfl
      | cons c s => simp [matchAtoms, units_ne_nil]
  | .lit c :: p, hne, s => by
      have hp : Atom.anyOne ∉ p := fun hmem => hne (List.mem_cons_of_mem _ hmem)
      cases s with
      | nil =>
          obtain ⟨u, us, hus⟩ := List.exists_cons_of_ne_nil (units_ne_nil c)
          simp [Atom.units, hus, matchAtoms]
      | cons d s =>
          rw [List.flatMap_cons, utf16_cons, Atom.units, matchAtoms_units_append h,
            matchAtoms_utf16 h hp s]
          rfl
  | .anyOne :: p, hne, _ => absurd List.mem_cons_self hne
  | .anyString :: p, hne, s => by
      have hp : Atom.anyOne ∉ p := fun hmem => hne (List.mem_cons_of_mem _ hmem)
      rw [anyString_flatMap_units, Bool.eq_iff_iff]
      constructor
      · intro hm
        obtain ⟨t, ht, hmt⟩ := matchAtoms_anyString.mp hm
        refine matchAtoms_anyString.mpr ?_
        rcases suffix_utf16 ht with ⟨s', hs, rfl⟩ | ⟨lo, s', hs, hlo, rfl⟩
        · exact ⟨s', hs, by rwa [matchAtoms_utf16 h hp] at hmt⟩
        · have := matchAtoms_low_cons h hlo hp hmt
          exact ⟨s', hs, by rwa [matchAtoms_utf16 h hp] at this⟩
      · intro hm
        obtain ⟨t, ⟨pre, rfl⟩, hmt⟩ := matchAtoms_anyString.mp hm
        refine matchAtoms_anyString.mpr ⟨utf16 t, ⟨utf16 pre, (utf16_append pre t).symm⟩, ?_⟩
        rwa [matchAtoms_utf16 h hp]

/-- A text contains another just when its code units do. -/
theorem infix_utf16 {p s : List Char} : utf16 p <:+: utf16 s ↔ p <:+: s := by
  constructor
  · intro h
    cases p with
    | nil => exact List.nil_infix
    | cons c p =>
        obtain ⟨t, hp, ht⟩ := List.infix_iff_prefix_suffix.mp h
        rcases suffix_utf16 ht with ⟨s', hs, rfl⟩ | ⟨lo, s', -, hlo, rfl⟩
        · have hprefix : (c :: p) <+: s' := by
            rw [← List.isPrefixOf_iff_prefix, ← utf16_isPrefixOf]
            exact List.isPrefixOf_iff_prefix.mpr hp
          exact hprefix.isInfix.trans hs.isInfix
        · -- No character starts with the second unit of a pair.
          obtain ⟨x, hx⟩ := hp
          rw [utf16_cons] at hx
          rcases units_cases c with ⟨u, hc, hu, -⟩ | ⟨hi, lo', hc, -, hhi, -⟩
          · rw [hc] at hx
            have heq : u = lo := (List.cons.inj hx).1
            rw [← heq, (not_surrogate_of_toNat_eq hu).2] at hlo
            cases hlo
          · rw [hc] at hx
            have heq : hi = lo := (List.cons.inj hx).1
            rw [← heq] at hlo
            simp only [isHighSurrogate, isLowSurrogate, Bool.and_eq_true,
              decide_eq_true_eq] at hhi hlo
            omega
  · rintro ⟨x, y, rfl⟩
    exact ⟨utf16 x, utf16 y, by simp⟩

end Utf16

/-! ### Substrings -/

section Substring

variable {fold : Char → Char}

/-- A text and a wildcard match what starts with the text. -/
theorem matchAtoms_lits_anyString :
    ∀ {p s : List Char},
      matchAtoms (sameFold fold) (p.map .lit ++ [.anyString]) s = true ↔
        p.map fold <+: s.map fold
  | [], s => by
      refine iff_of_true (matchAtoms_anyString.mpr ⟨[], List.nil_suffix, rfl⟩) ?_
      exact List.nil_prefix
  | c :: p, [] => by simp [matchAtoms]
  | c :: p, d :: s => by
      rw [List.map_cons, List.cons_append, matchAtoms, Bool.and_eq_true,
        matchAtoms_lits_anyString, List.map_cons, List.map_cons, List.cons_prefix_cons,
        sameFold, decide_eq_true_eq]

/-- Between two wildcards, a text is looked for as a substring. -/
theorem matchAtoms_substring
    {p s : List Char} :
    matchAtoms (sameFold fold) (.anyString :: (p.map .lit ++ [.anyString])) s = true ↔
      p.map fold <:+: s.map fold := by
  rw [matchAtoms_anyString, List.infix_iff_prefix_suffix]
  constructor
  · rintro ⟨t, ht, hm⟩
    exact ⟨t.map fold, matchAtoms_lits_anyString.mp hm, ht.map fold⟩
  · rintro ⟨t, hp, ht⟩
    rw [List.suffix_iff_eq_drop, ← List.map_drop] at ht
    rw [ht] at hp
    exact ⟨_, List.drop_suffix _ _, matchAtoms_lits_anyString.mpr hp⟩

end Substring

/-! ### ASCII letters -/

/-- The lower case of an ASCII character. -/
def asciiLower (c : Char) : Char :=
  if 0x41 ≤ c.toNat ∧ c.toNat ≤ 0x5A then Char.ofNat (c.toNat + 0x20) else c

def asciiLowerUnit (u : UInt16) : UInt16 :=
  if 0x41 ≤ u.toNat ∧ u.toNat ≤ 0x5A then UInt16.ofNat (u.toNat + 0x20) else u

/-- Lowering ASCII letters goes through the code units. -/
theorem units_asciiLower (c : Char) :
    units (asciiLower c) = (units c).map asciiLowerUnit := by
  by_cases hupper : 0x41 ≤ c.toNat ∧ c.toNat ≤ 0x5A
  · have hlower : (Char.ofNat (c.toNat + 0x20)).toNat = c.toNat + 0x20 :=
      ofNat_toNat_of_valid (Or.inl (by omega))
    rw [asciiLower, if_pos hupper, units_ascii (by omega), units_ascii (by omega),
      List.map_singleton, asciiLowerUnit, jsChar_toNat (by omega), if_pos hupper, jsChar, hlower]
  · rw [asciiLower, if_neg hupper]
    rcases units_cases c with ⟨u, hc, hu, -⟩ | ⟨hi, lo, hc, -, hhi, hlo, -⟩
    · rw [hc, List.map_singleton, asciiLowerUnit, hu, if_neg hupper]
    · simp only [isHighSurrogate, isLowSurrogate, Bool.and_eq_true, decide_eq_true_eq] at hhi hlo
      rw [hc, List.map_cons, List.map_singleton, asciiLowerUnit, asciiLowerUnit,
        if_neg (by omega), if_neg (by omega)]

/-- Lowering ASCII letters is one folding of characters and of code units. -/
theorem asciiLower_foldAgree : FoldAgree asciiLower asciiLowerUnit where
  same c d := by
    rw [← units_asciiLower, ← units_asciiLower]
    constructor
    · intro h
      rw [h]
    · intro h
      exact (units_append_inj (congrArg (· ++ []) h)).1
  high u := by
    by_cases hupper : 0x41 ≤ u.toNat ∧ u.toNat ≤ 0x5A
    · have hlower : (UInt16.ofNat (u.toNat + 0x20)).toNat = u.toNat + 0x20 :=
        UInt16.toNat_ofNat_of_lt (show u.toNat + 0x20 < 65536 by omega)
      rw [asciiLowerUnit, if_pos hupper, hlower, isHighSurrogate, isHighSurrogate]
      simp only [decide_eq_false (show ¬ 0xD800 ≤ u.toNat + 0x20 by omega),
        decide_eq_false (show ¬ 0xD800 ≤ u.toNat by omega)]
      rfl
    · rw [asciiLowerUnit, if_neg hupper]
  low u := by
    by_cases hupper : 0x41 ≤ u.toNat ∧ u.toNat ≤ 0x5A
    · have hlower : (UInt16.ofNat (u.toNat + 0x20)).toNat = u.toNat + 0x20 :=
        UInt16.toNat_ofNat_of_lt (show u.toNat + 0x20 < 65536 by omega)
      rw [asciiLowerUnit, if_pos hupper, hlower, isLowSurrogate, isLowSurrogate]
      simp only [decide_eq_false (show ¬ 0xDC00 ≤ u.toNat + 0x20 by omega),
        decide_eq_false (show ¬ 0xDC00 ≤ u.toNat by omega)]
      rfl
    · rw [asciiLowerUnit, if_neg hupper]

end Lib
end Otelop
