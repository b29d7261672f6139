import Mathlib.Tactic
import Otelop.Lib.JsonQuote

/-!
# Well-formed texts

A text of UTF-16 code units is well formed when every surrogate is part of a pair.  Where
characters are needed, a lone surrogate is replaced.

`toWellFormed` goes through a text and replaces what is lone, and a text is well formed when
that changes nothing.  Whether a surrogate is lone depends on its neighbours, so a text made of
two well-formed ones is well formed, while the halves of a well-formed text need not be.

**Results.**
* `toWellFormed_append`: what follows a well-formed text is replaced on its own.
* `wellFormed_quoteString`: a JSON literal is well formed.
* `utf16_textChars`: a text is sent as its characters.
* `noLoneSurrogate_of_wellFormed`: the literal of a well-formed text escapes no lone surrogate.
-/

namespace Otelop
namespace Lib

def isSurrogate (u : UInt16) : Bool := isHighSurrogate u.toNat || isLowSurrogate u.toNat

/-- What stands for a unit that is not part of a pair. -/
def replaceLone (u : UInt16) : UInt16 := if isSurrogate u then 0xFFFD else u

/-- Every lone surrogate is replaced. -/
def toWellFormed : List UInt16 → List UInt16
  | [] => []
  | [u] => [replaceLone u]
  | u :: v :: rest =>
      if isHighSurrogate u.toNat && isLowSurrogate v.toNat then u :: v :: toWellFormed rest
      else replaceLone u :: toWellFormed (v :: rest)

def WellFormed (s : List UInt16) : Prop := toWellFormed s = s

instance (s : List UInt16) : Decidable (WellFormed s) :=
  inferInstanceAs (Decidable (toWellFormed s = s))

theorem replaceLone_eq_self {u : UInt16} (h : replaceLone u = u) : isSurrogate u = false := by
  unfold replaceLone at h
  split_ifs at h with hsurrogate
  · rw [← h]
    decide
  · simpa using hsurrogate

theorem replaceLone_of_not {u : UInt16} (h : isSurrogate u = false) : replaceLone u = u :=
  if_neg (by simp [h])

/-- A unit that is no surrogate stands for itself. -/
theorem toWellFormed_cons
    {u : UInt16} (h : isSurrogate u = false) (rest : List UInt16) :
    toWellFormed (u :: rest) = u :: toWellFormed rest := by
  cases rest with
  | nil => exact congrArg (fun v => [v]) (replaceLone_of_not h)
  | cons v rest =>
      rw [isSurrogate, Bool.or_eq_false_iff] at h
      rw [toWellFormed, if_neg (by simp [h.1]), replaceLone_of_not (by simp [isSurrogate, h])]

/-- A well-formed front is left as it is. -/
theorem toWellFormed_append
    {x : List UInt16} (h : WellFormed x) (y : List UInt16) :
    toWellFormed (x ++ y) = x ++ toWellFormed y := by
  unfold WellFormed at h
  fun_induction toWellFormed x with
  | case1 => rfl
  | case2 u =>
      rw [List.singleton_append, toWellFormed_cons (replaceLone_eq_self (List.cons.inj h).1)]
      rfl
  | case3 u v rest hpair ih =>
      have hrest : toWellFormed rest = rest := by simpa using h
      rw [List.cons_append, List.cons_append, toWellFormed, if_pos hpair, ih hrest]
      rfl
  | case4 u v rest hpair ih =>
      obtain ⟨hu, hrest⟩ := List.cons.inj h
      rw [List.cons_append, toWellFormed_cons (replaceLone_eq_self hu), ih hrest]
      rfl

theorem WellFormed.eq {x : List UInt16} (h : WellFormed x) : toWellFormed x = x := h

/-- A unit that is no surrogate separates. -/
theorem toWellFormed_append_cons
    {u : UInt16} (h : isSurrogate u = false) (x y : List UInt16) :
    toWellFormed (x ++ u :: y) = toWellFormed x ++ u :: toWellFormed y := by
  have hlow : isLowSurrogate u.toNat = false := (Bool.or_eq_false_iff.mp h).2
  fun_induction toWellFormed x with
  | case1 => exact toWellFormed_cons h y
  | case2 v =>
      rw [List.singleton_append, toWellFormed, if_neg (by simp [hlow]), toWellFormed_cons h]
      rfl
  | case3 v w rest hpair ih =>
      rw [List.cons_append, List.cons_append, toWellFormed, if_pos hpair, ih]
      rfl
  | case4 v w rest hpair ih =>
      rw [List.cons_append, List.cons_append, toWellFormed, if_neg hpair, ← List.cons_append, ih]
      rfl

/-- As many code units as before. -/
theorem length_toWellFormed (x : List UInt16) : (toWellFormed x).length = x.length := by
  fun_induction toWellFormed x with
  | case1 => rfl
  | case2 u => rfl
  | case3 u v rest hpair ih => rw [List.length_cons, List.length_cons, ih]; rfl
  | case4 u v rest hpair ih => rw [List.length_cons, ih]; rfl

/-- Two well-formed texts one after the other. -/
theorem WellFormed.append
    {x y : List UInt16} (hx : WellFormed x) (hy : WellFormed y) : WellFormed (x ++ y) := by
  rw [WellFormed, toWellFormed_append hx, hy]

/-- A well-formed text in front does not matter. -/
theorem wellFormed_append_iff
    {x y : List UInt16} (hx : WellFormed x) : WellFormed (x ++ y) ↔ WellFormed y := by
  rw [WellFormed, toWellFormed_append hx, List.append_cancel_left_eq, WellFormed]

/-- A text without surrogates is well formed. -/
theorem wellFormed_of_forall {x : List UInt16} (h : ∀ u ∈ x, isSurrogate u = false) :
    WellFormed x := by
  induction x with
  | nil => rfl
  | cons u x ih =>
      obtain ⟨hu, hx⟩ := List.forall_mem_cons.mp h
      rw [WellFormed, toWellFormed_cons hu, ih hx]

theorem isSurrogate_hexChar {n : Nat} (h : n < 16) : isSurrogate (hexChar n) = false := by
  interval_cases n <;> decide

theorem wellFormed_unicodeEscape (u : UInt16) : WellFormed (unicodeEscape u) := by
  have hlt := u.toNat_lt
  have hdigit : ∀ n, n < 16 → WellFormed [hexChar n] := fun n hn =>
    wellFormed_of_forall (by simpa using isSurrogate_hexChar hn)
  have hstart : WellFormed [0x5C, 0x75] := by decide
  exact hstart.append
    ((hdigit _ (by omega)).append
      ((hdigit _ (by omega)).append ((hdigit _ (by omega)).append (hdigit _ (by omega)))))

/-- A quoted code unit is well formed. -/
theorem wellFormed_quoteUnit (u : UInt16) : WellFormed (quoteUnit u) := by
  unfold quoteUnit
  cases hshort : shortEscape u with
  | some letter =>
      have hletter : isSurrogate letter = false := by
        unfold shortEscape at hshort
        split_ifs at hshort <;> cases hshort <;> decide
      refine wellFormed_of_forall ?_
      rw [List.forall_mem_cons, List.forall_mem_singleton]
      exact ⟨by decide, hletter⟩
  | none =>
      dsimp only
      split_ifs with hescape
      · exact wellFormed_unicodeEscape u
      · simp only [Bool.or_eq_true, not_or, Bool.not_eq_true] at hescape
        refine wellFormed_of_forall ?_
        rw [List.forall_mem_singleton, isSurrogate, hescape.1.2, hescape.2]
        rfl

/-- A quoted text is well formed. -/
theorem wellFormed_quoteBody (s : List UInt16) : WellFormed (quoteBody s) := by
  fun_induction quoteBody s with
  | case1 => rfl
  | case2 u => exact wellFormed_quoteUnit u
  | case3 u v rest hpair ih => rw [WellFormed, toWellFormed, if_pos hpair, ih]
  | case4 u v rest hpair ih => exact (wellFormed_quoteUnit u).append ih

/-- A JSON literal is well formed. -/
theorem wellFormed_quoteString (s : List UInt16) : WellFormed (quoteString s) := by
  have hquote : WellFormed [0x22] := by decide
  exact hquote.append ((wellFormed_quoteBody s).append hquote)

/-! ### Characters -/

/-- The characters of a text, in which every lone surrogate is replaced. -/
def textChars : List UInt16 → List Char
  | [] => []
  | [u] => [Char.ofNat (replaceLone u).toNat]
  | u :: v :: rest =>
      if isHighSurrogate u.toNat && isLowSurrogate v.toNat then pairChar u v :: textChars rest
      else Char.ofNat (replaceLone u).toNat :: textChars (v :: rest)

theorem isSurrogate_replaceLone (u : UInt16) : isSurrogate (replaceLone u) = false := by
  unfold replaceLone
  split_ifs with h
  · decide
  · simpa using h

/-- What takes the place of a code unit is a character. -/
theorem units_replaceLone (u : UInt16) :
    units (Char.ofNat (replaceLone u).toNat) = [replaceLone u] := by
  have h := Bool.or_eq_false_iff.mp (isSurrogate_replaceLone u)
  exact units_ofNat h.1 h.2

/-- A text is sent as its characters. -/
theorem utf16_textChars (s : List UInt16) : utf16 (textChars s) = toWellFormed s := by
  fun_induction toWellFormed s with
  | case1 => rfl
  | case2 u => rw [textChars, utf16_cons, units_replaceLone, utf16_nil, List.append_nil]
  | case3 u v rest hpair ih =>
      have hparts := Bool.and_eq_true_iff.mp hpair
      rw [textChars, if_pos hpair, utf16_cons, units_pairChar hparts.1 hparts.2, ih]
      rfl
  | case4 u v rest hpair ih =>
      rw [textChars, if_neg hpair, utf16_cons, units_replaceLone, ih]
      rfl

/-- Nothing but the replacement character comes in. -/
theorem mem_toWellFormed {s : List UInt16} {u : UInt16} (h : u ∈ toWellFormed s) :
    u ∈ s ∨ u = 0xFFFD := by
  have hlone : ∀ v : UInt16, replaceLone v = v ∨ replaceLone v = 0xFFFD := by
    intro v
    unfold replaceLone
    split_ifs
    · exact Or.inr rfl
    · exact Or.inl rfl
  fun_induction toWellFormed s with
  | case1 => exact Or.inl h
  | case2 v =>
      rw [List.mem_singleton] at h
      rcases hlone v with hv | hv
      · exact Or.inl (List.mem_singleton.mpr (h.trans hv))
      · exact Or.inr (h.trans hv)
  | case3 v w rest hpair ih =>
      simp only [List.mem_cons] at h ⊢
      rcases h with h | h | h
      · exact Or.inl (Or.inl h)
      · exact Or.inl (Or.inr (Or.inl h))
      · exact (ih h).imp_left fun hmem => Or.inr (Or.inr hmem)
  | case4 v w rest hpair ih =>
      rcases List.mem_cons.mp h with h | h
      · rcases hlone v with hv | hv
        · exact Or.inl (List.mem_cons.mpr (Or.inl (h.trans hv)))
        · exact Or.inr (h.trans hv)
      · exact (ih h).imp_left (List.mem_cons_of_mem v)

/-- The code units of a character are well formed. -/
theorem wellFormed_units (c : Char) : WellFormed (units c) := by
  rcases units_cases c with ⟨u, hc, hu, -⟩ | ⟨hi, lo, hc, -, hhi, hlo, -⟩
  · obtain ⟨hhi, hlo⟩ := not_surrogate_of_toNat_eq hu
    rw [hc]
    refine wellFormed_of_forall fun v hv => ?_
    rw [List.mem_singleton.mp hv, isSurrogate, hhi, hlo]
    rfl
  · rw [hc, WellFormed, toWellFormed, if_pos (by rw [hhi, hlo]; rfl)]
    rfl

/-- Characters have no lone surrogates. -/
theorem wellFormed_utf16 (s : List Char) : WellFormed (utf16 s) := by
  induction s with
  | nil => rfl
  | cons c s ih =>
      rw [utf16_cons]
      exact (wellFormed_units c).append ih

/-- A well-formed text starts with a unit that is no surrogate, or with a pair. -/
theorem WellFormed.cons_cases
    {u : UInt16} {rest : List UInt16} (h : WellFormed (u :: rest)) :
    isSurrogate u = false ∧ WellFormed rest ∨
      ∃ v rest', rest = v :: rest' ∧ isHighSurrogate u.toNat = true ∧
        isLowSurrogate v.toNat = true ∧ WellFormed rest' := by
  cases rest with
  | nil => exact Or.inl ⟨replaceLone_eq_self (List.cons.inj h).1, rfl⟩
  | cons v rest =>
      rw [WellFormed, toWellFormed] at h
      split_ifs at h with hpair
      · obtain ⟨hhi, hlo⟩ := Bool.and_eq_true_iff.mp hpair
        exact Or.inr ⟨v, rest, rfl, hhi, hlo, (List.cons.inj (List.cons.inj h).2).2⟩
      · exact Or.inl ⟨replaceLone_eq_self (List.cons.inj h).1, (List.cons.inj h).2⟩

theorem unitsValue_raw_cons (c : Char) (rest : List (StringItem Char)) :
    unitsValue ((StringItem.raw c :: rest).flatMap StringItem.units) =
      units c ++ unitsValue (rest.flatMap StringItem.units) := by
  rw [List.flatMap_cons, unitsValue_append, StringItem.units, unitsValue_raw]

/-- No character starts with the second half of a pair. -/
theorem units_append_ne_low
    {c : Char} {v : UInt16} (hlo : isLowSurrogate v.toNat = true) (x y : List UInt16) :
    units c ++ x ≠ v :: y := by
  intro heq
  rcases units_cases c with ⟨u, hc, hu, -⟩ | ⟨hi, lo, hc, -, hhi, -⟩
  · rw [hc] at heq
    rw [← (List.cons.inj heq).1, (not_surrogate_of_toNat_eq hu).2] at hlo
    cases hlo
  · rw [hc] at heq
    rw [← (List.cons.inj heq).1] at hlo
    simp only [isHighSurrogate, isLowSurrogate, Bool.and_eq_true, decide_eq_true_eq] at hhi hlo
    omega

/-- The literal of a well-formed text escapes no lone surrogate. -/
theorem noLoneSurrogate_of_wellFormed :
    ∀ items : List (StringItem Char),
      WellFormed (unitsValue (items.flatMap StringItem.units)) → noLoneSurrogate items = true
  | [], _ => rfl
  | .raw c :: rest, h => by
      rw [unitsValue_raw_cons, wellFormed_append_iff (wellFormed_units c)] at h
      rw [noLoneSurrogate]
      exact noLoneSurrogate_of_wellFormed rest h
  | .escape u :: rest, h => by
      rcases WellFormed.cons_cases h with ⟨hu, hrest⟩ | ⟨v, rest', heq, hhi, hlo, hrest⟩
      · obtain ⟨hhi, hlo⟩ := Bool.or_eq_false_iff.mp hu
        rw [noLoneSurrogate.eq_def]
        simp only [hhi, hlo, Bool.false_eq_true, if_false, Bool.not_false, Bool.true_and]
        exact noLoneSurrogate_of_wellFormed rest hrest
      · -- The other half of the pair is escaped as well.
        cases rest with
        | nil => cases heq
        | cons item tail =>
            cases item with
            | raw c =>
                have hvalue := (unitsValue_raw_cons c tail).symm.trans heq
                exact absurd hvalue (units_append_ne_low hlo _ _)
            | escape w =>
                obtain ⟨rfl, rfl⟩ := List.cons.inj heq
                simp only [noLoneSurrogate, hhi, hlo, if_true, Bool.true_and]
                exact noLoneSurrogate_of_wellFormed tail hrest

end Lib
end Otelop
