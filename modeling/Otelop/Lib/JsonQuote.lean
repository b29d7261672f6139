import Mathlib.Tactic
import Otelop.Lib.JsonString

/-!
# Writing JSON string literals

The literal of a text of UTF-16 code units: quotes, backslashes, control characters and lone
surrogates are escaped, everything else stands for itself.

This is `JSON.stringify` of a string.  The reader is that of `Lib/JsonString.lean`, which
knows more escapes than are written here.  `Reads` says that the reader takes a written piece
as the units it stands for, whatever comes behind it, and is kept by appending; a proof about
a literal is one about its pieces.

**Results.**
* `stringItems_quoteString`: the literal is read back as the text.
* `quoteString_injective`: so texts with one literal are equal.
* `stringItems_of_part`: a part of it is not read.
* `quoteString_suffix_ne`: no literal begins inside it.
-/

namespace Otelop
namespace Lib

/-- A hexadecimal digit, in lower case. -/
def hexChar (n : Nat) : UInt16 := UInt16.ofNat (if n < 10 then 0x30 + n else 0x57 + n)

/-- `\uXXXX` -/
def unicodeEscape (u : UInt16) : List UInt16 :=
  [0x5C, 0x75, hexChar (u.toNat / 4096), hexChar (u.toNat / 256 % 16),
    hexChar (u.toNat / 16 % 16), hexChar (u.toNat % 16)]

/-- The letter of a short escape. -/
def shortEscape (u : UInt16) : Option UInt16 :=
  if u = 0x22 then some 0x22
  else if u = 0x5C then some 0x5C
  else if u = 0x08 then some 0x62
  else if u = 0x0C then some 0x66
  else if u = 0x0A then some 0x6E
  else if u = 0x0D then some 0x72
  else if u = 0x09 then some 0x74
  else none

/-- What stands for a unit that is not part of a surrogate pair. -/
def quoteUnit (u : UInt16) : List UInt16 :=
  match shortEscape u with
  | some letter => [0x5C, letter]
  | none =>
      if u.toNat < 0x20 || isHighSurrogate u.toNat || isLowSurrogate u.toNat then
        unicodeEscape u
      else [u]

def quoteBody : List UInt16 → List UInt16
  | [] => []
  | [u] => quoteUnit u
  | u :: v :: rest =>
      if isHighSurrogate u.toNat && isLowSurrogate v.toNat then u :: v :: quoteBody rest
      else quoteUnit u ++ quoteBody (v :: rest)

/-- The literal of a text. -/
def quoteString (s : List UInt16) : List UInt16 := 0x22 :: (quoteBody s ++ [0x22])

/-! ### Reading it back -/

theorem hexDigit_hexChar {n : Nat} (h : n < 16) :
    hexDigit (hexChar n).toNat = some (UInt16.ofNat n) := by
  interval_cases n <;> rfl

/-- A literal goes on with what stands for the unit `u`. -/
def Reads (u : UInt16) (text : List UInt16) : Prop :=
  ∃ item : StringItem UInt16, unitsValue [item] = [u] ∧ ∀ rest,
    stringItemsFrom UInt16.toNat .inString (text ++ rest) =
      (stringItemsFrom UInt16.toNat .inString rest).map (item :: ·)

theorem reads_self
    {u : UInt16} (hquote : u.toNat ≠ 0x22) (hslash : u.toNat ≠ 0x5C) (hctl : ¬ u.toNat < 0x20) :
    Reads u [u] := by
  refine ⟨.raw u, rfl, fun rest => ?_⟩
  rw [List.singleton_append, stringItemsFrom, if_neg hquote, if_neg hslash, if_neg hctl]

/-- A short escape is read as its code unit. -/
theorem reads_shortEscape {u letter : UInt16} (h : shortEscape u = some letter) :
    Reads u [0x5C, letter] := by
  have hletter : letter.toNat ≠ 0x75 ∧ simpleEscape letter.toNat = some u := by
    unfold shortEscape at h
    split_ifs at h <;> subst_vars <;> cases h <;> exact ⟨by decide, rfl⟩
  refine ⟨.escape u, rfl, fun rest => ?_⟩
  rw [List.cons_append, List.singleton_append, stringItemsFrom, if_neg (by decide),
    if_pos (by decide), stringItemsFrom, if_neg hletter.1, hletter.2]

/-- Four digits of a unit have its value. -/
theorem hexValue_eq (u : UInt16) :
    (((0 * 16 + UInt16.ofNat (u.toNat / 4096)) * 16 + UInt16.ofNat (u.toNat / 256 % 16)) * 16 +
      UInt16.ofNat (u.toNat / 16 % 16)) * 16 + UInt16.ofNat (u.toNat % 16) = u := by
  have hlt := u.toNat_lt
  apply UInt16.toNat_inj.mp
  simp only [UInt16.toNat_add, UInt16.toNat_mul, UInt16.toNat_ofNat', UInt16.reduceToNat]
  omega

/-- An escape with four digits is read as its code unit. -/
theorem reads_unicodeEscape (u : UInt16) : Reads u (unicodeEscape u) := by
  have hlt := u.toNat_lt
  refine ⟨.escape u, rfl, fun rest => ?_⟩
  unfold unicodeEscape
  simp only [List.cons_append, List.nil_append]
  rw [stringItemsFrom, if_neg (by decide), if_pos (by decide), stringItemsFrom,
    if_pos (by decide), stringItemsFrom, hexDigit_hexChar (by omega)]
  dsimp only
  rw [if_neg (by decide), stringItemsFrom, hexDigit_hexChar (by omega)]
  dsimp only
  rw [if_neg (by decide), stringItemsFrom, hexDigit_hexChar (by omega)]
  dsimp only
  rw [if_neg (by decide), stringItemsFrom, hexDigit_hexChar (by omega)]
  dsimp only
  rw [if_pos (by decide), hexValue_eq]

/-- A quoted code unit is read back. -/
theorem reads_quoteUnit (u : UInt16) : Reads u (quoteUnit u) := by
  unfold quoteUnit
  cases hshort : shortEscape u with
  | some letter => exact reads_shortEscape hshort
  | none =>
      dsimp only
      split_ifs with hescape
      · exact reads_unicodeEscape u
      · simp only [Bool.or_eq_true, decide_eq_true_eq, not_or] at hescape
        have hne : u ≠ 0x22 ∧ u ≠ 0x5C := by
          refine ⟨?_, ?_⟩ <;> rintro rfl <;> cases hshort
        exact reads_self (fun h => hne.1 (UInt16.toNat_inj.mp h))
          (fun h => hne.2 (UInt16.toNat_inj.mp h)) hescape.1.1

/-- A quoted text is scanned to its closing quote. -/
theorem stringItemsFrom_quoteBody (s rest : List UInt16) :
    ∃ items, unitsValue items = s ∧
      stringItemsFrom UInt16.toNat .inString (quoteBody s ++ rest) =
        (stringItemsFrom UInt16.toNat .inString rest).map (items ++ ·) := by
  fun_induction quoteBody s with
  | case1 => exact ⟨[], rfl, by simp⟩
  | case2 u =>
      obtain ⟨item, hvalue, hread⟩ := reads_quoteUnit u
      exact ⟨[item], hvalue, hread rest⟩
  | case3 u v tail hpair ih =>
      obtain ⟨items, hvalue, hread⟩ := ih
      rw [Bool.and_eq_true] at hpair
      have hsurrogate : ∀ w : UInt16, 0xD800 ≤ w.toNat → Reads w [w] :=
        fun w hw => reads_self (by omega) (by omega) (by omega)
      simp only [isHighSurrogate, isLowSurrogate, Bool.and_eq_true, decide_eq_true_eq] at hpair
      obtain ⟨item, hu, hreadu⟩ := hsurrogate u hpair.1.1
      obtain ⟨item', hv, hreadv⟩ := hsurrogate v (by omega)
      refine ⟨item :: item' :: items, ?_, ?_⟩
      · rw [← List.singleton_append, unitsValue_append, hu, ← List.singleton_append (l := items),
          unitsValue_append, hv, hvalue]
        rfl
      · have hstep := hreadu (v :: (quoteBody tail ++ rest))
        rw [List.singleton_append] at hstep
        have hstep' := hreadv (quoteBody tail ++ rest)
        rw [List.singleton_append] at hstep'
        rw [List.cons_append, List.cons_append, hstep, hstep', hread, Option.map_map,
          Option.map_map]
        rfl
  | case4 u v tail hpair ih =>
      obtain ⟨items, hvalue, hread⟩ := ih
      obtain ⟨item, hu, hreadu⟩ := reads_quoteUnit u
      refine ⟨item :: items, ?_, ?_⟩
      · rw [← List.singleton_append, unitsValue_append, hu, hvalue]
        rfl
      · rw [List.append_assoc, hreadu, hread, Option.map_map]
        rfl

/-- The literal is read back as the text. -/
theorem stringItems_quoteString (s : List UInt16) :
    (stringItems UInt16.toNat (quoteString s)).map unitsValue = some s := by
  obtain ⟨items, hvalue, hread⟩ := stringItemsFrom_quoteBody s [0x22]
  rw [quoteString, stringItems, if_pos (by decide), hread]
  simp [stringItemsFrom, hvalue]

/-! ### A part of a literal -/

theorem isJsonSpace_of_closed
    {code : UInt16 → Nat} {text : List UInt16} {items : List (StringItem UInt16)}
    (h : stringItemsFrom code .closed text = some items) :
    ∀ u ∈ text, isJsonSpace (code u) = true := by
  induction text generalizing items with
  | nil => simp
  | cons u text ih =>
      rw [stringItemsFrom] at h
      split_ifs at h with hspace
      exact List.forall_mem_cons.mpr ⟨hspace, ih h⟩

/-- Behind a whole literal there is white space only. -/
theorem stringItemsFrom_append
    {code : UInt16 → Nat} {x : List UInt16} (y : List UInt16) :
    ∀ {st : StringState} {items items' : List (StringItem UInt16)},
      stringItemsFrom code st x = some items →
      stringItemsFrom code st (x ++ y) = some items' →
      ∀ u ∈ y, isJsonSpace (code u) = true := by
  induction x with
  | nil =>
      intro st items items' hx hy
      cases st with
      | closed => exact isJsonSpace_of_closed hy
      | inString => cases hx
      | inEscape => cases hx
      | inHex missing unit => cases hx
  | cons u x ih =>
      intro st items items' hx hy
      rw [List.cons_append] at hy
      cases st with
      | closed =>
          rw [stringItemsFrom] at hx hy
          split_ifs at hx hy
          exact ih hx hy
      | inString =>
          rw [stringItemsFrom] at hx hy
          split_ifs at hx hy
          · exact ih hx hy
          · exact ih hx hy
          · obtain ⟨_, hx, -⟩ := Option.map_eq_some_iff.mp hx
            obtain ⟨_, hy, -⟩ := Option.map_eq_some_iff.mp hy
            exact ih hx hy
      | inEscape =>
          rw [stringItemsFrom] at hx hy
          split_ifs at hx hy
          · exact ih hx hy
          · cases hescape : simpleEscape (code u) with
            | none =>
                rw [hescape] at hx
                cases hx
            | some unit =>
                rw [hescape] at hx hy
                obtain ⟨_, hx, -⟩ := Option.map_eq_some_iff.mp hx
                obtain ⟨_, hy, -⟩ := Option.map_eq_some_iff.mp hy
                exact ih hx hy
      | inHex missing unit =>
          rw [stringItemsFrom] at hx hy
          cases hdigit : hexDigit (code u) with
          | none =>
              rw [hdigit] at hx
              cases hx
          | some d =>
              rw [hdigit] at hx hy
              dsimp only at hx hy
              split_ifs at hx hy
              · obtain ⟨_, hx, -⟩ := Option.map_eq_some_iff.mp hx
                obtain ⟨_, hy, -⟩ := Option.map_eq_some_iff.mp hy
                exact ih hx hy
              · exact ih hx hy

/-- The literal is not read where its end is missing. -/
theorem stringItems_of_part
    {s read behind : List UInt16} {c : UInt16} (h : quoteString s = read ++ c :: behind) :
    stringItems UInt16.toNat read = none := by
  have hlast : (0x22 : UInt16) ∈ c :: behind := by
    have hmem : (quoteString s).getLast? = some 0x22 := by
      rw [quoteString, ← List.cons_append, List.getLast?_concat]
    rw [h, List.getLast?_append_of_ne_nil _ (List.cons_ne_nil _ _)] at hmem
    exact List.mem_of_getLast? hmem
  cases read with
  | nil => rfl
  | cons u read =>
      obtain ⟨items, hitems, -⟩ := Option.map_eq_some_iff.mp (stringItems_quoteString s)
      rw [h, List.cons_append, stringItems] at hitems
      rw [stringItems]
      split_ifs at hitems ⊢ with hquote
      cases hread : stringItemsFrom UInt16.toNat .inString read with
      | none => rfl
      | some items' =>
          have hspace := stringItemsFrom_append _ hread hitems 0x22 hlast
          exact absurd hspace (by decide)

/-! ### Where a literal ends -/

/-- Different texts are quoted differently. -/
theorem quoteString_injective : Function.Injective quoteString := by
  intro s s' h
  have hread := stringItems_quoteString s
  rw [h, stringItems_quoteString s'] at hread
  exact (Option.some.inj hread).symm

/-- A literal is no proper part of another one. -/
theorem eq_nil_of_quoteString_append
    {s s' z : List UInt16} (h : quoteString s' = quoteString s ++ z) : z = [] := by
  cases z with
  | nil =>
      rfl
  | cons c z =>
      have hread := stringItems_quoteString s
      rw [stringItems_of_part h] at hread
      cases hread

/-- In front of a quote stands a backslash. -/
def QuotesEscaped (text : List UInt16) : Prop :=
  text.head? ≠ some 0x22 ∧ text.IsChain fun c d => d = 0x22 → c = 0x5C

/-- Two texts whose quotes are escaped one after the other. -/
theorem QuotesEscaped.append
    {x y : List UInt16} (hx : QuotesEscaped x) (hy : QuotesEscaped y) :
    QuotesEscaped (x ++ y) := by
  refine ⟨?_, hx.2.append hy.2 fun c _ d hd hquote => ?_⟩
  · cases x with
    | nil => exact hy.1
    | cons c x => exact hx.1
  · subst hquote
    exact absurd hd hy.1

theorem quotesEscaped_of_forall {x : List UInt16} (h : ∀ u ∈ x, u ≠ 0x22) :
    QuotesEscaped x := by
  refine ⟨fun hhead => h _ (List.mem_of_mem_head? hhead) rfl, ?_⟩
  induction x with
  | nil =>
      exact .nil
  | cons u x ih =>
      cases x with
      | nil =>
          exact .singleton u
      | cons v x =>
          refine .cons_cons (fun hquote => ?_) (ih (List.forall_mem_cons.mp h).2)
          exact absurd hquote (h v (List.mem_cons_of_mem u List.mem_cons_self))

/-- No code unit is quoted with a bare quote. -/
theorem quotesEscaped_quoteUnit (u : UInt16) : QuotesEscaped (quoteUnit u) := by
  unfold quoteUnit
  cases hshort : shortEscape u with
  | some letter =>
      exact ⟨fun h => absurd (Option.some.inj h) (by decide),
        .cons_cons (fun _ => rfl) (.singleton letter)⟩
  | none =>
      dsimp only
      split_ifs
      · have hhex : ∀ n < 16, hexChar n ≠ 0x22 := by decide
        have hlt := u.toNat_lt
        refine quotesEscaped_of_forall ?_
        simp only [unicodeEscape, List.forall_mem_cons]
        exact ⟨by decide, by decide, hhex _ (by omega), hhex _ (by omega), hhex _ (by omega),
          hhex _ (by omega), fun _ h => absurd h List.not_mem_nil⟩
      · refine quotesEscaped_of_forall fun v hv => ?_
        obtain rfl := List.mem_singleton.mp hv
        rintro rfl
        cases hshort

/-- No text is quoted with a bare quote. -/
theorem quotesEscaped_quoteBody (s : List UInt16) : QuotesEscaped (quoteBody s) := by
  fun_induction quoteBody s with
  | case1 =>
      exact ⟨by decide, .nil⟩
  | case2 u =>
      exact quotesEscaped_quoteUnit u
  | case3 u v rest hpair ih =>
      rw [Bool.and_eq_true] at hpair
      have hne : ∀ w ∈ [u, v], w ≠ 0x22 := by
        intro w hw hquote
        subst hquote
        rcases List.mem_cons.mp hw with rfl | hw
        · exact absurd hpair.1 (by decide)
        · obtain rfl := List.mem_singleton.mp hw
          exact absurd hpair.2 (by decide)
      exact (quotesEscaped_of_forall hne).append ih
  | case4 u v rest hpair ih =>
      exact (quotesEscaped_quoteUnit u).append ih

/-- A literal does not end in a character other than a backslash and a shorter literal. -/
theorem quoteString_suffix_ne
    {s s' x : List UInt16} {c : UInt16} (hc : c ≠ 0x5C) :
    quoteString s ≠ 0x22 :: (x ++ c :: quoteString s') := by
  intro h
  have hbody : quoteBody s = x ++ c :: 0x22 :: quoteBody s' := by
    have htail := (List.cons.inj h).2
    rw [quoteString, ← List.cons_append, ← List.cons_append, ← List.append_assoc] at htail
    exact List.append_cancel_right htail
  have hchain := (quotesEscaped_quoteBody s).2
  rw [hbody] at hchain
  have hpair : (c :: 0x22 :: quoteBody s').IsChain fun c d => d = 0x22 → c = 0x5C :=
    hchain.right_of_append
  exact hc ((List.isChain_cons_cons.mp hpair).1 rfl)

end Lib
end Otelop
