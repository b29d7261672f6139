import Mathlib.Tactic
import Otelop.Frontend.FilterByAction

/-!
# Editing a filter

`filterDraft` of `frontend/src/lib/log-filter.ts` opens a term of the search in the filter
dialog, and `draftTerm` makes a term of what the dialog holds.  The dialog splits a term into a
key, an operator and a value.  `draftTerm` trims the key, and the parser does not.

A value may be opened as a comparison, as a pattern, as a text to contain or as a text to equal,
and saved with quotes it did not have; two terms are the same filter (`SameFilter`) when they
are about the same field or attribute and accept the same values.  Comparisons go through the
number type of the browser, whose texts have to be read back (`NumbersReadBack`).

**Results.**
* `termMatches_filterDraft`: what is saved unchanged accepts the same values.
* `sameFilter_filterDraft_iff`: it is the same filter exactly when its key has no white space at
  its ends.
-/

namespace Otelop
namespace Frontend

open Lib Storage

/-- The draft of a term, or of a new filter. -/
def filterDraft (lib : BrowserLibraries) (term : Option LogSearchTerm) : LogFilterDraft :=
  match term with
  | none => { key := [], operator := .is, value := [] }
  | some term =>
      let key := logTermKey term
      let star := js "*"
      match logComparison lib term with
      | some (op, value) =>
          if term.negated then { key, operator := .notWildcard, value := term.value }
          else { key, operator := .compare op, value := lib.numberText value }
      | none =>
          if !term.quoted && term.value = star then
            { key, operator := if term.negated then .notPresent else .present, value := [] }
          else if !term.quoted && star.isPrefixOf term.value && star.isSuffixOf term.value then
            { key
              operator := if term.negated then .notContains else .contains
              value := slice term.value 1 (-1) }
          else if !term.quoted && jsChar '*' ∈ term.value then
            { key
              operator := if term.negated then .notWildcard else .wildcard
              value := term.value }
          else
            { key, operator := if term.negated then .isNot else .is, value := term.value }

/-- A number is printed as a numeral that reads back. -/
def NumbersReadBack (lib : BrowserLibraries) : Prop :=
  ∀ text q, lib.number text = some q →
    isNumber (lib.numberText q) = true ∧ lib.number (lib.numberText q) = some q

/-- The field, or else the attribute, that a term is on. -/
def LogSearchTerm.target (term : LogSearchTerm) : JsString ⊕ (Bool × JsString) :=
  match term.field with
  | some field => .inl field
  | none => .inr (term.resource, term.key)

/-- The same target, the same negation and the same values accepted. -/
structure SameFilter (lib : BrowserLibraries) (term term' : LogSearchTerm) : Prop where
  target : term.target = term'.target
  negated : term.negated = term'.negated
  accepts : ∀ numericField value,
    createTermMatcher lib term numericField value = createTermMatcher lib term' numericField value

/-- The term that is saved when its draft is not changed. -/
def savedTerm (lib : BrowserLibraries) (fields : List JsString) (term : LogSearchTerm) :
    LogSearchTerm :=
  draftTerm (filterDraft lib (some term)) fields

/-! ### Comparisons -/

theorem equals_notStart_of_isNumber
    {rest : JsString} (h : isNumber rest = true) :
    (js "=").isPrefixOf rest = false := by
  cases rest with
  | nil => rfl
  | cons u rest =>
      rw [Bool.eq_false_iff]
      intro hstart
      obtain ⟨tail, htail⟩ := List.isPrefixOf_iff_prefix.mp hstart
      have hu : u = jsChar '=' := (List.cons.inj htail).1.symm
      rw [hu] at h
      cases h

theorem notMem_lineTerminators
    {rest : JsString} (h : isNumber rest = true) {u : UInt16} (hu : u ∈ rest) :
    u ∉ lineTerminators := by
  have hrange := numberFrom_mem h hu
  intro hline
  simp only [lineTerminators, List.mem_cons, List.not_mem_nil, or_false] at hline
  rcases hline with rfl | rfl | rfl | rfl
  · exact absurd hrange.1 (by decide)
  · exact absurd hrange.1 (by decide)
  · exact absurd hrange.2 (by decide)
  · exact absurd hrange.2 (by decide)

theorem execAlternative_self
    (op : CompareOp) {rest : JsString} (h : isNumber rest = true) :
    execAlternative (utf16 op.text ++ rest) op = some (op, rest) := by
  have hne : rest.isEmpty = false := by
    rw [List.isEmpty_eq_false_iff]
    rintro rfl
    cases h
  have hall : (rest.all fun u => decide (u ∉ lineTerminators)) = true := by
    rw [List.all_eq_true]
    exact fun u hu => decide_eq_true (notMem_lineTerminators h hu)
  have hstart : (utf16 op.text).isPrefixOf (utf16 op.text ++ rest) = true :=
    List.isPrefixOf_iff_prefix.mpr (List.prefix_append _ _)
  rw [execAlternative, List.drop_left, hstart, hne, hall]
  rfl

theorem execAlternative_of_not_start
    {value : JsString} {op : CompareOp} (h : (utf16 op.text).isPrefixOf value = false) :
    execAlternative value op = none := by
  rw [execAlternative, h, Bool.false_and, Bool.false_and, if_neg Bool.false_ne_true]

/-- An operator before a numeral is read as the operator and the numeral. -/
theorem comparisonExec_append
    (op : CompareOp) {rest : JsString} (h : isNumber rest = true) :
    comparisonExec (utf16 op.text ++ rest) = some (op, rest) := by
  have hequals := equals_notStart_of_isNumber h
  rw [comparisonExec, findSome?_alternatives]
  cases op with
  | ge => rw [execAlternative_self .ge h, Option.some_or]
  | le =>
      have hge : (utf16 CompareOp.ge.text).isPrefixOf (utf16 CompareOp.le.text ++ rest) = false :=
        rfl
      rw [execAlternative_of_not_start hge, execAlternative_self .le h]
      rfl
  | gt =>
      have hge : (utf16 CompareOp.ge.text).isPrefixOf (utf16 CompareOp.gt.text ++ rest) = false :=
        hequals
      have hle : (utf16 CompareOp.le.text).isPrefixOf (utf16 CompareOp.gt.text ++ rest) = false :=
        rfl
      rw [execAlternative_of_not_start hge, execAlternative_of_not_start hle,
        execAlternative_self .gt h]
      rfl
  | lt =>
      have hge : (utf16 CompareOp.ge.text).isPrefixOf (utf16 CompareOp.lt.text ++ rest) = false :=
        rfl
      have hle : (utf16 CompareOp.le.text).isPrefixOf (utf16 CompareOp.lt.text ++ rest) = false :=
        hequals
      have hgt : (utf16 CompareOp.gt.text).isPrefixOf (utf16 CompareOp.lt.text ++ rest) = false :=
        rfl
      rw [execAlternative_of_not_start hge, execAlternative_of_not_start hle,
        execAlternative_of_not_start hgt, execAlternative_self .lt h]
      rfl

section Saved

variable {lib : BrowserLibraries} {fields : List JsString} {term : LogSearchTerm}

/-- The comparison of a saved draft is the comparison of the term. -/
theorem logComparison_compare
    (hlib : NumbersReadBack lib) {op : CompareOp} {q : ℚ}
    (h : logComparison lib term = some (op, q)) {saved : LogSearchTerm}
    (hquoted : saved.quoted = false) (hvalue : saved.value = utf16 op.text ++ lib.numberText q) :
    logComparison lib saved = some (op, q) := by
  have hnumber : ∃ text, lib.number text = some q := by
    rw [logComparison] at h
    split_ifs at h
    split at h
    · cases h
    · rename_i op' rest _
      split_ifs at h
      obtain ⟨q', hq', heq⟩ := Option.map_eq_some_iff.mp h
      rw [(Prod.mk.inj heq).2] at hq'
      exact ⟨rest, hq'⟩
  obtain ⟨text, htext⟩ := hnumber
  obtain ⟨hnumeral, hback⟩ := hlib text q htext
  rw [logComparison, hquoted, if_neg Bool.false_ne_true, hvalue, comparisonExec_append op hnumeral]
  dsimp only
  rw [if_pos hnumeral, hback]
  rfl

/-! ### Values accepted -/

/-- Only the value and its quoting matter to the matcher. -/
theorem termMatches_congr
    {term' : LogSearchTerm} (hvalue : term'.value = term.value)
    (hquoted : term'.quoted = term.quoted) :
    termMatches lib term' = termMatches lib term := by
  funext numericField value
  have hcomparison : logComparison lib term' = logComparison lib term := by
    rw [logComparison, logComparison, hvalue, hquoted]
  have hsource : regexSource term' = regexSource term := by
    rw [regexSource, regexSource, regexPattern, regexPattern, hvalue, hquoted]
  rw [termMatches, termMatches, hcomparison, hsource, hvalue, hquoted]

/-- A comparison is all that is asked of a value. -/
theorem termMatches_of_comparison
    {term' : LogSearchTerm} {op : CompareOp} {q : ℚ}
    (h : logComparison lib term = some (op, q)) (h' : logComparison lib term' = some (op, q)) :
    termMatches lib term' = termMatches lib term := by
  funext numericField value
  rw [termMatches, termMatches, h, h']

/-- Without a star and without a comparison the quotes do not matter. -/
theorem termMatches_quoted
    (hcomparison : logComparison lib term = none) (hstar : jsChar '*' ∉ term.value)
    {term' : LogSearchTerm} (hvalue : term'.value = term.value) (hquoted : term'.quoted = true) :
    termMatches lib term' = termMatches lib term := by
  funext numericField value
  have hcomparison' : logComparison lib term' = none := by
    rw [logComparison, hquoted, if_pos rfl]
  have hatoms : newRegExp (regexSource term') = newRegExp (regexSource term) := by
    rw [newRegExp_source, newRegExp_source, unitAtoms, unitAtoms, hvalue, hquoted]
    refine congrArg some (List.map_congr_left fun u hu => ?_)
    have hne : u ≠ jsChar '*' := by
      rintro rfl
      exact hstar hu
    simp [hne]
  have hnotStar : term.value ≠ js "*" := by
    intro heq
    rw [heq] at hstar
    exact hstar (by decide)
  rw [termMatches, termMatches, hcomparison, hcomparison', hatoms, hvalue]
  simp [hquoted, hnotStar]

/-! ### What is saved -/

theorem filterDraft_key : (filterDraft lib (some term)).key = logTermKey term := by
  rw [filterDraft]
  split
  · split_ifs <;> rfl
  · split_ifs <;> rfl

theorem slice_inner
    (u v : UInt16) (mid : JsString) :
    slice (u :: (mid ++ [v])) 1 (-1) = mid := by
  have hstop : slicePosition (u :: (mid ++ [v])) (-1) = mid.length + 1 := by
    rw [slicePosition, if_pos (by decide), List.length_cons, List.length_append,
      List.length_singleton]
    omega
  have htake : (u :: (mid ++ [v])).take (mid.length + 1) = u :: mid := by
    rw [List.take_succ_cons, List.take_left]
  rw [slice, hstop, htake]
  rfl

/-- Two stars and what is between them. -/
theorem star_slice_star
    {value : JsString} (hstart : (js "*").isPrefixOf value = true)
    (hend : (js "*").isSuffixOf value = true) (hne : value ≠ js "*") :
    js "*" ++ slice value 1 (-1) ++ js "*" = value := by
  have hstar : js "*" = [jsChar '*'] := rfl
  obtain ⟨tail, rfl⟩ := List.isPrefixOf_iff_prefix.mp hstart
  obtain ⟨head, hhead⟩ := List.isSuffixOf_iff_suffix.mp hend
  have htail : tail ≠ [] := by
    rintro rfl
    exact hne (List.append_nil _)
  obtain ⟨mid, last, rfl⟩ : ∃ mid last, tail = mid ++ [last] :=
    ⟨tail.dropLast, tail.getLast htail, (List.dropLast_append_getLast htail).symm⟩
  have hlast : last = jsChar '*' := by
    rw [hstar, ← List.append_assoc] at hhead
    exact (List.singleton_inj.mp (List.append_inj_right' hhead rfl)).symm
  have hslice : slice (js "*" ++ (mid ++ [jsChar '*'])) 1 (-1) = mid := slice_inner _ _ mid
  rw [hlast, hslice, hstar, List.append_assoc]

/-- A comparison is unquoted. -/
theorem quoted_of_comparison
    {op : CompareOp} {q : ℚ} (h : logComparison lib term = some (op, q)) :
    term.quoted = false := by
  rw [logComparison] at h
  split_ifs at h with hquoted
  exact Bool.eq_false_iff.mpr hquoted

/-- What is saved accepts what the term accepts. -/
theorem termMatches_filterDraft
    (hlib : NumbersReadBack lib) :
    termMatches lib (savedTerm lib fields term) = termMatches lib term := by
  have hdraft : ∀ draft, filterDraft lib (some term) = draft →
      savedTerm lib fields term = draftTerm draft fields := fun draft h => by
    rw [savedTerm, h]
  cases hcomparison : logComparison lib term with
  | some comparison =>
      obtain ⟨op, q⟩ := comparison
      have hquoted := quoted_of_comparison hcomparison
      cases hnegated : term.negated with
      | true =>
          rw [hdraft ⟨logTermKey term, .notWildcard, term.value⟩ (by
            rw [filterDraft]
            simp only [hcomparison, hnegated, if_true])]
          exact termMatches_congr rfl hquoted.symm
      | false =>
          rw [hdraft ⟨logTermKey term, .compare op, lib.numberText q⟩ (by
            rw [filterDraft]
            simp only [hcomparison, hnegated, Bool.false_eq_true, if_false])]
          exact termMatches_of_comparison hcomparison
            (logComparison_compare hlib hcomparison rfl rfl)
  | none =>
      by_cases hexists : (!term.quoted && decide (term.value = js "*")) = true
      · obtain ⟨hplain, hvalue⟩ := Bool.and_eq_true_iff.mp hexists
        have hquoted : term.quoted = false := by simpa using hplain
        rw [hdraft ⟨logTermKey term, if term.negated then .notPresent else .present, []⟩ (by
          rw [filterDraft]
          simp only [hcomparison, hexists, if_true])]
        refine termMatches_congr ?_ ?_
        · rw [of_decide_eq_true hvalue]
          cases hnegated : term.negated <;> rfl
        · rw [hquoted]
          cases hnegated : term.negated <;> rfl
      · by_cases hcontains : (!term.quoted && (js "*").isPrefixOf term.value &&
            (js "*").isSuffixOf term.value) = true
        · obtain ⟨hboth, hend⟩ := Bool.and_eq_true_iff.mp hcontains
          obtain ⟨hplain, hstart⟩ := Bool.and_eq_true_iff.mp hboth
          have hquoted : term.quoted = false := by simpa using hplain
          have hne : term.value ≠ js "*" := by
            intro hvalue
            exact hexists (Bool.and_eq_true_iff.mpr ⟨hplain, decide_eq_true hvalue⟩)
          rw [hdraft ⟨logTermKey term, if term.negated then .notContains else .contains,
            slice term.value 1 (-1)⟩ (by
              rw [filterDraft]
              simp only [hcomparison, hexists, hcontains, Bool.false_eq_true, if_false, if_true])]
          refine termMatches_congr (Eq.trans ?_ (star_slice_star hstart hend hne)) ?_
          · cases hnegated : term.negated <;> rfl
          · rw [hquoted]
            cases hnegated : term.negated <;> rfl
        · by_cases hwildcard : (!term.quoted && decide (jsChar '*' ∈ term.value)) = true
          · have hquoted : term.quoted = false := by
              simpa using (Bool.and_eq_true_iff.mp hwildcard).1
            rw [hdraft ⟨logTermKey term, if term.negated then .notWildcard else .wildcard,
              term.value⟩ (by
                rw [filterDraft]
                simp only [hcomparison, hexists, hcontains, hwildcard, Bool.false_eq_true,
                  if_false, if_true])]
            refine termMatches_congr ?_ ?_
            · cases hnegated : term.negated <;> rfl
            · rw [hquoted]
              cases hnegated : term.negated <;> rfl
          · rw [hdraft ⟨logTermKey term, if term.negated then .isNot else .is, term.value⟩ (by
              rw [filterDraft]
              simp only [hcomparison, hexists, hcontains, hwildcard, Bool.false_eq_true,
                if_false])]
            have hvalue : (draftTerm ⟨logTermKey term,
                if term.negated then .isNot else .is, term.value⟩ fields).value = term.value := by
              cases hnegated : term.negated <;> rfl
            have hsaved : (draftTerm ⟨logTermKey term,
                if term.negated then .isNot else .is, term.value⟩ fields).quoted = true := by
              cases hnegated : term.negated <;> rfl
            cases hquoted : term.quoted with
            | true => exact termMatches_congr hvalue (hsaved.trans hquoted.symm)
            | false =>
                have hstar : jsChar '*' ∉ term.value := by
                  intro hmem
                  exact hwildcard (by rw [hquoted, decide_eq_true hmem]; rfl)
                exact termMatches_quoted hcomparison hstar hvalue hsaved

theorem savedTerm_negated : (savedTerm lib fields term).negated = term.negated := by
  rw [savedTerm, filterDraft]
  cases term.negated <;>
  · simp only [Bool.false_eq_true, if_false, if_true]
    split
    · rfl
    · split_ifs <;> rfl

/-! ### Keys -/

theorem fieldTerm_eq_term
    {field : Option JsString} {resource negated : Bool} {key value : JsString}
    (h : fieldTerm field resource key value negated = .term term) :
    term.field = field ∧ term.resource = resource ∧ term.key = key := by
  unfold fieldTerm at h
  split_ifs at h
  dsimp only at h
  split at h
  · cases h
  · cases h
    exact ⟨rfl, rfl, rfl⟩

/-- A term is on one of the fields, or on an attribute whose key is none of them. -/
theorem parseToken_target
    {token : JsString} (h : parseToken fields token = .term term) :
    (∃ field ∈ fields, term.field = some field) ∨
      term.field = none ∧ attributeKey term.resource term.key ∉ fields := by
  unfold parseToken at h
  dsimp only at h
  generalize slice token _ _ = text at h
  split_ifs at h with htext hfield
  · obtain ⟨hterm, -, -⟩ := fieldTerm_eq_term h
    exact Or.inl ⟨_, hfield, hterm⟩
  · obtain ⟨hterm, hresource, hkey⟩ := fieldTerm_eq_term h
    refine Or.inr ⟨hterm, ?_⟩
    have hcut : attributeKey term.resource term.key = text := by
      have hstart : (js "resource.").isPrefixOf text = true ∨
          (js "resource.").isPrefixOf text = false ∧
            (js "attributes.").isPrefixOf text = true := by
        cases hres : (js "resource.").isPrefixOf text with
        | true => exact Or.inl rfl
        | false =>
            refine Or.inr ⟨rfl, ?_⟩
            by_contra hattribute
            simp [hres, hattribute, hfield] at htext
      rw [hresource, hkey]
      rcases hstart with hres | ⟨hres, hattribute⟩
      · obtain ⟨rest, rfl⟩ := List.isPrefixOf_iff_prefix.mp hres
        have hslice := (attributeKey_parts true rest).2.2.2
        rw [hres]
        exact congrArg (attributeKey true) hslice
      · obtain ⟨rest, rfl⟩ := List.isPrefixOf_iff_prefix.mp hattribute
        have hslice := (attributeKey_parts false rest).2.2.2
        rw [hres]
        exact congrArg (attributeKey false) hslice
    rw [hcut]
    exact hfield

theorem parseTokens_target
    {tokens : List JsString} {result : List LogSearchTerm × List JsString}
    (h : parseTokens fields tokens = some result) (hterm : term ∈ result.1) :
    ∃ token, parseToken fields token = .term term := by
  induction tokens generalizing result with
  | nil =>
      cases h
      exact absurd hterm List.not_mem_nil
  | cons token tokens ih =>
      rw [parseTokens] at h
      cases htoken : parseToken fields token with
      | text =>
          rw [htoken] at h
          obtain ⟨p, hp, rfl⟩ := Option.map_eq_some_iff.mp h
          exact ih hp hterm
      | fallback =>
          rw [htoken] at h
          cases h
      | term parsed =>
          rw [htoken] at h
          obtain ⟨p, hp, rfl⟩ := Option.map_eq_some_iff.mp h
          rcases List.mem_cons.mp hterm with rfl | hterm
          · exact ⟨token, htoken⟩
          · exact ih hp hterm

theorem parseLogSearch_target
    {search : JsString} (hterm : term ∈ (parseLogSearch search fields).2) :
    ∃ token, parseToken fields token = .term term := by
  rw [parseLogSearch] at hterm
  split at hterm
  · exact absurd hterm List.not_mem_nil
  · rename_i terms text hparse
    obtain ⟨tokens, -, htokens⟩ := Option.bind_eq_some_iff.mp hparse
    split_ifs at hterm
    · exact absurd hterm List.not_mem_nil
    · exact parseTokens_target htokens hterm

/-- The target that is saved, from the key that the dialog shows. -/
theorem savedTerm_target :
    (savedTerm lib fields term).target =
      if trimUnits (logTermKey term) ∈ fields then .inl (trimUnits (logTermKey term))
      else .inr ((js "resource.").isPrefixOf (trimUnits (logTermKey term)),
        sliceFrom (trimUnits (logTermKey term))
          (indexOf (trimUnits (logTermKey term)) (jsChar '.') + 1)) := by
  rw [savedTerm, LogSearchTerm.target, draftTerm]
  simp only [filterDraft_key]
  split_ifs with hmem
  · rfl
  · rfl

theorem target_savedTerm_iff
    {token : JsString} (h : parseToken fields token = .term term) :
    term.target = (savedTerm lib fields term).target ↔
      trimUnits (logTermKey term) = logTermKey term := by
  rw [savedTerm_target]
  rcases parseToken_target h with ⟨field, hmem, hfield⟩ | ⟨hfield, hnot⟩
  · have hkey : logTermKey term = field := by rw [logTermKey, hfield]
    rw [LogSearchTerm.target, hfield, hkey]
    dsimp only
    constructor
    · intro htarget
      split_ifs at htarget
      exact (Sum.inl.inj htarget).symm
    · intro htrim
      rw [htrim, if_pos hmem]
  · have hkey : logTermKey term = attributeKey term.resource term.key :=
      logTermKey_attribute hfield
    rw [LogSearchTerm.target, hfield, hkey, trimUnits_attributeKey]
    dsimp only
    obtain ⟨-, hres, -, hslice⟩ := attributeKey_parts term.resource (trimEnd term.key)
    constructor
    · intro htarget
      split_ifs at htarget
      have hsame := (Prod.mk.inj (Sum.inr.inj htarget)).2
      rw [attributeKey, hslice] at hsame
      rw [← hsame]
    · intro htrim
      rw [htrim, if_neg hnot]
      have hends : trimEnd term.key = term.key := by
        have hcut := List.append_cancel_left (htrim : attributeNamespace term.resource ++
          jsChar '.' :: trimEnd term.key = attributeNamespace term.resource ++
          jsChar '.' :: term.key)
        exact (List.cons.inj hcut).2
      rw [hends] at hres hslice
      rw [attributeKey, hres, hslice]

end Saved

/-! ### Editing -/

theorem sameFilter_filterDraft_iff
    {lib : BrowserLibraries} (hlib : NumbersReadBack lib) {search : JsString}
    {fields : List JsString} {term : LogSearchTerm}
    (hterm : term ∈ (parseLogSearch search fields).2) :
    SameFilter lib term (draftTerm (filterDraft lib (some term)) fields) ↔
      trimUnits (logTermKey term) = logTermKey term := by
  obtain ⟨token, htoken⟩ := parseLogSearch_target hterm
  have htarget : term.target = (savedTerm lib fields term).target ↔ _ :=
    target_savedTerm_iff htoken
  rw [← htarget]
  constructor
  · exact SameFilter.target
  · intro h
    refine ⟨h, savedTerm_negated.symm, fun numericField value => ?_⟩
    have hmatches : termMatches lib (draftTerm (filterDraft lib (some term)) fields) =
        termMatches lib term := termMatches_filterDraft hlib
    have hnegated : (draftTerm (filterDraft lib (some term)) fields).negated = term.negated :=
      savedTerm_negated
    rw [createTermMatcher, createTermMatcher, hmatches, hnegated]

/-! ### Two terms -/

theorem numbersReadBack_sampleBrowser : NumbersReadBack sampleBrowser := by
  intro text q h
  have hq : q = 500 := by
    change (if text = js "500" then some (500 : ℚ) else none) = some q at h
    split_ifs at h
    exact (Option.some.inj h).symm
  subst hq
  exact ⟨by decide, by decide⟩

/-- `attributes.status:>500` -/
def statusTerm : LogSearchTerm where
  field := none
  resource := false
  key := js "status"
  value := js ">500"
  quoted := false
  negated := false

theorem sameFilter_filterDraft_status :
    SameFilter sampleBrowser statusTerm
      (draftTerm (filterDraft sampleBrowser (some statusTerm)) logFieldKeys) :=
  (sameFilter_filterDraft_iff numbersReadBack_sampleBrowser
    (by decide : statusTerm ∈ (parseLogSearch (js "attributes.status:>500") logFieldKeys).2)).mpr
    (by decide)

/-- `attributes.a:x` with a no-break space behind the `a`. -/
def spacedTerm : LogSearchTerm where
  field := none
  resource := false
  key := js "a\u00a0"
  value := js "x"
  quoted := false
  negated := false

/-- The filter that is saved is on the attribute `a`. -/
theorem filterDraft_trims_key :
    spacedTerm ∈ (parseLogSearch (js "attributes.a\u00a0:x") logFieldKeys).2 ∧
      (draftTerm (filterDraft sampleBrowser (some spacedTerm)) logFieldKeys).key = js "a" ∧
      ¬ SameFilter sampleBrowser spacedTerm
        (draftTerm (filterDraft sampleBrowser (some spacedTerm)) logFieldKeys) := by
  refine ⟨by decide, by decide, fun h => ?_⟩
  exact absurd h.target (by decide)

end Frontend
end Otelop
