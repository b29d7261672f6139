import Mathlib.Tactic
import Otelop.Frontend.ParserAgreement
import Otelop.Frontend.TermMatcher

/-!
# The conditions of the server and the matchers of the browser agree

A term is a condition with the truth values of SQL on the server and a predicate on a JavaScript
value in the browser.

The two have libraries of their own for letters, numbers and JSON texts; `LibrariesAgree` and
`NumbersAgree` say what has to be the same in both.  `Shows` relates a value of a column to the
value the browser has for it, null to `undefined` among others.  With it the proof goes from
patterns to values, from values to fields and attributes, and from these to the terms of a
search.

**Results.**
* `holds_ilike`: the pattern of a term accepts what its expression accepts.
* `holds_signalFieldSQL`, `holds_attributeSQL`: so do the conditions and the matchers, on a
  column and on an attribute.
* `logTerms_agree`: the terms of a search keep the same logs.
-/

namespace Otelop
namespace Frontend

open Lib Storage

/-- The libraries of the two sides agree on letter case and on numerals, and
integers that a number represents print alike. -/
structure LibrariesAgree (server : SearchLibraries) (browser : BrowserLibraries) : Prop where
  fold : FoldAgree server.fold browser.foldUnit
  number : ∀ s, Storage.isNumber s = true → browser.number (utf16 s) = server.parseFloat s
  double : ∀ q, browser.double q = server.double q
  decimal : ∀ n : Int, n.natAbs < 2 ^ 53 → browser.numberText n = utf16 (decimal n)

/-- The numbers of an attribute map print alike, and the database reads what it
printed. -/
def NumbersAgree (server : SearchLibraries) (browser : BrowserLibraries)
    (attributes : Attributes) : Prop :=
  ∀ key q, (key, Storage.Json.num q) ∈ attributes.fields →
    browser.numberText (browser.double q) = utf16 (server.jsonNumberText q) ∧
      server.castDouble (server.jsonNumberText q) = some (browser.double q)

/-! ### Numerals -/

/-- A character of a numeral is visible and in ASCII. -/
theorem numberStep_range
    {n : Nat} {st st' : Storage.NumberState} (h : numberStep st n = some st') :
    0x20 < n ∧ n < 0x80 := by
  by_contra hout
  have hdigit : isDigitCode n = false := by
    simp only [isDigitCode, Bool.and_eq_false_iff, decide_eq_false_iff_not]
    omega
  have hexp : isExpCode n = false := by
    simp only [isExpCode, Bool.or_eq_false_iff, decide_eq_false_iff_not]
    omega
  have hsign : isSignCode n = false := by
    simp only [isSignCode, Bool.or_eq_false_iff, decide_eq_false_iff_not]
    omega
  have hminus : n ≠ 0x2D := by omega
  have hpoint : n ≠ 0x2E := by omega
  cases st <;> simp [numberStep, hdigit, hexp, hsign, hminus, hpoint] at h

theorem numberStep_of_le
    {n : Nat} (hn : 0x80 ≤ n) (st : Storage.NumberState) :
    numberStep st n = none := by
  cases h : numberStep st n with
  | none => rfl
  | some st' =>
      have hrange := numberStep_range h
      omega

/-- A number is read from code units as it is from characters. -/
theorem numberFrom_utf16 :
    ∀ (s : GoString) (st : Storage.NumberState),
      numberFrom UInt16.toNat st (utf16 s) = numberFrom Char.toNat st s
  | [], _ => rfl
  | c :: s, st => by
      have ih := numberFrom_utf16 s
      rw [utf16_cons]
      rcases units_cases c with ⟨u, hc, hu, -⟩ | ⟨hi, lo, hc, hbig, hhi, -⟩
      · rw [hc, List.singleton_append, numberFrom, numberFrom, hu]
        cases numberStep st c.toNat with
        | none => rfl
        | some st' => exact ih st'
      · have hunit : numberStep st hi.toNat = none := by
          refine numberStep_of_le ?_ st
          simp only [isHighSurrogate, Bool.and_eq_true, decide_eq_true_eq] at hhi
          omega
        have hchar : numberStep st c.toNat = none := numberStep_of_le (by omega) st
        rw [hc, List.cons_append, numberFrom, numberFrom, hunit, hchar]

/-- The code units of a text are a number just when the text is. -/
@[simp] theorem isNumber_utf16 (s : GoString) :
    isNumber (utf16 s) = Storage.isNumber s :=
  numberFrom_utf16 s .start

/-! ### Comparisons -/

/-- A number has printable ASCII characters only. -/
theorem numberFrom_mem
    {α : Type} {code : α → Nat} {s : List α} {st : Storage.NumberState}
    (h : numberFrom code st s = true) {c : α} (hc : c ∈ s) :
    0x20 < code c ∧ code c < 0x80 := by
  induction s generalizing st with
  | nil => exact absurd hc List.not_mem_nil
  | cons d s ih =>
      rw [numberFrom] at h
      cases hstep : numberStep st (code d) with
      | none =>
          rw [hstep] at h
          cases h
      | some st' =>
          rw [hstep] at h
          rcases List.mem_cons.mp hc with rfl | hc
          · exact numberStep_range hstep
          · exact ih h hc

theorem isNumber_equals (s : GoString) : Storage.isNumber ('=' :: s) = false := rfl

/-- A value starts with one of the operators, of which the longer one counts, or
with none. -/
theorem operator_cases (value : GoString) :
    (∃ op rest, value = CompareOp.text op ++ rest ∧
        ((op = .gt ∨ op = .lt) → ['='].isPrefixOf rest = false)) ∨
      (∀ op : CompareOp, op.text.isPrefixOf value = false) := by
  rcases value with _ | ⟨c, value⟩
  · exact Or.inr fun op => by cases op <;> rfl
  · by_cases hgt : c = '>'
    · subst hgt
      rcases value with _ | ⟨d, value⟩
      · exact Or.inl ⟨.gt, [], rfl, fun _ => rfl⟩
      · by_cases heq : d = '='
        · subst heq
          exact Or.inl ⟨.ge, value, rfl, by rintro (h | h) <;> cases h⟩
        · exact Or.inl ⟨.gt, d :: value, rfl, fun _ => by simp [List.isPrefixOf, Ne.symm heq]⟩
    · by_cases hlt : c = '<'
      · subst hlt
        rcases value with _ | ⟨d, value⟩
        · exact Or.inl ⟨.lt, [], rfl, fun _ => rfl⟩
        · by_cases heq : d = '='
          · subst heq
            exact Or.inl ⟨.le, value, rfl, by rintro (h | h) <;> cases h⟩
          · exact Or.inl ⟨.lt, d :: value, rfl, fun _ => by simp [List.isPrefixOf, Ne.symm heq]⟩
      · exact Or.inr fun op => by cases op <;> simp [CompareOp.text, List.isPrefixOf, Ne.symm hgt,
          Ne.symm hlt]

/-- The operators a value starts with. -/
theorem operator_isPrefixOf
    {op : CompareOp} {rest : GoString}
    (hrest : (op = .gt ∨ op = .lt) → ['='].isPrefixOf rest = false) (op' : CompareOp) :
    op'.text.isPrefixOf (op.text ++ rest) =
      (op' = op || (op = .ge && op' = .gt) || (op = .le && op' = .lt) : Bool) := by
  cases op <;> cases op' <;> first | rfl | simpa [CompareOp.text, List.isPrefixOf] using hrest

theorem findSome?_alternatives {β : Type} (f : CompareOp → Option β) :
    CompareOp.alternatives.findSome? f =
      ((f .ge).or ((f .le).or ((f .gt).or (f .lt)))) := by
  cases hge : f .ge <;> cases hle : f .le <;> cases hgt : f .gt <;> cases hlt : f .lt <;>
    simp [CompareOp.alternatives, hge, hle, hgt, hlt]

/-- What follows an operator is compared if it is a number. -/
theorem comparisonMatch_operator
    {op : CompareOp} {rest : GoString}
    (hrest : (op = .gt ∨ op = .lt) → ['='].isPrefixOf rest = false) :
    comparisonMatch (op.text ++ rest) =
      if Storage.isNumber rest then some (op, rest) else none := by
  rw [comparisonMatch, findSome?_alternatives]
  simp only [operator_isPrefixOf hrest]
  cases op <;> cases hnumber : Storage.isNumber rest <;>
    simp [CompareOp.text, isNumber_equals, hnumber]

/-- Without an operator there is no comparison. -/
theorem comparisonMatch_none
    {value : GoString} (h : ∀ op : CompareOp, op.text.isPrefixOf value = false) :
    comparisonMatch value = none := by
  simp [comparisonMatch, h]

/-- `.+` reads the encoding of the text. -/
def isLine (rest : GoString) : Bool :=
  !(utf16 rest).isEmpty && (utf16 rest).all fun u => u ∉ lineTerminators

/-- A number is one line. -/
theorem isLine_of_isNumber {s : GoString} (h : Storage.isNumber s = true) :
    isLine s = true := by
  have hne : s ≠ [] := by
    rintro rfl
    cases h
  have hall : ∀ u ∈ utf16 s, u ∉ lineTerminators := by
    intro u hu hline
    obtain ⟨c, hc, hcu⟩ := List.mem_flatMap.mp hu
    have hrange := numberFrom_mem h hc
    rw [units_ascii hrange.2, List.mem_singleton] at hcu
    have hnat : u.toNat = c.toNat := by rw [hcu, jsChar_toNat hrange.2]
    have hcases : u.toNat = 0xA ∨ u.toNat = 0xD ∨ u.toNat = 0x2028 ∨ u.toNat = 0x2029 := by
      simp only [lineTerminators, List.mem_cons, List.not_mem_nil, or_false] at hline
      rcases hline with rfl | rfl | rfl | rfl <;> decide
    omega
  simp only [isLine, List.isEmpty_eq_false_iff.mpr (mt utf16_eq_nil.mp hne), Bool.not_false,
    Bool.true_and, List.all_eq_true, decide_eq_true_eq]
  exact hall

theorem drop_operator (op : CompareOp) (rest : GoString) :
    (utf16 (op.text ++ rest)).drop (utf16 op.text).length = utf16 rest := by
  rw [utf16_append, List.drop_left]

/-- An alternative of the expression takes its operator off the front. -/
theorem execAlternative_append (op : CompareOp) (rest : GoString) :
    execAlternative (utf16 (op.text ++ rest)) op =
      if isLine rest then some (op, utf16 rest) else none := by
  have hprefix : op.text.isPrefixOf (op.text ++ rest) = true :=
    List.isPrefixOf_iff_prefix.mpr (List.prefix_append _ _)
  rw [execAlternative, drop_operator, utf16_isPrefixOf, hprefix, Bool.true_and]
  rfl

theorem execAlternative_none
    {op : CompareOp} {value : GoString} (h : op.text.isPrefixOf value = false) :
    execAlternative (utf16 value) op = none := by
  rw [execAlternative, utf16_isPrefixOf, h, Bool.false_and, Bool.false_and,
    if_neg Bool.false_ne_true]

/-- Where the operator is followed by a line, the browser reads that; otherwise
what it may still read starts with `=` and is no numeral. -/
theorem comparisonExec_operator
    {op : CompareOp} {rest : GoString}
    (hrest : (op = .gt ∨ op = .lt) → ['='].isPrefixOf rest = false) :
    (isLine rest = true → comparisonExec (utf16 (op.text ++ rest)) = some (op, utf16 rest)) ∧
      (isLine rest = false →
        ∀ m, comparisonExec (utf16 (op.text ++ rest)) = some m → isNumber m.2 = false) := by
  have hother : ∀ op' : CompareOp, op'.text.isPrefixOf (op.text ++ rest) = false →
      execAlternative (utf16 (op.text ++ rest)) op' = none :=
    fun op' h => execAlternative_none h
  rw [comparisonExec, findSome?_alternatives]
  have hself := execAlternative_append op rest
  have hprefixes := operator_isPrefixOf hrest
  cases op with
  | ge =>
      have hshort := execAlternative_append .gt ('=' :: rest)
      rw [hother .le (hprefixes .le), hother .lt (hprefixes .lt), hself]
      constructor
      · intro hline
        rw [if_pos hline]
        rfl
      · intro hline m hm
        rw [if_neg (by rw [hline]; exact Bool.false_ne_true)] at hm
        change (execAlternative (utf16 (CompareOp.gt.text ++ '=' :: rest)) .gt).or none = _ at hm
        rw [hshort] at hm
        split at hm
        · cases hm
          exact isNumber_utf16 _
        · cases hm
  | le =>
      have hshort := execAlternative_append .lt ('=' :: rest)
      rw [hother .ge (hprefixes .ge), hother .gt (hprefixes .gt), hself]
      constructor
      · intro hline
        rw [if_pos hline]
        rfl
      · intro hline m hm
        rw [if_neg (by rw [hline]; exact Bool.false_ne_true)] at hm
        change execAlternative (utf16 (CompareOp.lt.text ++ '=' :: rest)) .lt = _ at hm
        rw [hshort] at hm
        split at hm
        · cases hm
          exact isNumber_utf16 _
        · cases hm
  | gt =>
      rw [hother .ge (hprefixes .ge), hother .le (hprefixes .le), hother .lt (hprefixes .lt),
        hself]
      constructor
      · intro hline
        rw [if_pos hline]
        rfl
      · intro hline m hm
        rw [if_neg (by rw [hline]; exact Bool.false_ne_true)] at hm
        cases hm
  | lt =>
      rw [hother .ge (hprefixes .ge), hother .le (hprefixes .le), hother .gt (hprefixes .gt),
        hself]
      constructor
      · intro hline
        rw [if_pos hline]
        rfl
      · intro hline m hm
        rw [if_neg (by rw [hline]; exact Bool.false_ne_true)] at hm
        cases hm

theorem comparisonExec_none
    {value : GoString} (h : ∀ op : CompareOp, op.text.isPrefixOf value = false) :
    comparisonExec (utf16 value) = none := by
  rw [comparisonExec, findSome?_alternatives, execAlternative_none (h .ge),
    execAlternative_none (h .le), execAlternative_none (h .gt), execAlternative_none (h .lt)]
  rfl

section Agreement

variable {server : SearchLibraries} {browser : BrowserLibraries}

/-- Both sides read the same comparison from a term. -/
theorem logComparison_encodeTerm
    (hlib : LibrariesAgree server browser) (term : Storage.LogSearchTerm) :
    logComparison browser (encodeTerm term) =
      if term.quoted then none else comparison server term.value := by
  rw [logComparison]
  change (if term.quoted then none else _) = _
  by_cases hquoted : term.quoted = true
  · rw [if_pos hquoted, if_pos hquoted]
  · rw [if_neg hquoted, if_neg hquoted, comparison]
    have hencoded : (encodeTerm term).value = utf16 term.value := rfl
    rw [hencoded]
    rcases operator_cases term.value with ⟨op, rest, hvalue, hrest⟩ | hnone
    · rw [hvalue, comparisonMatch_operator hrest]
      obtain ⟨hline, hother⟩ := comparisonExec_operator hrest
      by_cases hnumber : Storage.isNumber rest = true
      · rw [hline (isLine_of_isNumber hnumber), if_pos hnumber]
        simp [hnumber, hlib.number rest hnumber]
      · rw [if_neg hnumber]
        have hfalse : ∀ m, comparisonExec (utf16 (op.text ++ rest)) = some m →
            isNumber m.2 = false := by
          cases hisLine : isLine rest with
          | true =>
              intro m hm
              rw [hline hisLine] at hm
              cases hm
              simpa using hnumber
          | false => exact hother hisLine
        cases hexec : comparisonExec (utf16 (op.text ++ rest)) with
        | none => rfl
        | some m => simp [hfalse m hexec]
    · rw [comparisonMatch_none hnone, comparisonExec_none hnone]
      rfl

/-! ### Patterns -/

/-- Both sides read the same pattern from a term. -/
theorem termAtoms_units (term : Storage.LogSearchTerm) :
    (termAtoms term).flatMap Atom.units = unitAtoms (encodeTerm term) := by
  rw [termAtoms, unitAtoms]
  change _ = (utf16 term.value).map _
  rw [utf16, List.map_flatMap, List.flatMap_map]
  refine List.flatMap_congr fun c _ => ?_
  change (if !term.quoted && c = '*' then Atom.anyString else Atom.lit c).units =
    (units c).map fun u => if !term.quoted && u = jsChar '*' then .anyString else .lit u
  by_cases hstar : (!term.quoted && c = '*' : Bool) = true
  · rw [if_pos hstar]
    simp only [Bool.and_eq_true, Bool.not_eq_true', decide_eq_true_eq] at hstar
    rw [hstar.2, units_ascii (by decide)]
    simp [hstar.1, Atom.units]
  · rw [if_neg hstar, Atom.units]
    refine List.map_congr_left fun u hu => ?_
    have hne : ¬ (!term.quoted && u = jsChar '*' : Bool) = true := by
      intro h
      simp only [Bool.and_eq_true, Bool.not_eq_true', decide_eq_true_eq] at h
      rw [h.2] at hu
      have hc : c = '*' := (jsChar_mem_units (by decide) c).mp hu
      exact hstar (by simp [h.1, hc])
    rw [if_neg hne]

/-- The pattern of a term accepts a text when its expression accepts the
encoding. -/
theorem holds_ilike
    (hlib : LibrariesAgree server browser) (term : Storage.LogSearchTerm) (s : GoString) :
    Sql.holds (ilike server (some s) (likeValue term)) =
      regexTest browser (newRegExp (regexSource (encodeTerm term))) (utf16 s) := by
  rw [ilike, likeAtoms_likeValue, newRegExp_source, ← termAtoms_units]
  exact (matchAtoms_utf16 hlib.fold (anyOne_notMem_termAtoms term) s).symm

/-! ### Built-in fields -/

/-- A value of the browser shows a column.  A `DOUBLE` and its number need not
print alike, so the text patterns they have to agree on are left open. -/
inductive Shows (browser : BrowserLibraries) : Option SqlValue → JsValue → Prop
  | absent : Shows browser none .undefined
  | text (s : GoString) : Shows browser (some (.text s)) (.string (utf16 s))
  | integer (n : Int) (h : n.natAbs < 2 ^ 53) : Shows browser (some (.integer n)) (.number n)
  | double (q : ℚ) : Shows browser (some (.double q)) (.number q)

theorem comparison_star : comparison server ['*'] = none := rfl

/-- The matcher of an encoded term, told in the terms of the server. -/
theorem termMatches_encodeTerm
    (hlib : LibrariesAgree server browser) (term : Storage.LogSearchTerm)
    (numericField : Bool) {value : JsValue}
    (hvalue : (value = .undefined || value = .null : Bool) = false) :
    termMatches browser (encodeTerm term) numericField value =
      if !term.quoted && term.value = ['*'] then true
      else
        match if term.quoted then none else comparison server term.value with
        | some (op, v) => compareValue op v value
        | none =>
            match if numericField && Storage.isNumber term.value then
                server.parseFloat term.value else none with
            | some v => decide (value = .number v)
            | none =>
                match scalarText browser value with
                | none => false
                | some s => regexTest browser (newRegExp (regexSource (encodeTerm term))) s := by
  have hnumber :
      (if numericField && isNumber (encodeTerm term).value then
          browser.number (encodeTerm term).value else none) =
        if numericField && Storage.isNumber term.value then
          server.parseFloat term.value else none := by
    change (if numericField && isNumber (utf16 term.value) then
      browser.number (utf16 term.value) else none) = _
    rw [isNumber_utf16]
    cases hisNumber : Storage.isNumber term.value with
    | true => rw [hlib.number _ hisNumber]
    | false => simp
  have hstar : (!(encodeTerm term).quoted && (encodeTerm term).value = js "*" : Bool) =
      (!term.quoted && term.value = ['*'] : Bool) :=
    congrArg (!term.quoted && ·) (decide_eq_decide.mpr (utf16_inj (t := ['*'])))
  rw [termMatches, logComparison_encodeTerm hlib, hnumber]
  simp only [hvalue, hstar, Bool.false_eq_true, if_false]
  by_cases hisStar : (!term.quoted && term.value = ['*'] : Bool) = true
  · have hparts : term.quoted = false ∧ term.value = ['*'] := by simpa using hisStar
    rw [hparts.2, comparison_star]
    simp [hparts.1]
  · generalize (if term.quoted then none else comparison server term.value) = asked
    cases asked with
    | some m => exact (if_neg hisStar).symm
    | none => exact (if_neg hisStar).trans (if_neg hisStar).symm

/-- A condition on a column accepts the row when the matcher of the term accepts
the value that shows the column. -/
theorem holds_signalFieldSQL
    (hlib : LibrariesAgree server browser) {term : Storage.LogSearchTerm}
    {fields : GoString → Option SqlValue} {numeric : List GoString} {value : JsValue}
    (hshows : Shows browser (fieldColumn fields term.field) value)
    (htype : ∀ x, fieldColumn fields term.field = some x →
      (x.number?.isSome = true ↔ term.field ∈ numeric))
    (hdouble : ∀ q, fieldColumn fields term.field = some (.double q) →
      (Storage.isNumber term.value = true → server.parseFloat term.value = none) →
      ¬ (term.quoted = false ∧ term.value = ['*']) →
      Sql.holds (ilike server (some (server.doubleText q)) (likeValue term)) =
        regexTest browser (newRegExp (regexSource (encodeTerm term))) (browser.numberText q)) :
    Sql.holds (signalFieldSQL server term fields numeric) =
      termMatches browser (encodeTerm term) (decide (term.field ∈ numeric)) value := by
  rw [signalFieldSQL]
  generalize fieldColumn fields term.field = column at *
  cases hshows with
  | absent =>
      change _ = false
      by_cases hstar : (!term.quoted && term.value = ['*'] : Bool) = true
      · simp only [hstar, if_true]
        rfl
      · simp only [hstar, Bool.false_eq_true, if_false]
        split
        · split <;> rfl
        · split <;> rfl
  | text s =>
      have hfield : term.field ∉ numeric := by
        intro hmem
        cases (htype _ rfl).mpr hmem
      rw [termMatches_encodeTerm hlib term _ rfl]
      by_cases hstar : (!term.quoted && term.value = ['*'] : Bool) = true
      · rw [if_pos hstar, if_pos hstar]
        rfl
      · rw [if_neg hstar, if_neg hstar]
        generalize (if term.quoted then none else comparison server term.value) = asked
        cases asked with
        | some m =>
            simp only [hfield, not_false_eq_true, if_true]
            rfl
        | none =>
            simp only [hfield, decide_false, Bool.false_and, Bool.false_eq_true, if_false]
            exact holds_ilike hlib term s
  | integer n h =>
      have hfield : term.field ∈ numeric := (htype _ rfl).mp rfl
      rw [termMatches_encodeTerm hlib term _ rfl]
      by_cases hstar : (!term.quoted && term.value = ['*'] : Bool) = true
      · rw [if_pos hstar, if_pos hstar]
        rfl
      · rw [if_neg hstar, if_neg hstar]
        generalize (if term.quoted then none else comparison server term.value) = asked
        cases asked with
        | some m =>
            simp only [hfield, not_true_eq_false, if_false]
            rfl
        | none =>
            simp only [hfield, decide_true, Bool.true_and]
            generalize (if Storage.isNumber term.value then
              server.parseFloat term.value else none) = number
            cases number with
            | some v => simp [Sql.strict, SqlValue.number?]
            | none =>
                change Sql.holds (ilike server (some (decimal n)) (likeValue term)) =
                  regexTest browser _ (browser.numberText n)
                rw [hlib.decimal n h, holds_ilike hlib]
  | double q =>
      have hfield : term.field ∈ numeric := (htype _ rfl).mp rfl
      rw [termMatches_encodeTerm hlib term _ rfl]
      by_cases hstar : (!term.quoted && term.value = ['*'] : Bool) = true
      · rw [if_pos hstar, if_pos hstar]
        rfl
      · rw [if_neg hstar, if_neg hstar]
        generalize (if term.quoted then none else comparison server term.value) = asked
        cases asked with
        | some m =>
            simp only [hfield, not_true_eq_false, if_false]
            rfl
        | none =>
            simp only [hfield, decide_true, Bool.true_and]
            cases hnumber : (if Storage.isNumber term.value then
              server.parseFloat term.value else none) with
            | some v => simp [Sql.strict, SqlValue.number?]
            | none =>
                refine hdouble q rfl (fun h => ?_) (by simpa using hstar)
                rwa [if_pos h] at hnumber

/-! ### Attributes -/

/-- A value of a `JSON` column as the browser has it. -/
def jsValue (browser : BrowserLibraries) : Storage.Json → JsValue
  | .null => .null
  | .bool b => .bool b
  | .num q => .number (browser.double q)
  | .str s => .string (utf16 s.toList)
  | .arr _ => .object
  | .obj _ => .object

def jsRecord (browser : BrowserLibraries) (attributes : Attributes) : JsRecord :=
  attributes.fields.map fun f => (utf16 f.1.toList, jsValue browser f.2)

/-- The value of the browser for a value that may be missing. -/
def jsValue? (browser : BrowserLibraries) : Option Storage.Json → JsValue
  | none => .undefined
  | some j => jsValue browser j

/-- An attribute of the browser is the value of the attribute stored. -/
theorem ownValue_jsRecord (attributes : Attributes) (key : GoString) :
    ownValue (jsRecord browser attributes) (utf16 key) =
      jsValue? browser (attributes.get? (String.ofList key)) := by
  have hfind : ∀ fields : List (String × Storage.Json),
      (fields.map fun f => (utf16 f.1.toList, jsValue browser f.2)).find?
          (fun f => f.1 = utf16 key) =
        (fields.find? fun f => f.1 = String.ofList key).map
          fun f => (utf16 f.1.toList, jsValue browser f.2) := by
    intro fields
    rw [List.find?_map]
    refine congrArg _ (congrArg (fun p => List.find? p fields) (funext fun f => ?_))
    rw [Function.comp_apply, decide_eq_decide, utf16_inj, ← String.toList_inj,
      String.toList_ofList]
  rw [ownValue, jsRecord, hfind, Attributes.get?]
  cases attributes.fields.find? fun f => f.1 = String.ofList key <;> rfl

/-- A number has a type of numbers. -/
theorem jsonTypeIn_num (q : ℚ) :
    jsonTypeIn numberTypes (some (.num q)) = some true ∧
      jsonTypeIn scalarTypes (some (.num q)) = some true := by
  by_cases hden : q.den = 1
  · by_cases hsign : 0 ≤ q <;>
      simp [jsonTypeIn, Sql.strict, jsonType, hden, hsign, numberTypes, scalarTypes]
  · simp [jsonTypeIn, Sql.strict, jsonType, hden, numberTypes, scalarTypes]

theorem jsonType_ne_null {value : Storage.Json} (hnull : value ≠ .null) :
    jsonType value ≠ "NULL" := by
  cases value with
  | null => exact absurd rfl hnull
  | num q =>
      by_cases hden : q.den = 1
      · by_cases hsign : 0 ≤ q <;> simp [jsonType, hden, hsign]
      · simp [jsonType, hden]
  | _ => simp [jsonType]

/-- A condition on a value accepts it when the matcher does. -/
theorem holds_attributeCondition
    (hlib : LibrariesAgree server browser) (term : Storage.LogSearchTerm)
    {value : Option Storage.Json}
    (hnumbers : ∀ q, value = some (.num q) →
      browser.numberText (browser.double q) = utf16 (server.jsonNumberText q) ∧
        server.castDouble (server.jsonNumberText q) = some (browser.double q)) :
    Sql.holds (attributeCondition server term value) =
      termMatches browser (encodeTerm term) false (jsValue? browser value) := by
  rw [attributeCondition]
  rcases value with _ | value
  · change _ = false
    split
    · rfl
    · split <;> rfl
  · by_cases hnull : value = .null
    · rw [hnull]
      change _ = false
      split
      · rfl
      · split <;> simp [jsonTypeIn, jsonType, numberTypes, scalarTypes, Sql.strict]
    · have hdefined : (jsValue browser value = .undefined || jsValue browser value = .null :
          Bool) = false := by
        cases value <;> first | exact absurd rfl hnull | simp [jsValue]
      change _ = termMatches browser (encodeTerm term) false (jsValue browser value)
      rw [termMatches_encodeTerm hlib term false hdefined]
      by_cases hstar : (!term.quoted && term.value = ['*'] : Bool) = true
      · rw [if_pos hstar, if_pos hstar]
        simp [Sql.strict, jsonType_ne_null hnull]
      · rw [if_neg hstar, if_neg hstar]
        generalize (if term.quoted then none else comparison server term.value) = asked
        cases asked with
        | some m =>
            cases value with
            | null => exact absurd rfl hnull
            | num q =>
                change Sql.holds (Sql.and (jsonTypeIn numberTypes (some (.num q)))
                  (Sql.strict _ (server.castDouble (server.jsonNumberText q)))) = _
                rw [(jsonTypeIn_num q).1, (hnumbers q rfl).2, Sql.holds_and]
                rfl
            | _ =>
                rw [Sql.holds_and]
                rfl
        | none =>
            have htext : ∀ s, jsonTypeIn scalarTypes (some value) = some true →
                jsonExtractString server value = some s →
                scalarText browser (jsValue browser value) = some (utf16 s) →
                Sql.holds (Sql.and (jsonTypeIn scalarTypes (some value))
                    (ilike server (jsonExtractString server value) (likeValue term))) =
                  match scalarText browser (jsValue browser value) with
                  | none => false
                  | some s =>
                      regexTest browser (newRegExp (regexSource (encodeTerm term))) s := by
              intro s htype hserver hbrowser
              rw [hserver, hbrowser, htype, Sql.holds_and, holds_ilike hlib]
              rfl
            simp only [Bool.false_and, Bool.false_eq_true, if_false]
            cases value with
            | null => exact absurd rfl hnull
            | bool b => cases b <;> exact htext _ rfl rfl rfl
            | num q =>
                exact htext _ (jsonTypeIn_num q).2 rfl (congrArg some (hnumbers q rfl).1)
            | str s => exact htext _ rfl rfl rfl
            | _ =>
                rw [Sql.holds_and]
                rfl

theorem get?_mem
    {attributes : Attributes} {key : String} {j : Storage.Json} (h : attributes.get? key = some j) :
    (key, j) ∈ attributes.fields := by
  rw [Attributes.get?, Option.map_eq_some_iff] at h
  obtain ⟨f, hf, rfl⟩ := h
  have hkey : f.1 = key := by simpa using List.find?_some hf
  rw [← hkey]
  exact List.mem_of_find?_eq_some hf

/-- A term about an attribute holds on both sides or on none. -/
theorem holds_attributeSQL
    (hlib : LibrariesAgree server browser) {term : Storage.LogSearchTerm}
    (hfield : term.field = []) {attributes resource : Attributes}
    (hattributes : NumbersAgree server browser attributes)
    (hresource : NumbersAgree server browser resource)
    (fields : GoString → Option SqlValue) (numeric : List GoString) :
    Sql.holds (signalAttributeSQL server term attributes resource fields numeric) =
      termMatches browser (encodeTerm term) false
        (ownValue (jsRecord browser (if term.resource then resource else attributes))
          (utf16 term.key)) := by
  rw [signalAttributeSQL, if_neg (not_not.mpr hfield), ownValue_jsRecord]
  simp only [jsonGet_pointerPath]
  refine holds_attributeCondition hlib term fun q hq => ?_
  have hmem := get?_mem hq
  cases hresourceTerm : term.resource with
  | true =>
      rw [hresourceTerm, if_pos rfl] at hmem
      exact hresource _ q hmem
  | false =>
      rw [hresourceTerm, if_neg Bool.false_ne_true] at hmem
      exact hattributes _ q hmem

/-! ### Ids -/

theorem all_zero_utf16 (s : GoString) :
    ((utf16 s).all fun u => u = jsChar '0') = s.all fun c => c = '0' := by
  rw [Bool.eq_iff_iff, List.all_eq_true, List.all_eq_true]
  constructor
  · intro h c hc
    obtain ⟨u, us, hus⟩ := List.exists_cons_of_ne_nil (units_ne_nil c)
    have hmem : u ∈ units c := by
      rw [hus]
      exact List.mem_cons_self
    have hu : u = jsChar '0' := by simpa using h u (List.mem_flatMap.mpr ⟨c, hc, hmem⟩)
    rw [hu, jsChar_mem_units (by decide)] at hmem
    simp [hmem]
  · intro h u hu
    obtain ⟨c, hc, hmem⟩ := List.mem_flatMap.mp hu
    have hzero : c = '0' := by simpa using h c hc
    rw [hzero, units_ascii (by decide), List.mem_singleton] at hmem
    simp [hmem]

/-- An id is zero in code units just when it is in characters. -/
theorem isZeroId_utf16 (s : GoString) :
    isZeroId (.string (utf16 s)) = (s.isEmpty || s.all fun c => c = '0') := by
  have hempty : (utf16 s).isEmpty = s.isEmpty := by
    cases s with
    | nil => rfl
    | cons c s => simp [units_ne_nil]
  rw [isZeroId, all_zero_utf16, hempty]

/-- An id that is missing or has the usual length. -/
def IsId (n : Nat) (s : String) : Prop := s.toList = [] ∨ s.toList.length = n

theorem nullIf_eq_some {α : Type} [DecidableEq α] {x : Option α} {y a : α}
    (h : Sql.nullIf x y = some a) : x = some a := by
  rw [Sql.nullIf] at h
  split at h
  · cases h
  · exact h

/-- A zero id counts as absent on both sides. -/
theorem shows_id
    {n : Nat} {s : String} (hid : IsId n s) :
    Shows browser
      (Sql.nullIf (Sql.nullIf (some (.text s.toList)) (.text []))
        (.text (List.replicate n '0')))
      (if isZeroId (.string (utf16 s.toList)) then .undefined
        else .string (utf16 s.toList)) := by
  rw [isZeroId_utf16]
  by_cases hempty : s.toList = []
  · rw [hempty]
    exact .absent
  · have hlength : s.toList.length = n := hid.resolve_left hempty
    have hfirst : Sql.nullIf (some (SqlValue.text s.toList)) (.text []) =
        some (.text s.toList) :=
      if_neg (by simpa using hempty)
    rw [hfirst, Sql.nullIf]
    by_cases hzero : s.toList = List.replicate n '0'
    · have hall : (s.toList.isEmpty || s.toList.all fun c => c = '0') = true := by
        rw [Bool.or_eq_true, List.all_eq_true]
        refine Or.inr fun c hc => ?_
        rw [hzero] at hc
        simp [List.eq_of_mem_replicate hc]
      rw [if_pos (by rw [hzero]), if_pos hall]
      exact .absent
    · have hall : ¬ (s.toList.isEmpty || s.toList.all fun c => c = '0') = true := by
        intro h
        rw [Bool.or_eq_true, List.isEmpty_iff, List.all_eq_true] at h
        refine hzero (List.eq_replicate_iff.mpr ⟨hlength, fun c hc => ?_⟩)
        simpa using h.resolve_left hempty c hc
      rw [if_neg (by simpa using hzero), if_neg hall]
      exact .text _

/-! ### Logs -/

/-- A stored log as the browser has it. -/
def logData (browser : BrowserLibraries) (l : LogRow) (r : ResourceRow) : LogData where
  traceId := utf16 l.traceID.toList
  spanId := utf16 l.spanID.toList
  serviceName := utf16 r.serviceName.toList
  severityText := utf16 l.severityText.toList
  severityNumber := l.severityNumber
  body := utf16 l.body.toList
  attributes := jsRecord browser l.attributes
  resource := jsRecord browser r.attributes

/-- A term keeps its field. -/
theorem encodeTerm_field {term : Storage.LogSearchTerm} (hfield : term.field ≠ []) :
    (encodeTerm term).field = some (utf16 term.field) :=
  if_neg (by simpa using hfield)

theorem logTermValue_encodeTerm
    (l : LogRow) (r : ResourceRow) {term : Storage.LogSearchTerm} (hfield : term.field ≠ [])
    (value : JsValue) (hvalue : (logData browser l r).field (utf16 term.field) = some value) :
    logTermValue (logData browser l r) (encodeTerm term) =
      if (term.field = "trace_id".toList || term.field = "span_id".toList) &&
          isZeroId value then .undefined
      else value := by
  rw [logTermValue, encodeTerm_field hfield, Option.bind_some, hvalue]
  simp only [js, Option.some.injEq, utf16_inj]

/-- The browser reads the column of a built-in field. -/
theorem shows_logField
    (browser : BrowserLibraries) {l : LogRow} {r : ResourceRow} {term : Storage.LogSearchTerm}
    (htrace : IsId 32 l.traceID) (hspan : IsId 16 l.spanID)
    (hseverity : l.severityNumber.natAbs < 2 ^ 53) (hfield : term.field ∈ logFields) :
    Shows browser (fieldColumn (logFieldColumns l r) term.field)
        (logTermValue (logData browser l r) (encodeTerm term)) ∧
      ∀ x, fieldColumn (logFieldColumns l r) term.field = some x →
        (x.number?.isSome = true ↔ term.field ∈ ["severity_number".toList]) ∧
          ∀ q, x ≠ .double q := by
  have hne : term.field ≠ [] := by
    intro h
    rw [h] at hfield
    exact absurd hfield (by decide)
  have htext : ∀ (s field : GoString), field ∉ ["severity_number".toList] →
      ∀ x, some (SqlValue.text s) = some x →
        (x.number?.isSome = true ↔ field ∈ ["severity_number".toList]) ∧
          ∀ q, x ≠ .double q := by
    rintro s field hnumeric x hx
    cases hx
    exact ⟨iff_of_false Bool.false_ne_true hnumeric, fun _ h => nomatch h⟩
  simp only [logFields, List.mem_cons, List.not_mem_nil, or_false] at hfield
  rcases hfield with h | h | h | h | h | h
  · rw [logTermValue_encodeTerm l r hne (.string (utf16 l.traceID.toList)) (by rw [h]; rfl), h]
    exact ⟨shows_id htrace, fun x hx => htext l.traceID.toList _ (by decide) x
      (nullIf_eq_some (nullIf_eq_some hx))⟩
  · rw [logTermValue_encodeTerm l r hne (.string (utf16 l.spanID.toList)) (by rw [h]; rfl), h]
    exact ⟨shows_id hspan, fun x hx => htext l.spanID.toList _ (by decide) x
      (nullIf_eq_some (nullIf_eq_some hx))⟩
  · rw [logTermValue_encodeTerm l r hne (.string (utf16 r.serviceName.toList))
      (by rw [h]; rfl), h]
    exact ⟨.text r.serviceName.toList, htext r.serviceName.toList _ (by decide)⟩
  · rw [logTermValue_encodeTerm l r hne (.string (utf16 l.severityText.toList))
      (by rw [h]; rfl), h]
    exact ⟨.text l.severityText.toList, htext l.severityText.toList _ (by decide)⟩
  · rw [logTermValue_encodeTerm l r hne (.number l.severityNumber) (by rw [h]; rfl), h]
    refine ⟨.integer l.severityNumber hseverity, ?_⟩
    intro x hx
    cases hx
    exact ⟨iff_of_true rfl (by decide), fun _ h => nomatch h⟩
  · rw [logTermValue_encodeTerm l r hne (.string (utf16 l.body.toList)) (by rw [h]; rfl), h]
    exact ⟨.text l.body.toList, htext l.body.toList _ (by decide)⟩

/-- Negation accepts the missing value on both sides. -/
theorem holds_negatable
    {clause : Sql.Truth} {term : Storage.LogSearchTerm} {numericField : Bool}
    {value : JsValue}
    (h : Sql.holds clause = termMatches browser (encodeTerm term) numericField value) :
    Sql.holds (negatable term clause) =
      createTermMatcher browser (encodeTerm term) numericField value := by
  rw [negatable, createTermMatcher, ← h]
  change _ = if term.negated then _ else _
  cases term.negated with
  | true => rw [if_pos rfl, if_pos rfl, Sql.holds_not_coalesce]
  | false => rw [if_neg Bool.false_ne_true, if_neg Bool.false_ne_true]

/-- A log on which the two sides can be compared. -/
structure LogAgrees (server : SearchLibraries) (browser : BrowserLibraries) (l : LogRow)
    (r : ResourceRow) : Prop where
  traceID : IsId 32 l.traceID
  spanID : IsId 16 l.spanID
  severityNumber : l.severityNumber.natAbs < 2 ^ 53
  attributes : NumbersAgree server browser l.attributes
  resource : NumbersAgree server browser r.attributes

/-- A term about a record holds on both sides or on none. -/
theorem holds_logTermClause
    (hlib : LibrariesAgree server browser) {l : LogRow} {r : ResourceRow}
    (hlog : LogAgrees server browser l r) {term : Storage.LogSearchTerm}
    (hterm : term.field = [] ∨ term.field ∈ logFields) :
    Sql.holds (logTermClause server l r term) =
      createTermMatcher browser (encodeTerm term)
        (decide ((encodeTerm term).field = some (js "severity_number")))
        (logTermValue (logData browser l r) (encodeTerm term)) := by
  refine holds_negatable ?_
  by_cases hfield : term.field = []
  · have hnone : (encodeTerm term).field = none := by simp [encodeTerm, hfield]
    have hvalue : logTermValue (logData browser l r) (encodeTerm term) =
        ownValue (jsRecord browser (if term.resource then r.attributes else l.attributes))
          (utf16 term.key) := by
      rw [logTermValue, hnone, Option.bind_none]
      change ownValue (if term.resource then _ else _) _ = _
      cases term.resource <;> rfl
    rw [logAttributeSQL, holds_attributeSQL hlib hfield hlog.attributes hlog.resource,
      hvalue, hnone]
    rfl
  · obtain ⟨hshows, hcolumn⟩ := shows_logField browser hlog.traceID hlog.spanID
      hlog.severityNumber (hterm.resolve_left hfield)
    have hnumeric : decide ((encodeTerm term).field = some (js "severity_number")) =
        decide (term.field ∈ ["severity_number".toList]) := by
      rw [encodeTerm_field hfield, decide_eq_decide, Option.some.injEq, js, utf16_inj,
        List.mem_singleton]
    rw [logAttributeSQL, signalAttributeSQL, if_pos hfield, hnumeric]
    exact holds_signalFieldSQL hlib hshows (fun x hx => (hcolumn x hx).1)
      fun q hq => absurd rfl ((hcolumn _ hq).2 q)

/-- The clauses that a search adds for its terms keep a stored log when the
matchers of the browser accept its values. -/
theorem logTerms_agree
    (hlib : LibrariesAgree server browser) {l : LogRow} {r : ResourceRow}
    (hlog : LogAgrees server browser l r) {terms : List Storage.LogSearchTerm}
    (hterms : ∀ term ∈ terms, term.field = [] ∨ term.field ∈ logFields)
    (predicate : Sql.Truth) :
    Sql.holds (Sql.all predicate (terms.map (logTermClause server l r))) =
      (Sql.holds predicate &&
        logTermsMatch browser (terms.map encodeTerm) (logData browser l r)) := by
  rw [Sql.holds_all, logTermsMatch, List.all_map, List.all_map]
  refine congrArg (Sql.holds predicate && ·) ?_
  rw [Bool.eq_iff_iff, List.all_eq_true, List.all_eq_true]
  refine forall₂_congr fun term hterm => ?_
  exact Bool.eq_iff_iff.mp (holds_logTermClause hlib hlog (hterms term hterm))

end Agreement

/-- Libraries that know ASCII, and the numbers of the samples. -/
def sampleServer : SearchLibraries where
  fold := asciiLower
  parseFloat s := if s = "500".toList then some 500 else none
  double q := q
  jsonNumberText q := decimal q.num
  jsonText _ := []
  eventsText _ := []
  castDouble s := if s = "503".toList then some 503 else none
  doubleText q := decimal q.num

def sampleBrowser : BrowserLibraries where
  foldUnit := asciiLowerUnit
  toLowerCase s := s.map asciiLowerUnit
  number s := if s = js "500" then some 500 else none
  double q := q
  numberText q := utf16 (decimal q.num)
  stringify _ := []

/-- The sample libraries of both sides agree. -/
theorem sampleLibraries_agree : LibrariesAgree sampleServer sampleBrowser where
  fold := asciiLower_foldAgree
  number s _ := by simp only [sampleBrowser, sampleServer, js, utf16_inj]
  double _ := rfl
  decimal n _ := by simp [sampleBrowser]

/-- A log with a numeric attribute. -/
def sampleLog : LogRow where
  id := 1
  ts := 0
  observedTS := 0
  traceID := ""
  spanID := "00000000000000ab"
  severityNumber := 17
  severityText := "Error"
  body := "100% *done*"
  attributes := ⟨[("status", .num 503)], by decide⟩
  resourceHash := 1

def sampleResource : ResourceRow where
  resourceHash := 1
  serviceName := "api"
  attributes := .empty

/-- The sample record is the same on both sides. -/
theorem sampleLog_agrees : LogAgrees sampleServer sampleBrowser sampleLog sampleResource where
  traceID := Or.inl rfl
  spanID := Or.inr rfl
  severityNumber := by decide
  attributes := by
    intro key q hmem
    have hq : q = 503 := by simpa [sampleLog] using (Prod.mk.inj (List.mem_singleton.mp hmem)).2
    subst hq
    exact ⟨rfl, by decide +kernel⟩
  resource := by
    intro key q hmem
    exact absurd hmem List.not_mem_nil

/-- `attributes.status:>=500 body:1%% -trace_id:*` with a wildcard. -/
def sampleTerms : List Storage.LogSearchTerm :=
  [ { field := [], resource := false, key := "status".toList, value := ">=500".toList
      quoted := false, negated := false },
    { field := "body".toList, resource := false, key := "body".toList
      value := "100% \\*".toList, quoted := false, negated := true },
    { field := "trace_id".toList, resource := false, key := "trace_id".toList
      value := "*".toList, quoted := false, negated := true } ]

theorem logTerms_agree_sample :
    Sql.holds (Sql.all (some true)
        (sampleTerms.map (logTermClause sampleServer sampleLog sampleResource))) =
      (Sql.holds (some true) &&
        logTermsMatch sampleBrowser (sampleTerms.map encodeTerm)
          (logData sampleBrowser sampleLog sampleResource)) :=
  logTerms_agree sampleLibraries_agree sampleLog_agrees (by decide) (some true)

end Frontend
end Otelop
