import Mathlib.Tactic
import Otelop.Frontend.ParserAgreement
import Otelop.Frontend.TraceSearch
import Otelop.Lib.JsonQuote

/-!
# Filters built in the browser

The drafts of `frontend/src/lib/log-filter.ts`, the terms they become, and `serializeLogTerm`
of `frontend/src/lib/log-search.ts`, which writes a term as one token of a search.

A draft is what the filter dialog holds while a user types: a field or an attribute, an
operator and a value, all as texts.  `filterDraftError` says what is wrong with it, and an
accepted draft becomes a term.  A value is written bare or as a JSON string literal, which
`needsQuotes` decides.

The lexer of the parser goes through a token unit by unit; `LexToken` and `LexQuoted` say that
it stays in one token, outside and inside of a literal, and are closed under appending.

**Results.**
* `lexToken_serializeLogTerm`: what is written is one token.
* `parseToken_serializeLogTerm`: it is parsed as the term.
* `draftTerm_serializable`: both hold of the terms of accepted drafts.
-/

namespace Otelop
namespace Frontend

open Lib Storage

/-! ### Fields -/

inductive Signal where
  | logs
  | traces
  | metrics
deriving DecidableEq

/-- `Object.keys(logFields)` -/
def logFieldKeys : List JsString :=
  ["trace_id", "span_id", "service_name", "severity_text", "severity_number", "body"].map js

/-- `metricFields` -/
def metricFields : List JsString :=
  ["name", "service_name", "type", "unit", "description"].map js

/-- The fields of a signal, with the default of the callers. -/
def queryFields : Signal → List JsString
  | .logs => logFieldKeys
  | .traces => traceFields
  | .metrics => metricFields

/-! ### Drafts -/

/-- The values of `logFilterOperators`. -/
inductive LogFilterOperator where
  | is
  | isNot
  | contains
  | notContains
  | wildcard
  | notWildcard
  | present
  | notPresent
  | compare (op : CompareOp)
deriving DecidableEq

structure LogFilterDraft where
  key : JsString
  operator : LogFilterOperator
  value : JsString
deriving DecidableEq

/-- The units `\s` matches and `trim` removes. -/
def isJsSpace (u : UInt16) : Bool :=
  decide (u ∈ ([0x09, 0x0A, 0x0B, 0x0C, 0x0D, 0x20, 0xA0, 0x1680, 0x2028, 0x2029, 0x202F,
      0x205F, 0x3000, 0xFEFF] : List UInt16)) ||
    decide (0x2000 ≤ u.toNat) && decide (u.toNat ≤ 0x200A)

/-- `s.trim()` -/
def trimUnits (s : JsString) : JsString :=
  ((s.dropWhile isJsSpace).reverse.dropWhile isJsSpace).reverse

/-- `[^\s:"]` -/
def isKeyUnit (u : UInt16) : Bool :=
  !isJsSpace u && decide (u ≠ jsChar ':') && decide (u ≠ jsChar '"')

/-- `/^(attributes|resource)\.[^\s:"]+$/.test(key)` -/
def isAttributeKey (key : JsString) : Bool :=
  [js "attributes.", js "resource."].any fun start =>
    start.isPrefixOf key && !(key.drop start.length).isEmpty &&
      (key.drop start.length).all isKeyUnit

/-- The message for a draft that is refused. -/
def filterDraftError (lib : BrowserLibraries) (draft : LogFilterDraft)
    (fields numericFields : List JsString) : Option String :=
  let key := trimUnits draft.key
  let numeric : Bool :=
    match draft.operator with
    | .compare _ => true
    | _ => false
  let pattern : Bool :=
    match draft.operator with
    | .contains | .notContains | .wildcard | .notWildcard => true
    | _ => false
  if key ∉ fields && !isAttributeKey key then
    some "Choose a field, attributes.key, or resource.key."
  else if key ∈ fields && key ∉ numericFields && numeric then
    some "Numeric comparisons require a numeric field."
  else if numeric && (!isNumber draft.value || (lib.number draft.value).isNone) then
    some "Enter a finite number for this operator."
  else if pattern && draft.value.isEmpty then some "Enter a value to match."
  else none

def draftTerm (draft : LogFilterDraft) (fields : List JsString) : LogSearchTerm :=
  let key := trimUnits draft.key
  { field := if key ∈ fields then some key else none
    resource := (js "resource.").isPrefixOf key
    key := sliceFrom key (indexOf key (jsChar '.') + 1)
    value :=
      match draft.operator with
      | .present | .notPresent => js "*"
      | .contains | .notContains => js "*" ++ draft.value ++ js "*"
      | .compare op => utf16 op.text ++ draft.value
      | _ => draft.value
    quoted := decide (draft.operator = .is) || decide (draft.operator = .isNot)
    negated :=
      decide (draft.operator = .isNot) || decide (draft.operator = .notContains) ||
        decide (draft.operator = .notPresent) || decide (draft.operator = .notWildcard) }

/-- The draft of a click on a value. -/
def valueToFilterDraft (lib : BrowserLibraries) (key : JsString) (value : JsValue) :
    LogFilterDraft where
  key
  operator :=
    match value with
    | .undefined | .null => .notPresent
    | .object => .present
    | _ => .is
  value := (scalarText lib value).getD []

/-! ### Writing a term -/

def logTermKey (term : LogSearchTerm) : JsString :=
  match term.field with
  | some field => field
  | none => (if term.resource then js "resource" else js "attributes") ++ js "." ++ term.key

/-- `/[\s"]/.test(value)` -/
def needsQuotes (value : JsString) : Bool :=
  value.any fun u => isJsSpace u || decide (u = jsChar '"')

/-- The value of a term, as the parser reads it. -/
def serializeValue (term : LogSearchTerm) : JsString :=
  if term.quoted then quoteString term.value
  else if needsQuotes term.value then js "~" ++ quoteString term.value
  else term.value

def serializeLogTerm (term : LogSearchTerm) : JsString :=
  (if term.negated then js "-" else []) ++ logTermKey term ++ js ":" ++ serializeValue term

/-! ### One token -/

/-- Outside quotes the text is read into the current token, and ends outside quotes. -/
def LexToken (text : JsString) : Prop :=
  ∀ s : Lexer UInt16, s.quoted = false → s.escaped = false →
    text.foldl lexStep s = { s with current := s.current ++ text }

/-- Inside quotes the text is read into the current token, and ends inside quotes. -/
def LexQuoted (text : JsString) : Prop :=
  ∀ s : Lexer UInt16, s.quoted = true → s.escaped = false →
    text.foldl lexStep s = { s with current := s.current ++ text }

theorem LexToken.nil : LexToken [] := fun s _ _ => by simp

theorem LexToken.append {x y : JsString} (hx : LexToken x) (hy : LexToken y) :
    LexToken (x ++ y) := by
  intro s hquoted hescaped
  rw [List.foldl_append, hx s hquoted hescaped,
    hy { s with current := s.current ++ x } hquoted hescaped]
  simp

theorem LexQuoted.append {x y : JsString} (hx : LexQuoted x) (hy : LexQuoted y) :
    LexQuoted (x ++ y) := by
  intro s hquoted hescaped
  rw [List.foldl_append, hx s hquoted hescaped,
    hy { s with current := s.current ++ x } hquoted hescaped]
  simp

theorem isSearchSpace_of_isJsSpace {u : UInt16} (h : isJsSpace u = false) :
    isSearchSpace u = false := by
  rw [isJsSpace, Bool.or_eq_false_iff] at h
  have hmem := of_decide_eq_false h.1
  simp only [List.mem_cons, not_or] at hmem
  simp only [isSearchSpace, Bool.or_eq_false_iff, decide_eq_false_iff_not]
  refine ⟨⟨⟨?_, ?_⟩, ?_⟩, ?_⟩
  · exact hmem.2.2.2.2.2.1
  · exact hmem.1
  · exact hmem.2.2.2.2.1
  · exact hmem.2.1

/-- A unit that is neither white space nor a quote. -/
theorem lexToken_unit
    {u : UInt16} (hspace : isSearchSpace u = false) (hquote : u ≠ jsChar '"') :
    LexToken [u] := by
  intro s hquoted hescaped
  simp [lexStep, hquoted, hescaped, hspace, hquote]

theorem lexToken_of_all
    {text : JsString} (h : ∀ u ∈ text, isSearchSpace u = false ∧ u ≠ jsChar '"') :
    LexToken text := by
  induction text with
  | nil => exact LexToken.nil
  | cons u text ih =>
      obtain ⟨hspace, hquote⟩ := h u List.mem_cons_self
      exact (lexToken_unit hspace hquote).append
        (ih fun v hv => h v (List.mem_cons_of_mem u hv))

theorem lexQuoted_unit
    {u : UInt16} (hquote : u ≠ jsChar '"') (hslash : u ≠ jsChar '\\') : LexQuoted [u] := by
  intro s hquoted hescaped
  simp [lexStep, hquoted, hescaped, hquote, hslash]

/-- A backslash and what it escapes. -/
theorem lexQuoted_escape (u : UInt16) : LexQuoted [jsChar '\\', u] := by
  intro s hquoted hescaped
  simp [lexStep, hquoted, hescaped]

theorem hexChar_ne {n : Nat} (h : n < 16) :
    hexChar n ≠ jsChar '"' ∧ hexChar n ≠ jsChar '\\' := by
  interval_cases n <;> decide

theorem lexQuoted_unicodeEscape (u : UInt16) : LexQuoted (unicodeEscape u) := by
  have hlt := u.toNat_lt
  have hdigit : ∀ n, n < 16 → LexQuoted [hexChar n] :=
    fun n hn => lexQuoted_unit (hexChar_ne hn).1 (hexChar_ne hn).2
  exact (lexQuoted_escape 0x75).append
    ((hdigit _ (by omega)).append
      ((hdigit _ (by omega)).append ((hdigit _ (by omega)).append (hdigit _ (by omega)))))

theorem lexQuoted_quoteUnit (u : UInt16) : LexQuoted (quoteUnit u) := by
  unfold quoteUnit
  cases hshort : shortEscape u with
  | some letter => exact lexQuoted_escape letter
  | none =>
      dsimp only
      split_ifs
      · exact lexQuoted_unicodeEscape u
      · refine lexQuoted_unit ?_ ?_ <;> rintro rfl <;> cases hshort

theorem lexQuoted_quoteBody (s : JsString) : LexQuoted (quoteBody s) := by
  fun_induction quoteBody s with
  | case1 => exact fun t _ _ => by simp
  | case2 u => exact lexQuoted_quoteUnit u
  | case3 u v tail hpair ih =>
      simp only [isHighSurrogate, isLowSurrogate, Bool.and_eq_true, decide_eq_true_eq] at hpair
      have hsurrogate : ∀ w : UInt16, 0x80 ≤ w.toNat → LexQuoted [w] := fun w hw =>
        lexQuoted_unit (ne_jsChar_of_le hw (by decide)) (ne_jsChar_of_le hw (by decide))
      exact (hsurrogate u (by omega)).append ((hsurrogate v (by omega)).append ih)
  | case4 u v tail hpair ih => exact (lexQuoted_quoteUnit u).append ih

theorem lexToken_quoteString (s : JsString) : LexToken (quoteString s) := by
  intro t hquoted hescaped
  have hquote : (0x22 : UInt16) = jsChar '"' := rfl
  have hopen : lexStep t 0x22 = { t with current := t.current ++ [0x22], quoted := true } := by
    simp [lexStep, hquoted, hescaped, hquote]
  have hbody := lexQuoted_quoteBody s
    { t with current := t.current ++ [0x22], quoted := true } rfl hescaped
  rw [quoteString, List.foldl_cons, hopen, List.foldl_append, hbody]
  simp [lexStep, hescaped, hquoted, hquote, isSearchSpace, jsChar]

/-! ### Parsing what was written -/

/-- A term whose key and value the parser reads back. -/
structure Serializable (fields : List JsString) (term : LogSearchTerm) : Prop where
  fields_key : ∀ field ∈ fields, ∀ u ∈ field, isKeyUnit u = true
  fields_start : ∀ field ∈ fields, field ≠ [] ∧ (js "-").isPrefixOf field = false ∧
    (js "resource.").isPrefixOf field = false ∧ (js "attributes.").isPrefixOf field = false
  builtin : ∀ field, term.field = some field →
    field ∈ fields ∧ term.key = field ∧ term.resource = false
  attr : term.field = none → term.key ≠ [] ∧ ∀ u ∈ term.key, isKeyUnit u = true
  value : term.quoted = false → term.value ≠ []

variable {fields : List JsString} {term : LogSearchTerm}

theorem isKeyUnit_iff {u : UInt16} :
    isKeyUnit u = true ↔ isJsSpace u = false ∧ u ≠ jsChar ':' ∧ u ≠ jsChar '"' := by
  simp [isKeyUnit, and_assoc]

/-- The key is written with units a key may have. -/
theorem Serializable.logTermKey_unit (h : Serializable fields term) :
    ∀ u ∈ logTermKey term, isKeyUnit u = true := by
  unfold logTermKey
  cases hfield : term.field with
  | some field => exact h.fields_key field (h.builtin field hfield).1
  | none =>
      have hplain : ∀ u ∈ (if term.resource then js "resource" else js "attributes") ++ js ".",
          isKeyUnit u = true := by
        rw [← List.all_eq_true]
        cases term.resource <;> decide
      intro u hu
      rcases List.mem_append.mp hu with hu | hu
      · exact hplain u hu
      · exact (h.attr hfield).2 u hu

theorem lexToken_of_keyUnits {text : JsString} (h : ∀ u ∈ text, isKeyUnit u = true) :
    LexToken text := by
  refine lexToken_of_all fun u hu => ?_
  obtain ⟨hspace, -, hquote⟩ := isKeyUnit_iff.mp (h u hu)
  exact ⟨isSearchSpace_of_isJsSpace hspace, hquote⟩

theorem needsQuotes_eq_false {value : JsString} (h : needsQuotes value = false) :
    ∀ u ∈ value, isJsSpace u = false ∧ u ≠ jsChar '"' := by
  intro u hu
  have hnot := List.any_eq_false.mp h u hu
  simpa using hnot

theorem lexToken_serializeValue (term : LogSearchTerm) : LexToken (serializeValue term) := by
  unfold serializeValue
  split_ifs with hquoted hneeds
  · exact lexToken_quoteString _
  · have htilde : LexToken (js "~") :=
      lexToken_unit (by decide) (by decide)
    exact htilde.append (lexToken_quoteString _)
  · refine lexToken_of_all fun u hu => ?_
    obtain ⟨hspace, hquote⟩ := needsQuotes_eq_false (by simpa using hneeds) u hu
    exact ⟨isSearchSpace_of_isJsSpace hspace, hquote⟩

/-- What is written is one token. -/
theorem lexToken_serializeLogTerm (h : Serializable fields term) :
    LexToken (serializeLogTerm term) := by
  have hdash : LexToken (if term.negated then js "-" else []) := by
    split_ifs
    · exact lexToken_unit (by decide) (by decide)
    · exact LexToken.nil
  have hcolon : LexToken (js ":") := lexToken_unit (by decide) (by decide)
  exact ((hdash.append (lexToken_of_keyUnits h.logTermKey_unit)).append hcolon).append
    (lexToken_serializeValue term)

/-- `JSON.parse` of what `JSON.stringify` wrote. -/
theorem jsonParse_quoteString (s : JsString) : jsonParse (quoteString s) = some s :=
  stringItems_quoteString s

theorem quote_notMem_isPrefixOf
    {value : JsString} (h : ∀ u ∈ value, u ≠ jsChar '"') :
    (js "\"").isPrefixOf value = false ∧ (js "~\"").isPrefixOf value = false := by
  constructor
  · rw [Bool.eq_false_iff, ne_eq, List.isPrefixOf_iff_prefix]
    intro hstarts
    exact h _ (hstarts.subset (by decide : jsChar '"' ∈ js "\"")) rfl
  · rw [Bool.eq_false_iff, ne_eq, List.isPrefixOf_iff_prefix]
    intro hstarts
    exact h _ (hstarts.subset (by decide : jsChar '"' ∈ js "~\"")) rfl

/-- The value is read back, with its quoting. -/
theorem fieldTerm_serializeValue
    (hvalue : term.quoted = false → term.value ≠ []) (field : Option JsString)
    (resource negated : Bool) {key : JsString} (hkey : key ≠ []) :
    fieldTerm field resource key (serializeValue term) negated =
      .term { field, resource, key, value := term.value, quoted := term.quoted, negated } := by
  have hkey' : key.isEmpty = false := by simpa using hkey
  unfold fieldTerm serializeValue
  cases hquoted : term.quoted with
  | true =>
      have hopen : (js "\"").isPrefixOf (quoteString term.value) = true := rfl
      have hwild : (js "~\"").isPrefixOf (quoteString term.value) = false := rfl
      have hne : (quoteString term.value).isEmpty = false := rfl
      simp [hkey', hopen, hwild, hne, jsonParse_quoteString]
  | false =>
      simp only [Bool.false_eq_true, if_false]
      cases hneeds : needsQuotes term.value with
      | true =>
          have hopen : (js "\"").isPrefixOf (js "~" ++ quoteString term.value) = false := rfl
          have hwild : (js "~\"").isPrefixOf (js "~" ++ quoteString term.value) = true := rfl
          have hne : (js "~" ++ quoteString term.value).isEmpty = false := rfl
          have hslice : sliceFrom (js "~" ++ quoteString term.value) 1 =
              quoteString term.value := rfl
          simp [hkey', hopen, hwild, hne, hslice, jsonParse_quoteString]
      | false =>
          obtain ⟨hopen, hwild⟩ := quote_notMem_isPrefixOf fun u hu =>
            (needsQuotes_eq_false hneeds u hu).2
          have hne : term.value.isEmpty = false := by simpa using hvalue hquoted
          simp [hkey', hopen, hwild, hne]

/-- Where the key of a term ends, in what was written. -/
theorem serializeLogTerm_eq (term : LogSearchTerm) :
    serializeLogTerm term =
      ((if term.negated then js "-" else []) ++ logTermKey term) ++
        jsChar ':' :: serializeValue term := by
  rw [serializeLogTerm, List.append_assoc _ (js ":")]
  rfl

/-- The field of a token that starts with `key` and a colon. -/
theorem parseToken_key
    {key value : JsString} (negated : Bool) (hcolon : jsChar ':' ∉ key)
    (hstart : (js "-").isPrefixOf key = false) (hkey : key ≠ []) :
    parseToken fields (((if negated then js "-" else []) ++ key) ++ jsChar ':' :: value) =
      if !(js "resource.").isPrefixOf key && !(js "attributes.").isPrefixOf key && key ∉ fields
      then .text
      else
        fieldTerm (if key ∈ fields then some key else none) ((js "resource.").isPrefixOf key)
          (if key ∈ fields then key else sliceFrom key (indexOf key (jsChar '.') + 1)) value
          negated := by
  have hhead : jsChar ':' ∉ (if negated then js "-" else []) ++ key := by
    rw [List.mem_append, not_or]
    refine ⟨?_, hcolon⟩
    cases negated <;> decide
  have hdash : (js "-").isPrefixOf
      (((if negated then js "-" else []) ++ key) ++ jsChar ':' :: value) = negated := by
    cases negated with
    | true => rfl
    | false =>
        obtain ⟨u, rest, rfl⟩ := List.exists_cons_of_ne_nil hkey
        exact hstart
  have hslice : slice (((if negated then js "-" else []) ++ key) ++ jsChar ':' :: value)
      (if negated then 1 else 0) ((if negated then js "-" else []) ++ key).length = key := by
    cases negated with
    | true => exact slice_one _ _
    | false => exact slice_zero _ _
  have hnonneg : ¬ ((((if negated then js "-" else []) ++ key).length : Int) < 0) := by omega
  unfold parseToken
  simp only [indexOf_append hhead, hdash, hslice, sliceFrom_behind, hnonneg, decide_false,
    Bool.false_or]

def attributeNamespace (resource : Bool) : JsString :=
  if resource then js "resource" else js "attributes"

theorem logTermKey_attribute (hfield : term.field = none) :
    logTermKey term = attributeNamespace term.resource ++ jsChar '.' :: term.key := by
  rw [logTermKey, hfield]
  simp [attributeNamespace, js, jsChar, units]

/-- The key of an attribute, behind its namespace and a dot. -/
theorem attributeKey_parts (resource : Bool) (key : JsString) :
    (js "-").isPrefixOf (attributeNamespace resource ++ jsChar '.' :: key) = false ∧
      (js "resource.").isPrefixOf (attributeNamespace resource ++ jsChar '.' :: key) =
        resource ∧
      (resource = false →
        (js "attributes.").isPrefixOf (attributeNamespace resource ++ jsChar '.' :: key) =
          true) ∧
      sliceFrom (attributeNamespace resource ++ jsChar '.' :: key)
        (indexOf (attributeNamespace resource ++ jsChar '.' :: key) (jsChar '.') + 1) = key := by
  have hdot : jsChar '.' ∉ attributeNamespace resource := by
    cases resource <;> decide
  refine ⟨?_, ?_, ?_, ?_⟩
  · cases resource <;> rfl
  · cases resource <;> rfl
  · rintro rfl
    rfl
  · rw [indexOf_append hdot, sliceFrom_behind]

/-- An attribute is no field. -/
theorem attributeKey_notMem
    (h : ∀ field ∈ fields, (js "resource.").isPrefixOf field = false ∧
      (js "attributes.").isPrefixOf field = false) (resource : Bool) (key : JsString) :
    attributeNamespace resource ++ jsChar '.' :: key ∉ fields := by
  obtain ⟨-, hres, hnot, -⟩ := attributeKey_parts resource key
  intro hmem
  obtain ⟨hres', hattr'⟩ := h _ hmem
  rw [hres'] at hres
  rw [← hres] at hnot hattr'
  exact absurd hattr' (by simpa using hnot)

/-- A token that starts with the key of an attribute and a colon. -/
theorem parseToken_attribute
    (h : ∀ field ∈ fields, (js "resource.").isPrefixOf field = false ∧
      (js "attributes.").isPrefixOf field = false)
    (negated resource : Bool) {key : JsString} (hcolon : jsChar ':' ∉ key) (value : JsString) :
    parseToken fields (((if negated then js "-" else []) ++
        (attributeNamespace resource ++ jsChar '.' :: key)) ++ jsChar ':' :: value) =
      fieldTerm none resource key value negated := by
  obtain ⟨hdash, hres, hnot, hslice⟩ := attributeKey_parts resource key
  have hbuiltin := attributeKey_notMem h resource key
  have hnoColon : jsChar ':' ∉ attributeNamespace resource ++ jsChar '.' :: key := by
    rw [List.mem_append, List.mem_cons, not_or, not_or]
    refine ⟨?_, by decide, hcolon⟩
    cases resource <;> decide
  have hattribute : ¬ ((!(js "resource.").isPrefixOf
        (attributeNamespace resource ++ jsChar '.' :: key) &&
      !(js "attributes.").isPrefixOf
        (attributeNamespace resource ++ jsChar '.' :: key)) = true ∧
      attributeNamespace resource ++ jsChar '.' :: key ∉ fields) := by
    rw [hres]
    cases resource with
    | true => simp
    | false => simp [hnot rfl]
  rw [parseToken_key negated hnoColon hdash (by simp), if_neg (by simpa using hattribute),
    if_neg hbuiltin, if_neg hbuiltin, hslice, hres]

/-- What was written is parsed as the term. -/
theorem parseToken_serializeLogTerm (h : Serializable fields term) :
    parseToken fields (serializeLogTerm term) = .term term := by
  have hcolon : jsChar ':' ∉ logTermKey term := by
    intro hmem
    exact (isKeyUnit_iff.mp (h.logTermKey_unit _ hmem)).2.1 rfl
  rw [serializeLogTerm_eq]
  cases hfield : term.field with
  | some field =>
      obtain ⟨hmem, hkey, hresource⟩ := h.builtin field hfield
      obtain ⟨hne, hdash, hres, hattr⟩ := h.fields_start field hmem
      have hkeyText : logTermKey term = field := by rw [logTermKey, hfield]
      rw [hkeyText] at hcolon ⊢
      rw [parseToken_key term.negated hcolon hdash hne, if_neg (by simp [hmem]), if_pos hmem,
        if_pos hmem, hres, fieldTerm_serializeValue h.value _ _ _ hne]
      rw [← hfield, ← hkey, ← hresource]
  | none =>
      obtain ⟨hne, hunits⟩ := h.attr hfield
      have hkeyColon : jsChar ':' ∉ term.key := by
        intro hmem
        exact (isKeyUnit_iff.mp (hunits _ hmem)).2.1 rfl
      rw [logTermKey_attribute hfield,
        parseToken_attribute (fun field hmem => (h.fields_start field hmem).2.2) term.negated
          term.resource hkeyColon,
        fieldTerm_serializeValue h.value _ _ _ hne]
      rw [← hfield]

/-! ### Accepted drafts -/

theorem queryFields_key (signal : Signal) :
    ∀ field ∈ queryFields signal, ∀ u ∈ field, isKeyUnit u = true := by
  have hall : (queryFields signal).all (fun field => field.all isKeyUnit) = true := by
    cases signal <;> decide
  intro field hfield
  exact List.all_eq_true.mp (List.all_eq_true.mp hall field hfield)

theorem queryFields_start (signal : Signal) :
    ∀ field ∈ queryFields signal, field ≠ [] ∧ (js "-").isPrefixOf field = false ∧
      (js "resource.").isPrefixOf field = false ∧
      (js "attributes.").isPrefixOf field = false := by
  cases signal <;> decide

theorem sliceFrom_indexOf_of_notMem {s : JsString} {u : UInt16} (h : u ∉ s) :
    sliceFrom s (indexOf s u + 1) = s := by
  rw [indexOf_of_notMem h]
  simp [sliceFrom, slicePosition]

theorem queryFields_dot (signal : Signal) : ∀ field ∈ queryFields signal, jsChar '.' ∉ field := by
  cases signal <;> decide

/-- An attribute key is a key behind its namespace and a dot. -/
theorem isAttributeKey_parts {key : JsString} (h : isAttributeKey key = true) :
    ∃ resource rest, key = attributeNamespace resource ++ jsChar '.' :: rest ∧ rest ≠ [] ∧
      ∀ u ∈ rest, isKeyUnit u = true := by
  obtain ⟨start, hmem, hstart⟩ := List.any_eq_true.mp h
  simp only [Bool.and_eq_true, Bool.not_eq_true', List.all_eq_true] at hstart
  obtain ⟨⟨hbegins, hne⟩, hall⟩ := hstart
  obtain ⟨rest, rfl⟩ := List.isPrefixOf_iff_prefix.mp hbegins
  rw [List.drop_left] at hne hall
  have hrest : rest ≠ [] := by simpa using hne
  rcases List.mem_cons.mp hmem with rfl | hmem
  · exact ⟨false, rest, rfl, hrest, hall⟩
  · obtain rfl := List.mem_singleton.mp hmem
    exact ⟨true, rest, rfl, hrest, hall⟩

/-- The key behind the first dot of an attribute key. -/
theorem isAttributeKey_slice {key : JsString} (h : isAttributeKey key = true) :
    sliceFrom key (indexOf key (jsChar '.') + 1) ≠ [] ∧
      ∀ u ∈ sliceFrom key (indexOf key (jsChar '.') + 1), isKeyUnit u = true := by
  obtain ⟨resource, rest, rfl, hne, hall⟩ := isAttributeKey_parts h
  rw [(attributeKey_parts resource rest).2.2.2]
  exact ⟨hne, hall⟩

/-- A value is written where it is not quoted. -/
theorem draftTerm_value
    {lib : BrowserLibraries} {draft : LogFilterDraft} {numericFields : List JsString}
    (h : filterDraftError lib draft fields numericFields = none)
    (hquoted : (draftTerm draft fields).quoted = false) :
    (draftTerm draft fields).value ≠ [] := by
  have hstar : js "*" ≠ [] := by decide
  have hpattern : (draft.operator = .wildcard ∨ draft.operator = .notWildcard) →
      draft.value ≠ [] := by
    intro hoperator hvalue
    unfold filterDraftError at h
    dsimp only at h
    split_ifs at h with hkey hfield hnumber hempty
    rcases hoperator with hoperator | hoperator <;> simp [hoperator, hvalue] at hempty
  obtain ⟨key, operator, value⟩ := draft
  cases operator with
  | is => simp [draftTerm] at hquoted
  | isNot => simp [draftTerm] at hquoted
  | contains => simp [draftTerm, hstar]
  | notContains => simp [draftTerm, hstar]
  | wildcard => exact hpattern (Or.inl rfl)
  | notWildcard => exact hpattern (Or.inr rfl)
  | present => exact hstar
  | notPresent => exact hstar
  | compare op => cases op <;> simp [draftTerm, CompareOp.text, units_ne_nil]

/-- The term of a draft that is accepted is read back from what is written. -/
theorem draftTerm_serializable
    {lib : BrowserLibraries} {signal : Signal} {draft : LogFilterDraft}
    {numericFields : List JsString}
    (h : filterDraftError lib draft (queryFields signal) numericFields = none) :
    Serializable (queryFields signal) (draftTerm draft (queryFields signal)) where
  fields_key := queryFields_key signal
  fields_start := queryFields_start signal
  builtin := by
    intro field hfield
    have hkey : trimUnits draft.key ∈ queryFields signal := by
      by_contra hnot
      simp [draftTerm, hnot] at hfield
    have htrim : trimUnits draft.key = field := by simpa [draftTerm, hkey] using hfield
    rw [htrim] at hkey
    refine ⟨hkey, ?_, ?_⟩
    · simp only [draftTerm, htrim]
      exact sliceFrom_indexOf_of_notMem (queryFields_dot signal field hkey)
    · simp only [draftTerm, htrim]
      exact (queryFields_start signal field hkey).2.2.1
  attr := by
    intro hfield
    have hkey : trimUnits draft.key ∉ queryFields signal := by
      intro hmem
      simp [draftTerm, hmem] at hfield
    refine isAttributeKey_slice ?_
    by_contra hnot
    rw [Bool.not_eq_true] at hnot
    simp [filterDraftError, hkey, hnot] at h
  value := draftTerm_value h

end Frontend
end Otelop
