import Mathlib.Tactic
import Otelop.Frontend.LogSearch
import Otelop.Lib.Wildcard
import Otelop.Storage.SearchSQL

/-!
# The matcher of a term in the browser

`createTermMatcher`, `logComparison` and `logTermValue` of `frontend/src/lib/log-search.ts`.
A value without wildcards and one with are both turned into a regular expression, whose source
is a string.

The engine that runs the expression is not modelled as a whole: `regexAtoms` parses the source
of the expressions that occur here (escaped units, and the text that stands for a star) into
the atoms of `Lib/Wildcard.lean`, and `regexTest` matches those, without case as the flag of
the expression says.  Lower-casing, numbers and their texts are the browser's and stand in
`BrowserLibraries`.

An unquoted value that begins with an operator and goes on as a number is a comparison
instead.

**Results.**
* `newRegExp_source`: the expression of a term consists of its units, its unquoted stars are
  wildcards, and nothing else is.
-/

namespace Otelop
namespace Frontend

open Lib Storage

/-- A JavaScript value. -/
inductive JsValue where
  | undefined
  | null
  | bool (b : Bool)
  | number (q : ℚ)
  | string (s : JsString)
  | object
deriving DecidableEq

/-- An object with string keys. -/
abbrev JsRecord := List (JsString × JsValue)

/-- What the JavaScript library does with text and numbers.  `number` has no value
where the result is not finite, and `double` rounds to a number. -/
structure BrowserLibraries where
  foldUnit : UInt16 → UInt16
  toLowerCase : JsString → JsString
  number : JsString → Option ℚ
  double : ℚ → ℚ
  numberText : ℚ → JsString
  stringify : JsRecord → JsString

/-! ### Regular expressions -/

/-- `[.*+?^${}()|[\]\\]` -/
def syntaxUnits : JsString := js ".*+?^$\x7b\x7d()|[]\\"

def escapeUnit (u : UInt16) : JsString :=
  if u ∈ syntaxUnits then [jsChar '\\', u] else [u]

/-- `part.replace(/[.*+?^${}()|[\]\\]/g, "\\$&")` -/
def escapeRegExp (part : JsString) : JsString := part.flatMap escapeUnit

/-- `s.split(u)` for a string `u` of one unit. -/
def split (u : UInt16) : JsString → List JsString
  | [] => [[]]
  | v :: s =>
      if v = u then [] :: split u s
      else
        match split u s with
        | [] => [[v]]
        | part :: parts => (v :: part) :: parts

/-- `[\s\S]*`, which any text matches. -/
def anyText : JsString := js "[\\s\\S]*"

/-- What surrounds the pattern in the source. -/
def regexStart : JsString := js "^(?:"

def regexEnd : JsString := js ")$(?![\\s\\S])"

def regexPattern (term : LogSearchTerm) : JsString :=
  let parts := if term.quoted then [term.value] else split (jsChar '*') term.value
  List.intercalate anyText (parts.map escapeRegExp)

/-- The source of the regular expression of a term. -/
def regexSource (term : LogSearchTerm) : JsString :=
  regexStart ++ regexPattern term ++ regexEnd

/-- The elements of a source behind `regexStart`: an escaped or a plain unit, or
`[\s\S]*`.  Other syntax is not read. -/
def regexAtoms (s : JsString) : Option (List (Atom UInt16)) :=
  if s = regexEnd then some []
  else if anyText.isPrefixOf s then
    (regexAtoms (s.drop anyText.length)).map (.anyString :: ·)
  else
    match s with
    | [] => none
    | u :: rest =>
        if u = jsChar '\\' then
          match rest with
          | [] => none
          | v :: rest =>
              if v ∈ syntaxUnits then (regexAtoms rest).map (.lit v :: ·) else none
        else if u ∈ syntaxUnits then none
        else (regexAtoms rest).map (.lit u :: ·)
termination_by s.length
decreasing_by
  · rename_i h
    have hle := (List.isPrefixOf_iff_prefix.mp h).length_le
    have hlen : anyText.length = 7 := by decide
    simp only [List.length_drop]
    omega
  · simp only [List.length_cons]
    omega
  · simp only [List.length_cons]
    omega

/-- `new RegExp(source, "i")`, for a source of this form. -/
def newRegExp (source : JsString) : Option (List (Atom UInt16)) :=
  if regexStart.isPrefixOf source then regexAtoms (source.drop regexStart.length) else none

/-- `regex.test(s)`: the whole of `s` matches. -/
def regexTest (lib : BrowserLibraries) (regex : Option (List (Atom UInt16)))
    (s : JsString) : Bool :=
  match regex with
  | none => false
  | some atoms => matchAtoms (sameFold lib.foldUnit) atoms s

theorem regexAtoms_end : regexAtoms regexEnd = some [] := by
  rw [regexAtoms.eq_def, if_pos rfl]

theorem regexAtoms_anyText (s : JsString) :
    regexAtoms (anyText ++ s) = (regexAtoms s).map (.anyString :: ·) := by
  have hend : anyText ++ s ≠ regexEnd := by
    intro h
    have hhead : some (jsChar '[') = regexEnd.head? := congrArg List.head? h
    exact absurd hhead (by decide)
  have hprefix : anyText.isPrefixOf (anyText ++ s) = true :=
    List.isPrefixOf_iff_prefix.mpr (List.prefix_append anyText s)
  rw [regexAtoms.eq_def, if_neg hend, if_pos hprefix, List.drop_left]

theorem regexAtoms_escapeUnit (u : UInt16) (s : JsString) :
    regexAtoms (escapeUnit u ++ s) = (regexAtoms s).map (.lit u :: ·) := by
  have hends : jsChar ')' ∈ syntaxUnits ∧ jsChar '[' ∈ syntaxUnits ∧
      jsChar '\\' ∈ syntaxUnits := by decide
  -- The first unit is neither `)` nor `[`.
  have hother :
      ∀ {v : UInt16} {t : JsString}, v ≠ jsChar ')' → v ≠ jsChar '[' →
        v :: t ≠ regexEnd ∧ ¬ anyText.isPrefixOf (v :: t) = true := by
    intro v t hclose hopen
    constructor
    · intro h
      exact hclose (Option.some.inj (congrArg List.head? h))
    · intro h
      obtain ⟨x, hx⟩ := List.isPrefixOf_iff_prefix.mp h
      exact hopen (Option.some.inj (congrArg List.head? hx)).symm
  by_cases hu : u ∈ syntaxUnits
  · have hslash := hother (t := u :: s) (v := jsChar '\\') (by decide) (by decide)
    rw [escapeUnit, if_pos hu, List.cons_append, List.singleton_append,
      regexAtoms.eq_def, if_neg hslash.1, if_neg hslash.2]
    simp [hu]
  · have hplain := hother (t := s) (v := u) (by rintro rfl; exact hu hends.1)
      (by rintro rfl; exact hu hends.2.1)
    have hslash : u ≠ jsChar '\\' := by
      rintro rfl
      exact hu hends.2.2
    rw [escapeUnit, if_neg hu, List.singleton_append, regexAtoms.eq_def,
      if_neg hplain.1, if_neg hplain.2]
    simp [hu, hslash]

/-- The elements of the pattern of a term. -/
def unitAtoms (term : LogSearchTerm) : List (Atom UInt16) :=
  term.value.map fun u => if !term.quoted && u = jsChar '*' then .anyString else .lit u

theorem split_ne_nil (u : UInt16) : ∀ s : JsString, split u s ≠ []
  | [] => List.cons_ne_nil _ _
  | v :: s => by
      rw [split]
      split
      · exact List.cons_ne_nil _ _
      · split <;> exact List.cons_ne_nil _ _

theorem intercalate_split (u : UInt16) :
    ∀ s : JsString,
      List.intercalate anyText ((split u s).map escapeRegExp) =
        s.flatMap fun v => if v = u then anyText else escapeUnit v
  | [] => rfl
  | v :: s => by
      have ih := intercalate_split u s
      rw [List.flatMap_cons, ← ih]
      obtain ⟨part, parts, hsplit⟩ := List.exists_cons_of_ne_nil (split_ne_nil u s)
      by_cases hv : v = u
      · rw [split, if_pos hv, if_pos hv, List.map_cons, hsplit, List.map_cons,
          List.intercalate_cons_cons]
        rfl
      · rw [split, if_neg hv, if_neg hv, hsplit]
        cases parts with
        | nil => simp [escapeRegExp]
        | cons part' parts =>
            rw [List.map_cons, List.map_cons, List.map_cons, List.map_cons,
              List.intercalate_cons_cons, List.intercalate_cons_cons]
            simp [escapeRegExp]

theorem regexAtoms_flatMap (star : UInt16 → Bool) :
    ∀ value : JsString,
      regexAtoms ((value.flatMap fun u => if star u then anyText else escapeUnit u) ++ regexEnd) =
        some (value.map fun u => if star u then .anyString else .lit u)
  | [] => regexAtoms_end
  | u :: value => by
      have ih := regexAtoms_flatMap star value
      rw [List.flatMap_cons, List.append_assoc]
      by_cases hstar : star u = true
      · rw [if_pos hstar, regexAtoms_anyText, ih, List.map_cons, if_pos hstar]
        rfl
      · rw [if_neg hstar, regexAtoms_escapeUnit, ih, List.map_cons, if_neg hstar]
        rfl

theorem regexPattern_eq (term : LogSearchTerm) :
    regexPattern term =
      term.value.flatMap fun u =>
        if !term.quoted && u = jsChar '*' then anyText else escapeUnit u := by
  rw [regexPattern]
  cases term.quoted with
  | true => simp [escapeRegExp]
  | false => simp [intercalate_split]

/-- The expression of a term consists of its units; its unquoted stars are
wildcards, and nothing else is. -/
theorem newRegExp_source (term : LogSearchTerm) :
    newRegExp (regexSource term) = some (unitAtoms term) := by
  have hprefix : regexStart.isPrefixOf (regexSource term) = true := by
    rw [regexSource, List.append_assoc]
    exact List.isPrefixOf_iff_prefix.mpr (List.prefix_append _ _)
  rw [newRegExp, if_pos hprefix, regexSource, List.append_assoc, List.drop_left,
    regexPattern_eq, regexAtoms_flatMap fun u => !term.quoted && u = jsChar '*']
  rfl

/-! ### Numbers -/

/-- `logNumberPattern.test` -/
def isNumber (s : JsString) : Bool := numberFrom UInt16.toNat .start s

/-- The units that `.` does not match. -/
def lineTerminators : List UInt16 := [0x000A, 0x000D, 0x2028, 0x2029]

/-- One alternative of `/^(>=|<=|>|<)(.+)$/`. -/
def execAlternative (value : JsString) (op : CompareOp) : Option (CompareOp × JsString) :=
  let rest := value.drop (utf16 op.text).length
  if (utf16 op.text).isPrefixOf value && !rest.isEmpty &&
      rest.all fun u => u ∉ lineTerminators then
    some (op, rest)
  else none

/-- `/^(>=|<=|>|<)(.+)$/.exec(value)`: the operator and what follows it. -/
def comparisonExec (value : JsString) : Option (CompareOp × JsString) :=
  CompareOp.alternatives.findSome? (execAlternative value)

def logComparison (lib : BrowserLibraries) (term : LogSearchTerm) : Option (CompareOp × ℚ) :=
  if term.quoted then none
  else
    match comparisonExec term.value with
    | none => none
    | some (operator, rest) =>
        if isNumber rest then (lib.number rest).map fun value => (operator, value) else none

/-! ### Matching a value -/

/-- `String(value)` of a string, a number or a boolean. -/
def scalarText (lib : BrowserLibraries) : JsValue → Option JsString
  | .string s => some s
  | .number q => some (lib.numberText q)
  | .bool b => some (if b then js "true" else js "false")
  | _ => none

/-- The comparison with a number; no other value passes it. -/
def compareValue (op : CompareOp) (v : ℚ) : JsValue → Bool
  | .number q => op.holds q v
  | _ => false

/-- `matches`, the inner function of `createTermMatcher`. -/
def termMatches (lib : BrowserLibraries) (term : LogSearchTerm) (numericField : Bool)
    (value : JsValue) : Bool :=
  if value = .undefined || value = .null then false
  else
    match logComparison lib term with
    | some (op, v) => compareValue op v value
    | none =>
        if !term.quoted && term.value = js "*" then true
        else
          let number :=
            if numericField && isNumber term.value then lib.number term.value else none
          match number with
          | some v => decide (value = .number v)
          | none =>
              match scalarText lib value with
              | none => false
              | some s => regexTest lib (newRegExp (regexSource term)) s

def createTermMatcher (lib : BrowserLibraries) (term : LogSearchTerm) (numericField : Bool)
    (value : JsValue) : Bool :=
  if term.negated then !termMatches lib term numericField value
  else termMatches lib term numericField value

/-! ### The values of a log -/

/-- `Object.hasOwn(attrs, key) ? attrs[key] : undefined` -/
def ownValue (attrs : JsRecord) (key : JsString) : JsValue :=
  match attrs.find? fun f => f.1 = key with
  | none => .undefined
  | some f => f.2

/-- The fields of `LogData` that a term reads. -/
structure LogData where
  traceId : JsString
  spanId : JsString
  serviceName : JsString
  severityText : JsString
  severityNumber : ℚ
  body : JsString
  attributes : JsRecord
  resource : JsRecord

/-- `log[logFields[field]]`, for a field of `logFields`. -/
def LogData.field (log : LogData) (field : JsString) : Option JsValue :=
  if field = js "trace_id" then some (.string log.traceId)
  else if field = js "span_id" then some (.string log.spanId)
  else if field = js "service_name" then some (.string log.serviceName)
  else if field = js "severity_text" then some (.string log.severityText)
  else if field = js "severity_number" then some (.number log.severityNumber)
  else if field = js "body" then some (.string log.body)
  else none

/-- `!value || /^0+$/.test(String(value))`, for an id. -/
def isZeroId : JsValue → Bool
  | .string s => s.isEmpty || s.all fun u => u = jsChar '0'
  | _ => true

def logTermValue (log : LogData) (term : LogSearchTerm) : JsValue :=
  match term.field.bind log.field with
  | some value =>
      if (term.field = some (js "trace_id") || term.field = some (js "span_id")) &&
          isZeroId value then
        .undefined
      else value
  | none => ownValue (if term.resource then log.resource else log.attributes) term.key

/-- The part of `createLogSearchMatcher` that the terms decide. -/
def logTermsMatch (lib : BrowserLibraries) (terms : List LogSearchTerm) (log : LogData) :
    Bool :=
  terms.all fun term =>
    createTermMatcher lib term (decide (term.field = some (js "severity_number")))
      (logTermValue log term)

end Frontend
end Otelop
