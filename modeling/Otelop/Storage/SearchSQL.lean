import Mathlib.Tactic
import Otelop.Lib.Sql
import Otelop.Lib.Wildcard
import Otelop.Storage.LogSearch
import Otelop.Storage.Rows

/-!
# The clauses of a search

`logSearchSQL`, `signalAttributeSQL` and `signalFieldSQL` of `internal/storage/log_search.go`
turn the parsed terms into SQL conditions.  A condition is given here by its value on a row.

The values are those of SQL: a column is a text or a number or null, and a condition has three
truth values (`Lib/Sql.lean`).  What DuckDB does with letters outside ASCII, with numbers and
with JSON texts is in `SearchLibraries`.  A pattern of `LIKE` is read into atoms, and the
escapes of the program are undone by that reading.

**Results.**
* `likeAtoms_likeValue`: the pattern of a term consists of its characters, its unquoted stars
  are wildcards, and nothing else is.
* `holds_ilike_likePattern`: free text is looked for as a substring.
* `jsonGet_pointerPath`: the path of a key leads to that key.
-/

namespace Otelop
namespace Storage

open Lib

/-- What the database and the Go library do with text and numbers.  `parseFloat`
has no value where the result is not finite, and `double` rounds to a `DOUBLE`. -/
structure SearchLibraries where
  fold : Char → Char
  parseFloat : GoString → Option ℚ
  double : ℚ → ℚ
  jsonNumberText : ℚ → GoString
  jsonText : Json → GoString
  eventsText : List SpanEventRow → GoString
  castDouble : GoString → Option ℚ
  doubleText : ℚ → GoString

/-! ### Numerals -/

/-- Where a reader of the numeral pattern stands. -/
inductive NumberState where
  | start
  | sign
  | int
  | leadingPoint
  | frac
  | exp
  | expSign
  | expDigits
deriving DecidableEq

def isDigitCode (n : Nat) : Bool := decide (0x30 ≤ n) && decide (n ≤ 0x39)

def isExpCode (n : Nat) : Bool := decide (n = 0x65) || decide (n = 0x45)

def isSignCode (n : Nat) : Bool := decide (n = 0x2B) || decide (n = 0x2D)

/-- `^-?(?:\d+\.?\d*|\.\d+)(?:[eE][+-]?\d+)?$`, one character at a time. -/
def numberStep : NumberState → Nat → Option NumberState
  | .start, n =>
      if n = 0x2D then some .sign
      else if isDigitCode n then some .int
      else if n = 0x2E then some .leadingPoint
      else none
  | .sign, n =>
      if isDigitCode n then some .int else if n = 0x2E then some .leadingPoint else none
  | .int, n =>
      if isDigitCode n then some .int
      else if n = 0x2E then some .frac
      else if isExpCode n then some .exp
      else none
  | .leadingPoint, n => if isDigitCode n then some .frac else none
  | .frac, n =>
      if isDigitCode n then some .frac else if isExpCode n then some .exp else none
  | .exp, n =>
      if isSignCode n then some .expSign else if isDigitCode n then some .expDigits else none
  | .expSign, n => if isDigitCode n then some .expDigits else none
  | .expDigits, n => if isDigitCode n then some .expDigits else none

def NumberState.accepts : NumberState → Bool
  | .int | .frac | .expDigits => true
  | _ => false

/-- The rest of a numeral; `code` is the value of a character. -/
def numberFrom {α : Type} (code : α → Nat) : NumberState → List α → Bool
  | st, [] => st.accepts
  | st, a :: rest =>
      match numberStep st (code a) with
      | none => false
      | some st' => numberFrom code st' rest

/-- `logNumberPattern.MatchString` -/
def isNumber (s : GoString) : Bool := numberFrom Char.toNat .start s

inductive CompareOp where
  | ge
  | le
  | gt
  | lt
deriving DecidableEq

def CompareOp.text : CompareOp → GoString
  | .ge => ['>', '=']
  | .le => ['<', '=']
  | .gt => ['>']
  | .lt => ['<']

def CompareOp.holds : CompareOp → ℚ → ℚ → Bool
  | .ge, x, y => decide (y ≤ x)
  | .le, x, y => decide (x ≤ y)
  | .gt, x, y => decide (y < x)
  | .lt, x, y => decide (x < y)

/-- The alternatives of `logComparisonPattern`, in order. -/
def CompareOp.alternatives : List CompareOp := [.ge, .le, .gt, .lt]

/-- `logComparisonPattern.FindStringSubmatch`: the operator and the numeral. -/
def comparisonMatch (value : GoString) : Option (CompareOp × GoString) :=
  CompareOp.alternatives.findSome? fun op =>
    if op.text.isPrefixOf value && isNumber (value.drop op.text.length) then
      some (op, value.drop op.text.length)
    else none

/-- The comparison a value asks for, if its number is finite. -/
def comparison (lib : SearchLibraries) (value : GoString) : Option (CompareOp × ℚ) :=
  (comparisonMatch value).bind fun m => (lib.parseFloat m.2).map fun v => (m.1, v)

/-! ### Text patterns -/

/-- `likeEscaper` -/
def likeEscape (s : GoString) : GoString :=
  s.flatMap fun c => if c = '\\' || c = '%' || c = '_' then ['\\', c] else [c]

def likePattern (search : GoString) : GoString :=
  ['%'] ++ likeEscape search ++ ['%']

/-- The pattern of a term: an unquoted star is a wildcard. -/
def likeValue (term : LogSearchTerm) : GoString :=
  let value := likeEscape term.value
  if term.quoted then value else value.map fun c => if c = '*' then '%' else c

/-- The elements of a `LIKE` pattern with `ESCAPE '\'`, which may not end in the
escape character. -/
def likeAtoms : GoString → Option (List (Atom Char))
  | [] => some []
  | ['\\'] => none
  | '\\' :: c :: rest => (likeAtoms rest).map (.lit c :: ·)
  | c :: rest =>
      (likeAtoms rest).map
        ((if c = '%' then .anyString else if c = '_' then .anyOne else .lit c) :: ·)

theorem likeAtoms_cons
    {c : Char} (hc : c ≠ '\\') (rest : GoString) :
    likeAtoms (c :: rest) =
      (likeAtoms rest).map
        ((if c = '%' then .anyString else if c = '_' then .anyOne else .lit c) :: ·) := by
  rw [likeAtoms]
  · intro h
    exact absurd h hc
  · intro _ _ h
    exact absurd h hc

/-- What the pattern of a term means. -/
def termAtoms (term : LogSearchTerm) : List (Atom Char) :=
  term.value.map fun c => if !term.quoted && c = '*' then .anyString else .lit c

theorem anyOne_notMem_termAtoms (term : LogSearchTerm) :
    Atom.anyOne ∉ termAtoms term := by
  intro hmem
  obtain ⟨c, -, hc⟩ := List.mem_map.mp hmem
  split at hc <;> cases hc

theorem likeAtoms_likeEscape_append (rest : GoString) :
    ∀ value : GoString,
      likeAtoms (likeEscape value ++ rest) =
        (likeAtoms rest).map (value.map Atom.lit ++ ·)
  | [] => by
      change likeAtoms rest = _
      cases likeAtoms rest <;> rfl
  | c :: value => by
      have ih := likeAtoms_likeEscape_append rest value
      have hmap : ((likeAtoms rest).map (value.map Atom.lit ++ ·)).map (.lit c :: ·) =
          (likeAtoms rest).map ((c :: value).map Atom.lit ++ ·) := by
        cases likeAtoms rest <;> rfl
      by_cases hspecial : (c = '\\' || c = '%' || c = '_') = true
      · rw [likeEscape, List.flatMap_cons, if_pos hspecial, List.cons_append,
          List.singleton_append, List.cons_append, List.cons_append, likeAtoms, ← likeEscape,
          ih, hmap]
      · have hparts : c ≠ '\\' ∧ c ≠ '%' ∧ c ≠ '_' := by simpa [and_assoc] using hspecial
        rw [likeEscape, List.flatMap_cons, if_neg hspecial, List.singleton_append,
          ← likeEscape, List.cons_append, likeAtoms_cons hparts.1, ih, if_neg hparts.2.1,
          if_neg hparts.2.2, hmap]

theorem likeAtoms_likeEscape (value : GoString) :
    likeAtoms (likeEscape value) = some (value.map .lit) := by
  have h := likeAtoms_likeEscape_append [] value
  rw [List.append_nil] at h
  rw [h, likeAtoms, Option.map_some, List.append_nil]

/-- Free text is looked for between two wildcards. -/
theorem likeAtoms_likePattern (search : GoString) :
    likeAtoms (likePattern search) =
      some (.anyString :: (search.map .lit ++ [.anyString])) := by
  rw [likePattern, List.append_assoc, List.singleton_append, likeAtoms_cons (by decide),
    likeAtoms_likeEscape_append]
  rfl

theorem likeAtoms_starEscape :
    ∀ value : GoString,
      likeAtoms ((likeEscape value).map fun c => if c = '*' then '%' else c) =
        some (value.map fun c => if c = '*' then .anyString else .lit c)
  | [] => rfl
  | c :: value => by
      have ih := likeAtoms_starEscape value
      by_cases hspecial : (c = '\\' || c = '%' || c = '_') = true
      · have hstar : c ≠ '*' := by
          rintro rfl
          exact absurd hspecial (by decide)
        rw [likeEscape, List.flatMap_cons, if_pos hspecial, ← likeEscape]
        simp only [List.cons_append, List.nil_append, List.map_cons, if_neg hstar,
          show ('\\' : Char) ≠ '*' by decide, if_false]
        rw [likeAtoms, ih]
        rfl
      · have hparts : c ≠ '\\' ∧ c ≠ '%' ∧ c ≠ '_' := by simpa [and_assoc] using hspecial
        rw [likeEscape, List.flatMap_cons, if_neg hspecial, ← likeEscape,
          List.singleton_append, List.map_cons, List.map_cons]
        by_cases hstar : c = '*'
        · rw [if_pos hstar, if_pos hstar, likeAtoms_cons (by decide), ih]
          rfl
        · rw [if_neg hstar, if_neg hstar, likeAtoms_cons hparts.1, ih, if_neg hparts.2.1,
            if_neg hparts.2.2]
          rfl

/-- The pattern of a term consists of its characters; its unquoted stars are
wildcards, and nothing else is. -/
theorem likeAtoms_likeValue (term : LogSearchTerm) :
    likeAtoms (likeValue term) = some (termAtoms term) := by
  rw [likeValue, termAtoms]
  cases term.quoted with
  | true => simp [likeAtoms_likeEscape]
  | false => simp [likeAtoms_starEscape]

/-- `text ILIKE pattern ESCAPE '\'`.  Both sides are folded, and no character
folds to a wildcard or to the escape character. -/
def ilike (lib : SearchLibraries) (text : Option GoString) (pattern : GoString) :
    Sql.Truth :=
  Sql.strict
    (fun s =>
      match likeAtoms pattern with
      | none => false
      | some atoms => matchAtoms (sameFold lib.fold) atoms s)
    text

theorem holds_ilike_likePattern (lib : SearchLibraries) (search text : GoString) :
    Sql.holds (ilike lib (some text) (likePattern search)) = true ↔
      search.map lib.fold <:+: text.map lib.fold := by
  rw [ilike, likeAtoms_likePattern]
  exact matchAtoms_substring

/-! ### JSON columns -/

/-- `strings.NewReplacer("~", "~0", "/", "~1")` -/
def pointerEscape (key : GoString) : GoString :=
  key.flatMap fun c => if c = '~' then ['~', '0'] else if c = '/' then ['~', '1'] else [c]

def pointerPath (key : GoString) : GoString := '/' :: pointerEscape key

/-- A reference token of a JSON pointer, unescaped. -/
def pointerUnescape : GoString → GoString
  | [] => []
  | '~' :: '0' :: rest => '~' :: pointerUnescape rest
  | '~' :: '1' :: rest => '/' :: pointerUnescape rest
  | c :: rest => c :: pointerUnescape rest

/-- What a JSON pointer with one reference token finds in an attribute map. -/
def jsonGet (column : Attributes) (path : GoString) : Option Json :=
  match path with
  | '/' :: token =>
      if '/' ∈ token then none else column.get? (String.ofList (pointerUnescape token))
  | _ => none

theorem pointerUnescape_cons
    {c : Char} (hc : c ≠ '~') (rest : GoString) :
    pointerUnescape (c :: rest) = c :: pointerUnescape rest := by
  rw [pointerUnescape]
  · intro _ h
    exact absurd h hc
  · intro _ h
    exact absurd h hc

theorem pointerUnescape_escape :
    ∀ key : GoString, pointerUnescape (pointerEscape key) = key
  | [] => rfl
  | c :: key => by
      have ih := pointerUnescape_escape key
      rw [pointerEscape, List.flatMap_cons, ← pointerEscape]
      by_cases htilde : c = '~'
      · rw [if_pos htilde, List.cons_append, List.singleton_append, pointerUnescape, ih, htilde]
      · by_cases hslash : c = '/'
        · rw [if_neg htilde, if_pos hslash, List.cons_append, List.singleton_append,
            pointerUnescape, ih, hslash]
        · rw [if_neg htilde, if_neg hslash, List.singleton_append,
            pointerUnescape_cons htilde, ih]

theorem slash_notMem_pointerEscape (key : GoString) : '/' ∉ pointerEscape key := by
  intro hmem
  obtain ⟨c, -, hc⟩ := List.mem_flatMap.mp hmem
  by_cases htilde : c = '~'
  · simp [htilde] at hc
  · by_cases hslash : c = '/'
    · simp [hslash] at hc
    · rw [if_neg htilde, if_neg hslash, List.mem_singleton] at hc
      exact hslash hc.symm

/-- The path of a key leads to that key, whatever characters it has. -/
theorem jsonGet_pointerPath (column : Attributes) (key : GoString) :
    jsonGet column (pointerPath key) = column.get? (String.ofList key) := by
  rw [pointerPath, jsonGet, if_neg (slash_notMem_pointerEscape key), pointerUnescape_escape]

/-- `json_type` -/
def jsonType : Json → String
  | .null => "NULL"
  | .bool _ => "BOOLEAN"
  | .num q => if q.den = 1 then (if 0 ≤ q then "UBIGINT" else "BIGINT") else "DOUBLE"
  | .str _ => "VARCHAR"
  | .arr _ => "ARRAY"
  | .obj _ => "OBJECT"

/-- `json_extract_string` -/
def jsonExtractString (lib : SearchLibraries) : Json → Option GoString
  | .null => none
  | .bool b => some (if b then "true".toList else "false".toList)
  | .num q => some (lib.jsonNumberText q)
  | .str s => some s.toList
  | j => some (lib.jsonText j)

def numberTypes : List String := ["BIGINT", "UBIGINT", "DOUBLE"]

def scalarTypes : List String := ["VARCHAR", "BOOLEAN", "BIGINT", "UBIGINT", "DOUBLE"]

/-- `json_type(...) IN (...)` -/
def jsonTypeIn (types : List String) (value : Option Json) : Sql.Truth :=
  Sql.strict (fun j => decide (jsonType j ∈ types)) value

/-! ### Fields -/

/-- A value of a column. -/
inductive SqlValue where
  | text (s : GoString)
  | integer (n : Int)
  | double (q : ℚ)
deriving DecidableEq

def SqlValue.number? : SqlValue → Option ℚ
  | .text _ => none
  | .integer n => some n
  | .double q => some q

/-- The decimal digits of an integer. -/
def decimal (n : Int) : GoString := (toString n).toList

/-- `CAST(... AS VARCHAR)` -/
def SqlValue.varchar (lib : SearchLibraries) : SqlValue → GoString
  | .text s => s
  | .integer n => decimal n
  | .double q => lib.doubleText q

/-- The number of zeros of the id that counts as absent, for a field with ids. -/
def idZeros (field : GoString) : Option Nat :=
  if field = "trace_id".toList then some 32
  else if field = "span_id".toList || field = "parent_span_id".toList then some 16
  else none

/-- The column of a field, in which the ids that count as absent are null. -/
def fieldColumn (fields : GoString → Option SqlValue) (field : GoString) :
    Option SqlValue :=
  match idZeros field with
  | none => fields field
  | some n =>
      Sql.nullIf (Sql.nullIf (fields field) (.text [])) (.text (List.replicate n '0'))

/-- The condition of a term on a built-in field.  `fields` maps a field to the
value of its column, `numeric` holds the fields that are numbers. -/
def signalFieldSQL (lib : SearchLibraries) (term : LogSearchTerm)
    (fields : GoString → Option SqlValue) (numeric : List GoString) : Sql.Truth :=
  let column := fieldColumn fields term.field
  if !term.quoted && term.value = ['*'] then Sql.isNotNull column
  else
    match if term.quoted then none else comparison lib term.value with
    | some (op, v) =>
        if term.field ∉ numeric then some false
        else Sql.strict (fun x => op.holds x v) (column.bind SqlValue.number?)
    | none =>
        let number :=
          if term.field ∈ numeric && isNumber term.value then lib.parseFloat term.value
          else none
        match number with
        | some v => Sql.strict (fun x => decide (x = v)) (column.bind SqlValue.number?)
        | none => ilike lib (column.map (SqlValue.varchar lib)) (likeValue term)

/-- The condition of a term on the value of an attribute. -/
def attributeCondition (lib : SearchLibraries) (term : LogSearchTerm)
    (value : Option Json) : Sql.Truth :=
  if !term.quoted && term.value = ['*'] then
    Sql.and (Sql.isNotNull (value.map jsonType))
      (Sql.strict (fun type => decide (type ≠ "NULL")) (value.map jsonType))
  else
    match if term.quoted then none else comparison lib term.value with
    | some (op, v) =>
        Sql.and (jsonTypeIn numberTypes value)
          (Sql.strict (fun x => op.holds x v)
            ((value.bind (jsonExtractString lib)).bind lib.castDouble))
    | none =>
        Sql.and (jsonTypeIn scalarTypes value)
          (ilike lib (value.bind (jsonExtractString lib)) (likeValue term))

/-- The condition of a term, on a built-in field or on an attribute. -/
def signalAttributeSQL (lib : SearchLibraries) (term : LogSearchTerm)
    (attributes resource : Attributes) (fields : GoString → Option SqlValue)
    (numeric : List GoString) : Sql.Truth :=
  if term.field ≠ [] then signalFieldSQL lib term fields numeric
  else
    let column := if term.resource then resource else attributes
    attributeCondition lib term (jsonGet column (pointerPath term.key))

/-- A negated clause also accepts where the clause is null. -/
def negatable (term : LogSearchTerm) (clause : Sql.Truth) : Sql.Truth :=
  if term.negated then Sql.not (Sql.coalesce clause false) else clause

/-! ### Logs -/

/-- The keys of `logFieldColumns`. -/
def logFields : List GoString :=
  ["trace_id".toList, "span_id".toList, "service_name".toList, "severity_text".toList,
    "severity_number".toList, "body".toList]

/-- `logFieldColumns`, on a row of the join. -/
def logFieldColumns (l : LogRow) (r : ResourceRow) (field : GoString) : Option SqlValue :=
  if field = "trace_id".toList then some (.text l.traceID.toList)
  else if field = "span_id".toList then some (.text l.spanID.toList)
  else if field = "service_name".toList then some (.text r.serviceName.toList)
  else if field = "severity_text".toList then some (.text l.severityText.toList)
  else if field = "severity_number".toList then some (.integer l.severityNumber)
  else if field = "body".toList then some (.text l.body.toList)
  else none

def logAttributeSQL (lib : SearchLibraries) (term : LogSearchTerm) (l : LogRow)
    (r : ResourceRow) : Sql.Truth :=
  signalAttributeSQL lib term l.attributes r.attributes (logFieldColumns l r)
    ["severity_number".toList]

/-- The clause `logSearchSQL` adds for a term. -/
def logTermClause (lib : SearchLibraries) (l : LogRow) (r : ResourceRow)
    (term : LogSearchTerm) : Sql.Truth :=
  negatable term (logAttributeSQL lib term l r)

/-- `searchPredicate` -/
def searchPredicate (lib : SearchLibraries) (l : LogRow) (r : ResourceRow)
    (pattern : GoString) : Sql.Truth :=
  Sql.any
    ([l.body.toList, r.serviceName.toList, l.severityText.toList, l.traceID.toList,
        lib.jsonText (.obj l.attributes.fields), lib.jsonText (.obj r.attributes.fields)].map
      fun text => ilike lib (some text) pattern)

def logSearchSQL (lib : SearchLibraries) (search : GoString) (l : LogRow)
    (r : ResourceRow) : Sql.Truth :=
  let (plain, terms) := parseSignalSearch search logFields
  Sql.all (searchPredicate lib l r (likePattern plain)) (terms.map (logTermClause lib l r))

end Storage
end Otelop
