import Mathlib.Tactic
import Mathlib.Data.List.Destutter
import Mathlib.Data.List.Lex
import Otelop.Storage.MetricsList
import Otelop.Storage.TraceSearch

/-!
# Suggestions for the filters

`FilterSuggestions` of `internal/storage/filter_suggestions.go` offers the keys and the
values of the rows of a window.  It builds its columns apart from the conditions of
`internal/storage/log_search.go`, and has a window of its own for each signal.

**Results.**
* `Db.hasAttribute_of_mem_suggestedKeys`: a key of an attribute is offered when a row of
  the window carries it.
* `Db.exists_row_of_suggestedValues`: a value is offered when a row of the window has it.
* `ScopedRow.holds_of_suggests`: that row meets the condition of the search for the value.
-/

namespace Otelop
namespace Storage

open Lib

variable {V : Type}

/-! ### The rows of a window -/

/-- A row of `scoped`, with its built-in fields once it is joined with its resource. -/
structure ScopedRow where
  attributes : Attributes
  resourceHash : UInt64
  columns : ResourceRow → GoString → Option SqlValue

/-- What depends on the signal. -/
structure SuggestionScope where
  fields : List GoString
  rows : List ScopedRow

def Db.scopedLogs (db : Db V) (fromTs toTs : Time) : List ScopedRow :=
  (db.logs.filter fun l => logInWindow fromTs toTs l.row).map fun l =>
    ⟨l.row.attributes, l.row.resourceHash, logFieldColumns l.row⟩

/-- The spans of the traces that start in the window. -/
def Db.scopedSpans (db : Db V) (lib : SearchLibraries) (fromTs toTs : Time) :
    List ScopedRow :=
  db.spans.flatMap fun s =>
    (db.traceSummaries.rows.filter fun t =>
        decide (t.traceID = s.traceID) && decide (fromTs ≤ t.startTime) &&
          decide (t.startTime < toTs)).map fun _ =>
      ⟨s.attributes, s.resourceHash, traceFieldColumns lib s⟩

/-- The series whose lifetime meets the window. -/
def Db.scopedSeries (db : Db V) (fromTs toTs : Time) : List ScopedRow :=
  (db.metricSeries.rows.filter fun s =>
      decide (fromTs ≤ s.lastSeen) && decide (s.firstSeen < toTs)).map fun s =>
    ⟨s.row.attributes, s.row.resourceHash, fun _ => metricFieldColumns s.row⟩

def Db.suggestionScope (db : Db V) (lib : SearchLibraries) (signal : String)
    (fromTs toTs : Time) : Except String SuggestionScope :=
  if signal = "logs" then .ok ⟨logFields, db.scopedLogs fromTs toTs⟩
  else if signal = "traces" then .ok ⟨traceFields, db.scopedSpans lib fromTs toTs⟩
  else if signal = "metrics" then .ok ⟨metricFields, db.scopedSeries fromTs toTs⟩
  else .error ("unsupported filter signal: " ++ signal)

/-- `scoped JOIN resources r USING (resource_hash)` -/
def Db.joinResources (db : Db V) (rows : List ScopedRow) :
    List (ScopedRow × ResourceRow) :=
  rows.filterMap fun s => (db.resources.find? s.resourceHash).map fun r => (s, r)

/-- The rows of `scoped_resources`. -/
def Db.scopedResources (db : Db V) (rows : List ScopedRow) : List ResourceRow :=
  db.resources.rows.filter fun r => rows.any fun s => s.resourceHash = r.resourceHash

/-! ### Suggestions -/

/-- The values that are not null and contain the input, in order. -/
def narrowed (lib : SearchLibraries) (input : GoString) (limit : Nat)
    (values : List (Option GoString)) : List GoString :=
  Sql.selectDistinct limit
    (values.filterMap fun value =>
      if Sql.holds (Sql.and (Sql.isNotNull value) (ilike lib value (likePattern input))) then
        value
      else none)

/-- `json_keys` -/
def jsonKeys (column : Attributes) : List GoString :=
  column.fields.map fun field => field.1.toList

/-- The keys of the attributes of the window. -/
def Db.storedKeys (db : Db V) (rows : List ScopedRow) : List GoString :=
  ((rows.map fun s => jsonKeys s.attributes).dedup.flatMap fun keys =>
      keys.map (attributesPrefix ++ ·)) ++
    ((db.scopedResources rows).map fun r => jsonKeys r.attributes).dedup.flatMap fun keys =>
      keys.map (resourcePrefix ++ ·)

/-- `toLower` is `strings.ToLower`. -/
def Db.suggestedKeys (db : Db V) (lib : SearchLibraries) (toLower : GoString → GoString)
    (scope : SuggestionScope) (input : GoString) : List GoString :=
  let items := narrowed lib input 1000 ((db.storedKeys scope.rows).map some) ++
    scope.fields.filter fun field => decide (toLower input <:+: toLower field)
  ((items.insertionSort (· ≤ ·)).destutter (· ≠ ·)).take 1000

/-- The column of a built-in field, in which ids that count as absent are null. -/
def suggestedColumn (fields : GoString → Option SqlValue) (key : GoString) :
    Option SqlValue :=
  if "_id".toList.isSuffixOf key then
    let zeros := List.replicate (if key = "trace_id".toList then 32 else 16) '0'
    Sql.nullIf (Sql.nullIf (fields key) (.text [])) (.text zeros)
  else fields key

/-- `CASE WHEN json_type(...) IN (...) THEN json_extract_string(...) END` -/
def suggestedAttribute (lib : SearchLibraries) (column : Attributes) (path : GoString) :
    Option GoString :=
  if Sql.holds
      (jsonTypeIn ["VARCHAR", "BOOLEAN", "BIGINT", "UBIGINT", "DOUBLE"] (jsonGet column path))
  then (jsonGet column path).bind (jsonExtractString lib)
  else none

/-- The column `value`, for a key that is not empty. -/
def Db.suggestedValues (db : Db V) (lib : SearchLibraries) (scope : SuggestionScope)
    (key : GoString) : Except String (List (Option GoString)) :=
  if key ∈ scope.fields then
    .ok ((db.joinResources scope.rows).map fun row =>
      (suggestedColumn (row.1.columns row.2) key).map (SqlValue.varchar lib))
  else
    let (space, attr, ok) := cut key '.'
    if !ok || attr.isEmpty ||
        (space ≠ "attributes".toList && space ≠ "resource".toList) then
      .error ("unsupported filter key: " ++ String.ofList key)
    else if space = "resource".toList then
      .ok ((db.scopedResources scope.rows).map fun r =>
        suggestedAttribute lib r.attributes (pointerPath attr))
    else
      .ok ((db.joinResources scope.rows).map fun row =>
        suggestedAttribute lib row.1.attributes (pointerPath attr))

def Db.filterSuggestions (db : Db V) (lib : SearchLibraries) (toLower : GoString → GoString)
    (signal : String) (key input : GoString) (fromTs toTs : Time) :
    Except String (List GoString) := do
  let scope ← db.suggestionScope lib signal fromTs toTs
  if key.isEmpty then
    pure (db.suggestedKeys lib toLower scope input)
  else
    let values ← db.suggestedValues lib scope key
    pure (narrowed lib input 20 values)

theorem Db.suggestionScope_logs
    (db : Db V) (lib : SearchLibraries) (fromTs toTs : Time) :
    db.suggestionScope lib "logs" fromTs toTs = .ok ⟨logFields, db.scopedLogs fromTs toTs⟩ :=
  if_pos rfl

theorem Db.suggestionScope_traces
    (db : Db V) (lib : SearchLibraries) (fromTs toTs : Time) :
    db.suggestionScope lib "traces" fromTs toTs =
      .ok ⟨traceFields, db.scopedSpans lib fromTs toTs⟩ := by
  rw [Db.suggestionScope, if_neg (by decide), if_pos rfl]

theorem Db.suggestionScope_metrics
    (db : Db V) (lib : SearchLibraries) (fromTs toTs : Time) :
    db.suggestionScope lib "metrics" fromTs toTs =
      .ok ⟨metricFields, db.scopedSeries fromTs toTs⟩ := by
  rw [Db.suggestionScope, if_neg (by decide), if_neg (by decide), if_pos rfl]

section Request

variable {db : Db V} {lib : SearchLibraries} {toLower : GoString → GoString}
variable {signal : String} {fromTs toTs : Time} {scope : SuggestionScope}

theorem Db.filterSuggestions_of_nil
    (hscope : db.suggestionScope lib signal fromTs toTs = .ok scope) (input : GoString) :
    db.filterSuggestions lib toLower signal [] input fromTs toTs =
      .ok (db.suggestedKeys lib toLower scope input) := by
  rw [Db.filterSuggestions, hscope]
  rfl

theorem Db.filterSuggestions_of_ne_nil
    (hscope : db.suggestionScope lib signal fromTs toTs = .ok scope) {key : GoString}
    (hkey : key ≠ []) {values : List (Option GoString)}
    (hvalues : db.suggestedValues lib scope key = .ok values) (input : GoString) :
    db.filterSuggestions lib toLower signal key input fromTs toTs =
      .ok (narrowed lib input 20 values) := by
  rw [Db.filterSuggestions, hscope]
  change (if key.isEmpty then _ else _) = _
  rw [if_neg (by simpa using hkey), hvalues]
  rfl

end Request

/-! ### Keys -/

theorem mem_narrowed
    {lib : SearchLibraries} {input value : GoString} {limit : Nat}
    {values : List (Option GoString)}
    (h : value ∈ narrowed lib input limit values) :
    some value ∈ values ∧ input.map lib.fold <:+: value.map lib.fold := by
  obtain ⟨stored, hstored, hkept⟩ := List.mem_filterMap.mp (Sql.mem_of_mem_selectDistinct h)
  split at hkept
  · rename_i hholds
    rw [hkept] at hholds hstored
    rw [Sql.holds_and, Bool.and_eq_true] at hholds
    exact ⟨hstored, (holds_ilike_likePattern lib input value).mp hholds.2⟩
  · cases hkept

/-- The text is a key of the object. -/
theorem get?_isSome_of_mem_jsonKeys
    {column : Attributes} {key : GoString} (h : key ∈ jsonKeys column) :
    (column.get? (String.ofList key)).isSome = true := by
  obtain ⟨field, hfield, rfl⟩ := List.mem_map.mp h
  rw [String.ofList_toList, Attributes.get?, Option.isSome_map, List.find?_isSome]
  exact ⟨field, hfield, by simp⟩

/-- A resource of `scoped_resources` is joined with a row of the window. -/
theorem Db.exists_row_of_mem_scopedResources
    {db : Db V} {rows : List ScopedRow} {r : ResourceRow}
    (h : r ∈ db.scopedResources rows) :
    ∃ row ∈ rows, db.resources.find? row.resourceHash = some r := by
  obtain ⟨hr, hany⟩ := List.mem_filter.mp h
  obtain ⟨row, hrow, hhash⟩ := List.any_eq_true.mp hany
  exact ⟨row, hrow, db.resources.find?_eq_some_iff.mpr ⟨hr, (of_decide_eq_true hhash).symm⟩⟩

theorem Db.mem_joinResources
    {db : Db V} {rows : List ScopedRow} {row : ScopedRow} {r : ResourceRow}
    (h : (row, r) ∈ db.joinResources rows) :
    row ∈ rows ∧ db.resources.find? row.resourceHash = some r := by
  obtain ⟨s, hs, hjoined⟩ := List.mem_filterMap.mp h
  obtain ⟨r', hr', heq⟩ := Option.map_eq_some_iff.mp hjoined
  obtain ⟨rfl, rfl⟩ := Prod.mk.inj heq
  exact ⟨hs, hr'⟩

/-- A row with the attributes and the resource has the attribute, there or here. -/
def Db.hasAttribute (db : Db V) (attributes : Attributes) (resourceHash : UInt64)
    (resource : Bool) (key : GoString) : Prop :=
  if resource then
    ∃ r, db.resources.find? resourceHash = some r ∧
      (r.attributes.get? (String.ofList key)).isSome = true
  else (attributes.get? (String.ofList key)).isSome = true

def attributePrefix (resource : Bool) : GoString :=
  if resource then resourcePrefix else attributesPrefix

theorem attributePrefix_append_inj
    {resource resource' : Bool} {key key' : GoString}
    (h : attributePrefix resource ++ key = attributePrefix resource' ++ key') :
    resource = resource' ∧ key = key' := by
  cases resource <;> cases resource'
  · exact ⟨rfl, List.append_cancel_left h⟩
  · exact absurd (List.cons.inj h).1 (by decide)
  · exact absurd (List.cons.inj h).1 (by decide)
  · exact ⟨rfl, List.append_cancel_left h⟩

theorem Db.hasAttribute_of_mem_storedKeys
    {db : Db V} {rows : List ScopedRow} {resource : Bool} {key : GoString}
    (h : attributePrefix resource ++ key ∈ db.storedKeys rows) :
    ∃ row ∈ rows, db.hasAttribute row.attributes row.resourceHash resource key := by
  unfold Db.storedKeys at h
  rcases List.mem_append.mp h with h | h
  · obtain ⟨keys, hkeys, hkey⟩ := List.mem_flatMap.mp h
    obtain ⟨row, hrow, rfl⟩ := List.mem_map.mp (List.mem_dedup.mp hkeys)
    obtain ⟨stored, hstored, heq⟩ := List.mem_map.mp hkey
    obtain ⟨rfl, rfl⟩ := @attributePrefix_append_inj false resource stored key heq
    exact ⟨row, hrow, get?_isSome_of_mem_jsonKeys hstored⟩
  · obtain ⟨keys, hkeys, hkey⟩ := List.mem_flatMap.mp h
    obtain ⟨r, hr, rfl⟩ := List.mem_map.mp (List.mem_dedup.mp hkeys)
    obtain ⟨stored, hstored, heq⟩ := List.mem_map.mp hkey
    obtain ⟨rfl, rfl⟩ := @attributePrefix_append_inj true resource stored key heq
    obtain ⟨row, hrow, hfind⟩ := Db.exists_row_of_mem_scopedResources hr
    exact ⟨row, hrow, r, hfind, get?_isSome_of_mem_jsonKeys hstored⟩

/-- No built-in field is written like an attribute, none is empty, and the fields with
ids are those whose names end in `_id`. -/
structure BuiltinField (key : GoString) : Prop where
  dot : '.' ∉ key
  nonempty : key ≠ []
  zeros : idZeros key =
    if "_id".toList.isSuffixOf key then some (if key = "trace_id".toList then 32 else 16)
    else none

theorem builtinField_of_mem
    {key : GoString} (h : key ∈ logFields ++ traceFields ++ metricFields) :
    BuiltinField key := by
  have hall : ∀ key ∈ logFields ++ traceFields ++ metricFields,
      '.' ∉ key ∧ key ≠ [] ∧ idZeros key =
        if "_id".toList.isSuffixOf key then some (if key = "trace_id".toList then 32 else 16)
        else none := by
    decide
  exact ⟨(hall key h).1, (hall key h).2.1, (hall key h).2.2⟩

/-- A key of an attribute is offered when a row of the window carries it. -/
theorem Db.hasAttribute_of_mem_suggestedKeys
    {db : Db V} {lib : SearchLibraries} {toLower : GoString → GoString}
    {scope : SuggestionScope} (hfields : ∀ key ∈ scope.fields, BuiltinField key)
    {input : GoString} {resource : Bool} {key : GoString}
    (h : attributePrefix resource ++ key ∈ db.suggestedKeys lib toLower scope input) :
    ∃ row ∈ scope.rows, db.hasAttribute row.attributes row.resourceHash resource key := by
  have hsorted := (List.destutter_sublist _ _).subset (List.mem_of_mem_take h)
  rw [List.mem_insertionSort, List.mem_append] at hsorted
  rcases hsorted with hstored | hfield
  · obtain ⟨x, hx, heq⟩ := List.mem_map.mp (mem_narrowed hstored).1
    cases heq
    exact Db.hasAttribute_of_mem_storedKeys hx
  · -- A built-in field has no dot.
    have hdot := (hfields _ (List.mem_of_mem_filter hfield)).dot
    refine absurd (List.mem_append_left key ?_) hdot
    cases resource <;> decide

/-! ### Values -/

/-- The namespace of an attribute, in front of the dot. -/
def attributeSpace (resource : Bool) : GoString :=
  if resource then "resource".toList else "attributes".toList

/-- The row, joined with its resource, has the value under the key. -/
def ScopedRow.suggests (row : ScopedRow) (lib : SearchLibraries) (r : ResourceRow)
    (fields : List GoString) (key value : GoString) : Prop :=
  if key ∈ fields then
    (suggestedColumn (row.columns r) key).map (SqlValue.varchar lib) = some value
  else
    ∃ resource attr, cut key '.' = (attributeSpace resource, attr, true) ∧
      suggestedAttribute lib (if resource then r.attributes else row.attributes)
        (pointerPath attr) = some value

theorem Db.exists_row_of_suggestedValues
    {db : Db V} {lib : SearchLibraries} {scope : SuggestionScope} {key value : GoString}
    {values : List (Option GoString)}
    (h : db.suggestedValues lib scope key = .ok values) (hvalue : some value ∈ values) :
    ∃ row ∈ scope.rows, ∃ r, db.resources.find? row.resourceHash = some r ∧
      row.suggests lib r scope.fields key value := by
  unfold Db.suggestedValues at h
  by_cases hbuiltin : key ∈ scope.fields
  · rw [if_pos hbuiltin] at h
    cases h
    obtain ⟨⟨row, r⟩, hjoined, heq⟩ := List.mem_map.mp hvalue
    obtain ⟨hrow, hfind⟩ := Db.mem_joinResources hjoined
    exact ⟨row, hrow, r, hfind, by rw [ScopedRow.suggests, if_pos hbuiltin, heq]⟩
  · rw [if_neg hbuiltin] at h
    rcases hcut : cut key '.' with ⟨space, attr, ok⟩
    simp only [hcut] at h
    split_ifs at h with hbad hresource
    · -- The attributes of the resources.
      cases h
      simp only [Bool.or_eq_true, not_or, Bool.not_eq_true', Bool.not_eq_false] at hbad
      obtain ⟨r, hr, heq⟩ := List.mem_map.mp hvalue
      obtain ⟨row, hrow, hfind⟩ := Db.exists_row_of_mem_scopedResources hr
      refine ⟨row, hrow, r, hfind, ?_⟩
      rw [ScopedRow.suggests, if_neg hbuiltin]
      exact ⟨true, attr, by rw [hcut, hresource, hbad.1.1]; rfl, heq⟩
    · -- Those of the rows.
      cases h
      simp only [Bool.or_eq_true, not_or, Bool.not_eq_true', Bool.not_eq_false] at hbad
      have hspace : space = "attributes".toList := by
        by_contra hne
        exact hbad.2 (Bool.and_eq_true_iff.mpr ⟨decide_eq_true hne, decide_eq_true hresource⟩)
      obtain ⟨⟨row, r⟩, hjoined, heq⟩ := List.mem_map.mp hvalue
      obtain ⟨hrow, hfind⟩ := Db.mem_joinResources hjoined
      refine ⟨row, hrow, r, hfind, ?_⟩
      rw [ScopedRow.suggests, if_neg hbuiltin]
      exact ⟨false, attr, by rw [hcut, hspace, hbad.1.1]; rfl, heq⟩

theorem cut_attributeSpace (resource : Bool) (key : GoString) :
    cut (attributeSpace resource ++ '.' :: key) '.' = (attributeSpace resource, key, true) := by
  refine cut_append_cons ?_ key
  cases resource <;> decide

/-- A built-in field and an attribute are keys the server knows. -/
theorem Db.exists_suggestedValues
    (db : Db V) (lib : SearchLibraries) {fields : List GoString} (rows : List ScopedRow)
    {key : GoString}
    (h : key ∈ fields ∨
      ∃ resource attr, attr ≠ [] ∧ key = attributeSpace resource ++ '.' :: attr) :
    ∃ values, db.suggestedValues lib ⟨fields, rows⟩ key = .ok values := by
  rw [Db.suggestedValues]
  by_cases hbuiltin : key ∈ fields
  · exact ⟨_, if_pos hbuiltin⟩
  · obtain ⟨resource, attr, hne, rfl⟩ := h.resolve_left hbuiltin
    have hattr : attr.isEmpty = false := by simpa using hne
    rw [if_neg hbuiltin, cut_attributeSpace]
    dsimp only
    rw [hattr]
    cases resource with
    | true => exact ⟨_, rfl⟩
    | false => exact ⟨_, rfl⟩

/-! ### The search for a value -/

/-- The database prints numbers that are read back. -/
structure SearchLibraries.ReadsBack (lib : SearchLibraries) : Prop where
  double : ∀ q, lib.parseFloat (lib.doubleText (lib.double q)) = some (lib.double q)
  integer : ∀ n : Int, n.natAbs < 2 ^ 53 → lib.parseFloat (decimal n) = some (n : ℚ)

/-- The term of the filter `is` with the key and the value. -/
structure LogSearchTerm.IsFilter (term : LogSearchTerm) (fields : List GoString)
    (key value : GoString) : Prop where
  builtin : key ∈ fields → term.field = key
  attr : key ∉ fields →
    term.field = [] ∧ key = attributeSpace term.resource ++ '.' :: term.key
  value : term.value = value
  quoted : term.quoted = true
  negated : term.negated = false

variable {lib : SearchLibraries} {term : LogSearchTerm}

theorem attributeSpace_injective : Function.Injective attributeSpace := by
  decide

/-- A quoted value matches itself. -/
theorem holds_ilike_likeValue (hquoted : term.quoted = true) :
    Sql.holds (ilike lib (some term.value) (likeValue term)) = true := by
  have hatoms : termAtoms term = term.value.map .lit := by simp [termAtoms, hquoted]
  rw [ilike, likeAtoms_likeValue, hatoms]
  exact matchAtoms_lits.mpr rfl

/-- Free text that is empty is found everywhere. -/
theorem holds_ilike_nil (text : GoString) :
    Sql.holds (ilike lib (some text) (likePattern [])) = true :=
  (holds_ilike_likePattern lib [] text).mpr List.nil_infix

theorem suggestedColumn_eq
    {key : GoString} (hkey : BuiltinField key) (fields : GoString → Option SqlValue) :
    suggestedColumn fields key = fieldColumn fields key := by
  rw [suggestedColumn, fieldColumn, hkey.zeros]
  split_ifs <;> rfl

/-- A column meets the condition for what it prints. -/
theorem holds_signalFieldSQL_varchar
    {fields : GoString → Option SqlValue} {numeric : List GoString} {x : SqlValue}
    (hx : fieldColumn fields term.field = some x) (hquoted : term.quoted = true)
    (hvalue : term.value = x.varchar lib)
    (hnumber : term.field ∈ numeric →
      ∃ q, x.number? = some q ∧ lib.parseFloat (x.varchar lib) = some q) :
    Sql.holds (signalFieldSQL lib term fields numeric) = true := by
  have hlike : Sql.holds (ilike lib (some (x.varchar lib)) (likeValue term)) = true := by
    rw [← hvalue]
    exact holds_ilike_likeValue hquoted
  rw [signalFieldSQL, hx]
  simp only [hquoted, Bool.not_true, Bool.false_and, Bool.false_eq_true, if_false, if_true]
  by_cases hnumeric : (term.field ∈ numeric && Storage.isNumber term.value : Bool) = true
  · obtain ⟨hmem, -⟩ := Bool.and_eq_true_iff.mp hnumeric
    obtain ⟨q, hq, hparse⟩ := hnumber (of_decide_eq_true hmem)
    rw [if_pos hnumeric, hvalue, hparse]
    simp [Sql.strict, hq]
  · rw [if_neg hnumeric]
    exact hlike

theorem holds_attributeCondition_of_suggested
    {column : Attributes} (hquoted : term.quoted = true)
    (h : suggestedAttribute lib column (pointerPath term.key) = some term.value) :
    Sql.holds (attributeCondition lib term (jsonGet column (pointerPath term.key))) = true := by
  have hlike : Sql.holds (ilike lib (some term.value) (likeValue term)) = true :=
    holds_ilike_likeValue hquoted
  unfold suggestedAttribute at h
  split_ifs at h with htype
  rw [attributeCondition, h]
  simp only [hquoted, Bool.not_true, Bool.false_and, Bool.false_eq_true, if_false, if_true]
  rw [Sql.holds_and, hlike, Bool.and_true]
  exact htype

/-- The row that has a value meets the condition of the filter on it. -/
theorem ScopedRow.holds_of_suggests
    {row : ScopedRow} {r : ResourceRow} {fields numeric : List GoString}
    {key value : GoString} (hfields : ∀ key ∈ fields, BuiltinField key)
    (hterm : term.IsFilter fields key value) (h : row.suggests lib r fields key value)
    (hnumbers : ∀ field ∈ numeric, ∃ x q, fieldColumn (row.columns r) field = some x ∧
      x.number? = some q ∧ lib.parseFloat (x.varchar lib) = some q) :
    Sql.holds (signalAttributeSQL lib term row.attributes r.attributes (row.columns r)
      numeric) = true := by
  unfold ScopedRow.suggests at h
  by_cases hbuiltin : key ∈ fields
  · have hfield := hterm.builtin hbuiltin
    rw [if_pos hbuiltin, suggestedColumn_eq (hfields key hbuiltin), ← hfield] at h
    obtain ⟨x, hx, hvalue⟩ := Option.map_eq_some_iff.mp h
    have hne : term.field ≠ [] := hfield.symm ▸ (hfields key hbuiltin).nonempty
    rw [signalAttributeSQL, if_pos hne]
    refine holds_signalFieldSQL_varchar hx hterm.quoted (hterm.value.trans hvalue.symm) ?_
    intro hnumeric
    obtain ⟨x', q, hx', hq, hparse⟩ := hnumbers _ hnumeric
    rw [hx] at hx'
    cases hx'
    exact ⟨q, hq, hparse⟩
  · obtain ⟨hfield, hkey⟩ := hterm.attr hbuiltin
    rw [if_neg hbuiltin, hkey, cut_attributeSpace] at h
    obtain ⟨resource, attr, hcut, hsuggested⟩ := h
    obtain ⟨hspace, hattr⟩ := Prod.mk.inj hcut
    obtain rfl := attributeSpace_injective hspace
    obtain rfl := (Prod.mk.inj hattr).1
    rw [signalAttributeSQL, if_neg (not_not.mpr hfield)]
    rw [← hterm.value] at hsuggested
    exact holds_attributeCondition_of_suggested hterm.quoted hsuggested

/-! ### Logs -/

/-- The condition of the log queries on one row of the join. -/
def logRowMatches (lib : SearchLibraries) (search : String) (l : StoredLog)
    (r : ResourceRow) : Bool :=
  Sql.holds (logSearchSQL lib search.toList l.row r)

/-- `severity_number` is an `INTEGER`. -/
def Db.SeverityInRange (db : Db V) : Prop :=
  ∀ l ∈ db.logs, -2 ^ 31 ≤ l.row.severityNumber ∧ l.row.severityNumber < 2 ^ 31

theorem natAbs_lt_of_range {n : Int} (h : -2 ^ 31 ≤ n ∧ n < 2 ^ 31) :
    n.natAbs < 2 ^ 53 := by
  omega

theorem Db.exists_log_of_mem
    {db : Db V} {fromTs toTs : Time} {row : ScopedRow} (h : row ∈ db.scopedLogs fromTs toTs) :
    ∃ l ∈ db.logs, logInWindow fromTs toTs l.row = true ∧
      row = ⟨l.row.attributes, l.row.resourceHash, logFieldColumns l.row⟩ := by
  obtain ⟨l, hl, rfl⟩ := List.mem_map.mp h
  obtain ⟨hl, hwindow⟩ := List.mem_filter.mp hl
  exact ⟨l, hl, hwindow, rfl⟩

theorem logRowMatches_of_term
    {search : String} (hparse : parseSignalSearch search.toList logFields = ([], [term]))
    (hnegated : term.negated = false) {l : StoredLog} {r : ResourceRow}
    (h : Sql.holds (logAttributeSQL lib term l.row r) = true) :
    logRowMatches lib search l r = true := by
  have hpredicate : Sql.holds (searchPredicate lib l.row r (likePattern [])) = true := by
    rw [searchPredicate, Sql.holds_any, List.any_eq_true]
    exact ⟨_, List.mem_cons_self, holds_ilike_nil _⟩
  have hclause : Sql.holds (logTermClause lib l.row r term) = true := by
    rw [logTermClause, negatable, if_neg (by simp [hnegated])]
    exact h
  rw [logRowMatches, logSearchSQL, hparse]
  change Sql.holds (Sql.all _ [logTermClause lib l.row r term]) = true
  rw [Sql.holds_all, hpredicate, List.all_cons, hclause]
  rfl

/-- The log that has the value is found by the filter on it. -/
theorem Db.matchingLogs_of_suggests
    {db : Db V} (hlib : lib.ReadsBack) (hseverity : db.SeverityInRange)
    {fromTs toTs : Time} {search : String} {key value : GoString}
    (hparse : parseSignalSearch search.toList logFields = ([], [term]))
    (hterm : term.IsFilter logFields key value) {row : ScopedRow} {r : ResourceRow}
    (hrow : row ∈ db.scopedLogs fromTs toTs)
    (hfind : db.resources.find? row.resourceHash = some r)
    (h : row.suggests lib r logFields key value) :
    db.matchingLogs (logRowMatches lib) (logInWindow fromTs toTs) search ≠ [] := by
  obtain ⟨l, hl, hwindow, rfl⟩ := Db.exists_log_of_mem hrow
  have hnumbers : ∀ field ∈ ["severity_number".toList], ∃ x q,
      fieldColumn (logFieldColumns l.row r) field = some x ∧ x.number? = some q ∧
        lib.parseFloat (x.varchar lib) = some q := by
    intro field hfield
    rw [List.mem_singleton.mp hfield]
    exact ⟨.integer l.row.severityNumber, l.row.severityNumber, rfl, rfl,
      hlib.integer _ (natAbs_lt_of_range (hseverity l hl))⟩
  have hfields : ∀ field ∈ logFields, BuiltinField field := fun field hfield =>
    builtinField_of_mem (List.mem_append_left _ (List.mem_append_left _ hfield))
  have hholds := ScopedRow.holds_of_suggests hfields hterm h hnumbers
  have hmatches := logRowMatches_of_term hparse hterm.negated hholds
  have hmem : l.detail r ∈ db.matchingLogs (logRowMatches lib) (logInWindow fromTs toTs) search := by
    rw [Db.matchingLogs, List.mem_filterMap]
    exact ⟨l, hl, by rw [hfind, Option.bind_some, if_pos (by rw [hwindow, hmatches]; rfl)]⟩
  exact List.ne_nil_of_mem hmem

/-! ### Traces -/

theorem Db.exists_span_of_mem
    {db : Db V} {fromTs toTs : Time} {row : ScopedRow}
    (h : row ∈ db.scopedSpans lib fromTs toTs) :
    ∃ s ∈ db.spans, ∃ t ∈ db.traceSummaries.rows, t.traceID = s.traceID ∧
      fromTs ≤ t.startTime ∧ t.startTime < toTs ∧
      row = ⟨s.attributes, s.resourceHash, traceFieldColumns lib s⟩ := by
  obtain ⟨s, hs, h⟩ := List.mem_flatMap.mp h
  obtain ⟨t, ht, rfl⟩ := List.mem_map.mp h
  obtain ⟨ht, hjoined⟩ := List.mem_filter.mp ht
  simp only [Bool.and_eq_true, decide_eq_true_eq] at hjoined
  exact ⟨s, hs, t, ht, hjoined.1.1, hjoined.1.2, hjoined.2, rfl⟩

theorem traceSpanMatches_of_term
    {search : String} (hparse : parseSignalSearch search.toList traceFields = ([], [term]))
    {s : StoredSpan} {r : ResourceRow}
    (h : Sql.holds (traceTermClause lib s r term) = true) :
    traceSpanMatches lib search s r = true := by
  rw [traceSpanMatches, traceSearchSQL, hparse]
  change Sql.holds (Sql.all (some true) [traceTermClause lib s r term]) = true
  rw [Sql.holds_all, Sql.holds_some, List.all_cons, h]
  rfl

/-- The trace of the span that has the value is found by the filter on it. -/
theorem Db.matchingTraces_of_suggests
    {db : Db V} (hlib : lib.ReadsBack)
    {fromTs toTs : Time} {search : String} {key value : GoString}
    (hparse : parseSignalSearch search.toList traceFields = ([], [term]))
    (hterm : term.IsFilter traceFields key value) {row : ScopedRow} {r : ResourceRow}
    (hrow : row ∈ db.scopedSpans lib fromTs toTs)
    (hfind : db.resources.find? row.resourceHash = some r)
    (h : row.suggests lib r traceFields key value) :
    db.matchingTraces (traceSpanMatches lib) fromTs toTs search ≠ [] := by
  obtain ⟨s, hs, t, ht, hid, hfrom, hto, rfl⟩ := Db.exists_span_of_mem hrow
  have hfields : ∀ field ∈ traceFields, BuiltinField field := fun field hfield =>
    builtinField_of_mem (List.mem_append_left _ (List.mem_append_right _ hfield))
  have hnumbers : ∀ field ∈ ["duration_ms".toList], ∃ x q,
      fieldColumn (traceFieldColumns lib s r) field = some x ∧ x.number? = some q ∧
        lib.parseFloat (x.varchar lib) = some q := by
    intro field hfield
    rw [List.mem_singleton.mp hfield]
    exact ⟨.double (durationMs lib s), durationMs lib s, rfl, rfl, hlib.double _⟩
  have hholds := ScopedRow.holds_of_suggests hfields hterm h hnumbers
  have hclause : Sql.holds (traceTermClause lib s r term) = true := by
    rw [traceTermClause, negatable, if_neg (by simp [hterm.negated])]
    exact hholds
  have hmatches := traceSpanMatches_of_term hparse hclause
  have hany : db.traceMatches (traceSpanMatches lib) search t.traceID = true := by
    rw [Db.traceMatches, Bool.or_eq_true, List.any_eq_true]
    refine Or.inr ⟨s, hs, ?_⟩
    rw [decide_eq_true hid.symm, hfind, Option.any_some, hmatches]
    rfl
  have hmem : t ∈ db.matchingTraces (traceSpanMatches lib) fromTs toTs search := by
    rw [Db.matchingTraces, List.mem_filter, decide_eq_true hfrom, decide_eq_true hto, hany]
    exact ⟨ht, rfl⟩
  exact List.ne_nil_of_mem hmem

/-! ### Metrics -/

theorem Db.exists_series_of_mem
    {db : Db V} {fromTs toTs : Time} {row : ScopedRow}
    (h : row ∈ db.scopedSeries fromTs toTs) :
    ∃ s ∈ db.metricSeries.rows, fromTs ≤ s.lastSeen ∧ s.firstSeen < toTs ∧
      row = ⟨s.row.attributes, s.row.resourceHash, fun _ => metricFieldColumns s.row⟩ := by
  obtain ⟨s, hs, rfl⟩ := List.mem_map.mp h
  obtain ⟨hs, hlifetime⟩ := List.mem_filter.mp hs
  simp only [Bool.and_eq_true, decide_eq_true_eq] at hlifetime
  exact ⟨s, hs, hlifetime.1, hlifetime.2, rfl⟩

theorem metricSeriesMatches_of_term
    {search : String} (hparse : parseSignalSearch search.toList metricFields = ([], [term]))
    {s : StoredSeries} {r : ResourceRow}
    (h : Sql.holds (metricTermClause lib s.row r term) = true) :
    metricSeriesMatches lib search s r = true := by
  rw [metricSeriesMatches, metricSearchSQL, hparse]
  change Sql.holds (Sql.all _ [metricTermClause lib s.row r term]) = true
  rw [Sql.holds_all, holds_ilike_nil, List.all_cons, h]
  rfl

/-- The group of the series that has the value is found by the filter on it. -/
theorem Db.matchingGroups_of_suggests
    {db : Db V} {fromTs toTs : Time} {search : String} {key value : GoString}
    (hparse : parseSignalSearch search.toList metricFields = ([], [term]))
    (hterm : term.IsFilter metricFields key value) {row : ScopedRow} {r : ResourceRow}
    (hrow : row ∈ db.scopedSeries fromTs toTs)
    (hfind : db.resources.find? row.resourceHash = some r)
    (h : row.suggests lib r metricFields key value) :
    (matchingGroups (db.filteredSeries (metricSeriesMatches lib) fromTs toTs search) :
      List (MetricSummary V)) ≠ [] := by
  obtain ⟨s, hs, hlast, hfirst, rfl⟩ := Db.exists_series_of_mem hrow
  have hfields : ∀ field ∈ metricFields, BuiltinField field := fun field hfield =>
    builtinField_of_mem (List.mem_append_right _ hfield)
  have hnumbers : ∀ field ∈ ([] : List GoString), ∃ x q,
      fieldColumn (metricFieldColumns s.row) field = some x ∧ x.number? = some q ∧
        lib.parseFloat (x.varchar lib) = some q :=
    fun field hfield => absurd hfield List.not_mem_nil
  have hholds := ScopedRow.holds_of_suggests hfields hterm h hnumbers
  have hclause : Sql.holds (metricTermClause lib s.row r term) = true := by
    rw [metricTermClause, negatable, if_neg (by simp [hterm.negated])]
    exact hholds
  have hmatches := metricSeriesMatches_of_term hparse hclause
  have hmem : (⟨s, r, true⟩ : FilteredSeries) ∈
      db.filteredSeries (metricSeriesMatches lib) fromTs toTs search :=
    mem_filteredSeries_iff.mpr ⟨hs, hfind, hfirst, hlast, hmatches.symm⟩
  obtain ⟨m, hm, -, -⟩ := (mem_matchingGroups_iff (V := V)).mpr ⟨_, hmem, rfl, rfl⟩
  exact List.ne_nil_of_mem hm

end Storage
end Otelop
