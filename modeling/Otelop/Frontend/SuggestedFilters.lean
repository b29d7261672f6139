import Mathlib.Tactic
import Otelop.Frontend.QueryComposition
import Otelop.Lib.Float64
import Otelop.Lib.JsonNumber
import Otelop.Lib.WellFormed
import Otelop.Storage.FilterSuggestions

/-!
# Filters on suggested values

The editor of `frontend/src/components/filters/signal-filter-bar.tsx` asks for the values of the
trimmed key of its draft.  A value that is chosen goes through `draftTerm` and
`serializeLogTerm`, and is read by the parser of the server.

So a suggestion crosses the whole program: the query of the server that collects values, the
text that is sent, the draft, the token, the parser, and the condition that selects records.
Each stage has a module of its own, and this one puts them together.  What the libraries write
of a number has to be read back (`ReadsBack`), since a suggestion is a text and the stored value
need not be one.

**Results.**
* `parse_isSearch`: the server parses the filter as the key and the value it was made of.
* `suggestions_match`: every suggested value is found, and every suggested attribute is carried.
-/

namespace Otelop
namespace Frontend

open Lib Storage

/-! ### The request -/

/-- The name of a signal in the requests. -/
def Signal.text : Signal → String
  | .logs => "logs"
  | .traces => "traces"
  | .metrics => "metrics"

/-- The keys of the field table of the server. -/
def Signal.fields : Signal → List GoString
  | .logs => logFields
  | .traces => Storage.traceFields
  | .metrics => Storage.metricFields

/-- The `key` of the request for values. -/
def requestedKey (key : JsString) : GoString := textChars (trimUnits key)

/-- The draft of the filter `is`. -/
def isDraft (key : JsString) (value : GoString) : LogFilterDraft where
  key
  operator := .is
  value := utf16 value

/-- The filter `is`, as the server receives it. -/
def isSearch (signal : Signal) (key : JsString) (value : GoString) : String :=
  String.ofList
    (textChars (serializeLogTerm (draftTerm (isDraft key value) (queryFields signal))))

theorem queryFields_eq (signal : Signal) : queryFields signal = signal.fields.map utf16 := by
  cases signal <;> rfl

/-! ### Sending the filter -/

/-- The term whose key is sent without lone surrogates. -/
def sentTerm (term : LogSearchTerm) : LogSearchTerm :=
  { term with key := toWellFormed term.key }

theorem queryFields_wellFormed (signal : Signal) :
    ∀ field ∈ queryFields signal, WellFormed field := by
  rw [queryFields_eq]
  intro field hfield
  obtain ⟨text, -, rfl⟩ := List.mem_map.mp hfield
  exact wellFormed_utf16 text

theorem wellFormed_attributeNamespace (resource : Bool) :
    WellFormed (attributeNamespace resource) := by
  cases resource <;> decide

theorem toWellFormed_attribute (resource : Bool) (key : JsString) :
    toWellFormed (attributeNamespace resource ++ jsChar '.' :: key) =
      attributeNamespace resource ++ jsChar '.' :: toWellFormed key := by
  rw [toWellFormed_append (wellFormed_attributeNamespace resource),
    toWellFormed_cons (by decide)]

theorem Serializable.sentTerm
    {signal : Signal} {term : LogSearchTerm} (h : Serializable (queryFields signal) term) :
    Serializable (queryFields signal) (sentTerm term) where
  fields_key := h.fields_key
  fields_start := h.fields_start
  builtin := by
    intro field hfield
    obtain ⟨hmem, hkey, hresource⟩ := h.builtin field hfield
    refine ⟨hmem, ?_, hresource⟩
    rw [Frontend.sentTerm, hkey]
    exact queryFields_wellFormed signal field hmem
  attr := by
    intro hfield
    obtain ⟨hne, hunits⟩ := h.attr hfield
    constructor
    · intro hnil
      have hlength := length_toWellFormed term.key
      rw [show toWellFormed term.key = [] from hnil] at hlength
      exact hne (List.length_eq_zero_iff.mp hlength.symm)
    · intro u hu
      rcases mem_toWellFormed hu with hu | rfl
      · exact hunits u hu
      · decide
  value := h.value

/-- What is sent is the filter with its key as it is sent. -/
theorem toWellFormed_serializeLogTerm
    {signal : Signal} {term : LogSearchTerm} (h : Serializable (queryFields signal) term)
    (hquoted : term.quoted = true) (hnegated : term.negated = false) :
    toWellFormed (serializeLogTerm term) = serializeLogTerm (sentTerm term) := by
  have hkey : toWellFormed (logTermKey term) = logTermKey (sentTerm term) := by
    cases hfield : term.field with
    | some field =>
        have hsent : (sentTerm term).field = some field := hfield
        rw [logTermKey, logTermKey, hfield, hsent]
        exact queryFields_wellFormed signal field (h.builtin field hfield).1
    | none =>
        have hsent : (sentTerm term).field = none := hfield
        rw [logTermKey_attribute hfield, logTermKey_attribute hsent, toWellFormed_attribute]
        rfl
  have hvalue : serializeValue term = quoteString term.value := by
    rw [serializeValue, if_pos hquoted]
  have hsentValue : serializeValue (sentTerm term) = quoteString term.value := by
    rw [serializeValue, if_pos (show (sentTerm term).quoted = true from hquoted)]
    rfl
  have hdash : (if (sentTerm term).negated then js "-" else []) = [] := by
    rw [show (sentTerm term).negated = false from hnegated]
    rfl
  rw [serializeLogTerm_eq, serializeLogTerm_eq, hdash, hnegated, if_neg Bool.false_ne_true,
    List.nil_append, List.nil_append, toWellFormed_append_cons (by decide), hkey, hvalue,
    hsentValue, (wellFormed_quoteString _).eq]

/-! ### The server's reading -/

theorem signalField_value
    {fields : List GoString} {token : GoString} {f : SignalField}
    (h : signalField fields token = some f) :
    f.value = (cut token ':').2.1 := by
  rw [signalField] at h
  generalize cut token ':' = parts at h ⊢
  obtain ⟨head, value, ok⟩ := parts
  simp only at h
  generalize (if ['-'].isPrefixOf head then head.drop 1 else head) = field at h
  split at h
  · cases h
  · cases h
    rfl

/-- A value that is a literal of a well-formed text escapes no lone surrogate. -/
theorem loneFree_of_quoteString
    {f : SignalField} {value : JsString} (hvalue : utf16 f.value = quoteString value)
    (hwell : WellFormed value) : f.loneFree = true := by
  have hopen : ['"'].isPrefixOf f.value = true := by
    rw [← show (js "\"").isPrefixOf (utf16 f.value) = ['"'].isPrefixOf f.value from
      js_isPrefixOf _ _, hvalue]
    rfl
  have hwild : wildcardQuote.isPrefixOf f.value = false := by
    rw [← show (js "~\"").isPrefixOf (utf16 f.value) = wildcardQuote.isPrefixOf f.value from
      js_isPrefixOf _ _, hvalue]
    rfl
  have hliteral : f.literal = some f.value := by
    rw [SignalField.literal, if_neg (Bool.eq_false_iff.mp hwild), if_pos hopen]
  rw [SignalField.loneFree, hliteral, Option.bind_some]
  cases hitems : stringItems Char.toNat f.value with
  | none => rfl
  | some items =>
      have hread := stringItems_quoteString value
      rw [← hvalue, stringItems_utf16, hitems] at hread
      refine noLoneSurrogate_of_wellFormed items ?_
      rw [show unitsValue (items.flatMap StringItem.units) = value from Option.some.inj hread]
      exact hwell

/-- The search is one token. -/
theorem storage_searchTokens_of_utf16
    {search : GoString} {text : JsString} (hsearch : utf16 search = text)
    (htokens : searchTokens text = some [text]) :
    Storage.searchTokens search = some [search] := by
  rw [← hsearch, searchTokens_utf16] at htokens
  obtain ⟨tokens, htokens', hmap⟩ := Option.map_eq_some_iff.mp htokens
  rw [htokens', List.map_injective_iff.mpr utf16_injective (hmap.trans List.map_singleton.symm)]

/-- Behind the first occurrence of a unit there is one text. -/
theorem behind_inj
    {x y x' y' : JsString} {u : UInt16} (hx : u ∉ x) (hx' : u ∉ x')
    (h : x ++ u :: y = x' ++ u :: y') : y = y' := by
  have hbehind : ∀ {z w : JsString}, u ∉ z →
      sliceFrom (z ++ u :: w) (indexOf (z ++ u :: w) u + 1) = w := by
    intro z w hz
    rw [indexOf_append hz, sliceFrom_behind]
  calc y = sliceFrom (x ++ u :: y) (indexOf (x ++ u :: y) u + 1) := (hbehind hx).symm
    _ = sliceFrom (x' ++ u :: y') (indexOf (x' ++ u :: y') u + 1) := by rw [h]
    _ = y' := hbehind hx'

theorem loneSurrogateFree_of_serialized
    {signal : Signal} {term : LogSearchTerm} (h : Serializable (queryFields signal) term)
    (hquoted : term.quoted = true) (hwell : WellFormed term.value) {search : GoString}
    (hsearch : utf16 search = serializeLogTerm term) :
    loneSurrogateFree search signal.fields = true := by
  have htokens := storage_searchTokens_of_utf16 hsearch (searchTokens_serializeLogTerm h)
  have hhead : jsChar ':' ∉ (if term.negated then js "-" else []) ++ logTermKey term := by
    rw [List.mem_append, not_or]
    refine ⟨?_, fun hmem => (isKeyUnit_iff.mp (h.logTermKey_unit _ hmem)).2.1 rfl⟩
    split_ifs <;> decide
  have htext : utf16 search = ((if term.negated then js "-" else []) ++ logTermKey term) ++
      jsChar ':' :: quoteString term.value := by
    rw [hsearch, serializeLogTerm_eq, serializeValue, if_pos hquoted]
  have hvalue : utf16 (cut search ':').2.1 = quoteString term.value := by
    rcases cut_cases ':' search with ⟨hnot, -⟩ | ⟨before, after, rfl, hbefore, hcut⟩
    · refine absurd ((jsChar_mem_utf16 (by decide) search).mp ?_) hnot
      rw [htext]
      exact List.mem_append_right _ List.mem_cons_self
    · rw [utf16_append, utf16_cons, units_ascii (by decide), List.singleton_append] at htext
      have hnot := mt (jsChar_mem_utf16 (by decide) before).mp hbefore
      rw [hcut]
      exact behind_inj hnot hhead htext
  rw [loneSurrogateFree, htokens]
  dsimp only
  rw [List.all_cons, List.all_nil, Bool.and_true]
  cases hfield : signalField signal.fields search with
  | none => rfl
  | some f => exact loneFree_of_quoteString (by rw [signalField_value hfield, hvalue]) hwell

/-! ### The parsed filter -/

variable {fields : List JsString}

theorem trimUnits_of_accepted
    {lib : BrowserLibraries} {draft : LogFilterDraft} {numericFields : List JsString}
    (h : filterDraftError lib draft fields numericFields = none) :
    trimUnits draft.key ∈ fields ∨ isAttributeKey (trimUnits draft.key) = true := by
  by_contra hnot
  rw [not_or, Bool.not_eq_true] at hnot
  simp [filterDraftError, hnot.1, hnot.2] at h

/-- A key is accepted with every value. -/
theorem isDraft_accepted
    {lib : BrowserLibraries} {draft : LogFilterDraft} {numericFields : List JsString}
    (h : filterDraftError lib draft fields numericFields = none) (value : GoString) :
    filterDraftError lib (isDraft draft.key value) fields numericFields = none := by
  rcases trimUnits_of_accepted h with hmem | hattr
  · simp [filterDraftError, isDraft, hmem]
  · simp [filterDraftError, isDraft, hattr]

section Parsed

variable {lib : BrowserLibraries} {signal : Signal} {key : JsString} {value : GoString}
variable {numericFields : List JsString}

theorem utf16_requestedKey (key : JsString) :
    utf16 (requestedKey key) = toWellFormed (trimUnits key) :=
  utf16_textChars (trimUnits key)

/-- The fields the two sides call built in are the same. -/
theorem requestedKey_mem_iff
    (h : filterDraftError lib (isDraft key value) (queryFields signal) numericFields = none) :
    requestedKey key ∈ signal.fields ↔ trimUnits key ∈ queryFields signal := by
  rw [← utf16_mem_map, ← queryFields_eq, utf16_requestedKey]
  constructor
  · intro hmem
    rcases trimUnits_of_accepted h with hbuiltin | hattr
    · exact hbuiltin
    · obtain ⟨resource, rest, hkey, -⟩ := isAttributeKey_parts hattr
      have hkey' : trimUnits key = attributeNamespace resource ++ jsChar '.' :: rest := hkey
      rw [hkey', toWellFormed_attribute] at hmem
      exact absurd hmem
        (attributeKey_notMem (fun field hfield => (queryFields_start signal field hfield).2.2)
          resource _)
  · intro hmem
    rw [(queryFields_wellFormed signal _ hmem).eq]
    exact hmem

theorem utf16_attributeSpace (resource : Bool) (key : GoString) :
    utf16 (attributeSpace resource ++ '.' :: key) =
      attributeNamespace resource ++ jsChar '.' :: utf16 key := by
  cases resource <;> rfl

/-- The term the server parses is on the key that was requested. -/
theorem isFilter_of_encodeTerm
    (h : filterDraftError lib (isDraft key value) (queryFields signal) numericFields = none)
    {term : Storage.LogSearchTerm}
    (hterm : encodeTerm term = sentTerm (draftTerm (isDraft key value) (queryFields signal))) :
    term.IsFilter signal.fields (requestedKey key) value where
  builtin := by
    intro hmem
    have htrim := (requestedKey_mem_iff h).mp hmem
    have hfield : (encodeTerm term).field = some (trimUnits key) := by
      rw [hterm]
      exact if_pos htrim
    rw [encodeTerm] at hfield
    dsimp only at hfield
    split_ifs at hfield with hempty
    refine utf16_injective ?_
    rw [Option.some.inj hfield, utf16_requestedKey]
    exact (queryFields_wellFormed signal _ htrim).eq.symm
  attr := by
    intro hnot
    have htrim := mt (requestedKey_mem_iff h).mpr hnot
    have hfield : (encodeTerm term).field = none := by
      rw [hterm]
      exact if_neg htrim
    rw [encodeTerm] at hfield
    dsimp only at hfield
    split_ifs at hfield with hempty
    refine ⟨List.isEmpty_iff.mp hempty, utf16_injective ?_⟩
    obtain ⟨resource, rest, hkey, -⟩ :=
      isAttributeKey_parts ((trimUnits_of_accepted h).resolve_left htrim)
    have hkey' : trimUnits key = attributeNamespace resource ++ jsChar '.' :: rest := hkey
    obtain ⟨-, hprefix, -, hslice⟩ := attributeKey_parts resource rest
    have hresource : term.resource = resource := by
      rw [show term.resource = (encodeTerm term).resource from rfl, hterm, ← hprefix, ← hkey']
      rfl
    have hsent : utf16 term.key = toWellFormed rest := by
      rw [show utf16 term.key = (encodeTerm term).key from rfl, hterm, ← hslice, ← hkey']
      rfl
    rw [utf16_requestedKey, utf16_attributeSpace, hkey', toWellFormed_attribute, hresource, hsent]
  value := by
    refine utf16_injective ?_
    rw [show utf16 term.value = (encodeTerm term).value from rfl, hterm]
    rfl
  quoted := by
    rw [show term.quoted = (encodeTerm term).quoted from rfl, hterm]
    rfl
  negated := by
    rw [show term.negated = (encodeTerm term).negated from rfl, hterm]
    rfl

/-- The server parses the filter as the key and the value it was made of. -/
theorem parse_isSearch
    (h : filterDraftError lib (isDraft key value) (queryFields signal) numericFields = none) :
    ∃ term, parseSignalSearch (isSearch signal key value).toList signal.fields = ([], [term]) ∧
      term.IsFilter signal.fields (requestedKey key) value := by
  have hser := draftTerm_serializable h
  have hutf : utf16 (isSearch signal key value).toList =
      serializeLogTerm (sentTerm (draftTerm (isDraft key value) (queryFields signal))) := by
    rw [isSearch, String.toList_ofList, utf16_textChars]
    exact toWellFormed_serializeLogTerm hser rfl rfl
  have hlone := loneSurrogateFree_of_serialized hser.sentTerm rfl (wellFormed_utf16 value) hutf
  have hparse := parse_utf16 hlone
  rw [hutf, ← queryFields_eq, parseLogSearch_serializeLogTerm hser.sentTerm] at hparse
  generalize hresult : parseSignalSearch (isSearch signal key value).toList signal.fields = result
    at hparse
  obtain ⟨plain, terms⟩ := result
  obtain ⟨hplain, hterms⟩ := Prod.mk.inj hparse
  obtain ⟨term, rfl, hterm⟩ := List.map_eq_singleton_iff.mp hterms.symm
  have hempty : plain = [] := utf16_eq_nil.mp hplain.symm
  exact ⟨term, by rw [hempty], isFilter_of_encodeTerm h hterm⟩

end Parsed

/-! ### What is found -/

section Store

variable {V : Type}

/-- The rows of the window whose keys and values are suggested. -/
def Signal.rows (db : Db V) (lib : SearchLibraries) (fromTs toTs : Time) :
    Signal → List ScopedRow
  | .logs => db.scopedLogs fromTs toTs
  | .traces => db.scopedSpans lib fromTs toTs
  | .metrics => db.scopedSeries fromTs toTs

/-- Some item of the window matches the search. -/
def finds (db : Db V) (lib : SearchLibraries) (fromTs toTs : Time) (search : String) :
    Signal → Prop
  | .logs => db.matchingLogs (logRowMatches lib) (logInWindow fromTs toTs) search ≠ []
  | .traces => db.matchingTraces (traceSpanMatches lib) fromTs toTs search ≠ []
  | .metrics =>
      (matchingGroups (db.filteredSeries (metricSeriesMatches lib) fromTs toTs search) :
        List (MetricSummary V)) ≠ []

/-- Some record of the window carries the attribute, or its resource does. -/
def carries (db : Db V) (fromTs toTs : Time) (resource : Bool) (key : GoString) :
    Signal → Prop
  | .logs =>
      ∃ l ∈ db.logs, logInWindow fromTs toTs l.row = true ∧
        db.hasAttribute l.row.attributes l.row.resourceHash resource key
  | .traces =>
      ∃ s ∈ db.spans, ∃ t ∈ db.traceSummaries.rows, t.traceID = s.traceID ∧
        fromTs ≤ t.startTime ∧ t.startTime < toTs ∧
        db.hasAttribute s.attributes s.resourceHash resource key
  | .metrics =>
      ∃ s ∈ db.metricSeries.rows, fromTs ≤ s.lastSeen ∧ s.firstSeen < toTs ∧
        db.hasAttribute s.row.attributes s.row.resourceHash resource key

variable {db : Db V} {lib : SearchLibraries} {fromTs toTs : Time} {signal : Signal}

theorem suggestionScope_text :
    db.suggestionScope lib signal.text fromTs toTs =
      .ok ⟨signal.fields, signal.rows db lib fromTs toTs⟩ := by
  cases signal with
  | logs => exact Db.suggestionScope_logs db lib fromTs toTs
  | traces => exact Db.suggestionScope_traces db lib fromTs toTs
  | metrics => exact Db.suggestionScope_metrics db lib fromTs toTs

theorem builtinField_of_mem_fields : ∀ key ∈ signal.fields, BuiltinField key := by
  intro key hkey
  refine builtinField_of_mem ?_
  rw [List.mem_append, List.mem_append]
  cases signal with
  | logs => exact Or.inl (Or.inl hkey)
  | traces => exact Or.inl (Or.inr hkey)
  | metrics => exact Or.inr hkey

/-- The record that has the value is found by the filter on it. -/
theorem finds_of_suggests
    (hlib : lib.ReadsBack) (hseverity : db.SeverityInRange) {search : String}
    {key value : GoString} {term : Storage.LogSearchTerm}
    (hparse : parseSignalSearch search.toList signal.fields = ([], [term]))
    (hterm : term.IsFilter signal.fields key value) {row : ScopedRow} {r : ResourceRow}
    (hrow : row ∈ signal.rows db lib fromTs toTs)
    (hfind : db.resources.find? row.resourceHash = some r)
    (h : row.suggests lib r signal.fields key value) :
    finds db lib fromTs toTs search signal := by
  cases signal with
  | logs => exact Db.matchingLogs_of_suggests hlib hseverity hparse hterm hrow hfind h
  | traces => exact Db.matchingTraces_of_suggests hlib hparse hterm hrow hfind h
  | metrics => exact Db.matchingGroups_of_suggests hparse hterm hrow hfind h

theorem carries_of_row
    {row : ScopedRow} (hrow : row ∈ signal.rows db lib fromTs toTs) {resource : Bool}
    {key : GoString} (h : db.hasAttribute row.attributes row.resourceHash resource key) :
    carries db fromTs toTs resource key signal := by
  cases signal with
  | logs =>
      obtain ⟨l, hl, hwindow, rfl⟩ := Db.exists_log_of_mem hrow
      exact ⟨l, hl, hwindow, h⟩
  | traces =>
      obtain ⟨s, hs, t, ht, hid, hfrom, hto, rfl⟩ := Db.exists_span_of_mem hrow
      exact ⟨s, hs, t, ht, hid, hfrom, hto, h⟩
  | metrics =>
      obtain ⟨s, hs, hlast, hfirst, rfl⟩ := Db.exists_series_of_mem hrow
      exact ⟨s, hs, hlast, hfirst, h⟩

/-- The server knows the requested key of an accepted draft. -/
theorem requestedKey_cases
    {browser : BrowserLibraries} {draft : LogFilterDraft} {numericFields : List JsString}
    (h : filterDraftError browser draft (queryFields signal) numericFields = none) :
    requestedKey draft.key ∈ signal.fields ∨
      ∃ resource attr, attr ≠ [] ∧
        requestedKey draft.key = attributeSpace resource ++ '.' :: attr := by
  rcases trimUnits_of_accepted h with hbuiltin | hattr
  · exact Or.inl ((requestedKey_mem_iff (isDraft_accepted h [])).mpr hbuiltin)
  · obtain ⟨resource, rest, hkey, hne, -⟩ := isAttributeKey_parts hattr
    refine Or.inr ⟨resource, textChars rest, ?_, utf16_injective ?_⟩
    · intro hnil
      have hlength := length_toWellFormed rest
      rw [← utf16_textChars, hnil] at hlength
      exact hne (List.length_eq_zero_iff.mp hlength.symm)
    · rw [utf16_requestedKey, hkey, toWellFormed_attribute, utf16_attributeSpace,
        utf16_textChars]

theorem requestedKey_ne_nil
    {browser : BrowserLibraries} {draft : LogFilterDraft} {numericFields : List JsString}
    (h : filterDraftError browser draft (queryFields signal) numericFields = none) :
    requestedKey draft.key ≠ [] := by
  rcases requestedKey_cases h with hbuiltin | ⟨resource, attr, -, hkey⟩
  · exact (builtinField_of_mem_fields _ hbuiltin).nonempty
  · rw [hkey]
    simp

/-- For the key of every draft the editor accepts the server has suggestions.  They
contain the input, and the filter `is` on each finds an item of the window.  The keys of
attributes it suggests are carried by a record of the window. -/
theorem suggestions_match
    (hlib : lib.ReadsBack) (hseverity : db.SeverityInRange)
    (browser : BrowserLibraries) (toLower : GoString → GoString) (signal : Signal)
    (fromTs toTs : Time) :
    (∀ draft numericFields,
      filterDraftError browser draft (queryFields signal) numericFields = none →
        ∀ input, ∃ values,
          db.filterSuggestions lib toLower signal.text (requestedKey draft.key) input fromTs
              toTs = .ok values ∧
            ∀ value ∈ values, input.map lib.fold <:+: value.map lib.fold ∧
              finds db lib fromTs toTs (isSearch signal draft.key value) signal) ∧
      ∀ input, ∃ keys,
        db.filterSuggestions lib toLower signal.text [] input fromTs toTs = .ok keys ∧
          ∀ resource key, attributePrefix resource ++ key ∈ keys →
            carries db fromTs toTs resource key signal := by
  have hscope : db.suggestionScope lib signal.text fromTs toTs =
      .ok ⟨signal.fields, signal.rows db lib fromTs toTs⟩ := suggestionScope_text
  constructor
  · intro draft numericFields haccepted input
    obtain ⟨stored, hstored⟩ := db.exists_suggestedValues lib
      (signal.rows db lib fromTs toTs) (requestedKey_cases haccepted)
    refine ⟨_, Db.filterSuggestions_of_ne_nil hscope (requestedKey_ne_nil haccepted) hstored
      input, ?_⟩
    intro value hvalue
    obtain ⟨hmem, hinput⟩ := mem_narrowed hvalue
    obtain ⟨row, hrow, r, hfind, hsuggests⟩ := Db.exists_row_of_suggestedValues hstored hmem
    obtain ⟨term, hparse, hterm⟩ := parse_isSearch (isDraft_accepted haccepted value)
    exact ⟨hinput, finds_of_suggests hlib hseverity hparse hterm hrow hfind hsuggests⟩
  · intro input
    refine ⟨_, Db.filterSuggestions_of_nil hscope input, fun resource key hkey => ?_⟩
    obtain ⟨row, hrow, hattribute⟩ :=
      Db.hasAttribute_of_mem_suggestedKeys builtinField_of_mem_fields hkey
    exact carries_of_row hrow hattribute

end Store

/-! ### A store with a log -/

/-- The finite double nearest to a number. -/
def finiteDouble (q : ℚ) : UInt64 :=
  withSign (q < 0) (min (roundMagnitude |q|) (infinityBits - 1))

/-- Libraries that know ASCII, and write doubles in full. -/
def exactLibraries : SearchLibraries where
  fold := asciiLower
  parseFloat s := (Lib.parseFloat s).map doubleValue
  double q := doubleValue (finiteDouble q)
  jsonNumberText q := formatExact (finiteDouble q)
  jsonText _ := []
  eventsText _ := []
  castDouble s := (Lib.parseFloat s).map doubleValue
  doubleText q := formatExact (finiteDouble q)

theorem unsignedBits_finiteDouble (q : ℚ) : unsignedBits (finiteDouble q) < infinityBits := by
  have hpos : 0 < infinityBits := by decide
  have hlt : min (roundMagnitude |q|) (infinityBits - 1) < infinityBits := by omega
  rw [finiteDouble, unsignedBits_withSign _ (hlt.trans infinityBits_lt)]
  exact hlt

theorem decimal_eq_formatInt (n : ℤ) : decimal n = formatInt n := by
  rw [decimal, formatInt, Int.toString_eq_repr, Int.repr_eq_if]
  by_cases h : n < 0
  · rw [if_neg (by omega), if_pos h, String.toList_append, Nat.repr_eq_ofList_toDigits,
      show (-n).toNat = n.natAbs by omega]
    exact congrArg ('-' :: ·) String.toList_ofList
  · rw [if_pos (by omega), if_neg h, Nat.repr_eq_ofList_toDigits, String.toList_ofList,
      show n.toNat = n.natAbs by omega]

/-- A finite double is the one nearest to its value, apart from the sign of zero. -/
theorem doubleValue_finiteDouble
    {bits : UInt64} (h : unsignedBits bits < infinityBits) :
    doubleValue (finiteDouble (doubleValue bits)) = doubleValue bits := by
  have hnonneg := magnitude_nonneg (unsignedBits bits)
  have hmin : min (unsignedBits bits) (infinityBits - 1) = unsignedBits bits := by omega
  have hround : finiteDouble (doubleValue bits) =
      withSign (doubleValue bits < 0) (unsignedBits bits) := by
    have habs : |doubleValue bits| = magnitude (unsignedBits bits) := by
      rw [doubleValue]
      split_ifs
      · rw [abs_neg, abs_of_nonneg hnonneg]
      · exact abs_of_nonneg hnonneg
    rw [finiteDouble, habs, roundMagnitude_magnitude, hmin]
  rw [hround, doubleValue_withSign _ (h.trans infinityBits_lt), doubleValue]
  by_cases hneg : isNegative bits = true
  · rw [if_pos hneg]
    rcases hnonneg.eq_or_lt with hzero | hpos
    · simp [← hzero]
    · rw [if_pos (decide_eq_true (neg_lt_zero.mpr hpos))]
  · rw [if_neg hneg, if_neg (by simpa using hnonneg)]

theorem exactLibraries_readsBack : exactLibraries.ReadsBack where
  double q := by
    have hread := parseFloat_formatExact (unsignedBits_finiteDouble (doubleValue (finiteDouble q)))
    change (Lib.parseFloat (formatExact (finiteDouble (doubleValue (finiteDouble q))))).map
      doubleValue = some (doubleValue (finiteDouble q))
    rw [hread, Option.map_some, doubleValue_finiteDouble (unsignedBits_finiteDouble q)]
  integer n hn := by
    have hle : n.natAbs ≤ 2 ^ 63 := by omega
    have hfits : FitsDouble n.natAbs := by
      have hlog : Nat.log2 n.natAbs - 52 = 0 := by
        rcases Nat.eq_zero_or_pos n.natAbs with hzero | hpos
        · rw [hzero]
          rfl
        · have hlt := (Nat.log2_lt (by omega)).mpr hn
          omega
      rw [FitsDouble, hlog]
      exact one_dvd _
    change (Lib.parseFloat (decimal n)).map doubleValue = _
    rw [decimal_eq_formatInt, parseFloat_formatInt hle, Option.map_some,
      (doubleValue_nearestDouble_iff hle).mpr hfits]
/-- A store with one log. -/
def loggedDb : Db ℚ :=
  { Db.empty ℚ with
    resources := ⟨[sampleResource], List.nodup_singleton _⟩
    logs := [⟨sampleLog, 0⟩] }

theorem loggedDb_severityInRange : loggedDb.SeverityInRange := by
  intro l hl
  rw [List.mem_singleton.mp hl]
  decide

theorem suggestions_match_sample :
    (∀ draft numericFields,
      filterDraftError sampleBrowser draft (queryFields .logs) numericFields = none →
        ∀ input, ∃ values,
          loggedDb.filterSuggestions exactLibraries id "logs" (requestedKey draft.key) input 0
              1 = .ok values ∧
            ∀ value ∈ values,
              input.map asciiLower <:+: value.map asciiLower ∧
                finds loggedDb exactLibraries 0 1 (isSearch .logs draft.key value) .logs) ∧
      ∀ input, ∃ keys,
        loggedDb.filterSuggestions exactLibraries id "logs" [] input 0 1 = .ok keys ∧
          ∀ resource key, attributePrefix resource ++ key ∈ keys →
            carries loggedDb 0 1 resource key .logs :=
  suggestions_match exactLibraries_readsBack loggedDb_severityInRange sampleBrowser id .logs 0 1

example :
    (loggedDb.filterSuggestions exactLibraries id "logs" "attributes.status".toList ['0'] 0
      1).toOption = some ["503".toList] := by
  decide +kernel

end Frontend
end Otelop
