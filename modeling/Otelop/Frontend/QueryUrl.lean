import Mathlib.Tactic
import Otelop.Frontend.EventTimeWindow
import Otelop.Frontend.QueryComposition
import Otelop.Lib.FormEncoding

/-!
# The query in the URL

`frontend/src/lib/route-search.ts` writes the search of a route as a query string and reads it
back, and `frontend/src/lib/log-query-state.ts` keeps the search text and the filters in it.

The router's library turns the values of a search into texts and back.  It is a parameter,
`RouteLibraries`, and `RoundTrips` is what is used of it.  A value that is one text and a list
of one text are written alike, and an empty list is not written; `toWellFormed` is what a
browser does to a text before it is escaped.  Filters get new ids when they are read, so filters
are compared by what they say.

**Results.**
* `validateSearch_stringifySearch`: the search of a route is read back, apart from empty lists
  and lone surrogates.
* `readFilterQuery_filterQuerySearch`: so are the text and the filters.
* `readQuery_writeQuery`: and the whole query with its window.
-/

namespace Otelop
namespace Frontend

open Lib Storage

/-- The parameters of a query string, in order. -/
abbrev URLSearchParams := List (JsString × JsString)

namespace URLSearchParams

def getAll (params : URLSearchParams) (key : JsString) : List JsString :=
  (List.filter (fun param => param.1 = key) params).map Prod.snd

/-- The first value, of a key that occurs. -/
def get (params : URLSearchParams) (key : JsString) : JsString :=
  ((params.getAll key).head?).getD []

end URLSearchParams

/-- `URLSearchParams` and `Temporal.Instant`.  `instant` has no value where
`Temporal.Instant.from` throws. -/
structure RouteLibraries where
  encode : URLSearchParams → JsString
  decode : JsString → URLSearchParams
  instant : JsString → Option Time
  instantText : Time → JsString

/-! ### The search of a route -/

structure SignalSearch where
  q : Option JsString
  range : Option ChartTimeRange
  fromText : Option JsString
  toText : Option JsString
  filter : Option (List JsString)
  disabledFilter : Option (List JsString)
deriving DecidableEq

/-- A value of a search object. -/
inductive SearchValue where
  | undefined
  | text (s : JsString)
  | texts (l : List JsString)
deriving DecidableEq

/-- What is appended for the value. -/
def SearchValue.items : SearchValue → List JsString
  | .undefined => []
  | .text s => [s]
  | .texts l => l

def SearchValue.ofText (s : Option JsString) : SearchValue := (s.map .text).getD .undefined

def SearchValue.ofTexts (l : Option (List JsString)) : SearchValue :=
  (l.map .texts).getD .undefined

/-- `Object.entries(search)` -/
def SignalSearch.entries (search : SignalSearch) : List (JsString × SearchValue) :=
  [ (js "q", .ofText search.q),
    (js "range", .ofText (search.range.map fun range => js range.text)),
    (js "from", .ofText search.fromText),
    (js "to", .ofText search.toText),
    (js "filter", .ofTexts search.filter),
    (js "disabled_filter", .ofTexts search.disabledFilter) ]

/-- What is appended for the entries of a search object. -/
def searchParams (entries : List (JsString × SearchValue)) : URLSearchParams :=
  entries.flatMap fun entry => entry.2.items.map fun item => (entry.1, item)

def stringifySearch (lib : RouteLibraries) (search : List (JsString × SearchValue)) :
    JsString :=
  let result := lib.encode (searchParams search)
  if result.isEmpty then [] else js "?" ++ result

def parseSearch (lib : RouteLibraries) (search : JsString) : List (JsString × SearchValue) :=
  let params := lib.decode search
  (params.map Prod.fst).eraseDups.map fun key =>
    (key,
      if key = js "filter" ∨ key = js "disabled_filter" then .texts (params.getAll key)
      else .text (params.get key))

/-- `isChartTimeRange(value)`, with the range it is. -/
def chartTimeRange (value : JsString) : Option ChartTimeRange :=
  ChartTimeRange.listed.find? fun range => js range.text = value

/-- `search[key]` where it is a string. -/
def textOf : Option SearchValue → Option JsString
  | some (.text s) => some s
  | _ => none

/-- `search[key]` as a list of strings. -/
def filtersOf : Option SearchValue → Option (List JsString)
  | some (.texts l) => some l
  | some (.text s) => some [s]
  | _ => none

def validateSearch (search : List (JsString × SearchValue)) : SignalSearch where
  q := textOf (search.lookup (js "q"))
  range := (textOf (search.lookup (js "range"))).bind fun range =>
    if range.isEmpty then none else chartTimeRange range
  fromText := textOf (search.lookup (js "from"))
  toText := textOf (search.lookup (js "to"))
  filter := filtersOf (search.lookup (js "filter"))
  disabledFilter := filtersOf (search.lookup (js "disabled_filter"))

def eventWindowFromSearch (lib : RouteLibraries) (search : SignalSearch) : EventTimeWindow :=
  let live := EventTimeWindow.live (search.range.getD .default)
  match search.fromText, search.toText with
  | some fromText, some toText =>
      if fromText.isEmpty || toText.isEmpty then live
      else
        match lib.instant fromText, lib.instant toText with
        | some fromInstant, some toInstant =>
            if h : fromInstant < toInstant then .fixed fromInstant toInstant h else live
        | _, _ => live
  | _, _ => live

/-- `{ ...previous, ...eventWindowSearch(window) }` -/
def eventWindowSearch (lib : RouteLibraries) (window : EventTimeWindow)
    (previous : SignalSearch) : SignalSearch :=
  match window with
  | .fixed fromTime toTime _ =>
      { previous with
        fromText := some (lib.instantText fromTime)
        toText := some (lib.instantText toTime)
        range := none }
  | .live range =>
      { previous with
        fromText := none
        toText := none
        range := if range = .default then none else some range }

/-! ### The text and the filters -/

/-- `JSON.stringify([value, occurrence])` -/
def filterId (value : JsString) (occurrence : Nat) : JsString :=
  js "[" ++ quoteString value ++ js "," ++ utf16 (decimal occurrence) ++ js "]"

/-- The filters read so far, and how often each text occurred. -/
structure FilterReader where
  filters : List LogFilter
  occurrences : JsString → Nat

/-- The inner loop body of `readFilterQuery`. -/
def FilterReader.read (fields : List JsString) (enabled : Bool) (reader : FilterReader)
    (value : JsString) : FilterReader :=
  let parsed := parseLogSearch value fields
  if !parsed.1.isEmpty then reader
  else
    match parsed.2 with
    | [term] =>
        let occurrence := reader.occurrences value
        { filters := reader.filters ++ [{ term, id := filterId value occurrence, enabled }]
          occurrences := Function.update reader.occurrences value (occurrence + 1) }
    | _ => reader

def readFilterQuery (search : SignalSearch) (fields : List JsString) : LogQueryState :=
  let enabled := (search.filter.getD []).foldl (FilterReader.read fields true) ⟨[], fun _ => 0⟩
  let paused := (search.disabledFilter.getD []).foldl (FilterReader.read fields false) enabled
  { text := search.q.getD [], filters := paused.filters }

/-- `{ ...previous, ...filterQuerySearch(state) }` -/
def filterQuerySearch (state : LogQueryState) (previous : SignalSearch) : SignalSearch :=
  { previous with
    q := if state.text.isEmpty then none else some state.text
    filter := some ((state.filters.filter fun filter => filter.enabled).map fun filter =>
      serializeLogTerm filter.term)
    disabledFilter := some ((state.filters.filter fun filter => !filter.enabled).map fun filter =>
      serializeLogTerm filter.term) }

/-! ### Reading a search back -/

/-- The parameters are written and read as text, and instants have a text. -/
structure RouteLibraries.RoundTrips (lib : RouteLibraries) : Prop where
  decode_nil : lib.decode [] = []
  encode_ne_nil : ∀ params, params ≠ [] → lib.encode params ≠ []
  decode_encode : ∀ params, lib.decode (js "?" ++ lib.encode params) =
    params.map fun param => (toWellFormed param.1, toWellFormed param.2)
  instant_instantText : ∀ s t, lib.instant s = some t →
    WellFormed (lib.instantText t) ∧ lib.instantText t ≠ [] ∧
      lib.instant (lib.instantText t) = some t

variable {lib : RouteLibraries}

/-- The parameters of a search. -/
theorem mem_searchParams
    {entries : List (JsString × SearchValue)} {param : JsString × JsString} :
    param ∈ searchParams entries ↔ ∃ entry ∈ entries, ∃ item ∈ entry.2.items,
      (entry.1, item) = param := by
  simp [searchParams, List.mem_flatMap, List.mem_map]

/-- A key without values is not among the parameters. -/
theorem getAll_eq_nil {params : URLSearchParams} {key : JsString} :
    params.getAll key = [] ↔ key ∉ params.map Prod.fst := by
  rw [URLSearchParams.getAll, List.map_eq_nil_iff, List.filter_eq_nil_iff, List.mem_map]
  constructor
  · rintro h ⟨param, hparam, rfl⟩
    exact h param hparam (by simp)
  · intro h param hparam hkey
    exact h ⟨param, hparam, by simpa using hkey⟩

theorem getAll_searchParams_cons
    (entry : JsString × SearchValue) (entries : List (JsString × SearchValue))
    (key : JsString) :
    (searchParams (entry :: entries)).getAll key =
      (if entry.1 = key then entry.2.items else []) ++ (searchParams entries).getAll key := by
  simp only [URLSearchParams.getAll, searchParams, List.flatMap_cons, List.filter_append,
    List.map_append]
  congr 1
  split_ifs with hentry <;> simp [List.filter_map, hentry, Function.comp_def]

/-- The values of a key are those of its entry. -/
theorem getAll_searchParams
    {entries : List (JsString × SearchValue)} (hkeys : (entries.map Prod.fst).Nodup)
    {key : JsString} {value : SearchValue} (h : (key, value) ∈ entries) :
    (searchParams entries).getAll key = value.items := by
  induction entries with
  | nil => exact absurd h List.not_mem_nil
  | cons entry entries ih =>
      obtain ⟨hnot, hkeys⟩ := List.nodup_cons.mp hkeys
      rw [getAll_searchParams_cons]
      rcases List.mem_cons.mp h with rfl | h
      · have hrest : (searchParams entries).getAll key = [] := by
          rw [getAll_eq_nil, List.mem_map]
          rintro ⟨param, hparam, hkey⟩
          obtain ⟨entry, hentry, item, -, rfl⟩ := mem_searchParams.mp hparam
          exact hnot (List.mem_map.mpr ⟨entry, hentry, hkey⟩)
        rw [if_pos rfl, hrest, List.append_nil]
      · have hne : entry.1 ≠ key := by
          rintro rfl
          exact hnot (List.mem_map.mpr ⟨_, h, rfl⟩)
        rw [if_neg hne, List.nil_append]
        exact ih hkeys h

theorem lookup_map_key {β : Type} (f : JsString → β) (keys : List JsString) (key : JsString) :
    (keys.map fun k => (k, f k)).lookup key = if key ∈ keys then some (f key) else none := by
  induction keys with
  | nil => rfl
  | cons k keys ih =>
      rw [List.map_cons, List.lookup_cons]
      by_cases hk : key = k
      · simp [hk]
      · have hne : (key == k) = false := by simpa using hk
        rw [hne, ih]
        simp [hk]

/-- What is read for a key. -/
theorem lookup_parseSearch (search key : JsString) :
    (parseSearch lib search).lookup key =
      if (lib.decode search).getAll key = [] then none
      else if key = js "filter" ∨ key = js "disabled_filter" then
        some (.texts ((lib.decode search).getAll key))
      else some (.text ((lib.decode search).get key)) := by
  rw [parseSearch, lookup_map_key]
  simp only [List.mem_eraseDups]
  by_cases hkey : key ∈ (lib.decode search).map Prod.fst
  · rw [if_pos hkey, if_neg (fun h => getAll_eq_nil.mp h hkey)]
    split_ifs <;> rfl
  · rw [if_neg hkey, if_pos (getAll_eq_nil.mpr hkey)]

/-- A value as it is read back. -/
def SearchValue.toWellFormed : SearchValue → SearchValue
  | .undefined => .undefined
  | .text s => .text (Lib.toWellFormed s)
  | .texts l => .texts (l.map Lib.toWellFormed)

theorem map_searchParams
    {entries : List (JsString × SearchValue)} (h : ∀ entry ∈ entries, WellFormed entry.1) :
    ((searchParams entries).map fun param => (toWellFormed param.1, toWellFormed param.2)) =
      searchParams (entries.map fun entry => (entry.1, entry.2.toWellFormed)) := by
  induction entries with
  | nil => rfl
  | cons entry entries ih =>
      obtain ⟨hkey, hkeys⟩ := List.forall_mem_cons.mp h
      have hitems : ((entry.2.items.map fun item => (entry.1, item)).map fun param =>
            (toWellFormed param.1, toWellFormed param.2)) =
          entry.2.toWellFormed.items.map fun item => (entry.1, item) := by
        rw [List.map_map]
        cases entry.2 <;>
          simp [SearchValue.items, SearchValue.toWellFormed, hkey.eq, Function.comp_def]
      simp only [searchParams, List.flatMap_cons, List.map_append, List.map_cons] at ih ⊢
      rw [hitems, ih hkeys]

/-- Entries are read as they were written, with lone surrogates replaced. -/
theorem RouteLibraries.RoundTrips.decode_stringifySearch
    (hlib : lib.RoundTrips) {entries : List (JsString × SearchValue)}
    (h : ∀ entry ∈ entries, WellFormed entry.1) :
    lib.decode (stringifySearch lib entries) =
      searchParams (entries.map fun entry => (entry.1, entry.2.toWellFormed)) := by
  have hparams := map_searchParams h
  rw [stringifySearch]
  by_cases hempty : searchParams entries = []
  · split_ifs
    · rw [hlib.decode_nil, ← hparams, hempty, List.map_nil]
    · rw [hlib.decode_encode, hparams]
  · rw [if_neg (by simpa using hlib.encode_ne_nil _ hempty), hlib.decode_encode, hparams]

/-- A search as it is read back. -/
def SignalSearch.toWellFormed (search : SignalSearch) : SignalSearch where
  q := search.q.map Lib.toWellFormed
  range := search.range
  fromText := search.fromText.map Lib.toWellFormed
  toText := search.toText.map Lib.toWellFormed
  filter := search.filter.map (List.map Lib.toWellFormed)
  disabledFilter := search.disabledFilter.map (List.map Lib.toWellFormed)

structure SignalSearch.WellFormed (search : SignalSearch) : Prop where
  q : ∀ s, search.q = some s → Lib.WellFormed s
  fromText : ∀ s, search.fromText = some s → Lib.WellFormed s
  toText : ∀ s, search.toText = some s → Lib.WellFormed s
  filter : ∀ l, search.filter = some l → ∀ s ∈ l, Lib.WellFormed s
  disabledFilter : ∀ l, search.disabledFilter = some l → ∀ s ∈ l, Lib.WellFormed s

/-- A time range is read from its text. -/
theorem chartTimeRange_text (range : ChartTimeRange) :
    Lib.WellFormed (js range.text) ∧ (js range.text).isEmpty = false ∧
      chartTimeRange (js range.text) = some range := by
  cases range <;> decide

theorem ofText_toWellFormed (s : Option JsString) :
    (SearchValue.ofText s).toWellFormed = SearchValue.ofText (s.map toWellFormed) := by
  cases s <;> rfl

theorem ofTexts_toWellFormed (l : Option (List JsString)) :
    (SearchValue.ofTexts l).toWellFormed = SearchValue.ofTexts (l.map (List.map toWellFormed)) := by
  cases l <;> rfl

theorem entries_toWellFormed (search : SignalSearch) :
    (search.entries.map fun entry => (entry.1, entry.2.toWellFormed)) =
      search.toWellFormed.entries := by
  have hrange : (search.range.map fun range => js range.text).map toWellFormed =
      search.range.map fun range => js range.text := by
    cases search.range with
    | none => rfl
    | some range => exact congrArg some (chartTimeRange_text range).1
  simp only [SignalSearch.entries, SignalSearch.toWellFormed, List.map_cons, List.map_nil,
    ofText_toWellFormed, ofTexts_toWellFormed, hrange]

theorem entries_wellFormed (search : SignalSearch) :
    ∀ entry ∈ search.entries, WellFormed entry.1 := by
  simp only [SignalSearch.entries, List.forall_mem_cons]
  exact ⟨by decide, by decide, by decide, by decide, by decide, by decide, by simp⟩

theorem SignalSearch.WellFormed.toWellFormed_eq
    {search : SignalSearch} (h : search.WellFormed) : search.toWellFormed = search := by
  have htext : ∀ o : Option JsString, (∀ s, o = some s → Lib.WellFormed s) →
      o.map Lib.toWellFormed = o := by
    intro o ho
    cases o with
    | none => rfl
    | some s => exact congrArg some (ho s rfl)
  have htexts : ∀ o : Option (List JsString), (∀ l, o = some l → ∀ s ∈ l, Lib.WellFormed s) →
      o.map (List.map Lib.toWellFormed) = o := by
    intro o ho
    cases o with
    | none => rfl
    | some l =>
        have hl : l.map Lib.toWellFormed = l.map id := List.map_congr_left (ho l rfl)
        exact congrArg some (hl.trans (List.map_id l))
  rw [SignalSearch.toWellFormed, htext _ h.q, htext _ h.fromText, htext _ h.toText,
    htexts _ h.filter, htexts _ h.disabledFilter]

/-- A search writes every key once. -/
theorem entries_nodup (search : SignalSearch) : (search.entries.map Prod.fst).Nodup := by
  change [js "q", js "range", js "from", js "to", js "filter", js "disabled_filter"].Nodup
  decide

section Reading

variable (search : SignalSearch) (hlib : lib.RoundTrips)

include hlib

/-- The parameters that are decoded are those that were written, made well formed. -/
theorem decode_entries :
    lib.decode (stringifySearch lib search.entries) = searchParams search.toWellFormed.entries := by
  rw [hlib.decode_stringifySearch (entries_wellFormed search), entries_toWellFormed]

/-- A text that is written is read back. -/
theorem textOf_parseSearch
    (key : JsString) (s : Option JsString)
    (hmem : (key, SearchValue.ofText s) ∈ search.toWellFormed.entries)
    (hkey : ¬ (key = js "filter" ∨ key = js "disabled_filter")) :
    textOf ((parseSearch lib (stringifySearch lib search.entries)).lookup key) = s := by
  have hall := getAll_searchParams (entries_nodup search.toWellFormed) hmem
  rw [lookup_parseSearch, decode_entries search hlib, if_neg hkey,
    URLSearchParams.get, hall]
  cases s <;> rfl

/-- Filters that are written are read back. -/
theorem filtersOf_parseSearch
    (key : JsString) (l : Option (List JsString))
    (hmem : (key, SearchValue.ofTexts l) ∈ search.toWellFormed.entries)
    (hkey : key = js "filter" ∨ key = js "disabled_filter") :
    filtersOf ((parseSearch lib (stringifySearch lib search.entries)).lookup key) =
      l.filter fun texts => !texts.isEmpty := by
  have hall := getAll_searchParams (entries_nodup search.toWellFormed) hmem
  rw [lookup_parseSearch, decode_entries search hlib, if_pos hkey, hall]
  rcases l with _ | _ | ⟨text, texts⟩ <;> rfl

/-- A search is read back as it was written, apart from lists that are empty and
from lone surrogates. -/
theorem validateSearch_stringifySearch :
    validateSearch (parseSearch lib (stringifySearch lib search.entries)) =
      { search.toWellFormed with
        filter := search.toWellFormed.filter.filter fun texts => !texts.isEmpty
        disabledFilter :=
          search.toWellFormed.disabledFilter.filter fun texts => !texts.isEmpty } := by
  have hmem : ∀ entry ∈ search.toWellFormed.entries, entry ∈ search.toWellFormed.entries :=
    fun _ h => h
  simp only [SignalSearch.entries, List.forall_mem_cons] at hmem
  obtain ⟨hq, hrange, hfrom, hto, hfilter, hdisabled, -⟩ := hmem
  have htext : ((search.toWellFormed.range.map fun range => js range.text).bind fun range =>
      if range.isEmpty then none else chartTimeRange range) = search.toWellFormed.range := by
    cases search.toWellFormed.range with
    | none => rfl
    | some range =>
        obtain ⟨-, hne, htext⟩ := chartTimeRange_text range
        rw [Option.map_some, Option.bind_some, if_neg (by simp [hne]), htext]
  rw [validateSearch, textOf_parseSearch search hlib _ _ hq (by decide),
    textOf_parseSearch search hlib _ _ hrange (by decide), textOf_parseSearch search hlib _ _ hfrom (by decide),
    textOf_parseSearch search hlib _ _ hto (by decide), filtersOf_parseSearch search hlib _ _ hfilter (by decide),
    filtersOf_parseSearch search hlib _ _ hdisabled (by decide), htext]

end Reading

/-! ### Reading the filters back -/

variable {fields : List JsString}

/-- A filter apart from its id. -/
def LogFilter.content (filter : LogFilter) : LogSearchTerm × Bool :=
  (filter.term, filter.enabled)

/-- A term that is written is read as a filter. -/
theorem read_serializeLogTerm
    {term : LogSearchTerm} (h : Serializable fields term) (enabled : Bool)
    (reader : FilterReader) :
    (reader.read fields enabled (serializeLogTerm term)).filters.map LogFilter.content =
      reader.filters.map LogFilter.content ++ [(term, enabled)] := by
  rw [FilterReader.read, parseLogSearch_serializeLogTerm h]
  simp [LogFilter.content]

/-- Terms that are written are read as filters, in their order. -/
theorem foldl_read_serializeLogTerm
    {terms : List LogSearchTerm} (h : ∀ term ∈ terms, Serializable fields term)
    (enabled : Bool) (reader : FilterReader) :
    ((terms.map serializeLogTerm).foldl (FilterReader.read fields enabled) reader).filters.map
        LogFilter.content =
      reader.filters.map LogFilter.content ++ terms.map fun term => (term, enabled) := by
  induction terms generalizing reader with
  | nil => simp
  | cons term terms ih =>
      rw [List.map_cons, List.foldl_cons, ih fun term' hterm' =>
        h term' (List.mem_cons_of_mem term hterm'),
        read_serializeLogTerm (h term List.mem_cons_self), List.map_cons, List.append_assoc]
      rfl

/-- The contents of a query: its enabled filters, then its paused ones. -/
def LogQueryState.contents (state : LogQueryState) : List (LogSearchTerm × Bool) :=
  (state.filters.filter fun filter => filter.enabled).map LogFilter.content ++
    (state.filters.filter fun filter => !filter.enabled).map LogFilter.content

/-- Filters of one kind are read with its flag. -/
theorem foldl_read_filters
    {filters : List LogFilter} {enabled : Bool}
    (h : ∀ filter ∈ filters, Serializable fields filter.term ∧ filter.enabled = enabled)
    (reader : FilterReader) :
    ((filters.map fun filter => serializeLogTerm filter.term).foldl
        (FilterReader.read fields enabled) reader).filters.map LogFilter.content =
      reader.filters.map LogFilter.content ++ filters.map LogFilter.content := by
  have hserializable : ∀ term ∈ filters.map LogFilter.term, Serializable fields term := by
    intro term hterm
    obtain ⟨filter, hfilter, rfl⟩ := List.mem_map.mp hterm
    exact (h filter hfilter).1
  have hread := foldl_read_serializeLogTerm hserializable enabled reader
  rw [List.map_map, List.map_map] at hread
  refine hread.trans (congrArg (reader.filters.map LogFilter.content ++ ·) ?_)
  refine List.map_congr_left fun filter hfilter => ?_
  rw [LogFilter.content, (h filter hfilter).2]
  rfl

/-- The text and the filters are read as they were written. -/
theorem readFilterQuery_filterQuerySearch
    {state : LogQueryState} (hfilters : ∀ filter ∈ state.filters, Serializable fields filter.term)
    {search : SignalSearch} (hq : search.q.getD [] = state.text)
    (hfilter : search.filter.getD [] =
      (state.filters.filter fun filter => filter.enabled).map fun filter =>
        serializeLogTerm filter.term)
    (hdisabled : search.disabledFilter.getD [] =
      (state.filters.filter fun filter => !filter.enabled).map fun filter =>
        serializeLogTerm filter.term) :
    (readFilterQuery search fields).text = state.text ∧
      (readFilterQuery search fields).filters.map LogFilter.content = state.contents := by
  refine ⟨hq, ?_⟩
  rw [readFilterQuery, hfilter, hdisabled]
  dsimp only
  rw [foldl_read_filters, foldl_read_filters]
  · rfl
  · intro filter hmem
    obtain ⟨hmem, henabled⟩ := List.mem_filter.mp hmem
    exact ⟨hfilters filter hmem, henabled⟩
  · intro filter hmem
    obtain ⟨hmem, henabled⟩ := List.mem_filter.mp hmem
    exact ⟨hfilters filter hmem, by simpa using henabled⟩

/-! ### The whole query -/

theorem wellFormed_serializeValue {term : LogSearchTerm} (h : WellFormed term.value) :
    WellFormed (serializeValue term) := by
  have htilde : WellFormed (js "~") := by decide
  unfold serializeValue
  split_ifs
  · exact wellFormed_quoteString _
  · exact htilde.append (wellFormed_quoteString _)
  · exact h

/-- A well-formed term is written well formed. -/
theorem wellFormed_serializeLogTerm
    {term : LogSearchTerm} (hterm : Serializable fields term) (hkey : WellFormed term.key)
    (hvalue : WellFormed term.value) : WellFormed (serializeLogTerm term) := by
  have hdash : WellFormed (if term.negated then js "-" else []) := by
    cases term.negated <;> decide
  have htermKey : WellFormed (logTermKey term) := by
    unfold logTermKey
    cases hfield : term.field with
    | some field =>
        rw [← (hterm.builtin field hfield).2.1]
        exact hkey
    | none =>
        have hplain : WellFormed
            ((if term.resource then js "resource" else js "attributes") ++ js ".") := by
          cases term.resource <;> decide
        exact hplain.append hkey
  have hcolon : WellFormed (js ":") := by decide
  exact ((hdash.append htermKey).append hcolon).append (wellFormed_serializeValue hvalue)

/-- Every text of the query is well formed. -/
structure LogQueryState.WellFormed (state : LogQueryState) : Prop where
  text : Lib.WellFormed state.text
  filters : ∀ filter ∈ state.filters,
    Lib.WellFormed filter.term.key ∧ Lib.WellFormed filter.term.value

/-- The bounds of a fixed window were read from texts. -/
def EventTimeWindow.Canonical (lib : RouteLibraries) : EventTimeWindow → Prop
  | .live _ => True
  | .fixed fromTime toTime _ =>
      (∃ s, lib.instant s = some fromTime) ∧ ∃ s, lib.instant s = some toTime

/-- The URL of a query and a window, written over the search before. -/
def writeQuery (lib : RouteLibraries) (previous : SignalSearch) (state : LogQueryState)
    (window : EventTimeWindow) : JsString :=
  stringifySearch lib
    (eventWindowSearch lib window (filterQuerySearch state previous)).entries

/-- The search a route gets from its URL. -/
def routeSearch (lib : RouteLibraries) (url : JsString) : SignalSearch :=
  validateSearch (parseSearch lib url)

/-- A well-formed state is written well formed. -/
theorem writeQuery_wellFormed
    (hlib : lib.RoundTrips) (previous : SignalSearch) {state : LogQueryState}
    (hstate : state.WellFormed)
    (hfilters : ∀ filter ∈ state.filters, Serializable fields filter.term)
    {window : EventTimeWindow} (hwindow : window.Canonical lib) :
    (eventWindowSearch lib window (filterQuerySearch state previous)).WellFormed := by
  have hq : ∀ s, (if state.text.isEmpty then none else some state.text) = some s →
      Lib.WellFormed s := by
    intro s hs
    split_ifs at hs
    obtain rfl := Option.some.inj hs
    exact hstate.text
  have hserialized : ∀ p : LogFilter → Bool,
      ∀ s ∈ (state.filters.filter p).map fun filter => serializeLogTerm filter.term,
        Lib.WellFormed s := by
    intro p s hs
    obtain ⟨filter, hfilter, rfl⟩ := List.mem_map.mp hs
    have hmem := List.mem_of_mem_filter hfilter
    obtain ⟨hkey, hvalue⟩ := hstate.filters filter hmem
    exact wellFormed_serializeLogTerm (hfilters filter hmem) hkey hvalue
  have hinstant : ∀ t, (∃ s, lib.instant s = some t) →
      ∀ s, some (lib.instantText t) = some s → Lib.WellFormed s := by
    rintro t ⟨s, hs⟩ s' hs'
    obtain rfl := Option.some.inj hs'
    exact (hlib.instant_instantText s t hs).1
  have hfilter : ∀ p : LogFilter → Bool, ∀ l,
      some ((state.filters.filter p).map fun filter => serializeLogTerm filter.term) = some l →
        ∀ s ∈ l, Lib.WellFormed s := by
    intro p l hl
    obtain rfl := Option.some.inj hl
    exact hserialized p
  cases window with
  | live range =>
      exact ⟨hq, (fun _ h => nomatch h), (fun _ h => nomatch h), hfilter _, hfilter _⟩
  | fixed fromTime toTime ordered =>
      exact ⟨hq, hinstant fromTime hwindow.1, hinstant toTime hwindow.2, hfilter _, hfilter _⟩

/-- The window is read back from what was written for it. -/
theorem eventWindowFromSearch_eventWindowSearch
    (hlib : lib.RoundTrips) {window : EventTimeWindow} (hwindow : window.Canonical lib)
    (search previous : SignalSearch)
    (hrange : search.range = (eventWindowSearch lib window previous).range)
    (hfrom : search.fromText = (eventWindowSearch lib window previous).fromText)
    (hto : search.toText = (eventWindowSearch lib window previous).toText) :
    eventWindowFromSearch lib search = window := by
  cases window with
  | live range =>
      rw [eventWindowFromSearch, hfrom, hrange]
      simp only [eventWindowSearch]
      split_ifs with hdefault
      · rw [hdefault, Option.getD_none]
      · rw [Option.getD_some]
  | fixed fromTime toTime ordered =>
      obtain ⟨⟨s, hs⟩, ⟨t, ht⟩⟩ := hwindow
      obtain ⟨-, hfromText, hfromTime⟩ := hlib.instant_instantText s fromTime hs
      obtain ⟨-, htoText, htoTime⟩ := hlib.instant_instantText t toTime ht
      rw [eventWindowFromSearch, hfrom, hto]
      simp only [eventWindowSearch]
      rw [if_neg (by simp [hfromText, htoText]), hfromTime, htoTime]
      simp only [dif_pos ordered]

/-- Reading the URL gives the query that was written: the text, the filters with
their flags, the enabled ones before the paused ones, and the window. -/
theorem readQuery_writeQuery
    {lib : RouteLibraries} (hlib : lib.RoundTrips) (browser : BrowserLibraries)
    (signal : Signal) (previous : SignalSearch) {state : LogQueryState}
    (hstate : state.WellFormed)
    (hfilters : ∀ filter ∈ state.filters, AcceptedTerm browser signal filter.term)
    {window : EventTimeWindow} (hwindow : window.Canonical lib) :
    let search := routeSearch lib (writeQuery lib previous state window)
    let read := readFilterQuery search (queryFields signal)
    read.text = state.text ∧ read.filters.map LogFilter.content = state.contents ∧
      eventWindowFromSearch lib search = window := by
  have hserializable : ∀ filter ∈ state.filters,
      Serializable (queryFields signal) filter.term :=
    fun filter hfilter => (hfilters filter hfilter).serializable
  have hwritten := writeQuery_wellFormed hlib previous hstate hserializable hwindow
  have hsearch := validateSearch_stringifySearch
    (eventWindowSearch lib window (filterQuerySearch state previous)) hlib
  rw [hwritten.toWellFormed_eq] at hsearch
  have hlists : ∀ l : List JsString,
      ((some l).filter fun texts => !texts.isEmpty).getD [] = l := by
    intro l
    cases l <;> rfl
  intro search read
  have hread : search = _ := hsearch
  have hquery : read.text = state.text ∧ read.filters.map LogFilter.content = state.contents := by
    refine readFilterQuery_filterQuerySearch hserializable ?_ ?_ ?_
    · have htext : (if state.text.isEmpty then none else some state.text).getD [] =
          state.text := by
        cases state.text <;> rfl
      rw [hread]
      cases window <;> exact htext
    · rw [hread]
      cases window <;> exact hlists _
    · rw [hread]
      cases window <;> exact hlists _
  refine ⟨hquery.1, hquery.2, ?_⟩
  refine eventWindowFromSearch_eventWindowSearch hlib hwindow search
    (filterQuerySearch state previous) ?_ ?_ ?_ <;> rw [hread]

/-- Query strings of ASCII, and two instants. -/
def sampleRoute : RouteLibraries where
  encode := writeParams
  decode := readParams
  instant s :=
    if s = js "1970-01-01T00:00:00Z" then some 0
    else if s = js "1970-01-01T00:00:01.5Z" then some 1_500_000_000
    else none
  instantText t :=
    if t = 0 then js "1970-01-01T00:00:00Z" else js "1970-01-01T00:00:01.5Z"

theorem sampleRoute_roundTrips : sampleRoute.RoundTrips where
  decode_nil := by decide
  encode_ne_nil _ h := writeParams_ne_nil h
  decode_encode := readParams_writeParams
  instant_instantText := by
    intro s t h
    simp only [sampleRoute] at h ⊢
    split_ifs at h <;> obtain rfl := Option.some.inj h <;> decide

def sampleWindow : EventTimeWindow := .fixed 0 1_500_000_000 (by decide)

theorem readQuery_writeQuery_sample :
    let search := routeSearch sampleRoute
      (writeQuery sampleRoute ⟨none, some .hours6, none, none, none, none⟩ sampleQuery
        sampleWindow)
    let read := readFilterQuery search (queryFields .logs)
    read.text = sampleQuery.text ∧ read.filters.map LogFilter.content = sampleQuery.contents ∧
      eventWindowFromSearch sampleRoute search = sampleWindow :=
  readQuery_writeQuery sampleRoute_roundTrips sampleBrowser .logs _
    ⟨by decide, by decide⟩ sampleQuery_accepted
    ⟨⟨js "1970-01-01T00:00:00Z", by decide⟩, ⟨js "1970-01-01T00:00:01.5Z", by decide⟩⟩

end Frontend
end Otelop
