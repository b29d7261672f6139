import Mathlib.Tactic
import Otelop.Frontend.QueryUrl

/-!
# Filtering by a value

`useFilterByAction` of `frontend/src/hooks/use-filter-by-action.tsx` makes a filter of the
attribute a user clicks on, without the checks of the filter dialog.  The filter is written to
the URL, read back and composed into the query of the view.

The key of an attribute may hold anything, since it comes from a payload.  A key with white
space or a colon in it breaks the token it is written into, and the parser reads other terms or
free text there.  `Unbroken` says that the lexer stays in one token up to the end of a text;
what is not unbroken has a first space that ends its token, and the cases are split there.

**Results.**
* `unbroken_or_plain`, `Unbroken.first_term`: what a filter is read as, whatever its key holds.
* `filterBy_selects_iff`: when the filter selects the records with the value.
-/

namespace Otelop
namespace Frontend

open Lib Storage

/-- `addQueryFilter`; `id` is the random id of a new filter. -/
def addQueryFilter (state : LogQueryState) (term : LogSearchTerm) (id : JsString) :
    LogQueryState :=
  let query := serializeLogTerm term
  match state.filters.find? fun filter => serializeLogTerm filter.term = query with
  | some existing =>
      { state with
        filters := state.filters.map fun filter =>
          if filter.id = existing.id then { filter with enabled := true } else filter }
  | none => { state with filters := state.filters ++ [{ term, id, enabled := true }] }

/-- The URL `filterBy` navigates to. -/
def filterBy (lib : RouteLibraries) (browser : BrowserLibraries) (signal : Signal)
    (previous : SignalSearch) (key : JsString) (value : JsValue) (id : JsString) : JsString :=
  let fields := queryFields signal
  let term := draftTerm (valueToFilterDraft browser key value) fields
  stringifySearch lib
    (filterQuerySearch (addQueryFilter (readFilterQuery previous fields) term id)
      previous).entries

/-- The query of a view at a URL. -/
def urlQuery (lib : RouteLibraries) (signal : Signal) (url : JsString) : JsString :=
  (readFilterQuery (routeSearch lib url) (queryFields signal)).composedSearch

def createLogSearchMatcher (lib : BrowserLibraries) (search : JsString) (log : LogData) :
    Bool :=
  let (plain, terms) := parseLogSearch search logFieldKeys
  let q := lib.toLowerCase plain
  (q.isEmpty ||
      [log.body, log.serviceName, log.severityText, log.traceId, lib.stringify log.attributes,
        lib.stringify log.resource].any fun value => textIncludes lib q (some value)) &&
    logTermsMatch lib terms log

/-- `attributes.${key}` or `resource.${key}` -/
def attributeKey (resource : Bool) (key : JsString) : JsString :=
  attributeNamespace resource ++ jsChar '.' :: key

/-- The value under a key has the text, up to case. -/
def HasText (lib : BrowserLibraries) (attrs : JsRecord) (key text : JsString) : Prop :=
  ∃ s, scalarText lib (ownValue attrs key) = some s ∧
    s.map lib.foldUnit = text.map lib.foldUnit

def SelectsLogs (lib : BrowserLibraries) (resource : Bool) (key text search : JsString) :
    Prop :=
  ∀ log : LogData, createLogSearchMatcher lib search log = true ↔
    HasText lib (if resource then log.resource else log.attributes) key text

/-- A trace is selected by one of its spans. -/
def SelectsTraces (lib : BrowserLibraries) (resource : Bool) (key text search : JsString) :
    Prop :=
  ∀ trace : TraceData, trace.spans ≠ [] →
    (createTraceSearchMatcher lib search trace = true ↔
      ∃ span ∈ trace.spans,
        HasText lib ((if resource then span.resource else span.attributes).getD []) key text)

/-- `s.trimEnd()` -/
def trimEnd (s : JsString) : JsString := (s.reverse.dropWhile isJsSpace).reverse

/-- What is written for a filter on a value. -/
def filterText (resource : Bool) (key text : JsString) : JsString :=
  attributeKey resource key ++ jsChar ':' :: quoteString text

/-- The key is not empty, has no colon, ends without white space and has no lone
surrogate, and the tokenizer reads what is written as one token. -/
structure Filterable (resource : Bool) (key text : JsString) : Prop where
  ne_nil : key ≠ []
  colon : jsChar ':' ∉ key
  trimmed : trimEnd key = key
  wellFormed : WellFormed key
  token : searchTokens (filterText resource key text) = some [filterText resource key text]

/-! ### The filter -/

theorem trimEnd_start (s : JsString) : trimEnd s <+: s := by
  have hsuffix : s.reverse.dropWhile isJsSpace <:+ s.reverse := List.dropWhile_suffix _
  have hstarts := List.reverse_prefix.mpr hsuffix
  rwa [List.reverse_reverse] at hstarts

/-- Only the key is trimmed, at its end. -/
theorem trimUnits_attributeKey (resource : Bool) (key : JsString) :
    trimUnits (attributeKey resource key) = attributeKey resource (trimEnd key) := by
  have hstart : ∃ u rest, attributeNamespace resource = u :: rest ∧ isJsSpace u = false := by
    cases resource
    · exact ⟨_, _, rfl, by decide⟩
    · exact ⟨_, _, rfl, by decide⟩
  have hdot : isJsSpace (jsChar '.') = false := by decide
  obtain ⟨u, rest, heq, hu⟩ := hstart
  have hfront : (attributeKey resource key).dropWhile isJsSpace = attributeKey resource key := by
    rw [attributeKey, heq, List.cons_append, List.dropWhile_cons_of_neg (by simp [hu])]
  have hback : (attributeKey resource key).reverse.dropWhile isJsSpace =
      key.reverse.dropWhile isJsSpace ++ jsChar '.' :: (attributeNamespace resource).reverse := by
    rw [attributeKey, List.reverse_append, List.reverse_cons, List.append_assoc,
      List.singleton_append, List.dropWhile_append]
    split_ifs with hempty
    · rw [List.isEmpty_iff.mp hempty, List.nil_append,
        List.dropWhile_cons_of_neg (by simp [hdot])]
    · rfl
  rw [trimUnits, hfront, hback, List.reverse_append, List.reverse_cons, List.reverse_reverse,
    attributeKey, trimEnd, List.append_assoc, List.singleton_append]

/-- The term of a click on a value with a text. -/
def clickTerm (resource : Bool) (key text : JsString) : LogSearchTerm where
  field := none
  resource
  key
  value := text
  quoted := true
  negated := false

theorem serialize_attribute
    {term : LogSearchTerm} (hfield : term.field = none) (hnegated : term.negated = false) :
    serializeLogTerm term =
      attributeKey term.resource term.key ++ jsChar ':' :: serializeValue term := by
  rw [serializeLogTerm_eq, logTermKey_attribute hfield, hnegated]
  rfl

theorem serialize_clickTerm (resource : Bool) (key text : JsString) :
    serializeLogTerm (clickTerm resource key text) = filterText resource key text :=
  serialize_attribute rfl rfl

theorem queryFields_attribute (signal : Signal) :
    ∀ field ∈ queryFields signal, (js "resource.").isPrefixOf field = false ∧
      (js "attributes.").isPrefixOf field = false :=
  fun field hfield => (queryFields_start signal field hfield).2.2

theorem draftTerm_click
    {lib : BrowserLibraries} {value : JsValue} {text : JsString}
    (hvalue : scalarText lib value = some text) (signal : Signal) (resource : Bool)
    (key : JsString) :
    draftTerm (valueToFilterDraft lib (attributeKey resource key) value) (queryFields signal) =
      clickTerm resource (trimEnd key) text := by
  have hnot := attributeKey_notMem (queryFields_attribute signal) resource (trimEnd key)
  obtain ⟨-, hres, -, hslice⟩ := attributeKey_parts resource (trimEnd key)
  have hoperator : valueToFilterDraft lib (attributeKey resource key) value =
      ⟨attributeKey resource key, .is, text⟩ := by
    unfold valueToFilterDraft
    rw [hvalue]
    cases value <;> first | rfl | cases hvalue
  rw [hoperator, draftTerm]
  simp only [trimUnits_attributeKey]
  rw [attributeKey, if_neg hnot, hres, hslice]
  rfl

/-! ### The first token -/

/-- Tokens that are complete stay. -/
theorem foldl_lexStep_tokens (text : JsString) :
    ∀ s : Lexer UInt16, ∃ tokens, (text.foldl lexStep s).tokens = s.tokens ++ tokens := by
  induction text with
  | nil => exact fun s => ⟨[], (List.append_nil _).symm⟩
  | cons c text ih =>
      intro s
      obtain ⟨tokens, htokens⟩ := ih (lexStep s c)
      have hstep : ∃ first, (lexStep s c).tokens = s.tokens ++ first := by
        rw [lexStep_eq]
        split_ifs
        · unfold finishTokens
          split_ifs
          · exact ⟨[], (List.append_nil _).symm⟩
          · exact ⟨[s.current], rfl⟩
        · exact ⟨[], (List.append_nil _).symm⟩
      obtain ⟨first, hfirst⟩ := hstep
      exact ⟨first ++ tokens, by rw [List.foldl_cons, htokens, hfirst, List.append_assoc]⟩

/-- A text is read into the current token, or a space ends it. -/
theorem foldl_lexStep_first (text : JsString) :
    ∀ s : Lexer UInt16, s.current ≠ [] →
      (∃ quoted escaped, text.foldl lexStep s =
        ⟨s.tokens, s.current ++ text, quoted, escaped⟩) ∨
      ∃ read c rest tokens, text = read ++ c :: rest ∧
        (text.foldl lexStep s).tokens = s.tokens ++ (s.current ++ read) :: tokens := by
  induction text with
  | nil => exact fun s _ => Or.inl ⟨s.quoted, s.escaped, by rw [List.foldl_nil, List.append_nil]⟩
  | cons c text ih =>
      intro s hcurrent
      have hempty : s.current.isEmpty = false := by simpa using hcurrent
      rw [List.foldl_cons, lexStep_eq]
      split_ifs with hspace
      · obtain ⟨tokens, htokens⟩ := foldl_lexStep_tokens text ⟨finishTokens s, [], false, false⟩
        refine Or.inr ⟨[], c, text, tokens, rfl, ?_⟩
        rw [htokens, finishTokens, hempty]
        simp
      · rcases ih ⟨s.tokens, s.current ++ [c], (quoteStep s.quoted s.escaped c).1,
          (quoteStep s.quoted s.escaped c).2⟩ (by simp) with
          ⟨quoted, escaped, hread⟩ | ⟨read, d, rest, tokens, rfl, htokens⟩
        · refine Or.inl ⟨quoted, escaped, ?_⟩
          rw [hread, List.append_assoc]
          rfl
        · refine Or.inr ⟨c :: read, d, rest, tokens, rfl, ?_⟩
          rw [htokens, List.append_assoc]
          rfl

/-- The text is read into one token that may go on. -/
def Unbroken (text : JsString) : Prop :=
  ∃ quoted escaped, text.foldl lexStep .start = ⟨[], text, quoted, escaped⟩

/-- What follows an unbroken text belongs to its token, up to a space. -/
theorem Unbroken.searchTokens_append
    {start : JsString} (h : Unbroken start) (hne : start ≠ []) (rest : JsString) :
    searchTokens (start ++ rest) = none ∨
      searchTokens (start ++ rest) = some [start ++ rest] ∨
      ∃ read c behind tokens, rest = read ++ c :: behind ∧
        searchTokens (start ++ rest) = some ((start ++ read) :: tokens) := by
  obtain ⟨quoted, escaped, hstart⟩ := h
  cases hclosed : ((start ++ rest).foldl lexStep .start).quoted with
  | true => exact Or.inl (searchTokens_of_quoted hclosed)
  | false =>
      refine Or.inr ?_
      have htokens := searchTokens_of_closed hclosed
      rw [List.foldl_append, hstart] at htokens
      rcases foldl_lexStep_first rest ⟨[], start, quoted, escaped⟩ hne with
        ⟨quoted', escaped', hread⟩ | ⟨read, c, behind, tokens, hrest, hread⟩
      · refine Or.inl ?_
        rw [htokens, hread, finishTokens]
        simp [hne]
      · refine Or.inr ⟨read, c, behind, ?_⟩
        rw [htokens, finishTokens, hread]
        split_ifs
        · exact ⟨tokens, hrest, rfl⟩
        · exact ⟨tokens ++ [_], hrest, rfl⟩

/-- A space breaks the text, or it is unbroken. -/
theorem unbroken_or_first
    {start : JsString} (hstart : LexToken start) (hne : start ≠ []) (text rest : JsString) :
    Unbroken (start ++ text) ∨
      ∃ read c behind, text = read ++ c :: behind ∧
        (searchTokens (start ++ text ++ rest) = none ∨
          ∃ tokens, searchTokens (start ++ text ++ rest) = some ((start ++ read) :: tokens)) := by
  have hread := hstart .start rfl rfl
  have hcurrent : (⟨[], start, false, false⟩ : Lexer UInt16).current ≠ [] := hne
  rcases foldl_lexStep_first text ⟨[], start, false, false⟩ hcurrent with
    ⟨quoted, escaped, htext⟩ | ⟨read, c, behind, tokens, htext, htokens⟩
  · refine Or.inl ⟨quoted, escaped, ?_⟩
    rw [List.foldl_append, hread]
    exact htext
  · refine Or.inr ⟨read, c, behind, htext, ?_⟩
    cases hclosed : ((start ++ text ++ rest).foldl lexStep .start).quoted with
    | true => exact Or.inl (searchTokens_of_quoted hclosed)
    | false =>
        refine Or.inr ?_
        obtain ⟨more, hmore⟩ := foldl_lexStep_tokens rest
          (text.foldl lexStep ⟨[], start, false, false⟩)
        have hfold : (start ++ text ++ rest).foldl lexStep .start =
            rest.foldl lexStep (text.foldl lexStep ⟨[], start, false, false⟩) := by
          rw [List.foldl_append, List.foldl_append, hread]
          rfl
        rw [searchTokens_of_closed hclosed, hfold, finishTokens, hmore, htokens]
        split_ifs
        · exact ⟨_, rfl⟩
        · exact ⟨_, rfl⟩

/-! ### What is read of a filter -/

variable {fields : List JsString}

theorem parseToken_of_notMem {token : JsString} (h : jsChar ':' ∉ token) :
    parseToken fields token = .text := by
  simp [parseToken, indexOf_of_notMem h]

theorem parseLogSearch_none
    {search : JsString} (h : searchTokens search = none) :
    parseLogSearch search fields = (search, []) :=
  parseLogSearch_fallback (by rw [h]; rfl)

/-- A first token that is free text is kept. -/
theorem parseLogSearch_text
    {search token : JsString} {tokens : List JsString} (hsearch : search ≠ [])
    (htokens : searchTokens search = some (token :: tokens))
    (htoken : parseToken fields token = .text) (hne : token ≠ []) (hand : token ≠ js "AND") :
    (parseLogSearch search fields).1 ≠ [] := by
  rw [parseLogSearch, htokens, Option.bind_some, parseTokens, htoken]
  cases parseTokens fields tokens with
  | none => exact hsearch
  | some p =>
      obtain ⟨terms, text⟩ := p
      cases terms with
      | nil => exact hsearch
      | cons term terms =>
          simp only [Option.map_some, List.isEmpty_cons, Bool.false_eq_true, if_false,
            List.filter_cons, hand, ne_eq, not_false_eq_true, decide_true, if_true]
          rw [intercalate_cons_eq]
          simp [hne]

/-- A first token that is malformed makes the parser fall back. -/
theorem parseLogSearch_malformed
    {search token : JsString} {tokens : List JsString}
    (htokens : searchTokens search = some (token :: tokens))
    (htoken : parseToken fields token = .fallback) :
    parseLogSearch search fields = (search, []) := by
  refine parseLogSearch_fallback ?_
  rw [htokens, Option.bind_some, parseTokens, htoken]

/-- A first token that is a term is the first term, if the parser does not fall
back. -/
theorem parseLogSearch_term
    {search token : JsString} {tokens : List JsString} {term : LogSearchTerm}
    (htokens : searchTokens search = some (token :: tokens))
    (htoken : parseToken fields token = .term term) :
    (parseLogSearch search fields).2 = [] ∨
      ∃ terms, (parseLogSearch search fields).2 = term :: terms := by
  rw [parseLogSearch, htokens, Option.bind_some, parseTokens, htoken]
  cases parseTokens fields tokens with
  | none => exact Or.inl rfl
  | some p => exact Or.inr ⟨p.1, rfl⟩

theorem fieldTerm_attribute (resource : Bool) (key value : JsString) :
    fieldTerm none resource key value false = .fallback ∨
      ∃ value' quoted, fieldTerm none resource key value false =
        .term { field := none, resource, key, value := value', quoted, negated := false } := by
  unfold fieldTerm
  split_ifs
  · exact Or.inl rfl
  · dsimp only
    split
    · exact Or.inl rfl
    · exact Or.inr ⟨_, _, rfl⟩

theorem attributeKey_lex (resource : Bool) :
    LexToken (attributeNamespace resource ++ [jsChar '.']) := by
  refine lexToken_of_keyUnits ?_
  rw [← List.all_eq_true]
  cases resource <;> decide

theorem attributeKey_append (resource : Bool) (key rest : JsString) :
    attributeKey resource key ++ jsChar ':' :: rest =
      (attributeNamespace resource ++ [jsChar '.']) ++ (key ++ [jsChar ':']) ++ rest := by
  simp [attributeKey]

theorem parseToken_attributeKey
    (hfields : ∀ field ∈ fields, (js "resource.").isPrefixOf field = false ∧
      (js "attributes.").isPrefixOf field = false)
    (resource : Bool) {key : JsString} (hcolon : jsChar ':' ∉ key) (value : JsString) :
    parseToken fields (attributeKey resource key ++ jsChar ':' :: value) =
      fieldTerm none resource key value false :=
  parseToken_attribute hfields false resource hcolon value

/-- A space outside quotes in the key makes its start free text. -/
theorem unbroken_or_plain
    (fields : List JsString) (resource : Bool) {key : JsString} (hcolon : jsChar ':' ∉ key) :
    Unbroken (attributeKey resource key ++ [jsChar ':']) ∨
      ∀ rest, (parseLogSearch (attributeKey resource key ++ jsChar ':' :: rest) fields).1 ≠ [] := by
  have hstart : attributeNamespace resource ++ [jsChar '.'] ≠ [] := by simp
  have hkey : attributeKey resource key ++ [jsChar ':'] =
      (attributeNamespace resource ++ [jsChar '.']) ++ (key ++ [jsChar ':']) := by
    simp [attributeKey]
  by_cases hunbroken : Unbroken (attributeKey resource key ++ [jsChar ':'])
  · exact Or.inl hunbroken
  · refine Or.inr fun rest => ?_
    have hsearch : attributeKey resource key ++ jsChar ':' :: rest ≠ [] := by simp
    rw [hkey] at hunbroken
    rcases unbroken_or_first (attributeKey_lex resource) hstart (key ++ [jsChar ':']) rest with
      h | ⟨read, c, behind, hread, htokens⟩
    · exact absurd h hunbroken
    · rw [attributeKey_append] at hsearch ⊢
      rcases htokens with hnone | ⟨tokens, htokens⟩
      · rw [parseLogSearch_none hnone]
        exact hsearch
      · -- The token ends before the colon.
        have hnot : jsChar ':' ∉ attributeNamespace resource ++ [jsChar '.'] ++ read := by
          have hshort : read <+: key := by
            refine List.prefix_of_prefix_length_le ⟨c :: behind, hread.symm⟩
              (List.prefix_append key [jsChar ':']) ?_
            have hlength := congrArg List.length hread
            simp only [List.length_append, List.length_cons, List.length_nil] at hlength
            omega
          rw [List.mem_append, not_or]
          refine ⟨?_, fun hmem => hcolon (hshort.subset hmem)⟩
          cases resource <;> decide
        refine parseLogSearch_text hsearch htokens (parseToken_of_notMem hnot) (by simp) ?_
        intro hand
        have hhead := congrArg List.head? hand
        cases resource <;> exact absurd hhead (by simp [attributeNamespace, js]; decide)

/-- The first term of an unbroken filter has its key. -/
theorem Unbroken.first_term
    (hfields : ∀ field ∈ fields, (js "resource.").isPrefixOf field = false ∧
      (js "attributes.").isPrefixOf field = false)
    {resource : Bool} {key : JsString} (hcolon : jsChar ':' ∉ key)
    (h : Unbroken (attributeKey resource key ++ [jsChar ':'])) (rest : JsString) :
    (parseLogSearch (attributeKey resource key ++ jsChar ':' :: rest) fields).2 = [] ∨
      ∃ value quoted terms,
        (parseLogSearch (attributeKey resource key ++ jsChar ':' :: rest) fields).2 =
          { field := none, resource, key, value, quoted, negated := false } :: terms := by
  have hsearch : attributeKey resource key ++ jsChar ':' :: rest =
      (attributeKey resource key ++ [jsChar ':']) ++ rest := by simp
  have hfirst : ∀ value tokens,
      searchTokens (attributeKey resource key ++ jsChar ':' :: rest) =
        some ((attributeKey resource key ++ jsChar ':' :: value) :: tokens) →
      (parseLogSearch (attributeKey resource key ++ jsChar ':' :: rest) fields).2 = [] ∨
        ∃ value quoted terms,
          (parseLogSearch (attributeKey resource key ++ jsChar ':' :: rest) fields).2 =
            { field := none, resource, key, value, quoted, negated := false } :: terms := by
    intro value tokens htokens
    have htoken := parseToken_attributeKey hfields resource hcolon value
    rcases fieldTerm_attribute resource key value with hfallback | ⟨value', quoted, hterm⟩
    · rw [parseLogSearch_malformed htokens (htoken.trans hfallback)]
      exact Or.inl rfl
    · rcases parseLogSearch_term htokens (htoken.trans hterm) with hnone | ⟨terms, hterms⟩
      · exact Or.inl hnone
      · exact Or.inr ⟨value', quoted, terms, hterms⟩
  rcases h.searchTokens_append (by simp) rest with hnone | hone | ⟨read, c, behind, tokens, -, htokens⟩
  · rw [← hsearch] at hnone
    rw [parseLogSearch_none hnone]
    exact Or.inl rfl
  · rw [← hsearch] at hone
    exact hfirst rest [] hone
  · rw [← hsearch, List.append_assoc, List.singleton_append] at htokens
    exact hfirst read tokens htokens

/-- A filter that is read without free text is one token. -/
theorem Unbroken.filterable_token
    (hfields : ∀ field ∈ fields, (js "resource.").isPrefixOf field = false ∧
      (js "attributes.").isPrefixOf field = false)
    {resource : Bool} {key text : JsString} (hcolon : jsChar ':' ∉ key)
    (h : Unbroken (attributeKey resource key ++ [jsChar ':']))
    (hplain : (parseLogSearch (filterText resource key text) fields).1 = []) :
    key ≠ [] ∧
      searchTokens (filterText resource key text) = some [filterText resource key text] := by
  have hne : filterText resource key text ≠ [] := by simp [filterText]
  have hsearch : filterText resource key text =
      (attributeKey resource key ++ [jsChar ':']) ++ quoteString text := by simp [filterText]
  have hmalformed : ∀ value tokens,
      searchTokens (filterText resource key text) =
        some ((attributeKey resource key ++ jsChar ':' :: value) :: tokens) →
      fieldTerm none resource key value false = .fallback → False := by
    intro value tokens htokens hfallback
    have htoken := parseToken_attributeKey hfields resource hcolon value
    rw [parseLogSearch_malformed htokens (htoken.trans hfallback)] at hplain
    exact hne hplain
  rcases h.searchTokens_append (by simp) (quoteString text) with
    hnone | hone | ⟨read, c, behind, tokens, hread, htokens⟩
  · rw [← hsearch] at hnone
    rw [parseLogSearch_none hnone] at hplain
    exact absurd hplain hne
  · rw [← hsearch] at hone
    refine ⟨?_, hone⟩
    rintro rfl
    exact hmalformed (quoteString text) [] hone rfl
  · rw [← hsearch, List.append_assoc, List.singleton_append] at htokens
    refine absurd (hmalformed read tokens htokens ?_) id
    have hjson : jsonParse read = none := by
      rw [jsonParse, stringItems_of_part hread]
      rfl
    cases read with
    | nil => simp [fieldTerm]
    | cons u read =>
        have hquote : u = jsChar '"' := by
          rw [quoteString, List.cons_append] at hread
          exact (List.cons.inj hread).1.symm
        subst hquote
        unfold fieldTerm
        have hopen : (js "\"").isPrefixOf (jsChar '"' :: read) = true := rfl
        have hwild : (js "~\"").isPrefixOf (jsChar '"' :: read) = false := rfl
        simp [hopen, hwild, hjson]

/-! ### What a query selects -/

section Selecting

variable {browser : BrowserLibraries} {resource : Bool} {key text : JsString}

theorem ownValue_single (key key' : JsString) (value : JsValue) :
    ownValue [(key, value)] key' = if key = key' then value else .undefined := by
  by_cases h : key = key' <;> simp [ownValue, h]

theorem not_hasText_nil : ¬ HasText browser [] key text := by
  rintro ⟨s, hs, -⟩
  cases hs

theorem hasText_single {value : JsValue} (hvalue : scalarText browser value = some text) :
    HasText browser [(key, value)] key text :=
  ⟨text, by rw [ownValue_single, if_pos rfl, hvalue], rfl⟩

/-- A value matches the term of a click when it has the text. -/
theorem createTermMatcher_clickTerm (attrs : JsRecord) :
    createTermMatcher browser (clickTerm resource key text) false (ownValue attrs key) = true ↔
      HasText browser attrs key text := by
  have hatoms : unitAtoms (clickTerm resource key text) = text.map Atom.lit := by
    simp [unitAtoms, clickTerm]
  have hmatches : createTermMatcher browser (clickTerm resource key text) false
        (ownValue attrs key) =
      (scalarText browser (ownValue attrs key)).any
        (matchAtoms (sameFold browser.foldUnit) (text.map Atom.lit)) := by
    have hregex : ∀ s, regexTest browser (newRegExp (regexSource (clickTerm resource key text))) s =
        matchAtoms (sameFold browser.foldUnit) (text.map Atom.lit) s := by
      intro s
      rw [newRegExp_source, hatoms]
      rfl
    unfold createTermMatcher termMatches
    simp only [hregex]
    cases ownValue attrs key <;> rfl
  rw [hmatches, HasText]
  cases scalarText browser (ownValue attrs key) with
  | none => simp
  | some s =>
      simp only [Option.any_some, matchAtoms_lits, Option.some.injEq, exists_eq_left']
      exact eq_comm

/-- A term of another key does not match what has the value only. -/
theorem createTermMatcher_other
    (browser : BrowserLibraries) {term : LogSearchTerm} (hnegated : term.negated = false) (hkey : term.key ≠ key)
    (value : JsValue) (numericField : Bool) :
    createTermMatcher browser term numericField (ownValue [(key, value)] term.key) = false := by
  rw [createTermMatcher, hnegated, ownValue_single, if_neg (Ne.symm hkey)]
  rfl

theorem selectsLogs_of_parse
    (hlower : browser.toLowerCase [] = []) {search : JsString}
    (h : parseLogSearch search logFieldKeys = ([], [clickTerm resource key text])) :
    SelectsLogs browser resource key text search := by
  intro log
  have hmatch : createLogSearchMatcher browser search log =
      createTermMatcher browser (clickTerm resource key text) false
        (ownValue (if resource then log.resource else log.attributes) key) := by
    rw [createLogSearchMatcher, h]
    simp only [hlower, List.isEmpty_nil, Bool.true_or, Bool.true_and, logTermsMatch,
      List.all_cons, List.all_nil, Bool.and_true]
    rfl
  rw [hmatch]
  exact createTermMatcher_clickTerm _

/-- Without terms a log with the query as its body is selected. -/
theorem not_selectsLogs_of_terms {search : JsString}
    (h : (parseLogSearch search logFieldKeys).2 = []) :
    ¬ SelectsLogs browser resource key text search := by
  intro hselects
  have hmatch : createLogSearchMatcher browser search
      ⟨[], [], [], [], 0, (parseLogSearch search logFieldKeys).1, [], []⟩ = true := by
    rw [createLogSearchMatcher]
    simp [h, textIncludes, logTermsMatch]
  have htext := (hselects _).mp hmatch
  simp only [ite_self] at htext
  exact not_hasText_nil htext

/-- With a term of another key, what has the value only is not selected. -/
theorem not_selectsLogs_of_key
    {value : JsValue} (hvalue : scalarText browser value = some text) {search : JsString}
    {term : LogSearchTerm} (hmem : term ∈ (parseLogSearch search logFieldKeys).2)
    (hfield : term.field = none) (hresource : term.resource = resource)
    (hnegated : term.negated = false) (hkey : term.key ≠ key) :
    ¬ SelectsLogs browser resource key text search := by
  intro hselects
  have hmatch := (hselects ⟨[], [], [], [], 0, [],
    if resource then [] else [(key, value)], if resource then [(key, value)] else []⟩).mpr (by
      cases resource <;> exact hasText_single hvalue)
  rw [createLogSearchMatcher, Bool.and_eq_true] at hmatch
  have hterm := List.all_eq_true.mp hmatch.2 term hmem
  rw [logTermValue, hfield, hresource] at hterm
  have hother := createTermMatcher_other browser hnegated hkey value false
  cases resource <;> exact absurd (hother.symm.trans hterm) Bool.false_ne_true

theorem selectsTraces_of_parse
    (hlower : browser.toLowerCase [] = []) {search : JsString}
    (h : parseLogSearch search traceFields = ([], [clickTerm resource key text])) :
    SelectsTraces browser resource key text search := by
  intro trace hspans
  have hempty : trace.spans.isEmpty = false := by simpa using hspans
  have hmatch : createTraceSearchMatcher browser search trace =
      trace.spans.any fun span =>
        createTermMatcher browser (clickTerm resource key text) false
          (ownValue ((if resource then span.resource else span.attributes).getD []) key) := by
    rw [createTraceSearchMatcher, h]
    simp only [hlower, hempty, List.isEmpty_nil, List.isEmpty_cons, Bool.false_and,
      Bool.false_eq_true, if_false]
    refine congrArg trace.spans.any (funext fun span => ?_)
    simp only [spanMatches, spanTextMatches, List.isEmpty_nil, Bool.true_or, Bool.true_and,
      List.all_cons, List.all_nil, Bool.and_true]
    rfl
  rw [hmatch, List.any_eq_true]
  exact exists_congr fun span => and_congr_right fun _ => createTermMatcher_clickTerm _

/-- Without terms a trace with the query as its id is selected. -/
theorem not_selectsTraces_of_terms {search : JsString}
    (h : (parseLogSearch search traceFields).2 = []) :
    ¬ SelectsTraces browser resource key text search := by
  intro hselects
  have hmatch : createTraceSearchMatcher browser search
      ⟨(parseLogSearch search traceFields).1, [], none, [{}], none⟩ = true := by
    rw [createTraceSearchMatcher]
    simp [h, textIncludes]
  obtain ⟨span, hspan, htext⟩ := (hselects _ (List.cons_ne_nil _ _)).mp hmatch
  obtain rfl := List.mem_singleton.mp hspan
  simp only [ite_self, Option.getD_none] at htext
  exact not_hasText_nil htext

/-- With a term of another key, a span that has the value only is not selected. -/
theorem not_selectsTraces_of_key
    {value : JsValue} (hvalue : scalarText browser value = some text) {search : JsString}
    {term : LogSearchTerm} (hmem : term ∈ (parseLogSearch search traceFields).2)
    (hfield : term.field = none) (hresource : term.resource = resource)
    (hnegated : term.negated = false) (hkey : term.key ≠ key) :
    ¬ SelectsTraces browser resource key text search := by
  intro hselects
  let span : SpanData :=
    { attributes := if resource then none else some [(key, value)]
      resource := if resource then some [(key, value)] else none }
  have hmatch := (hselects ⟨[], [], none, [span], none⟩ (List.cons_ne_nil _ _)).mpr
    ⟨span, List.mem_singleton_self span, by cases resource <;> exact hasText_single hvalue⟩
  have hterms : (parseLogSearch search traceFields).2.isEmpty = false := by
    simpa using List.ne_nil_of_mem hmem
  rw [createTraceSearchMatcher] at hmatch
  simp only [hterms, List.isEmpty_cons, Bool.false_and, Bool.false_eq_true, if_false,
    List.any_cons, List.any_nil, Bool.or_false, spanMatches, Bool.and_eq_true] at hmatch
  have hterm := List.all_eq_true.mp hmatch.2 term hmem
  rw [traceTermValue, hfield, hresource] at hterm
  have hother := createTermMatcher_other browser hnegated hkey value false
  cases resource <;> exact absurd (hother.symm.trans hterm) Bool.false_ne_true

end Selecting

/-! ### The query behind a click -/

theorem toWellFormed_filterText (resource : Bool) (key text : JsString) :
    toWellFormed (filterText resource key text) = filterText resource (toWellFormed key) text := by
  have hstart : WellFormed (attributeNamespace resource ++ [jsChar '.']) := by
    cases resource <;> decide
  have hcolon : isSurrogate (jsChar ':') = false := by decide
  have hsplit : ∀ k, filterText resource k text =
      (attributeNamespace resource ++ [jsChar '.']) ++ (k ++ jsChar ':' :: quoteString text) := by
    intro k
    simp [filterText, attributeKey]
  rw [hsplit, hsplit, toWellFormed_append hstart, toWellFormed_append_cons hcolon,
    (wellFormed_quoteString text).eq]

/-- The filter is kept when it is read as one term, and dropped otherwise. -/
theorem urlQuery_filterBy
    {lib : RouteLibraries} (hlib : lib.RoundTrips) {browser : BrowserLibraries} {signal : Signal}
    {previous : SignalSearch} (hprevious : readFilterQuery previous (queryFields signal) = ⟨[], []⟩)
    {value : JsValue} {text : JsString} (hvalue : scalarText browser value = some text)
    (resource : Bool) (key id : JsString) :
    (urlQuery lib signal
          (filterBy lib browser signal previous (attributeKey resource key) value id) = [] ∧
        ∀ term, parseLogSearch (filterText resource (toWellFormed (trimEnd key)) text)
          (queryFields signal) ≠ ([], [term])) ∨
      ∃ term, parseLogSearch (filterText resource (toWellFormed (trimEnd key)) text)
          (queryFields signal) = ([], [term]) ∧
        urlQuery lib signal
            (filterBy lib browser signal previous (attributeKey resource key) value id) =
          serializeLogTerm term := by
  have hsearch := validateSearch_stringifySearch (filterQuerySearch
    ⟨[], [⟨clickTerm resource (trimEnd key) text, id, true⟩]⟩ previous) hlib
  have hquery : urlQuery lib signal
        (filterBy lib browser signal previous (attributeKey resource key) value id) =
      (LogQueryState.mk [] (FilterReader.read (queryFields signal) true ⟨[], fun _ => 0⟩
        (filterText resource (toWellFormed (trimEnd key)) text)).filters).composedSearch := by
    rw [urlQuery, filterBy, hprevious, draftTerm_click hvalue, routeSearch]
    have hadd : addQueryFilter ⟨[], []⟩ (clickTerm resource (trimEnd key) text) id =
        ⟨[], [⟨clickTerm resource (trimEnd key) text, id, true⟩]⟩ := rfl
    rw [hadd, hsearch, ← toWellFormed_filterText, ← serialize_clickTerm]
    rfl
  rw [hquery, FilterReader.read]
  obtain ⟨plain, terms⟩ := parseLogSearch (filterText resource (toWellFormed (trimEnd key)) text)
    (queryFields signal)
  cases plain with
  | cons u plain => exact Or.inl ⟨rfl, by simp⟩
  | nil =>
      cases terms with
      | nil => exact Or.inl ⟨rfl, by simp⟩
      | cons term more =>
          cases more with
          | nil =>
              refine Or.inr ⟨term, rfl, ?_⟩
              simp [LogQueryState.composedSearch, LogQueryState.enabledTerms,
                serializeLogTerm_ne_nil, List.intercalate]
          | cons _ _ => exact Or.inl ⟨rfl, by simp⟩

/-- What is written for a key, cut at its first colon. -/
theorem filterText_cut (resource : Bool) (key text : JsString) :
    ∃ start rest, jsChar ':' ∉ start ∧
      filterText resource (toWellFormed (trimEnd key)) text =
        attributeKey resource start ++ jsChar ':' :: rest ∧
      (start = key → jsChar ':' ∉ key ∧ trimEnd key = key ∧ WellFormed key ∧
        rest = quoteString text) := by
  have htrim := (trimEnd_start key).length_le
  have hlength := length_toWellFormed (trimEnd key)
  rcases forall_or_first (fun u => decide (u = jsChar ':')) (toWellFormed (trimEnd key)) with
    hall | ⟨start, u, rest, hcut, hu, hstart⟩
  · have hcolon : jsChar ':' ∉ toWellFormed (trimEnd key) :=
      fun hmem => absurd rfl (of_decide_eq_false (hall _ hmem))
    refine ⟨toWellFormed (trimEnd key), quoteString text, hcolon, rfl, ?_⟩
    intro hkey
    have heq : trimEnd key = key := by
      refine (trimEnd_start key).eq_of_length ?_
      rw [← hlength, hkey]
    rw [heq] at hkey hcolon
    exact ⟨by rwa [hkey] at hcolon, heq, hkey, rfl⟩
  · obtain rfl : u = jsChar ':' := of_decide_eq_true hu
    have hcolon : jsChar ':' ∉ start :=
      fun hmem => absurd rfl (of_decide_eq_false (hstart _ hmem))
    refine ⟨start, rest ++ jsChar ':' :: quoteString text, hcolon, ?_, ?_⟩
    · rw [filterText, hcut]
      simp [attributeKey]
    · rintro rfl
      have := congrArg List.length hcut
      simp only [List.length_append, List.length_cons] at this
      omega

/-- A query selects the records with the value if and only if the key is
filterable, for any notion of selecting that the terms decide. -/
theorem selects_urlQuery_iff
    {lib : RouteLibraries} (hlib : lib.RoundTrips) {browser : BrowserLibraries} {signal : Signal}
    {previous : SignalSearch} (hprevious : readFilterQuery previous (queryFields signal) = ⟨[], []⟩)
    {value : JsValue} {text : JsString} (hvalue : scalarText browser value = some text)
    {resource : Bool} {key : JsString} (id : JsString) {Selects : JsString → Prop}
    (hparse : ∀ search, parseLogSearch search (queryFields signal) =
      ([], [clickTerm resource key text]) → Selects search)
    (hterms : ∀ search, (parseLogSearch search (queryFields signal)).2 = [] → ¬ Selects search)
    (hother : ∀ search term, term ∈ (parseLogSearch search (queryFields signal)).2 →
      term.field = none → term.resource = resource → term.negated = false → term.key ≠ key →
      ¬ Selects search) :
    Selects (urlQuery lib signal
        (filterBy lib browser signal previous (attributeKey resource key) value id)) ↔
      Filterable resource key text := by
  have hfields := queryFields_attribute signal
  have hread := urlQuery_filterBy hlib hprevious hvalue resource key id
  constructor
  · intro hselects
    obtain ⟨start, rest, hcolon, htext, hkey⟩ := filterText_cut resource key text
    rcases hread with ⟨hnone, -⟩ | ⟨term, hterm, hquery⟩
    · rw [hnone] at hselects
      exact absurd hselects (hterms [] rfl)
    · rw [hquery] at hselects
      rw [htext] at hterm
      -- The first token holds the key up to its first colon, before and behind the URL.
      have hunbroken : Unbroken (attributeKey resource start ++ [jsChar ':']) := by
        rcases unbroken_or_plain (queryFields signal) resource hcolon with h | h
        · exact h
        · exact absurd (by rw [hterm]) (h rest)
      have hfirst := hunbroken.first_term hfields hcolon rest
      rw [hterm] at hfirst
      rcases hfirst with h | ⟨value', quoted, terms, h⟩
      · cases h
      · obtain rfl := (List.cons.inj h).1
        have hstart : start = key := by
          by_contra hne
          rw [serialize_attribute rfl rfl] at hselects
          rcases hunbroken.first_term hfields hcolon _ with hnone | ⟨v, q, terms', hmore⟩
          · exact hterms _ hnone hselects
          · have hmem := List.mem_cons_self (a := (⟨none, resource, start, v, q, false⟩ :
              LogSearchTerm)) (l := terms')
            rw [← hmore] at hmem
            exact hother _ _ hmem rfl rfl rfl hne hselects
        obtain ⟨hnoColon, htrim, hwell, hrest⟩ := hkey hstart
        subst hstart hrest
        have hplain : (parseLogSearch (filterText resource start text)
            (queryFields signal)).1 = [] := by
          rw [filterText, hterm]
        obtain ⟨hne, htoken⟩ := hunbroken.filterable_token hfields hcolon hplain
        exact ⟨hne, hnoColon, htrim, hwell, htoken⟩
  · intro h
    have hterm : parseLogSearch (filterText resource key text) (queryFields signal) =
        ([], [clickTerm resource key text]) := by
      have hquoted : (clickTerm resource key text).quoted = false →
          (clickTerm resource key text).value ≠ [] := fun hfalse => nomatch hfalse
      have hvalueTerm := fieldTerm_serializeValue hquoted none resource false h.ne_nil
      rw [parseLogSearch, h.token, Option.bind_some, parseTokens, filterText,
        parseToken_attributeKey hfields resource h.colon]
      rw [show serializeValue (clickTerm resource key text) = quoteString text from rfl]
        at hvalueTerm
      rw [hvalueTerm]
      rfl
    have hlone : toWellFormed (trimEnd key) = key := by rw [h.trimmed, h.wellFormed.eq]
    rw [hlone] at hread
    rcases hread with ⟨-, hnone⟩ | ⟨term, hread, hquery⟩
    · exact absurd hterm (hnone _)
    · obtain rfl : clickTerm resource key text = term := by
        have := congrArg Prod.snd (hterm.symm.trans hread)
        exact (List.cons.inj this).1
      rw [hquery, serialize_clickTerm]
      exact hparse _ hterm

/-- The filter of a click selects the records with the value, in the logs and in
the traces, if and only if its key is filterable. -/
theorem filterBy_selects_iff
    {lib : RouteLibraries} (hlib : lib.RoundTrips) {browser : BrowserLibraries}
    (hlower : browser.toLowerCase [] = []) {previous : SignalSearch}
    (hprevious : ∀ signal, readFilterQuery previous (queryFields signal) = ⟨[], []⟩)
    {value : JsValue} {text : JsString} (hvalue : scalarText browser value = some text)
    (resource : Bool) (key id : JsString) :
    (SelectsLogs browser resource key text (urlQuery lib .logs
        (filterBy lib browser .logs previous (attributeKey resource key) value id)) ↔
      Filterable resource key text) ∧
    (SelectsTraces browser resource key text (urlQuery lib .traces
        (filterBy lib browser .traces previous (attributeKey resource key) value id)) ↔
      Filterable resource key text) :=
  ⟨selects_urlQuery_iff hlib (hprevious .logs) hvalue id
      (fun _ h => selectsLogs_of_parse hlower h) (fun _ h => not_selectsLogs_of_terms h)
      (fun _ _ hmem hfield hresource hnegated hkey =>
        not_selectsLogs_of_key hvalue hmem hfield hresource hnegated hkey),
    selects_urlQuery_iff hlib (hprevious .traces) hvalue id
      (fun _ h => selectsTraces_of_parse hlower h) (fun _ h => not_selectsTraces_of_terms h)
      (fun _ _ hmem hfield hresource hnegated hkey =>
        not_selectsTraces_of_key hvalue hmem hfield hresource hnegated hkey)⟩

/-- No query yet. -/
def emptySearch : SignalSearch := ⟨none, none, none, none, none, none⟩

theorem emptySearch_reads (signal : Signal) :
    readFilterQuery emptySearch (queryFields signal) = ⟨[], []⟩ := by
  cases signal <;> rfl

/-- Quotes, a backslash, spaces and a star. -/
def sampleText : JsString := js "say \"a b\" \\ *"

theorem filterBy_selects_sample :
    SelectsLogs sampleBrowser false (js "http.route") sampleText (urlQuery sampleRoute .logs
        (filterBy sampleRoute sampleBrowser .logs emptySearch
          (attributeKey false (js "http.route")) (.string sampleText) (js "1"))) ∧
      SelectsTraces sampleBrowser false (js "http.route") sampleText (urlQuery sampleRoute .traces
        (filterBy sampleRoute sampleBrowser .traces emptySearch
          (attributeKey false (js "http.route")) (.string sampleText) (js "1"))) := by
  have hkey : Filterable false (js "http.route") sampleText :=
    ⟨by decide, by decide, by decide, by decide, by decide⟩
  have hlower : sampleBrowser.toLowerCase [] = [] := rfl
  have hvalue : scalarText sampleBrowser (.string sampleText) = some sampleText := rfl
  have hselects := filterBy_selects_iff sampleRoute_roundTrips hlower emptySearch_reads hvalue
    false (js "http.route") (js "1")
  exact ⟨hselects.1.mpr hkey, hselects.2.mpr hkey⟩

/-- A key with a space is read as two tokens, and its filter is dropped. -/
theorem filterBy_keyWithSpace :
    ¬ ∀ (lib : RouteLibraries) (browser : BrowserLibraries) (previous : SignalSearch)
        (value : JsValue) (text : JsString) (resource : Bool) (key id : JsString),
        lib.RoundTrips → browser.toLowerCase [] = [] →
        (∀ signal, readFilterQuery previous (queryFields signal) = ⟨[], []⟩) →
        scalarText browser value = some text →
        SelectsLogs browser resource key text (urlQuery lib .logs
          (filterBy lib browser .logs previous (attributeKey resource key) value id)) := by
  intro hclaim
  have hselects := hclaim sampleRoute sampleBrowser emptySearch (.string (js "Alice")) (js "Alice")
    false (js "user name") (js "1") sampleRoute_roundTrips rfl emptySearch_reads rfl
  have hquery : urlQuery sampleRoute .logs (filterBy sampleRoute sampleBrowser .logs emptySearch
      (attributeKey false (js "user name")) (.string (js "Alice")) (js "1")) = [] := by
    decide +kernel
  rw [hquery] at hselects
  exact not_selectsLogs_of_terms rfl hselects

end Frontend
end Otelop
