import Mathlib.Tactic
import Otelop.Frontend.LogFilter
import Otelop.Frontend.MatcherAgreement
import Otelop.Lib.Pieces

/-!
# Composing the search text with the filters

`useSignalQuery` of `frontend/src/hooks/use-signal-route.ts` joins the search text
and the enabled filters, which it writes as tokens, with spaces.  The parser falls
back to free text as a whole on an open quote or a malformed token.

**Results.**
* `searchTokens_composedSearch`: where no quote is left open, the tokens of the
  text are followed by the filters.
* `endsQuoted_searchWords`: whether a quote is left open depends on the words alone.
* `composes_iff`: when the query is parsed as the text and the filters.
-/

namespace Otelop
namespace Frontend

open Lib Storage

/-- `LogFilter` -/
structure LogFilter where
  term : LogSearchTerm
  id : JsString
  enabled : Bool
deriving DecidableEq

structure LogQueryState where
  text : JsString
  filters : List LogFilter
deriving DecidableEq

namespace LogQueryState

/-- The terms of the filters that are not paused. -/
def enabledTerms (state : LogQueryState) : List LogSearchTerm :=
  (state.filters.filter fun filter => filter.enabled).map LogFilter.term

/-- The `search` of `useSignalQuery`. -/
def composedSearch (state : LogQueryState) : JsString :=
  List.intercalate (js " ")
    ((state.text :: state.enabledTerms.map serializeLogTerm).filter fun part =>
      !part.isEmpty)

end LogQueryState

/-- The words of a free text, apart from `AND`. -/
def searchWords (s : JsString) : List JsString :=
  (pieces isSearchSpace s).filter fun word => word ≠ js "AND"

/-- The query is parsed as the text is, with the enabled filters behind. -/
structure Composes (fields : List JsString) (state : LogQueryState) : Prop where
  terms : (parseLogSearch state.composedSearch fields).2 =
    (parseLogSearch state.text fields).2 ++ state.enabledTerms
  words : searchWords (parseLogSearch state.composedSearch fields).1 =
    searchWords (parseLogSearch state.text fields).1

/-- Every quote of the text is closed, and every token is free text or a term. -/
def WellFormedText (fields : List JsString) (text : JsString) : Prop :=
  ∃ tokens, searchTokens text = some tokens ∧
    ∀ token ∈ tokens, parseToken fields token ≠ .fallback

/-- A term of an accepted draft. -/
def AcceptedTerm (lib : BrowserLibraries) (signal : Signal) (term : LogSearchTerm) : Prop :=
  ∃ draft numericFields,
    filterDraftError lib draft (queryFields signal) numericFields = none ∧
      term = draftTerm draft (queryFields signal)

theorem AcceptedTerm.serializable
    {lib : BrowserLibraries} {signal : Signal} {term : LogSearchTerm}
    (h : AcceptedTerm lib signal term) : Serializable (queryFields signal) term := by
  obtain ⟨draft, numericFields, haccepted, rfl⟩ := h
  exact draftTerm_serializable haccepted

/-! ### The tokens -/

/-- The tokens when the text ends here. -/
def finishTokens (s : Lexer UInt16) : List JsString :=
  if s.current.isEmpty then s.tokens else s.tokens ++ [s.current]

theorem searchTokens_of_quoted {search : JsString}
    (h : (search.foldl lexStep .start).quoted = true) : searchTokens search = none := by
  simp [searchTokens, h]

theorem searchTokens_of_closed {search : JsString}
    (h : (search.foldl lexStep .start).quoted = false) :
    searchTokens search = some (finishTokens (search.foldl lexStep .start)) := by
  simp [searchTokens, h, finishTokens]

/-- Whether a quote is open behind a unit, and whether the next one is escaped. -/
def quoteStep (quoted escaped : Bool) (c : UInt16) : Bool × Bool :=
  if escaped then (quoted, false)
  else if quoted && c = jsChar '\\' then (true, true)
  else (if c = jsChar '"' then !quoted else quoted, false)

/-- A space outside quotes ends the current token, and other units belong to it. -/
theorem lexStep_eq (s : Lexer UInt16) (c : UInt16) :
    lexStep s c =
      if !s.quoted && !s.escaped && isSearchSpace c then ⟨finishTokens s, [], false, false⟩
      else
        ⟨s.tokens, s.current ++ [c], (quoteStep s.quoted s.escaped c).1,
          (quoteStep s.quoted s.escaped c).2⟩ := by
  have hquote : isSearchSpace (jsChar '"') = false := by decide
  have hslash : jsChar '"' ≠ jsChar '\\' := by decide
  obtain ⟨tokens, current, quoted, escaped⟩ := s
  cases escaped with
  | true => simp [lexStep, quoteStep]
  | false =>
      by_cases hc : c = jsChar '"'
      · subst hc
        cases quoted <;> simp [lexStep, quoteStep, hquote, hslash]
      · cases quoted with
        | false => simp [lexStep, quoteStep, finishTokens, hc]
        | true =>
            by_cases hslash : c = jsChar '\\' <;> simp [lexStep, quoteStep, hc, hslash]

/-- A character is escaped inside quotes only. -/
theorem lexStep_escaped
    {s : Lexer UInt16} (h : s.escaped = true → s.quoted = true) (c : UInt16) :
    (lexStep s c).escaped = true → (lexStep s c).quoted = true := by
  rw [lexStep_eq]
  split_ifs with hspace
  · exact id
  · unfold quoteStep
    split_ifs with hescaped hslash
    · exact fun _ => h hescaped
    · exact fun _ => rfl
    · exact fun hfalse => nomatch hfalse
    · exact fun hfalse => nomatch hfalse

theorem foldl_lexStep_escaped (search : JsString) :
    ∀ s : Lexer UInt16, (s.escaped = true → s.quoted = true) →
      (search.foldl lexStep s).escaped = true → (search.foldl lexStep s).quoted = true := by
  induction search with
  | nil => exact fun s h => h
  | cons c search ih => exact fun s h => ih (lexStep s c) (lexStep_escaped h c)

theorem escaped_of_closed {search : JsString}
    (h : (search.foldl lexStep .start).quoted = false) :
    (search.foldl lexStep .start).escaped = false := by
  have himp := foldl_lexStep_escaped search .start (by simp [Lexer.start])
  rw [h] at himp
  simpa using himp

/-- Outside quotes a space ends the current token. -/
theorem lexStep_space
    {s : Lexer UInt16} (hquoted : s.quoted = false) (hescaped : s.escaped = false) :
    lexStep s (jsChar ' ') = ⟨finishTokens s, [], false, false⟩ := by
  have hspace : isSearchSpace (jsChar ' ') = true := by decide
  rw [lexStep_eq, hquoted, hescaped, hspace]
  rfl

/-- Parts that are tokens, each behind a space. -/
theorem foldl_lexStep_parts
    {parts : List JsString} (h : ∀ part ∈ parts, LexToken part ∧ part ≠ []) :
    ∀ s : Lexer UInt16, s.quoted = false → s.escaped = false →
      ((parts.flatMap fun part => jsChar ' ' :: part).foldl lexStep s).quoted = false ∧
        finishTokens ((parts.flatMap fun part => jsChar ' ' :: part).foldl lexStep s) =
          finishTokens s ++ parts := by
  induction parts with
  | nil =>
      intro s hquoted _
      exact ⟨hquoted, (List.append_nil _).symm⟩
  | cons part parts ih =>
      intro s hquoted hescaped
      obtain ⟨htoken, hne⟩ := h part List.mem_cons_self
      have hstep : (jsChar ' ' :: part).foldl lexStep s =
          ⟨finishTokens s, part, false, false⟩ := by
        rw [List.foldl_cons, lexStep_space hquoted hescaped, htoken _ rfl rfl]
        rfl
      obtain ⟨hclosed, htokens⟩ := ih (fun part' hpart' => h part' (List.mem_cons_of_mem part hpart'))
        ⟨finishTokens s, part, false, false⟩ rfl rfl
      rw [List.flatMap_cons, List.foldl_append, hstep]
      refine ⟨hclosed, ?_⟩
      rw [htokens]
      simp [finishTokens, hne]

theorem serializeLogTerm_ne_nil (term : LogSearchTerm) : serializeLogTerm term ≠ [] := by
  rw [serializeLogTerm_eq]
  simp

theorem intercalate_cons_eq (part : JsString) (parts : List JsString) :
    List.intercalate (js " ") (part :: parts) =
      part ++ parts.flatMap fun part => jsChar ' ' :: part := by
  induction parts generalizing part with
  | nil => simp [List.intercalate]
  | cons next parts ih =>
      rw [List.intercalate_cons_cons, ih next, List.append_assoc, List.flatMap_cons]
      rfl

/-- The parser sees the text, and every filter behind a space. -/
theorem foldl_composedSearch (state : LogQueryState) :
    state.composedSearch.foldl lexStep .start =
      ((state.enabledTerms.map serializeLogTerm).flatMap fun part => jsChar ' ' :: part).foldl
        lexStep (state.text.foldl lexStep .start) := by
  have hparts : ((state.enabledTerms.map serializeLogTerm).filter fun part => !part.isEmpty) =
      state.enabledTerms.map serializeLogTerm := by
    rw [List.filter_eq_self]
    intro part hpart
    obtain ⟨term, -, rfl⟩ := List.mem_map.mp hpart
    simpa using serializeLogTerm_ne_nil term
  rw [LogQueryState.composedSearch, List.filter_cons, hparts]
  cases htext : state.text with
  | cons u text =>
      rw [if_pos (by rfl), intercalate_cons_eq, List.foldl_append]
  | nil =>
      rw [if_neg (by simp)]
      cases state.enabledTerms.map serializeLogTerm with
      | nil => rfl
      | cons part parts =>
          have hstart : lexStep (Lexer.start : Lexer UInt16) (jsChar ' ') = .start := by decide
          rw [intercalate_cons_eq, List.flatMap_cons, List.cons_append, List.foldl_nil,
            List.foldl_cons, hstart]

/-- The tokens of the text are followed by the filters. -/
theorem searchTokens_composedSearch
    {fields : List JsString} {state : LogQueryState}
    (h : ∀ term ∈ state.enabledTerms, Serializable fields term)
    {tokens : List JsString} (htokens : searchTokens state.text = some tokens) :
    searchTokens state.composedSearch =
      some (tokens ++ state.enabledTerms.map serializeLogTerm) := by
  have hclosed : (state.text.foldl lexStep .start).quoted = false := by
    by_contra hopen
    rw [Bool.not_eq_false] at hopen
    rw [searchTokens_of_quoted hopen] at htokens
    cases htokens
  rw [searchTokens_of_closed hclosed] at htokens
  have hparts : ∀ part ∈ state.enabledTerms.map serializeLogTerm,
      LexToken part ∧ part ≠ [] := by
    intro part hpart
    obtain ⟨term, hterm, rfl⟩ := List.mem_map.mp hpart
    exact ⟨lexToken_serializeLogTerm (h term hterm), serializeLogTerm_ne_nil term⟩
  obtain ⟨hclosed', htokens'⟩ :=
    foldl_lexStep_parts hparts _ hclosed (escaped_of_closed hclosed)
  rw [← foldl_composedSearch] at hclosed' htokens'
  rw [searchTokens_of_closed hclosed', htokens', Option.some.inj htokens]

/-! ### What the tokens are parsed as -/

variable {fields : List JsString}

theorem parseTokens_append
    {x y : List JsString} {p q : List LogSearchTerm × List JsString}
    (hx : parseTokens fields x = some p) (hy : parseTokens fields y = some q) :
    parseTokens fields (x ++ y) = some (p.1 ++ q.1, p.2 ++ q.2) := by
  induction x generalizing p with
  | nil =>
      obtain rfl := Option.some.inj hx
      exact hy
  | cons token x ih =>
      rw [parseTokens] at hx
      rw [List.cons_append, parseTokens]
      cases htoken : parseToken fields token with
      | fallback =>
          rw [htoken] at hx
          cases hx
      | text =>
          rw [htoken] at hx
          obtain ⟨rest, hrest, rfl⟩ := Option.map_eq_some_iff.mp hx
          simp only [ih hrest, Option.map_some, List.cons_append]
      | term term =>
          rw [htoken] at hx
          obtain ⟨rest, hrest, rfl⟩ := Option.map_eq_some_iff.mp hx
          simp only [ih hrest, Option.map_some, List.cons_append]

theorem parseTokens_append_none
    {x : List JsString} (h : parseTokens fields x = none) (y : List JsString) :
    parseTokens fields (x ++ y) = none := by
  induction x with
  | nil => cases h
  | cons token x ih =>
      rw [parseTokens] at h
      rw [List.cons_append, parseTokens]
      cases htoken : parseToken fields token with
      | fallback => rfl
      | text =>
          rw [htoken] at h
          simp only [ih (Option.map_eq_none_iff.mp h), Option.map_none]
      | term term =>
          rw [htoken] at h
          simp only [ih (Option.map_eq_none_iff.mp h), Option.map_none]

/-- No token makes the parser fall back. -/
theorem parseTokens_isSome (tokens : List JsString) :
    (parseTokens fields tokens).isSome = true ↔
      ∀ token ∈ tokens, parseToken fields token ≠ .fallback := by
  induction tokens with
  | nil => simp [parseTokens]
  | cons token rest ih =>
      rw [parseTokens, List.forall_mem_cons, ← ih]
      cases parseToken fields token <;> simp

theorem parseTokens_serialized
    {terms : List LogSearchTerm} (h : ∀ term ∈ terms, Serializable fields term) :
    parseTokens fields (terms.map serializeLogTerm) = some (terms, []) := by
  induction terms with
  | nil => rfl
  | cons term terms ih =>
      have hterm := parseToken_serializeLogTerm (h term List.mem_cons_self)
      have hrest := ih fun term' hterm' => h term' (List.mem_cons_of_mem term hterm')
      simp only [List.map_cons, parseTokens, hterm, hrest, Option.map_some]

/-- Free text is kept in order. -/
theorem parseTokens_sublist
    {tokens : List JsString} {p : List LogSearchTerm × List JsString}
    (h : parseTokens fields tokens = some p) : p.2.Sublist tokens := by
  induction tokens generalizing p with
  | nil =>
      obtain rfl := Option.some.inj h
      exact List.Sublist.slnil
  | cons token rest ih =>
      rw [parseTokens] at h
      cases htoken : parseToken fields token with
      | fallback =>
          rw [htoken] at h
          cases h
      | text =>
          rw [htoken] at h
          obtain ⟨q, hq, rfl⟩ := Option.map_eq_some_iff.mp h
          exact (ih hq).cons_cons token
      | term term =>
          rw [htoken] at h
          obtain ⟨q, hq, rfl⟩ := Option.map_eq_some_iff.mp h
          exact (ih hq).cons token

/-- Without terms every token is free text. -/
theorem parseTokens_text
    {tokens text : List JsString} (h : parseTokens fields tokens = some ([], text)) :
    text = tokens := by
  induction tokens generalizing text with
  | nil => exact (congrArg Prod.snd (Option.some.inj h)).symm
  | cons token rest ih =>
      rw [parseTokens] at h
      cases htoken : parseToken fields token with
      | fallback =>
          rw [htoken] at h
          cases h
      | text =>
          rw [htoken] at h
          obtain ⟨q, hq, heq⟩ := Option.map_eq_some_iff.mp h
          obtain ⟨hterms, rfl⟩ := Prod.mk.inj heq
          rw [ih (show parseTokens fields rest = some ([], q.2) by rw [hq, ← hterms])]
      | term term =>
          rw [htoken] at h
          obtain ⟨q, -, heq⟩ := Option.map_eq_some_iff.mp h
          cases (Prod.mk.inj heq).1

theorem searchTokens_serializeLogTerm
    {term : LogSearchTerm} (h : Serializable fields term) :
    searchTokens (serializeLogTerm term) = some [serializeLogTerm term] := by
  have hread := lexToken_serializeLogTerm h .start rfl rfl
  rw [searchTokens_of_closed (by rw [hread]; rfl), hread]
  simp [finishTokens, Lexer.start, serializeLogTerm_ne_nil]

/-- One filter alone is parsed as its term. -/
theorem parseLogSearch_serializeLogTerm
    {term : LogSearchTerm} (h : Serializable fields term) :
    parseLogSearch (serializeLogTerm term) fields = ([], [term]) := by
  have hterms : ∀ t ∈ [term], Serializable fields t := by simpa using h
  have hparse := parseTokens_serialized hterms
  rw [List.map_singleton] at hparse
  rw [parseLogSearch, searchTokens_serializeLogTerm h, Option.bind_some, hparse]
  rfl

theorem parseLogSearch_fallback {search : JsString}
    (h : (searchTokens search).bind (parseTokens fields) = none) :
    parseLogSearch search fields = (search, []) := by
  rw [parseLogSearch, h]

/-! ### The words -/

/-- What is left to be read belongs to the current token. -/
theorem pieces_lexStep (s : Lexer UInt16) (c : UInt16) (rest : JsString) :
    s.tokens.flatMap (pieces isSearchSpace) ++ pieces isSearchSpace (s.current ++ c :: rest) =
      (lexStep s c).tokens.flatMap (pieces isSearchSpace) ++
        pieces isSearchSpace ((lexStep s c).current ++ rest) := by
  rw [lexStep_eq]
  split_ifs with hspace
  · rw [Bool.and_eq_true] at hspace
    rw [pieces_append_cons hspace.2, List.nil_append, ← List.append_assoc]
    congr 1
    unfold finishTokens
    split_ifs with hempty
    · rw [List.isEmpty_iff.mp hempty, pieces_nil, List.append_nil]
    · rw [List.flatMap_append, List.flatMap_singleton]
  · rw [List.append_assoc, List.singleton_append]

theorem pieces_foldl_lexStep (rest : JsString) :
    ∀ s : Lexer UInt16,
      s.tokens.flatMap (pieces isSearchSpace) ++ pieces isSearchSpace (s.current ++ rest) =
        (finishTokens (rest.foldl lexStep s)).flatMap (pieces isSearchSpace) := by
  induction rest with
  | nil =>
      intro s
      rw [List.foldl_nil, List.append_nil, finishTokens]
      split_ifs with hempty
      · rw [List.isEmpty_iff.mp hempty, pieces_nil, List.append_nil]
      · rw [List.flatMap_append, List.flatMap_singleton]
  | cons c rest ih =>
      intro s
      rw [pieces_lexStep, ih, List.foldl_cons]

/-- The pieces of a text are those of its tokens. -/
theorem pieces_finishTokens (search : JsString) :
    pieces isSearchSpace search =
      (finishTokens (search.foldl lexStep .start)).flatMap (pieces isSearchSpace) :=
  pieces_foldl_lexStep search .start

theorem pieces_and : pieces isSearchSpace (js "AND") = [js "AND"] := by decide

/-- `AND` is no word, so it may be dropped before. -/
theorem searchWords_filter (text : List JsString) :
    ((text.filter fun token => token ≠ js "AND").flatMap (pieces isSearchSpace)).filter
        (fun word => word ≠ js "AND") =
      (text.flatMap (pieces isSearchSpace)).filter fun word => word ≠ js "AND" := by
  induction text with
  | nil => rfl
  | cons token text ih =>
      rw [List.filter_cons, List.flatMap_cons, List.filter_append, ← ih]
      split_ifs with htoken
      · rw [List.flatMap_cons, List.filter_append]
      · have hand : token = js "AND" := by simpa using htoken
        rw [hand, pieces_and]
        simp

/-- What a search without a fallback is parsed as. -/
theorem parseLogSearch_words
    {search : JsString} {tokens : List JsString} {terms : List LogSearchTerm}
    {text : List JsString}
    (htokens : searchTokens search = some tokens)
    (hparse : parseTokens fields tokens = some (terms, text)) :
    (parseLogSearch search fields).2 = terms ∧
      searchWords (parseLogSearch search fields).1 =
        (text.flatMap (pieces isSearchSpace)).filter fun word => word ≠ js "AND" := by
  have hspace : isSearchSpace (jsChar ' ') = true := by decide
  rw [parseLogSearch, htokens, Option.bind_some, hparse]
  cases terms with
  | nil =>
      refine ⟨rfl, ?_⟩
      have hclosed : (search.foldl lexStep .start).quoted = false := by
        by_contra hopen
        rw [Bool.not_eq_false] at hopen
        rw [searchTokens_of_quoted hopen] at htokens
        cases htokens
      rw [searchTokens_of_closed hclosed] at htokens
      simp only [List.isEmpty_nil, if_true]
      rw [searchWords, pieces_finishTokens, Option.some.inj htokens, parseTokens_text hparse]
  | cons term terms =>
      refine ⟨rfl, ?_⟩
      simp only [List.isEmpty_cons, Bool.false_eq_true, if_false]
      rw [searchWords, show js " " = [jsChar ' '] from rfl, pieces_intercalate hspace,
        searchWords_filter]

/-! ### Open quotes -/

/-- Whether a quote is open behind the text. -/
def endsQuoted (quoted : Bool) (text : JsString) : Bool :=
  (text.foldl lexStep ⟨[], [], quoted, false⟩).quoted

/-- The tokens read so far do not matter. -/
theorem foldl_lexStep_quoted (text : JsString) :
    ∀ s t : Lexer UInt16, s.quoted = t.quoted → s.escaped = t.escaped →
      (text.foldl lexStep s).quoted = (text.foldl lexStep t).quoted ∧
        (text.foldl lexStep s).escaped = (text.foldl lexStep t).escaped := by
  induction text with
  | nil => exact fun s t hquoted hescaped => ⟨hquoted, hescaped⟩
  | cons c text ih =>
      intro s t hquoted hescaped
      rw [List.foldl_cons, List.foldl_cons]
      have hstep : (lexStep s c).quoted = (lexStep t c).quoted ∧
          (lexStep s c).escaped = (lexStep t c).escaped := by
        rw [lexStep_eq, lexStep_eq, hquoted, hescaped]
        split_ifs <;> exact ⟨rfl, rfl⟩
      exact ih _ _ hstep.1 hstep.2

/-- A space leaves an open quote open, and escapes nothing. -/
theorem lexStep_isSearchSpace (s : Lexer UInt16) {c : UInt16} (h : isSearchSpace c = true) :
    (lexStep s c).quoted = s.quoted ∧ (lexStep s c).escaped = false := by
  have hquote : c ≠ jsChar '"' := by
    rintro rfl
    exact absurd h (by decide)
  have hslash : c ≠ jsChar '\\' := by
    rintro rfl
    exact absurd h (by decide)
  rw [lexStep_eq, h]
  obtain ⟨tokens, current, quoted, escaped⟩ := s
  cases quoted <;> cases escaped <;> simp [quoteStep, hquote, hslash]

theorem endsQuoted_append_cons
    (quoted : Bool) (x : JsString) (c : UInt16) (y : JsString) (h : isSearchSpace c = true) :
    endsQuoted quoted (x ++ c :: y) = endsQuoted (endsQuoted quoted x) y := by
  obtain ⟨hquoted, hescaped⟩ :=
    lexStep_isSearchSpace (x.foldl lexStep ⟨[], [], quoted, false⟩) h
  rw [endsQuoted, List.foldl_append, List.foldl_cons]
  exact (foldl_lexStep_quoted y _ ⟨[], [], _, false⟩ hquoted hescaped).1

theorem foldl_endsQuoted_filter (words : List JsString) (quoted : Bool) :
    (words.filter fun word => word ≠ js "AND").foldl endsQuoted quoted =
      words.foldl endsQuoted quoted := by
  have hand : ∀ quoted, endsQuoted quoted (js "AND") = quoted := by decide
  induction words generalizing quoted with
  | nil => rfl
  | cons word words ih =>
      rw [List.filter_cons, List.foldl_cons]
      split_ifs with hword
      · rw [List.foldl_cons, ih]
      · have heq : word = js "AND" := by simpa using hword
        rw [heq, hand, ih]

/-- Whether a quote is open behind a text depends on its words. -/
theorem endsQuoted_searchWords (quoted : Bool) (text : JsString) :
    endsQuoted quoted text = (searchWords text).foldl endsQuoted quoted := by
  rw [searchWords, foldl_endsQuoted_filter]
  exact foldl_pieces (fun _ => rfl) endsQuoted_append_cons quoted text

/-- Every token that is complete has its quotes closed. -/
structure TokensClosed (s : Lexer UInt16) : Prop where
  tokens : ∀ token ∈ s.tokens, endsQuoted false token = false
  quoted : (s.current.foldl lexStep .start).quoted = s.quoted
  escaped : (s.current.foldl lexStep .start).escaped = s.escaped

theorem TokensClosed.finishTokens
    {s : Lexer UInt16} (h : TokensClosed s) (hquoted : s.quoted = false) :
    ∀ token ∈ finishTokens s, endsQuoted false token = false := by
  unfold Frontend.finishTokens
  split_ifs with hempty
  · exact h.tokens
  · intro token htoken
    rcases List.mem_append.mp htoken with htoken | htoken
    · exact h.tokens token htoken
    · obtain rfl := List.mem_singleton.mp htoken
      exact h.quoted.trans hquoted

theorem TokensClosed.step
    {s : Lexer UInt16} (h : TokensClosed s) (c : UInt16) : TokensClosed (lexStep s c) := by
  rw [lexStep_eq]
  split_ifs with hspace
  · have hquoted : s.quoted = false := by
      simp only [Bool.and_eq_true, Bool.not_eq_true'] at hspace
      exact hspace.1.1
    exact ⟨h.finishTokens hquoted, rfl, rfl⟩
  · have hcurrent : (s.current ++ [c]).foldl lexStep .start =
        lexStep (s.current.foldl lexStep .start) c := by
      rw [List.foldl_append]
      rfl
    have hstep : (lexStep (s.current.foldl lexStep .start) c).quoted =
          (quoteStep s.quoted s.escaped c).1 ∧
        (lexStep (s.current.foldl lexStep .start) c).escaped =
          (quoteStep s.quoted s.escaped c).2 := by
      rw [lexStep_eq, h.quoted, h.escaped, if_neg hspace]
      exact ⟨rfl, rfl⟩
    refine ⟨h.tokens, ?_, ?_⟩
    · rw [hcurrent]
      exact hstep.1
    · rw [hcurrent]
      exact hstep.2

theorem tokensClosed_foldl (text : JsString) :
    ∀ s : Lexer UInt16, TokensClosed s → TokensClosed (text.foldl lexStep s) := by
  induction text with
  | nil => exact fun s h => h
  | cons c text ih => exact fun s h => ih (lexStep s c) (h.step c)

theorem searchTokens_endsQuoted
    {search : JsString} {tokens : List JsString} (h : searchTokens search = some tokens) :
    ∀ token ∈ tokens, endsQuoted false token = false := by
  have hstart : TokensClosed (.start : Lexer UInt16) := ⟨by simp [Lexer.start], rfl, rfl⟩
  cases hquoted : (search.foldl lexStep .start).quoted with
  | true =>
      rw [searchTokens_of_quoted hquoted] at h
      cases h
  | false =>
      rw [searchTokens_of_closed hquoted] at h
      rw [← Option.some.inj h]
      exact (tokensClosed_foldl search .start hstart).finishTokens hquoted

/-- Tokens whose quotes are closed leave none open. -/
theorem foldl_endsQuoted_tokens
    {tokens : List JsString} (h : ∀ token ∈ tokens, endsQuoted false token = false) :
    (tokens.flatMap (pieces isSearchSpace)).foldl endsQuoted false = false := by
  induction tokens with
  | nil => rfl
  | cons token tokens ih =>
      have hpieces : (pieces isSearchSpace token).foldl endsQuoted false = false := by
        rw [← foldl_pieces (fun _ => rfl) endsQuoted_append_cons false token]
        exact h token List.mem_cons_self
      rw [List.flatMap_cons, List.foldl_append, hpieces]
      exact ih fun token' htoken' => h token' (List.mem_cons_of_mem token htoken')

/-! ### The composed query -/

/-- Filters behind a text without a fallback. -/
theorem WellFormedText.composes
    {state : LogQueryState} (h : ∀ term ∈ state.enabledTerms, Serializable fields term)
    (htext : WellFormedText fields state.text) : Composes fields state := by
  obtain ⟨tokens, htokens, hparsed⟩ := htext
  obtain ⟨⟨terms, text⟩, hparse⟩ :=
    Option.isSome_iff_exists.mp ((parseTokens_isSome tokens).mpr hparsed)
  have hcomposed := parseTokens_append hparse (parseTokens_serialized h)
  rw [List.append_nil] at hcomposed
  obtain ⟨hterms, hwords⟩ := parseLogSearch_words htokens hparse
  obtain ⟨hterms', hwords'⟩ :=
    parseLogSearch_words (searchTokens_composedSearch h htokens) hcomposed
  exact ⟨by rw [hterms', hterms], by rw [hwords', hwords]⟩

theorem composedSearch_of_enabledTerms {state : LogQueryState} (h : state.enabledTerms = []) :
    state.composedSearch = state.text := by
  rw [LogQueryState.composedSearch, h]
  cases htext : state.text with
  | nil => rfl
  | cons u text => simp [List.intercalate]

/-- A quote that the text leaves open swallows the filters, or changes the words. -/
theorem Composes.closed
    {state : LogQueryState} (h : Composes fields state) (hne : state.enabledTerms ≠ []) :
    (state.text.foldl lexStep .start).quoted = false := by
  by_contra hopen
  rw [Bool.not_eq_false] at hopen
  have htext : parseLogSearch state.text fields = (state.text, []) :=
    parseLogSearch_fallback (by rw [searchTokens_of_quoted hopen]; rfl)
  have hterms := h.terms
  have hwords := h.words
  rw [htext] at hterms hwords
  cases htokens : searchTokens state.composedSearch with
  | none =>
      rw [parseLogSearch_fallback (by rw [htokens]; rfl)] at hterms
      exact hne hterms.symm
  | some tokens =>
      cases hparse : parseTokens fields tokens with
      | none =>
          rw [parseLogSearch_fallback (by rw [htokens]; exact hparse)] at hterms
          exact hne hterms.symm
      | some p =>
          -- The free text that is left has its quotes closed.
          have hclosed := foldl_endsQuoted_tokens fun token htoken =>
            searchTokens_endsQuoted htokens token ((parseTokens_sublist hparse).subset htoken)
          rw [(parseLogSearch_words htokens hparse).2] at hwords
          rw [← foldl_endsQuoted_filter, hwords, ← endsQuoted_searchWords] at hclosed
          exact absurd (hclosed.symm.trans hopen) (by decide)

/-- A malformed token of the text makes the filters free text. -/
theorem Composes.wellFormedText
    {state : LogQueryState} (hfilters : ∀ term ∈ state.enabledTerms, Serializable fields term)
    (h : Composes fields state) (hne : state.enabledTerms ≠ []) :
    WellFormedText fields state.text := by
  have htokens := searchTokens_of_closed (h.closed hne)
  refine ⟨_, htokens, ?_⟩
  rw [← parseTokens_isSome]
  by_contra hnone
  rw [Bool.not_eq_true, Option.isSome_eq_false_iff, Option.isNone_iff_eq_none] at hnone
  have hcomposed := searchTokens_composedSearch hfilters htokens
  have htext : (searchTokens state.text).bind (parseTokens fields) = none := by
    rw [htokens]
    exact hnone
  have hquery : (searchTokens state.composedSearch).bind (parseTokens fields) = none := by
    rw [hcomposed]
    exact parseTokens_append_none hnone _
  have hterms := h.terms
  rw [parseLogSearch_fallback htext, parseLogSearch_fallback hquery] at hterms
  exact hne hterms.symm

/-- The query is parsed as the text and the enabled filters if and only if there
are none, or the text alone is parsed without a fallback. -/
theorem composes_iff
    (lib : BrowserLibraries) (signal : Signal) {state : LogQueryState}
    (h : ∀ filter ∈ state.filters, filter.enabled = true →
      AcceptedTerm lib signal filter.term) :
    Composes (queryFields signal) state ↔
      state.enabledTerms = [] ∨ WellFormedText (queryFields signal) state.text := by
  have hfilters : ∀ term ∈ state.enabledTerms, Serializable (queryFields signal) term := by
    intro term hterm
    obtain ⟨filter, hfilter, rfl⟩ := List.mem_map.mp hterm
    obtain ⟨hmem, henabled⟩ := List.mem_filter.mp hfilter
    exact (h filter hmem henabled).serializable
  constructor
  · intro hcomposes
    by_cases hne : state.enabledTerms = []
    · exact Or.inl hne
    · exact Or.inr (hcomposes.wellFormedText hfilters hne)
  · rintro (hnone | htext)
    · have hsearch := composedSearch_of_enabledTerms hnone
      exact ⟨by rw [hsearch, hnone, List.append_nil], by rw [hsearch]⟩
    · exact htext.composes hfilters

def sampleDraft : LogFilterDraft where
  key := js " attributes.user"
  operator := .isNot
  value := js "Alice \"A\" Smith"

def sampleFilter : LogFilter where
  term := draftTerm sampleDraft logFieldKeys
  id := js "1"
  enabled := true

theorem sampleDraft_accepted :
    filterDraftError sampleBrowser sampleDraft (queryFields .logs) [] = none := by
  decide

/-- Free text, a filter in the text, and two filters of which one is paused. -/
def sampleQuery : LogQueryState where
  text := js "failed AND body:GET"
  filters := [sampleFilter, { sampleFilter with id := js "2", enabled := false }]

theorem sampleQuery_accepted :
    ∀ filter ∈ sampleQuery.filters, AcceptedTerm sampleBrowser .logs filter.term := by
  intro filter hfilter
  refine ⟨sampleDraft, [], sampleDraft_accepted, ?_⟩
  rcases List.mem_cons.mp hfilter with rfl | hfilter
  · rfl
  · obtain rfl := List.mem_singleton.mp hfilter
    rfl

theorem composes_iff_sample : Composes (queryFields .logs) sampleQuery :=
  (composes_iff sampleBrowser .logs fun filter hfilter _ =>
    sampleQuery_accepted filter hfilter).mpr (Or.inr ⟨_, rfl, by decide⟩)

/-- Only a quote is typed so far. -/
def openQuoteQuery : LogQueryState where
  text := js "\""
  filters := [sampleFilter]

theorem composedSearch_openQuote :
    ¬ ∀ (lib : BrowserLibraries) (signal : Signal) (state : LogQueryState),
        (∀ filter ∈ state.filters, filter.enabled = true →
          AcceptedTerm lib signal filter.term) →
        Composes (queryFields signal) state := by
  intro hclaim
  have haccepted : ∀ filter ∈ openQuoteQuery.filters, filter.enabled = true →
      AcceptedTerm sampleBrowser .logs filter.term := by
    intro filter hfilter _
    obtain rfl := List.mem_singleton.mp hfilter
    exact ⟨sampleDraft, [], sampleDraft_accepted, rfl⟩
  have hterms := (hclaim sampleBrowser .logs openQuoteQuery haccepted).terms
  have hquery : (parseLogSearch openQuoteQuery.composedSearch (queryFields .logs)).2 = [] := by
    decide
  rw [hquery] at hterms
  exact absurd hterms (by decide)

end Frontend
end Otelop
