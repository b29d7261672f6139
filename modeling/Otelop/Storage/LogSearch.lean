import Mathlib.Tactic
import Otelop.Lib.JsonString

/-!
# Parsing a search on the server

`parseSignalSearch` of `internal/storage/log_search.go` splits a search into tokens at white
space outside quotes and reads each as a field filter or as free text.  A search with a
malformed part, or without a filter, is free text as a whole.

A Go string that is well-formed UTF-8 is the list of its characters.  A quoted value is a JSON
string literal, read by the reader of `Lib/JsonString.lean`; an escape of a lone surrogate is
read as the replacement character, which `loneSurrogateFree` excludes where the parser is
compared with the one of the browser.

The module also names the terms of a search, which `SearchSQL` turns into conditions.

**Results.**
* `parseSignalSearch_field`: a term on a field is on one of the given fields.
-/

namespace Otelop
namespace Storage

open Lib

/-- A well-formed Go string. -/
abbrev GoString := List Char

instance : LawfulBEq GoString := inferInstance

/-- One field filter; `field` is empty where the filter is on an attribute. -/
structure LogSearchTerm where
  field : GoString
  resource : Bool
  key : GoString
  value : GoString
  quoted : Bool
  negated : Bool
deriving DecidableEq

/-- The variables of the tokenizing loop.  `current` is the text between `start`
and the loop index. -/
structure Lexer (α : Type) where
  tokens : List (List α)
  current : List α
  quoted : Bool
  escaped : Bool
deriving DecidableEq

def Lexer.start {α : Type} : Lexer α := ⟨[], [], false, false⟩

/-- `strings.ContainsRune(" \t\r\n", c)` -/
def isSearchSpace (c : Char) : Bool :=
  c = ' ' || c = '\t' || c = '\r' || c = '\n'

def lexStep (s : Lexer Char) (c : Char) : Lexer Char :=
  if s.escaped then { s with current := s.current ++ [c], escaped := false }
  else if s.quoted && c = '\\' then { s with current := s.current ++ [c], escaped := true }
  else
    let quoted := if c = '"' then !s.quoted else s.quoted
    if !quoted && isSearchSpace c then
      { tokens := if s.current.isEmpty then s.tokens else s.tokens ++ [s.current]
        current := []
        quoted
        escaped := false }
    else { s with current := s.current ++ [c], quoted }

/-- The tokens of a search, unless a quote is left open. -/
def searchTokens (search : GoString) : Option (List GoString) :=
  let s := search.foldl lexStep .start
  if s.quoted then none
  else some (if s.current.isEmpty then s.tokens else s.tokens ++ [s.current])

/-! ### Tokens -/

/-- `strings.Cut`: the text before and after the first `sep`, if there is one. -/
def cut : GoString → Char → GoString × GoString × Bool
  | [], _ => ([], [], false)
  | c :: s, sep =>
      if c = sep then ([], s, true)
      else
        let (before, after, found) := cut s sep
        (c :: before, after, found)

theorem cut_cases (sep : Char) :
    ∀ s : GoString, (sep ∉ s ∧ cut s sep = (s, [], false)) ∨
      ∃ before after, s = before ++ sep :: after ∧ sep ∉ before ∧
        cut s sep = (before, after, true)
  | [] => Or.inl ⟨List.not_mem_nil, rfl⟩
  | c :: s => by
      by_cases hc : c = sep
      · exact Or.inr ⟨[], s, by simp [hc], List.not_mem_nil, by simp [cut, hc]⟩
      · rcases cut_cases sep s with ⟨hmem, hcut⟩ | ⟨before, after, hs, hmem, hcut⟩
        · exact Or.inl ⟨by simp [hmem, Ne.symm hc], by simp [cut, hc, hcut]⟩
        · exact Or.inr ⟨c :: before, after, by simp [hs], by simp [hmem, Ne.symm hc],
            by simp [cut, hc, hcut]⟩

theorem cut_append_cons
    {sep : Char} {before : GoString} (h : sep ∉ before) (after : GoString) :
    cut (before ++ sep :: after) sep = (before, after, true) := by
  induction before with
  | nil => rw [List.nil_append, cut, if_pos rfl]
  | cons c before ih =>
      rw [List.mem_cons, not_or] at h
      rw [List.cons_append, cut, if_neg (Ne.symm h.1), ih h.2]

def resourcePrefix : GoString := "resource.".toList

def attributesPrefix : GoString := "attributes.".toList

/-- A token that starts like a field filter. -/
structure SignalField where
  field : GoString
  resource : Bool
  key : GoString
  value : GoString
  negated : Bool
deriving DecidableEq

/-- The filter a token names, or nothing for free text. -/
def signalField (fields : List GoString) (token : GoString) : Option SignalField :=
  let (head, value, ok) := cut token ':'
  let negated := ['-'].isPrefixOf head
  let field := if negated then head.drop 1 else head
  let resource := resourcePrefix.isPrefixOf field
  let builtin : Bool := decide (field ∈ fields)
  if !ok || (!resource && !attributesPrefix.isPrefixOf field && !builtin) then none
  else
    let key := if builtin then field else (cut field '.').2.1
    some { field := if builtin then field else [], resource, key, value, negated }

/-- `json.Unmarshal` of a text that starts with a quote, into a string. -/
def unmarshalString (literal : GoString) : Option GoString :=
  (stringItems Char.toNat literal).map runes

/-- `~"`, which starts a quoted value with wildcards. -/
def wildcardQuote : GoString := ['~', '"']

/-- The JSON literal a value is, if it is quoted. -/
def SignalField.literal (f : SignalField) : Option GoString :=
  if wildcardQuote.isPrefixOf f.value then some (f.value.drop 1)
  else if ['"'].isPrefixOf f.value then some f.value
  else none

/-- The term of a filter, or nothing when it is malformed. -/
def SignalField.term (f : SignalField) : Option LogSearchTerm :=
  if f.key.isEmpty || f.value.isEmpty then none
  else
    match f.literal with
    | none =>
        some
          { field := f.field, resource := f.resource, key := f.key, value := f.value
            quoted := false, negated := f.negated }
    | some literal =>
        (unmarshalString literal).map fun value =>
          { field := f.field, resource := f.resource, key := f.key, value
            quoted := !wildcardQuote.isPrefixOf f.value, negated := f.negated }

theorem SignalField.term_of_bare
    {f : SignalField} (hne : ¬ (f.key.isEmpty || f.value.isEmpty) = true)
    (h : f.literal = none) :
    f.term = some
      { field := f.field, resource := f.resource, key := f.key, value := f.value
        quoted := false, negated := f.negated } := by
  rw [SignalField.term, if_neg hne, h]

theorem SignalField.term_of_literal
    {f : SignalField} (hne : ¬ (f.key.isEmpty || f.value.isEmpty) = true)
    {literal : GoString} (h : f.literal = some literal) :
    f.term = (unmarshalString literal).map fun value =>
      { field := f.field, resource := f.resource, key := f.key, value
        quoted := !wildcardQuote.isPrefixOf f.value, negated := f.negated } := by
  rw [SignalField.term, if_neg hne, h]

/-- The terms and the free text of the tokens, unless one is malformed. -/
def parseTokens (fields : List GoString) :
    List GoString → Option (List LogSearchTerm × List GoString)
  | [] => some ([], [])
  | token :: rest =>
      match signalField fields token with
      | none => (parseTokens fields rest).map fun p => (p.1, token :: p.2)
      | some f =>
          match f.term with
          | none => none
          | some term => (parseTokens fields rest).map fun p => (term :: p.1, p.2)

def parseSignalSearch (search : GoString) (fields : List GoString) :
    GoString × List LogSearchTerm :=
  match (searchTokens search).bind (parseTokens fields) with
  | none => (search, [])
  | some (terms, text) =>
      if terms.isEmpty then (search, [])
      else
        (List.intercalate [' '] (text.filter fun token => token ≠ "AND".toList), terms)

/-! ### The fields of the terms -/

theorem signalField_field
    {fields : List GoString} {token : GoString} {f : SignalField}
    (h : signalField fields token = some f) :
    f.field = [] ∨ f.field ∈ fields := by
  rw [signalField] at h
  generalize cut token ':' = parts at h
  obtain ⟨head, value, ok⟩ := parts
  simp only at h
  generalize (if ['-'].isPrefixOf head then head.drop 1 else head) = field at h
  split at h
  · cases h
  · cases h
    by_cases hbuiltin : field ∈ fields
    · simp [hbuiltin]
    · simp [hbuiltin]

theorem term_field {f : SignalField} {term : LogSearchTerm} (h : f.term = some term) :
    term.field = f.field := by
  rw [SignalField.term] at h
  split at h
  · cases h
  · split at h
    · cases h
      rfl
    · obtain ⟨value, -, rfl⟩ := Option.map_eq_some_iff.mp h
      rfl

theorem parseTokens_field {fields : List GoString} :
    ∀ {tokens : List GoString} {result : List LogSearchTerm × List GoString},
      parseTokens fields tokens = some result →
        ∀ term ∈ result.1, term.field = [] ∨ term.field ∈ fields
  | [], _, h => by
      cases h
      intro term hterm
      exact absurd hterm List.not_mem_nil
  | token :: rest, result, h => by
      rw [parseTokens] at h
      cases hfield : signalField fields token with
      | none =>
          rw [hfield] at h
          obtain ⟨p, hp, rfl⟩ := Option.map_eq_some_iff.mp h
          exact fun term hterm => parseTokens_field hp term hterm
      | some f =>
          rw [hfield] at h
          cases hterm : f.term with
          | none =>
              simp only [hterm] at h
              cases h
          | some t =>
              simp only [hterm] at h
              obtain ⟨p, hp, rfl⟩ := Option.map_eq_some_iff.mp h
              intro term hmem
              rcases List.mem_cons.mp hmem with rfl | hmem
              · rw [term_field hterm]
                exact signalField_field hfield
              · exact parseTokens_field hp term hmem

/-- A term is on a built-in field or on an attribute. -/
theorem parseSignalSearch_field
    {search : GoString} {fields : List GoString} {term : LogSearchTerm}
    (hterm : term ∈ (parseSignalSearch search fields).2) :
    term.field = [] ∨ term.field ∈ fields := by
  rw [parseSignalSearch] at hterm
  cases hparse : (searchTokens search).bind (parseTokens fields) with
  | none =>
      rw [hparse] at hterm
      exact absurd hterm List.not_mem_nil
  | some result =>
      obtain ⟨tokens, -, htokens⟩ := Option.bind_eq_some_iff.mp hparse
      rw [hparse] at hterm
      simp only at hterm
      split at hterm
      · exact absurd hterm List.not_mem_nil
      · exact parseTokens_field htokens term hterm

/-! ### Escaped surrogates -/

/-- The quoted value of a filter escapes no lone surrogate. -/
def SignalField.loneFree (f : SignalField) : Bool :=
  match f.literal.bind (stringItems Char.toNat) with
  | none => true
  | some items => noLoneSurrogate items

/-- No quoted value of the search escapes a lone surrogate. -/
def loneSurrogateFree (search : GoString) (fields : List GoString) : Bool :=
  match searchTokens search with
  | none => true
  | some tokens =>
      tokens.all fun token =>
        match signalField fields token with
        | none => true
        | some f => f.loneFree

end Storage
end Otelop
