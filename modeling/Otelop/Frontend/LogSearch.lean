import Mathlib.Tactic
import Otelop.Storage.LogSearch

/-!
# Parsing a search in the browser

`parseLogSearch` of `frontend/src/lib/log-search.ts`.  A JavaScript string is the list of its
UTF-16 code units, and the string functions that the parser calls (`indexOf` and `slice`, with
their conventions for a negative position and for one behind the end) work on units.

A search is split into tokens at white space outside quotes, as `lexStep` does it unit by
unit.  A token is a filter of a field, malformed, or free text; a search with a malformed
token, or with no filter at all, is free text as a whole.

The server has a parser of its own for the same language, in `Storage/LogSearch.lean`.  This
module names nothing of it: `ParserAgreement` proves that the two agree on every string, and
`LogFilter` that a serialized term is parsed as itself.
-/

namespace Otelop
namespace Frontend

open Lib Storage

/-- A JavaScript string. -/
abbrev JsString := List UInt16

instance : LawfulBEq JsString := inferInstance

/-- A string literal of the source. -/
def js (s : String) : JsString := utf16 s.toList

/-- `s.indexOf(u)` for a string `u` of one unit. -/
def indexOf (s : JsString) (u : UInt16) : Int :=
  match s.findIdx? fun v => v = u with
  | some i => i
  | none => -1

/-- A position of `slice`: a negative one counts from the end. -/
def slicePosition (s : JsString) (i : Int) : Nat :=
  if i < 0 then (s.length + i).toNat else i.toNat

/-- `s.slice(start, stop)` -/
def slice (s : JsString) (start stop : Int) : JsString :=
  (s.take (slicePosition s stop)).drop (slicePosition s start)

/-- `s.slice(start)` -/
def sliceFrom (s : JsString) (start : Int) : JsString :=
  s.drop (slicePosition s start)

/-- One field filter; `field` is absent where the filter is on an attribute. -/
structure LogSearchTerm where
  field : Option JsString
  resource : Bool
  key : JsString
  value : JsString
  quoted : Bool
  negated : Bool
deriving DecidableEq

/-- `" \t\r\n".includes(c)` -/
def isSearchSpace (u : UInt16) : Bool :=
  u = jsChar ' ' || u = jsChar '\t' || u = jsChar '\r' || u = jsChar '\n'

def lexStep (s : Lexer UInt16) (c : UInt16) : Lexer UInt16 :=
  if s.escaped then { s with current := s.current ++ [c], escaped := false }
  else if s.quoted && c = jsChar '\\' then
    { s with current := s.current ++ [c], escaped := true }
  else
    let quoted := if c = jsChar '"' then !s.quoted else s.quoted
    if !quoted && isSearchSpace c then
      { tokens := if s.current.isEmpty then s.tokens else s.tokens ++ [s.current]
        current := []
        quoted
        escaped := false }
    else { s with current := s.current ++ [c], quoted }

/-- The tokens of a search, unless a quote is left open. -/
def searchTokens (search : JsString) : Option (List JsString) :=
  let s := search.foldl lexStep .start
  if s.quoted then none
  else some (if s.current.isEmpty then s.tokens else s.tokens ++ [s.current])

/-- `JSON.parse` of a text that starts with a quote. -/
def jsonParse (literal : JsString) : Option JsString :=
  (stringItems UInt16.toNat literal).map unitsValue

/-- What the loop makes of one token. -/
inductive TokenResult where
  | text
  | fallback
  | term (term : LogSearchTerm)
deriving DecidableEq

/-- The end of the loop body, for a token that starts like a field filter. -/
def fieldTerm (field : Option JsString) (resource : Bool) (key value : JsString)
    (negated : Bool) : TokenResult :=
  if key.isEmpty || value.isEmpty then .fallback
  else
    let quoted := (js "\"").isPrefixOf value
    let wildcardString := (js "~\"").isPrefixOf value
    let parsed :=
      if quoted || wildcardString then
        jsonParse (if wildcardString then sliceFrom value 1 else value)
      else some value
    match parsed with
    | none => .fallback
    | some value => .term { field, resource, key, value, quoted, negated }

def parseToken (fields : List JsString) (token : JsString) : TokenResult :=
  let colon := indexOf token (jsChar ':')
  let negated := (js "-").isPrefixOf token
  let field := slice token (if negated then 1 else 0) colon
  let resource := (js "resource.").isPrefixOf field
  if colon < 0 || (!resource && !(js "attributes.").isPrefixOf field && field ∉ fields) then
    .text
  else
    let key :=
      if field ∈ fields then field else sliceFrom field (indexOf field (jsChar '.') + 1)
    let value := sliceFrom token (colon + 1)
    fieldTerm (if field ∈ fields then some field else none) resource key value negated

/-- The terms and the free text of the tokens, unless one makes it fall back. -/
def parseTokens (fields : List JsString) :
    List JsString → Option (List LogSearchTerm × List JsString)
  | [] => some ([], [])
  | token :: rest =>
      match parseToken fields token with
      | .text => (parseTokens fields rest).map fun p => (p.1, token :: p.2)
      | .fallback => none
      | .term term => (parseTokens fields rest).map fun p => (term :: p.1, p.2)

def parseLogSearch (search : JsString) (fields : List JsString) :
    JsString × List LogSearchTerm :=
  match (searchTokens search).bind (parseTokens fields) with
  | none => (search, [])
  | some (terms, text) =>
      if terms.isEmpty then (search, [])
      else (List.intercalate (js " ") (text.filter fun token => token ≠ js "AND"), terms)

end Frontend
end Otelop
