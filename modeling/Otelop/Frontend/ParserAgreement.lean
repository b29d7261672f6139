import Mathlib.Tactic
import Otelop.Frontend.LogSearch

/-!
# The two parsers of a search agree

The parser of the server runs over characters, the one of the browser over UTF-16 code units.
Each step of the second on an encoded text is simulated by the first on the text.

The states of the two lexers are related by encoding every text in them (`encodeLexer`).  The
parsers look for ASCII characters only, and a unit of an encoded text that looks like an ASCII
character is one, so a step of the browser on the units of one character is a step of the
server.  They differ in one place: an escape of a lone surrogate in a quoted value, which Go
replaces and JavaScript keeps.

**Results.**
* `searchTokens_utf16`: the tokens are the same.
* `parseToken_utf16`: so is what becomes of one token, unless it escapes a lone surrogate.
* `parseLogSearch_utf16`: the parsers return the same result.
-/

namespace Otelop
namespace Frontend

open Lib Storage

/-! ### Tokenizing -/

/-- The state of the tokenizer of the browser on the encoded text. -/
def encodeLexer (s : Lexer Char) : Lexer UInt16 where
  tokens := s.tokens.map utf16
  current := utf16 s.current
  quoted := s.quoted
  escaped := s.escaped

theorem jsChar_eq_iff
    {c a : Char} (hc : c.toNat < 0x80) (ha : a.toNat < 0x80) :
    jsChar c = jsChar a ↔ c = a := by
  have h := jsChar_mem_units ha c
  rw [units_ascii hc, List.mem_singleton] at h
  rw [eq_comm, h]

theorem ne_of_toNat_le {c a : Char} (hc : 0x80 ≤ c.toNat) (ha : a.toNat < 0x80) : c ≠ a := by
  rintro rfl
  omega

theorem ne_jsChar_of_le {u : UInt16} {a : Char}
    (hu : 0x80 ≤ u.toNat) (ha : a.toNat < 0x80) : u ≠ jsChar a := by
  rintro rfl
  rw [jsChar_toNat ha] at hu
  omega

/-- A unit outside ASCII belongs to the token. -/
theorem lexStep_of_le
    (t : Lexer UInt16) {u : UInt16} (hu : 0x80 ≤ u.toNat) :
    lexStep t u = { t with current := t.current ++ [u], escaped := false } := by
  have hne : ∀ a : Char, a.toNat < 0x80 → u ≠ jsChar a := fun a ha => ne_jsChar_of_le hu ha
  have hspace : isSearchSpace u = false := by
    simp [isSearchSpace, hne ' ' (by decide), hne '\t' (by decide), hne '\r' (by decide),
      hne '\n' (by decide)]
  obtain ⟨tokens, current, quoted, escaped⟩ := t
  cases escaped <;> simp [lexStep, hne '\\' (by decide), hne '"' (by decide), hspace]

theorem foldl_lexStep_of_le :
    ∀ (us : List UInt16) (t : Lexer UInt16), us ≠ [] → (∀ u ∈ us, 0x80 ≤ u.toNat) →
      us.foldl lexStep t = { t with current := t.current ++ us, escaped := false }
  | [], _, hne, _ => absurd rfl hne
  | [u], t, _, h => lexStep_of_le t (h u List.mem_cons_self)
  | u :: v :: us, t, _, h => by
      rw [List.foldl_cons, lexStep_of_le t (h u List.mem_cons_self),
        foldl_lexStep_of_le (v :: us) _ (List.cons_ne_nil _ _) fun w hw =>
          h w (List.mem_cons_of_mem u hw)]
      simp

/-- So does a character outside ASCII. -/
theorem storage_lexStep_of_le
    (s : Lexer Char) {c : Char} (hc : 0x80 ≤ c.toNat) :
    Storage.lexStep s c = { s with current := s.current ++ [c], escaped := false } := by
  have hne : ∀ a : Char, a.toNat < 0x80 → c ≠ a := fun a ha => ne_of_toNat_le hc ha
  have hspace : Storage.isSearchSpace c = false := by
    simp [Storage.isSearchSpace, hne ' ' (by decide), hne '\t' (by decide),
      hne '\r' (by decide), hne '\n' (by decide)]
  obtain ⟨tokens, current, quoted, escaped⟩ := s
  cases escaped <;> simp [Storage.lexStep, hne '\\' (by decide), hne '"' (by decide), hspace]

theorem lexStep_jsChar
    (s : Lexer Char) {c : Char} (hc : c.toNat < 0x80) :
    lexStep (encodeLexer s) (jsChar c) = encodeLexer (Storage.lexStep s c) := by
  have heq : ∀ a : Char, a.toNat < 0x80 → (jsChar c = jsChar a) = (c = a) :=
    fun a ha => propext (jsChar_eq_iff hc ha)
  have hspace : isSearchSpace (jsChar c) = Storage.isSearchSpace c := by
    simp only [isSearchSpace, Storage.isSearchSpace, heq ' ' (by decide),
      heq '\t' (by decide), heq '\r' (by decide), heq '\n' (by decide)]
  have hunit : utf16 [c] = [jsChar c] := by simp [units_ascii hc]
  simp only [lexStep, Storage.lexStep, encodeLexer, hspace, heq '\\' (by decide),
    heq '"' (by decide)]
  split_ifs <;> simp_all

theorem foldl_lexStep_units (s : Lexer Char) (c : Char) :
    (units c).foldl lexStep (encodeLexer s) = encodeLexer (Storage.lexStep s c) := by
  by_cases hc : c.toNat < 0x80
  · rw [units_ascii hc]
    exact lexStep_jsChar s hc
  · have hle : 0x80 ≤ c.toNat := by omega
    rw [foldl_lexStep_of_le _ _ (units_ne_nil c) fun u hu => le_toNat_of_mem_units hle hu,
      storage_lexStep_of_le s hle]
    simp [encodeLexer]

theorem foldl_lexStep_utf16 :
    ∀ (search : List Char) (s : Lexer Char),
      (utf16 search).foldl lexStep (encodeLexer s) =
        encodeLexer (search.foldl Storage.lexStep s)
  | [], _ => rfl
  | c :: search, s => by
      rw [utf16_cons, List.foldl_append, foldl_lexStep_units, foldl_lexStep_utf16 search,
        List.foldl_cons]

theorem searchTokens_utf16 (search : GoString) :
    searchTokens (utf16 search) = (Storage.searchTokens search).map (List.map utf16) := by
  have h := foldl_lexStep_utf16 search .start
  unfold searchTokens Storage.searchTokens
  rw [show (Lexer.start : Lexer UInt16) = encodeLexer .start from rfl, h]
  obtain ⟨tokens, current, quoted, escaped⟩ := search.foldl Storage.lexStep .start
  cases quoted with
  | true => rfl
  | false =>
      cases current with
      | nil => rfl
      | cons c current => simp [encodeLexer, units_ne_nil]

/-! ### Cutting a token -/

theorem jsChar_mem_utf16 {a : Char} (ha : a.toNat < 0x80) (s : List Char) :
    jsChar a ∈ utf16 s ↔ a ∈ s := by
  simp [utf16, List.mem_flatMap, jsChar_mem_units ha]

theorem indexOf_of_notMem {s : JsString} {u : UInt16} (h : u ∉ s) : indexOf s u = -1 := by
  have : s.findIdx? (fun v => decide (v = u)) = none := by
    rw [List.findIdx?_eq_none_iff]
    rintro v hv
    simpa using fun heq : v = u => h (heq ▸ hv)
  simp [indexOf, this]

theorem indexOf_append {before after : JsString} {u : UInt16} (h : u ∉ before) :
    indexOf (before ++ u :: after) u = before.length := by
  have hnone : before.findIdx? (fun v => decide (v = u)) = none := by
    rw [List.findIdx?_eq_none_iff]
    rintro v hv
    simpa using fun heq : v = u => h (heq ▸ hv)
  simp [indexOf, List.findIdx?_append, hnone, List.findIdx?_cons]

@[simp] theorem slice_zero (x y : JsString) : slice (x ++ y) 0 x.length = x := by
  simp [slice, slicePosition, show ¬ (x.length : Int) < 0 by omega]

@[simp] theorem slice_one (x y : JsString) : slice (x ++ y) 1 x.length = x.drop 1 := by
  simp [slice, slicePosition, show ¬ (x.length : Int) < 0 by omega]

theorem sliceFrom_behind (x y : JsString) (u : UInt16) :
    sliceFrom (x ++ u :: y) (x.length + 1) = y := by
  have hpos : slicePosition (x ++ u :: y) (x.length + 1) = x.length + 1 := by
    rw [slicePosition, if_neg (by omega)]
    omega
  rw [sliceFrom, hpos, List.drop_append]
  simp

@[simp] theorem js_isPrefixOf (p : String) (s : GoString) :
    (js p).isPrefixOf (utf16 s) = p.toList.isPrefixOf s :=
  utf16_isPrefixOf p.toList s

@[simp] theorem utf16_mem_map {s : GoString} {l : List GoString} :
    utf16 s ∈ l.map utf16 ↔ s ∈ l :=
  List.mem_map_of_injective utf16_injective

theorem utf16_drop_one {a : Char} (ha : a.toNat < 0x80) {s : GoString}
    (h : [a].isPrefixOf s = true) : (utf16 s).drop 1 = utf16 (s.drop 1) := by
  obtain ⟨t, rfl⟩ := List.isPrefixOf_iff_prefix.mp h
  simp [units_ascii ha]

/-- Cutting at the first separator, in the browser. -/
theorem sliceFrom_indexOf (sep : Char) (hsep : sep.toNat < 0x80) {s : GoString}
    (hmem : sep ∈ s) :
    sliceFrom (utf16 s) (indexOf (utf16 s) (jsChar sep) + 1) = utf16 (cut s sep).2.1 := by
  rcases cut_cases sep s with ⟨hnot, -⟩ | ⟨before, after, rfl, hbefore, hcut⟩
  · exact absurd hmem hnot
  · rw [hcut, utf16_append, utf16_cons, units_ascii hsep, List.singleton_append,
      indexOf_append (mt (jsChar_mem_utf16 hsep before).mp hbefore), sliceFrom_behind]

/-! ### One token -/

/-- A term of the server as the browser has it. -/
def encodeTerm (t : Storage.LogSearchTerm) : LogSearchTerm where
  field := if t.field.isEmpty then none else some (utf16 t.field)
  resource := t.resource
  key := utf16 t.key
  value := utf16 t.value
  quoted := t.quoted
  negated := t.negated

/-- What the browser makes of a token, told by what the server does. -/
def encodeResult : Option SignalField → TokenResult
  | none => .text
  | some f =>
      match f.term with
      | none => .fallback
      | some t => .term (encodeTerm t)

theorem encodeResult_fallback {f : SignalField} (h : f.term = none) :
    encodeResult (some f) = .fallback := by
  simp [encodeResult, h]

theorem encodeResult_term {f : SignalField} {t : Storage.LogSearchTerm}
    (h : f.term = some t) :
    encodeResult (some f) = .term (encodeTerm t) := by
  simp [encodeResult, h]

theorem jsonParse_utf16
    {f : SignalField} (hlone : f.loneFree = true) {literal : GoString}
    (hliteral : f.literal = some literal) :
    jsonParse (utf16 literal) = (unmarshalString literal).map utf16 := by
  unfold jsonParse unmarshalString
  rw [stringItems_utf16]
  cases hitems : stringItems Char.toNat literal with
  | none => rfl
  | some items =>
      have hfree : noLoneSurrogate items = true := by
        simpa [SignalField.loneFree, hliteral, hitems] using hlone
      simp [utf16_runes items hfree]

theorem dash_isPrefixOf_append (head value : GoString) :
    ['-'].isPrefixOf (head ++ ':' :: value) = ['-'].isPrefixOf head := by
  cases head with
  | nil => rfl
  | cons c head => rfl

/-- A field that is not built in has a dot behind its namespace. -/
theorem dot_mem_of_isPrefixOf
    {p : GoString} (hp : '.' ∈ p) {field : GoString} (h : p.isPrefixOf field = true) :
    '.' ∈ field :=
  (List.isPrefixOf_iff_prefix.mp h).subset hp

/-- The value of a filter, as the browser reads it. -/
theorem parsedValue_utf16 (f : SignalField) (hlone : f.loneFree = true) :
    (if (js "\"").isPrefixOf (utf16 f.value) || (js "~\"").isPrefixOf (utf16 f.value) then
        jsonParse
          (if (js "~\"").isPrefixOf (utf16 f.value) then sliceFrom (utf16 f.value) 1
          else utf16 f.value)
      else some (utf16 f.value)) =
      match f.literal with
      | none => some (utf16 f.value)
      | some literal => (unmarshalString literal).map utf16 := by
  rw [js_isPrefixOf, js_isPrefixOf, show "\"".toList = ['"'] from rfl,
    show "~\"".toList = wildcardQuote from rfl]
  by_cases hwild : wildcardQuote.isPrefixOf f.value = true
  · have hliteral : f.literal = some (f.value.drop 1) := if_pos hwild
    have htilde : ['~'].isPrefixOf f.value = true := by
      rw [List.isPrefixOf_iff_prefix] at hwild ⊢
      exact List.IsPrefix.trans ⟨['"'], rfl⟩ hwild
    have hslice : sliceFrom (utf16 f.value) 1 = utf16 (f.value.drop 1) :=
      utf16_drop_one (by decide) htilde
    rw [hwild, hliteral, Bool.or_true, if_pos rfl, if_pos rfl, hslice]
    exact jsonParse_utf16 hlone hliteral
  · by_cases hquote : ['"'].isPrefixOf f.value = true
    · have hliteral : f.literal = some f.value := by
        rw [SignalField.literal, if_neg hwild, if_pos hquote]
      rw [hquote, hliteral, Bool.true_or, if_pos rfl, if_neg hwild]
      exact jsonParse_utf16 hlone hliteral
    · have hliteral : f.literal = none := by
        rw [SignalField.literal, if_neg hwild, if_neg hquote]
      rw [hliteral, if_neg (by simp [hquote, hwild])]

/-- A value is quoted when it is a literal without wildcards. -/
theorem quoted_utf16 (f : SignalField) :
    (js "\"").isPrefixOf (utf16 f.value) =
      (f.literal.isSome && !wildcardQuote.isPrefixOf f.value) := by
  rw [js_isPrefixOf, show "\"".toList = ['"'] from rfl]
  unfold SignalField.literal
  cases hvalue : f.value with
  | nil => rfl
  | cons c rest =>
      by_cases hc : c = '"'
      · subst hc
        simp [List.isPrefixOf, wildcardQuote]
      · have hne : ('"' == c) = false := by simpa using Ne.symm hc
        by_cases hwild : wildcardQuote.isPrefixOf (c :: rest) = true <;>
          simp [hwild, List.isPrefixOf, hne]

theorem fieldTerm_utf16
    {f : SignalField} (hlone : f.loneFree = true) {field : Option JsString}
    (hfield : f.key ≠ [] → field = if f.field.isEmpty then none else some (utf16 f.field)) :
    fieldTerm field f.resource (utf16 f.key) (utf16 f.value) f.negated =
      encodeResult (some f) := by
  have hempty : ∀ s : GoString, (utf16 s).isEmpty = s.isEmpty := by
    intro s
    rw [Bool.eq_iff_iff, List.isEmpty_iff, List.isEmpty_iff, utf16_eq_nil]
  unfold fieldTerm
  dsimp only
  rw [parsedValue_utf16 f hlone, quoted_utf16, hempty, hempty]
  by_cases hkey : (f.key.isEmpty || f.value.isEmpty) = true
  · rw [if_pos hkey, encodeResult_fallback (if_pos hkey)]
  · have hne : f.key ≠ [] := by
      intro h
      simp [h] at hkey
    rw [if_neg hkey, hfield hne]
    cases hliteral : f.literal with
    | none =>
        rw [encodeResult_term (SignalField.term_of_bare hkey hliteral)]
        rfl
    | some literal =>
        have hterm := SignalField.term_of_literal hkey hliteral
        cases hvalue : unmarshalString literal with
        | none =>
            rw [hvalue] at hterm
            rw [encodeResult_fallback hterm]
            simp [hvalue]
        | some value =>
            rw [hvalue] at hterm
            rw [encodeResult_term hterm]
            simp [hvalue, encodeTerm]

/-- The field of a term, which the server leaves empty for an attribute. -/
theorem field_of_key (fields : List GoString) (field : GoString) {key : GoString}
    (hkey : key = if decide (field ∈ fields) then field else (cut field '.').2.1) :
    key ≠ [] →
      (if field ∈ fields then some (utf16 field) else none) =
        if (if decide (field ∈ fields) then field else []).isEmpty then none
        else some (utf16 (if decide (field ∈ fields) then field else [])) := by
  intro hne
  by_cases hbuiltin : field ∈ fields
  · have : field ≠ [] := by simpa [hkey, hbuiltin] using hne
    simp [hbuiltin, this]
  · simp [hbuiltin]

theorem parseToken_utf16
    {fields : List GoString} {token : GoString}
    (hlone : ∀ f, signalField fields token = some f → f.loneFree = true) :
    parseToken (fields.map utf16) (utf16 token) = encodeResult (signalField fields token) := by
  rcases cut_cases ':' token with ⟨hmem, hcut⟩ | ⟨head, value, htoken, hmem, hcut⟩
  · have hindex : indexOf (utf16 token) (jsChar ':') = -1 :=
      indexOf_of_notMem (mt (jsChar_mem_utf16 (by decide) token).mp hmem)
    simp [parseToken, hindex, signalField, hcut, encodeResult]
  · have hutf : utf16 token = utf16 head ++ jsChar ':' :: utf16 value := by
      rw [htoken, utf16_append, utf16_cons, units_ascii (by decide), List.singleton_append]
    have hindex : indexOf (utf16 token) (jsChar ':') = (utf16 head).length := by
      rw [hutf]
      exact indexOf_append (mt (jsChar_mem_utf16 (by decide) head).mp hmem)
    have hneg : (js "-").isPrefixOf (utf16 token) = ['-'].isPrefixOf head := by
      rw [js_isPrefixOf, htoken]
      exact dash_isPrefixOf_append head value
    have hvalue : sliceFrom (utf16 token) ((utf16 head).length + 1) = utf16 value := by
      rw [hutf]
      exact sliceFrom_behind _ _ _
    have hfield : slice (utf16 token) (if ['-'].isPrefixOf head then 1 else 0)
        (utf16 head).length = utf16 (if ['-'].isPrefixOf head then head.drop 1 else head) := by
      rw [hutf]
      split
      · rename_i hdash
        rw [slice_one, utf16_drop_one (by decide) hdash]
      · exact slice_zero _ _
    have hcolon : ¬ ((utf16 head).length : Int) < 0 := by omega
    unfold parseToken
    simp only [hindex, hneg, hvalue, hfield, hcolon, decide_false, Bool.false_or]
    unfold signalField at hlone ⊢
    simp only [hcut, Bool.not_true, Bool.false_or] at hlone ⊢
    generalize (if ['-'].isPrefixOf head then head.drop 1 else head) = field at *
    simp only [utf16_mem_map, js_isPrefixOf, decide_not,
      show "resource.".toList = resourcePrefix from rfl,
      show "attributes.".toList = attributesPrefix from rfl]
    by_cases htext : (!resourcePrefix.isPrefixOf field &&
        !attributesPrefix.isPrefixOf field && !decide (field ∈ fields)) = true
    · rw [if_pos htext, if_pos htext]
      rfl
    · rw [if_neg htext] at hlone ⊢
      rw [if_neg htext, ← fieldTerm_utf16 (hlone _ rfl) (field_of_key fields field rfl)]
      by_cases hbuiltin : field ∈ fields
      · simp [hbuiltin]
      · have hdot : '.' ∈ field := by
          simp only [hbuiltin, decide_false, Bool.not_false, Bool.and_true, Bool.and_eq_true,
            Bool.not_eq_true', not_and_or, Bool.not_eq_false] at htext
          rcases htext with h | h
          · exact dot_mem_of_isPrefixOf (by decide) h
          · exact dot_mem_of_isPrefixOf (by decide) h
        simp [hbuiltin, sliceFrom_indexOf '.' (by decide) hdot]

/-! ### The whole search -/

theorem parseTokens_utf16 {fields : List GoString} :
    ∀ {tokens : List GoString},
      (∀ token ∈ tokens, ∀ f, signalField fields token = some f → f.loneFree = true) →
      parseTokens (fields.map utf16) (tokens.map utf16) =
        (Storage.parseTokens fields tokens).map fun p =>
          (p.1.map encodeTerm, p.2.map utf16)
  | [], _ => rfl
  | token :: rest, h => by
      have htoken := parseToken_utf16 (h token List.mem_cons_self)
      have hrest := parseTokens_utf16 fun t ht => h t (List.mem_cons_of_mem token ht)
      rw [List.map_cons, parseTokens, Storage.parseTokens, htoken, hrest]
      cases hfield : signalField fields token with
      | none =>
          simp only [encodeResult, Option.map_map]
          rfl
      | some f =>
          cases hterm : f.term with
          | none => simp [encodeResult, hterm]
          | some term =>
              simp only [encodeResult, hterm, Option.map_map]
              rfl

theorem loneFree_of_search
    {search : GoString} {fields : List GoString}
    (h : loneSurrogateFree search fields = true)
    {tokens : List GoString} (htokens : Storage.searchTokens search = some tokens) :
    ∀ token ∈ tokens, ∀ f, signalField fields token = some f → f.loneFree = true := by
  intro token htoken f hf
  rw [loneSurrogateFree, htokens] at h
  have := List.all_eq_true.mp h token htoken
  simpa [hf] using this

theorem intercalate_utf16 :
    ∀ text : List GoString,
      List.intercalate (js " ") (text.map utf16) = utf16 (List.intercalate [' '] text)
  | [] => rfl
  | [t] => by simp
  | t :: t' :: text => by
      have ih := intercalate_utf16 (t' :: text)
      rw [List.map_cons, List.map_cons, List.intercalate_cons_cons,
        List.intercalate_cons_cons, ← List.map_cons, ih, utf16_append, utf16_append]
      rfl

theorem filter_utf16 (text : List GoString) :
    (text.map utf16).filter (fun token => decide (token ≠ js "AND")) =
      (text.filter fun token => decide (token ≠ "AND".toList)).map utf16 := by
  rw [List.filter_map]
  refine congrArg (List.map utf16) (List.filter_congr fun token _ => ?_)
  simp only [js, Function.comp_apply, ne_eq, utf16_inj]

theorem parse_utf16
    {search : GoString} {fields : List GoString}
    (h : loneSurrogateFree search fields = true) :
    parseLogSearch (utf16 search) (fields.map utf16) =
      (utf16 (parseSignalSearch search fields).1,
        (parseSignalSearch search fields).2.map encodeTerm) := by
  unfold parseLogSearch parseSignalSearch
  rw [searchTokens_utf16]
  cases htokens : Storage.searchTokens search with
  | none => rfl
  | some tokens =>
      simp only [Option.map_some, Option.bind_some,
        parseTokens_utf16 (loneFree_of_search h htokens)]
      cases Storage.parseTokens fields tokens with
      | none => rfl
      | some p =>
          obtain ⟨terms, text⟩ := p
          cases terms with
          | nil => rfl
          | cons term terms =>
              simp only [Option.map_some, List.map_cons, List.isEmpty_cons,
                Bool.false_eq_true, if_false, filter_utf16, intercalate_utf16]

/-- The browser parses the encoding of a search as the server parses the search:
the free text and the terms are the same, and so are the searches that fall back
to free text as a whole. -/
theorem parseLogSearch_utf16
    {search : GoString} {fields : List GoString}
    (h : loneSurrogateFree search fields = true) :
    parseLogSearch (utf16 search) (fields.map utf16) =
        (utf16 (parseSignalSearch search fields).1,
          (parseSignalSearch search fields).2.map encodeTerm) ∧
      (parseLogSearch (utf16 search) (fields.map utf16) = (utf16 search, []) ↔
        parseSignalSearch search fields = (search, [])) := by
  have hparse := parse_utf16 h
  refine ⟨hparse, ?_⟩
  rw [hparse, Prod.mk.injEq, utf16_inj, List.map_eq_nil_iff, Prod.ext_iff]

/-- An escaped surrogate pair, a character outside the basic plane and a literal
with wildcards. -/
def sampleSearch : GoString :=
  "-body:\"\\ud83d\\ude00 x\" AND 😀 resource.a.b:~\"*\\u00e9\"".toList

theorem parseLogSearch_utf16_sample :
    parseLogSearch (utf16 sampleSearch) (["body".toList].map utf16) =
        (utf16 (parseSignalSearch sampleSearch ["body".toList]).1,
          (parseSignalSearch sampleSearch ["body".toList]).2.map encodeTerm) ∧
      (parseLogSearch (utf16 sampleSearch) (["body".toList].map utf16) =
          (utf16 sampleSearch, []) ↔
        parseSignalSearch sampleSearch ["body".toList] = (sampleSearch, [])) :=
  parseLogSearch_utf16 (by decide +kernel)

end Frontend
end Otelop
