import Mathlib.Tactic
import Otelop.Lib.JsonString

/-!
# JSON texts

The grammar of RFC 8259 as a reader of characters and a writer without white space.  A tree
keeps the characters of its strings and numbers, so that what these stand for is a matter of the
program.  The reader goes down a given number of levels.

A parser gives a value and the characters behind it.  The reader of an array or of an object is
one reader of a sequence with what an element is as a parameter, and takes the reader of the
next lower level for that.  A text that was written may stand in a larger one as long as what
follows it does not go on with it (`Delimited`), which is needed for numbers only.

**Results.**
* `parseValue_text`: a text that was written is read back as the tree, unless it is nested
  deeper than the reader goes.
* `parse_text`: so is the whole text.
-/

namespace Otelop
namespace Lib

universe u

/-- A JSON value, with its strings and numbers as they are written. -/
inductive Json where
  | null
  | bool (b : Bool)
  | number (literal : List Char)
  | string (literal : List Char)
  | array (items : List Json)
  | object (members : List (List Char × Json))

/-- What reads from the front of a text leaves the rest of it. -/
abbrev Parser (α : Type u) := List Char → Option (α × List Char)

/-- What follows the white space at the start. -/
def skipSpace (cs : List Char) : List Char := cs.dropWhile fun c => isJsonSpace c.toNat

/-! ### Literals -/

/-- The characters of a string up to its closing quote, from inside the string or, if
`escaped`, from behind a backslash. -/
def scanString (escaped : Bool) : Parser (List Char)
  | [] => none
  | c :: rest =>
      if escaped then (scanString false rest).map fun p => (c :: p.1, p.2)
      else if c = '"' then some ([c], rest)
      else (scanString (c = '\\') rest).map fun p => (c :: p.1, p.2)

/-- Where the scanner of a number stands. -/
inductive NumberState where
  | start
  | minus
  | zero
  | whole
  | point
  | fraction
  | exponent
  | exponentSign
  | exponentDigits
deriving DecidableEq

/-- One more character of a number. -/
def NumberState.step (state : NumberState) (c : Char) : Option NumberState :=
  match state with
  | .start =>
      if c = '-' then some .minus
      else if c = '0' then some .zero
      else if c.isDigit then some .whole
      else none
  | .minus => if c = '0' then some .zero else if c.isDigit then some .whole else none
  | .zero =>
      if c = '.' then some .point else if c = 'e' ∨ c = 'E' then some .exponent else none
  | .whole =>
      if c.isDigit then some .whole
      else if c = '.' then some .point
      else if c = 'e' ∨ c = 'E' then some .exponent
      else none
  | .point => if c.isDigit then some .fraction else none
  | .fraction =>
      if c.isDigit then some .fraction
      else if c = 'e' ∨ c = 'E' then some .exponent
      else none
  | .exponent =>
      if c = '+' ∨ c = '-' then some .exponentSign
      else if c.isDigit then some .exponentDigits
      else none
  | .exponentSign => if c.isDigit then some .exponentDigits else none
  | .exponentDigits => if c.isDigit then some .exponentDigits else none

/-- A number may end here. -/
def NumberState.final : NumberState → Bool
  | .zero | .whole | .fraction | .exponentDigits => true
  | _ => false

/-- The characters of a number are read as long as the grammar goes on. -/
def scanNumber (state : NumberState) : Parser (List Char)
  | [] => if state.final then some ([], []) else none
  | c :: rest =>
      match state.step c with
      | some next => (scanNumber next rest).map fun p => (c :: p.1, p.2)
      | none => if state.final then some ([], c :: rest) else none

/-- The literal is a number of the grammar, to its end. -/
def IsNumber (literal : List Char) : Prop := scanNumber .start literal = some (literal, [])

instance (literal : List Char) : Decidable (IsNumber literal) :=
  inferInstanceAs (Decidable (_ = _))

/-- A string with its quotes. -/
def IsString (literal : List Char) : Prop :=
  ∃ body, literal = '"' :: body ∧ scanString false body = some (body, [])

/-- `null`, `true` and `false`. -/
def keyword (word : List Char) (value : Json) : Parser Json := fun cs =>
  if word.isPrefixOf cs then some (value, cs.drop word.length) else none

/-- A string, a number or a keyword; `c` is the first character. -/
def parseScalar (c : Char) (rest : List Char) : Option (Json × List Char) :=
  if c = '"' then (scanString false rest).map fun p => (.string (c :: p.1), p.2)
  else if c = 't' then keyword ['t', 'r', 'u', 'e'] (.bool true) (c :: rest)
  else if c = 'f' then keyword ['f', 'a', 'l', 's', 'e'] (.bool false) (c :: rest)
  else if c = 'n' then keyword ['n', 'u', 'l', 'l'] .null (c :: rest)
  else (scanNumber .start (c :: rest)).map fun p => (.number p.1, p.2)

/-! ### Arrays and objects -/

section Sequence

variable {α : Type u} (item : Parser α) (close : Char)

/-- Items up to the closing character; `fuel` is more than the characters left. -/
def parseItems : Nat → Parser (List α)
  | 0, _ => none
  | fuel + 1, cs =>
      (item cs).bind fun p =>
        match skipSpace p.2 with
        | [] => none
        | c :: rest =>
            if c = ',' then (parseItems fuel rest).map fun q => (p.1 :: q.1, q.2)
            else if c = close then some ([p.1], rest)
            else none

/-- What stands between brackets. -/
def parseSequence : Parser (List α) := fun cs =>
  match skipSpace cs with
  | [] => none
  | c :: rest =>
      if c = close then some ([], rest)
      else parseItems item close (cs.length + 1) (c :: rest)

end Sequence

/-- `"key": value` -/
def parseMember (value : Parser Json) : Parser (List Char × Json) := fun cs =>
  match skipSpace cs with
  | [] => none
  | quote :: rest =>
      if quote = '"' then
        (scanString false rest).bind fun key =>
          match skipSpace key.2 with
          | [] => none
          | c :: rest =>
              if c = ':' then (value rest).map fun p => ((quote :: key.1, p.1), p.2) else none
      else none

/-- A value; `inner` reads the values inside it, and is missing at the last level. -/
def parseWith (inner : Option (Parser Json)) : Parser Json := fun cs =>
  match skipSpace cs with
  | [] => none
  | c :: rest =>
      if c = '[' then
        inner.bind fun value =>
          (parseSequence value ']' rest).map fun p => (.array p.1, p.2)
      else if c = '\x7b' then
        inner.bind fun value =>
          (parseSequence (parseMember value) '\x7d' rest).map fun p => (.object p.1, p.2)
      else parseScalar c rest

/-- A value with at most `depth` levels of arrays and objects. -/
def parseValue : Nat → Parser Json
  | 0 => parseWith none
  | depth + 1 => parseWith (some (parseValue depth))

/-- A whole text, with white space around the value. -/
def parse (depth : Nat) (cs : List Char) : Option Json :=
  (parseValue depth cs).bind fun p => if skipSpace p.2 = [] then some p.1 else none

/-! ### Writing -/

mutual

/-- A value, written without white space. -/
def Json.text : Json → List Char
  | .null => ['n', 'u', 'l', 'l']
  | .bool true => ['t', 'r', 'u', 'e']
  | .bool false => ['f', 'a', 'l', 's', 'e']
  | .number literal => literal
  | .string literal => literal
  | .array items => '[' :: (List.intercalate [','] (itemTexts items) ++ [']'])
  | .object members => '\x7b' :: (List.intercalate [','] (memberTexts members) ++ ['\x7d'])

/-- The texts of the items of an array. -/
def itemTexts : List Json → List (List Char)
  | [] => []
  | v :: items => v.text :: itemTexts items

/-- The texts of the members of an object. -/
def memberTexts : List (List Char × Json) → List (List Char)
  | [] => []
  | m :: members => memberText m :: memberTexts members

/-- A member: its key, a colon and its value. -/
def memberText : List Char × Json → List Char
  | (key, v) => key ++ ':' :: v.text

end

mutual

/-- The levels of arrays and objects. -/
def Json.depth : Json → Nat
  | .array items => itemsDepth items + 1
  | .object members => membersDepth members + 1
  | _ => 0

/-- How deep the items of an array are nested. -/
def itemsDepth : List Json → Nat
  | [] => 0
  | v :: items => max v.depth (itemsDepth items)

/-- How deep the members of an object are nested. -/
def membersDepth : List (List Char × Json) → Nat
  | [] => 0
  | m :: members => max (memberDepth m) (membersDepth members)

def memberDepth : List Char × Json → Nat
  | (_, v) => v.depth

end

/-- The strings and numbers are literals. -/
inductive Json.WellFormed : Json → Prop
  | null :
      WellFormed .null
  | bool
      {b : Bool} :
      WellFormed (.bool b)
  | number
      {literal : List Char}
      (h : IsNumber literal) :
      WellFormed (.number literal)
  | string
      {literal : List Char}
      (h : IsString literal) :
      WellFormed (.string literal)
  | array
      {items : List Json}
      (h : ∀ v ∈ items, WellFormed v) :
      WellFormed (.array items)
  | object
      {members : List (List Char × Json)}
      (hkeys : ∀ key v, (key, v) ∈ members → IsString key)
      (h : ∀ key v, (key, v) ∈ members → WellFormed v) :
      WellFormed (.object members)

/-! ### Texts of lists -/

@[simp] theorem itemTexts_eq_map (items : List Json) : itemTexts items = items.map Json.text := by
  induction items with
  | nil => rfl
  | cons v items ih => rw [itemTexts, ih, List.map_cons]

@[simp] theorem memberTexts_eq_map (members : List (List Char × Json)) :
    memberTexts members = members.map memberText := by
  induction members with
  | nil => rfl
  | cons m members ih => rw [memberTexts, ih, List.map_cons]

/-- A list of values is as deep as its deepest one. -/
theorem itemsDepth_le_iff
    {items : List Json} {d : Nat} :
    itemsDepth items ≤ d ↔ ∀ v ∈ items, v.depth ≤ d := by
  induction items with
  | nil => simp [itemsDepth]
  | cons v items ih => rw [itemsDepth, max_le_iff, ih, List.forall_mem_cons]

/-- A list of members is as deep as its deepest value. -/
theorem membersDepth_le_iff
    {members : List (List Char × Json)} {d : Nat} :
    membersDepth members ≤ d ↔ ∀ m ∈ members, m.2.depth ≤ d := by
  induction members with
  | nil => simp [membersDepth]
  | cons m members ih => rw [membersDepth, max_le_iff, ih, List.forall_mem_cons, memberDepth]

/-! ### Reading literals back -/

/-- What follows a value inside a text that was written. -/
def Delimited (rest : List Char) : Prop :=
  ∀ c ∈ rest.head?, c = ',' ∨ c = ']' ∨ c = '\x7d'

/-- A value may end the text. -/
theorem delimited_nil : Delimited [] := by
  intro c hc
  cases hc

/-- A comma or a closing bracket may follow a value. -/
theorem delimited_cons
    {c : Char} (hc : c = ',' ∨ c = ']' ∨ c = '\x7d') (rest : List Char) :
    Delimited (c :: rest) := by
  intro a ha
  rwa [← Option.some.inj ha]

/-- What may follow a value ends a number. -/
theorem NumberState.step_eq_none
    {c : Char} (hc : c = ',' ∨ c = ']' ∨ c = '\x7d') (state : NumberState) :
    state.step c = none := by
  rcases hc with rfl | rfl | rfl <;> cases state <;> rfl

/-- A number is read in front of what may follow it. -/
theorem scanNumber_append
    {rest : List Char} (hrest : Delimited rest) {literal : List Char} {state : NumberState}
    (h : scanNumber state literal = some (literal, [])) :
    scanNumber state (literal ++ rest) = some (literal, rest) := by
  induction literal generalizing state with
  | nil =>
      have hfinal : state.final = true := by
        by_contra hfinal
        rw [scanNumber, if_neg hfinal] at h
        cases h
      cases rest with
      | nil => exact h
      | cons c rest =>
          rw [List.nil_append, scanNumber, NumberState.step_eq_none (hrest c rfl)]
          dsimp only
          rw [if_pos hfinal]
  | cons c literal ih =>
      rw [scanNumber] at h
      rw [List.cons_append, scanNumber]
      cases hstep : state.step c with
      | none =>
          rw [hstep] at h
          dsimp only at h
          split_ifs at h
          cases h
      | some next =>
          rw [hstep] at h
          obtain ⟨p, hp, heq⟩ := Option.map_eq_some_iff.mp h
          obtain ⟨hlit, hrest'⟩ := Prod.mk.inj heq
          have hread : scanNumber next literal = some (literal, []) := by
            rw [hp, ← (List.cons.inj hlit).2, ← hrest']
          dsimp only
          rw [ih hread]
          rfl

/-- A string is read in front of anything. -/
theorem scanString_append
    (rest : List Char) {cs literal left : List Char} {escaped : Bool}
    (h : scanString escaped cs = some (literal, left)) :
    scanString escaped (cs ++ rest) = some (literal, left ++ rest) := by
  induction cs generalizing escaped literal with
  | nil => cases h
  | cons c cs ih =>
      rw [scanString] at h
      rw [List.cons_append, scanString]
      split_ifs at h ⊢ with hescaped hquote
      · obtain ⟨p, hp, heq⟩ := Option.map_eq_some_iff.mp h
        obtain ⟨rfl, rfl⟩ := Prod.mk.inj heq
        rw [ih hp]
        rfl
      · obtain ⟨rfl, rfl⟩ := Prod.mk.inj (Option.some.inj h)
        rfl
      · obtain ⟨p, hp, heq⟩ := Option.map_eq_some_iff.mp h
        obtain ⟨rfl, rfl⟩ := Prod.mk.inj heq
        rw [ih hp]
        rfl

/-- A keyword is read in front of anything. -/
theorem keyword_append
    (word : List Char) (value : Json) (rest : List Char) :
    keyword word value (word ++ rest) = some (value, rest) := by
  rw [keyword, if_pos (List.isPrefixOf_iff_prefix.mpr (List.prefix_append word rest)),
    List.drop_left]

/-- A number starts with a sign or a digit. -/
theorem start_of_isNumber
    {literal : List Char} (h : IsNumber literal) :
    ∃ c cs, literal = c :: cs ∧ (c = '-' ∨ c.isDigit) := by
  cases literal with
  | nil => cases h
  | cons c cs =>
      refine ⟨c, cs, rfl, ?_⟩
      by_contra hc
      push Not at hc
      have hzero : c ≠ '0' := by
        rintro rfl
        exact hc.2 rfl
      rw [IsNumber, scanNumber, NumberState.step, if_neg hc.1, if_neg hzero, if_neg hc.2] at h
      cases h

theorem ne_of_startsNumber
    {c : Char} (hc : c = '-' ∨ c.isDigit) {d : Char} (hminus : d ≠ '-')
    (hdigit : d.isDigit = false) :
    c ≠ d := by
  rintro rfl
  rcases hc with hc | hc
  · exact hminus hc
  · rw [hdigit] at hc
    cases hc

/-- A digit or a minus sign starts a number. -/
theorem parseScalar_number
    {c : Char} (hc : c = '-' ∨ c.isDigit) (rest : List Char) :
    parseScalar c rest = (scanNumber .start (c :: rest)).map fun p => (.number p.1, p.2) := by
  rw [parseScalar, if_neg (ne_of_startsNumber hc (by decide) rfl),
    if_neg (ne_of_startsNumber hc (by decide) rfl),
    if_neg (ne_of_startsNumber hc (by decide) rfl),
    if_neg (ne_of_startsNumber hc (by decide) rfl)]

/-! ### Reading lists back -/

/-- The text is not mistaken for the end of a list. -/
def Starts (close : Char) (text : List Char) : Prop :=
  ∃ c cs, text = c :: cs ∧ isJsonSpace c.toNat = false ∧ c ≠ close

theorem skipSpace_cons
    {c : Char} (hc : isJsonSpace c.toNat = false) (rest : List Char) :
    skipSpace (c :: rest) = c :: rest := by
  rw [skipSpace, List.dropWhile_cons_of_neg]
  rw [hc]
  exact Bool.false_ne_true

section Sequence

variable {α : Type u} {item : Parser α} {close : Char} {text : α → List Char} {ok : α → Bool}

/-- Items with commas between them are read one by one. -/
theorem parseItems_intercalate
    (hclose : close = ']' ∨ close = '\x7d') {xs : List α} (hxs : xs ≠ []) {fuel : Nat}
    (hfuel : xs.length ≤ fuel)
    (hitem : ∀ x ∈ xs, ∀ rest, Delimited rest →
      item (text x ++ rest) = if ok x then some (x, rest) else none)
    (rest : List Char) :
    parseItems item close fuel (List.intercalate [','] (xs.map text) ++ close :: rest) =
      if xs.all ok then some (xs, rest) else none := by
  have hspace : isJsonSpace close.toNat = false := by
    rcases hclose with rfl | rfl <;> rfl
  have hcomma : close ≠ ',' := by
    rcases hclose with rfl | rfl <;> decide
  induction xs generalizing fuel with
  | nil => exact absurd rfl hxs
  | cons x xs ih =>
      obtain ⟨fuel, rfl⟩ := Nat.exists_eq_add_of_le' (Nat.one_le_of_lt hfuel)
      have hx := hitem x List.mem_cons_self
      rw [List.all_cons]
      cases xs with
      | nil =>
          rw [List.map_singleton, List.intercalate_singleton, parseItems,
            hx _ (delimited_cons (Or.inr hclose) rest)]
          cases ok x with
          | false => rfl
          | true =>
              rw [if_pos rfl, Option.bind_some, skipSpace_cons hspace]
              dsimp only
              rw [if_neg hcomma, if_pos rfl]
              rfl
      | cons y ys =>
          have htail := ih (List.cons_ne_nil y ys) (Nat.le_of_succ_le_succ hfuel)
            fun z hz => hitem z (List.mem_cons_of_mem x hz)
          rw [List.map_cons, List.map_cons, List.intercalate_cons_cons, List.append_assoc,
            List.append_assoc, List.singleton_append, parseItems,
            hx _ (delimited_cons (Or.inl rfl) _)]
          cases ok x with
          | false => rfl
          | true =>
              rw [if_pos rfl, Option.bind_some, skipSpace_cons rfl]
              dsimp only
              rw [if_pos rfl, ← List.map_cons, htail, Bool.true_and]
              cases (y :: ys).all ok <;> rfl

/-- A list has no more items than characters. -/
theorem length_le_intercalate
    {texts : List (List Char)} (h : ∀ t ∈ texts, t ≠ []) :
    texts.length ≤ (List.intercalate [','] texts).length := by
  induction texts with
  | nil => exact Nat.zero_le _
  | cons t texts ih =>
      have ht : 0 < t.length := List.length_pos_iff.mpr (h t List.mem_cons_self)
      have htail := ih fun t ht => h t (List.mem_cons_of_mem _ ht)
      cases texts with
      | nil => rwa [List.intercalate_singleton]
      | cons t' texts =>
          rw [List.intercalate_cons_cons, List.length_append, List.length_append,
            List.length_cons]
          omega

/-- A sequence in brackets is read, or refused where one of its items is. -/
theorem parseSequence_intercalate
    (hclose : close = ']' ∨ close = '\x7d') {xs : List α}
    (hstart : ∀ x ∈ xs, Starts close (text x))
    (hitem : ∀ x ∈ xs, ∀ rest, Delimited rest →
      item (text x ++ rest) = if ok x then some (x, rest) else none)
    (rest : List Char) :
    parseSequence item close (List.intercalate [','] (xs.map text) ++ close :: rest) =
      if xs.all ok then some (xs, rest) else none := by
  cases xs with
  | nil =>
      have hspace : isJsonSpace close.toNat = false := by
        rcases hclose with rfl | rfl <;> rfl
      rw [List.map_nil, List.intercalate_nil, List.nil_append, parseSequence,
        skipSpace_cons hspace]
      dsimp only
      rw [if_pos rfl]
      rfl
  | cons x xs =>
      have hlen : (x :: xs).length ≤
          (List.intercalate [','] ((x :: xs).map text) ++ close :: rest).length + 1 := by
        have hne : ∀ t ∈ (x :: xs).map text, t ≠ [] := by
          intro t ht
          obtain ⟨y, hy, rfl⟩ := List.mem_map.mp ht
          obtain ⟨c, cs, htext, -, -⟩ := hstart y hy
          rw [htext]
          exact List.cons_ne_nil c cs
        have hle := length_le_intercalate hne
        rw [List.length_map] at hle
        rw [List.length_append]
        omega
      have hread := parseItems_intercalate hclose (List.cons_ne_nil x xs) hlen hitem rest
      obtain ⟨c, cs, htext, hspace, hne⟩ := hstart x List.mem_cons_self
      obtain ⟨tail, htail⟩ : ∃ tail, List.intercalate [','] ((x :: xs).map text) ++
          close :: rest = c :: tail := by
        cases xs with
        | nil =>
            rw [List.map_singleton, List.intercalate_singleton, htext]
            exact ⟨_, rfl⟩
        | cons y ys =>
            rw [List.map_cons, List.map_cons, List.intercalate_cons_cons, htext]
            exact ⟨_, rfl⟩
      rw [htail] at hread ⊢
      rw [parseSequence, skipSpace_cons hspace]
      dsimp only
      rw [if_neg hne]
      exact hread

end Sequence

/-! ### Reading a tree back -/

/-- The text of a value is not the end of an array. -/
theorem starts_text
    {v : Json} (h : v.WellFormed) :
    Starts ']' v.text := by
  cases h with
  | null => exact ⟨_, _, rfl, rfl, by decide⟩
  | @bool b => cases b <;> exact ⟨_, _, rfl, rfl, by decide⟩
  | @number literal h =>
      obtain ⟨c, cs, rfl, hc⟩ := start_of_isNumber h
      refine ⟨c, cs, rfl, ?_, ?_⟩
      · rcases hc with rfl | hc
        · rfl
        · have hge : 48 ≤ c.toNat := by
            rw [Char.isDigit, Bool.and_eq_true, decide_eq_true_eq] at hc
            exact hc.1
          rw [isJsonSpace]
          simp only [Bool.or_eq_false_iff, decide_eq_false_iff_not]
          omega
      · rintro rfl
        rcases hc with hc | hc <;> cases hc
  | string h =>
      obtain ⟨body, rfl, -⟩ := h
      exact ⟨_, _, rfl, rfl, by decide⟩
  | array _ => exact ⟨_, _, rfl, rfl, by decide⟩
  | object _ _ => exact ⟨_, _, rfl, rfl, by decide⟩

/-- The text of a member is not the end of an object. -/
theorem starts_memberText
    {m : List Char × Json} (h : IsString m.1) :
    Starts '\x7d' (memberText m) := by
  obtain ⟨key, v⟩ := m
  obtain ⟨body, rfl, -⟩ := h
  exact ⟨_, _, rfl, rfl, by decide⟩

/-- A member is read as its key and its value. -/
theorem parseMember_memberText
    {value : Parser Json} {m : List Char × Json} (hkey : IsString m.1) {ok : Bool}
    {rest : List Char}
    (h : value (m.2.text ++ rest) = if ok then some (m.2, rest) else none) :
    parseMember value (memberText m ++ rest) = if ok then some (m, rest) else none := by
  obtain ⟨key, v⟩ := m
  obtain ⟨body, rfl, hbody⟩ := hkey
  rw [memberText, List.append_assoc, List.cons_append, List.cons_append, parseMember,
    skipSpace_cons rfl]
  dsimp only at h ⊢
  rw [if_pos rfl, scanString_append _ hbody, Option.bind_some, List.nil_append,
    skipSpace_cons rfl]
  dsimp only
  rw [if_pos rfl, h]
  cases ok <;> rfl

theorem parseValue_eq (depth : Nat) :
    parseValue depth =
      parseWith (if depth = 0 then none else some (parseValue (depth - 1))) := by
  cases depth with
  | zero => rfl
  | succ depth => rfl

/-- What is neither an array nor an object is a scalar. -/
theorem parseValue_scalar
    {c : Char} (hspace : isJsonSpace c.toNat = false) (harray : c ≠ '[')
    (hobject : c ≠ '\x7b') (depth : Nat) (rest : List Char) :
    parseValue depth (c :: rest) = parseScalar c rest := by
  rw [parseValue_eq, parseWith, skipSpace_cons hspace]
  dsimp only
  rw [if_neg harray, if_neg hobject]

/-- A well-formed value is read from its text, unless it is too deep. -/
theorem parseValue_text
    {v : Json} (h : v.WellFormed) (depth : Nat) {rest : List Char} (hrest : Delimited rest) :
    parseValue depth (v.text ++ rest) = if v.depth ≤ depth then some (v, rest) else none := by
  induction h generalizing depth rest with
  | null =>
      have hdepth : Json.depth .null ≤ depth := Nat.zero_le depth
      rw [if_pos hdepth]
      exact (parseValue_scalar rfl (by decide) (by decide) depth _).trans
        (keyword_append ['n', 'u', 'l', 'l'] .null rest)
  | @bool b =>
      have hdepth : (Json.bool b).depth ≤ depth := Nat.zero_le depth
      rw [if_pos hdepth]
      cases b with
      | true =>
          exact (parseValue_scalar rfl (by decide) (by decide) depth _).trans
            (keyword_append ['t', 'r', 'u', 'e'] (.bool true) rest)
      | false =>
          exact (parseValue_scalar rfl (by decide) (by decide) depth _).trans
            (keyword_append ['f', 'a', 'l', 's', 'e'] (.bool false) rest)
  | @number literal h =>
      have hdepth : (Json.number literal).depth ≤ depth := Nat.zero_le depth
      rw [if_pos hdepth, Json.text]
      have hscan := scanNumber_append hrest h
      obtain ⟨c, cs, rfl, hc⟩ := start_of_isNumber h
      obtain ⟨_, _, heq, hspace, -⟩ := starts_text (.number h)
      obtain ⟨rfl, rfl⟩ := List.cons.inj heq
      rw [List.cons_append] at hscan ⊢
      rw [parseValue_scalar hspace (ne_of_startsNumber hc (by decide) rfl)
        (ne_of_startsNumber hc (by decide) rfl), parseScalar_number hc, hscan]
      rfl
  | string h =>
      obtain ⟨body, rfl, hbody⟩ := h
      have hdepth : (Json.string ('"' :: body)).depth ≤ depth := Nat.zero_le depth
      rw [if_pos hdepth, Json.text, List.cons_append,
        parseValue_scalar rfl (by decide) (by decide), parseScalar, if_pos rfl,
        scanString_append rest hbody]
      rfl
  | @array items hwf ih =>
      rw [parseValue_eq, Json.text, Json.depth, List.cons_append, List.append_assoc,
        List.singleton_append, parseWith, skipSpace_cons rfl, itemTexts_eq_map]
      dsimp only
      rw [if_pos rfl]
      cases depth with
      | zero => rfl
      | succ depth =>
          have hitem : ∀ v ∈ items, ∀ rest, Delimited rest → parseValue depth (v.text ++ rest) =
              if decide (v.depth ≤ depth) then some (v, rest) else none := by
            intro v hv rest hrest
            simpa only [decide_eq_true_eq] using ih v hv depth hrest
          rw [if_neg (Nat.succ_ne_zero depth), Option.bind_some, Nat.add_sub_cancel,
            parseSequence_intercalate (Or.inl rfl) (fun v hv => starts_text (hwf v hv)) hitem]
          have hall : (items.all fun v => decide (v.depth ≤ depth)) = true ↔
              itemsDepth items + 1 ≤ depth + 1 := by
            rw [List.all_eq_true, Nat.add_le_add_iff_right, itemsDepth_le_iff]
            simp only [decide_eq_true_eq]
          rw [if_congr hall rfl rfl]
          split_ifs <;> rfl
  | @object members hkeys hwf ih =>
      rw [parseValue_eq, Json.text, Json.depth, List.cons_append, List.append_assoc,
        List.singleton_append, parseWith, skipSpace_cons rfl, memberTexts_eq_map]
      dsimp only
      rw [if_neg (by decide), if_pos rfl]
      cases depth with
      | zero => rfl
      | succ depth =>
          have hitem : ∀ m ∈ members, ∀ rest, Delimited rest →
              parseMember (parseValue depth) (memberText m ++ rest) =
                if decide (m.2.depth ≤ depth) then some (m, rest) else none := by
            intro m hm rest hrest
            refine parseMember_memberText (hkeys m.1 m.2 hm) ?_
            simpa only [decide_eq_true_eq] using ih m.1 m.2 hm depth hrest
          rw [if_neg (Nat.succ_ne_zero depth), Option.bind_some, Nat.add_sub_cancel,
            parseSequence_intercalate (Or.inr rfl)
              (fun m hm => starts_memberText (hkeys m.1 m.2 hm)) hitem]
          have hall : (members.all fun m => decide (m.2.depth ≤ depth)) = true ↔
              membersDepth members + 1 ≤ depth + 1 := by
            rw [List.all_eq_true, Nat.add_le_add_iff_right, membersDepth_le_iff]
            simp only [decide_eq_true_eq]
          rw [if_congr hall rfl rfl]
          split_ifs <;> rfl

/-- The whole text of a well-formed value is read back, unless it is too deep. -/
theorem parse_text
    {v : Json} (h : v.WellFormed) (depth : Nat) :
    parse depth v.text = if v.depth ≤ depth then some v else none := by
  have hread := parseValue_text h depth delimited_nil
  rw [List.append_nil] at hread
  rw [parse, hread]
  split_ifs <;> rfl

end Lib
end Otelop
