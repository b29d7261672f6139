import Mathlib.Tactic
import Otelop.Lib.JsonNumber
import Otelop.Lib.JsonRunes
import Otelop.Storage.AttributeMap

/-!
# The JSON projection of attributes

The columns hold `json.Marshal` of `attributesToMap`, and `decodeAttrs` of
`internal/storage/query.go` reads them with `json.Unmarshal` into a `map[string]any`.  The
numbers of such a map are doubles, and `encoding/json` does not read texts nested deeper than
`maxNestingDepth`.

How a finite double is printed is a parameter, which `PrintsDoubles` says reads back.  The
column gives back the text that was put in.

**Results.**
* `encoded_of_plain`: the tree a value is written as, and what is read from the tree.
* `decodeAttrs_storedAttrs`: a map is read back unless it is nested too deep, with every
  integer as the nearest double.
-/

namespace Otelop
namespace Storage

open Lib
open Pcommon (Value)

/-! ### Writing -/

/-- `base64.StdEncoding` -/
def base64Char (n : Nat) : Char :=
  ("ABCDEFGHIJKLMNOPQRSTUVWXYZabcdefghijklmnopqrstuvwxyz0123456789+/".toList).getD n '='

def base64 : List UInt8 → List Char
  | [] => []
  | [a] => [base64Char (a.toNat / 4), base64Char (a.toNat % 4 * 16), '=', '=']
  | [a, b] =>
      [base64Char (a.toNat / 4), base64Char (a.toNat % 4 * 16 + b.toNat / 16),
        base64Char (b.toNat % 16 * 4), '=']
  | a :: b :: c :: rest =>
      base64Char (a.toNat / 4) :: base64Char (a.toNat % 4 * 16 + b.toNat / 16) ::
        base64Char (b.toNat % 16 * 4 + c.toNat / 64) :: base64Char (c.toNat % 64) :: base64 rest

/-- A string as a literal. -/
def stringLiteral (s : ByteString) : List Char := quoteRunes (decodeRunes s)

/-- The members of an object are in the order of their keys. -/
def sortMembers (members : List (ByteString × Json)) : List (ByteString × Json) :=
  members.mergeSort fun a b => a.1 ≤ b.1

section Marshal

variable (formatFloat : UInt64 → List Char)

mutual

/-- `json.Marshal` of a value as a tree; `none` is `UnsupportedValueError`. -/
def encodeValue : HashValue → Option Json
  | .nil => some .null
  | .string s => some (.string (stringLiteral s))
  | .int64 n => some (.number (formatInt n.toInt))
  | .float64 bits => if isFiniteBits bits then some (.number (formatFloat bits)) else none
  | .bool b => some (.bool b)
  | .bytes raw => some (.string ('"' :: (base64 raw ++ ['"'])))
  | .slice items => (encodeItems items).map .array
  | .map attrs =>
      (encodeMembers attrs).map fun members =>
        .object ((sortMembers members).map fun m => (stringLiteral m.1, m.2))
  | .uint64 n => some (.number (formatInt n.toNat))

def encodeItems : List HashValue → Option (List Json)
  | [] => some []
  | item :: items =>
      (encodeValue item).bind fun json => (encodeItems items).map (json :: ·)

def encodeMembers : List (ByteString × HashValue) → Option (List (ByteString × Json))
  | [] => some []
  | entry :: attrs =>
      (encodeMember entry).bind fun json => (encodeMembers attrs).map (json :: ·)

def encodeMember : ByteString × HashValue → Option (ByteString × Json)
  | (key, value) => (encodeValue value).map fun json => (key, json)

end

/-- `json.Marshal` -/
def marshal (value : HashValue) : Option ByteString :=
  (encodeValue formatFloat value).map fun json => utf8Bytes json.text

/-- The JSON column of attributes. -/
def storedAttrs (attrs : List (ByteString × Value)) : Option ByteString :=
  marshal formatFloat (.map (attributesToMap attrs))

end Marshal

/-! ### Reading -/

/-- The deepest text `encoding/json` reads. -/
def maxNestingDepth : Nat := 10000

/-- The string a literal stands for. -/
def unquoteString (literal : List Char) : Option ByteString := (unquote literal).map utf8Bytes

mutual

/-- `valueInterface`; `none` is a literal without a value, such as a number out of range. -/
def decodeValue : Json → Option HashValue
  | .null => some .nil
  | .bool b => some (.bool b)
  | .number literal => (parseFloat literal).map .float64
  | .string literal => (unquoteString literal).map .string
  | .array items => (decodeItems items).map .slice
  | .object members => (decodeMembers members).map .map

def decodeItems : List Json → Option (List HashValue)
  | [] => some []
  | json :: items => (decodeValue json).bind fun item => (decodeItems items).map (item :: ·)

/-- A later member overwrites an earlier one with its key. -/
def decodeMembers : List (List Char × Json) → Option (List (ByteString × HashValue))
  | [] => some []
  | member :: members =>
      (decodeMember member).bind fun entry => (decodeMembers members).map fun result =>
        if entry.1 ∈ result.map Prod.fst then result else entry :: result

def decodeMember : List Char × Json → Option (ByteString × HashValue)
  | (literal, json) =>
      (unquoteString literal).bind fun key => (decodeValue json).map fun value => (key, value)

end

/-- The errors of `json.Unmarshal`. -/
inductive UnmarshalError where
  | syntaxError
  | unmarshalTypeError
deriving DecidableEq

/-- `json.Unmarshal` into a `map[string]any`; `null` leaves the map nil. -/
def unmarshalMap (raw : ByteString) :
    Except UnmarshalError (Option (List (ByteString × HashValue))) :=
  match parse maxNestingDepth ((decodeRunes raw).map fun rune => rune.getD '\uFFFD') with
  | none => .error .syntaxError
  | some .null => .ok none
  | some (.object members) =>
      match decodeMembers members with
      | none => .error .unmarshalTypeError
      | some attrs => .ok (some attrs)
  | some _ => .error .unmarshalTypeError

/-- An error with the text it is wrapped in. -/
structure DecodeError where
  text : String
  cause : UnmarshalError
deriving DecidableEq

/-- A missing text is a NULL column. -/
def decodeAttrs (raw : Option ByteString) :
    Except DecodeError (Option (List (ByteString × HashValue))) :=
  match raw with
  | none => .ok none
  | some raw =>
      match unmarshalMap raw with
      | .error cause => .error ⟨"storage: decode attributes: ", cause⟩
      | .ok attrs => .ok attrs

/-! ### The values that JSON holds -/

/-- What is known of the printing of finite doubles: it is a number and reads back. -/
structure PrintsDoubles (formatFloat : UInt64 → List Char) : Prop where
  isNumber : ∀ bits, isFiniteBits bits = true → IsNumber (formatFloat bits)
  readsBack : ∀ bits, isFiniteBits bits = true → parseFloat (formatFloat bits) = some bits

mutual

/-- The levels of slices and maps. -/
def nesting : Value → Nat
  | .slice items => itemsNesting items + 1
  | .map entries => entriesNesting entries + 1
  | _ => 0

def itemsNesting : List Value → Nat
  | [] => 0
  | item :: items => max (nesting item) (itemsNesting items)

def entriesNesting : List (ByteString × Value) → Nat
  | [] => 0
  | entry :: entries => max (entryNesting entry) (entriesNesting entries)

def entryNesting : ByteString × Value → Nat
  | (_, value) => nesting value

end

namespace Pcommon

/-- Strings of UTF-8, booleans, integers, finite doubles, and lists and maps of these. -/
inductive Value.Plain : Value → Prop
  | str
      {s : ByteString}
      (hs : ValidUtf8 s) :
      Plain (.str s)
  | int
      {n : Int64} :
      Plain (.int n)
  | double
      {bits : UInt64}
      (hbits : isFiniteBits bits = true) :
      Plain (.double bits)
  | bool
      {b : Bool} :
      Plain (.bool b)
  | slice
      {items : List Value}
      (hitems : ∀ v ∈ items, Plain v) :
      Plain (.slice items)
  | map
      {entries : List (ByteString × Value)}
      (hkeys : (entries.map Prod.fst).Nodup)
      (hkey : ∀ k ∈ entries.map Prod.fst, ValidUtf8 k)
      (hentries : ∀ k v, (k, v) ∈ entries → Plain v) :
      Plain (.map entries)

/-- Every integer in a value, at every depth. -/
inductive Value.EveryInt (p : Int64 → Prop) : Value → Prop
  | empty :
      EveryInt p .empty
  | str
      {s : ByteString} :
      EveryInt p (.str s)
  | int
      {n : Int64}
      (hn : p n) :
      EveryInt p (.int n)
  | double
      {bits : UInt64} :
      EveryInt p (.double bits)
  | bool
      {b : Bool} :
      EveryInt p (.bool b)
  | bytes
      {raw : List UInt8} :
      EveryInt p (.bytes raw)
  | slice
      {items : List Value}
      (hitems : ∀ v ∈ items, EveryInt p v) :
      EveryInt p (.slice items)
  | map
      {entries : List (ByteString × Value)}
      (hentries : ∀ k v, (k, v) ∈ entries → EveryInt p v) :
      EveryInt p (.map entries)

/-- The same keys and the same values at every depth, where a number is a double and
`number` says which one stands for an integer. -/
inductive Value.ReadsAs (number : Int64 → UInt64 → Prop) : Value → HashValue → Prop
  | str
      (s : ByteString) :
      ReadsAs number (.str s) (.string s)
  | int
      {n : Int64} {bits : UInt64}
      (h : number n bits) :
      ReadsAs number (.int n) (.float64 bits)
  | double
      (bits : UInt64) :
      ReadsAs number (.double bits) (.float64 bits)
  | bool
      (b : Bool) :
      ReadsAs number (.bool b) (.bool b)
  | slice
      {items : List Value} {items' : List HashValue}
      (hlen : items.length = items'.length)
      (hitems : ∀ (i : Nat) (v : Value) (w : HashValue),
        items[i]? = some v → items'[i]? = some w → ReadsAs number v w) :
      ReadsAs number (.slice items) (.slice items')
  | map
      {entries : List (ByteString × Value)} {attrs : List (ByteString × HashValue)}
      (hkeys : ∀ k, k ∈ entries.map Prod.fst ↔ k ∈ attrs.map Prod.fst)
      (hentries : ∀ k v w, (k, v) ∈ entries → (k, w) ∈ attrs → ReadsAs number v w) :
      ReadsAs number (.map entries) (.map attrs)

end Pcommon

open Pcommon (Value.Plain Value.EveryInt Value.ReadsAs)

/-- The double is the integer. -/
def IsExactly (n : Int64) (bits : UInt64) : Prop := doubleValue bits = n.toInt

/-- The double is the one nearest to the integer. -/
def IsNearest (n : Int64) (bits : UInt64) : Prop := bits = nearestDouble n.toInt

/-! ### Bits, integers and strings -/

theorem isFiniteBits_iff (bits : UInt64) :
    isFiniteBits bits = true ↔ unsignedBits bits < infinityBits := by
  have hexp : ((bits >>> 52) &&& 0x7FF).toNat = bits.toNat / 2 ^ 52 % 2 ^ 11 := by
    rw [UInt64.toNat_and, UInt64.toNat_shiftRight]
    exact (Nat.and_two_pow_sub_one_eq_mod _ 11).trans
      (congrArg (· % 2 ^ 11) (Nat.shiftRight_eq_div_pow _ _))
  rw [isFiniteBits, decide_eq_true_eq, ne_eq, ← UInt64.toNat_inj, hexp, unsignedBits,
    infinityBits]
  have hlt := bits.toNat_lt
  change ¬ _ = 2047 ↔ _
  omega

theorem natAbs_toInt_le (n : Int64) : n.toInt.natAbs ≤ 2 ^ 63 := by
  have hle := n.le_toInt
  have hlt := n.toInt_lt
  omega

theorem unquoteString_stringLiteral
    {s : ByteString} (hs : ValidUtf8 s) :
    unquoteString (stringLiteral s) = some s := by
  obtain ⟨text, rfl⟩ := hs
  rw [unquoteString, stringLiteral, unquote_quoteRunes, decodeRunes_utf8Bytes, List.map_map,
    Option.map_some]
  exact congrArg (some <| utf8Bytes ·) (List.map_id text)

theorem entriesNesting_le_iff
    {entries : List (ByteString × Value)} {d : Nat} :
    entriesNesting entries ≤ d ↔ ∀ e ∈ entries, nesting e.2 ≤ d := by
  induction entries with
  | nil => simp [entriesNesting]
  | cons e entries ih => rw [entriesNesting, max_le_iff, ih, List.forall_mem_cons, entryNesting]

/-! ### The tree of a value -/

section Encoded

variable {formatFloat : UInt64 → List Char}

/-- The tree a value is written as reads back as the value. -/
structure Encoded (formatFloat : UInt64 → List Char) (v : Value) (json : Json) : Prop where
  encodes : encodeValue formatFloat (valueToAny v) = some json
  wellFormed : json.WellFormed
  depth : ∀ d, json.depth ≤ d ↔ nesting v ≤ d
  decodes : ∃ w, decodeValue json = some w ∧ v.ReadsAs IsNearest w

theorem encoded_str
    {s : ByteString} (hs : ValidUtf8 s) :
    Encoded formatFloat (.str s) (.string (stringLiteral s)) where
  encodes := by rw [valueToAny, encodeValue]
  wellFormed := .string (isString_quoteRunes _)
  depth := fun d => Iff.rfl
  decodes := by
    refine ⟨.string s, ?_, .str s⟩
    rw [decodeValue, unquoteString_stringLiteral hs]
    rfl

theorem encoded_int (n : Int64) :
    Encoded formatFloat (.int n) (.number (formatInt n.toInt)) where
  encodes := by rw [valueToAny, encodeValue]
  wellFormed := .number (isNumber_formatInt n.toInt)
  depth := fun d => Iff.rfl
  decodes := by
    refine ⟨.float64 (nearestDouble n.toInt), ?_, .int rfl⟩
    rw [decodeValue, parseFloat_formatInt (natAbs_toInt_le n)]
    rfl

theorem encoded_double
    (hformat : PrintsDoubles formatFloat) {bits : UInt64} (hbits : isFiniteBits bits = true) :
    Encoded formatFloat (.double bits) (.number (formatFloat bits)) where
  encodes := by rw [valueToAny, if_pos hbits, encodeValue, if_pos hbits]
  wellFormed := .number (hformat.isNumber bits hbits)
  depth := fun d => Iff.rfl
  decodes := by
    refine ⟨.float64 bits, ?_, .double bits⟩
    rw [decodeValue, hformat.readsBack bits hbits]
    rfl

theorem encoded_bool (b : Bool) : Encoded formatFloat (.bool b) (.bool b) where
  encodes := by rw [valueToAny, encodeValue]
  wellFormed := .bool
  depth := fun d => Iff.rfl
  decodes := ⟨.bool b, by rw [decodeValue], .bool b⟩

/-- The trees of the items of a slice. -/
theorem encodeItems_of_encoded
    {items : List Value} (h : ∀ v ∈ items, ∃ json, Encoded formatFloat v json) :
    ∃ jsons, encodeItems formatFloat (sliceToAny items) = some jsons ∧
      List.Forall₂ (Encoded formatFloat) items jsons := by
  induction items with
  | nil => exact ⟨[], rfl, .nil⟩
  | cons v items ih =>
      obtain ⟨json, hjson⟩ := h v List.mem_cons_self
      obtain ⟨jsons, hjsons, hall⟩ := ih fun w hw => h w (List.mem_cons_of_mem v hw)
      refine ⟨json :: jsons, ?_, .cons hjson hall⟩
      rw [sliceToAny, encodeItems, hjson.encodes, Option.bind_some, hjsons, Option.map_some]

theorem decodeItems_of_encoded
    {items : List Value} {jsons : List Json}
    (h : List.Forall₂ (Encoded formatFloat) items jsons) :
    ∃ ws, decodeItems jsons = some ws ∧ List.Forall₂ (Value.ReadsAs IsNearest) items ws := by
  induction h with
  | nil => exact ⟨[], rfl, .nil⟩
  | cons hjson _ ih =>
      obtain ⟨w, hw, hreads⟩ := hjson.decodes
      obtain ⟨ws, hws, hall⟩ := ih
      refine ⟨w :: ws, ?_, .cons hreads hall⟩
      rw [decodeItems, hw, Option.bind_some, hws, Option.map_some]

theorem wellFormed_of_encoded
    {items : List Value} {jsons : List Json}
    (h : List.Forall₂ (Encoded formatFloat) items jsons) :
    ∀ json ∈ jsons, json.WellFormed := by
  induction h with
  | nil => exact List.forall_mem_nil _
  | cons hjson _ ih => exact List.forall_mem_cons.mpr ⟨hjson.wellFormed, ih⟩

theorem itemsDepth_of_encoded
    {items : List Value} {jsons : List Json}
    (h : List.Forall₂ (Encoded formatFloat) items jsons) (d : Nat) :
    itemsDepth jsons ≤ d ↔ itemsNesting items ≤ d := by
  induction h with
  | nil => rfl
  | cons hjson _ ih => rw [itemsDepth, itemsNesting, max_le_iff, max_le_iff, hjson.depth, ih]

theorem encoded_slice
    {items : List Value} (h : ∀ v ∈ items, ∃ json, Encoded formatFloat v json) :
    ∃ json, Encoded formatFloat (.slice items) json := by
  obtain ⟨jsons, hjsons, hall⟩ := encodeItems_of_encoded h
  obtain ⟨ws, hws, hreads⟩ := decodeItems_of_encoded hall
  refine ⟨.array jsons, ?_, .array fun json hjson => ?_, fun d => ?_, .slice ws, ?_, ?_⟩
  · rw [valueToAny, encodeValue, hjsons, Option.map_some]
  · exact wellFormed_of_encoded hall json hjson
  · rw [Json.depth, nesting]
    cases d with
    | zero => omega
    | succ d => rw [Nat.add_le_add_iff_right, Nat.add_le_add_iff_right, itemsDepth_of_encoded hall]
  · rw [decodeValue, hws, Option.map_some]
  · refine .slice hreads.length_eq fun i v w hv hw => ?_
    obtain ⟨hi, rfl⟩ := List.getElem?_eq_some_iff.mp hv
    obtain ⟨hi', rfl⟩ := List.getElem?_eq_some_iff.mp hw
    exact hreads.get hi hi'

/-! ### The tree of a map -/

theorem attributesToMap_of_nodup
    {entries : List (ByteString × Value)} (hkeys : (entries.map Prod.fst).Nodup) :
    attributesToMap entries = entries.map entryToAny := by
  induction entries with
  | nil => rfl
  | cons entry entries ih =>
      obtain ⟨hnotin, hnodup⟩ := List.nodup_cons.mp hkeys
      have hfst : (entries.map entryToAny).map Prod.fst = entries.map Prod.fst := by
        rw [List.map_map]
        refine List.map_congr_left fun e _ => ?_
        obtain ⟨key, value⟩ := e
        rw [Function.comp_apply, entryToAny]
      rw [attributesToMap, ih hnodup, hfst, if_neg hnotin, List.map_cons]

/-- The members that the entries are written as. -/
structure EncodedMembers (formatFloat : UInt64 → List Char)
    (entries : List (ByteString × Value)) (members : List (ByteString × Json)) : Prop where
  keys : members.map Prod.fst = entries.map Prod.fst
  values : ∀ m ∈ members, ∃ v, (m.1, v) ∈ entries ∧ Encoded formatFloat v m.2

theorem encodeMembers_of_encoded
    {entries : List (ByteString × Value)}
    (h : ∀ k v, (k, v) ∈ entries → ∃ json, Encoded formatFloat v json) :
    ∃ members, encodeMembers formatFloat (entries.map entryToAny) = some members ∧
      EncodedMembers formatFloat entries members := by
  induction entries with
  | nil => exact ⟨[], rfl, rfl, List.forall_mem_nil _⟩
  | cons entry entries ih =>
      obtain ⟨key, v⟩ := entry
      obtain ⟨json, hjson⟩ := h key v List.mem_cons_self
      obtain ⟨members, hmembers, hkeys, hvalues⟩ :=
        ih fun k w hw => h k w (List.mem_cons_of_mem _ hw)
      refine ⟨(key, json) :: members, ?_, ?_, ?_⟩
      · rw [List.map_cons, entryToAny, encodeMembers, encodeMember, hjson.encodes,
          Option.map_some, Option.bind_some, hmembers, Option.map_some]
      · rw [List.map_cons, List.map_cons, hkeys]
      · refine List.forall_mem_cons.mpr ⟨⟨v, List.mem_cons_self, hjson⟩, fun m hm => ?_⟩
        obtain ⟨w, hw, hm⟩ := hvalues m hm
        exact ⟨w, List.mem_cons_of_mem _ hw, hm⟩

/-- Members with distinct keys are read one by one. -/
theorem decodeMembers_of_nodup
    {members : List (ByteString × Json)} (hkeys : (members.map Prod.fst).Nodup)
    (hkey : ∀ m ∈ members, ValidUtf8 m.1)
    (h : ∀ m ∈ members, ∃ w, decodeValue m.2 = some w) :
    ∃ attrs, decodeMembers (members.map fun m => (stringLiteral m.1, m.2)) = some attrs ∧
      attrs.map Prod.fst = members.map Prod.fst ∧
      ∀ a ∈ attrs, ∃ m ∈ members, m.1 = a.1 ∧ decodeValue m.2 = some a.2 := by
  induction members with
  | nil => exact ⟨[], rfl, rfl, List.forall_mem_nil _⟩
  | cons m members ih =>
      obtain ⟨hnotin, hnodup⟩ := List.nodup_cons.mp hkeys
      obtain ⟨w, hw⟩ := h m List.mem_cons_self
      obtain ⟨attrs, hattrs, hfst, hall⟩ := ih hnodup
        (fun x hx => hkey x (List.mem_cons_of_mem m hx))
        (fun x hx => h x (List.mem_cons_of_mem m hx))
      refine ⟨(m.1, w) :: attrs, ?_, ?_, ?_⟩
      · rw [List.map_cons, decodeMembers, decodeMember,
          unquoteString_stringLiteral (hkey m List.mem_cons_self), Option.bind_some, hw,
          Option.map_some, Option.bind_some, hattrs, Option.map_some, hfst, if_neg hnotin]
      · rw [List.map_cons, List.map_cons, hfst]
      · refine List.forall_mem_cons.mpr ⟨⟨m, List.mem_cons_self, rfl, hw⟩, fun a ha => ?_⟩
        obtain ⟨x, hx, heq⟩ := hall a ha
        exact ⟨x, List.mem_cons_of_mem m hx, heq⟩

theorem membersDepth_le_iff_of_encoded
    {entries : List (ByteString × Value)} {members : List (ByteString × Json)}
    (hkeys : (entries.map Prod.fst).Nodup) (h : EncodedMembers formatFloat entries members)
    (d : Nat) :
    (∀ m ∈ members, m.2.depth ≤ d) ↔ ∀ e ∈ entries, nesting e.2 ≤ d := by
  constructor
  · intro hdepth e he
    have hkey : e.1 ∈ members.map Prod.fst := h.keys ▸ List.mem_map_of_mem he
    obtain ⟨m, hm, hfst⟩ := List.mem_map.mp hkey
    obtain ⟨v, hv, hjson⟩ := h.values m hm
    have heq : (m.1, v) = e := List.inj_on_of_nodup_map hkeys hv he hfst
    rw [← heq]
    exact (hjson.depth d).mp (hdepth m hm)
  · intro hnesting m hm
    obtain ⟨v, hv, hjson⟩ := h.values m hm
    exact (hjson.depth d).mpr (hnesting _ hv)

theorem encoded_map
    {entries : List (ByteString × Value)} (hkeys : (entries.map Prod.fst).Nodup)
    (hkey : ∀ k ∈ entries.map Prod.fst, ValidUtf8 k)
    (h : ∀ k v, (k, v) ∈ entries → ∃ json, Encoded formatFloat v json) :
    ∃ members attrs, Encoded formatFloat (.map entries) (.object members) ∧
      decodeMembers members = some attrs ∧ Value.ReadsAs IsNearest (.map entries) (.map attrs) := by
  obtain ⟨unsorted, hencode, hmembers⟩ := encodeMembers_of_encoded h
  have hperm : (sortMembers unsorted).Perm unsorted := List.mergeSort_perm _ _
  have hsorted : ∀ m, m ∈ sortMembers unsorted ↔ m ∈ unsorted := fun m => hperm.mem_iff
  have hfst : ∀ m ∈ unsorted, m.1 ∈ entries.map Prod.fst := fun m hm =>
    hmembers.keys ▸ List.mem_map_of_mem hm
  have hnodup : ((sortMembers unsorted).map Prod.fst).Nodup :=
    (hperm.map Prod.fst).nodup_iff.mpr (hmembers.keys ▸ hkeys)
  obtain ⟨attrs, hdecode, hattrs, hall⟩ := decodeMembers_of_nodup hnodup
    (fun m hm => hkey _ (hfst m ((hsorted m).mp hm)))
    (fun m hm => by
      obtain ⟨v, _, hjson⟩ := hmembers.values m ((hsorted m).mp hm)
      obtain ⟨w, hw, -⟩ := hjson.decodes
      exact ⟨w, hw⟩)
  have hreads : Value.ReadsAs IsNearest (.map entries) (.map attrs) := by
    refine .map (fun k => ?_) fun k v w hv hw => ?_
    · rw [hattrs, (hperm.map Prod.fst).mem_iff, hmembers.keys]
    · obtain ⟨m, hm, hkeyEq, hvalue⟩ := hall _ hw
      obtain ⟨v', hv', hjson⟩ := hmembers.values m ((hsorted m).mp hm)
      obtain ⟨w', hw', hreads⟩ := hjson.decodes
      have hsame : (m.1, v') = (k, v) := List.inj_on_of_nodup_map hkeys hv' hv hkeyEq
      rw [(Prod.mk.inj hsame).2] at hreads
      rw [hw'] at hvalue
      have hw : w' = w := Option.some.inj hvalue
      rwa [hw] at hreads
  refine ⟨_, attrs, ⟨?_, ?_, fun d => ?_, .map attrs, ?_, hreads⟩, hdecode, hreads⟩
  · rw [valueToAny, attributesToMap_of_nodup hkeys, encodeValue, hencode, Option.map_some]
  · refine .object (fun literal json hm => ?_) fun literal json hm => ?_
    · obtain ⟨m, -, heq⟩ := List.mem_map.mp hm
      rw [← (Prod.mk.inj heq).1]
      exact isString_quoteRunes _
    · obtain ⟨m, hm, heq⟩ := List.mem_map.mp hm
      obtain ⟨v, -, hjson⟩ := hmembers.values m ((hsorted m).mp hm)
      rw [← (Prod.mk.inj heq).2]
      exact hjson.wellFormed
  · rw [Json.depth, nesting]
    cases d with
    | zero => omega
    | succ d =>
        rw [Nat.add_le_add_iff_right, Nat.add_le_add_iff_right, membersDepth_le_iff,
          List.forall_mem_map, entriesNesting_le_iff,
          ← membersDepth_le_iff_of_encoded hkeys hmembers]
        simp only [hsorted]
  · rw [decodeValue, hdecode, Option.map_some]

theorem encoded_of_plain
    (hformat : PrintsDoubles formatFloat) {v : Value} (hv : v.Plain) :
    ∃ json, Encoded formatFloat v json := by
  induction hv with
  | str hs => exact ⟨_, encoded_str hs⟩
  | @int n => exact ⟨_, encoded_int n⟩
  | double hbits => exact ⟨_, encoded_double hformat hbits⟩
  | @bool b => exact ⟨_, encoded_bool b⟩
  | slice _ ih => exact encoded_slice ih
  | map hkeys hkey _ ih =>
      obtain ⟨members, _, h, -, -⟩ := encoded_map hkeys hkey ih
      exact ⟨.object members, h⟩

end Encoded

/-! ### Exact integers -/

/-- What is read is the value itself exactly when every integer is a double. -/
theorem readsAs_isExactly_iff
    {v : Value} {w : HashValue} (h : v.ReadsAs IsNearest w) :
    v.ReadsAs IsExactly w ↔ v.EveryInt fun n => FitsDouble n.toInt.natAbs := by
  induction h with
  | str s => exact iff_of_true (.str s) .str
  | @int n bits hbits =>
      have hexact : IsExactly n bits ↔ FitsDouble n.toInt.natAbs := by
        rw [IsExactly, hbits]
        exact doubleValue_nearestDouble_iff (natAbs_toInt_le n)
      constructor
      · intro h
        cases h with
        | int h => exact .int (hexact.mp h)
      · intro h
        cases h with
        | int h => exact .int (hexact.mpr h)
  | double bits => exact iff_of_true (.double bits) .double
  | bool b => exact iff_of_true (.bool b) .bool
  | @slice items items' hlen _ ih =>
      constructor
      · intro h
        cases h with
        | slice _ hitems =>
            refine .slice fun v hv => ?_
            obtain ⟨i, hi, rfl⟩ := List.mem_iff_getElem.mp hv
            have hget := List.getElem?_eq_getElem hi
            have hget' := List.getElem?_eq_getElem (hlen ▸ hi)
            exact (ih i _ _ hget hget').mp (hitems i _ _ hget hget')
      · intro h
        cases h with
        | slice hitems =>
            refine .slice hlen fun i v w hv hw => ?_
            exact (ih i v w hv hw).mpr (hitems v (List.mem_of_getElem? hv))
  | @map entries attrs hkeys _ ih =>
      constructor
      · intro h
        cases h with
        | map _ hentries =>
            refine .map fun k v hv => ?_
            obtain ⟨⟨_, w⟩, hw, rfl⟩ := List.mem_map.mp
              ((hkeys k).mp (List.mem_map_of_mem hv))
            exact (ih _ v w hv hw).mp (hentries _ v w hv hw)
      · intro h
        cases h with
        | map hentries =>
            refine .map hkeys fun k v w hv hw => ?_
            exact (ih k v w hv hw).mpr (hentries k v hv)

/-! ### The round trip -/

theorem decodeRunes_text (json : Json) :
    (decodeRunes (utf8Bytes json.text)).map (fun rune => rune.getD '\uFFFD') = json.text := by
  rw [decodeRunes_utf8Bytes, List.map_map]
  exact List.map_id json.text

/-- The text of a plain map, and what is read from it. -/
theorem storedAttrs_of_plain
    {formatFloat : UInt64 → List Char} (hformat : PrintsDoubles formatFloat)
    {entries : List (ByteString × Value)} (hplain : Value.Plain (.map entries)) :
    ∃ raw attrs, storedAttrs formatFloat entries = some raw ∧
      Value.ReadsAs IsNearest (.map entries) (.map attrs) ∧
      decodeAttrs (some raw) =
        if nesting (.map entries) ≤ maxNestingDepth then .ok (some attrs)
        else .error ⟨"storage: decode attributes: ", .syntaxError⟩ := by
  cases hplain with
  | map hkeys hkey hentries =>
      obtain ⟨members, attrs, hobject, hdecode, hreads⟩ := encoded_map hkeys hkey
        fun k v hv => encoded_of_plain hformat (hentries k v hv)
      have hencode := hobject.encodes
      rw [valueToAny] at hencode
      refine ⟨utf8Bytes (Json.text (.object members)), attrs, ?_, hreads, ?_⟩
      · rw [storedAttrs, marshal, hencode, Option.map_some]
      · rw [decodeAttrs, unmarshalMap, decodeRunes_text, parse_text hobject.wellFormed]
        by_cases hdepth : nesting (.map entries) ≤ maxNestingDepth
        · rw [if_pos hdepth, if_pos ((hobject.depth _).mpr hdepth)]
          dsimp only
          rw [hdecode]
        · rw [if_neg hdepth, if_neg fun h => hdepth ((hobject.depth _).mp h)]

theorem decodeAttrs_storedAttrs
    {formatFloat : UInt64 → List Char} (hformat : PrintsDoubles formatFloat)
    {attrs : List (ByteString × Value)} (hplain : Value.Plain (.map attrs)) :
    ∃ raw, storedAttrs formatFloat attrs = some raw ∧
      ((∃ m, decodeAttrs (some raw) = .ok (some m)) ↔
        nesting (.map attrs) ≤ maxNestingDepth) ∧
      ∀ m, decodeAttrs (some raw) = .ok (some m) →
        Value.ReadsAs IsNearest (.map attrs) (.map m) ∧
        (Value.ReadsAs IsExactly (.map attrs) (.map m) ↔
          Value.EveryInt (fun n => FitsDouble n.toInt.natAbs) (.map attrs)) := by
  obtain ⟨raw, decoded, hstored, hreads, hdecode⟩ := storedAttrs_of_plain hformat hplain
  refine ⟨raw, hstored, ?_, ?_⟩
  · rw [hdecode]
    by_cases hdepth : nesting (.map attrs) ≤ maxNestingDepth
    · rw [if_pos hdepth]
      exact iff_of_true ⟨decoded, rfl⟩ hdepth
    · rw [if_neg hdepth]
      refine iff_of_false ?_ hdepth
      rintro ⟨m, hm⟩
      cases hm
  · intro m hm
    rw [hdecode] at hm
    split_ifs at hm
    cases hm
    exact ⟨hreads, readsAs_isExactly_iff hreads⟩

/-! ### Integers that are no doubles -/

theorem printsDoubles_formatExact : PrintsDoubles formatExact where
  isNumber := fun bits _ => isNumber_formatExact bits
  readsBack := fun bits hbits => parseFloat_formatExact ((isFiniteBits_iff bits).mp hbits)

/-- `id` is 2^53 + 1, and the list holds `true` and the double 3. -/
def bigIntegerAttrs : List (ByteString × Value) :=
  [([0x69, 0x64], .int 9007199254740993),
    ([0x6C], .slice [.bool true, .double 0x4008000000000000])]

theorem plain_bigIntegerAttrs : Value.Plain (.map bigIntegerAttrs) := by
  refine .map (by decide) (fun k hk => ?_) fun k v hv => ?_
  · rcases List.mem_cons.mp hk with rfl | hk
    · exact ⟨['i', 'd'], rfl⟩
    · exact ⟨['l'], List.mem_singleton.mp hk⟩
  · rcases List.mem_cons.mp hv with hv | hv
    · rw [(Prod.mk.inj hv).2]
      exact .int
    · rw [(Prod.mk.inj (List.mem_singleton.mp hv)).2]
      refine .slice (List.forall_mem_cons.mpr ⟨.bool, fun v hv => ?_⟩)
      rw [List.mem_singleton.mp hv]
      exact .double (by decide)

theorem decodeAttrs_storedAttrs_bigInteger :
    ∃ raw, storedAttrs formatExact bigIntegerAttrs = some raw ∧
      ((∃ m, decodeAttrs (some raw) = .ok (some m)) ↔
        nesting (.map bigIntegerAttrs) ≤ maxNestingDepth) ∧
      ∀ m, decodeAttrs (some raw) = .ok (some m) →
        Value.ReadsAs IsNearest (.map bigIntegerAttrs) (.map m) ∧
        (Value.ReadsAs IsExactly (.map bigIntegerAttrs) (.map m) ↔
          Value.EveryInt (fun n => FitsDouble n.toInt.natAbs) (.map bigIntegerAttrs)) :=
  decodeAttrs_storedAttrs printsDoubles_formatExact plain_bigIntegerAttrs

/-- The integer is read as 2^53. -/
theorem bigInteger_not_exact :
    PrintsDoubles formatExact ∧ Value.Plain (.map bigIntegerAttrs) ∧
      ¬ ∃ raw m, storedAttrs formatExact bigIntegerAttrs = some raw ∧
        decodeAttrs (some raw) = .ok (some m) ∧
        Value.ReadsAs IsExactly (.map bigIntegerAttrs) (.map m) := by
  refine ⟨printsDoubles_formatExact, plain_bigIntegerAttrs, ?_⟩
  rintro ⟨raw, m, hraw, hm, hexact⟩
  obtain ⟨raw', decoded, hstored, hreads, hdecode⟩ :=
    storedAttrs_of_plain printsDoubles_formatExact plain_bigIntegerAttrs
  rw [hstored] at hraw
  rw [← Option.some.inj hraw, hdecode] at hm
  split_ifs at hm
  cases hm
  have hints := (readsAs_isExactly_iff hreads).mp hexact
  cases hints with
  | map hentries =>
      have hint := hentries [0x69, 0x64] _ List.mem_cons_self
      cases hint with
      | int hfits => exact absurd hfits (by decide)

end Storage
end Otelop
