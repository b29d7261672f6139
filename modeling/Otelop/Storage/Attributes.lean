import Otelop.Lib.PrefixCode

/-!
# The binary encoding of attributes

`internal/storage/attrs.go`, `encodeOTLPAttributes`: the versioned encoding of a
`pcommon.Map` that resources and series are identified by.  Each value has a tag byte,
lengths and numbers are eight bytes, and a map is written in the order of its keys.

A Go string is its bytes, and a double is given by its bits.  `Valid` is what the types
of Go and the caller promise: lengths that an `int` holds, and distinct keys at every
level.

**Results.**
* `readsBack`: a value is read back from a stream, up to the order of
  the entries of its maps.
* `writePcommonValue_of_same`: that order is not written.
* `encodeOTLPAttributes_eq_iff`: two maps have one encoding exactly when they are equal
  as unordered typed maps.
-/

namespace Otelop
namespace Storage

open Lib

/-- The bytes of a Go string. -/
abbrev ByteString := List UInt8

instance : LawfulBEq ByteString := inferInstance

namespace Pcommon

/-- `pcommon.Value`; the entries of a `pcommon.Map` are in the order of their insertion. -/
inductive Value where
  | empty
  | str (s : ByteString)
  | int (n : Int64)
  | double (bits : UInt64)
  | bool (b : Bool)
  | bytes (raw : List UInt8)
  | slice (items : List Value)
  | map (entries : List (ByteString × Value))

/-- `Map.Get` -/
def get (attrs : List (ByteString × Value)) (key : ByteString) : Option Value :=
  (attrs.find? fun e => e.1 = key).map Prod.snd

theorem mem_of_get
    {attrs : List (ByteString × Value)} {key : ByteString} {value : Value}
    (h : get attrs key = some value) :
    (key, value) ∈ attrs := by
  obtain ⟨⟨k, v⟩, hfind, heq⟩ := Option.map_eq_some_iff.mp h
  have hkey : k = key := by simpa using List.find?_some hfind
  dsimp only at heq
  subst hkey heq
  exact List.mem_of_find?_eq_some hfind

end Pcommon

open Pcommon (Value)

@[simp] def tagNil : UInt8 := 0

@[simp] def tagString : UInt8 := 1

@[simp] def tagInt64 : UInt8 := 2

@[simp] def tagFloat64 : UInt8 := 3

@[simp] def tagBool : UInt8 := 4

@[simp] def tagBytes : UInt8 := 5

@[simp] def tagSlice : UInt8 := 6

@[simp] def tagMap : UInt8 := 7

/-- `OATTR` and the version. -/
def otlpAttributesEncodingPrefix : List UInt8 := [0x4f, 0x41, 0x54, 0x54, 0x52, 1]

/-- Eight bytes, the least significant one first. -/
def writeBinaryUint64 (value : UInt64) : List UInt8 := littleEndian value

/-- A length, as a number of eight bytes. -/
def writeBinaryLen (length : Nat) : List UInt8 := writeBinaryUint64 (UInt64.ofNat length)

/-- A text behind its length. -/
def writeBinaryString (value : ByteString) : List UInt8 := writeBinaryLen value.length ++ value

/-- `sort.Strings` -/
def sortKeys (keys : List ByteString) : List ByteString := keys.mergeSort fun a b => a ≤ b

mutual

/-- A map behind its length, each key with its value. -/
def writePcommonMap (attrs : List (ByteString × Value)) : List UInt8 :=
  let keys := sortKeys (attrs.map Prod.fst)
  writeBinaryLen keys.length ++ keys.flatMap fun key =>
    writeBinaryString key ++
      match _h : Pcommon.get attrs key with
      | some value => writePcommonValue value
      | none => []
termination_by sizeOf attrs
decreasing_by
  have hmem := List.sizeOf_lt_of_mem (Pcommon.mem_of_get _h)
  simp only [Prod.mk.sizeOf_spec] at hmem
  omega

/-- A value behind its tag. -/
def writePcommonValue : Value → List UInt8
  | .str s => tagString :: writeBinaryString s
  | .int n => tagInt64 :: writeBinaryUint64 n.toUInt64
  | .double bits => tagFloat64 :: writeBinaryUint64 bits
  | .bool b => [tagBool, if b then 1 else 0]
  | .bytes raw => tagBytes :: (writeBinaryLen raw.length ++ raw)
  | .slice items =>
      tagSlice :: (writeBinaryLen items.length ++ items.flatMap fun item => writePcommonValue item)
  | .map attrs => tagMap :: writePcommonMap attrs
  | .empty => [tagNil]
termination_by value => sizeOf value

end

/-- The bytes of an attribute map. -/
def encodeOTLPAttributes (attrs : List (ByteString × Value)) : List UInt8 :=
  otlpAttributesEncodingPrefix ++ writePcommonMap attrs

/-! ### Well-formed values -/

namespace Pcommon

/-- Lengths that an `int` holds, and distinct keys at every level. -/
inductive Value.Valid : Value → Prop
  | empty :
      Valid .empty
  | str
      {s : ByteString}
      (hs : s.length < 2 ^ 63) :
      Valid (.str s)
  | int
      {n : Int64} :
      Valid (.int n)
  | double
      {bits : UInt64} :
      Valid (.double bits)
  | bool
      {b : Bool} :
      Valid (.bool b)
  | bytes
      {raw : List UInt8}
      (hraw : raw.length < 2 ^ 63) :
      Valid (.bytes raw)
  | slice
      {items : List Value}
      (hlen : items.length < 2 ^ 63)
      (hitems : ∀ v ∈ items, Valid v) :
      Valid (.slice items)
  | map
      {entries : List (ByteString × Value)}
      (hlen : entries.length < 2 ^ 63)
      (hkeys : (entries.map Prod.fst).Nodup)
      (hkey : ∀ k ∈ entries.map Prod.fst, k.length < 2 ^ 63)
      (hentries : ∀ k v, (k, v) ∈ entries → Valid v) :
      Valid (.map entries)

/-- Equal as typed values, where a map is unordered: the same keys, and for each key the
same value. -/
inductive Value.Same : Value → Value → Prop
  | empty :
      Same .empty .empty
  | str
      (s : ByteString) :
      Same (.str s) (.str s)
  | int
      (n : Int64) :
      Same (.int n) (.int n)
  | double
      (bits : UInt64) :
      Same (.double bits) (.double bits)
  | bool
      (b : Bool) :
      Same (.bool b) (.bool b)
  | bytes
      (raw : List UInt8) :
      Same (.bytes raw) (.bytes raw)
  | slice
      {items items' : List Value}
      (hlen : items.length = items'.length)
      (hitems : ∀ (i : Nat) (v w : Value), items[i]? = some v → items'[i]? = some w → Same v w) :
      Same (.slice items) (.slice items')
  | map
      {entries entries' : List (ByteString × Value)}
      (hkeys : ∀ k, k ∈ entries.map Prod.fst ↔ k ∈ entries'.map Prod.fst)
      (hentries : ∀ k v w, (k, v) ∈ entries → (k, w) ∈ entries' → Same v w) :
      Same (.map entries) (.map entries')

/-- A `pcommon.Map` that the caller can have. -/
structure Map where
  entries : List (ByteString × Value)
  valid : Value.Valid (.map entries)

/-- Equal as unordered typed maps. -/
def Map.Same (a b : Map) : Prop := Value.Same (.map a.entries) (.map b.entries)

theorem get_eq_some_iff
    {attrs : List (ByteString × Value)} (hkeys : (attrs.map Prod.fst).Nodup)
    {key : ByteString} {value : Value} :
    get attrs key = some value ↔ (key, value) ∈ attrs := by
  constructor
  · exact mem_of_get
  · intro hmem
    cases hget : get attrs key with
    | none =>
        rw [get, Option.map_eq_none_iff, List.find?_eq_none] at hget
        simpa using hget _ hmem
    | some other =>
        have hsame := List.inj_on_of_nodup_map hkeys (mem_of_get hget) hmem rfl
        exact congrArg some (congrArg Prod.snd hsame)

end Pcommon

open Pcommon (Value.Valid Value.Same)

/-! ### Numbers, lengths and strings -/

theorem writeBinaryLen_append_inj
    {m n : Nat} (hm : m < 2 ^ 63) (hn : n < 2 ^ 63) {r s : List UInt8}
    (h : writeBinaryLen m ++ r = writeBinaryLen n ++ s) :
    m = n ∧ r = s := by
  obtain ⟨hword, hrest⟩ := littleEndian_append_inj h
  have hnat := congrArg UInt64.toNat hword
  rw [UInt64.toNat_ofNat_of_lt' (hm.trans (by decide)),
    UInt64.toNat_ofNat_of_lt' (hn.trans (by decide))] at hnat
  exact ⟨hnat, hrest⟩

theorem writeBinaryString_append_inj
    {x y : ByteString} (hx : x.length < 2 ^ 63) (hy : y.length < 2 ^ 63) {r s : List UInt8}
    (h : writeBinaryString x ++ r = writeBinaryString y ++ s) :
    x = y ∧ r = s := by
  rw [writeBinaryString, writeBinaryString, List.append_assoc, List.append_assoc] at h
  obtain ⟨hlen, hrest⟩ := writeBinaryLen_append_inj hx hy h
  exact List.append_inj hrest hlen

theorem sortKeys_eq_of_perm
    {keys keys' : List ByteString} (h : keys.Perm keys') :
    sortKeys keys = sortKeys keys' := by
  refine mergeSort_eq_of_perm (fun a b c hab hbc => ?_) (fun a b => ?_) (fun a b hab hba => ?_) h
  · exact decide_eq_true (List.le_trans (of_decide_eq_true hab) (of_decide_eq_true hbc))
  · rw [Bool.or_eq_true, decide_eq_true_eq, decide_eq_true_eq]
    exact List.le_total a b
  · exact List.le_antisymm (of_decide_eq_true hab) (of_decide_eq_true hba)

theorem mem_sortKeys
    {keys : List ByteString} {k : ByteString} :
    k ∈ sortKeys keys ↔ k ∈ keys :=
  (List.mergeSort_perm keys _).mem_iff

theorem length_sortKeys
    (keys : List ByteString) :
    (sortKeys keys).length = keys.length :=
  (List.mergeSort_perm keys _).length_eq

/-! ### Reading a value back -/

/-- The byte that starts a value. -/
@[simp] def valueTag : Value → UInt8
  | .str _ => tagString
  | .int _ => tagInt64
  | .double _ => tagFloat64
  | .bool _ => tagBool
  | .bytes _ => tagBytes
  | .slice _ => tagSlice
  | .map _ => tagMap
  | .empty => tagNil

/-- The bytes after the tag. -/
def valuePayload : Value → List UInt8
  | .str s => writeBinaryString s
  | .int n => writeBinaryUint64 n.toUInt64
  | .double bits => writeBinaryUint64 bits
  | .bool b => [if b then 1 else 0]
  | .bytes raw => writeBinaryString raw
  | .slice items => writeBinaryLen items.length ++ items.flatMap writePcommonValue
  | .map attrs => writePcommonMap attrs
  | .empty => []

theorem writePcommonValue_eq
    (v : Value) :
    writePcommonValue v = valueTag v :: valuePayload v := by
  cases v <;> rw [writePcommonValue] <;> rfl

/-- What the loop over the keys writes for a key. -/
def writeEntry (attrs : List (ByteString × Value)) (key : ByteString) : List UInt8 :=
  writeBinaryString key ++ ((Pcommon.get attrs key).map writePcommonValue).getD []

theorem writePcommonMap_eq
    (attrs : List (ByteString × Value)) :
    writePcommonMap attrs =
      writeBinaryLen attrs.length ++
        (sortKeys (attrs.map Prod.fst)).flatMap (writeEntry attrs) := by
  rw [writePcommonMap, length_sortKeys, List.length_map]
  congr 2
  funext key
  rw [writeEntry]
  cases Pcommon.get attrs key with
  | none => rfl
  | some value => rfl

theorem tag_of_append
    {v w : Value} {r s : List UInt8}
    (h : writePcommonValue v ++ r = writePcommonValue w ++ s) :
    valueTag v = valueTag w ∧ valuePayload v ++ r = valuePayload w ++ s := by
  rw [writePcommonValue_eq, writePcommonValue_eq, List.cons_append, List.cons_append] at h
  exact List.cons.inj h

/-- What a value writes at the front of a stream gives the value back, up to the order of
entries, and the rest of the stream. -/
def ReadsBack (v : Value) : Prop :=
  ∀ w : Value, w.Valid → ∀ r s : List UInt8,
    writePcommonValue v ++ r = writePcommonValue w ++ s → v.Same w ∧ r = s

theorem readsBack_slice
    {items items' : List Value} (hlen : items.length < 2 ^ 63) (hlen' : items'.length < 2 ^ 63)
    (hitems : ∀ v ∈ items, ReadsBack v) (hitems' : ∀ w ∈ items', w.Valid) {r s : List UInt8}
    (h : valuePayload (.slice items) ++ r = valuePayload (.slice items') ++ s) :
    Value.Same (.slice items) (.slice items') ∧ r = s := by
  rw [valuePayload, valuePayload, List.append_assoc, List.append_assoc] at h
  obtain ⟨hsame, hrest⟩ := writeBinaryLen_append_inj hlen hlen' h
  obtain ⟨hall, htail⟩ := forall₂_of_flatMap_append
    (fun v hv w hw r s heq => hitems v hv w (hitems' w hw) r s heq) hsame hrest
  refine ⟨.slice hsame fun i v w hv hw => ?_, htail⟩
  obtain ⟨hi, rfl⟩ := List.getElem?_eq_some_iff.mp hv
  obtain ⟨hi', rfl⟩ := List.getElem?_eq_some_iff.mp hw
  exact hall.get hi hi'

/-- One round of the loop over the keys. -/
theorem readsBack_entry
    {entries entries' : List (ByteString × Value)}
    (hvalid : Value.Valid (.map entries)) (hvalid' : Value.Valid (.map entries'))
    (hentries : ∀ k v, (k, v) ∈ entries → ReadsBack v)
    {k k' : ByteString} (hk : k ∈ entries.map Prod.fst) (hk' : k' ∈ entries'.map Prod.fst)
    {r s : List UInt8} (h : writeEntry entries k ++ r = writeEntry entries' k' ++ s) :
    (k = k' ∧ ∀ v w, (k, v) ∈ entries → (k', w) ∈ entries' → v.Same w) ∧ r = s := by
  cases hvalid with
  | map _ hkeys hkey _ =>
      cases hvalid' with
      | map _ hkeys' hkey' hvalues' =>
          obtain ⟨⟨_, v⟩, hmem, rfl⟩ := List.mem_map.mp hk
          obtain ⟨⟨_, w⟩, hmem', rfl⟩ := List.mem_map.mp hk'
          rw [writeEntry, writeEntry, (Pcommon.get_eq_some_iff hkeys).mpr hmem,
            (Pcommon.get_eq_some_iff hkeys').mpr hmem', List.append_assoc, List.append_assoc] at h
          obtain ⟨heq, hrest⟩ := writeBinaryString_append_inj (hkey _ hk) (hkey' _ hk') h
          obtain ⟨hsame, htail⟩ := hentries _ v hmem w (hvalues' _ w hmem') _ _ hrest
          refine ⟨⟨heq, fun v' w' hv' hw' => ?_⟩, htail⟩
          have hv : v' = v :=
            congrArg Prod.snd (List.inj_on_of_nodup_map hkeys hv' hmem rfl)
          have hw : w' = w :=
            congrArg Prod.snd (List.inj_on_of_nodup_map hkeys' hw' hmem' rfl)
          rw [hv, hw]
          exact hsame

theorem readsBack_map
    {entries entries' : List (ByteString × Value)}
    (hvalid : Value.Valid (.map entries)) (hvalid' : Value.Valid (.map entries'))
    (hentries : ∀ k v, (k, v) ∈ entries → ReadsBack v) {r s : List UInt8}
    (h : writePcommonMap entries ++ r = writePcommonMap entries' ++ s) :
    Value.Same (.map entries) (.map entries') ∧ r = s := by
  have hlens : entries.length < 2 ^ 63 ∧ entries'.length < 2 ^ 63 := by
    cases hvalid with
    | map hlen _ _ _ =>
        cases hvalid' with
        | map hlen' _ _ _ => exact ⟨hlen, hlen'⟩
  rw [writePcommonMap_eq, writePcommonMap_eq, List.append_assoc, List.append_assoc] at h
  obtain ⟨hlen, hrest⟩ := writeBinaryLen_append_inj hlens.1 hlens.2 h
  obtain ⟨hall, htail⟩ := forall₂_of_flatMap_append
    (fun k hk k' hk' r s heq => readsBack_entry hvalid hvalid' hentries
      (mem_sortKeys.mp hk) (mem_sortKeys.mp hk') heq)
    (by rw [length_sortKeys, length_sortKeys, List.length_map, List.length_map, hlen]) hrest
  have hkeys : sortKeys (entries.map Prod.fst) = sortKeys (entries'.map Prod.fst) :=
    List.forall₂_eq_eq_eq ▸ hall.imp fun _ _ hk => hk.1
  refine ⟨.map (fun k => ?_) fun k v w hv hw => ?_, htail⟩
  · rw [← mem_sortKeys, hkeys, mem_sortKeys]
  · have hk : k ∈ sortKeys (entries.map Prod.fst) :=
      mem_sortKeys.mpr (List.mem_map_of_mem hv)
    obtain ⟨i, hi, hik⟩ := List.mem_iff_getElem.mp hk
    have hi' : i < (sortKeys (entries'.map Prod.fst)).length := hkeys ▸ hi
    have hpair := hall.get hi hi'
    have hik' : (sortKeys (entries'.map Prod.fst))[i] = k := hpair.1.symm.trans hik
    refine hpair.2 v w ?_ ?_
    · rw [List.get_eq_getElem, hik]
      exact hv
    · rw [List.get_eq_getElem, hik']
      exact hw

theorem readsBack
    {v : Value} (hv : v.Valid) :
    ReadsBack v := by
  induction hv with
  | empty =>
      intro w hw r s h
      obtain ⟨htag, hrest⟩ := tag_of_append h
      cases hw with
      | empty => exact ⟨.empty, hrest⟩
      | _ => simp at htag
  | @str x hx =>
      intro w hw r s h
      obtain ⟨htag, hrest⟩ := tag_of_append h
      cases hw with
      | str hy =>
          obtain ⟨heq, htail⟩ := writeBinaryString_append_inj hx hy hrest
          exact ⟨heq ▸ .str x, htail⟩
      | _ => simp at htag
  | @int n =>
      intro w hw r s h
      obtain ⟨htag, hrest⟩ := tag_of_append h
      cases hw with
      | @int m =>
          obtain ⟨heq, htail⟩ := littleEndian_append_inj hrest
          have hsame : n = m := by
            cases n
            cases m
            exact congrArg Int64.ofUInt64 heq
          exact ⟨hsame ▸ .int n, htail⟩
      | _ => simp at htag
  | @double bits =>
      intro w hw r s h
      obtain ⟨htag, hrest⟩ := tag_of_append h
      cases hw with
      | double =>
          obtain ⟨heq, htail⟩ := littleEndian_append_inj hrest
          exact ⟨heq ▸ .double bits, htail⟩
      | _ => simp at htag
  | @bool b =>
      intro w hw r s h
      obtain ⟨htag, hrest⟩ := tag_of_append h
      cases hw with
      | @bool c =>
          obtain ⟨hbyte, htail⟩ := List.cons.inj hrest
          have heq : b = c := by
            cases b <;> cases c <;> first | rfl | exact absurd hbyte (by decide)
          exact ⟨heq ▸ .bool b, htail⟩
      | _ => simp at htag
  | @bytes raw hraw =>
      intro w hw r s h
      obtain ⟨htag, hrest⟩ := tag_of_append h
      cases hw with
      | bytes hraw' =>
          obtain ⟨heq, htail⟩ := writeBinaryString_append_inj hraw hraw' hrest
          exact ⟨heq ▸ .bytes raw, htail⟩
      | _ => simp at htag
  | slice hlen _ ih =>
      intro w hw r s h
      obtain ⟨htag, hrest⟩ := tag_of_append h
      cases hw with
      | slice hlen' hitems' => exact readsBack_slice hlen hlen' ih hitems' hrest
      | _ => simp at htag
  | map hlen hkeys hkey hentries ih =>
      intro w hw r s h
      obtain ⟨htag, hrest⟩ := tag_of_append h
      cases hw with
      | map hlen' hkeys' hkey' hentries' =>
          exact readsBack_map (.map hlen hkeys hkey hentries)
            (.map hlen' hkeys' hkey' hentries') ih hrest
      | _ => simp at htag

/-- The order of the entries of a map is not written. -/
theorem writePcommonValue_of_same
    {v w : Value} (h : v.Same w) (hv : v.Valid) (hw : w.Valid) :
    writePcommonValue v = writePcommonValue w := by
  induction h with
  | empty => rfl
  | str s => rfl
  | int n => rfl
  | double bits => rfl
  | bool b => rfl
  | bytes raw => rfl
  | @slice items items' hlen _ ih =>
      cases hv with
      | slice _ hitems =>
          cases hw with
          | slice _ hitems' =>
              have hcodes : items.map writePcommonValue = items'.map writePcommonValue := by
                refine List.ext_getElem (by rw [List.length_map, List.length_map, hlen]) ?_
                intro i hi hi'
                rw [List.length_map] at hi hi'
                rw [List.getElem_map, List.getElem_map]
                exact ih i _ _ (List.getElem?_eq_getElem hi) (List.getElem?_eq_getElem hi')
                  (hitems _ (List.getElem_mem hi)) (hitems' _ (List.getElem_mem hi'))
              rw [writePcommonValue_eq, writePcommonValue_eq, valuePayload, valuePayload, hlen,
                List.flatMap_def, List.flatMap_def, hcodes]
              rfl
  | @map entries entries' hkeys _ ih =>
      cases hv with
      | map _ hnodup _ hentries =>
          cases hw with
          | map _ hnodup' _ hentries' =>
              have hperm : (entries.map Prod.fst).Perm (entries'.map Prod.fst) :=
                (List.perm_ext_iff_of_nodup hnodup hnodup').mpr hkeys
              have hlen : entries.length = entries'.length := by
                have hlen := hperm.length_eq
                rwa [List.length_map, List.length_map] at hlen
              have hentry : ∀ k ∈ entries.map Prod.fst,
                  writeEntry entries k = writeEntry entries' k := by
                intro k hk
                obtain ⟨⟨_, v⟩, hmem, rfl⟩ := List.mem_map.mp hk
                obtain ⟨⟨_, w⟩, hmem', heq⟩ := List.mem_map.mp ((hkeys _).mp hk)
                dsimp only at heq hmem' ⊢
                subst heq
                rw [writeEntry, writeEntry, (Pcommon.get_eq_some_iff hnodup).mpr hmem,
                  (Pcommon.get_eq_some_iff hnodup').mpr hmem', Option.map_some, Option.map_some,
                  ih _ v w hmem hmem' (hentries _ v hmem) (hentries' _ w hmem')]
              have hloop : (sortKeys (entries.map Prod.fst)).flatMap (writeEntry entries) =
                  (sortKeys (entries.map Prod.fst)).flatMap (writeEntry entries') :=
                List.flatMap_congr fun k hk => hentry k (mem_sortKeys.mp hk)
              rw [writePcommonValue_eq, writePcommonValue_eq, valuePayload, valuePayload,
                writePcommonMap_eq, writePcommonMap_eq, hlen, ← sortKeys_eq_of_perm hperm, hloop]
              rfl

theorem encodeOTLPAttributes_eq_iff
    (a b : Pcommon.Map) :
    encodeOTLPAttributes a.entries = encodeOTLPAttributes b.entries ↔ a.Same b := by
  constructor
  · intro h
    have hmap := List.append_cancel_left h
    have hvalue : writePcommonValue (.map a.entries) ++ [] =
        writePcommonValue (.map b.entries) ++ [] := by
      rw [writePcommonValue_eq, writePcommonValue_eq, valuePayload, valuePayload, hmap]
      rfl
    exact (readsBack a.valid (.map b.entries) b.valid [] [] hvalue).1
  · intro h
    have hvalue := writePcommonValue_of_same h a.valid b.valid
    rw [writePcommonValue_eq, writePcommonValue_eq] at hvalue
    exact congrArg (otlpAttributesEncodingPrefix ++ ·) (List.cons.inj hvalue).2

end Storage
end Otelop
