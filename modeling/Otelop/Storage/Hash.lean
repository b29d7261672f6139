import Mathlib.Tactic
import Otelop.Storage.Attributes

/-!
# The identity hashes

`internal/storage/hash.go`: resources, metric series and histogram layouts are identified
by an FNV-1a hash of a stream of tagged values.  What the hash receives is the stream, and
two identities share a hash for good if they share a stream.

`writeValue` prints a value of a type it does not know as a string.  The dropped attribute
counts are passed as `uint64`, which it does not know, so a count reads as a string.  In a
series the count stands between a string and a byte slice; in a resource it may stand where
a schema URL may stand.

A double is given by its bits.

**Results.**
* `hashResource_stream_iff`: when two resources with one stream are one resource.
* `identityStreams_injective`: series and layouts are read back from their streams.
-/

namespace Otelop
namespace Storage

open Lib

/-- A string or a byte slice; its length is an `int`. -/
abbrev Bytes := {raw : List UInt8 // raw.length < 2 ^ 63}

/-- What `writeValue` is given, by its dynamic type; `uint64` is one of those without a
case. -/
inductive HashValue where
  | nil
  | string (s : ByteString)
  | int64 (n : Int64)
  | float64 (bits : UInt64)
  | bool (b : Bool)
  | bytes (raw : List UInt8)
  | slice (items : List HashValue)
  | map (attrs : List (ByteString × HashValue))
  | uint64 (n : UInt64)

/-- `fmt.Sprintf("%v", n)` -/
def decimalText (n : UInt64) : ByteString :=
  (Nat.toDigits 10 n.toNat).map fun c => UInt8.ofNat c.toNat

def writeLen (n : Nat) : List UInt8 := littleEndian (UInt64.ofNat n)

def writeString (s : ByteString) : List UInt8 := tagString :: (writeLen s.length ++ s)

@[simp] def tagUint64 : UInt8 := 8

def writeUint64 (v : UInt64) : List UInt8 := tagUint64 :: littleEndian v

/-- `attrs[key]` of a Go map -/
def HashValue.get (attrs : List (ByteString × HashValue)) (key : ByteString) : Option HashValue :=
  (attrs.find? fun e => e.1 = key).map Prod.snd

theorem HashValue.mem_of_get
    {attrs : List (ByteString × HashValue)} {key : ByteString} {value : HashValue}
    (h : HashValue.get attrs key = some value) :
    (key, value) ∈ attrs := by
  obtain ⟨⟨k, v⟩, hfind, heq⟩ := Option.map_eq_some_iff.mp h
  have hkey : k = key := by simpa using List.find?_some hfind
  dsimp only at heq
  subst hkey heq
  exact List.mem_of_find?_eq_some hfind

mutual

def writeAttrs (attrs : List (ByteString × HashValue)) : List UInt8 :=
  (sortKeys (attrs.map Prod.fst)).flatMap fun key =>
    writeString key ++
      match _h : HashValue.get attrs key with
      | some value => writeValue value
      | none => []
termination_by sizeOf attrs
decreasing_by
  have hmem := List.sizeOf_lt_of_mem (HashValue.mem_of_get _h)
  simp only [Prod.mk.sizeOf_spec] at hmem
  omega

def writeValue : HashValue → List UInt8
  | .nil => [tagNil]
  | .string s => writeString s
  | .int64 n => tagInt64 :: littleEndian n.toUInt64
  | .float64 bits => tagFloat64 :: littleEndian bits
  | .bool b => [tagBool, if b then 1 else 0]
  | .bytes raw => tagBytes :: (writeLen raw.length ++ raw)
  | .slice items => tagSlice :: (writeLen items.length ++ items.flatMap fun e => writeValue e)
  | .map attrs => tagMap :: (writeLen attrs.length ++ writeAttrs attrs)
  | .uint64 n => writeString (decimalText n)
termination_by value => sizeOf value

end

/-- `fnv.New64a`, after the bytes were written. -/
def fnv64a (stream : List UInt8) : UInt64 :=
  stream.foldl (fun h b => (h ^^^ b.toUInt64) * 1099511628211) 14695981039346656037

/-! ### The three identities -/

/-- The arguments of `hashResource`. -/
@[ext] structure ResourceIdentity where
  schemaURL : Bytes
  droppedAttributesCount : UInt32
  attrsRaw : Bytes
deriving DecidableEq

/-- What `hashResource` feeds to the hash. -/
def ResourceIdentity.stream (r : ResourceIdentity) : List UInt8 :=
  (if r.schemaURL.1 ≠ [] then writeString r.schemaURL.1 else []) ++
    (if r.droppedAttributesCount ≠ 0 then
      writeValue (.uint64 r.droppedAttributesCount.toUInt64) else []) ++
    writeValue (.bytes r.attrsRaw.1)

def hashResource (r : ResourceIdentity) : UInt64 := fnv64a r.stream

/-- `metricScopeIdentity`, as far as it is hashed. -/
@[ext] structure MetricScopeIdentity where
  schemaURL : Bytes
  name : Bytes
  version : Bytes
  droppedAttributesCount : UInt32
  attributesRaw : Bytes
deriving DecidableEq

@[ext] structure MetricSeriesIdentity where
  resourceHash : UInt64
  scope : MetricScopeIdentity
  metricName : Bytes
  metricType : Bytes
  numberKind : Bytes
  unit : Bytes
  temporality : Bytes
  isMonotonic : Bool
  attributesRaw : Bytes
deriving DecidableEq

/-- What `hashSeries` feeds to the hash. -/
def MetricSeriesIdentity.stream (identity : MetricSeriesIdentity) : List UInt8 :=
  writeUint64 identity.resourceHash ++
    writeString identity.scope.schemaURL.1 ++
    writeString identity.scope.name.1 ++
    writeString identity.scope.version.1 ++
    (if identity.scope.droppedAttributesCount ≠ 0 then
      writeValue (.uint64 identity.scope.droppedAttributesCount.toUInt64) else []) ++
    writeValue (.bytes identity.scope.attributesRaw.1) ++
    writeString identity.metricName.1 ++
    writeString identity.metricType.1 ++
    writeString identity.numberKind.1 ++
    writeString identity.unit.1 ++
    writeString identity.temporality.1 ++
    writeValue (.bool identity.isMonotonic) ++
    writeValue (.bytes identity.attributesRaw.1)

def hashSeries (identity : MetricSeriesIdentity) : UInt64 := fnv64a identity.stream

/-- The arguments of `histogramLayoutHash`. -/
@[ext] structure HistogramLayoutIdentity where
  kind : Bytes
  explicitBounds : {bounds : List UInt64 // bounds.length < 2 ^ 63}
  scale : Option Int32
  zeroThreshold : Option UInt64
deriving DecidableEq

/-- What `histogramLayoutHash` feeds to the hash. -/
def HistogramLayoutIdentity.stream (layout : HistogramLayoutIdentity) : List UInt8 :=
  writeString layout.kind.1 ++
    writeLen layout.explicitBounds.1.length ++
    (layout.explicitBounds.1.flatMap fun bound => writeValue (.float64 bound)) ++
    writeValue ((layout.scale.map fun scale => .int64 scale.toInt64).getD .nil) ++
    writeValue ((layout.zeroThreshold.map .float64).getD .nil)

def histogramLayoutHash (layout : HistogramLayoutIdentity) : UInt64 := fnv64a layout.stream

/-! ### Reading one value back -/

@[simp] theorem writeValue_nil : writeValue .nil = [tagNil] := by
  rw [writeValue]

@[simp] theorem writeValue_int64 (n : Int64) :
    writeValue (.int64 n) = tagInt64 :: littleEndian n.toUInt64 := by
  rw [writeValue]

@[simp] theorem writeValue_float64 (bits : UInt64) :
    writeValue (.float64 bits) = tagFloat64 :: littleEndian bits := by
  rw [writeValue]

@[simp] theorem writeValue_bool (b : Bool) :
    writeValue (.bool b) = [tagBool, if b then 1 else 0] := by
  rw [writeValue]

@[simp] theorem writeValue_bytes (raw : List UInt8) :
    writeValue (.bytes raw) = tagBytes :: (writeLen raw.length ++ raw) := by
  rw [writeValue]

@[simp] theorem writeValue_uint64 (n : UInt64) :
    writeValue (.uint64 n) = writeString (decimalText n) := by
  rw [writeValue]

/-- A length and as many bytes are read back. -/
theorem writeLen_bytes_append_inj
    {x y : Bytes} {r s : List UInt8}
    (h : writeLen x.1.length ++ x.1 ++ r = writeLen y.1.length ++ y.1 ++ s) :
    x = y ∧ r = s := by
  rw [List.append_assoc, List.append_assoc] at h
  obtain ⟨hlen, hrest⟩ := writeBinaryLen_append_inj x.2 y.2 h
  obtain ⟨hraw, htail⟩ := List.append_inj hrest hlen
  exact ⟨Subtype.ext hraw, htail⟩

theorem writeString_append_inj
    {x y : Bytes} {r s : List UInt8} (h : writeString x.1 ++ r = writeString y.1 ++ s) :
    x = y ∧ r = s :=
  writeLen_bytes_append_inj (List.cons.inj h).2

theorem writeValue_bytes_append_inj
    {x y : Bytes} {r s : List UInt8}
    (h : writeValue (.bytes x.1) ++ r = writeValue (.bytes y.1) ++ s) :
    x = y ∧ r = s := by
  rw [writeValue_bytes, writeValue_bytes] at h
  exact writeLen_bytes_append_inj (List.cons.inj h).2

theorem writeValue_bytes_inj
    {x y : Bytes} (h : writeValue (.bytes x.1) = writeValue (.bytes y.1)) :
    x = y := by
  have happend := congrArg (fun stream : List UInt8 => stream ++ []) h
  exact (writeValue_bytes_append_inj happend).1

/-- A string and a byte slice start differently. -/
theorem writeString_append_ne
    {s : ByteString} {raw r t : List UInt8} :
    writeString s ++ r ≠ writeValue (.bytes raw) ++ t := by
  rw [writeValue_bytes]
  intro h
  have htag : tagString = tagBytes := (List.cons.inj h).1
  revert htag
  decide

theorem writeString_append_ne_bytes
    {s : ByteString} {raw r : List UInt8} :
    writeString s ++ r ≠ writeValue (.bytes raw) := by
  have hne := @writeString_append_ne s raw r []
  rwa [List.append_nil] at hne

/-! ### Counts as decimal texts -/

/-- The number a text of digits is. -/
def readDecimal (text : ByteString) : Nat := text.foldl (fun n b => 10 * n + (b.toNat - 48)) 0

theorem readDecimal_decimalText (n : UInt64) : readDecimal (decimalText n) = n.toNat := by
  have hbytes : (Nat.toDigits 10 n.toNat).map (fun c => (UInt8.ofNat c.toNat).toNat) =
      (Nat.toDigits 10 n.toNat).map Char.toNat := by
    refine List.map_congr_left fun c hc => ?_
    have hdigit := Nat.isDigit_of_mem_toDigits (by decide) (by decide) hc
    rw [UInt8.toNat_ofNat']
    refine Nat.mod_eq_of_lt ?_
    simp only [Char.isDigit, Bool.and_eq_true, decide_eq_true_eq] at hdigit
    have hle : c.toNat ≤ 57 := hdigit.2
    omega
  have hfold : readDecimal (decimalText n) =
      ((Nat.toDigits 10 n.toNat).map fun c => (UInt8.ofNat c.toNat).toNat).foldl
        (fun n b => 10 * n + (b - 48)) 0 := by
    rw [readDecimal, decimalText, List.foldl_map, List.foldl_map]
  rw [hfold, hbytes, List.foldl_map]
  exact Nat.ofDigitChars_ten_toDigits

theorem decimalText_injective {m n : UInt64} (h : decimalText m = decimalText n) : m = n := by
  have hread := congrArg readDecimal h
  rw [readDecimal_decimalText, readDecimal_decimalText] at hread
  exact UInt64.toNat_inj.mp hread

theorem length_decimalText_lt (n : UInt64) : (decimalText n).length < 2 ^ 63 := by
  have hdigits : (Nat.toDigits 10 n.toNat).length ≤ 20 := by
    rw [Nat.length_toDigits_le_iff (by decide) (by decide)]
    exact n.toNat_lt.trans (by decide)
  rw [decimalText, List.length_map]
  omega

theorem decimalText_ne_nil (n : UInt64) : decimalText n ≠ [] := by
  rw [decimalText, ne_eq, List.map_eq_nil_iff]
  exact Nat.toDigits_ne_nil

/-- The text of a count, which is always a short one. -/
def countText (count : UInt32) : Bytes :=
  ⟨decimalText count.toUInt64, length_decimalText_lt _⟩

theorem countText_injective {m n : UInt32} (h : countText m = countText n) : m = n :=
  UInt32.toUInt64_inj.mp (decimalText_injective (congrArg Subtype.val h))

/-- What stands before the attributes, when there is a count. -/
theorem writeCount (count : UInt32) :
    writeValue (.uint64 count.toUInt64) = writeString (countText count).1 :=
  writeValue_uint64 _

/-- An optional count in front of a byte slice is read back. -/
theorem writeCount_append_inj
    {m n : UInt32} {x y : Bytes} {r s : List UInt8}
    (h : (if m ≠ 0 then writeValue (.uint64 m.toUInt64) else []) ++
        (writeValue (.bytes x.1) ++ r) =
      (if n ≠ 0 then writeValue (.uint64 n.toUInt64) else []) ++
        (writeValue (.bytes y.1) ++ s)) :
    m = n ∧ x = y ∧ r = s := by
  rw [writeCount, writeCount] at h
  by_cases hm : m = 0
  · by_cases hn : n = 0
    · simp only [hm, hn, ne_eq, not_true_eq_false, if_false, List.nil_append] at h
      exact ⟨hm.trans hn.symm, writeValue_bytes_append_inj h⟩
    · simp only [hm, hn, ne_eq, not_true_eq_false, not_false_eq_true, if_false, if_true,
        List.nil_append] at h
      exact absurd h.symm writeString_append_ne
  · by_cases hn : n = 0
    · simp only [hm, hn, ne_eq, not_true_eq_false, not_false_eq_true, if_false, if_true,
        List.nil_append] at h
      exact absurd h writeString_append_ne
    · simp only [hm, hn, ne_eq, not_false_eq_true, if_true] at h
      obtain ⟨hcount, hrest⟩ := writeString_append_inj h
      exact ⟨countText_injective hcount, writeValue_bytes_append_inj hrest⟩

/-! ### Resources -/

/-- `a` has a count and no schema URL, `b` has no count, and the schema URL of `b` is the text
of that count; their attributes are those of each other. -/
def CountReadsAsSchema (a b : ResourceIdentity) : Prop :=
  a.schemaURL.1 = [] ∧ a.droppedAttributesCount ≠ 0 ∧ b.droppedAttributesCount = 0 ∧
    b.schemaURL = countText a.droppedAttributesCount ∧ a.attrsRaw = b.attrsRaw

theorem CountReadsAsSchema.ne
    {a b : ResourceIdentity} (h : CountReadsAsSchema a b) :
    a ≠ b := by
  obtain ⟨-, hcount, hnone, -, -⟩ := h
  rintro rfl
  exact hcount hnone

theorem CountReadsAsSchema.stream_eq
    {a b : ResourceIdentity} (h : CountReadsAsSchema a b) :
    a.stream = b.stream := by
  obtain ⟨hschema, hcount, hnone, htext, hattrs⟩ := h
  have hne : b.schemaURL.1 ≠ [] := by
    rw [htext]
    exact decimalText_ne_nil _
  rw [ResourceIdentity.stream, ResourceIdentity.stream, if_neg (not_not.mpr hschema),
    if_pos hcount, if_pos hne, if_neg (not_not.mpr hnone), writeCount, htext, hattrs,
    List.nil_append, List.append_nil]

/-- A resource whose schema URL is empty in front of one whose is not: the schema URL is read
as a count. -/
theorem countReadsAsSchema_of_stream
    {a b : ResourceIdentity} (ha : a.schemaURL.1 = []) (hb : b.schemaURL.1 ≠ [])
    (h : a.stream = b.stream) :
    CountReadsAsSchema a b := by
  rw [ResourceIdentity.stream, ResourceIdentity.stream, if_neg (not_not.mpr ha), if_pos hb,
    writeCount, writeCount, List.nil_append, List.append_assoc] at h
  by_cases hcount : a.droppedAttributesCount = 0
  · rw [if_neg (not_not.mpr hcount), List.nil_append] at h
    exact absurd h.symm writeString_append_ne_bytes
  · rw [if_pos hcount] at h
    obtain ⟨htext, hrest⟩ := writeString_append_inj h
    by_cases hnone : b.droppedAttributesCount = 0
    · rw [if_neg (not_not.mpr hnone), List.nil_append] at hrest
      exact ⟨ha, hcount, hnone, htext.symm, writeValue_bytes_inj hrest⟩
    · rw [if_pos hnone] at hrest
      exact absurd hrest.symm writeString_append_ne_bytes

/-- Two resources whose schema URLs are both there, or both empty, are read back. -/
theorem eq_of_stream
    {a b : ResourceIdentity} (hschema : a.schemaURL.1 = [] ↔ b.schemaURL.1 = [])
    (h : a.stream = b.stream) :
    a = b := by
  have hrest : a.schemaURL = b.schemaURL ∧
      (if a.droppedAttributesCount ≠ 0 then
        writeValue (.uint64 a.droppedAttributesCount.toUInt64) else []) ++
          (writeValue (.bytes a.attrsRaw.1) ++ []) =
      (if b.droppedAttributesCount ≠ 0 then
        writeValue (.uint64 b.droppedAttributesCount.toUInt64) else []) ++
          (writeValue (.bytes b.attrsRaw.1) ++ []) := by
    rw [ResourceIdentity.stream, ResourceIdentity.stream, List.append_assoc,
      List.append_assoc] at h
    rw [List.append_nil, List.append_nil]
    by_cases ha : a.schemaURL.1 = []
    · have hb := hschema.mp ha
      rw [if_neg (not_not.mpr ha), if_neg (not_not.mpr hb), List.nil_append,
        List.nil_append] at h
      exact ⟨Subtype.ext (ha.trans hb.symm), h⟩
    · have hb := mt hschema.mpr ha
      rw [if_pos ha, if_pos hb] at h
      exact writeString_append_inj h
  obtain ⟨hurl, hcounts⟩ := hrest
  obtain ⟨hcount, hattrs, -⟩ := writeCount_append_inj hcounts
  exact ResourceIdentity.ext hurl hcount hattrs

/-- Two resources with one stream are one resource, unless the schema URL of one is the text
of the dropped attribute count of the other. -/
theorem hashResource_stream_iff (a b : ResourceIdentity) :
    (a.stream = b.stream → a = b) ↔ ¬ (CountReadsAsSchema a b ∨ CountReadsAsSchema b a) := by
  constructor
  · rintro h (hab | hba)
    · exact hab.ne (h hab.stream_eq)
    · exact hba.ne (h hba.stream_eq.symm).symm
  · intro hread h
    by_cases ha : a.schemaURL.1 = []
    · by_cases hb : b.schemaURL.1 = []
      · exact eq_of_stream (iff_of_true ha hb) h
      · exact absurd (Or.inl (countReadsAsSchema_of_stream ha hb h)) hread
    · by_cases hb : b.schemaURL.1 = []
      · exact absurd (Or.inr (countReadsAsSchema_of_stream hb ha h.symm)) hread
      · exact eq_of_stream (iff_of_false ha hb) h

/-- Five dropped attributes, against the schema URL `5`. -/
theorem hashResource_stream_collides :
    ¬ ∀ a b : ResourceIdentity, a.stream = b.stream → a = b := by
  intro h
  have hread : CountReadsAsSchema ⟨⟨[], by decide⟩, 5, ⟨[], by decide⟩⟩
      ⟨countText 5, 0, ⟨[], by decide⟩⟩ := ⟨rfl, by decide, rfl, rfl, rfl⟩
  exact hread.ne (h _ _ hread.stream_eq)

/-! ### Series -/

theorem writeUint64_append_inj
    {v w : UInt64} {r s : List UInt8} (h : writeUint64 v ++ r = writeUint64 w ++ s) :
    v = w ∧ r = s :=
  littleEndian_append_inj (List.cons.inj h).2

theorem writeValue_bool_append_inj
    {a b : Bool} {r s : List UInt8}
    (h : writeValue (.bool a) ++ r = writeValue (.bool b) ++ s) :
    a = b ∧ r = s := by
  rw [writeValue_bool, writeValue_bool] at h
  obtain ⟨hbyte, hrest⟩ := List.cons.inj (List.cons.inj h).2
  refine ⟨?_, hrest⟩
  revert hbyte
  cases a <;> cases b <;> decide

/-- A series is read back from its stream. -/
theorem hashSeries_stream_injective
    {a b : MetricSeriesIdentity} (h : a.stream = b.stream) :
    a = b := by
  simp only [MetricSeriesIdentity.stream, List.append_assoc] at h
  obtain ⟨hresource, h⟩ := writeUint64_append_inj h
  obtain ⟨hschema, h⟩ := writeString_append_inj h
  obtain ⟨hname, h⟩ := writeString_append_inj h
  obtain ⟨hversion, h⟩ := writeString_append_inj h
  obtain ⟨hcount, hscope, h⟩ := writeCount_append_inj h
  obtain ⟨hmetric, h⟩ := writeString_append_inj h
  obtain ⟨htype, h⟩ := writeString_append_inj h
  obtain ⟨hkind, h⟩ := writeString_append_inj h
  obtain ⟨hunit, h⟩ := writeString_append_inj h
  obtain ⟨htemporality, h⟩ := writeString_append_inj h
  obtain ⟨hmonotonic, h⟩ := writeValue_bool_append_inj h
  have hattributes := writeValue_bytes_inj h
  have hscopes : a.scope = b.scope :=
    MetricScopeIdentity.ext hschema hname hversion hcount hscope
  exact MetricSeriesIdentity.ext hresource hscopes hmetric htype hkind hunit htemporality
    hmonotonic hattributes

/-! ### Layouts -/

/-- A word that may be missing is read back. -/
theorem optionalWord_append_inj
    {α : Type} {f : α → HashValue} {tag : UInt8} {word : α → UInt64}
    (hf : ∀ x, writeValue (f x) = tag :: littleEndian (word x)) (htag : tag ≠ tagNil)
    (hword : Function.Injective word) {a b : Option α} {r s : List UInt8}
    (h : writeValue ((a.map f).getD .nil) ++ r = writeValue ((b.map f).getD .nil) ++ s) :
    a = b ∧ r = s := by
  cases a with
  | none =>
      cases b with
      | none =>
          rw [Option.map_none, Option.getD_none, writeValue_nil] at h
          exact ⟨rfl, (List.cons.inj h).2⟩
      | some y =>
          rw [Option.map_none, Option.map_some, Option.getD_none, Option.getD_some,
            writeValue_nil, hf] at h
          exact absurd (List.cons.inj h).1.symm htag
  | some x =>
      cases b with
      | none =>
          rw [Option.map_none, Option.map_some, Option.getD_none, Option.getD_some,
            writeValue_nil, hf] at h
          exact absurd (List.cons.inj h).1 htag
      | some y =>
          rw [Option.map_some, Option.map_some, Option.getD_some, Option.getD_some, hf, hf] at h
          obtain ⟨hsame, hrest⟩ := littleEndian_append_inj (List.cons.inj h).2
          exact ⟨congrArg some (hword hsame), hrest⟩

/-- A layout is read back from its stream. -/
theorem histogramLayoutHash_stream_injective
    {a b : HistogramLayoutIdentity} (h : a.stream = b.stream) :
    a = b := by
  simp only [HistogramLayoutIdentity.stream, List.append_assoc] at h
  obtain ⟨hkind, h⟩ := writeString_append_inj h
  obtain ⟨hlen, h⟩ := writeBinaryLen_append_inj a.explicitBounds.2 b.explicitBounds.2 h
  have hbound : ∀ x ∈ a.explicitBounds.1, ∀ y ∈ b.explicitBounds.1, ∀ r s,
      writeValue (.float64 x) ++ r = writeValue (.float64 y) ++ s → x = y ∧ r = s := by
    intro x _ y _ r s h
    rw [writeValue_float64, writeValue_float64] at h
    exact littleEndian_append_inj (List.cons.inj h).2
  obtain ⟨hbounds, h⟩ := forall₂_of_flatMap_append hbound hlen h
  have hwiden : Function.Injective fun scale : Int32 => scale.toInt64.toUInt64 := by
    intro x y hxy
    have hsame := congrArg (fun w : UInt64 => w.toInt64.toInt32) hxy
    simpa using hsame
  obtain ⟨hscale, h⟩ := optionalWord_append_inj
    (fun scale : Int32 => writeValue_int64 scale.toInt64) (by decide) hwiden h
  have hlast := congrArg (fun stream : List UInt8 => stream ++ []) h
  obtain ⟨hzero, -⟩ := optionalWord_append_inj writeValue_float64 (by decide)
    Function.injective_id hlast
  have hsame : a.explicitBounds = b.explicitBounds :=
    Subtype.ext (List.forall₂_eq_eq_eq ▸ hbounds)
  exact HistogramLayoutIdentity.ext hkind hsame hscale hzero

/-- Two series with one stream are one series, and so for two layouts. -/
theorem identityStreams_injective :
    Function.Injective MetricSeriesIdentity.stream ∧
      Function.Injective HistogramLayoutIdentity.stream :=
  ⟨fun _ _ h => hashSeries_stream_injective h, fun _ _ h => histogramLayoutHash_stream_injective h⟩

end Storage
end Otelop
