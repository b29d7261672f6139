import Otelop.Storage.Hash

/-!
# Attribute maps as Go values

`attributesToMap` of `internal/storage/attrs.go`: a `pcommon.Map` as a `map[string]any`, from
which the JSON columns are written.

A `pcommon.Map` is the list of its entries, in the order in which they were received, and may
hold a key twice; of a key the map has the last value.  JSON has no numeral for a NaN or an
infinity, so such a number becomes the text that `formatNonFinite` gives it, and the values of
arrays and of nested maps are converted in the same way; an empty value becomes the empty
text.

The functions are total: a value that holds other values is converted by recursion on them.
What the columns keep of the attributes is proved in `AttributeProjection`, and `ReadBack`
uses it for the rows of an export.
-/

namespace Otelop
namespace Storage

open Pcommon (Value)

/-- `math.IsNaN(d) || math.IsInf(d, 0)`, negated -/
def isFiniteBits (bits : UInt64) : Bool := (bits >>> 52) &&& 0x7FF ≠ 0x7FF

/-- `strconv.FormatFloat(d, 'g', -1, 64)` of a `d` that is not finite -/
def formatNonFinite (bits : UInt64) : ByteString :=
  if bits &&& 0xFFFFFFFFFFFFF ≠ 0 then [0x4E, 0x61, 0x4E]
  else if bits >>> 63 = 0 then [0x2B, 0x49, 0x6E, 0x66]
  else [0x2D, 0x49, 0x6E, 0x66]

mutual

/-- The Go value of an attribute value. -/
def valueToAny : Value → HashValue
  | .str s => .string s
  | .int n => .int64 n
  | .double bits => if isFiniteBits bits then .float64 bits else .string (formatNonFinite bits)
  | .bool b => .bool b
  | .bytes raw => .bytes raw
  | .slice items => .slice (sliceToAny items)
  | .map entries => .map (attributesToMap entries)
  | .empty => .string []

/-- The loop over a slice. -/
def sliceToAny : List Value → List HashValue
  | [] => []
  | item :: items => valueToAny item :: sliceToAny items

/-- A later entry overwrites an earlier one with its key. -/
def attributesToMap : List (ByteString × Value) → List (ByteString × HashValue)
  | [] => []
  | entry :: entries =>
      let result := attributesToMap entries
      if entry.1 ∈ result.map Prod.fst then result else entryToAny entry :: result

/-- An entry with its value converted. -/
def entryToAny : ByteString × Value → ByteString × HashValue
  | (key, value) => (key, valueToAny value)

end

end Storage
end Otelop
