import Mathlib.Data.List.Lex
import Mathlib.Tactic
import Otelop.Lib.Joined
import Otelop.Lib.JsonQuote
import Otelop.Lib.StableSort
import Otelop.Frontend.ChartSeries
import Otelop.Frontend.LogSearch

/-!
# The keys of the chart lines

`attrKey` and `facetSeriesKey` of `frontend/src/lib/metric-stats.ts`, by which the chart and the
tiles group the raw points: the attributes in the order of their keys, or the values of the
attributes of a facet, joined to a text.

Neither text is read back in every case.  A key that contains `=` or a value that contains a
space can stand for more than one attribute, and attributes whose keys the locale takes for the
same stay in the order in which they came.

`localeCompare` is any comparison that is a total preorder.  The values are scalars, a facet
names attributes of its own, and the colours are left out.

**Results.**
* `attrKey_eq_iff`, `facetSeriesKey_eq_iff`: when two keys are the same.
* `entryText_injective`: an attribute can be read back from its text.
* `not_regrouped_of_plainKeys`: without `=` in the keys there is one reading.
* `seriesKeys_iff`: when the keys tell just the attributes apart.
-/

namespace Otelop
namespace Frontend

open Lib Storage Broadcast

/-! ### Attributes -/

/-- A unit of the text of a number. -/
def isNumeralUnit (u : UInt16) : Bool :=
  (0x30 ≤ u && u ≤ 0x39) || u = jsChar '+' || u = jsChar '-' || u = jsChar '.' || u = jsChar 'e'

/-- A finite number, by what `String(n)` gives, which no other number has. -/
structure JsNumber where
  text : JsString
  nonempty : text ≠ []
  numeral : text.all isNumeralUnit = true
deriving DecidableEq

/-- A scalar that has come in JSON. -/
inductive AttrValue where
  | null
  | bool (b : Bool)
  | number (n : JsNumber)
  | string (s : JsString)
deriving DecidableEq

/-- An object, in the order of `Object.entries`. -/
structure Attrs where
  entries : List (JsString × AttrValue)
  keys_nodup : (entries.map Prod.fst).Nodup

/-- The same attributes in any order. -/
def Attrs.Same (a b : Attrs) : Prop := a.entries.Perm b.entries

/-- `attrs[key]` for the attributes' own keys: a key such as `toString`, which the source would
find in `Object.prototype`, is missing here. -/
def Attrs.get? (attrs : Attrs) (key : JsString) : Option AttrValue :=
  (attrs.entries.find? fun e => e.1 = key).map Prod.snd

/-- `String(b)` -/
def boolText (b : Bool) : JsString := if b then js "true" else js "false"

/-- `JSON.stringify(v)` -/
def AttrValue.json : AttrValue → JsString
  | null => js "null"
  | bool b => boolText b
  | number n => n.text
  | string s => quoteString s

def formatAttrValue : Option AttrValue → JsString
  | none => js "(unset)"
  | some .null => js "(unset)"
  | some (.bool b) => boolText b
  | some (.number n) => n.text
  | some (.string s) => s

/-! ### The keys -/

/-- `localeCompare`, a total preorder. -/
structure Collation where
  compare : JsString → JsString → Ordering
  swap : ∀ a b, compare b a = (compare a b).swap
  trans : ∀ a b c, compare a b ≠ .gt → compare b c ≠ .gt → compare a c ≠ .gt

/-- The order `attrKey` sorts by. -/
def Collation.le (c : Collation) (e e' : JsString × AttrValue) : Prop := c.compare e.1 e'.1 ≠ .gt

instance (c : Collation) : DecidableRel c.le :=
  fun e e' => inferInstanceAs (Decidable (c.compare e.1 e'.1 ≠ .gt))

instance (c : Collation) : Std.Total c.le where
  total e e' := by
    rw [Collation.le, Collation.le, c.swap e.1 e'.1]
    cases c.compare e.1 e'.1 <;> decide

instance (c : Collation) : IsTrans _ c.le where
  trans _ _ _ := c.trans _ _ _

/-- `${k}=${JSON.stringify(v)}` -/
def entryText (e : JsString × AttrValue) : JsString := e.1 ++ jsChar '=' :: e.2.json

/-- The entries as `attrKey` writes them. -/
def sortedEntries (c : Collation) (attrs : Attrs) : List (JsString × AttrValue) :=
  attrs.entries.insertionSort c.le

def attrKey (c : Collation) (attrs : Attrs) : JsString :=
  if sortedEntries c attrs = [] then []
  else (js ", ").intercalate ((sortedEntries c attrs).map entryText)

structure MetricFacet where
  attributes : List JsString
  label : JsString

/-- The values a facet shows. -/
def displayedValues (facet : MetricFacet) (attrs : Attrs) : List JsString :=
  facet.attributes.map fun a => formatAttrValue (attrs.get? a)

def facetSeriesKey (c : Collation) (attrs : Attrs) : Option MetricFacet → JsString
  | some facet => (js " ").intercalate (displayedValues facet attrs)
  | none => attrKey c attrs

/-! ### The lines and the tiles -/

/-- A point with the attributes the browser has parsed. -/
structure RawPoint (V : Type) where
  point : DataPoint V
  attributes : Attrs

/-- `MetricSeries` -/
structure MetricSeries (V : Type) where
  key : JsString
  label : JsString
  points : List (MetricChartPoint V)

structure StatTilePoint (V : Type) where
  epochNs : Time
  seriesKey : UInt64
  value : V
  count : Option V

structure StatTileGroup (V : Type) where
  key : JsString
  label : JsString
  points : List (StatTilePoint V)

section Groups

variable {V : Type}

/-- `key || "(no attributes)"` -/
def groupLabel (key : JsString) : JsString := if key = [] then js "(no attributes)" else key

/-- The map from a key to its points. -/
def rawGroups (c : Collation) (dataPoints : List (RawPoint V)) :
    List (JsString × List (RawPoint V)) :=
  groupRows (fun p => attrKey c p.attributes) dataPoints

def buildRawGroupedSeries (c : Collation) (ops : DoubleOps V) (dataPoints : List (RawPoint V))
    (metricType : String) (window : EventTimeWindow) (bucketSeconds : Int) :
    List (MetricSeries V) :=
  (rawGroups c dataPoints).map fun g =>
    ⟨g.1, groupLabel g.1,
      bucketRawMetricPoints ops (g.2.map RawPoint.point) metricType window bucketSeconds⟩

/-- The last instant of the points. -/
def lastInstant : List (RawPoint V) → Option Time
  | [] => none
  | p :: points => some (points.foldl (fun last q => max last q.point.timestamp) p.point.timestamp)

def filterDataPointsInRange (points : List (RawPoint V)) (range : ChartTimeRange) :
    List (RawPoint V) :=
  match range.toMs, lastInstant points with
  | some ms, some maxNs => points.filter fun p => maxNs - ms * 1_000_000 ≤ p.point.timestamp
  | _, _ => points

/-- The points a live window shows; a fixed one has been applied. -/
def windowedPoints (rangeDataPoints : List (RawPoint V)) : EventTimeWindow → List (RawPoint V)
  | .live range => filterDataPointsInRange rangeDataPoints range
  | .fixed _ _ _ => rangeDataPoints

/-- The map from a key to the points of a tile. -/
def tileGroups (c : Collation) (facet : Option MetricFacet) (windowed : List (RawPoint V)) :
    List (JsString × List (RawPoint V)) :=
  groupRows (fun p => facetSeriesKey c p.attributes facet) windowed

def statTileGroupsFromRawPoints (c : Collation) (rangeDataPoints : List (RawPoint V))
    (facet : Option MetricFacet) (window : EventTimeWindow) : List (StatTileGroup V) :=
  (tileGroups c facet (windowedPoints rangeDataPoints window)).map fun g =>
    ⟨g.1, groupLabel g.1, g.2.map fun p =>
      ⟨p.point.timestamp, p.point.seriesKey, p.point.value, p.point.count⟩⟩

end Groups

/-! ### The texts of values -/

/-- What no text of a value other than a string has. -/
theorem json_plain {v : AttrValue} (hv : ∀ s, v ≠ .string s) :
    v.json ≠ [] ∧ ∀ u ∈ v.json, u ≠ 0x22 ∧ u ≠ jsChar '=' ∧ u ≠ 0x2C := by
  have hword : ∀ {word : JsString},
      (word.all fun u => decide (u ≠ 0x22 ∧ u ≠ jsChar '=' ∧ u ≠ 0x2C)) = true →
        ∀ u ∈ word, u ≠ 0x22 ∧ u ≠ jsChar '=' ∧ u ≠ 0x2C :=
    fun h u hu => of_decide_eq_true (List.all_eq_true.mp h u hu)
  cases v with
  | null => exact ⟨by decide, hword (by decide)⟩
  | bool b =>
      cases b with
      | false => exact ⟨by decide, hword (by decide)⟩
      | true => exact ⟨by decide, hword (by decide)⟩
  | number n =>
      refine ⟨n.nonempty, fun u hu => ?_⟩
      have hnumeral := List.all_eq_true.mp n.numeral u hu
      refine ⟨?_, ?_, ?_⟩ <;> rintro rfl <;> exact absurd hnumeral (by decide)
  | string s => exact absurd rfl (hv s)

theorem json_injective : Function.Injective AttrValue.json := by
  have hword : ∀ (n : JsNumber) (word : JsString),
      (∃ u ∈ word, isNumeralUnit u = false) → n.text ≠ word := by
    rintro n word ⟨u, hu, hnot⟩ rfl
    rw [List.all_eq_true.mp n.numeral u hu] at hnot
    cases hnot
  have hquote : ∀ {v : AttrValue} (s : JsString), (∀ s, v ≠ .string s) →
      v.json ≠ (AttrValue.string s).json := by
    intro v s hv h
    have hmem : (0x22 : UInt16) ∈ v.json := by
      rw [h]
      exact List.mem_cons_self
    exact ((json_plain hv).2 _ hmem).1 rfl
  intro v w h
  cases v with
  | null =>
      cases w with
      | null => rfl
      | bool b => cases b <;> exact absurd h (by decide)
      | number n => exact absurd h.symm (hword n _ (by decide))
      | string s => exact absurd h (hquote s (by simp))
  | bool b =>
      cases w with
      | null => cases b <;> exact absurd h (by decide)
      | bool b' =>
          cases b <;> cases b'
          · rfl
          · exact absurd h (by decide)
          · exact absurd h (by decide)
          · rfl
      | number n => cases b <;> exact absurd h.symm (hword n _ (by decide))
      | string s => exact absurd h (hquote s (by simp))
  | number n =>
      cases w with
      | null => exact absurd h (hword n _ (by decide))
      | bool b => cases b <;> exact absurd h (hword n _ (by decide))
      | number n' =>
          cases n
          cases n'
          cases h
          rfl
      | string s => exact absurd h (hquote s (by simp))
  | string s =>
      cases w with
      | null => exact absurd h.symm (hquote s (by simp))
      | bool b => exact absurd h.symm (hquote s (by simp))
      | number n => exact absurd h.symm (hquote s (by simp))
      | string s' => exact congrArg AttrValue.string (quoteString_injective h)

/-- No `=` inside the text of a value has the text of a value behind it. -/
theorem json_ne_append (v w : AttrValue) (x : JsString) :
    v.json ≠ x ++ jsChar '=' :: w.json := by
  intro h
  have hmem : jsChar '=' ∈ v.json := by
    rw [h]
    simp
  cases v with
  | null => exact absurd hmem (by decide)
  | bool b => cases b <;> exact absurd hmem (by decide)
  | number n =>
      have hplain := (json_plain (v := .number n) (by simp)).2
      exact (hplain _ hmem).2.1 rfl
  | string s =>
      have hlast : (quoteString s).getLast? = some 0x22 := by
        rw [quoteString, ← List.cons_append, List.getLast?_concat]
      change quoteString s = x ++ jsChar '=' :: w.json at h
      by_cases hw : ∃ s', w = .string s'
      · obtain ⟨s', rfl⟩ := hw
        cases x with
        | nil => exact absurd (List.cons.inj h).1 (by decide)
        | cons u x =>
            obtain rfl : 0x22 = u := (List.cons.inj h).1
            exact quoteString_suffix_ne (by decide) h
      · obtain ⟨hne, hplain⟩ := json_plain fun s' hs' => hw ⟨s', hs'⟩
        rw [h, List.append_cons, List.getLast?_append_of_ne_nil _ hne] at hlast
        exact (hplain _ (List.mem_of_getLast? hlast)).1 rfl

/-- An attribute can be read back from its text. -/
theorem entryText_injective : Function.Injective entryText := by
  have hshorter : ∀ {e e' : JsString × AttrValue}, e.1.length ≤ e'.1.length →
      entryText e = entryText e' → e = e' := by
    rintro ⟨k, v⟩ ⟨k', v'⟩ hle h
    obtain ⟨z, rfl⟩ : k <+: k' :=
      List.prefix_of_prefix_length_le ⟨_, h⟩ (List.prefix_append _ _) hle
    have hrest : jsChar '=' :: v.json = z ++ jsChar '=' :: v'.json := by
      rw [entryText, entryText, List.append_assoc] at h
      exact List.append_cancel_left h
    cases z with
    | nil =>
        rw [json_injective (List.cons.inj hrest).2, List.append_nil]
    | cons c z =>
        exact absurd (List.cons.inj hrest).2 (json_ne_append v v' z)
  intro e e' h
  rcases Nat.le_total e.1.length e'.1.length with hle | hle
  · exact hshorter hle h
  · exact (hshorter hle h.symm).symm

/-! ### When two keys are the same -/

section Keys

variable {c : Collation} {a b : Attrs}

/-- The texts `attrKey` joins. -/
def attrTexts (c : Collation) (attrs : Attrs) : List JsString :=
  (sortedEntries c attrs).map entryText

/-- The attributes whose keys the locale takes for the same come in the same order. -/
def SameOrder (c : Collation) (a b : Attrs) : Prop :=
  ∀ key, (a.entries.filter fun e => c.compare key e.1 = .eq) =
    b.entries.filter fun e => c.compare key e.1 = .eq

theorem tied_collation (c : Collation) (e e' : JsString × AttrValue) :
    tied c.le e e' = decide (c.compare e.1 e'.1 = .eq) := by
  rw [Bool.eq_iff_iff, tied_iff, decide_eq_true_eq, Collation.le, Collation.le,
    c.swap e.1 e'.1]
  cases c.compare e.1 e'.1 <;> decide

/-- The entries are sorted to the same list when the tied ones come in the same order. -/
theorem sortedEntries_eq_iff : sortedEntries c a = sortedEntries c b ↔ SameOrder c a b := by
  rw [sortedEntries, sortedEntries, insertionSort_eq_iff]
  have hfilter : ∀ (attrs : Attrs) (e : JsString × AttrValue),
      attrs.entries.filter (tied c.le e) =
        attrs.entries.filter fun e' => c.compare e.1 e'.1 = .eq :=
    fun attrs e => List.filter_congr fun e' _ => tied_collation c e e'
  constructor
  · intro h key
    rw [← hfilter a (key, .null), ← hfilter b (key, .null)]
    exact h _
  · intro h e
    rw [hfilter, hfilter]
    exact h e.1

theorem same_of_sortedEntries (h : sortedEntries c a = sortedEntries c b) : a.Same b := by
  have ha := List.perm_insertionSort c.le a.entries
  have hb := List.perm_insertionSort c.le b.entries
  exact ha.symm.trans ((List.Perm.of_eq h).trans hb)

theorem unbordered_comma : Unbordered (js ", ") :=
  unbordered_pair (by decide)

theorem unbordered_space : Unbordered (js " ") :=
  unbordered_singleton _

/-- The key of no attributes is not the key of some. -/
theorem intercalate_attrTexts_ne_nil (h : attrTexts c a ≠ []) :
    (js ", ").intercalate (attrTexts c a) ≠ [] := by
  obtain ⟨text, texts, htexts⟩ := List.exists_cons_of_ne_nil h
  have hmem : text ∈ attrTexts c a := htexts ▸ List.mem_cons_self
  obtain ⟨e, -, rfl⟩ := List.mem_map.mp hmem
  rw [htexts, intercalate_cons]
  simp [entryText]

/-- Two keys are the same when the attributes are sorted to one list, or are read back in two
ways. -/
theorem attrKey_eq_iff :
    attrKey c a = attrKey c b ↔
      SameOrder c a b ∨ Regrouped (js ", ") (attrTexts c a) (attrTexts c b) := by
  have hnil : ∀ attrs : Attrs, attrTexts c attrs = [] ↔ sortedEntries c attrs = [] :=
    fun attrs => List.map_eq_nil_iff
  have htexts : attrTexts c a = attrTexts c b ↔ SameOrder c a b := by
    rw [← sortedEntries_eq_iff]
    exact (List.map_injective_iff.mpr entryText_injective).eq_iff
  have hkey : ∀ attrs : Attrs,
      attrKey c attrs = (js ", ").intercalate (attrTexts c attrs) := by
    intro attrs
    rw [attrKey]
    split
    · rename_i h
      rw [(hnil attrs).mpr h, List.intercalate_nil]
    · rfl
  rw [hkey, hkey, ← htexts]
  by_cases ha : attrTexts c a = []
  · by_cases hb : attrTexts c b = []
    · exact intercalate_eq_iff_or unbordered_comma (iff_of_true ha hb)
    · rw [ha, List.intercalate_nil]
      refine iff_of_false (intercalate_attrTexts_ne_nil hb).symm ?_
      rintro (h | ⟨-, pieces, hleft, hright⟩)
      · exact hb h.symm
      · exact hb (hright.eq_nil_iff.mp (hleft.eq_nil_iff.mpr rfl))
  · by_cases hb : attrTexts c b = []
    · rw [hb, List.intercalate_nil]
      refine iff_of_false (intercalate_attrTexts_ne_nil ha) ?_
      rintro (h | ⟨-, pieces, hleft, hright⟩)
      · exact ha h
      · exact ha (hleft.eq_nil_iff.mp (hright.eq_nil_iff.mpr rfl))
    · exact intercalate_eq_iff_or unbordered_comma (iff_of_false ha hb)

theorem facetSeriesKey_eq_iff (facet : MetricFacet) :
    facetSeriesKey c a (some facet) = facetSeriesKey c b (some facet) ↔
      displayedValues facet a = displayedValues facet b ∨
        Regrouped (js " ") (displayedValues facet a) (displayedValues facet b) := by
  refine intercalate_eq_iff_or unbordered_space ?_
  rw [displayedValues, displayedValues, List.map_eq_nil_iff, List.map_eq_nil_iff]

/-! ### Keys that tell the attributes apart -/

/-- The same attributes come in an order the locale does not change, and different ones are not
two readings of one text. -/
def KeysAgree (c : Collation) (a b : Attrs) : Prop :=
  (a.Same b → SameOrder c a b ∨ Regrouped (js ", ") (attrTexts c a) (attrTexts c b)) ∧
    (¬ a.Same b → ¬ Regrouped (js ", ") (attrTexts c a) (attrTexts c b))

/-- What a line or a tile stands for. -/
def SameShown : Option MetricFacet → Attrs → Attrs → Prop
  | none, a, b => a.Same b
  | some facet, a, b => displayedValues facet a = displayedValues facet b

/-- The condition on the attributes of two points. -/
def SeriesKeysAgree (c : Collation) : Option MetricFacet → Attrs → Attrs → Prop
  | none, a, b => KeysAgree c a b
  | some facet, a, b => ¬ Regrouped (js " ") (displayedValues facet a) (displayedValues facet b)

theorem attrKey_agrees_iff :
    (attrKey c a = attrKey c b ↔ a.Same b) ↔ KeysAgree c a b := by
  rw [attrKey_eq_iff, KeysAgree]
  have hsame : SameOrder c a b → a.Same b :=
    fun h => same_of_sortedEntries (sortedEntries_eq_iff.mpr h)
  constructor
  · intro h
    exact ⟨h.mpr, fun hnot hregrouped => hnot (h.mp (Or.inr hregrouped))⟩
  · rintro ⟨hsplit, hmerge⟩
    refine ⟨?_, hsplit⟩
    rintro (horder | hregrouped)
    · exact hsame horder
    · by_contra hnot
      exact hmerge hnot hregrouped

theorem facetSeriesKey_agrees_iff (facet : Option MetricFacet) :
    (facetSeriesKey c a facet = facetSeriesKey c b facet ↔ SameShown facet a b) ↔
      SeriesKeysAgree c facet a b := by
  cases facet with
  | none =>
      exact attrKey_agrees_iff
  | some facet =>
      rw [facetSeriesKey_eq_iff, SameShown, SeriesKeysAgree]
      constructor
      · intro h hregrouped
        exact hregrouped.1 (h.mp (Or.inr hregrouped))
      · intro hnot
        exact or_iff_left hnot

/-! ### Keys without an equals sign -/

/-- What may follow the text of a value. -/
def EndsEntry (rest : JsString) : Prop := rest = [] ∨ ∃ more, rest = 0x2C :: more

/-- The text of a value ends where the entry ends. -/
theorem json_append_inj
    {v w : AttrValue} {x y : JsString} (hx : EndsEntry x) (hy : EndsEntry y)
    (h : v.json ++ x = w.json ++ y) : v = w ∧ x = y := by
  have hplain : ∀ {v : AttrValue} {x : JsString}, (∀ s, v ≠ .string s) → EndsEntry x →
      (v.json ++ x).takeWhile (fun u => u ≠ 0x2C) = v.json := by
    intro v x hv hx
    have hcomma : ∀ u ∈ v.json, (decide (u ≠ 0x2C)) = true :=
      fun u hu => decide_eq_true ((json_plain hv).2 u hu).2.2
    rw [List.takeWhile_append_of_pos hcomma]
    rcases hx with rfl | ⟨more, rfl⟩
    · rw [List.takeWhile_nil, List.append_nil]
    · rw [List.takeWhile_cons_of_neg (by simp), List.append_nil]
  have hquote : ∀ {v : AttrValue} {s : JsString} {x y : JsString}, (∀ s, v ≠ .string s) →
      v.json ++ x ≠ (AttrValue.string s).json ++ y := by
    intro v s x y hv heq
    obtain ⟨hne, hnot⟩ := json_plain hv
    obtain ⟨u, text, htext⟩ := List.exists_cons_of_ne_nil hne
    rw [htext] at heq
    exact (hnot u (htext ▸ List.mem_cons_self)).1 (List.cons.inj heq).1
  have hjson : v.json = w.json := by
    by_cases hv : ∃ s, v = .string s
    · obtain ⟨s, rfl⟩ := hv
      by_cases hw : ∃ s', w = .string s'
      · obtain ⟨s', rfl⟩ := hw
        change quoteString s ++ x = quoteString s' ++ y at h
        rcases List.append_eq_append_iff.mp h with ⟨z, hz, -⟩ | ⟨z, hz, -⟩
        · rw [eq_nil_of_quoteString_append hz, List.append_nil] at hz
          exact hz.symm
        · rw [eq_nil_of_quoteString_append hz, List.append_nil] at hz
          exact hz
      · exact absurd h.symm (hquote fun s' hs' => hw ⟨s', hs'⟩)
    · have hv' : ∀ s, v ≠ .string s := fun s hs => hv ⟨s, hs⟩
      by_cases hw : ∃ s', w = .string s'
      · obtain ⟨s', rfl⟩ := hw
        exact absurd h (hquote hv')
      · rw [← hplain hv' hx, h, hplain (fun s' hs' => hw ⟨s', hs'⟩) hy]
  rw [hjson] at h
  exact ⟨json_injective hjson, List.append_cancel_left h⟩

/-- Entries without `=` in their keys are read back from their join. -/
theorem entries_of_intercalate
    {entries entries' : List (JsString × AttrValue)}
    (h : ∀ e ∈ entries, jsChar '=' ∉ e.1) (h' : ∀ e ∈ entries', jsChar '=' ∉ e.1)
    (hjoin : (js ", ").intercalate (entries.map entryText) =
      (js ", ").intercalate (entries'.map entryText)) : entries = entries' := by
  have hends : ∀ l : List (JsString × AttrValue), EndsEntry
      (if l.map entryText = [] then [] else js ", " ++ (js ", ").intercalate (l.map entryText)) := by
    intro l
    split
    · exact Or.inl rfl
    · exact Or.inr ⟨_, rfl⟩
  induction entries generalizing entries' with
  | nil =>
      cases entries' with
      | nil => rfl
      | cons e' entries' =>
          rw [List.map_cons, intercalate_cons] at hjoin
          simp [entryText] at hjoin
  | cons e entries ih =>
      cases entries' with
      | nil =>
          rw [List.map_cons, intercalate_cons] at hjoin
          simp [entryText] at hjoin
      | cons e' entries' =>
          obtain ⟨hkey, hkeys⟩ := List.forall_mem_cons.mp h
          obtain ⟨hkey', hkeys'⟩ := List.forall_mem_cons.mp h'
          rw [List.map_cons, List.map_cons, intercalate_cons, intercalate_cons, entryText,
            entryText, List.append_assoc, List.append_assoc, List.cons_append,
            List.cons_append] at hjoin
          obtain ⟨hfirst, hrest⟩ := append_cons_inj hkey hkey' hjoin
          obtain ⟨hvalue, hmore⟩ := json_append_inj (hends entries) (hends entries') hrest
          have hentry : e = e' := Prod.ext hfirst hvalue
          have hnil : entries.map entryText = [] ↔ entries'.map entryText = [] := by
            constructor
            · intro hnil
              by_contra hnot
              rw [if_pos hnil, if_neg hnot] at hmore
              exact absurd hmore.symm (List.append_ne_nil_of_left_ne_nil (by decide) _)
            · intro hnil
              by_contra hnot
              rw [if_neg hnot, if_pos hnil] at hmore
              exact absurd hmore (List.append_ne_nil_of_left_ne_nil (by decide) _)
          rw [hentry]
          refine congrArg (List.cons e') (ih hkeys hkeys' ?_)
          by_cases htexts : entries.map entryText = []
          · rw [htexts, hnil.mp htexts]
          · rw [if_neg htexts, if_neg (mt hnil.mpr htexts)] at hmore
            exact List.append_cancel_left hmore

/-- Without `=` in the keys there is one reading. -/
theorem not_regrouped_of_plainKeys
    (ha : ∀ e ∈ a.entries, jsChar '=' ∉ e.1) (hb : ∀ e ∈ b.entries, jsChar '=' ∉ e.1) :
    ¬ Regrouped (js ", ") (attrTexts c a) (attrTexts c b) := by
  have hsorted : ∀ {attrs : Attrs}, (∀ e ∈ attrs.entries, jsChar '=' ∉ e.1) →
      ∀ e ∈ sortedEntries c attrs, jsChar '=' ∉ e.1 :=
    fun h e he => h e ((List.perm_insertionSort c.le _).mem_iff.mp he)
  rintro ⟨hne, pieces, hleft, hright⟩
  have hjoin := (intercalate_of_refines hleft).symm.trans (intercalate_of_refines hright)
  exact hne (congrArg (List.map entryText)
    (entries_of_intercalate (hsorted ha) (hsorted hb) hjoin))

/-- Keys without `=` that the locale tells apart are told apart. -/
theorem keysAgree_of_plainKeys
    (ha : ∀ e ∈ a.entries, jsChar '=' ∉ e.1) (hb : ∀ e ∈ b.entries, jsChar '=' ∉ e.1)
    (hlocale : ∀ e ∈ a.entries, ∀ e' ∈ a.entries, c.compare e.1 e'.1 = .eq → e.1 = e'.1) :
    KeysAgree c a b := by
  refine ⟨fun hsame => Or.inl ?_, fun _ => not_regrouped_of_plainKeys ha hb⟩
  have hperm : ∀ attrs, (sortedEntries c attrs).Perm attrs.entries :=
    fun attrs => List.perm_insertionSort c.le attrs.entries
  rw [← sortedEntries_eq_iff]
  refine List.Perm.eq_of_pairwise (fun e e' he he' hle hle' => ?_)
    (List.pairwise_insertionSort c.le a.entries) (List.pairwise_insertionSort c.le b.entries)
    ((hperm a).trans (hsame.trans (hperm b).symm))
  have hea : e ∈ a.entries := (hperm a).mem_iff.mp he
  have hea' : e' ∈ a.entries := hsame.mem_iff.mpr ((hperm b).mem_iff.mp he')
  have htied := tied_collation c e e'
  rw [tied_iff.mpr ⟨hle, hle'⟩] at htied
  exact List.inj_on_of_nodup_map a.keys_nodup hea hea'
    (hlocale e hea e' hea' (of_decide_eq_true htied.symm))

end Keys

/-! ### Lines and tiles that cover one combination each -/

/-- The keys tell just the attributes apart, and the lines and the tiles cover one combination
each, when equal attributes come in one order and different ones are not two readings of one
text. -/
theorem seriesKeys_iff (V : Type) (c : Collation) :
    (∀ a b, (attrKey c a = attrKey c b ↔ a.Same b) ↔ KeysAgree c a b) ∧
      (∀ facet a b,
        (facetSeriesKey c a (some facet) = facetSeriesKey c b (some facet) ↔
            displayedValues facet a = displayedValues facet b) ↔
          ¬ Regrouped (js " ") (displayedValues facet a) (displayedValues facet b)) ∧
      (∀ points : List (RawPoint V),
        OneClassEach (fun p q => p.attributes.Same q.attributes) (rawGroups c points) ↔
          ∀ p ∈ points, ∀ q ∈ points, KeysAgree c p.attributes q.attributes) ∧
      ∀ (rangeDataPoints : List (RawPoint V)) (facet : Option MetricFacet)
        (window : EventTimeWindow),
        OneClassEach (fun p q => SameShown facet p.attributes q.attributes)
            (tileGroups c facet (windowedPoints rangeDataPoints window)) ↔
          ∀ p ∈ windowedPoints rangeDataPoints window,
            ∀ q ∈ windowedPoints rangeDataPoints window,
              SeriesKeysAgree c facet p.attributes q.attributes := by
  refine ⟨fun a b => attrKey_agrees_iff, fun facet a b => facetSeriesKey_agrees_iff (some facet),
    fun points => ?_, fun rangeDataPoints facet window => ?_⟩
  · rw [rawGroups, oneClassEach_groupRows]
    exact forall₂_congr fun p _ => forall₂_congr fun q _ => attrKey_agrees_iff
  · rw [tileGroups, oneClassEach_groupRows]
    exact forall₂_congr fun p _ => forall₂_congr fun q _ => facetSeriesKey_agrees_iff facet

/-! ### Attributes that are merged or split -/

/-- The units of a text, `é` in two code points. -/
def decompose (s : JsString) : List ℕ :=
  s.flatMap fun u => if u = 0xE9 then [0x65, 0x301] else [u.toNat]

/-- The locale that compares texts by their place in a linear order. -/
def Collation.ofPlace {α : Type} [LinearOrder α] (place : JsString → α) : Collation where
  compare a b := cmp (place a) (place b)
  swap a b := (cmp_swap (place a) (place b)).symm
  trans a b d hab hbd hgt := by
    have hle : place a ≤ place b := not_lt.mp (mt (cmp_eq_gt_iff _ _).mpr hab)
    have hle' : place b ≤ place d := not_lt.mp (mt (cmp_eq_gt_iff _ _).mpr hbd)
    exact not_lt.mpr (hle.trans hle') ((cmp_eq_gt_iff _ _).mp hgt)

/-- A locale that does not tell the two forms of `é` apart. -/
def canonicalOrder : Collation := Collation.ofPlace decompose

instance (a b : Attrs) : Decidable (a.Same b) := inferInstanceAs (Decidable (a.entries.Perm _))

def one : AttrValue := .number ⟨js "1", by decide, by decide⟩

def two : AttrValue := .number ⟨js "2", by decide, by decide⟩

/-- Two attributes have the key of one whose name has both in it, two forms of `é` make two keys
of one combination, and a space moves from one value of a facet to the next. -/
theorem seriesKeys_collide :
    let ab : Attrs := ⟨[(js "a", one), (js "b", two)], by decide⟩
    let swallowed : Attrs := ⟨[(js "a=1, b", two)], by decide⟩
    let accents : Attrs := ⟨[([0xE9], one), ([0x65, 0x301], two)], by decide⟩
    let accents' : Attrs := ⟨[([0x65, 0x301], two), ([0xE9], one)], by decide⟩
    let route : MetricFacet := ⟨[js "method", js "route"], js "Method + Route"⟩
    let get : Attrs := ⟨[(js "method", .string (js "GET /")), (js "route", .string (js "x"))],
      by decide⟩
    let get' : Attrs := ⟨[(js "method", .string (js "GET")), (js "route", .string (js "/ x"))],
      by decide⟩
    (attrKey canonicalOrder ab = attrKey canonicalOrder swallowed ∧ ¬ ab.Same swallowed) ∧
      (accents.Same accents' ∧
        attrKey canonicalOrder accents ≠ attrKey canonicalOrder accents') ∧
      facetSeriesKey canonicalOrder get (some route) =
          facetSeriesKey canonicalOrder get' (some route) ∧
        displayedValues route get ≠ displayedValues route get' := by
  decide +kernel

end Frontend
end Otelop
