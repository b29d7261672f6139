import Mathlib.Tactic
import Mathlib.Data.List.Lex
import Otelop.Frontend.LogSearch
import Otelop.Lib.Distinct
import Otelop.Lib.Probing

/-!
# Series colours

`frontend/src/lib/metric-series-colors.ts`: a series gets the palette slot that a hash of its
identity names, or the next free one.

The identities are made distinct and sorted by their code units first, so the slots are given
out in the same order whatever order the series come in.  The hash is the 32-bit FNV-1a of the
units of an identity.  The loop is that of `Lib/Probing.lean`; a palette that is used up gives
an identity the slot it prefers.

**Results.**
* `uniqueIdentities_eq_of_mem_iff`: the identities are taken in an order of their own.
* `seriesColorIndexes_stable`: so an index depends on the identity and on the set of identities
  only, and as many identities as there are colours have different indexes.
-/

namespace Otelop
namespace Frontend

open Lib

/-- `SERIES_COLORS` -/
def seriesPalette : List String :=
  ["var(--chart-1)", "var(--chart-2)", "var(--chart-3)", "var(--chart-4)", "var(--chart-5)",
    "var(--chart-6)", "var(--chart-7)", "var(--chart-8)"]

/-- `hash ^= identity.charCodeAt(i); hash = Math.imul(hash, 0x01000193)` -/
def hashUnit (hash : UInt32) (unit : UInt16) : UInt32 := (hash ^^^ unit.toUInt32) * 0x01000193

def seriesColorIndex (identity : JsString) : Nat :=
  if identity.isEmpty then 0
  else (identity.foldl hashUnit 0x811c9dc5).toNat % seriesPalette.length

example : seriesColorIndex (js "a") = 4 := by decide

/-- The order of strings by their code units. -/
def unitsLe (a b : JsString) : Bool := decide (a.map UInt16.toNat ≤ b.map UInt16.toNat)

/-- `[...new Set(identities)].sort()` -/
def uniqueIdentities (identities : List JsString) : List JsString :=
  identities.eraseDups.mergeSort unitsLe

/-- `used` and `indexByIdentity` after the loop: an identity probes from the index it prefers. -/
def colorSlots (identities : List JsString) : Slots JsString :=
  assignSlots seriesPalette.length seriesColorIndex (uniqueIdentities identities)

/-- The indexes; `none` stands for `undefined`. -/
def seriesColorIndexes (identities : List JsString) : List (Option Nat) :=
  identities.map (colorSlots identities).slotOf

/-! ### The order of the identities -/

theorem unitsLe_antisymm
    {a b : JsString} (hab : unitsLe a b = true) (hba : unitsLe b a = true) :
    a = b := by
  have hunits := le_antisymm (of_decide_eq_true hab) (of_decide_eq_true hba)
  exact List.map_injective_iff.mpr (fun _ _ h => UInt16.toNat_inj.mp h) hunits

theorem mem_uniqueIdentities
    {identities : List JsString} {identity : JsString} :
    identity ∈ uniqueIdentities identities ↔ identity ∈ identities := by
  rw [uniqueIdentities, List.mem_mergeSort, List.mem_eraseDups]

theorem nodup_uniqueIdentities (identities : List JsString) :
    (uniqueIdentities identities).Nodup :=
  (List.mergeSort_perm _ _).nodup_iff.mpr (nodup_eraseDups identities)

theorem pairwise_uniqueIdentities (identities : List JsString) :
    (uniqueIdentities identities).Pairwise fun a b => unitsLe a b = true := by
  refine List.pairwise_mergeSort (fun a b c hab hbc => ?_) (fun a b => ?_) _
  · exact decide_eq_true ((of_decide_eq_true hab).trans (of_decide_eq_true hbc))
  · simp only [unitsLe, Bool.or_eq_true, decide_eq_true_eq]
    exact le_total _ _

/-- The same identities, in any order and number, are taken in the same order. -/
theorem uniqueIdentities_eq_of_mem_iff
    {identities identities' : List JsString}
    (h : ∀ identity, identity ∈ identities ↔ identity ∈ identities') :
    uniqueIdentities identities = uniqueIdentities identities' := by
  have hperm : (uniqueIdentities identities).Perm (uniqueIdentities identities') := by
    rw [List.perm_ext_iff_of_nodup (nodup_uniqueIdentities _) (nodup_uniqueIdentities _)]
    intro identity
    rw [mem_uniqueIdentities, mem_uniqueIdentities, h]
  exact hperm.eq_of_pairwise (fun _ _ _ _ hab hba => unitsLe_antisymm hab hba)
    (pairwise_uniqueIdentities _) (pairwise_uniqueIdentities _)

theorem length_uniqueIdentities (identities : List JsString) :
    (uniqueIdentities identities).length = identities.toFinset.card := by
  rw [← List.toFinset_card_of_nodup (nodup_uniqueIdentities identities)]
  congr 1
  ext identity
  rw [List.mem_toFinset, List.mem_toFinset, mem_uniqueIdentities]

/-! ### The indexes -/

theorem seriesColorIndex_lt (identity : JsString) :
    seriesColorIndex identity < seriesPalette.length := by
  rw [seriesColorIndex]
  split_ifs
  · decide
  · exact Nat.mod_lt _ (by decide)

theorem getElem?_seriesColorIndexes
    (identities : List JsString) (i : Nat) :
    (seriesColorIndexes identities)[i]? = identities[i]?.map (colorSlots identities).slotOf :=
  List.getElem?_map ..

theorem assigned_colorSlots (identities : List JsString) :
    Assigned seriesPalette.length (colorSlots identities) (uniqueIdentities identities) :=
  assigned_assignSlots (nodup_uniqueIdentities identities) fun identity _ =>
    seriesColorIndex_lt identity

/-- Every identity has a colour.  Equal identities have the same one, in this list and in every
list of the same identities; and different identities have different ones if there are colours
enough. -/
theorem seriesColorIndexes_stable (identities : List JsString) :
    (∀ (i : Nat) (identity : JsString), identities[i]? = some identity →
      ∃ index < seriesPalette.length, (seriesColorIndexes identities)[i]? = some (some index)) ∧
    (∀ identities', (∀ identity, identity ∈ identities ↔ identity ∈ identities') →
      ∀ i j : Nat, identities[i]? = identities'[j]? →
        (seriesColorIndexes identities)[i]? = (seriesColorIndexes identities')[j]?) ∧
    (identities.toFinset.card ≤ seriesPalette.length →
      ∀ (i j : Nat) (identity identity' : JsString), identities[i]? = some identity →
        identities[j]? = some identity' → identity ≠ identity' →
        (seriesColorIndexes identities)[i]? ≠ (seriesColorIndexes identities)[j]?) := by
  have hassigned := assigned_colorSlots identities
  refine ⟨?_, ?_, ?_⟩
  · intro i identity hi
    have hmem := mem_uniqueIdentities.mpr (List.mem_of_getElem? hi)
    obtain ⟨index, hindex, hlt, -⟩ := hassigned.slot identity hmem
    refine ⟨index, hlt, ?_⟩
    rw [getElem?_seriesColorIndexes, hi, Option.map_some, hindex]
  · intro identities' hsame i j hij
    rw [getElem?_seriesColorIndexes, getElem?_seriesColorIndexes, hij, colorSlots, colorSlots,
      uniqueIdentities_eq_of_mem_iff hsame]
  · intro hcard i j identity identity' hi hj hne heq
    rw [getElem?_seriesColorIndexes, getElem?_seriesColorIndexes, hi, hj, Option.map_some,
      Option.map_some] at heq
    refine hne (hassigned.injOn ?_ identity ?_ identity' ?_ (Option.some.inj heq))
    · rwa [length_uniqueIdentities]
    · exact mem_uniqueIdentities.mpr (List.mem_of_getElem? hi)
    · exact mem_uniqueIdentities.mpr (List.mem_of_getElem? hj)

end Frontend
end Otelop
