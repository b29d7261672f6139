import Mathlib.Tactic
import Otelop.Lib.KeyedList

/-!
# Maps that keep the order of insertion

Setting a key that is there changes its value in its place; a new key comes last.

The entries are a list, and the structure carries that their keys are distinct, so every key
has one place.  This is the map of a browser: its iteration order is the order of the entries,
and an entry that is deleted and set again moves to the end.  `retain` keeps the entries a
predicate chooses, and `take` the first ones.

**Results.**
* `get?_set`, `get?_delete`, `get?_retain`: what a key finds after a change.
* `get?_empty`: in a new map it finds nothing.
* `mem_entries_iff`: the entries are what their keys find.
-/

namespace Otelop
namespace Lib

universe u v

/-- Entries with pairwise distinct keys. -/
structure OrderedMap (κ : Type u) (β : Type v) where
  entries : List (κ × β)
  keys_nodup : (entries.map Prod.fst).Nodup

namespace OrderedMap

variable {κ : Type u} {β : Type v}

def empty : OrderedMap κ β := ⟨[], List.nodup_nil⟩

/-- The keys in the order in which they were set first. -/
def keys (m : OrderedMap κ β) : List κ := m.entries.map Prod.fst

/-- The first `n` entries. -/
def take (n : Nat) (m : OrderedMap κ β) : OrderedMap κ β where
  entries := m.entries.take n
  keys_nodup := ((List.take_sublist n m.entries).map Prod.fst).nodup m.keys_nodup

theorem mem_of_mem_take
    {n : Nat} {m : OrderedMap κ β} {e : κ × β} (h : e ∈ (m.take n).entries) :
    e ∈ m.entries :=
  List.mem_of_mem_take h

/-- The entries whose key satisfies `p`. -/
def retain (p : κ → Bool) (m : OrderedMap κ β) : OrderedMap κ β where
  entries := m.entries.filter fun e => p e.1
  keys_nodup := (List.filter_sublist.map Prod.fst).nodup m.keys_nodup

/-- The entry that is merged takes the new value. -/
theorem keepsKey_replace : KeepsKey (Prod.fst : κ × β → κ) fun y x => some (y.1, x.2) := by
  rintro x y z h
  cases h
  rfl

variable [DecidableEq κ]

/-- The value of a key. -/
def get? (m : OrderedMap κ β) (k : κ) : Option β :=
  (m.entries.find? fun e => e.1 = k).map Prod.snd

/-- The map without a key. -/
def delete (k : κ) (m : OrderedMap κ β) : OrderedMap κ β := m.retain fun k' => k' ≠ k

/-- A key that is there keeps its place. -/
def set (k : κ) (v : β) (m : OrderedMap κ β) : OrderedMap κ β where
  entries := upsert Prod.fst (fun y x => some (y.1, x.2)) m.entries (k, v)
  keys_nodup := nodup_upsert keepsKey_replace m.keys_nodup (k, v)

/-- An entry is what its key finds. -/
theorem mem_entries_iff
    {m : OrderedMap κ β} {k : κ} {v : β} :
    (k, v) ∈ m.entries ↔ m.get? k = some v := by
  rw [get?, Option.map_eq_some_iff]
  constructor
  · intro h
    exact ⟨(k, v), (find?_key_iff m.keys_nodup).mpr ⟨h, rfl⟩, rfl⟩
  · rintro ⟨⟨k', v'⟩, hfind, rfl⟩
    obtain ⟨hmem, rfl⟩ := (find?_key_iff m.keys_nodup).mp hfind
    exact hmem

@[simp] theorem get?_empty (k : κ) : (empty : OrderedMap κ β).get? k = none := rfl

/-- What a key finds after an entry was set. -/
theorem get?_set
    (m : OrderedMap κ β) (k k' : κ) (v : β) :
    (m.set k v).get? k' = if k' = k then some v else m.get? k' := by
  rw [get?, set, find?_upsert keepsKey_replace]
  split
  · cases m.entries.find? fun y => decide (y.1 = k') <;> rfl
  · rfl

/-- What a key finds among the entries that were retained. -/
theorem get?_retain
    (m : OrderedMap κ β) (p : κ → Bool) (k : κ) :
    (m.retain p).get? k = if p k then m.get? k else none := by
  refine Option.ext fun v => ?_
  have hmem : (m.retain p).get? k = some v ↔ p k = true ∧ m.get? k = some v := by
    rw [← mem_entries_iff, ← mem_entries_iff, retain, List.mem_filter, and_comm]
  cases hp : p k with
  | true => simpa [hp] using hmem
  | false => simpa [hp] using hmem

/-- What a key finds after an entry was deleted. -/
theorem get?_delete
    (m : OrderedMap κ β) (k k' : κ) :
    (m.delete k).get? k' = if k' = k then none else m.get? k' := by
  rw [delete, get?_retain]
  by_cases hk : k' = k <;> simp [hk]

end OrderedMap
end Lib
end Otelop
