import Mathlib.Tactic

/-!
# Lists of rows with a key

A buffer holds at most one row of each key.  An incoming row is merged into the
row of its key, or appended when there is none; `merge` gives nothing when the
incoming row has nothing to add.

A program keeps such a buffer as an array with an index map.  `Indexes` says that
the map knows where each key stands, and writing at an index is then merging into
the row of the key.

**Results.**
* `keys_upsert`, `keys_foldl_upsert`: which keys a buffer has.
* `find?_upsert`: which row a key has.
* `upsert_perm`: the order of the rows does not matter.
* `Indexes.set_eq_mergeRow`: a write at an index is a merge by key.
-/

namespace Otelop
namespace Lib

universe u v

section KeyedList

variable {α : Type u} {κ : Type v} [DecidableEq κ]

/-- What merging `x` into the rows does to the row `y`. -/
def mergeRow (key : α → κ) (merge : α → α → Option α) (x y : α) : α :=
  if key y = key x then (merge y x).getD y else y

/-- Merge a row into the row of its key, or append it. -/
def upsert (key : α → κ) (merge : α → α → Option α) (l : List α) (x : α) : List α :=
  if key x ∈ l.map key then l.map (mergeRow key merge x) else l ++ [x]

/-- A key that is there, or is appended. -/
def insertKey (keys : List κ) (k : κ) : List κ := if k ∈ keys then keys else keys ++ [k]

/-- Merging does not change the key. -/
def KeepsKey (key : α → κ) (merge : α → α → Option α) : Prop :=
  ∀ x y z, merge y x = some z → key z = key y

/-- Where the keys are distinct, one element has the key of an element. -/
theorem filter_key_eq_singleton
    {key : α → κ} {l : List α} (hnodup : (l.map key).Nodup) {x : α} (hx : x ∈ l) :
    l.filter (fun y => key y = key x) = [x] := by
  induction l with
  | nil =>
      cases hx
  | cons a l ih =>
      obtain ⟨hnot, hl⟩ := List.nodup_cons.mp hnodup
      rcases List.mem_cons.mp hx with rfl | hmem
      · have hrest : l.filter (fun y => key y = key x) = [] := by
          refine List.filter_eq_nil_iff.mpr fun y hy hk => ?_
          exact hnot (List.mem_map.mpr ⟨y, hy, of_decide_eq_true hk⟩)
        rw [List.filter_cons_of_pos (by simp), hrest]
      · have hne : key a ≠ key x := fun hk => hnot (hk ▸ List.mem_map_of_mem hmem)
        rw [List.filter_cons_of_neg (by simpa using hne), ih hl hmem]

variable {key : α → κ} {merge : α → α → Option α}

/-- A merged row keeps its key. -/
theorem key_mergeRow
    (hmerge : KeepsKey key merge) (x y : α) :
    key (mergeRow key merge x y) = key y := by
  rw [mergeRow]
  split
  · cases hz : merge y x with
    | none => rfl
    | some z => exact hmerge x y z hz
  · rfl

/-- A merge keeps the keys. -/
theorem keys_mergeRow
    (hmerge : KeepsKey key merge) (x : α) (l : List α) :
    (l.map (mergeRow key merge x)).map key = l.map key := by
  rw [List.map_map]
  exact List.map_congr_left fun y _ => key_mergeRow hmerge x y

/-- An upsert brings in its key if it is new. -/
theorem keys_upsert
    (hmerge : KeepsKey key merge) (l : List α) (x : α) :
    (upsert key merge l x).map key = insertKey (l.map key) (key x) := by
  rw [upsert, insertKey]
  split
  · exact keys_mergeRow hmerge x l
  · rw [List.map_append, List.map_cons, List.map_nil]

/-- The keys after a batch. -/
theorem keys_foldl_upsert
    (hmerge : KeepsKey key merge) (l xs : List α) :
    (xs.foldl (upsert key merge) l).map key = (xs.map key).foldl insertKey (l.map key) := by
  induction xs generalizing l with
  | nil =>
      rfl
  | cons x xs ih =>
      rw [List.foldl_cons, ih, keys_upsert hmerge, List.map_cons, List.foldl_cons]

/-- A key comes in once. -/
theorem nodup_insertKey
    {keys : List κ} (h : keys.Nodup) (k : κ) :
    (insertKey keys k).Nodup := by
  rw [insertKey]
  split
  · exact h
  · rename_i hk
    exact List.nodup_append'.mpr ⟨h, List.nodup_singleton k, by simpa using hk⟩

/-- An upsert keeps the keys distinct. -/
theorem nodup_upsert
    (hmerge : KeepsKey key merge) {l : List α} (h : (l.map key).Nodup) (x : α) :
    ((upsert key merge l x).map key).Nodup := by
  rw [keys_upsert hmerge]
  exact nodup_insertKey h (key x)

/-- Any number of upserts keeps the keys distinct. -/
theorem nodup_foldl_upsert
    (hmerge : KeepsKey key merge) {l : List α} (h : (l.map key).Nodup) (xs : List α) :
    ((xs.foldl (upsert key merge) l).map key).Nodup := by
  induction xs generalizing l with
  | nil => exact h
  | cons x xs ih => exact ih (nodup_upsert hmerge h x)

theorem mem_insertKey {keys : List κ} {k k' : κ} :
    k' ∈ insertKey keys k ↔ k' ∈ keys ∨ k' = k := by
  rw [insertKey]
  split
  · rename_i hk
    constructor
    · exact Or.inl
    · rintro (h | rfl)
      · exact h
      · exact hk
  · simp

theorem length_le_foldl_insertKey (ks keys : List κ) :
    keys.length ≤ (ks.foldl insertKey keys).length := by
  induction ks generalizing keys with
  | nil =>
      exact le_rfl
  | cons k ks ih =>
      refine le_trans ?_ (ih (insertKey keys k))
      rw [insertKey]
      split
      · exact le_rfl
      · simp

/-- The order of the rows does not matter. -/
theorem upsert_perm
    {l l' : List α} (h : l.Perm l') (x : α) :
    (upsert key merge l x).Perm (upsert key merge l' x) := by
  have hmem : key x ∈ l.map key ↔ key x ∈ l'.map key := (h.map key).mem_iff
  rw [upsert, upsert]
  by_cases hx : key x ∈ l.map key
  · rw [if_pos hx, if_pos (hmem.mp hx)]
    exact h.map _
  · rw [if_neg hx, if_neg (mt hmem.mpr hx)]
    exact h.append_right _

/-- The order of the list does not matter for what is upserted. -/
theorem foldl_upsert_perm
    {l l' : List α} (h : l.Perm l') (xs : List α) :
    (xs.foldl (upsert key merge) l).Perm (xs.foldl (upsert key merge) l') := by
  induction xs generalizing l l' with
  | nil => exact h
  | cons x xs ih => exact ih (upsert_perm h x)

/-- The row found for a key, where keys are distinct. -/
theorem find?_key_iff
    {l : List α} (h : (l.map key).Nodup) {k : κ} {y : α} :
    l.find? (fun y => key y = k) = some y ↔ y ∈ l ∧ key y = k := by
  constructor
  · intro hfind
    exact ⟨List.mem_of_find?_eq_some hfind, by simpa using List.find?_some hfind⟩
  · rintro ⟨hy, rfl⟩
    cases hfind : l.find? fun z => key z = key y with
    | none =>
        have := List.find?_eq_none.mp hfind y hy
        simp at this
    | some z =>
        have hz : key z = key y := by simpa using List.find?_some hfind
        rw [List.inj_on_of_nodup_map h (List.mem_of_find?_eq_some hfind) hy hz]

/-- The row of a key after an upsert. -/
theorem find?_upsert
    (hmerge : KeepsKey key merge) (l : List α) (x : α) (k : κ) :
    (upsert key merge l x).find? (fun y => key y = k) =
      if k = key x then
        some ((l.find? fun y => key y = k).elim x fun y => (merge y x).getD y)
      else l.find? fun y => key y = k := by
  rw [upsert]
  split
  · rename_i hx
    have hcomp : (fun y => decide (key y = k)) ∘ mergeRow key merge x =
        fun y => decide (key y = k) := by
      funext y
      rw [Function.comp_apply, key_mergeRow hmerge]
    rw [List.find?_map, hcomp]
    cases hfind : l.find? fun y => decide (key y = k) with
    | none =>
        split
        · rename_i hk
          obtain ⟨y, hy, hyx⟩ := List.mem_map.mp hx
          exact absurd (hyx.trans hk.symm) (by simpa using List.find?_eq_none.mp hfind y hy)
        · rfl
    | some y =>
        have hy : key y = k := by simpa using List.find?_some hfind
        split
        · rename_i hk
          rw [Option.map_some, mergeRow, if_pos (hy.trans hk), Option.elim_some]
        · rename_i hk
          rw [Option.map_some, mergeRow, if_neg (hy ▸ hk)]
  · rename_i hx
    rw [List.find?_append]
    split
    · rename_i hk
      have hnone : l.find? (fun y => decide (key y = k)) = none := by
        refine List.find?_eq_none.mpr fun y hy hyk => hx ?_
        rw [← hk, ← of_decide_eq_true hyk]
        exact List.mem_map_of_mem hy
      rw [hnone, hk, Option.none_or, Option.elim_none]
      simp
    · rename_i hk
      have hsingle : [x].find? (fun y => decide (key y = k)) = none := by
        simpa using Ne.symm hk
      rw [hsingle, Option.or_none]

end KeyedList

/-- Changing one row in a way that a field does not show. -/
theorem map_modify
    {α : Type u} {β : Type v} {f : α → α} {g : α → β} (h : ∀ x, g (f x) = g x)
    (l : List α) (i : Nat) :
    (l.modify i f).map g = l.map g := by
  refine List.ext_getElem? fun j => ?_
  rw [List.getElem?_map, List.getElem?_map, List.getElem?_modify]
  cases l[j]? with
  | none => rfl
  | some x =>
      by_cases hij : i = j
      · simp [hij, h]
      · simp [hij]

/-! ### Index maps -/

section Indexes

variable {α : Type u} {κ : Type v} {key : α → κ}

/-- The index map knows where each key stands. -/
def Indexes (key : α → κ) (rows : List α) (index : κ → Option Nat) : Prop :=
  ∀ k i, index k = some i ↔ (rows.map key)[i]? = some k

/-- Only distinct keys have an index. -/
theorem Indexes.nodup
    {rows : List α} {index : κ → Option Nat} (h : Indexes key rows index) :
    (rows.map key).Nodup := by
  rw [List.nodup_iff_getElem?_ne_getElem?]
  intro i j hij hj heq
  have hget : (rows.map key)[j]? = some (rows.map key)[j] := List.getElem?_eq_getElem hj
  have hi := (h _ i).mpr (heq.trans hget)
  rw [(h _ j).mpr hget] at hi
  exact absurd (Option.some.inj hi) (ne_of_gt hij)

variable {index : κ → Option Nat} {rows : List α}

/-- The index has no place for a key that does not occur. -/
theorem Indexes.eq_none_iff
    (h : Indexes key rows index) {k : κ} :
    index k = none ↔ k ∉ rows.map key := by
  constructor
  · intro hnone hk
    obtain ⟨i, hi⟩ := List.mem_iff_getElem?.mp hk
    rw [(h k i).mpr hi] at hnone
    cases hnone
  · intro hk
    cases hindex : index k with
    | none => rfl
    | some i => exact absurd (List.mem_of_getElem? ((h k i).mp hindex)) hk

variable [DecidableEq κ]

/-- Entries of a `Map` made from rows, the last one of a key counting. -/
def indexRows (key : α → κ) (rows : List α) : κ → Option Nat :=
  rows.zipIdx.foldl (fun index row => Function.update index (key row.1) (some row.2)) fun _ => none

/-- The index of a list with one more row. -/
theorem Indexes.push
    (h : Indexes key rows index) {x : α} (hx : index (key x) = none) :
    Indexes key (rows ++ [x]) (Function.update index (key x) (some rows.length)) := by
  intro k i
  rw [List.map_append, List.map_cons, List.map_nil]
  by_cases hk : k = key x
  · subst hk
    rw [Function.update_self]
    constructor
    · intro hi
      cases hi
      rw [← List.length_map (f := key), List.getElem?_concat_length]
    · intro hi
      have hnot : ¬ i < (rows.map key).length := by
        intro hlt
        rw [List.getElem?_append_left hlt] at hi
        exact (h.eq_none_iff.mp hx) (List.mem_of_getElem? hi)
      have hle : i < (rows.map key ++ [key x]).length := (List.getElem?_eq_some_iff.mp hi).1
      rw [List.length_append, List.length_singleton] at hle
      rw [List.length_map] at hnot hle
      exact congrArg some (by omega)
  · rw [Function.update_of_ne hk, h]
    constructor
    · intro hi
      rw [List.getElem?_append_left (List.getElem?_eq_some_iff.mp hi).1]
      exact hi
    · intro hi
      by_cases hlt : i < (rows.map key).length
      · rwa [List.getElem?_append_left hlt] at hi
      · have hle : i < (rows.map key ++ [key x]).length := (List.getElem?_eq_some_iff.mp hi).1
        rw [List.length_append, List.length_singleton] at hle
        have heq : i = (rows.map key).length := by omega
        rw [heq, List.getElem?_concat_length] at hi
        exact absurd (Option.some.inj hi).symm hk

theorem indexRows_append_singleton (rows : List α) (x : α) :
    indexRows key (rows ++ [x]) =
      Function.update (indexRows key rows) (key x) (some rows.length) := by
  rw [indexRows, List.zipIdx_append, List.foldl_append]
  simp [indexRows]

/-- The index of a list with distinct keys. -/
theorem indexRows_indexes
    {rows : List α} (h : (rows.map key).Nodup) :
    Indexes key rows (indexRows key rows) := by
  induction rows using List.reverseRecOn with
  | nil =>
      intro k i
      simp [indexRows]
  | append_singleton rows x ih =>
      rw [List.map_append, List.nodup_append'] at h
      have hrows := ih h.1
      rw [indexRows_append_singleton]
      refine hrows.push (hrows.eq_none_iff.mpr fun hx => ?_)
      exact h.2.2 hx (by simp)

omit [DecidableEq κ] in
/-- Writing a row of the same key. -/
theorem keys_set {i : Nat} {z : α} (hz : (rows.map key)[i]? = some (key z)) :
    (rows.set i z).map key = rows.map key := by
  rw [List.map_set]
  refine List.ext_getElem? fun j => ?_
  rw [List.getElem?_set]
  split
  · rename_i hij
    subst hij
    rw [hz, if_pos (List.getElem?_eq_some_iff.mp hz).1]
  · rfl

omit [DecidableEq κ] in
/-- A row may be replaced by one with its key. -/
theorem Indexes.set
    (h : Indexes key rows index) {i : Nat} {z : α} (hz : (rows.map key)[i]? = some (key z)) :
    Indexes key (rows.set i z) index := by
  intro k j
  rw [keys_set hz]
  exact h k j

/-- Writing the merged row at the index of its key merges by key. -/
theorem Indexes.set_eq_mergeRow
    (h : Indexes key rows index) {merge : α → α → Option α} {x y : α} {i : Nat}
    (hi : index (key x) = some i) (hy : rows[i]? = some y) :
    rows.set i ((merge y x).getD y) = rows.map (mergeRow key merge x) := by
  have hget := (h (key x) i).mp hi
  have hyx : key y = key x := by
    rw [List.getElem?_map, hy] at hget
    exact Option.some.inj hget
  refine List.ext_getElem? fun j => ?_
  rw [List.getElem?_set, List.getElem?_map]
  by_cases hij : i = j
  · subst hij
    rw [if_pos rfl, if_pos (List.getElem?_eq_some_iff.mp hy).1, hy, Option.map_some, mergeRow,
      if_pos hyx]
  · rw [if_neg hij]
    cases hj : rows[j]? with
    | none =>
        rfl
    | some z =>
        rw [Option.map_some, mergeRow, if_neg]
        intro hz
        have hzj : (rows.map key)[j]? = some (key x) := by
          rw [List.getElem?_map, hj, Option.map_some, hz]
        have := (h (key x) j).mpr hzj
        rw [hi] at this
        exact hij (Option.some.inj this)

/-- Changing the row at the index of a key changes the row of the key. -/
theorem Indexes.modify_eq_map
    (h : Indexes key rows index) {k : κ} {i : Nat} (hi : index k = some i) (f : α → α) :
    rows.modify i f = rows.map fun y => if key y = k then f y else y := by
  refine List.ext_getElem? fun j => ?_
  rw [List.getElem?_modify, List.getElem?_map]
  cases hj : rows[j]? with
  | none =>
      rfl
  | some y =>
      have hkey : (rows.map key)[j]? = some (key y) := by
        rw [List.getElem?_map, hj, Option.map_some]
      by_cases hij : i = j
      · subst hij
        have hy : key y = k := by
          rw [(h k i).mp hi] at hkey
          exact (Option.some.inj hkey).symm
        simp [hy]
      · have hy : key y ≠ k := by
          rintro rfl
          have hj := (h (key y) j).mpr hkey
          rw [hi] at hj
          exact hij (Option.some.inj hj)
        simp [hij, hy]

end Indexes

end Lib
end Otelop
