import Mathlib.Tactic
import Mathlib.Data.List.Nodup

/-!
# Tables with a primary key

A table is a list of rows that carries the proof that its keys are pairwise distinct, so that a
table breaking its primary key cannot be built.  The operations are the statements a relational
store offers on such a table; each has one membership lemma, and later proofs use only these.

A row is found by its key (`find?`), and two rows with one key are the same row
(`eq_of_key_eq`).  `insert?` is an `INSERT`, which fails at a key that is there; `insertIgnore`
and `upsert` are `INSERT ... ON CONFLICT`, with `DO NOTHING` and with `DO UPDATE`; `merge?` is
an `INSERT` of many rows that updates those whose keys are there.  `delete` and `update` are the
statements with a `WHERE`.

The order of the rows is that of insertion.  Nothing here depends on it, since a query without
an `ORDER BY` promises none.
-/

namespace Otelop
namespace Lib

/-- A table whose rows have pairwise distinct keys. -/
structure KeyedTable (κ ρ : Type) (key : ρ → κ) where
  rows : List ρ
  keys_nodup : (rows.map key).Nodup

namespace KeyedTable

variable {κ ρ : Type} {key : ρ → κ}

/-- The table without rows. -/
def empty : KeyedTable κ ρ key := ⟨[], List.nodup_nil⟩

@[simp] theorem rows_empty : (empty : KeyedTable κ ρ key).rows = [] := rfl

/-- Two rows of one table with the same key are the same row. -/
theorem eq_of_key_eq
    (t : KeyedTable κ ρ key)
    {x y : ρ}
    (hx : x ∈ t.rows)
    (hy : y ∈ t.rows)
    (hxy : key x = key y) :
    x = y :=
  List.inj_on_of_nodup_map t.keys_nodup hx hy hxy

/-- `DELETE FROM t WHERE p` -/
def delete (t : KeyedTable κ ρ key) (p : ρ → Bool) : KeyedTable κ ρ key where
  rows := t.rows.filter fun r => !p r
  keys_nodup := (List.filter_sublist.map key).nodup t.keys_nodup

/-- What a deletion leaves. -/
@[simp] theorem mem_delete
    {t : KeyedTable κ ρ key} {p : ρ → Bool} {r : ρ} :
    r ∈ (t.delete p).rows ↔ r ∈ t.rows ∧ p r = false := by
  simp [delete]

/-- `UPDATE t SET ...`, for a change that leaves the key alone. -/
def update (t : KeyedTable κ ρ key) (f : ρ → ρ) (hf : ∀ r, key (f r) = key r) :
    KeyedTable κ ρ key where
  rows := t.rows.map f
  keys_nodup := by
    have : key ∘ f = key := funext hf
    rw [List.map_map, this]
    exact t.keys_nodup

/-- What an update leaves. -/
@[simp] theorem mem_update
    {t : KeyedTable κ ρ key} {f : ρ → ρ} {hf : ∀ r, key (f r) = key r} {r : ρ} :
    r ∈ (t.update f hf).rows ↔ ∃ x ∈ t.rows, f x = r := by
  simp [update]

variable [DecidableEq κ]

/-- The row with key `k`. -/
def find? (t : KeyedTable κ ρ key) (k : κ) : Option ρ :=
  t.rows.find? fun r => key r = k

/-- A lookup finds the row with the key. -/
theorem find?_eq_some_iff
    (t : KeyedTable κ ρ key) {k : κ} {r : ρ} :
    t.find? k = some r ↔ r ∈ t.rows ∧ key r = k := by
  constructor
  · intro h
    exact ⟨List.mem_of_find?_eq_some h, by simpa using List.find?_some h⟩
  · rintro ⟨hr, rfl⟩
    cases hf : t.find? (key r) with
    | none =>
        have := List.find?_eq_none.mp hf r hr
        simp at this
    | some x =>
        have hx := List.mem_of_find?_eq_some hf
        have hk : key x = key r := by simpa using List.find?_some hf
        rw [t.eq_of_key_eq hx hr hk]

/-- A lookup finds nothing when no row has the key. -/
theorem find?_eq_none_iff
    (t : KeyedTable κ ρ key) {k : κ} :
    t.find? k = none ↔ ∀ r ∈ t.rows, key r ≠ k := by
  simp [find?, List.find?_eq_none]

/-- `INSERT INTO t ...`, refused when a key would occur twice. -/
def insert? (t : KeyedTable κ ρ key) (rs : List ρ) : Option (KeyedTable κ ρ key) :=
  if h : ((t.rows ++ rs).map key).Nodup then some ⟨t.rows ++ rs, h⟩ else none

/-- Inserted rows come last. -/
theorem rows_insert?
    {t t' : KeyedTable κ ρ key} {rs : List ρ}
    (h : t.insert? rs = some t') :
    t'.rows = t.rows ++ rs := by
  unfold insert? at h
  split at h
  · cases h
    rfl
  · cases h

/-- Distinct new keys can be inserted. -/
theorem isSome_insert?
    {t : KeyedTable κ ρ key} {rs : List ρ} (hrs : (rs.map key).Nodup)
    (hnew : ∀ r ∈ rs, ∀ x ∈ t.rows, key x ≠ key r) :
    (t.insert? rs).isSome = true := by
  have hnodup : ((t.rows ++ rs).map key).Nodup := by
    rw [List.map_append]
    refine List.nodup_append'.mpr ⟨t.keys_nodup, hrs, fun k hk hk' => ?_⟩
    obtain ⟨x, hx, rfl⟩ := List.mem_map.mp hk
    obtain ⟨r, hr, heq⟩ := List.mem_map.mp hk'
    exact hnew r hr x hx heq.symm
  unfold insert?
  rw [dif_pos hnodup]
  rfl

/-- `INSERT INTO t ... ON CONFLICT DO NOTHING` -/
def insertIgnore (t : KeyedTable κ ρ key) (r : ρ) : KeyedTable κ ρ key :=
  if h : key r ∈ t.rows.map key then t
  else
    ⟨t.rows ++ [r], by
      rw [List.map_append]
      refine List.nodup_append'.mpr ⟨t.keys_nodup, by simp, ?_⟩
      intro k hk hk'
      simp only [List.map_cons, List.map_nil, List.mem_singleton] at hk'
      exact h (hk' ▸ hk)⟩

/-- A row is inserted unless its key is there. -/
@[simp] theorem mem_insertIgnore
    {t : KeyedTable κ ρ key} {r x : ρ} :
    x ∈ (t.insertIgnore r).rows ↔
      x ∈ t.rows ∨ x = r ∧ ∀ y ∈ t.rows, key y ≠ key r := by
  unfold insertIgnore
  split
  · rename_i h
    obtain ⟨y, hy, hk⟩ := List.mem_map.mp h
    constructor
    · exact Or.inl
    · rintro (hx | ⟨-, hall⟩)
      · exact hx
      · exact absurd hk (hall y hy)
  · rename_i h
    have hall : ∀ y ∈ t.rows, key y ≠ key r := by
      intro y hy hk
      exact h (List.mem_map.mpr ⟨y, hy, hk⟩)
    simp only [List.mem_append, List.mem_singleton]
    constructor
    · exact fun hx => hx.imp_right fun hr => ⟨hr, hall⟩
    · exact fun hx => hx.imp_right And.left

/-- After `ON CONFLICT DO NOTHING` the key is present. -/
theorem exists_key_insertIgnore
    (t : KeyedTable κ ρ key) (r : ρ) :
    ∃ x ∈ (t.insertIgnore r).rows, key x = key r := by
  by_cases h : ∃ y ∈ t.rows, key y = key r
  · obtain ⟨y, hy, hk⟩ := h
    exact ⟨y, mem_insertIgnore.mpr (Or.inl hy), hk⟩
  · have hall : ∀ y ∈ t.rows, key y ≠ key r := by
      intro y hy hk
      exact h ⟨y, hy, hk⟩
    exact ⟨r, mem_insertIgnore.mpr (Or.inr ⟨rfl, hall⟩), rfl⟩

/-- `INSERT INTO t ... ON CONFLICT DO UPDATE SET` every column. -/
def upsert (t : KeyedTable κ ρ key) (r : ρ) : KeyedTable κ ρ key where
  rows := (t.delete fun x => key x = key r).rows ++ [r]
  keys_nodup := by
    rw [List.map_append]
    refine List.nodup_append'.mpr ⟨(t.delete _).keys_nodup, by simp, ?_⟩
    intro k hk hk'
    simp only [List.map_cons, List.map_nil, List.mem_singleton] at hk'
    obtain ⟨x, hx, rfl⟩ := List.mem_map.mp hk
    simp [hk'] at hx

/-- A row takes the place of the one with its key. -/
@[simp] theorem mem_upsert
    {t : KeyedTable κ ρ key} {r x : ρ} :
    x ∈ (t.upsert r).rows ↔ x = r ∨ x ∈ t.rows ∧ key x ≠ key r := by
  simp [upsert, or_comm]

/-- What is found after an upsert. -/
theorem find?_upsert
    (t : KeyedTable κ ρ key) (r : ρ) (k : κ) :
    (t.upsert r).find? k = if key r = k then some r else t.find? k := by
  by_cases hk : key r = k
  · rw [if_pos hk]
    exact ((t.upsert r).find?_eq_some_iff).mpr ⟨mem_upsert.mpr (Or.inl rfl), hk⟩
  · rw [if_neg hk]
    cases hfind : t.find? k with
    | none =>
        refine ((t.upsert r).find?_eq_none_iff).mpr fun x hx => ?_
        rcases mem_upsert.mp hx with rfl | ⟨hx, -⟩
        · exact hk
        · exact (t.find?_eq_none_iff).mp hfind x hx
    | some y =>
        obtain ⟨hy, hyk⟩ := (t.find?_eq_some_iff).mp hfind
        refine ((t.upsert r).find?_eq_some_iff).mpr ⟨mem_upsert.mpr (Or.inr ⟨hy, ?_⟩), hyk⟩
        exact fun h => hk (h ▸ hyk)

/-- A loop of upserts of rows with distinct keys. -/
theorem mem_foldl_upsert
    {x : ρ} :
    ∀ {rs : List ρ} {t : KeyedTable κ ρ key}, (rs.map key).Nodup →
      (x ∈ (rs.foldl upsert t).rows ↔
        x ∈ rs ∨ x ∈ t.rows ∧ key x ∉ rs.map key)
  | [], t, _ => by simp
  | r :: rs, t, hn => by
      rw [List.map_cons, List.nodup_cons] at hn
      rw [List.foldl_cons, mem_foldl_upsert hn.2, mem_upsert, List.map_cons,
        List.mem_cons, List.mem_cons, not_or]
      constructor
      · rintro (hx | ⟨rfl | ⟨hx, hne⟩, hns⟩)
        · exact Or.inl (Or.inr hx)
        · exact Or.inl (Or.inl rfl)
        · exact Or.inr ⟨hx, hne, hns⟩
      · rintro ((rfl | hx) | ⟨hx, hne, hns⟩)
        · exact Or.inr ⟨Or.inl rfl, hn.1⟩
        · exact Or.inl hx
        · exact Or.inr ⟨Or.inr ⟨hx, hne⟩, hns⟩

/-- The change `MERGE` makes to a row: the first incoming row with its key, if
there is one, updates it. -/
def matchRow (key : ρ → κ) (onMatch : ρ → ρ → ρ) (incoming : List ρ) (x : ρ) : ρ :=
  ((incoming.find? fun i => key i = key x).map (onMatch x)).getD x

theorem key_matchRow
    {onMatch : ρ → ρ → ρ} (h : ∀ x i, key (onMatch x i) = key x)
    (incoming : List ρ) (x : ρ) :
    key (matchRow key onMatch incoming x) = key x := by
  unfold matchRow
  cases incoming.find? fun i => key i = key x with
  | none => rfl
  | some i => exact h x i

/-- `MERGE INTO t USING incoming WHEN MATCHED THEN UPDATE WHEN NOT MATCHED THEN
INSERT`, refused when it would insert a key twice. -/
def merge? (t : KeyedTable κ ρ key) (onMatch : ρ → ρ → ρ)
    (h : ∀ x i, key (onMatch x i) = key x) (incoming : List ρ) :
    Option (KeyedTable κ ρ key) :=
  (t.update (matchRow key onMatch incoming) (key_matchRow h incoming)).insert?
    (incoming.filter fun i => (t.find? (key i)).isNone)

section Merge

variable {t t' : KeyedTable κ ρ key} {onMatch : ρ → ρ → ρ}
  {h : ∀ x i, key (onMatch x i) = key x} {incoming : List ρ}

/-- A row of a merged table is a row of the table, perhaps updated, or an
incoming row. -/
theorem mem_of_merge?
    (hm : t.merge? onMatch h incoming = some t') {x : ρ} (hx : x ∈ t'.rows) :
    (∃ y ∈ t.rows, x = y ∨ ∃ i ∈ incoming, x = onMatch y i) ∨ x ∈ incoming := by
  rw [rows_insert? hm, List.mem_append, mem_update] at hx
  rcases hx with ⟨y, hy, rfl⟩ | hx
  · refine Or.inl ⟨y, hy, ?_⟩
    unfold matchRow
    cases hf : incoming.find? fun i => key i = key y with
    | none => exact Or.inl rfl
    | some i => exact Or.inr ⟨i, List.mem_of_find?_eq_some hf, rfl⟩
  · exact Or.inr (List.mem_filter.mp hx).1

/-- The keys of a merged table. -/
theorem exists_key_merge?
    (hm : t.merge? onMatch h incoming = some t') {k : κ} :
    (∃ x ∈ t'.rows, key x = k) ↔
      (∃ x ∈ t.rows, key x = k) ∨ ∃ i ∈ incoming, key i = k := by
  rw [rows_insert? hm]
  simp only [List.mem_append, mem_update, List.mem_filter]
  constructor
  · rintro ⟨x, ⟨y, hy, rfl⟩ | ⟨hx, -⟩, rfl⟩
    · exact Or.inl ⟨y, hy, (key_matchRow h incoming y).symm⟩
    · exact Or.inr ⟨x, hx, rfl⟩
  · rintro (⟨x, hx, rfl⟩ | ⟨i, hi, rfl⟩)
    · exact ⟨_, Or.inl ⟨x, hx, rfl⟩, key_matchRow h incoming x⟩
    · cases hf : t.find? (key i) with
      | none => exact ⟨i, Or.inr ⟨hi, by simp [hf]⟩, rfl⟩
      | some y =>
          obtain ⟨hy, hk⟩ := t.find?_eq_some_iff.mp hf
          exact ⟨_, Or.inl ⟨y, hy, rfl⟩, (key_matchRow h incoming y).trans hk⟩

/-- A merge whose incoming keys are distinct is not refused. -/
theorem isSome_merge? (hkeys : (incoming.map key).Nodup) :
    (t.merge? onMatch h incoming).isSome = true := by
  refine isSome_insert? ((List.filter_sublist.map key).nodup hkeys) ?_
  intro i hi x hx
  obtain ⟨y, hy, rfl⟩ := mem_update.mp hx
  rw [List.mem_filter, Option.isNone_iff_eq_none, find?_eq_none_iff] at hi
  rw [key_matchRow h incoming y]
  exact hi.2 y hy

end Merge

end KeyedTable
end Lib
end Otelop
