import Otelop.Lib.KeyedTable
import Otelop.Lib.KeyedList

/-!
# Rows registered once

A list of rows next to the set of the keys it has seen.  A row is added when its key has not
been seen; the two are kept by separate updates, and the structure carries that they agree.

This is how a program collects dimension rows while it goes through a payload: a resource or a
series comes by many times, and is listed when it comes by first.  A row that comes later with a
key that was seen is not looked at, so the first row of a key is the one that counts, which is
what a table does that ignores conflicts.

**Results.**
* `table_register`: registering is inserting and ignoring a conflict.
* `mem_registerAll_of_mem`, `exists_key_registerAll`: what a run of registrations keeps.
* `registerAll_unique`: after a run each registered key has one row.
-/

namespace Otelop
namespace Lib

/-- A table and the keys it has seen. -/
structure Registry (κ ρ : Type) (key : ρ → κ) where
  table : KeyedTable κ ρ key
  seen : List κ
  agree : ∀ k, k ∈ seen ↔ k ∈ table.rows.map key

/-- What is left alone by a filter is in the list. -/
theorem mem_of_filter_eq_singleton
    {α : Type} {p : α → Prop} [DecidablePred p] {l : List α} {x : α}
    (h : l.filter (fun y => p y) = [x]) :
    x ∈ l ∧ p x := by
  have hmem : x ∈ l.filter fun y => p y := by
    rw [h]
    exact List.mem_cons_self
  exact ⟨(List.mem_filter.mp hmem).1, of_decide_eq_true (List.mem_filter.mp hmem).2⟩

namespace Registry

variable {κ ρ : Type} {key : ρ → κ}

/-- Nothing has been seen. -/
def empty : Registry κ ρ key := ⟨KeyedTable.empty, [], fun _ => by simp⟩

variable [DecidableEq κ]

/-- Adds a row unless its key has been seen. -/
def register (t : Registry κ ρ key) (r : ρ) : Registry κ ρ key :=
  if h : key r ∈ t.seen then t
  else
    { table :=
        ⟨t.table.rows ++ [r], by
          rw [List.map_append]
          refine List.nodup_append'.mpr ⟨t.table.keys_nodup, by simp, ?_⟩
          intro k hk hk'
          simp only [List.map_cons, List.map_nil, List.mem_singleton] at hk'
          exact h ((t.agree _).mpr (hk' ▸ hk))⟩
      seen := key r :: t.seen
      agree := fun k => by
        rw [List.mem_cons, t.agree, List.map_append, List.mem_append, List.map_cons,
          List.map_nil, List.mem_singleton, or_comm] }

theorem table_register (t : Registry κ ρ key) (r : ρ) :
    (t.register r).table = t.table.insertIgnore r := by
  rw [register, KeyedTable.insertIgnore]
  by_cases h : key r ∈ t.seen
  · rw [dif_pos h, dif_pos ((t.agree _).mp h)]
  · rw [dif_neg h, dif_neg (mt (t.agree _).mpr h)]

/-- A loop of registrations. -/
def registerAll (t : Registry κ ρ key) (rs : List ρ) : Registry κ ρ key := rs.foldl register t

@[simp] theorem registerAll_nil (t : Registry κ ρ key) : t.registerAll [] = t := rfl

@[simp] theorem registerAll_cons (t : Registry κ ρ key) (r : ρ) (rs : List ρ) :
    t.registerAll (r :: rs) = (t.register r).registerAll rs :=
  rfl

/-- A row is there from before or was registered. -/
theorem mem_of_mem_registerAll
    {rs : List ρ} {t : Registry κ ρ key} {x : ρ} (h : x ∈ (t.registerAll rs).table.rows) :
    x ∈ t.table.rows ∨ x ∈ rs := by
  induction rs generalizing t with
  | nil =>
      exact Or.inl h
  | cons r rs ih =>
      rcases ih h with hx | hx
      · rw [table_register, KeyedTable.mem_insertIgnore] at hx
        rcases hx with hx | ⟨rfl, -⟩
        · exact Or.inl hx
        · exact Or.inr List.mem_cons_self
      · exact Or.inr (List.mem_cons_of_mem _ hx)

/-- What is in the table stays in it. -/
theorem mem_registerAll_of_mem
    {rs : List ρ} {t : Registry κ ρ key} {x : ρ} (h : x ∈ t.table.rows) :
    x ∈ (t.registerAll rs).table.rows := by
  induction rs generalizing t with
  | nil =>
      exact h
  | cons r rs ih =>
      refine ih ?_
      rw [table_register, KeyedTable.mem_insertIgnore]
      exact Or.inl h

/-- Every key that was registered has a row. -/
theorem exists_key_registerAll
    {rs : List ρ} {t : Registry κ ρ key} {r : ρ} (hr : r ∈ rs) :
    ∃ x ∈ (t.registerAll rs).table.rows, key x = key r := by
  induction rs generalizing t with
  | nil =>
      cases hr
  | cons a rs ih =>
      rcases List.mem_cons.mp hr with rfl | hr
      · obtain ⟨x, hx, hkey⟩ := t.table.exists_key_insertIgnore r
        rw [← table_register] at hx
        refine ⟨x, ?_, hkey⟩
        rw [registerAll_cons]
        exact mem_registerAll_of_mem hx
      · exact ih hr

variable (key) in
/-- Each registered key has one row, and it has been registered. -/
theorem registerAll_unique
    {rs : List ρ} {r : ρ} (hr : r ∈ rs) :
    ∃ x ∈ rs, key x = key r ∧
      ((empty : Registry κ ρ key).registerAll rs).table.rows.filter
        (fun y => key y = key r) = [x] := by
  obtain ⟨x, hx, hkey⟩ := exists_key_registerAll (t := (empty : Registry κ ρ key)) hr
  have hmem : x ∈ rs := (mem_of_mem_registerAll hx).resolve_left (by simp [empty])
  refine ⟨x, hmem, hkey, ?_⟩
  rw [← hkey]
  exact filter_key_eq_singleton (KeyedTable.keys_nodup _) hx

end Registry
end Lib
end Otelop
