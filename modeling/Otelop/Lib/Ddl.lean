import Mathlib.Data.List.Forall2
import Mathlib.Tactic

/-!
# Statements that change a schema

A catalogue of tables with typed columns and of indexes, and the statements that create and alter
them, over values of any type.  A row gives a value to every name; only the columns of the table
are visible.

**Results.**
* `Ddl.goal_run`, `Ddl.run_of_goal`: a statement with `IF [NOT] EXISTS` reaches its goal, and does
  nothing where the goal holds.
* `Ddl.holds_run`: which goals a statement leaves standing.
* `Ddl.schema_run`: what a statement does to the schema does not depend on the rows.
* `Ddl.run_keeps`: no statement loses a row, or a value outside the columns it drops.
-/

namespace Otelop
namespace Lib

universe u

structure Column where
  name : String
  type : String
deriving DecidableEq

structure Index where
  name : String
  table : String
  columns : List String
deriving DecidableEq

structure Table (κ : Type u) where
  columns : List Column
  rows : List (String → κ)

structure Catalog (κ : Type u) where
  table : String → Option (Table κ)
  indexes : List Index

variable {κ : Type u}

namespace Table

def names (t : Table κ) : List String := t.columns.map Column.name

/-- `ADD COLUMN ... DEFAULT`: the rows there are get the default. -/
def addColumn (t : Table κ) (c : Column) (default : κ) : Table κ where
  columns := t.columns ++ [c]
  rows := t.rows.map fun r => Function.update r c.name default

def dropColumn (t : Table κ) (c : String) : Table κ where
  columns := t.columns.filter fun x => x.name ≠ c
  rows := t.rows

@[simp] theorem names_addColumn (t : Table κ) (c : Column) (default : κ) :
    (t.addColumn c default).names = t.names ++ [c.name] := by
  simp [names, addColumn]

@[simp] theorem mem_names_dropColumn {t : Table κ} {c x : String} :
    x ∈ (t.dropColumn c).names ↔ x ∈ t.names ∧ x ≠ c := by
  simp only [names, dropColumn, List.mem_map, List.mem_filter, decide_eq_true_eq]
  constructor
  · rintro ⟨y, ⟨hy, hne⟩, rfl⟩
    exact ⟨⟨y, hy, rfl⟩, hne⟩
  · rintro ⟨⟨y, hy, rfl⟩, hne⟩
    exact ⟨y, ⟨hy, hne⟩, rfl⟩

/-- The type of a column, if there is one. -/
def type? (t : Table κ) (c : String) : Option String :=
  (t.columns.find? fun x => x.name = c).map Column.type

theorem isSome_type?_iff {t : Table κ} {c : String} : (t.type? c).isSome = true ↔ c ∈ t.names := by
  rw [type?, Option.isSome_map, List.find?_isSome, names, List.mem_map]
  simp only [decide_eq_true_eq]

/-- A column that was there keeps its type when another one is added. -/
theorem type?_addColumn {t : Table κ} {c : String} (h : c ∈ t.names) (column : Column)
    (default : κ) : (t.addColumn column default).type? c = t.type? c := by
  have hsome := isSome_type?_iff.mpr h
  rw [type?, Option.isSome_map] at hsome
  obtain ⟨x, hx⟩ := Option.isSome_iff_exists.mp hsome
  rw [type?, type?, addColumn, List.find?_append, hx, Option.some_or]

/-- A column keeps its type when another one is dropped. -/
theorem type?_dropColumn (t : Table κ) {c column : String} (h : c ≠ column) :
    (t.dropColumn column).type? c = t.type? c := by
  rw [type?, type?, dropColumn, List.find?_filter]
  congr 2
  funext x
  by_cases hx : x.name = c
  · simp [hx, h]
  · simp [hx]

/-- The table without its rows. -/
def schema (t : Table κ) : Table κ := ⟨t.columns, []⟩

@[simp] theorem names_schema (t : Table κ) : t.schema.names = t.names := rfl

end Table

namespace Catalog

/-- A database without tables. -/
def empty : Catalog κ := ⟨fun _ => none, []⟩

def setTable (cat : Catalog κ) (name : String) (t : Table κ) : Catalog κ :=
  { cat with table := Function.update cat.table name (some t) }

@[simp] theorem table_setTable_self (cat : Catalog κ) (name : String) (t : Table κ) :
    (cat.setTable name t).table name = some t :=
  Function.update_self ..

theorem table_setTable_of_ne (cat : Catalog κ) {name n : String} (h : n ≠ name) (t : Table κ) :
    (cat.setTable name t).table n = cat.table n :=
  Function.update_of_ne h ..

@[simp] theorem indexes_setTable (cat : Catalog κ) (name : String) (t : Table κ) :
    (cat.setTable name t).indexes = cat.indexes := rfl

def hasColumn (cat : Catalog κ) (table column : String) : Bool :=
  match cat.table table with
  | none => false
  | some t => decide (column ∈ t.names)

/-- A column is there when its table has it. -/
theorem hasColumn_eq_true_iff {cat : Catalog κ} {table column : String} :
    cat.hasColumn table column = true ↔ ∃ t, cat.table table = some t ∧ column ∈ t.names := by
  unfold hasColumn
  cases cat.table table <;> simp

def hasIndex (cat : Catalog κ) (name : String) : Bool :=
  cat.indexes.any fun i => decide (i.name = name)

/-- An index is on the table. -/
def indexed (cat : Catalog κ) (table : String) : Bool :=
  cat.indexes.any fun i => decide (i.table = table)

/-- The tables without their rows. -/
def schema (cat : Catalog κ) : Catalog κ :=
  { cat with table := fun n => (cat.table n).map Table.schema }

@[simp] theorem table_schema (cat : Catalog κ) (n : String) :
    cat.schema.table n = (cat.table n).map Table.schema := rfl

@[simp] theorem indexes_schema (cat : Catalog κ) : cat.schema.indexes = cat.indexes := rfl

theorem setTable_setTable (cat : Catalog κ) (name : String) (t t' : Table κ) :
    (cat.setTable name t).setTable name t' = cat.setTable name t' := by
  rw [setTable, setTable, setTable, Function.update_idem]

/-- Putting a table where it was changes nothing. -/
theorem setTable_eq_self {cat : Catalog κ} {name : String} {t : Table κ}
    (h : cat.table name = some t) : cat.setTable name t = cat := by
  rw [setTable, ← h, Function.update_eq_self]

/-- A table may be put into a catalogue before or after the rows are left out. -/
theorem schema_setTable (cat : Catalog κ) (name : String) (t : Table κ) :
    (cat.setTable name t).schema = cat.schema.setTable name t.schema := by
  simp only [schema, setTable, mk.injEq, and_true]
  funext n
  by_cases hn : n = name
  · subst hn
    simp
  · simp [Function.update_of_ne hn]

/-- A change of rows is none of the schema. -/
theorem schema_setRows {cat : Catalog κ} {name : String} {t : Table κ}
    (h : cat.table name = some t) (rows : List (String → κ)) :
    (cat.setTable name { t with rows }).schema = cat.schema := by
  rw [schema_setTable]
  refine setTable_eq_self ?_
  rw [table_schema, h]
  rfl

@[simp] theorem hasColumn_schema (cat : Catalog κ) (table column : String) :
    cat.schema.hasColumn table column = cat.hasColumn table column := by
  rw [hasColumn, hasColumn, table_schema]
  cases cat.table table <;> rfl

end Catalog

/-- A statement that changes the schema. -/
inductive Ddl (κ : Type u) where
  | createTable (name : String) (columns : List Column) (ifNotExists : Bool)
  | createIndex (index : Index) (ifNotExists : Bool)
  | addColumn (table : String) (column : Column) (default : κ) (ifNotExists : Bool)
  | dropIndexIfExists (name : String)
  | dropColumnIfExists (table column : String)

namespace Ddl

/-- What a statement does, unless it fails. -/
def run : Ddl κ → Catalog κ → Option (Catalog κ)
  | createTable name columns ifNotExists, cat =>
      match cat.table name with
      | some _ => if ifNotExists then some cat else none
      | none => some (cat.setTable name ⟨columns, []⟩)
  | createIndex index ifNotExists, cat =>
      if cat.hasIndex index.name then if ifNotExists then some cat else none
      else if index.columns.all (cat.hasColumn index.table) then
        some { cat with indexes := cat.indexes ++ [index] }
      else none
  | addColumn table column default ifNotExists, cat =>
      match cat.table table with
      | none => none
      | some t =>
          if column.name ∈ t.names then if ifNotExists then some cat else none
          else some (cat.setTable table (t.addColumn column default))
  | dropIndexIfExists name, cat =>
      some { cat with indexes := cat.indexes.filter fun i => i.name ≠ name }
  | dropColumnIfExists table column, cat =>
      match cat.table table with
      | none => none
      | some t =>
          if column ∈ t.names then
            if cat.indexed table then none else some (cat.setTable table (t.dropColumn column))
          else some cat

/-- The statements of a script, up to the first that fails. -/
def runAll : List (Ddl κ) → Catalog κ → Option (Catalog κ)
  | [], cat => some cat
  | d :: ds, cat => (d.run cat).bind (runAll ds)

end Ddl

/-- What a statement is for. -/
inductive SchemaGoal where
  | table (name : String)
  | column (table column : String)
  | index (name : String)
  | noIndex (name : String)
  | noColumn (table column : String)

namespace SchemaGoal

def holds (cat : Catalog κ) (g : SchemaGoal) : Bool :=
  match g with
  | .table name => (cat.table name).isSome
  | .column tab col => cat.hasColumn tab col
  | .index name => cat.hasIndex name
  | .noIndex name => !cat.hasIndex name
  | .noColumn tab col => (cat.table tab).isSome && !cat.hasColumn tab col

/-- Whether a goal holds does not depend on the rows. -/
@[simp] theorem holds_schema (cat : Catalog κ) (g : SchemaGoal) :
    g.holds cat.schema = g.holds cat := by
  cases g <;> simp [holds, Catalog.hasIndex]

/-- What a goal needs of a table that is replaced. -/
theorem holds_setTable {cat : Catalog κ} {g : SchemaGoal} (hg : g.holds cat = true) {name : String}
    {t : Table κ} (hcolumn : ∀ c, g = .column name c → c ∈ t.names)
    (hnoColumn : ∀ c, g = .noColumn name c → c ∉ t.names) :
    g.holds (cat.setTable name t) = true := by
  have hother : ∀ {n : String}, n ≠ name → (cat.setTable name t).table n = cat.table n :=
    fun hn => cat.table_setTable_of_ne hn t
  cases g with
  | table n =>
      by_cases hn : n = name
      · simp [holds, hn]
      · simpa [holds, hother hn] using hg
  | column n c =>
      by_cases hn : n = name
      · subst hn
        simp [holds, Catalog.hasColumn, hcolumn c rfl]
      · simpa [holds, Catalog.hasColumn, hother hn] using hg
  | index n => exact hg
  | noIndex n => exact hg
  | noColumn n c =>
      by_cases hn : n = name
      · subst hn
        simp [holds, Catalog.hasColumn, hnoColumn c rfl]
      · simpa [holds, Catalog.hasColumn, hother hn] using hg

end SchemaGoal

namespace Ddl

/-! ### Goals -/

def goal : Ddl κ → SchemaGoal
  | createTable name _ _ => .table name
  | createIndex index _ => .index index.name
  | addColumn table column _ _ => .column table column.name
  | dropIndexIfExists name => .noIndex name
  | dropColumnIfExists table column => .noColumn table column

/-- The statement is written with `IF [NOT] EXISTS`. -/
def conditional : Ddl κ → Bool
  | createTable _ _ ifNotExists => ifNotExists
  | createIndex _ ifNotExists => ifNotExists
  | addColumn _ _ _ ifNotExists => ifNotExists
  | dropIndexIfExists _ => true
  | dropColumnIfExists _ _ => true

/-- The statement may undo the goal. -/
def breaks : Ddl κ → SchemaGoal → Bool
  | createIndex index _, .noIndex name => index.name = name
  | addColumn table column _ _, .noColumn table' column' =>
      table = table' && column.name = column'
  | dropIndexIfExists name, .index name' => name = name'
  | dropColumnIfExists table column, .column table' column' => table = table' && column = column'
  | _, _ => false

/-- What a statement that did not fail did. -/
inductive Effect (d : Ddl κ) (cat : Catalog κ) : Catalog κ → Prop where
  | nothing (h : d.goal.holds cat = true) : Effect d cat cat
  | created {name : String} {columns : List Column} {ifNotExists : Bool}
      (hd : d = createTable name columns ifNotExists) (h : cat.table name = none) :
      Effect d cat (cat.setTable name ⟨columns, []⟩)
  | indexed {index : Index} {ifNotExists : Bool} (hd : d = createIndex index ifNotExists)
      (h : cat.hasIndex index.name = false) :
      Effect d cat { cat with indexes := cat.indexes ++ [index] }
  | added {table : String} {column : Column} {default : κ} {ifNotExists : Bool} {t : Table κ}
      (hd : d = addColumn table column default ifNotExists) (ht : cat.table table = some t)
      (h : column.name ∉ t.names) :
      Effect d cat (cat.setTable table (t.addColumn column default))
  | unindexed {name : String} (hd : d = dropIndexIfExists name) :
      Effect d cat { cat with indexes := cat.indexes.filter fun i => i.name ≠ name }
  | dropped {table column : String} {t : Table κ} (hd : d = dropColumnIfExists table column)
      (ht : cat.table table = some t) (h : column ∈ t.names) :
      Effect d cat (cat.setTable table (t.dropColumn column))

/-- A statement that runs has its effect. -/
theorem effect_of_run {d : Ddl κ} {cat cat' : Catalog κ} (h : d.run cat = some cat') :
    d.Effect cat cat' := by
  cases d with
  | createTable name columns ifNotExists =>
      simp only [run] at h
      split at h
      next t ht =>
        split at h
        · cases h
          exact .nothing (by simp [goal, SchemaGoal.holds, ht])
        · cases h
      next ht =>
        cases h
        exact .created rfl ht
  | createIndex index ifNotExists =>
      simp only [run] at h
      split at h
      next hindex =>
        split at h
        · cases h
          exact .nothing hindex
        · cases h
      next hindex =>
        split at h
        · cases h
          exact .indexed rfl (by simpa using hindex)
        · cases h
  | addColumn table column default ifNotExists =>
      simp only [run] at h
      split at h
      · cases h
      next t ht =>
        split at h
        next hcolumn =>
          split at h
          · cases h
            exact .nothing (Catalog.hasColumn_eq_true_iff.mpr ⟨t, ht, hcolumn⟩)
          · cases h
        next hcolumn =>
          cases h
          exact .added rfl ht hcolumn
  | dropIndexIfExists name =>
      cases h
      exact .unindexed rfl
  | dropColumnIfExists table column =>
      simp only [run] at h
      split at h
      · cases h
      next t ht =>
        split at h
        next hcolumn =>
          split at h
          · cases h
          · cases h
            exact .dropped rfl ht hcolumn
        next hcolumn =>
          cases h
          exact .nothing (by simp [goal, SchemaGoal.holds, Catalog.hasColumn, ht, hcolumn])

/-- A statement reaches its goal. -/
theorem goal_run {d : Ddl κ} {cat cat' : Catalog κ} (h : d.run cat = some cat') :
    d.goal.holds cat' = true := by
  cases effect_of_run h with
  | nothing hgoal => exact hgoal
  | created hd _ =>
      subst hd
      simp [goal, SchemaGoal.holds]
  | indexed hd _ =>
      subst hd
      simp [goal, SchemaGoal.holds, Catalog.hasIndex]
  | added hd _ _ =>
      subst hd
      simp [goal, SchemaGoal.holds, Catalog.hasColumn]
  | unindexed hd =>
      subst hd
      simp [goal, SchemaGoal.holds, Catalog.hasIndex]
  | dropped hd _ _ =>
      subst hd
      simp [goal, SchemaGoal.holds, Catalog.hasColumn]

/-- Where its goal holds, a conditional statement does nothing. -/
theorem run_of_goal {d : Ddl κ} {cat : Catalog κ} (hd : d.conditional = true)
    (h : d.goal.holds cat = true) : d.run cat = some cat := by
  cases d with
  | createTable name columns ifNotExists =>
      obtain ⟨t, ht⟩ := Option.isSome_iff_exists.mp h
      simp only [run, ht]
      exact if_pos hd
  | createIndex index ifNotExists =>
      have hindex : cat.hasIndex index.name = true := h
      simp only [run]
      rw [if_pos hindex]
      exact if_pos hd
  | addColumn table column default ifNotExists =>
      obtain ⟨t, ht, hcolumn⟩ := Catalog.hasColumn_eq_true_iff.mp h
      simp only [run, ht]
      rw [if_pos hcolumn]
      exact if_pos hd
  | dropIndexIfExists name =>
      have hnone : ∀ i ∈ cat.indexes, decide (i.name ≠ name) = true := by
        simpa [goal, SchemaGoal.holds, Catalog.hasIndex] using h
      rw [run, List.filter_eq_self.mpr hnone]
  | dropColumnIfExists table column =>
      cases ht : cat.table table with
      | none => simp [goal, SchemaGoal.holds, ht] at h
      | some t =>
          have hcolumn : column ∉ t.names := by
            simpa [goal, SchemaGoal.holds, Catalog.hasColumn, ht] using h
          simp only [run, ht]
          rw [if_neg hcolumn]

/-- A goal stands through a statement that does not break it. -/
theorem holds_run {d : Ddl κ} {cat cat' : Catalog κ} {g : SchemaGoal}
    (h : d.run cat = some cat') (hb : d.breaks g = false) (hg : g.holds cat = true) :
    g.holds cat' = true := by
  cases effect_of_run h with
  | nothing _ => exact hg
  | created hd hnone =>
      refine SchemaGoal.holds_setTable hg ?_ ?_
      · rintro c rfl
        simp [SchemaGoal.holds, Catalog.hasColumn, hnone] at hg
      · rintro c rfl
        simp [SchemaGoal.holds, hnone] at hg
  | @indexed index _ hd _ =>
      subst hd
      cases g with
      | table | column | noColumn => exact hg
      | index n =>
          simp only [SchemaGoal.holds, Catalog.hasIndex, List.any_append, Bool.or_eq_true] at hg ⊢
          exact Or.inl hg
      | noIndex n =>
          have hne : index.name ≠ n := by simpa [breaks] using hb
          simpa [SchemaGoal.holds, Catalog.hasIndex, hne] using hg
  | @added table column _ _ t hd ht _ =>
      subst hd
      refine SchemaGoal.holds_setTable hg ?_ ?_
      · rintro c rfl
        obtain ⟨t, ht', hc⟩ := Catalog.hasColumn_eq_true_iff.mp hg
        cases ht.symm.trans ht'
        simp [hc]
      · rintro c rfl
        have hne : column.name ≠ c := by simpa [breaks] using hb
        have hc : c ∉ t.names := by simpa [SchemaGoal.holds, Catalog.hasColumn, ht] using hg
        simp [hc, hne.symm]
  | @unindexed name hd =>
      subst hd
      cases g with
      | table | column | noColumn => exact hg
      | index n =>
          have hne : name ≠ n := by simpa [breaks] using hb
          obtain ⟨i, hi, hname⟩ := List.any_eq_true.mp hg
          refine List.any_eq_true.mpr ⟨i, List.mem_filter.mpr ⟨hi, ?_⟩, hname⟩
          have hin : i.name = n := by simpa using hname
          simpa [hin] using hne.symm
      | noIndex n =>
          have hnone : ∀ i ∈ cat.indexes, i.name ≠ n := by
            simpa [SchemaGoal.holds, Catalog.hasIndex] using hg
          simp only [SchemaGoal.holds, Catalog.hasIndex, Bool.not_eq_true', List.any_eq_false,
            decide_eq_true_eq]
          exact fun i hi => hnone i (List.mem_filter.mp hi).1
  | @dropped table column t hd ht _ =>
      subst hd
      refine SchemaGoal.holds_setTable hg ?_ ?_
      · rintro c rfl
        have hne : column ≠ c := by simpa [breaks] using hb
        obtain ⟨t', ht', hc⟩ := Catalog.hasColumn_eq_true_iff.mp hg
        cases ht.symm.trans ht'
        exact Table.mem_names_dropColumn.mpr ⟨hc, hne.symm⟩
      · rintro c rfl hc
        have hno : c ∉ t.names := by simpa [SchemaGoal.holds, Catalog.hasColumn, ht] using hg
        exact hno (Table.mem_names_dropColumn.mp hc).1

/-- A goal that no statement of a script breaks is left standing. -/
theorem holds_runAll {ds : List (Ddl κ)} {cat cat' : Catalog κ} {g : SchemaGoal}
    (h : runAll ds cat = some cat') (hb : ∀ d ∈ ds, d.breaks g = false)
    (hg : g.holds cat = true) : g.holds cat' = true := by
  induction ds generalizing cat with
  | nil =>
      cases h
      exact hg
  | cons d ds ih =>
      obtain ⟨cat₁, hd, hrest⟩ := Option.bind_eq_some_iff.mp h
      exact ih hrest (fun x hx => hb x (List.mem_cons_of_mem _ hx))
        (holds_run hd (hb d List.mem_cons_self) hg)

/-- Two scripts one after the other. -/
theorem runAll_append (ds ds' : List (Ddl κ)) (cat : Catalog κ) :
    runAll (ds ++ ds') cat = (runAll ds cat).bind (runAll ds') := by
  induction ds generalizing cat with
  | nil => rfl
  | cons d ds ih =>
      rw [List.cons_append, runAll, runAll]
      cases d.run cat with
      | none => rfl
      | some cat' => exact ih cat'

/-! ### The schema and the rows -/

theorem schema_run (d : Ddl κ) (cat : Catalog κ) :
    d.run cat.schema = (d.run cat).map Catalog.schema := by
  cases d with
  | createTable name columns ifNotExists =>
      simp only [run, Catalog.table_schema]
      cases cat.table name with
      | none => simp [Catalog.schema_setTable, Table.schema]
      | some t => cases ifNotExists <;> rfl
  | createIndex index ifNotExists =>
      have hcolumns : Catalog.hasColumn cat.schema index.table = cat.hasColumn index.table :=
        funext fun c => cat.hasColumn_schema _ c
      have hindex : cat.schema.hasIndex index.name = cat.hasIndex index.name := rfl
      simp only [run, hcolumns, hindex]
      split
      · cases ifNotExists <;> rfl
      · split <;> rfl
  | addColumn table column default ifNotExists =>
      simp only [run, Catalog.table_schema]
      cases cat.table table with
      | none => rfl
      | some t =>
          simp only [Option.map_some]
          by_cases hc : column.name ∈ t.names
          · have hc' : column.name ∈ t.schema.names := hc
            rw [if_pos hc, if_pos hc']
            cases ifNotExists <;> rfl
          · have hc' : column.name ∉ t.schema.names := hc
            rw [if_neg hc, if_neg hc']
            simp [Catalog.schema_setTable, Table.schema, Table.addColumn]
  | dropIndexIfExists name => rfl
  | dropColumnIfExists table column =>
      have hindexed : cat.schema.indexed table = cat.indexed table := rfl
      simp only [run, Catalog.table_schema, hindexed]
      cases cat.table table with
      | none => rfl
      | some t =>
          simp only [Option.map_some]
          by_cases hc : column ∈ t.names
          · have hc' : column ∈ t.schema.names := hc
            rw [if_pos hc, if_pos hc']
            split
            · rfl
            · simp [Catalog.schema_setTable, Table.schema, Table.dropColumn]
          · have hc' : column ∉ t.schema.names := hc
            rw [if_neg hc, if_neg hc']
            rfl

/-- What a script does to the schema does not depend on the rows. -/
theorem schema_runAll (ds : List (Ddl κ)) (cat : Catalog κ) :
    runAll ds cat.schema = (runAll ds cat).map Catalog.schema := by
  induction ds generalizing cat with
  | nil => rfl
  | cons d ds ih =>
      rw [runAll, runAll, schema_run]
      cases d.run cat with
      | none => rfl
      | some cat' => exact ih cat'

end Ddl

/-! ### What is kept -/

section Keeps

/-- Two lists that are related row by row through a third one. -/
theorem forall₂_trans {α β γ : Type*} {R : α → β → Prop} {S : β → γ → Prop} {T : α → γ → Prop}
    (hT : ∀ {a b c}, R a b → S b c → T a c) {l : List α} {l' : List β} {l'' : List γ}
    (h : List.Forall₂ R l l') (h' : List.Forall₂ S l' l'') : List.Forall₂ T l l'' := by
  induction h generalizing l'' with
  | nil =>
      cases h'
      exact .nil
  | cons hr _ ih =>
      cases h' with
      | cons hs hrest => exact .cons (hT hr hs) (ih hrest)

/-- What is to be kept: the rows of these tables, but for the values of lost columns, where a
column that is added holds a value of its own. -/
structure Keeping (κ : Type u) where
  tables : String → Prop
  lost : String → String → Prop
  fresh : String → String → κ → Prop

variable {k : Keeping κ}

/-- The row `r` of a table with the columns `names`, and what became of it. -/
structure Keeping.Row (k : Keeping κ) (table : String) (names names' : List String)
    (r r' : String → κ) : Prop where
  kept : ∀ c ∈ names, ¬ k.lost table c → r' c = r c
  added : ∀ c ∈ names', c ∉ names → ¬ k.lost table c → k.fresh table c (r' c)

/-- Every row is still there, in order, and every column with its type. -/
structure Table.Keeps (k : Keeping κ) (table : String) (t t' : Table κ) : Prop where
  types : ∀ c ∈ t.names, ¬ k.lost table c → t'.type? c = t.type? c
  rows : List.Forall₂ (k.Row table t.names t'.names) t.rows t'.rows

/-- A column that may not be lost is kept. -/
theorem Table.Keeps.names {table : String} {t t' : Table κ} (h : t.Keeps k table t') {c : String}
    (hc : c ∈ t.names) (hl : ¬ k.lost table c) : c ∈ t'.names := by
  rw [← Table.isSome_type?_iff, h.types c hc hl]
  exact Table.isSome_type?_iff.mpr hc

theorem Table.Keeps.refl (table : String) (t : Table κ) : t.Keeps k table t where
  types := fun _ _ _ => rfl
  rows := List.forall₂_same.mpr fun _ _ => ⟨fun _ _ _ => rfl, fun _ hc hn _ => absurd hc hn⟩

/-- What two steps keep is kept by both together. -/
theorem Table.Keeps.trans {table : String} {t t' t'' : Table κ} (h : t.Keeps k table t')
    (h' : t'.Keeps k table t'') : t.Keeps k table t'' where
  types := fun c hc hl => (h'.types c (h.names hc hl) hl).trans (h.types c hc hl)
  rows := by
    refine forall₂_trans ?_ h.rows h'.rows
    intro r r' r'' hr hr'
    refine ⟨fun c hc hl => ?_, fun c hc hn hl => ?_⟩
    · rw [hr'.kept c (h.names hc hl) hl, hr.kept c hc hl]
    · by_cases hc' : c ∈ t'.names
      · rw [hr'.kept c hc' hl]
        exact hr.added c hc' hn hl
      · exact hr'.added c hc hc' hl

/-- Every table to be kept is still there. -/
def Catalog.Keeps (k : Keeping κ) (cat cat' : Catalog κ) : Prop :=
  ∀ n t, k.tables n → cat.table n = some t → ∃ t', cat'.table n = some t' ∧ t.Keeps k n t'

theorem Catalog.Keeps.refl (cat : Catalog κ) : cat.Keeps k cat :=
  fun n t _ ht => ⟨t, ht, .refl n t⟩

/-- What two steps keep of every table is kept by both together. -/
theorem Catalog.Keeps.trans {cat cat' cat'' : Catalog κ} (h : cat.Keeps k cat')
    (h' : cat'.Keeps k cat'') : cat.Keeps k cat'' := by
  intro n t hn ht
  obtain ⟨t', ht', hkeeps⟩ := h n t hn ht
  obtain ⟨t'', ht'', hkeeps'⟩ := h' n t' hn ht'
  exact ⟨t'', ht'', hkeeps.trans hkeeps'⟩

/-- A table that is replaced by one that keeps its rows and columns. -/
theorem Catalog.keeps_setTable {cat : Catalog κ} {name : String} {t' : Table κ}
    (h : ∀ t, k.tables name → cat.table name = some t → t.Keeps k name t') :
    cat.Keeps k (cat.setTable name t') := by
  intro n t hk ht
  by_cases hn : n = name
  · subst hn
    exact ⟨t', cat.table_setTable_self n t', h t hk ht⟩
  · exact ⟨t, (cat.table_setTable_of_ne hn t').trans ht, .refl n t⟩

/-- A statement drops only lost columns and adds only fresh values. -/
def Ddl.Respects (k : Keeping κ) (d : Ddl κ) : Prop :=
  match d with
  | .addColumn table column default _ => k.fresh table column.name default
  | .dropColumnIfExists table column => k.lost table column
  | _ => True

/-- A statement keeps what it respects. -/
theorem Ddl.run_keeps {d : Ddl κ} {cat cat' : Catalog κ} (h : d.run cat = some cat')
    (hd : d.Respects k) : cat.Keeps k cat' := by
  cases effect_of_run h with
  | nothing _ => exact .refl cat
  | created _ hnone =>
      refine Catalog.keeps_setTable fun t _ ht => ?_
      rw [hnone] at ht
      cases ht
  | indexed _ _ => exact fun n t _ ht => ⟨t, ht, .refl n t⟩
  | @added table column default _ t heq ht hnew =>
      subst heq
      refine Catalog.keeps_setTable fun t' _ ht' => ?_
      cases ht.symm.trans ht'
      refine ⟨fun c hc _ => Table.type?_addColumn hc column default, ?_⟩
      refine List.forall₂_map_right_iff.mpr (List.forall₂_same.mpr fun r _ => ⟨?_, ?_⟩)
      · intro c hc _
        exact Function.update_of_ne (fun heq : c = column.name => hnew (heq ▸ hc)) ..
      · intro c hc hn _
        obtain rfl : c = column.name := by simpa [hn] using hc
        rw [Function.update_self]
        exact hd
  | unindexed _ => exact fun n t _ ht => ⟨t, ht, .refl n t⟩
  | @dropped table column t heq ht _ =>
      subst heq
      refine Catalog.keeps_setTable fun t' _ ht' => ?_
      cases ht.symm.trans ht'
      refine ⟨fun c _ hl => ?_, List.forall₂_same.mpr fun r _ => ⟨fun _ _ _ => rfl, ?_⟩⟩
      · refine Table.type?_dropColumn t ?_
        rintro rfl
        exact hl hd
      · intro c hc hn _
        exact absurd (Table.mem_names_dropColumn.mp hc).1 hn

/-- A script keeps what all its statements respect. -/
theorem Ddl.runAll_keeps {ds : List (Ddl κ)} {cat cat' : Catalog κ} (h : runAll ds cat = some cat')
    (hds : ∀ d ∈ ds, d.Respects k) : cat.Keeps k cat' := by
  induction ds generalizing cat with
  | nil =>
      cases h
      exact .refl _
  | cons d ds ih =>
      obtain ⟨cat₁, hd, hrest⟩ := Option.bind_eq_some_iff.mp h
      exact (run_keeps hd (hds d List.mem_cons_self)).trans
        (ih hrest fun x hx => hds x (List.mem_cons_of_mem _ hx))

end Keeps

end Lib
end Otelop
