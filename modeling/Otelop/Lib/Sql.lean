import Mathlib.Tactic

/-!
# Three-valued logic

A condition of SQL is true, false or null, and a query keeps the rows for which it is true.

`Truth` is an optional truth value.  `and`, `or` and `not` are Kleene's: null is what could be
either.  An operator that is null as soon as one of its arguments is (a comparison, a
concatenation) is `strict`, and `coalesce` puts a value in place of null.  The lemmas reduce
`holds`, by which a query selects, to the truth of the parts, so that a proof about a selected
row needs no case of null.

**Results.**
* `holds_and`, `holds_all`: a conjunction keeps what every part keeps, and a disjunction
  (`holds_or`, `holds_any`) what some part keeps.
* `holds_not_coalesce`: `NOT COALESCE(c, FALSE)` keeps what `c` does not.
* `mem_of_mem_selectDistinct`: a row of `SELECT DISTINCT` was selected.
-/

namespace Otelop
namespace Lib
namespace Sql

universe u v

/-- The value of a condition; `none` is `NULL`. -/
abbrev Truth := Option Bool

/-- `a AND b` -/
def and : Truth → Truth → Truth
  | some false, _ => some false
  | _, some false => some false
  | some true, some true => some true
  | _, _ => none

/-- `a OR b` -/
def or : Truth → Truth → Truth
  | some true, _ => some true
  | _, some true => some true
  | some false, some false => some false
  | _, _ => none

/-- `NOT a` -/
def not (a : Truth) : Truth := a.map (!·)

/-- `COALESCE(a, b)` for a constant `b` -/
def coalesce (a : Truth) (b : Bool) : Truth := some (a.getD b)

/-- `x IS NOT NULL` -/
def isNotNull {α : Type u} (x : Option α) : Truth := some x.isSome

/-- An operator that is strict in `x`. -/
def strict {α : Type u} (r : α → Bool) (x : Option α) : Truth := x.map r

/-- `NULLIF(x, y)` -/
def nullIf {α : Type u} [DecidableEq α] (x : Option α) (y : α) : Option α :=
  if x = some y then none else x

/-- `WHERE a` keeps the row. -/
def holds (a : Truth) : Bool := a.getD false

@[simp] theorem holds_some (b : Bool) : holds (some b) = b := rfl

@[simp] theorem holds_none : holds none = false := rfl

/-- A conjunction holds when both sides do. -/
@[simp] theorem holds_and (a b : Truth) : holds (and a b) = (holds a && holds b) := by
  rcases a with _ | _ | _ <;> rcases b with _ | _ | _ <;> rfl

/-- A disjunction holds when one side does. -/
@[simp] theorem holds_or (a b : Truth) : holds (or a b) = (holds a || holds b) := by
  rcases a with _ | _ | _ <;> rcases b with _ | _ | _ <;> rfl

/-- With a default the negation holds when the condition does not. -/
@[simp] theorem holds_not_coalesce (a : Truth) :
    holds (not (coalesce a false)) = !holds a := rfl

@[simp] theorem holds_isNotNull {α : Type u} (x : Option α) :
    holds (isNotNull x) = x.isSome := rfl

/-- `c AND c₁ AND c₂ AND ...` -/
def all (c : Truth) (clauses : List Truth) : Truth := clauses.foldl and c

/-- A list of clauses holds when all of them do. -/
theorem holds_all (c : Truth) :
    ∀ clauses : List Truth, holds (all c clauses) = (holds c && clauses.all holds)
  | [] => by simp [all]
  | d :: clauses => by
      have ih := holds_all (and c d) clauses
      rw [all, List.foldl_cons]
      rw [all] at ih
      rw [ih, holds_and, List.all_cons, Bool.and_assoc]

/-- `c₁ OR c₂ OR ...` -/
def any (conditions : List Truth) : Truth := conditions.foldr or (some false)

/-- A list of alternatives holds when one of them does. -/
theorem holds_any :
    ∀ conditions : List Truth, holds (any conditions) = conditions.any holds
  | [] => rfl
  | c :: conditions => by
      have ih := holds_any conditions
      rw [any] at ih
      rw [any, List.foldr_cons, holds_or, ih, List.any_cons]

/-! ### Result sets -/

/-- `SELECT DISTINCT value ... ORDER BY value LIMIT limit` -/
def selectDistinct {α : Type u} [LinearOrder α] (limit : Nat) (values : List α) : List α :=
  (values.dedup.insertionSort (· ≤ ·)).take limit

/-- A selected value is one of the values. -/
theorem mem_of_mem_selectDistinct
    {α : Type u} [LinearOrder α] {limit : Nat} {values : List α} {value : α}
    (h : value ∈ selectDistinct limit values) :
    value ∈ values := by
  have hsorted := List.mem_of_mem_take h
  rw [List.mem_insertionSort, List.mem_dedup] at hsorted
  exact hsorted

end Sql
end Lib
end Otelop
