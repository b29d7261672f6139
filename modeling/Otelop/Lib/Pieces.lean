import Mathlib.Tactic

/-!
# The pieces of a text

The longest stretches of a text without a separator.

A separator is any element that a predicate picks out, and a text is a list of any type.
Pieces may be empty, at the ends of the text and between two separators, so a text with `n`
separators has `n + 1` pieces; this is how programs split a list of directories or a file
into lines.  A loop that starts afresh behind every separator does to a text what it does to
the pieces one by one.

**Results.**
* `pieces_append_cons`: a separator ends a piece.
* `pieces_intercalate`: the pieces of texts joined by a separator.
* `foldl_pieces`: what starts afresh behind every separator depends on the pieces alone.
-/

namespace Otelop
namespace Lib

universe u v

section Pieces

variable {α : Type u} {β : Type v} {sep : α → Bool}

/-- The pieces, in order. -/
def pieces (sep : α → Bool) (s : List α) : List (List α) :=
  (s.splitOnP sep).filter fun piece => !piece.isEmpty

@[simp] theorem pieces_nil : pieces sep [] = [] := by
  simp [pieces]

theorem pieces_append_cons
    {a : α} (h : sep a = true) (x y : List α) :
    pieces sep (x ++ a :: y) = pieces sep x ++ pieces sep y := by
  rw [pieces, List.splitOnP_append_cons x y h, List.filter_append, pieces, pieces]

/-- A text without separators is one piece. -/
theorem pieces_of_forall {x : List α} (h : ∀ a ∈ x, sep a = false) :
    pieces sep x = if x.isEmpty then [] else [x] := by
  rw [pieces, List.splitOnP_eq_singleton h]
  cases x <;> simp

/-- The first separator of a text. -/
theorem forall_or_first (sep : α → Bool) (s : List α) :
    (∀ a ∈ s, sep a = false) ∨
      ∃ x a y, s = x ++ a :: y ∧ sep a = true ∧ ∀ b ∈ x, sep b = false := by
  induction s with
  | nil => exact Or.inl (by simp)
  | cons a s ih =>
      cases ha : sep a with
      | true => exact Or.inr ⟨[], a, s, rfl, ha, by simp⟩
      | false =>
          rcases ih with hall | ⟨x, b, y, rfl, hb, hx⟩
          · exact Or.inl (List.forall_mem_cons.mpr ⟨ha, hall⟩)
          · exact Or.inr ⟨a :: x, b, y, rfl, hb, List.forall_mem_cons.mpr ⟨ha, hx⟩⟩

theorem pieces_intercalate {a : α} (h : sep a = true) (parts : List (List α)) :
    pieces sep (List.intercalate [a] parts) = parts.flatMap (pieces sep) := by
  induction parts with
  | nil => simp [List.intercalate]
  | cons part parts ih =>
      cases parts with
      | nil => simp [List.intercalate]
      | cons next parts =>
          rw [List.intercalate_cons_cons, List.append_assoc, List.singleton_append,
            pieces_append_cons h, ih]
          rfl

/-- A reader that starts afresh behind every separator reads the pieces. -/
theorem foldl_pieces
    {f : β → List α → β} (hnil : ∀ b, f b [] = b)
    (hsep : ∀ b x a y, sep a = true → f b (x ++ a :: y) = f (f b x) y) (b : β) (s : List α) :
    f b s = (pieces sep s).foldl f b := by
  have hplain : ∀ x : List α, (∀ a ∈ x, sep a = false) →
      ∀ c, f c x = (pieces sep x).foldl f c := by
    intro x hx c
    rw [pieces_of_forall hx]
    cases x with
    | nil => exact hnil c
    | cons a x => rfl
  induction hlength : s.length using Nat.strong_induction_on generalizing s b with
  | _ n ih =>
      rcases forall_or_first sep s with hall | ⟨x, a, y, rfl, ha, hx⟩
      · exact hplain s hall b
      · have hshort : y.length < n := by
          rw [← hlength]
          simp only [List.length_append, List.length_cons]
          omega
        rw [hsep b x a y ha, pieces_append_cons ha, List.foldl_append, ← hplain x hx b]
        exact ih y.length hshort (f b x) y rfl

end Pieces

end Lib
end Otelop
