import Mathlib.Tactic

/-!
# Quoted words and doubled bytes

A word in the single quotes of a POSIX shell, and bytes that are written twice because once
they mean something else.

Both are on bytes, since a path need not be a text.  In single quotes every byte stands for
itself apart from the quote, so a quote inside a word ends the quotation, is written with a
backslash and begins a new one.  The reader `shellWord` goes through a command as a shell
does: it reads plain, quoted and escaped bytes and stops at the end of the first word, and
gives nothing for what would mean more than text.

**Results.**
* `shellWord_singleQuoted`: a quoted word is read back.
* `undouble_flatMap_doubled`: doubled bytes are read back.
* `notMem_flatMap_doubled`: doubling brings in no byte that was not there.
-/

namespace Otelop
namespace Lib

/-! ### Words of a shell -/

/-- What single quotes make of a byte. -/
def shellByte (b : UInt8) : List UInt8 := if b = 0x27 then [0x27, 0x5C, 0x27, 0x27] else [b]

/-- A word in single quotes. -/
def singleQuoted (s : List UInt8) : List UInt8 := 0x27 :: (s.flatMap shellByte ++ [0x27])

inductive ShellState where
  | unquoted
  | quoted
  | escaped

/-- Blanks, line ends and the characters of operators end a word. -/
def endsWord (b : UInt8) : Bool :=
  decide (b ∈ ([0x20, 0x09, 0x0A, 0x26, 0x3B, 0x7C, 0x3C, 0x3E, 0x28, 0x29] : List UInt8))

/-- Letters, digits and the punctuation that no shell expands. -/
def isLiteralByte (b : UInt8) : Bool :=
  decide (0x30 ≤ b.toNat ∧ b.toNat ≤ 0x39) || decide (0x41 ≤ b.toNat ∧ b.toNat ≤ 0x5A) ||
    decide (0x61 ≤ b.toNat ∧ b.toNat ≤ 0x7A) ||
    decide (b ∈ ([0x2B, 0x2C, 0x2D, 0x2E, 0x2F, 0x3A, 0x40, 0x5F] : List UInt8))

/-- A word and what follows it.  Words that the shell would expand are not read. -/
def shellWord : ShellState → List UInt8 → Option (List UInt8 × List UInt8)
  | .unquoted, [] => some ([], [])
  | _, [] => none
  | .unquoted, b :: rest =>
      if b = 0x27 then shellWord .quoted rest
      else if b = 0x5C then shellWord .escaped rest
      else if endsWord b then some ([], b :: rest)
      else if isLiteralByte b then
        (shellWord .unquoted rest).map fun word => (b :: word.1, word.2)
      else none
  | .quoted, b :: rest =>
      if b = 0x27 then shellWord .unquoted rest
      else (shellWord .quoted rest).map fun word => (b :: word.1, word.2)
  | .escaped, b :: rest =>
      -- A line break behind a backslash is not part of the word.
      if b = 0x0A then shellWord .unquoted rest
      else (shellWord .unquoted rest).map fun word => (b :: word.1, word.2)

/-- A shell reads an escaped text to its closing quote. -/
theorem shellWord_flatMap
    (s rest : List UInt8) :
    shellWord .quoted (s.flatMap shellByte ++ 0x27 :: rest) =
      (shellWord .unquoted rest).map fun word => (s ++ word.1, word.2) := by
  induction s with
  | nil =>
      rw [List.flatMap_nil, List.nil_append, shellWord, if_pos rfl]
      exact Option.map_id'.symm
  | cons b s ih =>
      rw [List.flatMap_cons, List.append_assoc]
      by_cases hquote : b = 0x27
      · -- The quotes are closed, the quote is escaped, and the quotes are opened again.
        subst hquote
        rw [shellByte, if_pos rfl]
        simp only [List.cons_append, List.nil_append]
        rw [shellWord, if_pos rfl, shellWord, if_neg (by decide), if_pos rfl, shellWord,
          if_neg (by decide), shellWord, if_pos rfl, ih, Option.map_map]
        rfl
      · rw [shellByte, if_neg hquote, List.singleton_append, shellWord, if_neg hquote, ih,
          Option.map_map]
        rfl

/-- A shell reads a quoted text as one word. -/
theorem shellWord_singleQuoted
    (s : List UInt8) {b : UInt8} (hb : endsWord b = true) (rest : List UInt8) :
    shellWord .unquoted (singleQuoted s ++ b :: rest) = some (s, b :: rest) := by
  have hquote : b ≠ 0x27 := by
    rintro rfl
    revert hb
    decide
  have hslash : b ≠ 0x5C := by
    rintro rfl
    revert hb
    decide
  rw [singleQuoted, List.cons_append, shellWord, if_pos rfl, List.append_assoc,
    List.singleton_append, shellWord_flatMap, shellWord, if_neg hquote, if_neg hslash, if_pos hb,
    Option.map_some, List.append_nil]

/-! ### Doubled bytes -/

/-- A byte of which there are two is read as one; alone it means something else. -/
def undouble (mark : UInt8) : List UInt8 → Option (List UInt8)
  | [] => some []
  | b :: rest =>
      if b = mark then
        match rest with
        | [] => none
        | c :: rest => if c = mark then (undouble mark rest).map (mark :: ·) else none
      else (undouble mark rest).map (b :: ·)

/-- Some bytes are written twice. -/
def doubled (marks : List UInt8) (b : UInt8) : List UInt8 := if b ∈ marks then [b, b] else [b]

/-- Undoubling one mark leaves the other marks doubled. -/
theorem undouble_flatMap_doubled
    {mark : UInt8} {marks : List UInt8} (hmark : mark ∉ marks) (s : List UInt8) :
    undouble mark (s.flatMap (doubled (mark :: marks))) = some (s.flatMap (doubled marks)) := by
  have hplain : ∀ b rest, b ≠ mark →
      undouble mark (b :: rest) = (undouble mark rest).map (b :: ·) := by
    intro b rest hb
    rw [undouble.eq_def]
    exact if_neg hb
  induction s with
  | nil => rfl
  | cons b s ih =>
      rw [List.flatMap_cons, List.flatMap_cons]
      by_cases hb : b = mark
      · subst hb
        rw [doubled, if_pos List.mem_cons_self, doubled, if_neg hmark]
        simp only [List.cons_append, List.nil_append]
        rw [undouble, if_pos rfl, if_pos rfl, ih, Option.map_some]
      · by_cases hmem : b ∈ marks
        · rw [doubled, if_pos (List.mem_cons_of_mem mark hmem), doubled, if_pos hmem]
          simp only [List.cons_append, List.nil_append]
          rw [hplain _ _ hb, hplain _ _ hb, ih, Option.map_some, Option.map_some]
        · have hnot : b ∉ mark :: marks := fun h => (List.mem_cons.mp h).elim hb hmem
          rw [doubled, if_neg hnot, doubled, if_neg hmem]
          simp only [List.cons_append, List.nil_append]
          rw [hplain _ _ hb, ih, Option.map_some]

/-- Without marks nothing is doubled. -/
theorem flatMap_doubled_nil (s : List UInt8) : s.flatMap (doubled []) = s := by
  have hone : ∀ b ∈ s, doubled [] b = [b] := fun b _ => if_neg List.not_mem_nil
  rw [List.flatMap_congr hone, List.flatMap_singleton']

/-- Doubling brings in no new byte. -/
theorem notMem_flatMap_doubled
    {b : UInt8} {s : List UInt8} (h : b ∉ s) (marks : List UInt8) :
    b ∉ s.flatMap (doubled marks) := by
  intro hmem
  obtain ⟨c, hc, hb⟩ := List.mem_flatMap.mp hmem
  have heq : b = c := by
    rw [doubled] at hb
    split_ifs at hb <;> simpa using hb
  exact h (heq ▸ hc)

end Lib
end Otelop
