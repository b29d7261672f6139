import Mathlib.Tactic
import Mathlib.Data.List.DropRight

/-!
# Lists that are edited

Rows are put before a list and after it, and taken out of it.  As long as no row comes back,
two rows that a list and a later one have in common have the same rows between them, but for
those taken out.

**Results.**
* `History.sublist`: what lies between two old rows now lay between them then.
* `History.no_gap`: a row that was at or above the row after the last marked one still is.
-/

namespace Otelop
namespace Lib

universe u

variable {α : Type u}

/-! ### Sublists of a concatenation -/

theorem sublist_of_head_notMem
    {a : α} {s p r : List α} (h : (a :: s).Sublist (p ++ r)) (ha : a ∉ p) :
    (a :: s).Sublist r := by
  induction p with
  | nil => exact h
  | cons b p ih =>
      rw [List.cons_append] at h
      cases h with
      | cons _ h => exact ih h fun hmem => ha (List.mem_cons_of_mem b hmem)
      | cons_cons _ h => exact absurd List.mem_cons_self ha

theorem sublist_of_last_notMem
    {b : α} {s r q : List α} (h : (s ++ [b]).Sublist (r ++ q)) (hb : b ∉ q) :
    (s ++ [b]).Sublist r := by
  rw [← List.reverse_sublist, List.reverse_append, List.reverse_append] at h
  rw [← List.reverse_sublist, List.reverse_append]
  exact sublist_of_head_notMem h fun hmem => hb (List.mem_reverse.mp hmem)

/-- Between two rows of an infix there are only rows of it. -/
theorem mem_infix_of_between
    {a x b : α} {l part : List α} (hl : l.Nodup) (hpart : part <:+: l) (ha : a ∈ part)
    (hb : b ∈ part) (h : [a, x, b].Sublist l) :
    x ∈ part := by
  obtain ⟨p, q, rfl⟩ := hpart
  have hleft := List.disjoint_of_nodup_append (List.nodup_append'.mp hl).1
  have hright := List.disjoint_of_nodup_append hl
  have hbefore : ([a, x] ++ [b]).Sublist (p ++ part) :=
    sublist_of_last_notMem h (hright (List.mem_append_right p hb))
  have hwithin := sublist_of_head_notMem hbefore fun hmem => hleft hmem ha
  exact hwithin.subset (by simp)

/-! ### Edits -/

/-- Rows are added at an end, none of them known, or taken out. -/
inductive Edited (known : List α) : List α → List α → Prop
  | prepend {l : List α} (rows : List α) (fresh : ∀ row ∈ rows, row ∉ known) :
      Edited known l (rows ++ l)
  | append {l : List α} (rows : List α) (fresh : ∀ row ∈ rows, row ∉ known) :
      Edited known l (l ++ rows)
  | remove {l l' : List α} (rest : l'.Sublist l) :
      Edited known l l'

theorem Edited.mem
    {known l l' : List α} (h : Edited known l l') {row : α} (hknown : row ∈ known)
    (hmem : row ∈ l') :
    row ∈ l := by
  cases h with
  | prepend rows fresh =>
      exact (List.mem_append.mp hmem).resolve_left fun hrow => fresh row hrow hknown
  | append rows fresh =>
      exact (List.mem_append.mp hmem).resolve_right fun hrow => fresh row hrow hknown
  | remove rest => exact rest.subset hmem

/-- What lies between two known rows lay between them before. -/
theorem Edited.sublist
    {known l l' : List α} (h : Edited known l l') {a b : α} {mid : List α}
    (ha : a ∈ known) (hb : b ∈ known) (hsub : (a :: mid ++ [b]).Sublist l') :
    (a :: mid ++ [b]).Sublist l := by
  cases h with
  | prepend rows fresh => exact sublist_of_head_notMem hsub fun hrow => fresh a hrow ha
  | append rows fresh => exact sublist_of_last_notMem hsub fun hrow => fresh b hrow hb
  | remove rest => exact hsub.trans rest

/-- The lists of an edited list, the newest first.  No row comes back. -/
inductive History : List (List α) → Prop
  | start (l : List α) : History [l]
  | edit {l l' : List α} {earlier : List (List α)}
      (edited : Edited (l :: earlier).flatten l l') (history : History (l :: earlier)) :
      History (l' :: l :: earlier)

section History

variable {newest l : List α} {lists earlier : List (List α)}

theorem mem_flatten_of_suffix
    (h : l :: earlier <:+ lists) {row : α} (hrow : row ∈ (l :: earlier).flatten) :
    row ∈ lists.flatten := by
  obtain ⟨list, hlist, hmem⟩ := List.mem_flatten.mp hrow
  exact List.mem_flatten.mpr ⟨list, h.subset hlist, hmem⟩

/-- A row that was known when a list was current was in it, if it is in the list now. -/
theorem History.mem
    (h : History (newest :: lists)) (hl : l :: earlier <:+ newest :: lists) {row : α}
    (hknown : row ∈ (l :: earlier).flatten) (hmem : row ∈ newest) :
    row ∈ l := by
  induction lists generalizing newest with
  | nil =>
      rcases List.suffix_cons_iff.mp hl with heq | hsuffix
      · obtain ⟨rfl, -⟩ := List.cons.inj heq
        exact hmem
      · exact absurd (List.suffix_nil.mp hsuffix) (List.cons_ne_nil l earlier)
  | cons before lists ih =>
      rcases List.suffix_cons_iff.mp hl with heq | hsuffix
      · obtain ⟨rfl, -⟩ := List.cons.inj heq
        exact hmem
      · cases h with
        | edit edited history =>
            exact ih history hsuffix
              (edited.mem (mem_flatten_of_suffix hsuffix hknown) hmem)

theorem History.sublist
    (h : History (newest :: lists)) (hl : l :: earlier <:+ newest :: lists) {a b : α}
    {mid : List α} (ha : a ∈ (l :: earlier).flatten) (hb : b ∈ (l :: earlier).flatten)
    (hsub : (a :: mid ++ [b]).Sublist newest) :
    (a :: mid ++ [b]).Sublist l := by
  induction lists generalizing newest with
  | nil =>
      rcases List.suffix_cons_iff.mp hl with heq | hsuffix
      · obtain ⟨rfl, -⟩ := List.cons.inj heq
        exact hsub
      · exact absurd (List.suffix_nil.mp hsuffix) (List.cons_ne_nil l earlier)
  | cons before lists ih =>
      rcases List.suffix_cons_iff.mp hl with heq | hsuffix
      · obtain ⟨rfl, -⟩ := List.cons.inj heq
        exact hsub
      · cases h with
        | edit edited history =>
            exact ih history hsuffix (edited.sublist (mem_flatten_of_suffix hsuffix ha)
              (mem_flatten_of_suffix hsuffix hb) hsub)

theorem History.of_suffix
    (h : History (newest :: lists)) (hl : l :: earlier <:+ newest :: lists) :
    History (l :: earlier) := by
  induction lists generalizing newest with
  | nil =>
      rcases List.suffix_cons_iff.mp hl with heq | hsuffix
      · obtain ⟨rfl, rfl⟩ := List.cons.inj heq
        exact h
      · exact absurd (List.suffix_nil.mp hsuffix) (List.cons_ne_nil l earlier)
  | cons before lists ih =>
      rcases List.suffix_cons_iff.mp hl with heq | hsuffix
      · obtain ⟨rfl, rfl⟩ := List.cons.inj heq
        exact h
      · cases h with
        | edit edited history => exact ih history hsuffix

end History

/-! ### The last marked row -/

variable [DecidableEq α]

/-- How many rows there are up to the last marked one. -/
def throughLast (marked l : List α) : Nat :=
  (l.rdropWhile fun row => decide (row ∉ marked)).length

/-- A list with a marked row, split after the last one. -/
theorem exists_last_marked
    {marked l : List α} (h : ∃ row ∈ l, row ∈ marked) :
    ∃ above last below, l = above ++ last :: below ∧ last ∈ marked ∧
      (∀ row ∈ below, row ∉ marked) ∧ throughLast marked l = above.length + 1 := by
  have hne : l.rdropWhile (fun row => decide (row ∉ marked)) ≠ [] := by
    obtain ⟨row, hrow, hmarked⟩ := h
    rw [Ne, List.rdropWhile_eq_nil_iff]
    exact fun hall => absurd hmarked (of_decide_eq_true (hall row hrow))
  have hlast := List.rdropWhile_last_not _ l hne
  rw [decide_eq_true_eq, not_not] at hlast
  refine ⟨(l.rdropWhile fun row => decide (row ∉ marked)).dropLast, _,
    l.rtakeWhile fun row => decide (row ∉ marked), ?_, hlast, ?_, ?_⟩
  · rw [← List.singleton_append, ← List.append_assoc, List.dropLast_append_getLast hne,
      List.rdropWhile_append_rtakeWhile]
  · intro row hrow
    have hout := List.mem_rtakeWhile_imp hrow
    exact of_decide_eq_true hout
  · rw [throughLast, List.length_dropLast,
      Nat.sub_add_cancel (List.length_pos_of_ne_nil hne)]

theorem lt_throughLast
    {marked l : List α} {n : Nat} {row : α} (hrow : l[n]? = some row) (hmarked : row ∈ marked) :
    n < throughLast marked l := by
  by_contra hle
  rw [← List.rdropWhile_append_rtakeWhile (p := fun row => decide (row ∉ marked)) (l := l),
    List.getElem?_append_right (not_lt.mp hle)] at hrow
  have hout := List.mem_rtakeWhile_imp (List.mem_of_getElem? hrow)
  exact of_decide_eq_true hout hmarked

/-- A row that was at or above the row after the last marked one, in a list of the history, is
so now.  The rows are marked in the first list, next to each other. -/
theorem History.no_gap
    {newest l first marked : List α} {lists earlier : List (List α)}
    (h : History (newest :: lists)) (hl : l :: earlier <:+ newest :: lists)
    (hfirst : [first] <:+ l :: earlier) (hnodup : first.Nodup) (hnodup' : l.Nodup)
    (hmarked : marked <:+: first) {n : Nat} {row : α} (hrow : l[n]? = some row)
    (hn : n ≤ throughLast marked l) (hmem : row ∈ newest)
    (hstill : ∃ row ∈ newest, row ∈ marked) :
    newest.idxOf row ≤ throughLast marked newest := by
  have hknown : ∀ r ∈ first, r ∈ (l :: earlier).flatten := fun r hr =>
    mem_flatten_of_suffix hfirst (by simpa using hr)
  have hrowl : row ∈ l := List.mem_of_getElem? hrow
  obtain ⟨above, last, below, rfl, hlast, hbelow, hthrough⟩ := exists_last_marked hstill
  rw [hthrough]
  by_contra hgap
  -- The row after the last marked one is passed over.
  have hnotabove : row ∉ above ++ [last] := by
    intro hin
    have hlt := List.idxOf_lt_length_of_mem hin
    rw [List.length_append, List.length_singleton] at hlt
    rw [← List.singleton_append, ← List.append_assoc, List.idxOf_append_of_mem hin] at hgap
    omega
  obtain ⟨passed, rest, rfl⟩ : ∃ passed rest, below = passed :: rest := by
    cases below with
    | nil => exact absurd hmem hnotabove
    | cons passed rest => exact ⟨passed, rest, rfl⟩
  have hne : row ≠ passed := by
    rintro rfl
    rw [← List.singleton_append, ← List.append_assoc, List.idxOf_append_of_notMem hnotabove,
      List.idxOf_cons_self, List.length_append, List.length_singleton] at hgap
    omega
  have hrest : row ∈ rest := by
    simp only [List.mem_append, List.mem_cons, List.not_mem_nil, or_false] at hmem hnotabove
    tauto
  have hnow : ([last, passed] ++ [row]).Sublist (above ++ last :: passed :: rest) := by
    refine List.Sublist.trans ?_ (List.sublist_append_right above _)
    exact ((List.singleton_sublist.mpr hrest).cons_cons passed).cons_cons last
  have hlastl : last ∈ l := h.mem hl (hknown last (hmarked.subset hlast)) (by simp)
  have hthen : ([last, passed] ++ [row]).Sublist l :=
    h.sublist hl (hknown last (hmarked.subset hlast))
      (List.mem_flatten_of_mem (List.mem_cons_self) hrowl) hnow
  -- It was at or above the row that was the last marked one then.
  obtain ⟨above', last', below', heq, hlast', -, hthrough'⟩ :=
    exists_last_marked ⟨last, hlastl, hlast⟩
  obtain ⟨hlt, hget⟩ := List.getElem?_eq_some_iff.mp hrow
  have hsplit : l = (l.take n ++ [row]) ++ l.drop (n + 1) := by
    rw [List.append_assoc, List.singleton_append, ← hget, ← List.drop_eq_getElem_cons hlt,
      List.take_append_drop]
  have hnotbelow : row ∉ l.drop (n + 1) := by
    rw [hsplit] at hnodup'
    exact fun hin => List.disjoint_of_nodup_append hnodup' (by simp) hin
  rw [hsplit] at hthen
  have htake : [last, passed].Sublist (l.take n) :=
    (List.append_sublist_append_right [row]).mp (sublist_of_last_notMem hthen hnotbelow)
  have hprefix : (l.take n).Sublist (above' ++ [last']) := by
    have htop : l.take (above'.length + 1) = above' ++ [last'] := by
      rw [heq, ← List.singleton_append, ← List.append_assoc]
      exact List.take_left' (by simp)
    rw [← htop]
    exact List.take_sublist_take_left (hthrough' ▸ hn)
  have hbetween : ([last] ++ [passed]).Sublist (above' ++ [last']) := htake.trans hprefix
  by_cases hsame : passed = last'
  · exact hbelow passed List.mem_cons_self (hsame ▸ hlast')
  · have habove := sublist_of_last_notMem hbetween (by simpa using hsame)
    have hthree : ([last, passed] ++ [last']).Sublist l := by
      have hend : l = (above' ++ [last']) ++ below' := by
        rw [heq, List.append_assoc, List.singleton_append]
      rw [hend]
      exact (List.Sublist.append_right habove [last']).trans (List.sublist_append_left _ _)
    have hstart := (h.of_suffix hl).sublist hfirst (a := last) (b := last')
      (by simpa using hmarked.subset hlast) (by simpa using hmarked.subset hlast') hthree
    exact hbelow passed List.mem_cons_self
      (mem_infix_of_between hnodup hmarked hlast hlast' hstart)

end Lib
end Otelop
