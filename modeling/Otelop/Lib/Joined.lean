import Mathlib.Tactic

/-!
# Joined texts

Texts joined by a separator can be read back in more than one way, when the separator occurs in
the texts themselves.  Two lists of texts have the same join when they group the same pieces
differently.

A separator is any list that does not overlap itself (`Unbordered`): one element, or two
different ones.  `Refines` says that texts are the joins of runs of pieces, and `Regroups` that
two lists of texts come from one list of pieces; the pieces need not be free of the separator.
The proof goes through both joins from the front, and compares the first texts by their length.

**Results.**
* `intercalate_of_refines`: grouping pieces does not change the join.
* `intercalate_eq_iff`, `intercalate_eq_iff_or`: the lists with the same join are regroupings.
* `append_cons_inj`: without the separator in the first texts there is one reading.
-/

namespace Otelop
namespace Lib

universe u

variable {α : Type u} {sep : List α}

/-- No proper part of the separator stands at both its ends. -/
def Unbordered (sep : List α) : Prop :=
  sep ≠ [] ∧ ∀ part, part <+: sep → part <:+ sep → part = [] ∨ part = sep

/-- The texts are the joins of runs of the pieces. -/
inductive Refines (sep : List α) : List (List α) → List (List α) → Prop where
  | nil : Refines sep [] []
  | run {run pieces texts : List (List α)} (hrun : run ≠ []) (rest : Refines sep pieces texts) :
      Refines sep (run ++ pieces) (sep.intercalate run :: texts)

/-- The texts are two groupings of the same pieces. -/
def Regroups (sep : List α) (texts texts' : List (List α)) : Prop :=
  ∃ pieces, Refines sep pieces texts ∧ Refines sep pieces texts'

/-- Two different groupings. -/
def Regrouped (sep : List α) (texts texts' : List (List α)) : Prop :=
  texts ≠ texts' ∧ Regroups sep texts texts'

theorem Regroups.symm {texts texts' : List (List α)} (h : Regroups sep texts texts') :
    Regroups sep texts' texts := by
  obtain ⟨pieces, hleft, hright⟩ := h
  exact ⟨pieces, hright, hleft⟩

/-! ### Grouping keeps the join -/

theorem intercalate_append
    {run texts : List (List α)} (hrun : run ≠ []) (htexts : texts ≠ []) :
    sep.intercalate (run ++ texts) = sep.intercalate run ++ sep ++ sep.intercalate texts := by
  induction run with
  | nil =>
      exact absurd rfl hrun
  | cons x run ih =>
      cases run with
      | nil =>
          rw [List.singleton_append, List.intercalate_singleton,
            List.intercalate_cons_of_ne_nil htexts]
      | cons y run =>
          rw [List.cons_append, List.intercalate_cons_of_ne_nil (by simp),
            ih (List.cons_ne_nil y run), List.intercalate_cons_cons]
          simp only [List.append_assoc]

theorem Refines.eq_nil_iff {pieces texts : List (List α)} (h : Refines sep pieces texts) :
    pieces = [] ↔ texts = [] := by
  cases h with
  | nil =>
      exact Iff.rfl
  | run hrun rest =>
      exact iff_of_false (fun h => hrun (List.append_eq_nil_iff.mp h).1) (List.cons_ne_nil _ _)

/-- Grouping pieces does not change the join. -/
theorem intercalate_of_refines {pieces texts : List (List α)} (h : Refines sep pieces texts) :
    sep.intercalate pieces = sep.intercalate texts := by
  induction h with
  | nil =>
      rfl
  | @run run pieces texts hrun rest ih =>
      by_cases hnil : pieces = []
      · rw [rest.eq_nil_iff.mp hnil, hnil, List.append_nil, List.intercalate_singleton]
      · rw [intercalate_append hrun hnil, ih,
          List.intercalate_cons_of_ne_nil (mt rest.eq_nil_iff.mpr hnil)]

/-! ### The lists with one join -/

/-- The texts behind the first one. -/
theorem intercalate_cons (x : List α) (texts : List (List α)) :
    sep.intercalate (x :: texts) =
      x ++ if texts = [] then [] else sep ++ sep.intercalate texts := by
  by_cases h : texts = []
  · rw [if_pos h, h, List.intercalate_singleton, List.append_nil]
  · rw [if_neg h, List.intercalate_cons_of_ne_nil h, List.append_assoc]

theorem regroups_cons {x : List α} {texts texts' : List (List α)}
    (h : Regroups sep texts texts') : Regroups sep (x :: texts) (x :: texts') := by
  obtain ⟨pieces, hleft, hright⟩ := h
  refine ⟨[x] ++ pieces, ?_, ?_⟩
  · have hrun := Refines.run (List.cons_ne_nil x []) hleft
    rwa [List.intercalate_singleton] at hrun
  · have hrun := Refines.run (List.cons_ne_nil x []) hright
    rwa [List.intercalate_singleton] at hrun

/-- A text that goes on behind a separator has one piece more in front. -/
theorem regroups_of_longer {x z : List α} {texts texts' : List (List α)}
    (h : Regroups sep texts (z :: texts')) :
    Regroups sep (x :: texts) ((x ++ (sep ++ z)) :: texts') := by
  obtain ⟨pieces, hleft, hright⟩ := h
  cases hright with
  | @run run pieces _ hrun rest =>
      refine ⟨[x] ++ (run ++ pieces), ?_, ?_⟩
      · have hcons := Refines.run (List.cons_ne_nil x []) hleft
        rwa [List.intercalate_singleton] at hcons
      · have hcons := Refines.run (List.cons_ne_nil x run) rest
        rwa [List.intercalate_cons_of_ne_nil hrun, List.append_assoc] at hcons

/-- The shorter first text is the longer one, or ends where a separator stands in it. -/
theorem cases_of_intercalate
    (hsep : Unbordered sep) {x z : List α} {texts texts' : List (List α)}
    (h : sep.intercalate (x :: texts) = sep.intercalate ((x ++ z) :: texts')) :
    (z = [] ∧ (texts = [] ↔ texts' = []) ∧
        sep.intercalate texts = sep.intercalate texts') ∨
      ∃ z', z = sep ++ z' ∧ texts ≠ [] ∧
        sep.intercalate texts = sep.intercalate (z' :: texts') := by
  rw [intercalate_cons, intercalate_cons, List.append_assoc, List.append_cancel_left_eq] at h
  have hne : ∀ l : List α, sep ++ l ≠ [] := fun l => List.append_ne_nil_of_left_ne_nil hsep.1 l
  by_cases hz : z = []
  · refine Or.inl ⟨hz, ?_⟩
    rw [hz, List.nil_append] at h
    by_cases htexts : texts = []
    · have htexts' : texts' = [] := by
        by_contra hnot
        rw [if_pos htexts, if_neg hnot] at h
        exact hne _ h.symm
      rw [htexts, htexts']
      exact ⟨Iff.rfl, rfl⟩
    · have htexts' : texts' ≠ [] := by
        intro hnil
        rw [if_neg htexts, if_pos hnil] at h
        exact hne _ h
      rw [if_neg htexts, if_neg htexts', List.append_cancel_left_eq] at h
      exact ⟨iff_of_false htexts htexts', h⟩
  · have htexts : texts ≠ [] := by
      intro hnil
      rw [if_pos hnil] at h
      exact hz (List.append_eq_nil_iff.mp h.symm).1
    rw [if_neg htexts] at h
    rcases List.append_eq_append_iff.mp h with ⟨z', rfl, hrest⟩ | ⟨part, rfl, hrest⟩
    · exact Or.inr ⟨z', rfl, htexts, by rw [hrest, intercalate_cons]⟩
    · -- The separator of the one would begin inside the separator of the other.
      by_cases hpart : part = []
      · subst hpart
        refine Or.inr ⟨[], ?_, htexts, ?_⟩
        · rw [List.append_nil, List.append_nil]
        · rw [List.nil_append] at hrest
          rw [intercalate_cons, List.nil_append, hrest]
      · have htexts' : texts' ≠ [] := by
          intro hnil
          rw [if_pos hnil] at hrest
          exact hpart (List.append_eq_nil_iff.mp hrest.symm).1
        rw [if_neg htexts'] at hrest
        have hprefix : part <+: z ++ part :=
          List.prefix_of_prefix_length_le ⟨_, hrest.symm⟩ (List.prefix_append _ _) (by simp)
        rcases hsep.2 part hprefix (List.suffix_append z part) with hnil | hall
        · exact absurd hnil hpart
        · exact absurd (List.append_left_eq_self.mp hall.symm) hz

theorem regroups_of_intercalate
    (hsep : Unbordered sep) :
    ∀ (n : Nat) {texts texts' : List (List α)}, texts.length + texts'.length ≤ n →
      texts ≠ [] → texts' ≠ [] → sep.intercalate texts = sep.intercalate texts' →
      Regroups sep texts texts' := by
  intro n
  induction n with
  | zero =>
      intro texts texts' hlength htexts
      exact absurd (List.length_eq_zero_iff.mp (by omega)) htexts
  | succ n ih =>
      have hshorter : ∀ {x y : List α} {texts texts' : List (List α)},
          (x :: texts).length + (y :: texts').length ≤ n + 1 → x.length ≤ y.length →
          sep.intercalate (x :: texts) = sep.intercalate (y :: texts') →
          Regroups sep (x :: texts) (y :: texts') := by
        intro x y texts texts' hlength hle hjoin
        have hfirst : ∀ (x : List α) (texts : List (List α)),
            x <+: sep.intercalate (x :: texts) := by
          intro x texts
          rw [intercalate_cons]
          exact List.prefix_append _ _
        obtain ⟨z, rfl⟩ : x <+: y :=
          List.prefix_of_prefix_length_le (hfirst x texts) (hjoin ▸ hfirst y texts') hle
        simp only [List.length_cons] at hlength
        rcases cases_of_intercalate hsep hjoin with ⟨rfl, hnil, hrest⟩ | ⟨z', rfl, hne, hrest⟩
        · rw [List.append_nil]
          refine regroups_cons ?_
          by_cases htexts : texts = []
          · rw [htexts, hnil.mp htexts]
            exact ⟨[], .nil, .nil⟩
          · exact ih (by omega) htexts (mt hnil.mpr htexts) hrest
        · refine regroups_of_longer (ih ?_ hne (List.cons_ne_nil _ _) hrest)
          rw [List.length_cons]
          omega
      intro texts texts' hlength htexts htexts' hjoin
      cases texts with
      | nil =>
          exact absurd rfl htexts
      | cons x texts =>
          cases texts' with
          | nil =>
              exact absurd rfl htexts'
          | cons y texts' =>
              rcases Nat.le_total x.length y.length with hle | hle
              · exact hshorter hlength hle hjoin
              · exact (hshorter (by omega) hle hjoin.symm).symm

/-- The lists with one join are regroupings. -/
theorem intercalate_eq_iff
    (hsep : Unbordered sep) {texts texts' : List (List α)} (htexts : texts ≠ [])
    (htexts' : texts' ≠ []) :
    sep.intercalate texts = sep.intercalate texts' ↔ Regroups sep texts texts' := by
  constructor
  · exact regroups_of_intercalate hsep _ le_rfl htexts htexts'
  · rintro ⟨pieces, hleft, hright⟩
    rw [← intercalate_of_refines hleft, intercalate_of_refines hright]

/-- The join tells texts apart that are no regroupings. -/
theorem intercalate_eq_iff_or
    (hsep : Unbordered sep) {texts texts' : List (List α)} (hnil : texts = [] ↔ texts' = []) :
    sep.intercalate texts = sep.intercalate texts' ↔
      texts = texts' ∨ Regrouped sep texts texts' := by
  constructor
  · intro h
    by_cases hsame : texts = texts'
    · exact Or.inl hsame
    · refine Or.inr ⟨hsame, ?_⟩
      have htexts : texts ≠ [] := by
        intro htexts
        exact hsame (htexts.trans (hnil.mp htexts).symm)
      exact (intercalate_eq_iff hsep htexts (mt hnil.mpr htexts)).mp h
  · rintro (rfl | ⟨-, pieces, hleft, hright⟩)
    · rfl
    · rw [← intercalate_of_refines hleft, intercalate_of_refines hright]

theorem unbordered_singleton (c : α) : Unbordered [c] := by
  refine ⟨List.cons_ne_nil c [], fun part hpart _ => ?_⟩
  rcases List.prefix_cons_iff.mp hpart with hnil | ⟨rest, rfl, hrest⟩
  · exact Or.inl hnil
  · rw [List.prefix_nil.mp hrest]
    exact Or.inr rfl

theorem unbordered_pair {c d : α} (h : c ≠ d) : Unbordered [c, d] := by
  refine ⟨List.cons_ne_nil c [d], fun part hleft hright => ?_⟩
  rcases List.prefix_cons_iff.mp hleft with hnil | ⟨rest, rfl, hrest⟩
  · exact Or.inl hnil
  · rcases List.prefix_cons_iff.mp hrest with rfl | ⟨rest', rfl, hrest'⟩
    · have hlast := hright.getLast (List.cons_ne_nil c [])
      exact absurd hlast h
    · rw [List.prefix_nil.mp hrest']
      exact Or.inr rfl

/-- A text up to the first occurrence of a character is read back. -/
theorem append_cons_inj
    {c : α} {x x' y y' : List α} (hx : c ∉ x) (hx' : c ∉ x')
    (h : x ++ c :: y = x' ++ c :: y') : x = x' ∧ y = y' := by
  rcases List.append_eq_append_iff.mp h with ⟨z, rfl, hz⟩ | ⟨z, rfl, hz⟩
  · cases z with
    | nil =>
        exact ⟨(List.append_nil x).symm, (List.cons.inj hz).2⟩
    | cons d z =>
        exact absurd (by simp [(List.cons.inj hz).1]) hx'
  · cases z with
    | nil =>
        exact ⟨List.append_nil x', (List.cons.inj hz).2.symm⟩
    | cons d z =>
        exact absurd (by simp [(List.cons.inj hz).1]) hx

end Lib
end Otelop
